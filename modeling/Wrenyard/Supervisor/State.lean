import Wrenyard.Supervisor.Locks

/-!
# Executions of the supervisor

An execution is its row, the events stored for it, and the registry entry it has in this lifetime of the supervisor.
An entry outlives its place in the registry, as the routines that were started for it still hold it.  Of an
execution's client the model has the session, with whether it is over: its stream has ended, its cancellation has
completed or its process was found absent.
-/

namespace Wrenyard.Supervisor

open Js

def MAX_CONCURRENT_EXECUTIONS : Nat := 10

inductive Status where
  | queued | starting | running | done | failed | cancelled | timeout | interrupted
deriving DecidableEq

def Status.isTerminal : Status → Bool
  | .queued | .starting | .running => false
  | .done | .failed | .cancelled | .timeout | .interrupted => true

inductive KillReason where
  | cancel | timeout | shutdown | crash | spawnError
deriving DecidableEq

inductive EventType where
  | dispatch | queueWaiting | queueAcquired | childStart | terminal | cancelled | result | turnComplete

def EventType.endsExecution : EventType → Bool
  | .terminal | .cancelled => true
  | _ => false

structure Row where
  cwd : JsString
  createdAt : Nat
  timeoutMs : Option Nat
  status : Status
  pid : Option Nat
  killReason : Option KillReason
  error : Option JsString

structure ExecutionResult where
  status : Status
  killReason : Option KillReason
  error : Option JsString
deriving DecidableEq

def resultFromRow (row : Row) : ExecutionResult :=
  { status := row.status, killReason := row.killReason, error := row.error }

inductive Wait where
  | resolved (result : ExecutionResult)
  | rejected (error : JsString)
deriving DecidableEq

inductive TerminalIntent where
  | cancel | timeout | shutdown
deriving DecidableEq

structure Session where
  pid : Option Nat
  isOver : Bool

/-- The promise of a requested cancellation of the session. -/
inductive Kill where
  | pending | resolved | rejected

/-- The `finished` event of a stream. -/
structure Finished where
  done : Bool
  error : Option JsString

inductive Observer where
  | unattached
  | streaming
  | closing
  | draining (intent : Option TerminalIntent)
  | returned
deriving DecidableEq

structure Entry where
  executionId : ExecutionId
  repoWriteLock : Bool
  writePaths : Option (List JsString)
  hasRepoLock : Bool
  /-- The client start that is awaited, with whether it was promoted from the queue. -/
  starting : Option Bool := none
  session : Option Session := none
  observer : Observer := .unattached
  finished : Option Finished := none
  timer : Bool := false
  cancelRequested : Bool := false
  terminalGeneration : Nat := 0
  terminalIntent : Option TerminalIntent := none
  kill : Option Kill := none
  /-- The registry holds the entry. -/
  registered : Bool := true
  wait : Option Wait := none

structure Execution where
  row : Row
  events : List EventType
  entry : Option Entry

def Entry.pid (e : Entry) : Option Nat := e.session.bind Session.pid

/-- The text of an error about the execution. -/
def Entry.message (e : Entry) (text : String) : JsString :=
  js "Execution '" ++ natText e.executionId ++ js ("' " ++ text)

def Entry.settle (e : Entry) (w : Wait) : Entry :=
  { e with timer := false, registered := false, wait := some (e.wait.getD w) }

def Entry.resolveAndForget (e : Entry) (result : ExecutionResult) : Entry := e.settle (.resolved result)

def Entry.rejectAndForget (e : Entry) (error : JsString) : Entry := e.settle (.rejected error)

/-- `claimTerminalIntent`: whether it was claimed, and the entry. -/
def Entry.claimTerminalIntent (e : Entry) (intent : TerminalIntent) : Bool × Entry :=
  if e.terminalGeneration > 0 ∨ e.terminalIntent.isSome then (false, e)
  else (true, { e with terminalIntent := some intent })

/-- `requestKillOnce` of an entry with a session. -/
def Entry.requestKillOnce (e : Entry) : Entry := { e with kill := some (e.kill.getD .pending) }

def Entry.active (e : Entry) : Bool := e.starting.isSome || e.session.any fun session => !session.isOver

/-- What a routine makes of an execution, with whether it releases its lock and whether it asks for a promotion. -/
structure Effect where
  execution : Execution
  release : Bool := false
  promote : Bool := false

def endEvent (status : Status) : EventType := if status = .cancelled then .cancelled else .terminal

def Row.ended (row : Row) (status : Status) (killReason : Option KillReason) (error : Option JsString) : Row :=
  { row with status, killReason, error }

def Execution.lost (x : Execution) (e : Entry) (error : JsString) : Effect :=
  if x.row.status.isTerminal then
    let e := { e with terminalGeneration := e.terminalGeneration + 1 }
    { execution := { x with entry := some (e.resolveAndForget (resultFromRow x.row)) }, promote := true }
  else { execution := { x with entry := some (e.rejectAndForget error) }, release := true, promote := true }

def terminalizeIdle (x : Execution) (e : Entry) (status : Status) (killReason : KillReason) (error lost : JsString) :
    Effect :=
  if e.terminalGeneration > 0 then { execution := { x with entry := some e } }
  else if x.row.status = .queued ∨ x.row.status = .starting then
    let row := x.row.ended status (some killReason) (some error)
    let e := { e with terminalGeneration := e.terminalGeneration + 1 }
    { execution :=
        { row, events := x.events ++ [endEvent status], entry := some (e.resolveAndForget (resultFromRow row)) }
      release := true, promote := true }
  else x.lost e lost

def terminalizeQueued (x : Execution) (e : Entry) (status : Status) (killReason : KillReason) (error : JsString) :
    Effect :=
  terminalizeIdle x e status killReason error (e.message "queued terminal transaction did not commit")

def terminalizeStartingFailure (x : Execution) (e : Entry) (error : JsString) : Effect :=
  terminalizeIdle x e .failed .spawnError error (e.message "spawn-error transaction did not commit")

def terminalizeRunning (x : Execution) (e : Entry) (status : Status) (killReason : Option KillReason)
    (error : Option JsString) : Effect :=
  if e.terminalGeneration > 0 then { execution := { x with entry := some e } }
  else if x.row.status = .running then
    let row := x.row.ended status killReason error
    let events :=
      [endEvent status] ++ (if status = .done then [EventType.result] else []) ++ [EventType.turnComplete]
    let e := { e with terminalGeneration := e.terminalGeneration + 1 }
    { execution := { row, events := x.events ++ events, entry := some (e.resolveAndForget (resultFromRow row)) }
      release := true, promote := true }
  else x.lost e (e.message "terminal transaction did not commit")

/-- `reconcileCancelled` and `reconcileTimeout`: the execution where the compare-and-set won. -/
def reconcile (x : Execution) (status : Status) (killReason : KillReason) (error : JsString) : Option Execution :=
  if x.row.status.isTerminal then none
  else some { x with row := x.row.ended status (some killReason) (some error),
                     events := x.events ++ [endEvent status] }

def settleAtBound (x : Execution) (e : Entry) (status : Status) (killReason : KillReason)
    (error : JsString) : Effect :=
  if e.terminalGeneration > 0 then { execution := { x with entry := some e } }
  else
    let e := { e with terminalGeneration := e.terminalGeneration + 1 }
    match reconcile x status killReason error with
    | some won =>
      { execution := { won with entry := some (e.resolveAndForget ⟨status, some killReason, some error⟩) }
        release := true }
    | none => { execution := { x with entry := some (e.resolveAndForget (resultFromRow x.row)) } }

def settleRegisteredCancellation (x : Execution) (e : Entry) : Effect :=
  settleAtBound x e .cancelled .cancel (js "cancelled")

def settleAttemptTimeout (x : Execution) (e : Entry) : Effect := settleAtBound x e .timeout .timeout (js "timeout")

def determineTerminalStatus (intent : Option TerminalIntent) (finished : Option Finished) : Status :=
  match intent with
  | some .shutdown => .interrupted
  | some .cancel => .cancelled
  | some .timeout => .timeout
  | none => if finished.any Finished.done then .done else .failed

def determineKillReason : Status → Option KillReason
  | .cancelled => some .cancel
  | .timeout => some .timeout
  | .interrupted => some .shutdown
  | _ => none

/-- `handleChildClose` behind its await. -/
def handleChildClose (redact : JsString → JsString) (x : Execution) (e : Entry) (intent : Option TerminalIntent) :
    Effect :=
  let status := determineTerminalStatus intent e.finished
  let errorText := (e.finished.bind Finished.error).filter (· ≠ [])
  let error := if status = .failed then some (redact (errorText.getD (js "execution failed"))) else none
  terminalizeRunning x { e with observer := .returned } status (determineKillReason status) error

/-- How a client start settles. -/
inductive StartOutcome where
  | session (pid : Option Nat)
  | laneClosed
  | failed (error : JsString)

def Row.hasDeadline (row : Row) : Bool := row.timeoutMs.any fun timeoutMs => 0 < timeoutMs

/-- `launchExecution` behind the client start. -/
def afterStart (x : Execution) (e : Entry) (fromQueue : Bool) (outcome : StartOutcome) : Effect :=
  let e := { e with starting := none }
  match outcome with
  | .session pid =>
    let e := { e with session := some { pid, isOver := false } }
    if x.row.status = .starting then
      { execution :=
          { row := { x.row with status := .running, pid }
            events := x.events ++ [if fromQueue then .queueAcquired else .childStart]
            entry := some { e with timer := x.row.hasDeadline, observer := .streaming } } }
    else if x.row.status.isTerminal then
      let e := { e with kill := some .pending, terminalGeneration := e.terminalGeneration + 1 }
      { execution := { x with entry := some (e.resolveAndForget (resultFromRow x.row)) }, promote := true }
    else terminalizeStartingFailure x e (e.message "lost its starting transition")
  | .laneClosed =>
    if e.cancelRequested ∨ e.terminalIntent.isSome then { execution := { x with entry := some e } }
    else terminalizeQueued x e .cancelled .cancel (js "cancelled")
  | .failed error =>
    if e.cancelRequested ∨ e.terminalIntent.isSome then { execution := { x with entry := some e } }
    else terminalizeStartingFailure x e error

end Wrenyard.Supervisor
