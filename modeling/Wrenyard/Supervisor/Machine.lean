import Wrenyard.Supervisor.State

/-!
# The supervisor

A step is a call of the supervisor, a client's doing, a bound that elapses, or a routine that goes on behind an await.
What runs without an await is one step, with the promotion a terminal path asks for at its end.  The loop of
`shutdown` takes one entry in a step.
-/

namespace Wrenyard.Supervisor

open Js

/-- A row of the queue, as a promotion reads it. -/
structure Candidate where
  id : ExecutionId
  cwd : JsString

inductive Routine where
  /-- `cancelExecution` for the session's cancellation. -/
  | cancelKill (id : ExecutionId)
  /-- `cancelExecution` for the wait promise or the bound. -/
  | cancelRace (id : ExecutionId)
  /-- `cancelQueuedExecutionWithoutRegistry` for the kill of a recorded process. -/
  | cancelRow (id : ExecutionId)
  /-- `settleAttemptTimeout` for the wait promise or the bound. -/
  | timeoutRace (id : ExecutionId)
  /-- `shutdown` for its grace period. -/
  | shutdownGrace
  /-- `shutdown` before the next entry. -/
  | shutdownLoop (rest : List ExecutionId)
  /-- `shutdown` for a session's cancellation. -/
  | shutdownKill (id : ExecutionId) (rest : List ExecutionId)
deriving DecidableEq

structure State where
  executions : OMap ExecutionId Execution
  locks : Locks
  routines : List Routine := []
  /-- The promotion that awaits a launch, with the candidates behind it. -/
  promotion : Option (ExecutionId × List Candidate) := none
  /-- The executions whose client was started, in order. -/
  launches : List ExecutionId := []
  acceptingNew : Bool := true
  /-- The state of the volume, where it is not `ok`. -/
  disk : Option JsString := none

structure Config where
  paths : Paths
  redact : JsString → JsString
  /-- The error the preparation of a launch throws, if it does. -/
  prepare : ExecutionId → Option JsString

def State.entryOf (s : State) (id : ExecutionId) : Option (Execution × Entry) := do
  let x ← OMap.get s.executions id
  let e ← x.entry
  return (x, e)

def State.registered (s : State) (id : ExecutionId) : Option (Execution × Entry) :=
  (s.entryOf id).filter fun p => p.2.registered

def State.put (s : State) (id : ExecutionId) (x : Execution) : State :=
  { s with executions := OMap.set s.executions id x }

def State.putEntry (s : State) (id : ExecutionId) (x : Execution) (e : Entry) : State :=
  s.put id { x with entry := some e }

def State.apply (s : State) (id : ExecutionId) (effect : Effect) : State :=
  { s.put id effect.execution with
    locks := if effect.release then s.locks.releaseByExecution id else s.locks }

def State.enter (s : State) (r : Routine) : State := { s with routines := s.routines ++ [r] }

def State.leave (s : State) (r : Routine) : State := { s with routines := s.routines.erase r }

def Entry.counts (e : Entry) : Bool := e.registered && e.session.isSome && e.terminalGeneration = 0

def State.runningCount (s : State) : Nat := s.executions.countP fun p => p.2.entry.any Entry.counts

def State.hasQueuedPromotableEntry (s : State) : Bool :=
  s.executions.any fun p =>
    p.2.entry.any fun e => e.registered && e.session.isNone && decide (e.terminalGeneration = 0)

def repoWriteLockMode : Option (List JsString) → RepoWriteLockMode
  | some (_ :: _) => .edit
  | _ => .yolo

/-- `launchExecution` before the client start: what it makes of the execution, and whether the start is awaited. -/
def launch (config : Config) (disk : Option JsString) (id : ExecutionId) (x : Execution) (e : Entry)
    (fromQueue : Bool) : Effect × Bool :=
  match disk with
  | some status =>
    (terminalizeQueued x e .failed .crash
      (js "low_disk_space: state-volume status is " ++ status ++ js "; free space and retry"), false)
  | none =>
    if e.terminalGeneration > 0 then ({ execution := { x with entry := some e } }, false)
    else
      match config.prepare id with
      | some error =>
        if e.cancelRequested ∨ e.terminalIntent.isSome then ({ execution := { x with entry := some e } }, false)
        else (terminalizeStartingFailure x e error, false)
      | none =>
        if x.row.status = .queued then
          ({ execution :=
              { x with row := { x.row with status := .starting },
                       entry := some { e with starting := some fromQueue } } },
            true)
        else ({ execution := { x with entry := some e } }, false)

def State.launch (config : Config) (s : State) (id : ExecutionId) (x : Execution) (e : Entry) (fromQueue : Bool) :
    State × Bool :=
  let (effect, started) := Supervisor.launch config s.disk id x e fromQueue
  ({ s.apply id effect with launches := if started then s.launches ++ [id] else s.launches }, effect.promote)

/-- `SELECT id, cwd FROM executions WHERE status = 'queued' ORDER BY created_at ASC, id ASC` -/
def State.candidates (s : State) : List Candidate :=
  ((s.executions.filter fun p => p.2.row.status = .queued).insertionSort fun a b =>
    a.2.row.createdAt < b.2.row.createdAt ∨ (a.2.row.createdAt = b.2.row.createdAt ∧ a.1 ≤ b.1)).map
      fun p => { id := p.1, cwd := p.2.row.cwd }

variable (config : Config)

def State.acquire (s : State) (candidate : Candidate) (e : Entry) : Bool × Locks × Entry :=
  if e.repoWriteLock ∧ !e.hasRepoLock then
    let (acquired, locks) :=
      s.locks.tryAcquire config.paths candidate.cwd candidate.id (repoWriteLockMode e.writePaths) e.writePaths
    (acquired, locks, { e with hasRepoLock := acquired })
  else (true, s.locks, e)

def State.promoteOne (config : Config) (s : State) (candidate : Candidate) : State × Bool :=
  match (s.registered candidate.id).filter fun p => p.2.terminalGeneration = 0 with
  | none => (s, false)
  | some (x, e) =>
    let (go, locks, e') := s.acquire config candidate e
    if !go then (s, false)
    else if x.row.status = .queued then
      ((({ s with locks }).launch config candidate.id x e' true).1, true)
    else (s, false)

def State.promoteScan (config : Config) : List Candidate → State → State
  | [], s => { s with promotion := none }
  | candidate :: rest, s =>
    if s.runningCount ≥ MAX_CONCURRENT_EXECUTIONS then { s with promotion := none }
    else
      match s.promoteOne config candidate with
      | (s', true) => { s' with promotion := some (candidate.id, rest) }
      | (s', false) => promoteScan config rest s'

def State.promoteRound (s : State) : State :=
  if s.runningCount < MAX_CONCURRENT_EXECUTIONS ∧ s.hasQueuedPromotableEntry then
    State.promoteScan config s.candidates s
  else { s with promotion := none }

def State.promoteQueued (s : State) : State :=
  if s.promotion.isSome then s else s.promoteRound config

def State.resumePromotion (config : Config) (s : State) (rest : List Candidate) : State :=
  let s := State.promoteScan config rest s
  if s.promotion.isSome then s else s.promoteRound config

def State.applyThen (s : State) (id : ExecutionId) (effect : Effect) : State :=
  if effect.promote then (s.apply id effect).promoteQueued config else s.apply id effect

/-! ### Steps -/

structure StartOpts where
  executionId : ExecutionId
  createdAt : Nat
  cwd : JsString
  repoWriteLock : Option Bool
  writePaths : Option (List JsString)
  timeoutMs : Option Nat
  /-- The task could take the execution, where there is one. -/
  attached : Bool

inductive Op where
  | start (opts : StartOpts)
  | started (id : ExecutionId) (outcome : StartOutcome)
  | resumePromotion
  | promoteQueuedAfterGuardChange
  | setDisk (status : Option JsString)
  | streamEnd (id : ExecutionId) (finished : Option Finished)
  | close (id : ExecutionId)
  | drained (id : ExecutionId)
  | cancel (id : ExecutionId)
  | killSettled (id : ExecutionId) (resolved : Bool)
  | cancelKilled (id : ExecutionId)
  | cancelBound (id : ExecutionId) (live : Bool)
  | cancelRowKilled (id : ExecutionId) (killed live : Bool)
  | timeout (id : ExecutionId)
  | timeoutBound (id : ExecutionId)
  | waited (r : Routine)
  | shutdown
  | shutdownGraceOver
  | shutdownNext (rest : List ExecutionId)
  | shutdownKilled (id : ExecutionId) (rest : List ExecutionId)

def StartOpts.requiresLock (opts : StartOpts) : Bool := opts.repoWriteLock.getD true

/-- `createRegistryEntry` -/
def StartOpts.entry (opts : StartOpts) (hasRepoLock : Bool) : Entry :=
  { executionId := opts.executionId, repoWriteLock := opts.requiresLock, writePaths := opts.writePaths, hasRepoLock }

def StartOpts.execution (opts : StartOpts) (canRunNow hasRepoLock : Bool) : Execution :=
  { row :=
      { cwd := opts.cwd, createdAt := opts.createdAt, timeoutMs := opts.timeoutMs, status := .queued, pid := none
        killReason := none, error := none }
    events := [if (hasRepoLock ∨ !opts.requiresLock) ∧ canRunNow then .dispatch else .queueWaiting]
    entry := some (opts.entry hasRepoLock) }

def State.startLock (s : State) (opts : StartOpts) : Bool × Locks :=
  if opts.requiresLock then
    s.locks.tryAcquire config.paths opts.cwd opts.executionId (repoWriteLockMode opts.writePaths) opts.writePaths
  else (false, s.locks)

def State.registerStart (config : Config) (s : State) (opts : StartOpts) : State :=
  let lock := s.startLock config opts
  { s.put opts.executionId (opts.execution (s.runningCount < MAX_CONCURRENT_EXECUTIONS) lock.1) with locks := lock.2 }

def State.startExecution (config : Config) (s : State) (opts : StartOpts) : State :=
  if !s.acceptingNew ∨ s.disk.isSome ∨ OMap.has s.executions opts.executionId then s
  else
    let id := opts.executionId
    let canRunNow := s.runningCount < MAX_CONCURRENT_EXECUTIONS
    let hasRepoLock := (s.startLock config opts).1
    let e := opts.entry hasRepoLock
    let x := opts.execution canRunNow hasRepoLock
    let s := s.registerStart config opts
    if !opts.attached then s.applyThen config id (terminalizeQueued x e .cancelled .cancel (js "cancelled"))
    else if canRunNow ∧ (!opts.requiresLock ∨ hasRepoLock) then
      let (s, ask) := s.launch config id x e false
      if ask then s.promoteQueued config else s
    else s

/-- `reconcileCancelled` for a row, with the release of its lock. -/
def State.reconcileRow (s : State) (id : ExecutionId) : State :=
  match OMap.get s.executions id with
  | none => s
  | some x =>
    match reconcile x .cancelled .cancel (js "cancelled") with
    | none => s
    | some won => { s.put id won with locks := s.locks.releaseByExecution id }

def State.cancelQueuedExecutionWithoutRegistry (s : State) (id : ExecutionId) : State :=
  match OMap.get s.executions id with
  | none => s
  | some x =>
    if x.row.status.isTerminal then s
    else if x.row.pid.isSome then s.enter (.cancelRow id)
    else (s.reconcileRow id).promoteQueued config

def State.cancelExecution (s : State) (id : ExecutionId) : State :=
  match s.registered id with
  | none => s.cancelQueuedExecutionWithoutRegistry config id
  | some (x, e) =>
    let (claimed, e) := e.claimTerminalIntent .cancel
    let e := { e with cancelRequested := true }
    if e.pid.isNone then
      if claimed then s.applyThen config id (terminalizeQueued x e .cancelled .cancel (js "cancelled"))
      else s.putEntry id x e
    else (s.putEntry id x e.requestKillOnce).enter (.cancelKill id)

def State.attemptDeadline (s : State) (id : ExecutionId) (x : Execution) (e : Entry) : State :=
  let e := { e with timer := false }
  if e.terminalGeneration > 0 then s.putEntry id x e
  else
    let e := { e with terminalIntent := some .timeout }
    (s.putEntry id x e.requestKillOnce).enter (.timeoutRace id)

/-- The first loop of `shutdown`. -/
def Execution.shutDown (x : Execution) : Execution :=
  match x.entry with
  | some e =>
    if e.registered ∧ e.pid.isSome then
      { x with entry := some (e.claimTerminalIntent .shutdown).2.requestKillOnce }
    else x
  | none => x

def State.registry (s : State) : List ExecutionId :=
  (s.executions.filter fun p => p.2.entry.any Entry.registered).map Prod.fst

def State.shutdown (s : State) : State :=
  let active := s.executions.any fun p => p.2.entry.any fun e => e.registered && e.pid.isSome
  let s :=
    { s with acceptingNew := false,
             executions := s.executions.map fun (p : ExecutionId × Execution) => (p.1, p.2.shutDown) }
  if active then s.enter .shutdownGrace else s.enter (.shutdownLoop s.registry)

/-- One entry of the second loop of `shutdown`. -/
def State.shutdownEntry (config : Config) (s : State) (id : ExecutionId) (rest : List ExecutionId) : State :=
  match s.entryOf id with
  | none => s.enter (.shutdownLoop rest)
  | some (x, e) =>
    let (claimed, e) := e.claimTerminalIntent .shutdown
    if e.pid.isNone then
      let s := s.enter (.shutdownLoop rest)
      if claimed then s.applyThen config id (terminalizeQueued x e .interrupted .shutdown (js "shutdown")) else s
    else (s.putEntry id x e.requestKillOnce).enter (.shutdownKill id rest)

/-- A step; one that is not due leaves the state as it is. -/
def State.perform (s : State) : Op → State
  | .start opts => s.startExecution config opts
  | .started id outcome =>
    match s.entryOf id with
    | some (x, e) =>
      match e.starting with
      | some fromQueue => s.applyThen config id (afterStart x e fromQueue outcome)
      | none => s
    | none => s
  | .resumePromotion =>
    match s.promotion with
    | some (id, rest) =>
      if (s.entryOf id).any fun p => p.2.starting.isSome then s else s.resumePromotion config rest
    | none => s
  | .promoteQueuedAfterGuardChange => s.promoteQueued config
  | .setDisk status => { s with disk := status }
  | .streamEnd id finished =>
    match s.entryOf id with
    | some (x, e) =>
      match e.observer, e.session with
      | .streaming, some session =>
        s.putEntry id x { e with observer := .closing, session := some { session with isOver := true }, finished }
      | _, _ => s
    | none => s
  | .close id =>
    match s.entryOf id with
    | some (x, e) =>
      if e.observer = .closing then s.putEntry id x { e with observer := .draining e.terminalIntent } else s
    | none => s
  | .drained id =>
    match s.entryOf id with
    | some (x, e) =>
      match e.observer with
      | .draining intent => s.applyThen config id (handleChildClose config.redact x e intent)
      | _ => s
    | none => s
  | .cancel id => s.cancelExecution config id
  | .killSettled id resolved =>
    match s.entryOf id with
    | some (x, e) =>
      match e.kill, e.session with
      | some .pending, some session =>
        if resolved then
          s.putEntry id x { e with kill := some .resolved, session := some { session with isOver := true } }
        else s.putEntry id x { e with kill := some .rejected }
      | _, _ => s
    | none => s
  | .cancelKilled id =>
    match (s.entryOf id).bind fun p => p.2.kill with
    | some .resolved =>
      if Routine.cancelKill id ∈ s.routines then (s.leave (.cancelKill id)).enter (.cancelRace id) else s
    | some .rejected => s.leave (.cancelKill id)
    | _ => s
  | .cancelBound id live =>
    if Routine.cancelRace id ∈ s.routines then
      let s := s.leave (.cancelRace id)
      match s.entryOf id with
      | some (x, e) => if live then s else s.apply id (settleRegisteredCancellation x e)
      | none => s
    else s
  | .cancelRowKilled id killed live =>
    if Routine.cancelRow id ∈ s.routines then
      let s := s.leave (.cancelRow id)
      if killed ∧ !live then (s.reconcileRow id).promoteQueued config else s
    else s
  | .timeout id =>
    match s.entryOf id with
    | some (x, e) => if e.timer then s.attemptDeadline id x e else s
    | none => s
  | .timeoutBound id =>
    if Routine.timeoutRace id ∈ s.routines then
      let s := s.leave (.timeoutRace id)
      match s.entryOf id with
      | some (x, e) => s.apply id (settleAttemptTimeout x e)
      | none => s
    else s
  | .waited r => s.leave r
  | .shutdown => s.shutdown
  | .shutdownGraceOver =>
    if Routine.shutdownGrace ∈ s.routines then (s.leave .shutdownGrace).enter (.shutdownLoop s.registry) else s
  | .shutdownNext rest =>
    if Routine.shutdownLoop rest ∈ s.routines then
      let s := s.leave (.shutdownLoop rest)
      match rest with
      | id :: rest => s.shutdownEntry config id rest
      | [] => s
    else s
  | .shutdownKilled id rest =>
    if Routine.shutdownKill id rest ∈ s.routines then
      match (s.entryOf id).bind fun p => p.2.kill with
      | some .resolved => (s.leave (.shutdownKill id rest)).enter (.shutdownLoop rest)
      | some .rejected => s.leave (.shutdownKill id rest)
      | _ => s
    else s

/-- How the kill of a recorded process went. -/
inductive KillOutcome where
  | threw | live | absent
deriving DecidableEq

/-- `markInterruptedOnStartup` for one row: interrupted, unless its recorded process was not verified absent. -/
def interruptOnStartup (outcome : ExecutionId → KillOutcome) (id : ExecutionId) (row : Row) : Row :=
  if !row.status.isTerminal ∧ (row.pid.isNone ∨ outcome id = .absent) then
    { row with status := .interrupted, killReason := some .shutdown }
  else row

def boot (outcome : ExecutionId → KillOutcome) (records : OMap ExecutionId (Row × List EventType)) : State :=
  { executions := records.map fun p =>
      (p.1, { row := interruptOnStartup outcome p.1 p.2.1, events := p.2.2, entry := none })
    locks := ⟨[], []⟩ }

def State.run (config : Config) (s : State) (ops : List Op) : State := ops.foldl (State.perform config) s

end Wrenyard.Supervisor
