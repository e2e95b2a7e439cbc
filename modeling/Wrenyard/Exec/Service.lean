import Wrenyard.Exec.Replay
import Wrenyard.Lib.Comparator
import Wrenyard.Lib.Transition

/-!
# Raw prompt execution

The service starts exactly one agent client per request and owns that run's lifecycle: a drain loop reads the client's
event stream once into the replay history, the terminal facts are folded into the entry, and every handle reads the
same history through iterators.  An entry is an object that the table of runs, a start, a drain loop and a handle
share, so that entries have addresses here.  What runs between two awaits is one step; what an await settles with is
part of the step.
-/

namespace Wrenyard.Exec

open Js

/-- A frame of a client's event stream. -/
abbrev AgentEvent := OMap JsString Json

/-- The member `key` where it is a string. -/
def textMember (event : AgentEvent) (key : JsString) : Option JsString :=
  match OMap.get event key with
  | some (.str s) => some s
  | _ => none

inductive ExecStatus where
  | queued
  | running
  | completed
  | failed
  | cancelled
deriving DecidableEq

structure ObservedFacts where
  error : Option JsString
  status : Option Json

/-- The frame types that enter the replay history; transport-only frames do not. -/
def replayedTypes : List JsString :=
  [js "session", js "message", js "reasoning", js "tool_call", js "tool_result", js "usage", js "finished"]

def isReplayed (event : AgentEvent) : Bool :=
  (textMember event (js "type")).any fun type => decide (type ∈ replayedTypes)

/-- The text that a `finished` frame gives as its error, where there is one. -/
def nativeErrorText (event : AgentEvent) : Option JsString :=
  match OMap.get event (js "error") with
  | some (.str text) => if text = [] then none else some text
  | some (.obj members) =>
    match textMember members (js "message") with
    | some message => if message = [] then none else some message
    | none => none
  | _ => none

namespace ObservedFacts

def empty : ObservedFacts := ⟨none, none⟩

/-- Fold the terminal facts of one frame. -/
def observe (observed : ObservedFacts) (event : AgentEvent) : ObservedFacts :=
  if textMember event (js "type") = some (js "finished") then
    { status := OMap.get event (js "status")
      error :=
        if textMember event (js "status") = some (js "failed") then (nativeErrorText event).or observed.error
        else observed.error }
  else observed

/-- `#failureErrorText`. -/
def failureErrorText (observed : ObservedFacts) : JsString :=
  match observed.error with
  | some text =>
    if text ≠ [] then text
    else if observed.status = some (.str (js "failed")) then js "Agent turn failed"
    else js "execution ended without a finished event"
  | none =>
    if observed.status = some (.str (js "failed")) then js "Agent turn failed"
    else js "execution ended without a finished event"

end ObservedFacts

structure ExecEntry where
  id : ExecId
  client : JsString
  replay : ExecReplayBuffer
  /-- Every event that the drain loops appended, the evicted ones included. -/
  recorded : List Json
  createdAt : Nat
  /-- The iterators that sleep on this entry. -/
  waiters : List Nat
  status : ExecStatus
  queuePosition : Option Nat
  onCancel : Bool
  finishedAt : Option Nat
  error : Option JsString
  cancelRequested : Bool
  session : Option Nat
  terminal : Bool

namespace ExecEntry

/-- `#wake`. -/
def wake (e : ExecEntry) : ExecEntry := { e with waiters := [] }

/-- `#record`: wake the readers and append the frame. -/
def record (e : ExecEntry) (event : AgentEvent) : ExecEntry :=
  if isReplayed event then
    { e.wake with replay := (e.replay.append e.id (.obj event)).1, recorded := e.recorded ++ [.obj event] }
  else e.wake

/-- What `#settle` writes to an entry that is not terminal. -/
def settle (e : ExecEntry) (now : Nat) (observed : ObservedFacts) : ExecEntry :=
  { e with
    terminal := true
    finishedAt := some now
    queuePosition := none
    onCancel := false
    status :=
      if e.cancelRequested then .cancelled
      else if observed.status = some (.str (js "done")) then .completed
      else .failed
    error :=
      if e.cancelRequested then some (js "cancelled")
      else if observed.status = some (.str (js "done")) then none
      else some observed.failureErrorText
    session := none
    waiters := [] }

end ExecEntry

def agentEventOf : Json → Bool
  | .obj record =>
    let text (key : String) := (textMember record (js key)).isSome
    match textMember record (js "type") with
    | none => false
    | some type =>
      (decide (type = js "session") && text "nativeSessionId") ||
      (decide (type = js "message") && decide (textMember record (js "role") = some (js "assistant")) &&
        text "text") ||
      (decide (type = js "reasoning") && text "text") ||
      (decide (type = js "tool_call") && text "callId" && text "name" && text "inputSummary") ||
      (decide (type = js "tool_result") && text "callId" &&
        (decide (textMember record (js "status") = some (js "ok")) ||
          decide (textMember record (js "status") = some (js "error"))) && text "outputTail") ||
      decide (type = js "usage") || decide (type = js "finished")
  | _ => false

structure ExecStartOptions where
  queued : Bool
  onCancel : Bool
  /-- Whether there is an operation preparation. -/
  prepare : Bool
  deferFinalize : Bool
  /-- Whether the request has an `executionId`. -/
  executionId : Bool

inductive StartPhase where
  | preparing
  | clientPreparing
  | starting
  /-- The session that came too late is cancelled. -/
  | cancelling
  | releasing (error : JsString)
  | finalizing (error : JsString)
  | rejected
  | bound
deriving DecidableEq

/-- A call of `start` that has passed its synchronous checks. -/
structure StartRun where
  entry : Nat
  client : JsString
  options : ExecStartOptions
  /-- `operationPreparation?.release` is there. -/
  release : Bool
  /-- The client's own preparation brought a release. -/
  clientRelease : Bool
  /-- The session that the client returned. -/
  session : Option Nat
  phase : StartPhase

inductive ConsumePhase where
  | draining
  | cancelling
  | releasing
  | finalizing
  | done
deriving DecidableEq

/-- A drain loop. -/
structure ConsumeRun where
  entry : Nat
  session : Nat
  start : Nat
  observed : ObservedFacts
  phase : ConsumePhase

inductive ClosePhase where
  | cancelling
  | waiting
  | resolved
deriving DecidableEq

structure CloseRun where
  live : List Nat
  phase : ClosePhase

inductive IteratorPhase where
  | reading
  | batch (rest : List ExecEventEnvelope)
  | waiting
  | remaining (rest : List ExecEventEnvelope)
  | ended
  | threw

structure Iterator where
  entry : Nat
  cursor : Nat
  /-- What it has yielded. -/
  yielded : List Json
  phase : IteratorPhase

inductive Preparation where
  | operation
  | client
deriving DecidableEq

/-- What the service does to its surroundings. -/
inductive Effect where
  | cancelSession (session : Nat)
  | onCancel (entry : Nat)
  | release (start : Nat) (preparation : Preparation)
  | streamClosed (start : Nat)
  | finalize (start : Nat) (status : ExecStatus)
deriving DecidableEq

structure AgentClient where
  /-- `capabilities.run`. -/
  run : Bool
  /-- Whether the client has a `prepare`. -/
  prepare : Bool
  /-- Whether the client has a `finalize`. -/
  finalize : Bool

structure ExecServiceOptions where
  clients : JsString → Option AgentClient
  maxRetainedEvents : Option JsNumber := some (.ofNat 2000)
  maxRetainedBytes : Option JsNumber := some (.ofNat 4194304)
  maxCompletedRuns : Option JsNumber := some (.ofNat 200)
  maxCompletedBytes : Option JsNumber := some (.ofNat 8388608)

structure World where
  entries : List ExecEntry
  runs : OMap ExecId Nat
  starts : List StartRun
  consumers : List ConsumeRun
  closes : List CloseRun
  iterators : List Iterator
  /-- How many sessions clients have returned. -/
  sessions : Nat
  sequence : Nat
  closed : Bool
  effects : List Effect

/-- `error instanceof Error ? error.message : 'execution failed'`. -/
def errorText (error : Option JsString) : JsString := error.getD (js "execution failed")

/-- `n.toString(36)`. -/
def base36 (n : Nat) : JsString := (Nat.toDigits 36 n).flatMap unitsOf

namespace World

def initial : World := ⟨[], [], [], [], [], [], 0, 0, false, []⟩

variable (cfg : ExecServiceOptions) (w : World)

def modify (a : Nat) (f : ExecEntry → ExecEntry) : World := { w with entries := w.entries.modify a f }

def emit (effects : List Effect) : World := { w with effects := w.effects ++ effects }

def setStart (k : Nat) (st : StartRun) : World := { w with starts := w.starts.set k st }

def setConsumer (c : Nat) (run : ConsumeRun) : World := { w with consumers := w.consumers.set c run }

def isTerminal (a : Nat) : Bool := (w.entries[a]?).any (·.terminal)

def idOf (a : Nat) : ExecId := (w.entries[a]?).elim [] (·.id)

def bytesOf (a : Nat) : Nat := (w.entries[a]?).elim 0 (·.replay.bytes)

/-- `entry.finishedAt ?? entry.createdAt`. -/
def endOf (a : Nat) : Nat := (w.entries[a]?).elim 0 fun e => e.finishedAt.getD e.createdAt

/-- The registered terminal entries, oldest first. -/
def completed : List Nat :=
  Comparator.sort (fun a b => (w.endOf a : ℚ) - w.endOf b) ((w.runs.map Prod.snd).filter w.isTerminal)

def pruneRuns : List Nat → Nat → OMap ExecId Nat → OMap ExecId Nat
  | [], _, runs => runs
  | a :: rest, bytes, runs =>
    if exceeds (rest.length + 1) (limitOf cfg.maxCompletedRuns) || exceeds bytes (limitOf cfg.maxCompletedBytes) then
      pruneRuns rest (bytes - w.bytesOf a) (runs.delete (w.idOf a))
    else runs

def pruneCompleted : World :=
  { w with runs := w.pruneRuns cfg w.completed ((w.completed.map w.bytesOf).foldr (· + ·) 0) w.runs }

/-- `#settle`. -/
def settle (now : Nat) (a : Nat) (observed : ObservedFacts) : World :=
  if w.isTerminal a then w else (w.modify a fun e => e.settle now observed).pruneCompleted cfg

/-- `` `exec_${sequence.toString(36)}_${Date.now().toString(36)}` ``. -/
def generatedId (sequence now : Nat) : ExecId := js "exec_" ++ base36 sequence ++ js "_" ++ base36 now

def resolvedId (now : Nat) (id : Option ExecId) : ExecId := id.getD (generatedId (w.sequence + 1) now)

/-- `#prepare`: the entry of a request, a new one unless the id is registered. -/
def prepare (now : Nat) (clientId : JsString) (id : Option ExecId) : Except JsString (World × Nat) :=
  match cfg.clients clientId with
  | none => .error (js "Unknown agent client '" ++ clientId ++ js "'")
  | some client =>
    if client.run = false then .error (js "Agent client '" ++ clientId ++ js "' cannot start executions")
    else
      let entry : ExecEntry :=
        { id := w.resolvedId now id
          client := clientId
          replay := .create cfg.maxRetainedEvents cfg.maxRetainedBytes
          recorded := []
          createdAt := now
          waiters := []
          status := .running
          queuePosition := none
          onCancel := false
          finishedAt := none
          error := none
          cancelRequested := false
          session := none
          terminal := false }
      let created : World :=
        { w with
          entries := w.entries ++ [entry]
          sequence := if id.isNone then w.sequence + 1 else w.sequence }
      match (id.filter (· ≠ [])).bind w.runs.get with
      | none => .ok (created, w.entries.length)
      | some a =>
        if (w.entries[a]?).all (·.client = clientId) then .ok (w, a)
        else .error (js "Execution '" ++ w.resolvedId now id ++ js "' was registered for a different client")

/-- Register an entry as a queued placeholder. -/
def enqueue (a : Nat) (onCancel : Bool) : World :=
  { w.modify a (fun e => { e with status := .queued, onCancel := onCancel }) with
    runs := w.runs.set (w.idOf a) a }

def registerQueued (now : Nat) (client : JsString) (id : Option ExecId) (onCancel : Bool) : Except JsString World :=
  if w.closed then .error (js "ExecService is closed")
  else if id.getD [] = [] then .error (js "A queued execution requires an id")
  else if w.runs.has (id.getD []) then .error (js "Execution '" ++ id.getD [] ++ js "' already exists")
  else (w.prepare cfg now (trim client) id).map fun prepared => prepared.1.enqueue prepared.2 onCancel

def setQueuePosition (id : ExecId) (position : Option Nat) : World :=
  match w.runs.get id with
  | none => w
  | some a => if w.isTerminal a then w else w.modify a fun e => { e.wake with queuePosition := position }

def failStart (now : Nat) (id : ExecId) (error : Option JsString) : World :=
  match w.runs.get id with
  | none => w
  | some a => w.settle cfg now a { ObservedFacts.empty with error := some (errorText error) }

def hasPrepare (client : JsString) : Bool := (cfg.clients client).any (·.prepare)

def hasFinalize (client : JsString) : Bool := (cfg.clients client).any (·.finalize)

/-- What `start` awaits once there is no operation preparation to wait for. -/
def launchPhase (client : JsString) : StartPhase := if hasPrepare cfg client then .clientPreparing else .starting

/-- The synchronous part of `start`. -/
def start (now : Nat) (client : JsString) (id : Option ExecId) (options : ExecStartOptions) :
    Except JsString World :=
  if w.closed then .error (js "ExecService is closed")
  else
    match w.prepare cfg now (trim client) id with
    | .error e => .error e
    | .ok prepared =>
      let phase := if options.prepare then .preparing else launchPhase cfg (trim client)
      let begun (w : World) : World :=
        { w with starts := w.starts ++ [⟨prepared.2, trim client, options, false, false, none, phase⟩] }
      if options.queued then
        if prepared.1.isTerminal prepared.2 then .error (js "Execution was cancelled before start")
        else .ok (begun ((prepared.1.enqueue prepared.2 options.onCancel).modify prepared.2 (·.wake)))
      else .ok (begun prepared.1)

/-- The `catch` of `start`: the operation preparation is released first. -/
def failed (k : Nat) (st : StartRun) (error : JsString) : World :=
  (w.setStart k { st with phase := .releasing error }).emit (if st.release then [.release k .operation] else [])

/-- The end of the `catch` of `start`. -/
def reject (now : Nat) (k : Nat) (st : StartRun) (error : JsString) : World :=
  let rejected := w.setStart k { st with phase := .rejected }
  if st.options.queued then rejected.settle cfg now st.entry { ObservedFacts.empty with error := some error }
  else rejected

/-- `#bind`: attach the drain loop and publish the handle. -/
def bind (k : Nat) (st : StartRun) (session : Nat) : World :=
  let running := w.modify st.entry fun e =>
    { e with status := .running, queuePosition := none, onCancel := false, session := some session }
  { running.setStart k { st with session := some session, phase := .bound } with
    runs := w.runs.set (w.idOf st.entry) st.entry
    consumers := w.consumers ++ [⟨st.entry, session, k, .empty, .draining⟩] }

/-- The client's `start` returned a session. -/
def opened (k : Nat) (st : StartRun) : World :=
  let returned : World := { w with sessions := w.sessions + 1 }
  if w.closed || w.isTerminal st.entry then
    (returned.setStart k { st with session := some w.sessions, phase := .cancelling }).emit
      [.cancelSession w.sessions]
  else (returned.bind k st w.sessions).pruneCompleted cfg

def lateError : JsString :=
  if w.closed then js "ExecService is closed" else js "Execution was cancelled before start"

/-- The `finally` of `#consume`: the run is settled and the operation preparation is released. -/
def drained (now : Nat) (c : Nat) (run : ConsumeRun) : World :=
  ((w.settle cfg now run.entry run.observed).setConsumer c { run with phase := .releasing }).emit
    (if (w.starts[run.start]?).any (·.release) then [.release run.start .operation] else [])

/-- The status that a client's `finalize` is given. -/
def statusOf (a : Nat) : ExecStatus :=
  (w.entries[a]?).elim .failed fun e =>
    if e.status = .completed ∨ e.status = .cancelled then e.status else .failed

def cancel (now : Nat) (id : ExecId) : Except JsString World :=
  match w.runs.get id with
  | none => .error (js "Unknown execution '" ++ id ++ js "'")
  | some a =>
    match w.entries[a]? with
    | none => .ok w
    | some e =>
      if e.terminal then .ok w
      else
        let requested := w.modify a fun e => { e with cancelRequested := true }
        match e.session with
        | some session => .ok (requested.emit [.cancelSession session])
        | none => .ok ((requested.emit (if e.onCancel then [.onCancel a] else [])).settle cfg now a .empty)

def live : List Nat := (w.runs.map Prod.snd).filter fun a => !w.isTerminal a

/-- The synchronous part of `close`. -/
def close : World :=
  let requested := w.live.foldl (fun w a => w.modify a fun e => { e with cancelRequested := true }) w
  let entries := w.live.filterMap fun a => (w.entries[a]?).map fun e => (a, e)
  { requested with
    closed := true
    closes := w.closes ++ [⟨w.live, .cancelling⟩]
    effects := w.effects ++
      (entries.filter fun e => e.2.session.isNone && e.2.onCancel).map (fun e => .onCancel e.1) ++
      entries.filterMap fun e => e.2.session.map .cancelSession }

/-- `close` after the drain loops have ended, or were waited for long enough. -/
def settleLive (now : Nat) (i : Nat) (run : CloseRun) : World :=
  let settled := run.live.foldl (fun w a => w.settle cfg now a .empty) w
  { settled with closes := w.closes.set i { run with phase := .resolved } }

/-- `events(id, afterSeq)`, where it does not throw. -/
def events (id : ExecId) (afterSeq : Nat) : Option (List ExecEventEnvelope) :=
  match (w.runs.get id).bind (w.entries[·]?) with
  | none => none
  | some e =>
    match e.replay.read afterSeq with
    | some (.events events _) => some events
    | _ => none

/-- `get(id)?.status`. -/
def getStatus (id : ExecId) : Option ExecStatus := ((w.runs.get id).bind (w.entries[·]?)).map (·.status)

def setIterator (i : Nat) (it : Iterator) : World := { w with iterators := w.iterators.set i it }

def takeRecord (it : Iterator) (envelope : ExecEventEnvelope) : Iterator :=
  { it with
    cursor := envelope.seq
    yielded := if agentEventOf envelope.event then it.yielded ++ [envelope.event] else it.yielded }

/-- Where an iterator goes on: a slice, or the error of `events`. -/
def advance (i : Nat) : Option World :=
  match w.iterators[i]? with
  | none => none
  | some it =>
    match it.phase with
    | .reading =>
      match w.events (w.idOf it.entry) it.cursor with
      | none => some (w.setIterator i { it with phase := .threw })
      | some batch => some (w.setIterator i { it with phase := .batch batch })
    | .batch (envelope :: rest) => some (w.setIterator i { takeRecord it envelope with phase := .batch rest })
    | .batch [] =>
      if w.getStatus (w.idOf it.entry) = some .running then
        some ((w.setIterator i { it with phase := .waiting }).modify it.entry fun e =>
          { e with waiters := e.waiters ++ [i] })
      else
        match w.events (w.idOf it.entry) it.cursor with
        | none => some (w.setIterator i { it with phase := .threw })
        | some rest => some (w.setIterator i { it with phase := .remaining rest })
    | .waiting =>
      -- resumed by a wake only
      if (w.entries[it.entry]?).any (fun e => decide (i ∈ e.waiters)) then none
      else some (w.setIterator i { it with phase := .reading })
    | .remaining (envelope :: rest) => some (w.setIterator i { takeRecord it envelope with phase := .remaining rest })
    | .remaining [] => some (w.setIterator i { it with phase := .ended })
    | .ended | .threw => none

end World

inductive Op where
  | registerQueued (client : JsString) (id : Option ExecId) (onCancel : Bool)
  | start (client : JsString) (id : Option ExecId) (options : ExecStartOptions)
  /-- The operation preparation of the `k`-th start is there, with or without a release, or has failed. -/
  | prepared (k : Nat) (outcome : Except JsString Bool)
  | clientPrepared (k : Nat) (outcome : Except JsString Bool)
  | started (k : Nat) (outcome : Except JsString Unit)
  /-- The late session's `cancel` is over. -/
  | lateCancelled (k : Nat) (error : Option JsString)
  | released (k : Nat)
  | finalized (k : Nat)
  /-- The `c`-th drain loop gets a frame. -/
  | event (c : Nat) (event : AgentEvent)
  | streamEnd (c : Nat)
  | streamError (c : Nat) (error : Option JsString)
  | streamCancelled (c : Nat)
  | consumerReleased (c : Nat)
  | consumerFinalized (c : Nat)
  | setQueuePosition (id : ExecId) (position : Option Nat)
  | failStart (id : ExecId) (error : Option JsString)
  | cancel (id : ExecId)
  | close
  | closeCancelled (i : Nat)
  | closeWaited (i : Nat)
  /-- An iterator of the handle that the `k`-th start returned. -/
  | iterate (k : Nat)
  | advance (i : Nat)

namespace World

variable (cfg : ExecServiceOptions) (w : World)

/-- The state after a call that may throw. -/
def answered (result : Except JsString World) : World :=
  match result with
  | .ok w' => w'
  | .error _ => w

/-- A step of the service, where it can be made. -/
def perform (now : Nat) : Op → Option World
  | .registerQueued client id onCancel => some (w.answered (w.registerQueued cfg now client id onCancel))
  | .start client id options => some (w.answered (w.start cfg now client id options))
  | .prepared k outcome => (w.starts[k]?).bind fun st =>
    match st.phase, outcome with
    | .preparing, .ok release =>
      some (w.setStart k { st with release := release, phase := launchPhase cfg st.client })
    | .preparing, .error e => some (w.failed k st e)
    | _, _ => none
  | .clientPrepared k outcome => (w.starts[k]?).bind fun st =>
    match st.phase, outcome with
    | .clientPreparing, .ok release => some (w.setStart k { st with clientRelease := release, phase := .starting })
    | .clientPreparing, .error e => some (w.failed k st e)
    | _, _ => none
  | .started k outcome => (w.starts[k]?).bind fun st =>
    match st.phase, outcome with
    | .starting, .ok () => some (w.opened cfg k st)
    | .starting, .error e => some (w.failed k st e)
    | _, _ => none
  | .lateCancelled k error => (w.starts[k]?).bind fun st =>
    if st.phase = .cancelling then some (w.failed k st (error.getD w.lateError)) else none
  | .released k => (w.starts[k]?).bind fun st =>
    match st.phase with
    | .releasing error =>
      if st.options.deferFinalize = false && hasFinalize cfg st.client && st.options.executionId then
        some ((w.setStart k { st with phase := .finalizing error }).emit [.streamClosed k, .finalize k .failed])
      else some ((w.emit [.streamClosed k]).reject cfg now k st error)
    | _ => none
  | .finalized k => (w.starts[k]?).bind fun st =>
    match st.phase with
    | .finalizing error => some (w.reject cfg now k st error)
    | _ => none
  | .event c event => (w.consumers[c]?).bind fun run =>
    if run.phase = .draining then
      some ((w.modify run.entry (·.record event)).setConsumer c { run with observed := run.observed.observe event })
    else none
  | .streamEnd c => (w.consumers[c]?).bind fun run =>
    if run.phase = .draining then some (w.drained cfg now c run) else none
  | .streamError c error => (w.consumers[c]?).bind fun run =>
    if run.phase = .draining then
      some ((w.setConsumer c
        { run with observed := { run.observed with error := some (errorText error) }, phase := .cancelling }).emit
          [.cancelSession run.session])
    else none
  | .streamCancelled c => (w.consumers[c]?).bind fun run =>
    if run.phase = .cancelling then some (w.drained cfg now c run) else none
  | .consumerReleased c => (w.consumers[c]?).bind fun run =>
    if run.phase = .releasing then
      (w.starts[run.start]?).map fun st =>
        if st.options.deferFinalize = false && hasFinalize cfg st.client then
          (w.setConsumer c { run with phase := .finalizing }).emit
            [.streamClosed run.start, .finalize run.start (w.statusOf run.entry)]
        else (w.setConsumer c { run with phase := .done }).emit [.streamClosed run.start]
    else none
  | .consumerFinalized c => (w.consumers[c]?).bind fun run =>
    if run.phase = .finalizing then some (w.setConsumer c { run with phase := .done }) else none
  | .setQueuePosition id position => some (w.setQueuePosition id position)
  | .failStart id error => some (w.failStart cfg now id error)
  | .cancel id => some (w.answered (w.cancel cfg now id))
  | .close => some w.close
  | .closeCancelled i => (w.closes[i]?).bind fun run =>
    if run.phase = .cancelling then some { w with closes := w.closes.set i { run with phase := .waiting } } else none
  | .closeWaited i => (w.closes[i]?).bind fun run =>
    if run.phase = .waiting then some (w.settleLive cfg now i run) else none
  | .iterate k => (w.starts[k]?).bind fun st =>
    if st.phase = .bound then some { w with iterators := w.iterators ++ [⟨st.entry, 0, [], .reading⟩] } else none
  | .advance i => w.advance i

def step (a : Op × Nat) : Option World := w.perform cfg a.2 a.1

end World

abbrev Step (cfg : ExecServiceOptions) : World → Op × Nat → World → Prop := fun w a w' => w.step cfg a = some w'

end Wrenyard.Exec
