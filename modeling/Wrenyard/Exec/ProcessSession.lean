import Wrenyard.Js.Utf8

/-!
# The session of a child process

`startProcess` prepares the owned files and the marker of the run, launches the child and listens to it.  What the
child reports becomes frames of one bounded queue; the first cause to end settles the session, and its end is
published behind the termination of the process tree and the cleanup of what the run owns (`Session.perform`).

What lies outside is told by the steps: what the file system and the launch answered, in which order the native
events, the timers and the callbacks come, and when the tree is gone.
-/

namespace Wrenyard.Exec.Process

open Js

inductive ExecutionEvent where
  | started (pid : Option Nat)
  | stdout (data : List UInt8)
  | stderr (data : List UInt8)
  | exit (exitCode : Option Int) (signal : Option JsString)
  | error (message : JsString)

structure ExecutionResult where
  stdout : JsString
  stderr : JsString
  exitCode : Option Int
  signal : Option JsString

def maxQueuedEvents : Nat := 64

def reservedTerminalEvents : Nat := 2

/-- `createQueue`, with the values that its iterator has handed out. -/
structure Queue where
  items : List ExecutionEvent
  /-- Calls of `next` that wait for a value. -/
  waiters : Nat
  closed : Bool
  delivered : List ExecutionEvent

namespace Queue

def empty : Queue := ⟨[], 0, false, []⟩

def hand (q : Queue) (value : ExecutionEvent) : Queue :=
  if q.waiters = 0 then { q with items := q.items ++ [value] }
  else { q with waiters := q.waiters - 1, delivered := q.delivered ++ [value] }

/-- `push`; `none` where it returns `false`. -/
def push (q : Queue) (value : ExecutionEvent) : Option Queue :=
  if q.closed then none
  else if maxQueuedEvents - reservedTerminalEvents ≤ q.items.length ∧ q.waiters = 0 then none
  else some (q.hand value)

def forcePush (q : Queue) (value : ExecutionEvent) : Queue := if q.closed then q else q.hand value

/-- `close`: those who wait learn that it is over. -/
def close (q : Queue) : Queue := if q.closed then q else { q with closed := true, waiters := 0 }

/-- A step of the iterator. -/
def next (q : Queue) : Queue :=
  match q.items with
  | value :: items => { q with items := items, delivered := q.delivered ++ [value] }
  | [] => if q.closed then q else { q with waiters := q.waiters + 1 }

end Queue

def maxResultStreamBytes : Nat := 2 * 1024 * 1024

structure BufferTail where
  chunks : List (List UInt8)
  bytes : Nat

namespace BufferTail

def empty : BufferTail := ⟨[], 0⟩

def evict : List (List UInt8) → Nat → BufferTail
  | [], bytes => ⟨[], bytes⟩
  | head :: rest, bytes =>
    if maxResultStreamBytes < bytes then
      let excess := bytes - maxResultStreamBytes
      if head.length ≤ excess then evict rest (bytes - head.length)
      else ⟨head.drop excess :: rest, bytes - excess⟩
    else ⟨head :: rest, bytes⟩

def push (t : BufferTail) (chunk : List UInt8) : BufferTail :=
  if chunk.length = 0 then t
  else if maxResultStreamBytes ≤ chunk.length then
    ⟨[chunk.drop (chunk.length - maxResultStreamBytes)], maxResultStreamBytes⟩
  else evict (t.chunks ++ [chunk]) (t.bytes + chunk.length)

def utf8BoundaryAfter (bytes : List UInt8) : Nat :=
  match (bytes.take 4).findIdx? fun byte => byte.toNat / 0x40 ≠ 2 with
  | some index => index
  | none => bytes.length

def toString (t : BufferTail) : JsString :=
  if t.bytes = 0 then [] else decodeUtf8 (t.chunks.flatten.drop (utf8BoundaryAfter t.chunks.flatten))

end BufferTail

def isCodeUnit (u : UInt16) : Bool :=
  isDigit u || (65 ≤ u && u ≤ 90) || (97 ≤ u && u ≤ 122) || u == 95 || u == 45

/-- A match of `"code"\s*:\s*"([A-Za-z0-9_-]+)"` at the front. -/
def codeAt (s : JsString) : Option JsString :=
  if startsWith s (js "\"code\"") then
    match (s.drop 6).dropWhile isSpace with
    | 58 :: s =>
      match s.dropWhile isSpace with
      | 34 :: s =>
        let code := s.takeWhile isCodeUnit
        if code ≠ [] ∧ (s.drop code.length).head? = some 34 then some code else none
      | _ => none
    | _ => none
  else none

def controlErrorTail (stderrTail : JsString) : Option JsString :=
  ((stderrTail.tails.filterMap codeAt).head?).map fun code => js "execution process failed: " ++ code

/-- `[…].filter(Boolean).join('; ')`, with `undefined` for the empty text. -/
def joinMessages (parts : List (Option JsString)) : Option JsString :=
  let text := (js "; ").intercalate ((parts.filterMap id).filter (· ≠ []))
  if text = [] then none else some text

/-! ### The session -/

/-- Where `settle` is behind the terminal state. -/
inductive Stage where
  /-- It waits for the termination of the tree. -/
  | tree
  /-- The owned files are being cleaned up. -/
  | files (treeStopped : Bool) (cleanupFailure : Option JsString) (rollback : Bool)
  | home
  /-- The end is published, with this message. -/
  | done (message : Option JsString)

structure Settling where
  value : ExecutionResult
  success : Bool
  errorMessage : Option JsString
  stage : Stage

/-- What a session has done. -/
inductive Effect where
  /-- A frame was taken by the queue. -/
  | frame (e : ExecutionEvent)
  | cleanFiles (success rollback : Bool)
  | cleanHome (success : Bool)
  | closeQueue
  | resolveResult (value : ExecutionResult)

def Effect.frame? : Effect → Option ExecutionEvent
  | .frame e => some e
  | _ => none

inductive Phase where
  | preparing
  | launching
  | running
  | ended
deriving DecidableEq

/-- The call of `recordSpawnProvenance`. -/
inductive Provenance where
  | idle
  | marking
  /-- The marker could not be written, and the tree is being terminated. -/
  | failing (message : JsString)
deriving DecidableEq

structure StartProcessOptions where
  signal : Bool
  timeoutMs : Bool
  ownedRunHome : Bool

structure Session where
  phase : Phase
  queue : Queue
  terminal : Bool
  started : Bool
  closed : Bool
  childExitCode : Option Int
  childSignal : Option JsString
  lastStartError : Option JsString
  stdoutTail : BufferTail
  stderrTail : BufferTail
  inputClosed : Bool
  timer : Bool
  startedTimer : Bool
  drainTimer : Bool
  cancelling : Bool
  /-- The shared promise of `terminateProcessTree`: not there, pending or settled. -/
  terminating : Option (Option (Except JsString Unit))
  settling : Option Settling
  /-- `startOutcome`. -/
  startOutcome : Option (Except JsString Unit)
  pid : Option Nat
  diagnosticsPid : Option Nat
  abortListening : Bool
  /-- The events of `once` handlers that have come. -/
  seenSpawn : Bool
  seenError : Bool
  seenExit : Bool
  seenClose : Bool
  provenance : Provenance
  log : List Effect

namespace Session

def initial : Session where
  phase := .preparing
  queue := .empty
  terminal := false
  started := false
  closed := false
  childExitCode := none
  childSignal := none
  lastStartError := none
  stdoutTail := .empty
  stderrTail := .empty
  inputClosed := false
  timer := false
  startedTimer := false
  drainTimer := false
  cancelling := false
  terminating := none
  settling := none
  startOutcome := none
  pid := none
  diagnosticsPid := none
  abortListening := false
  seenSpawn := false
  seenError := false
  seenExit := false
  seenClose := false
  provenance := .idle
  log := []

def frames (s : Session) : List ExecutionEvent :=
  s.log.filterMap Effect.frame?

def clearTimers (s : Session) : Session := { s with timer := false, startedTimer := false, drainTimer := false }

/-- `terminateProcessTree()`: the first call starts it. -/
def terminateProcessTree (s : Session) : Session := { s with terminating := s.terminating.or (some none) }

/-- `resolveStarted` and `rejectStarted`: the first of them counts. -/
def settleStarted (s : Session) (outcome : Except JsString Unit) : Session :=
  { s with startOutcome := s.startOutcome.or (some outcome) }

/-- `settle`, up to its first `await`. -/
def settle (s : Session) (value : ExecutionResult) (success : Bool) (errorMessage : Option JsString) : Session :=
  if s.terminal then s
  else
    let s := s.clearTimers.terminateProcessTree
    { s with terminal := true, abortListening := false, settling := some ⟨value, success, errorMessage, .tree⟩ }

def fail (s : Session) (message : JsString) : Session :=
  s.settle ⟨s.stdoutTail.toString, s.stderrTail.toString, s.childExitCode, s.childSignal⟩ false (some message)

def finishExit (s : Session) (exitCode : Option Int) (signal : Option JsString) : Session :=
  s.settle ⟨s.stdoutTail.toString, s.stderrTail.toString, exitCode, signal⟩ (exitCode = some 0) none

def accept (s : Session) (event : ExecutionEvent) : Session :=
  if s.terminal then s
  else
    match s.queue.push event with
    | some queue => { s with queue := queue, log := s.log ++ [.frame event] }
    | none => s.fail (js "process event queue overflow")

def confirmStarted (s : Session) : Session :=
  if s.started then s
  else
    let s := { s with started := true, startedTimer := false, diagnosticsPid := s.pid.or s.diagnosticsPid }
    (s.accept (.started s.pid)).settleStarted (.ok ())

def acceptTerminal (s : Session) (event : ExecutionEvent) : Session :=
  { s with queue := s.queue.forcePush event, log := s.log ++ [.frame event] }

/-- The end of `settle`. -/
def publish (s : Session) (run : Settling) (cleanupFailure : Option JsString) : Session :=
  let message := joinMessages [run.errorMessage, cleanupFailure]
  let s := match message with
    | some message => s.acceptTerminal (.error message)
    | none => s
  let s := s.acceptTerminal (.exit run.value.exitCode run.value.signal)
  let s := { s with
    queue := s.queue.close
    log := s.log ++ [.closeQueue, .resolveResult run.value]
    settling := some { run with stage := .done message } }
  if s.started then s else s.settleStarted (.error (message.getD (js "execution ended before process start")))

def cancel (s : Session) : Session :=
  if s.cancelling then s
  else
    let s := { s with cancelling := true }
    if s.terminal then s else s.fail (js "execution cancelled")

end Session

/-! ### Steps -/

/-- The child that the launch has given: its pid, what it has already ended with, and whether the signal is
aborted. -/
structure Child where
  pid : Option Nat
  exited : Option (Option Int × Option JsString)
  aborted : Bool

inductive Op where
  /-- Up to the launch: the signal, the owned files, the signal again and the marker. -/
  | prepare (aborted : Bool) (files : Except JsString Unit) (abortedAfter : Bool) (mark : Except JsString Unit)
  | launch (child : Except JsString (Option Child))
  | spawn
  | error (message : JsString)
  | exit (exitCode : Option Int) (signal : Option JsString)
  | close (exitCode : Option Int) (signal : Option JsString)
  | stdout (chunk : List UInt8)
  | stderr (chunk : List UInt8)
  | stdoutError
  | stdinError
  | stderrError
  | abort
  | timeout
  | startedTimeout
  | drainTimeout
  /-- A call of `write`, and whether there is a stream to write to. -/
  | write (sink : Bool)
  | writeFailed
  | closeInput
  | cancel
  /-- The marker of the spawned child was written, or not. -/
  | marked (r : Except JsString Unit)
  /-- The failure of the marker goes on behind the termination of the tree. -/
  | unmarked
  | treeTerminated (r : Except JsString Unit)
  /-- `settle` goes on behind the termination of the tree. -/
  | settleTree
  | filesCleaned
  | homeCleaned (r : Except JsString Unit)
  /-- The iterator of the events is asked for one more. -/
  | next

def prepare (aborted : Bool) (files : Except JsString Unit) (abortedAfter : Bool) (mark : Except JsString Unit) :
    Except JsString Unit := do
  if aborted then throw (js "execution cancelled before start")
  files
  if abortedAfter then throw (js "execution cancelled before start")
  mark

namespace Session

def replayEnd (s : Session) (child : Child) : Session :=
  match child.exited with
  | none => s
  | some (exitCode, signal) =>
    finishExit (confirmStarted
      { s with closed := true, childExitCode := exitCode, childSignal := signal }) exitCode signal

def heedSignal (cfg : StartProcessOptions) (s : Session) (child : Child) : Session :=
  if cfg.signal then if child.aborted then s.cancel else { s with abortListening := true } else s

def launched (cfg : StartProcessOptions) (s : Session) : Except JsString (Option Child) → Session
  | .error message =>
    { s.settle ⟨[], [], none, none⟩ false
        (some (if message = [] then js "execution process could not start" else message))
      with phase := .ended }
  | .ok none =>
    { s.settle ⟨[], [], none, none⟩ false (some (js "execution process handle is missing")) with phase := .ended }
  | .ok (some child) =>
    let s := heedSignal cfg (replayEnd { s with phase := .running, pid := child.pid } child) child
    let s := if s.terminal ∨ child.aborted then s.terminateProcessTree else s
    { s with timer := cfg.timeoutMs, startedTimer := true }

/-- `close` of the child. -/
def onClose (s : Session) (exitCode : Option Int) (signal : Option JsString) : Session :=
  if s.terminal then s
  else
    let s := confirmStarted { s with closed := true, childExitCode := exitCode, childSignal := signal }
    match s.lastStartError with
    | some message =>
      if exitCode = none ∧ signal = none then s.fail message else s.finishExit exitCode signal
    | none => s.finishExit exitCode signal

/-- One step; `none` where it cannot happen. -/
def perform (cfg : StartProcessOptions) (s : Session) : Op → Option Session
  | .prepare aborted files abortedAfter mark =>
    if s.phase = .preparing then
      match Process.prepare aborted files abortedAfter mark with
      | .ok _ => some { s with phase := .launching }
      | .error message => some { s.settleStarted (.error message) with phase := .ended }
    else none
  | .launch child => if s.phase = .launching then some (s.launched cfg child) else none
  | .spawn =>
    if s.phase = .running ∧ s.seenSpawn = false then
      some (confirmStarted { s with
        seenSpawn := true
        provenance := if cfg.ownedRunHome ∧ s.pid.isSome then .marking else .idle })
    else none
  | .error message =>
    if s.phase = .running ∧ s.seenError = false then
      let s := { s with seenError := true, lastStartError := some message }
      some (if s.started ∨ s.closed then s else s.fail message)
    else none
  | .exit exitCode signal =>
    if s.phase = .running ∧ s.seenExit = false then
      let s := { s with seenExit := true }
      some (if s.terminal ∨ s.closed ∨ s.drainTimer then s
        else { s with childExitCode := exitCode, childSignal := signal, drainTimer := true })
    else none
  | .close exitCode signal =>
    if s.phase = .running ∧ s.seenClose = false
      then some (onClose { s with seenClose := true } exitCode signal) else none
  | .stdout chunk =>
    if s.phase = .running then
      some (if s.terminal then s else accept { s with stdoutTail := s.stdoutTail.push chunk } (.stdout chunk))
    else none
  | .stderr chunk =>
    if s.phase = .running then
      some (if s.terminal then s else accept { s with stderrTail := s.stderrTail.push chunk } (.stderr chunk))
    else none
  | .stdoutError => if s.phase = .running then some (s.fail (js "process stdout read failed")) else none
  | .stdinError => if s.phase = .running then some (s.fail (js "process stdin write failed")) else none
  | .stderrError => if s.phase = .running then some s else none
  | .abort => if s.abortListening then some s.cancel else none
  | .timeout =>
    if s.timer then
      some (if s.terminal then { s with timer := false }
        else fail { s with timer := false } (js "execution timed out"))
    else none
  | .startedTimeout =>
    if s.startedTimer then
      let s := { s with startedTimer := false }
      some (if s.terminal then s
        else s.fail ((controlErrorTail s.stderrTail.toString).getD (js "execution process did not start")))
    else none
  | .drainTimeout =>
    if s.drainTimer then
      let s := { s with drainTimer := false }
      some (if s.terminal ∨ s.closed then s
        else
          let s := s.confirmStarted
          s.finishExit s.childExitCode s.childSignal)
    else none
  | .write sink =>
    if s.phase = .running then
      some (if s.inputClosed ∨ s.terminal then s
        else if sink then s else s.fail (js "process input is not available"))
    else none
  | .writeFailed => if s.phase = .running then some (s.fail (js "process input write failed")) else none
  | .closeInput =>
    if s.phase = .running then some (if s.inputClosed ∨ s.terminal then s else { s with inputClosed := true })
      else none
  | .cancel => if s.phase = .running then some s.cancel else none
  | .marked r =>
    if s.provenance = .marking then
      match r with
      | .ok _ => some { s with provenance := .idle }
      | .error message => some { s.terminateProcessTree with provenance := .failing message }
    else none
  | .unmarked =>
    match s.provenance, s.terminating with
    | .failing message, some (some _) =>
      some (fail { s with provenance := .idle } (js "launch provenance could not be recorded: " ++ message))
    | _, _ => none
  | .treeTerminated r =>
    match s.terminating with
    | some none => some { s with terminating := some (some r) }
    | _ => none
  | .settleTree => do
    let run ← s.settling
    let r ← s.terminating
    let r ← r
    match run.stage with
    | .tree =>
      let stage := match r with
        | .ok _ => Stage.files true none (!s.started)
        | .error message => Stage.files false (some (js "process-tree cleanup failed: " ++ message)) (!s.started)
      some { s with settling := some { run with stage := stage } }
    | _ => none
  | .filesCleaned => do
    let run ← s.settling
    match run.stage with
    | .files treeStopped cleanupFailure rollback =>
      let s := { s with log := s.log ++ [Effect.cleanFiles run.success rollback] }
      some (if treeStopped then { s with settling := some { run with stage := .home } }
        else s.publish run cleanupFailure)
    | _ => none
  | .homeCleaned r => do
    let run ← s.settling
    match run.stage with
    | .home =>
      let cleanupFailure := match r with
        | .ok _ => none
        | .error message => some (js "run-home cleanup failed: " ++ message)
      some (publish { s with log := s.log ++ [.cleanHome run.success] } run cleanupFailure)
    | _ => none
  | .next => if s.startOutcome matches some (.ok _) then some { s with queue := s.queue.next } else none

end Session

end Wrenyard.Exec.Process
