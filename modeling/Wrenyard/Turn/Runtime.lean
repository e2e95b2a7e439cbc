import Wrenyard.Lib.Async
import Wrenyard.Session.EventJson

/-!
# The runtime of a turn

The in-memory state of one turn (`turn/runtime.ts`), what its asynchronous parts are suspended on, and the answers
they are resumed with.  The parts are the step loop (`turn/native-loop.ts`), the tool calls and actions it starts and
the flushes of their results (`turn/actions.ts`), the replies (`auxiliary/reply.ts`), and the interrupts, the shutdown
and the steered messages that come from outside (`turn/engine.ts`).

A set of promises is the number of those in it.  A chain of promises (`flushPromise`, `replyQueue`) is the number of
links that were added and of those that have settled: a link goes on when all before it have settled.
-/

namespace Wrenyard.Turn

open Js Session

/-- What is fixed for a turn: its number and model, and what its host offers. -/
structure TurnConfig where
  turn : Nat
  publicId : JsString
  contextWindow : Option Nat
  /-- The session runs on an agent tool port. -/
  agentTools : Bool
  /-- The session has a memory port. -/
  memory : Bool

inductive DeferredBody where
  | found (e : DocumentFoundEvent)
  | content (e : DocumentContentEvent)
  | files (e : FilesAttachedEvent)

def DeferredBody.body : DeferredBody → EventBody
  | found e => .documentFound e
  | content e => .documentContent e
  | files e => .filesAttached e

def DeferredBody.isReadDraft : DeferredBody → Bool
  | found _ => false
  | content e => e.source = .read || e.source = .projectInstructions
  | files e => e.source = .read

/-- A queued result: the `action.finished` of a step, and the drafts that follow it. -/
structure ResultBundle where
  step : Nat
  finished : ActionFinishedEvent
  deferred : List DeferredBody

structure TurnRuntime where
  status : Option TurnStatus
  step : Nat
  /-- The step id in progress, set once its `step.started` has been appended. -/
  currentStepId : Option JsString
  /-- The signal of the turn's current abort controller. -/
  aborted : Bool
  finished : Bool
  /-- Unlike `finished`, this flag changes only after the terminal append. -/
  durableTerminal : Bool
  resultQueue : List ResultBundle
  /-- Set when reasoning failed: late results are still recorded, reads are not. -/
  dropDeferred : Bool
  reasonCompleted : Bool
  actionsThisStep : Nat
  toolCallsThisStep : Nat
  asksThisStep : List JsString
  correctionRequired : Bool
  emptyReasonRetried : Bool
  currentReasonText : JsString
  /-- The events the latest reason request was built from. -/
  requestEvents : List LedgerEventDraft
  steers : Nat
  /-- Set once a step decided to end the turn. -/
  closing : Bool
  parsePromises : Nat
  actionPromises : Nat
  flushesAdded : Nat
  flushesSettled : Nat
  repliesAdded : Nat
  repliesSettled : Nat
  /-- Whether the reply that settled last did so without a failure. -/
  replyOk : Bool
  /-- The action ids of the session that are taken. -/
  actionSeq : Nat

/-- `createTurn`. -/
def createTurn (actionSeq : Nat) : TurnRuntime where
  status := none
  step := 0
  currentStepId := none
  aborted := false
  finished := false
  durableTerminal := false
  resultQueue := []
  dropDeferred := false
  reasonCompleted := false
  actionsThisStep := 0
  toolCallsThisStep := 0
  asksThisStep := []
  correctionRequired := false
  emptyReasonRetried := false
  currentReasonText := []
  requestEvents := []
  steers := 0
  closing := false
  parsePromises := 0
  actionPromises := 0
  flushesAdded := 0
  flushesSettled := 0
  repliesAdded := 0
  repliesSettled := 0
  replyOk := true
  actionSeq := actionSeq

/-- The result of a successful reason call. -/
structure ReasonOutcome where
  spanId : JsString
  text : JsString
  reasoning : Option JsString

/-- How an iteration of the step loop ends. -/
inductive Exit where
  | next
  | stop
  | throw (error : JsString)

/-- What follows an error that was reported to the model. -/
inductive AfterError where
  | correct
  | proceed
  | emptyReason

/-- Why running work is cancelled: the reason call failed, or the loop threw. -/
inductive Failure where
  | reason (error : JsString)
  | thrown (error : JsString)

/-- How a reason call ends for the loop. -/
inductive Reasoned where
  | ok (terminal : Bool)
  | failed (error : JsString)
  | threw (error : JsString)

inductive FlushOwner where
  | completed (terminal : Bool) (workerOutput : JsString)
  | failure (failure : Failure)
  | interrupt
  | action

inductive ReplyStatus where
  | running | completed | failed
deriving DecidableEq

structure ReplyRequest where
  step : Nat
  status : ReplyStatus
  /-- True for the invocation that also finalizes the turn. -/
  terminal : Bool
  error : Option JsString

inductive TerminalStatus where
  | completed | failed
deriving DecidableEq

def TerminalStatus.turn : TerminalStatus → TurnStatus
  | completed => .completed
  | failed => .failed

def TerminalStatus.step : TerminalStatus → StepStatus
  | completed => .done
  | failed => .failed

/-- `request.status as TerminalStatus`; a terminal request is never `running`. -/
def ReplyStatus.terminal : ReplyStatus → TerminalStatus
  | failed => .failed
  | _ => .completed

structure ParsedAction where
  type : ActionType
  intent : JsString
  name : Option JsString

/-- Where a part goes on. -/
inductive Pc where
  -- the step loop
  | start
  | memory
  | reasoning
  | stepStarted (steersSeen : Nat)
  | prepared (steersSeen : Nat)
  | invoking (steersSeen : Nat) (workerLines : List JsString)
  | thinking (steersSeen : Nat) (outcome : ReasonOutcome) (workerLines : List JsString)
  | parses (steersSeen : Nat) (outcome : ReasonOutcome) (workerLines : List JsString)
  | completed (terminal : Bool) (workerOutput : JsString)
  | reasoned (result : Reasoned)
  | acting
  | errorAppended (after : AfterError)
  | closed
  | cancelWork (failure : Failure)
  | drainParses (failure : Failure)
  | drainActions (failure : Failure)
  | replies (status : StepStatus) (exit : Exit)
  | stepFinished (exit : Exit)
  | catchClosed
  -- a flush of results, for one of those who wait for one
  | flushTurn (link : Nat) (owner : FlushOwner)
  | flushed (step : Nat) (deferred : List DeferredBody) (owner : FlushOwner)
  | flushEnd (ok : Bool) (owner : FlushOwner)
  -- a reply
  | replyTurn (link : Nat) (request : ReplyRequest)
  | replyCall (request : ReplyRequest) (canSave : Bool)
  | interruptionSent
  | replyError (request : ReplyRequest) (failure : JsString)
  | replySent (request : ReplyRequest) (memories : Bool)
  | saveMemories (status : TerminalStatus) (error : Option JsString)
  | lastStepFinished (status : TerminalStatus) (error : Option JsString)
  | turnFinished (status : TerminalStatus)
  | attention
  -- an interrupt
  | interruptTurn (reason : InterruptReason)
  | interrupted
  | interruptCancel
  | interruptFinished
  -- a tool call, and the action it starts
  | reporting
  | starting (actionId : JsString) (step : Nat) (action : ParsedAction)
  | running (actionId : JsString) (step : Nat) (action : ParsedAction)
  -- a steered message
  | steer (text : JsString) (sender : Option JsString)
  | steered

/-- A completed tool call, as it is understood. -/
inductive ParsedCall where
  | invalid (message : JsString)
  | ask (intent : JsString)
  | action (action : ParsedAction)

/-- The result of a reply call: `toolText` is the text of its reply tool calls, or why they cannot be read. -/
structure ReplyOutcome where
  ok : Bool
  spanId : JsString
  toolText : Except JsString JsString
  text : JsString
  error : Option JsString

structure ActionOutcome where
  status : ActionStatus
  result : JsString
  task : Option JsString
  taskStatus : Option JsString
  taskRunId : Option JsString
  deferred : List DeferredBody

/-- What a part learns when it goes on. -/
inductive Answer where
  | ok
  | failed (error : JsString)
  | context (lastInputTokens : Option Nat)
  | compaction (result : Except JsString Unit)
  /-- A tool call of the running reason call; other turns have taken some action ids since the last one. -/
  | toolCall (call : ParsedCall) (taken : Nat)
  | reason (result : Except JsString ReasonOutcome)
  | reply (outcome : ReplyOutcome)
  | result (outcome : ActionOutcome)

/-- What comes from outside. -/
inductive Call where
  | interrupt
  | shutdown
  | steer (text : JsString) (sender : Option JsString)

/-- What a steer call ends with: the turn, with the event of its message, `undefined`, or a failure. -/
inductive Out where
  | steered (turn : Nat) (event : LedgerEventDraft)
  | undefined
  | threw
deriving DecidableEq

end Wrenyard.Turn
