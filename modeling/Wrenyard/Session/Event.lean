import Wrenyard.Js.Json

/-!
# The session event model

The ledger events of `protocol/src/session/ledger.ts`, with the records they carry.  An event is a draft, which is
what a caller appends, together with the `seq` and `at` the ledger assigns.  The optional `turn` and `step` indexes
are common to all events; everything else is the body of one event type.

A counter is a natural number; a measured quantity (a duration, a price) is a `JsNumber`.
-/

namespace Wrenyard.Session

open Js

/-! ### Structure events -/

inductive TurnStatus where
  | completed | failed | interrupted
deriving DecidableEq

inductive ReasoningEffort where
  | none | low | medium | high | xhigh | max | default
deriving DecidableEq

structure TurnModel where
  provider : JsString
  model : JsString
  reasoningEffort : Option ReasoningEffort
  fast : Option Bool
  automatic : Option Bool
  autoSelected : Option Bool
deriving DecidableEq

structure TaskBrief where
  id : JsString
  description : JsString
  inputSummary : List JsString
deriving DecidableEq

structure RecentDoc where
  path : JsString
  title : JsString
deriving DecidableEq

structure ProjectSnapshot where
  id : JsString
  displayName : Option JsString
  workspaceDir : JsString
  checkoutPath : Option JsString
  gitRemote : Option JsString
  defaultBranch : Option JsString
  branch : Option JsString
  head : Option JsString
  tasks : List TaskBrief
  recentDocs : List RecentDoc
deriving DecidableEq

structure WorkspaceSnapshot where
  takenAt : JsString
  deviceName : JsString
  agents : JsString
  memoryIndex : JsString
  builtinTasks : List TaskBrief
  projects : List ProjectSnapshot
deriving DecidableEq

structure SessionCreatedEvent where
  workspaceRoot : JsString
  snapshot : WorkspaceSnapshot
deriving DecidableEq

structure TurnStartedEvent where
  id : JsString
  text : JsString
  model : TurnModel
  /-- The `botId` of `sender`. -/
  sender : Option JsString
deriving DecidableEq

structure TurnSteeredEvent where
  id : JsString
  text : JsString
  sender : Option JsString
deriving DecidableEq

structure TurnFinishedEvent where
  id : JsString
  status : TurnStatus
  error : Option JsString
deriving DecidableEq

inductive InterruptReason where
  | user | shutdown | restart
deriving DecidableEq

structure TurnInterruptedEvent where
  parent : JsString
  reason : InterruptReason
deriving DecidableEq

inductive AttentionSource where
  | ask | model
deriving DecidableEq

structure TurnAttentionEvent where
  turnId : JsString
  needsUser : Bool
  label : Option JsString
  source : AttentionSource
deriving DecidableEq

inductive WaitReason where
  | admission | recovery | quotaExhausted
deriving DecidableEq

structure TurnWaitingEvent where
  parent : JsString
  reason : WaitReason
  retryAt : Option JsString
deriving DecidableEq

structure TurnWaitingClearedEvent where
  parent : JsString
deriving DecidableEq

inductive StepStatus where
  | done | failed | interrupted
deriving DecidableEq

structure StepStartedEvent where
  id : JsString
  parent : JsString
  model : JsString
  contextWindow : Option Nat
  lastInputTokens : Option Nat
deriving DecidableEq

structure StepFinishedEvent where
  id : JsString
  status : StepStatus
deriving DecidableEq

inductive ActionType where
  | search | dispatch | document | todo | vcs | project | tool | schedule
deriving DecidableEq

inductive ActionStatus where
  | done | failed | skipped | cancelled | interrupted
deriving DecidableEq

/-- `action` is the pair of its `type` and its natural-language `prompt`. -/
structure ActionStartedEvent where
  id : JsString
  parent : JsString
  type : ActionType
  prompt : JsString
  input : Option JsonValue
  taskRunId : Option JsString
deriving DecidableEq

structure ActionTitledEvent where
  id : JsString
  title : JsString
deriving DecidableEq

structure ActionFinishedEvent where
  id : JsString
  type : ActionType
  status : ActionStatus
  result : JsString
  task : Option JsString
  taskStatus : Option JsString
  taskRunId : Option JsString
  /-- The result arrived after the turn was interrupted; it is kept out of the context. -/
  afterInterrupt : Option Bool
deriving DecidableEq

/-! ### Execution events -/

inductive ModelSpanKind where
  | reasoning | auxiliary
deriving DecidableEq

inductive SpanStatus where
  | ok | failed | aborted | interrupted
deriving DecidableEq

inductive AuxiliaryCallRole where
  | title | memorySearch | search | dispatch | document | todo | vcs | project | reply | status | suggestion
  | taskOutput
deriving DecidableEq

structure SpanRoute where
  model : JsString
  reasoningEffort : ReasoningEffort
deriving DecidableEq

structure SpanEffort where
  requested : Option JsString
  sent : Option ReasoningEffort
deriving DecidableEq

structure SpanRouting where
  candidates : List SpanRoute
  rank : Option Nat
deriving DecidableEq

/-- The character count of each prompt layer: a record with distinct keys. -/
structure Layers where
  entries : List (JsString × Nat)
  nodup : (entries.map Prod.fst).Nodup
deriving DecidableEq

structure ModelSpanRequest where
  role : Option AuxiliaryCallRole
  model : JsString
  effort : Option SpanEffort
  inputEstimate : Nat
  layers : Layers
  route : Option SpanRouting
deriving DecidableEq

inductive ExecutionMode where
  | native | gateway
deriving DecidableEq

structure TaskSpanRequest where
  task : JsString
  project : Option JsString
  worktree : Option JsString
  taskRunId : JsString
  executionId : Option JsString
  executionMode : Option ExecutionMode
  input : Option JsonValue
deriving DecidableEq

structure TaskUsage where
  inputTokens : Option Nat
  cachedInputTokens : Option Nat
  outputTokens : Option Nat
  totalTokens : Option Nat
deriving DecidableEq

structure TaskSpanMetrics where
  taskStatus : Option JsString
  usage : Option TaskUsage
  referenceCostUsd : Option JsNumber
  generationMs : Option JsNumber
  outputTps : Option JsNumber
deriving DecidableEq

inductive ModelErrorKind where
  | network | server | rateLimited | quotaExhausted | auth | modelUnavailable | invalidRequest | contextOverflow
  | protocol | interrupted | aborted
deriving DecidableEq

inductive SpanErrorKind where
  | model (kind : ModelErrorKind)
  | task
deriving DecidableEq

structure SpanError where
  kind : SpanErrorKind
  status : Option Nat
  retryAt : Option JsString
  message : JsString
deriving DecidableEq

structure Usage where
  inputTokens : Option Nat
  cachedInputTokens : Option Nat
  outputTokens : Option Nat
  reasoningTokens : Option Nat
deriving DecidableEq

inductive FinishReason where
  | stop | length | toolCalls | contentFilter
deriving DecidableEq

inductive RetryAfterSource where
  | retryAfter | retryAfterMs
deriving DecidableEq

structure RetryAfterHint where
  source : RetryAfterSource
  value : JsString
  delayMs : JsNumber
  retryAt : JsNumber
deriving DecidableEq

structure ModelAttempt where
  status : Option Nat
  error : Option ModelErrorKind
  ms : JsNumber
  waitedMs : Option JsNumber
  retryAfter : Option RetryAfterHint
  model : Option JsString
  routeUntil : Option JsString
deriving DecidableEq

structure ModelMetrics where
  responseModel : Option JsString
  finishReason : Option FinishReason
  usage : Option Usage
  ttftMs : Option JsNumber
  streamMs : Option JsNumber
  streamTokens : Option JsNumber
  attempts : List ModelAttempt
deriving DecidableEq

/-- The `kind` and `request` of a started span. -/
inductive SpanStartedKind where
  | model (kind : ModelSpanKind) (request : ModelSpanRequest)
  | task (request : TaskSpanRequest)
deriving DecidableEq

structure SpanStartedEvent where
  id : JsString
  parent : JsString
  span : SpanStartedKind
deriving DecidableEq

structure ModelSpanResult where
  kind : ModelSpanKind
  output : Option JsString
  reasoning : Option JsString
  requestModel : Option JsString
  metrics : Option ModelMetrics
deriving DecidableEq

inductive SpanFinishedKind where
  | model (result : ModelSpanResult)
  | task (metrics : Option TaskSpanMetrics)
deriving DecidableEq

structure SpanFinishedEvent where
  id : JsString
  status : SpanStatus
  error : Option SpanError
  span : SpanFinishedKind
deriving DecidableEq

structure SpanContextEvent where
  id : JsString
  kind : ModelSpanKind
  model : JsString
  inputTokens : Option Nat
deriving DecidableEq

/-! ### Content events -/

structure ReasoningThinkingEvent where
  parent : JsString
  text : JsString
deriving DecidableEq

structure ReasoningCompletedEvent where
  parent : JsString
  text : JsString
  workerOutput : Option JsString
deriving DecidableEq

inductive MemorySource where
  | memorySearch | read
deriving DecidableEq

structure MemoryRecalledEvent where
  parent : Option JsString
  version : JsString
  source : MemorySource
  path : JsString
  content : JsString
deriving DecidableEq

structure DocPick where
  path : JsString
  title : JsString
  reason : JsString
deriving DecidableEq

structure DocumentFoundEvent where
  parent : JsString
  understanding : JsString
  picks : List DocPick
  near : List DocPick
  notes : List JsString
deriving DecidableEq

inductive DocFormat where
  | full | diff
deriving DecidableEq

inductive DocSource where
  | read | write | projectInstructions
deriving DecidableEq

structure DocumentContentEvent where
  parent : Option JsString
  path : JsString
  title : JsString
  updated : JsString
  version : JsString
  tokens : Nat
  content : JsString
  format : DocFormat
  base : Option JsString
  source : DocSource
deriving DecidableEq

inductive FileKind where
  | image | file
deriving DecidableEq

inductive FileSource where
  | user | task
deriving DecidableEq

structure SessionFile where
  path : JsString
  name : JsString
  kind : FileKind
  mime : JsString
  bytes : Nat
  hash : JsString
  source : FileSource
  description : JsString
  width : Option Nat
  height : Option Nat
  taskRunId : Option JsString
  actionId : Option JsString
  role : Option JsString
  text : Option JsString
  tokens : Option Nat
  totalTokens : Option Nat
  truncated : Option Bool
  processedPath : Option JsString
  processedMime : Option JsString
  processedWidth : Option Nat
  processedHeight : Option Nat
  processedBytes : Option Nat
deriving DecidableEq

inductive AttachSource where
  | user | task | read
deriving DecidableEq

structure FilesAttachedEvent where
  parent : Option JsString
  source : AttachSource
  files : List SessionFile
  taskRunId : Option JsString
deriving DecidableEq

inductive ChangeScope where
  | document | workspace | project
deriving DecidableEq

inductive WorkspaceChange where
  | created | updated | committed | pushed | pulled | worktreeCreated | worktreeRemoved | worktreeMerged | registered
  | deleted
deriving DecidableEq

structure WorkspaceChangedEvent where
  transactionId : Option JsString
  parent : JsString
  scope : ChangeScope
  target : JsString
  change : WorkspaceChange
  worktreeId : Option JsString
  version : Option JsString
  hash : Option JsString
  files : Option (List JsString)
deriving DecidableEq

inductive ReplyKind where
  | progress | final
deriving DecidableEq

inductive ReplySource where
  | tool | replyText | agentText | interruption
deriving DecidableEq

structure ReplySentEvent where
  parent : Option JsString
  text : JsString
  kind : Option ReplyKind
  source : Option ReplySource
deriving DecidableEq

structure SessionTitledEvent where
  parent : Option JsString
  text : JsString
  manual : Option Bool
deriving DecidableEq

structure SessionMetadataEvent where
  parent : Option JsString
  archived : Option Bool
  pinned : Option Bool
deriving DecidableEq

structure ContextCompactedEvent where
  throughSeq : Nat
  summary : JsString
  estimatedInputTokens : Option Nat
  contextWindow : Option Nat
  failure : Option JsString
deriving DecidableEq

structure ContextReducedEvent where
  throughSeq : Nat
  releasedTokens : Option JsNumber
deriving DecidableEq

inductive NoticeLevel where
  | info | warning | error
deriving DecidableEq

inductive NoticeSource where
  | system | user
deriving DecidableEq

structure SystemNoticeEvent where
  level : NoticeLevel
  parent : Option JsString
  source : NoticeSource
  code : JsString
  message : JsString
deriving DecidableEq

inductive EventBody where
  | sessionCreated (e : SessionCreatedEvent)
  | turnStarted (e : TurnStartedEvent)
  | turnSteered (e : TurnSteeredEvent)
  | turnFinished (e : TurnFinishedEvent)
  | turnInterrupted (e : TurnInterruptedEvent)
  | turnAttention (e : TurnAttentionEvent)
  | turnWaiting (e : TurnWaitingEvent)
  | turnWaitingCleared (e : TurnWaitingClearedEvent)
  | stepStarted (e : StepStartedEvent)
  | stepFinished (e : StepFinishedEvent)
  | actionStarted (e : ActionStartedEvent)
  | actionTitled (e : ActionTitledEvent)
  | actionFinished (e : ActionFinishedEvent)
  | spanStarted (e : SpanStartedEvent)
  | spanFinished (e : SpanFinishedEvent)
  | spanContext (e : SpanContextEvent)
  | reasoningThinking (e : ReasoningThinkingEvent)
  | reasoningCompleted (e : ReasoningCompletedEvent)
  | memoryRecalled (e : MemoryRecalledEvent)
  | documentFound (e : DocumentFoundEvent)
  | documentContent (e : DocumentContentEvent)
  | filesAttached (e : FilesAttachedEvent)
  | workspaceChanged (e : WorkspaceChangedEvent)
  | replySent (e : ReplySentEvent)
  | sessionTitled (e : SessionTitledEvent)
  | sessionMetadata (e : SessionMetadataEvent)
  | systemNotice (e : SystemNoticeEvent)
  | contextCompacted (e : ContextCompactedEvent)
  | contextReduced (e : ContextReducedEvent)
deriving DecidableEq

/-- An event without the `seq` and `at` the ledger assigns on append. -/
structure LedgerEventDraft where
  /-- Turn number; absent only on `session.created`. -/
  turn : Option Nat
  /-- Step number within the turn; absent on turn-level events. -/
  step : Option Nat
  body : EventBody
deriving DecidableEq

structure LedgerEvent extends LedgerEventDraft where
  /-- Strictly increasing sequence number within the session. -/
  seq : Nat
  /-- ISO 8601 timestamp. -/
  «at» : JsString
deriving DecidableEq

/-- The event is a `session.created`. -/
def isSessionCreated (event : LedgerEvent) : Bool :=
  match event.body with
  | .sessionCreated _ => true
  | _ => false

/-- The sequence numbers of a timeline increase. -/
def Increasing (events : List LedgerEvent) : Prop := events.Pairwise (·.seq < ·.seq)

/-- Id of a turn: `t<turn>`. -/
def turnId (turn : Nat) : JsString := js "t" ++ natText turn

/-- Id of a step: `t<turn>.<step>`. -/
def stepId (turn step : Nat) : JsString := js "t" ++ natText turn ++ js "." ++ natText step

end Wrenyard.Session
