import Mathlib.Data.List.Perm.Basic
import Wrenyard.Js.JsonRoundTrip
import Wrenyard.Session.Event

/-!
# Events as JSON objects

An event is written to its timeline as a JSON object.  `LedgerEvent.members` lists the members of that object in one
fixed order; the ledger writes them in the order of the caller's draft, so an `EventObject` is an event together with
its members in any order.  A field that is undefined has no member.
-/

namespace Wrenyard.Session

open Js

/-! ### The texts of the enumerations -/

def TurnStatus.text : TurnStatus → JsString
  | .completed => js "completed"
  | .failed => js "failed"
  | .interrupted => js "interrupted"

def ReasoningEffort.text : ReasoningEffort → JsString
  | .none => js "none"
  | .low => js "low"
  | .medium => js "medium"
  | .high => js "high"
  | .xhigh => js "xhigh"
  | .max => js "max"
  | .default => js "default"

def InterruptReason.text : InterruptReason → JsString
  | .user => js "user"
  | .shutdown => js "shutdown"
  | .restart => js "restart"

def AttentionSource.text : AttentionSource → JsString
  | .ask => js "ask"
  | .model => js "model"

def WaitReason.text : WaitReason → JsString
  | .admission => js "admission"
  | .recovery => js "recovery"
  | .quotaExhausted => js "quota_exhausted"

def StepStatus.text : StepStatus → JsString
  | .done => js "done"
  | .failed => js "failed"
  | .interrupted => js "interrupted"

def ActionType.text : ActionType → JsString
  | .search => js "search"
  | .dispatch => js "dispatch"
  | .document => js "document"
  | .todo => js "todo"
  | .vcs => js "vcs"
  | .project => js "project"
  | .tool => js "tool"
  | .schedule => js "schedule"

def ActionStatus.text : ActionStatus → JsString
  | .done => js "done"
  | .failed => js "failed"
  | .skipped => js "skipped"
  | .cancelled => js "cancelled"
  | .interrupted => js "interrupted"

def ModelSpanKind.text : ModelSpanKind → JsString
  | .reasoning => js "reasoning"
  | .auxiliary => js "auxiliary"

def SpanStatus.text : SpanStatus → JsString
  | .ok => js "ok"
  | .failed => js "failed"
  | .aborted => js "aborted"
  | .interrupted => js "interrupted"

def AuxiliaryCallRole.text : AuxiliaryCallRole → JsString
  | .title => js "title"
  | .memorySearch => js "memory-search"
  | .search => js "search"
  | .dispatch => js "dispatch"
  | .document => js "document"
  | .todo => js "todo"
  | .vcs => js "vcs"
  | .project => js "project"
  | .reply => js "reply"
  | .status => js "status"
  | .suggestion => js "suggestion"
  | .taskOutput => js "task-output"

def ExecutionMode.text : ExecutionMode → JsString
  | .native => js "native"
  | .gateway => js "gateway"

def ModelErrorKind.text : ModelErrorKind → JsString
  | .network => js "network"
  | .server => js "server"
  | .rateLimited => js "rate_limited"
  | .quotaExhausted => js "quota_exhausted"
  | .auth => js "auth"
  | .modelUnavailable => js "model_unavailable"
  | .invalidRequest => js "invalid_request"
  | .contextOverflow => js "context_overflow"
  | .protocol => js "protocol"
  | .interrupted => js "interrupted"
  | .aborted => js "aborted"

def SpanErrorKind.text : SpanErrorKind → JsString
  | .model kind => kind.text
  | .task => js "task"

def FinishReason.text : FinishReason → JsString
  | .stop => js "stop"
  | .length => js "length"
  | .toolCalls => js "tool_calls"
  | .contentFilter => js "content_filter"

def RetryAfterSource.text : RetryAfterSource → JsString
  | .retryAfter => js "retry-after"
  | .retryAfterMs => js "retry-after-ms"

def MemorySource.text : MemorySource → JsString
  | .memorySearch => js "memory-search"
  | .read => js "read"

def DocFormat.text : DocFormat → JsString
  | .full => js "full"
  | .diff => js "diff"

def DocSource.text : DocSource → JsString
  | .read => js "read"
  | .write => js "write"
  | .projectInstructions => js "project-instructions"

def FileKind.text : FileKind → JsString
  | .image => js "image"
  | .file => js "file"

def FileSource.text : FileSource → JsString
  | .user => js "user"
  | .task => js "task"

def AttachSource.text : AttachSource → JsString
  | .user => js "user"
  | .task => js "task"
  | .read => js "read"

def ChangeScope.text : ChangeScope → JsString
  | .document => js "document"
  | .workspace => js "workspace"
  | .project => js "project"

def WorkspaceChange.text : WorkspaceChange → JsString
  | .created => js "created"
  | .updated => js "updated"
  | .committed => js "committed"
  | .pushed => js "pushed"
  | .pulled => js "pulled"
  | .worktreeCreated => js "worktree-created"
  | .worktreeRemoved => js "worktree-removed"
  | .worktreeMerged => js "worktree-merged"
  | .registered => js "registered"
  | .deleted => js "deleted"

def ReplyKind.text : ReplyKind → JsString
  | .progress => js "progress"
  | .final => js "final"

def ReplySource.text : ReplySource → JsString
  | .tool => js "tool"
  | .replyText => js "reply-text"
  | .agentText => js "agent-text"
  | .interruption => js "interruption"

def NoticeSource.text : NoticeSource → JsString
  | .system => js "system"
  | .user => js "user"

/-- The `type` of an event. -/
def EventBody.type : EventBody → JsString
  | .sessionCreated _ => js "session.created"
  | .turnStarted _ => js "turn.started"
  | .turnSteered _ => js "turn.steered"
  | .turnFinished _ => js "turn.finished"
  | .turnInterrupted _ => js "turn.interrupted"
  | .turnAttention _ => js "turn.attention"
  | .turnWaiting _ => js "turn.waiting"
  | .turnWaitingCleared _ => js "turn.waiting.cleared"
  | .stepStarted _ => js "step.started"
  | .stepFinished _ => js "step.finished"
  | .actionStarted _ => js "action.started"
  | .actionTitled _ => js "action.titled"
  | .actionFinished _ => js "action.finished"
  | .spanStarted _ => js "span.started"
  | .spanFinished _ => js "span.finished"
  | .spanContext _ => js "span.context"
  | .reasoningThinking _ => js "reasoning.thinking"
  | .reasoningCompleted _ => js "reasoning.completed"
  | .memoryRecalled _ => js "memory.recalled"
  | .documentFound _ => js "document.found"
  | .documentContent _ => js "document.content"
  | .filesAttached _ => js "files.attached"
  | .workspaceChanged _ => js "workspace.changed"
  | .replySent _ => js "reply.sent"
  | .sessionTitled _ => js "session.titled"
  | .sessionMetadata _ => js "session.metadata"
  | .systemNotice { level := .info, .. } => js "system.info"
  | .systemNotice { level := .warning, .. } => js "system.warning"
  | .systemNotice { level := .error, .. } => js "system.error"
  | .contextCompacted _ => js "context.compacted"
  | .contextReduced _ => js "context.reduced"

abbrev Fields := List (JsString × Option JsonValue)

def TurnModel.toJson (m : TurnModel) : JsonValue :=
  .ofFields
    [(js "provider", some (.ofStr m.provider)), (js "model", some (.ofStr m.model)),
      (js "reasoningEffort", m.reasoningEffort.map fun x => .ofStr x.text), (js "fast", m.fast.map .ofBool),
      (js "automatic", m.automatic.map .ofBool), (js "autoSelected", m.autoSelected.map .ofBool)]
    (of_decide_eq_true rfl)

def TaskBrief.toJson (b : TaskBrief) : JsonValue :=
  .ofFields
    [(js "id", some (.ofStr b.id)), (js "description", some (.ofStr b.description)),
      (js "inputSummary", some (.ofArray (b.inputSummary.map .ofStr)))]
    (of_decide_eq_true rfl)

def RecentDoc.toJson (d : RecentDoc) : JsonValue :=
  .ofFields [(js "path", some (.ofStr d.path)), (js "title", some (.ofStr d.title))] (of_decide_eq_true rfl)

def ProjectSnapshot.toJson (p : ProjectSnapshot) : JsonValue :=
  .ofFields
    [(js "id", some (.ofStr p.id)), (js "displayName", p.displayName.map .ofStr),
      (js "workspaceDir", some (.ofStr p.workspaceDir)), (js "checkoutPath", p.checkoutPath.map .ofStr),
      (js "gitRemote", p.gitRemote.map .ofStr), (js "defaultBranch", p.defaultBranch.map .ofStr),
      (js "branch", p.branch.map .ofStr), (js "head", p.head.map .ofStr),
      (js "tasks", some (.ofArray (p.tasks.map TaskBrief.toJson))),
      (js "recentDocs", some (.ofArray (p.recentDocs.map RecentDoc.toJson)))]
    (of_decide_eq_true rfl)

def WorkspaceSnapshot.fields (s : WorkspaceSnapshot) : Fields :=
  [(js "takenAt", some (.ofStr s.takenAt)), (js "deviceName", some (.ofStr s.deviceName)),
    (js "agents", some (.ofStr s.agents)), (js "memoryIndex", some (.ofStr s.memoryIndex)),
    (js "builtinTasks", some (.ofArray (s.builtinTasks.map TaskBrief.toJson))),
    (js "projects", some (.ofArray (s.projects.map ProjectSnapshot.toJson)))]

theorem WorkspaceSnapshot.nodup_fields (s : WorkspaceSnapshot) : (s.fields.map Prod.fst).Nodup :=
  of_decide_eq_true rfl

def WorkspaceSnapshot.toJson (s : WorkspaceSnapshot) : JsonValue := .ofFields s.fields s.nodup_fields

/-- The `sender` of a message a bot sent. -/
def senderJson (botId : JsString) : JsonValue :=
  .ofFields [(js "botId", some (.ofStr botId))] (of_decide_eq_true rfl)

def ActionStartedEvent.actionJson (e : ActionStartedEvent) : JsonValue :=
  .ofFields [(js "type", some (.ofStr e.type.text)), (js "prompt", some (.ofStr e.prompt))] (of_decide_eq_true rfl)

def ActionFinishedEvent.actionJson (e : ActionFinishedEvent) : JsonValue :=
  .ofFields [(js "type", some (.ofStr e.type.text))] (of_decide_eq_true rfl)

def SpanEffort.toJson (e : SpanEffort) : JsonValue :=
  .ofFields [(js "requested", e.requested.map .ofStr), (js "sent", e.sent.map fun x => .ofStr x.text)]
    (of_decide_eq_true rfl)

def SpanRoute.toJson (r : SpanRoute) : JsonValue :=
  .ofFields [(js "model", some (.ofStr r.model)), (js "reasoningEffort", some (.ofStr r.reasoningEffort.text))]
    (of_decide_eq_true rfl)

def SpanRouting.toJson (r : SpanRouting) : JsonValue :=
  .ofFields [(js "candidates", some (.ofArray (r.candidates.map SpanRoute.toJson))), (js "rank", r.rank.map .ofNat)]
    (of_decide_eq_true rfl)

def Layers.toJson (l : Layers) : JsonValue :=
  .ofFields (l.entries.map fun p => (p.1, some (.ofNat p.2))) (by simpa [Function.comp_def] using l.nodup)

def ModelSpanRequest.toJson (r : ModelSpanRequest) : JsonValue :=
  .ofFields
    [(js "role", r.role.map fun x => .ofStr x.text), (js "model", some (.ofStr r.model)),
      (js "effort", r.effort.map SpanEffort.toJson), (js "inputEstimate", some (.ofNat r.inputEstimate)),
      (js "layers", some r.layers.toJson), (js "route", r.route.map SpanRouting.toJson)]
    (of_decide_eq_true rfl)

def TaskSpanRequest.toJson (r : TaskSpanRequest) : JsonValue :=
  .ofFields
    [(js "task", some (.ofStr r.task)), (js "project", r.project.map .ofStr), (js "worktree", r.worktree.map .ofStr),
      (js "taskRunId", some (.ofStr r.taskRunId)), (js "executionId", r.executionId.map .ofStr),
      (js "executionMode", r.executionMode.map fun x => .ofStr x.text), (js "input", r.input)]
    (of_decide_eq_true rfl)

def TaskUsage.toJson (u : TaskUsage) : JsonValue :=
  .ofFields
    [(js "inputTokens", u.inputTokens.map .ofNat), (js "cachedInputTokens", u.cachedInputTokens.map .ofNat),
      (js "outputTokens", u.outputTokens.map .ofNat), (js "totalTokens", u.totalTokens.map .ofNat)]
    (of_decide_eq_true rfl)

def TaskSpanMetrics.toJson (m : TaskSpanMetrics) : JsonValue :=
  .ofFields
    [(js "taskStatus", m.taskStatus.map .ofStr), (js "usage", m.usage.map TaskUsage.toJson),
      (js "referenceCostUsd", m.referenceCostUsd.map .ofNumber), (js "generationMs", m.generationMs.map .ofNumber),
      (js "outputTps", m.outputTps.map .ofNumber)]
    (of_decide_eq_true rfl)

def SpanError.toJson (e : SpanError) : JsonValue :=
  .ofFields
    [(js "kind", some (.ofStr e.kind.text)), (js "status", e.status.map .ofNat), (js "retryAt", e.retryAt.map .ofStr),
      (js "message", some (.ofStr e.message))]
    (of_decide_eq_true rfl)

def Usage.toJson (u : Usage) : JsonValue :=
  .ofFields
    [(js "inputTokens", u.inputTokens.map .ofNat), (js "cachedInputTokens", u.cachedInputTokens.map .ofNat),
      (js "outputTokens", u.outputTokens.map .ofNat), (js "reasoningTokens", u.reasoningTokens.map .ofNat)]
    (of_decide_eq_true rfl)

def RetryAfterHint.toJson (h : RetryAfterHint) : JsonValue :=
  .ofFields
    [(js "source", some (.ofStr h.source.text)), (js "value", some (.ofStr h.value)),
      (js "delayMs", some (.ofNumber h.delayMs)), (js "retryAt", some (.ofNumber h.retryAt))]
    (of_decide_eq_true rfl)

def ModelAttempt.toJson (a : ModelAttempt) : JsonValue :=
  .ofFields
    [(js "status", a.status.map .ofNat), (js "error", a.error.map fun x => .ofStr x.text),
      (js "ms", some (.ofNumber a.ms)), (js "waitedMs", a.waitedMs.map .ofNumber),
      (js "retryAfter", a.retryAfter.map RetryAfterHint.toJson), (js "model", a.model.map .ofStr),
      (js "routeUntil", a.routeUntil.map .ofStr)]
    (of_decide_eq_true rfl)

def ModelMetrics.toJson (m : ModelMetrics) : JsonValue :=
  .ofFields
    [(js "responseModel", m.responseModel.map .ofStr), (js "finishReason", m.finishReason.map fun x => .ofStr x.text),
      (js "usage", m.usage.map Usage.toJson), (js "ttftMs", m.ttftMs.map .ofNumber),
      (js "streamMs", m.streamMs.map .ofNumber), (js "streamTokens", m.streamTokens.map .ofNumber),
      (js "attempts", some (.ofArray (m.attempts.map ModelAttempt.toJson)))]
    (of_decide_eq_true rfl)

def DocPick.toJson (p : DocPick) : JsonValue :=
  .ofFields [(js "path", some (.ofStr p.path)), (js "title", some (.ofStr p.title)),
    (js "reason", some (.ofStr p.reason))]
    (of_decide_eq_true rfl)

def SessionFile.toJson (f : SessionFile) : JsonValue :=
  .ofFields
    [(js "path", some (.ofStr f.path)), (js "name", some (.ofStr f.name)), (js "kind", some (.ofStr f.kind.text)),
      (js "mime", some (.ofStr f.mime)), (js "bytes", some (.ofNat f.bytes)), (js "hash", some (.ofStr f.hash)),
      (js "source", some (.ofStr f.source.text)), (js "description", some (.ofStr f.description)),
      (js "width", f.width.map .ofNat), (js "height", f.height.map .ofNat), (js "taskRunId", f.taskRunId.map .ofStr),
      (js "actionId", f.actionId.map .ofStr), (js "role", f.role.map .ofStr), (js "text", f.text.map .ofStr),
      (js "tokens", f.tokens.map .ofNat), (js "totalTokens", f.totalTokens.map .ofNat),
      (js "truncated", f.truncated.map .ofBool), (js "processedPath", f.processedPath.map .ofStr),
      (js "processedMime", f.processedMime.map .ofStr), (js "processedWidth", f.processedWidth.map .ofNat),
      (js "processedHeight", f.processedHeight.map .ofNat), (js "processedBytes", f.processedBytes.map .ofNat)]
    (of_decide_eq_true rfl)

/-! ### The members of an event -/

def SpanStartedKind.fields : SpanStartedKind → Fields
  | .model kind request => [(js "kind", some (.ofStr kind.text)), (js "request", some request.toJson)]
  | .task request => [(js "kind", some (.ofStr (js "task"))), (js "request", some request.toJson)]

def SpanFinishedKind.fields : SpanFinishedKind → Fields
  | .model r =>
    [(js "kind", some (.ofStr r.kind.text)), (js "output", r.output.map .ofStr),
      (js "reasoning", r.reasoning.map .ofStr), (js "requestModel", r.requestModel.map .ofStr),
      (js "metrics", r.metrics.map ModelMetrics.toJson)]
  | .task metrics => [(js "kind", some (.ofStr (js "task"))), (js "metrics", metrics.map TaskSpanMetrics.toJson)]

def EventBody.fields : EventBody → Fields
  | .sessionCreated e =>
    [(js "workspaceRoot", some (.ofStr e.workspaceRoot)), (js "snapshot", some e.snapshot.toJson)]
  | .turnStarted e =>
    [(js "id", some (.ofStr e.id)), (js "text", some (.ofStr e.text)), (js "model", some e.model.toJson),
      (js "sender", e.sender.map senderJson)]
  | .turnSteered e =>
    [(js "id", some (.ofStr e.id)), (js "text", some (.ofStr e.text)), (js "sender", e.sender.map senderJson)]
  | .turnFinished e =>
    [(js "id", some (.ofStr e.id)), (js "status", some (.ofStr e.status.text)), (js "error", e.error.map .ofStr)]
  | .turnInterrupted e => [(js "parent", some (.ofStr e.parent)), (js "reason", some (.ofStr e.reason.text))]
  | .turnAttention e =>
    [(js "turnId", some (.ofStr e.turnId)), (js "needsUser", some (.ofBool e.needsUser)),
      (js "label", e.label.map .ofStr), (js "source", some (.ofStr e.source.text))]
  | .turnWaiting e =>
    [(js "parent", some (.ofStr e.parent)), (js "reason", some (.ofStr e.reason.text)),
      (js "retryAt", e.retryAt.map .ofStr)]
  | .turnWaitingCleared e => [(js "parent", some (.ofStr e.parent))]
  | .stepStarted e =>
    [(js "id", some (.ofStr e.id)), (js "parent", some (.ofStr e.parent)), (js "model", some (.ofStr e.model)),
      (js "contextWindow", e.contextWindow.map .ofNat), (js "lastInputTokens", e.lastInputTokens.map .ofNat)]
  | .stepFinished e => [(js "id", some (.ofStr e.id)), (js "status", some (.ofStr e.status.text))]
  | .actionStarted e =>
    [(js "id", some (.ofStr e.id)), (js "parent", some (.ofStr e.parent)), (js "action", some e.actionJson),
      (js "input", e.input), (js "taskRunId", e.taskRunId.map .ofStr)]
  | .actionTitled e => [(js "id", some (.ofStr e.id)), (js "title", some (.ofStr e.title))]
  | .actionFinished e =>
    [(js "id", some (.ofStr e.id)), (js "action", some e.actionJson), (js "status", some (.ofStr e.status.text)),
      (js "result", some (.ofStr e.result)), (js "task", e.task.map .ofStr),
        (js "taskStatus", e.taskStatus.map .ofStr),
      (js "taskRunId", e.taskRunId.map .ofStr), (js "afterInterrupt", e.afterInterrupt.map .ofBool)]
  | .spanStarted e => (js "id", some (.ofStr e.id)) :: (js "parent", some (.ofStr e.parent)) :: e.span.fields
  | .spanFinished e =>
    (js "id", some (.ofStr e.id)) :: (js "status", some (.ofStr e.status.text)) ::
      (js "error", e.error.map SpanError.toJson) :: e.span.fields
  | .spanContext e =>
    [(js "id", some (.ofStr e.id)), (js "kind", some (.ofStr e.kind.text)), (js "model", some (.ofStr e.model)),
      (js "inputTokens", e.inputTokens.map .ofNat)]
  | .reasoningThinking e => [(js "parent", some (.ofStr e.parent)), (js "text", some (.ofStr e.text))]
  | .reasoningCompleted e =>
    [(js "parent", some (.ofStr e.parent)), (js "text", some (.ofStr e.text)),
      (js "workerOutput", e.workerOutput.map .ofStr)]
  | .memoryRecalled e =>
    [(js "parent", e.parent.map .ofStr), (js "version", some (.ofStr e.version)),
      (js "source", some (.ofStr e.source.text)), (js "path", some (.ofStr e.path)),
      (js "content", some (.ofStr e.content))]
  | .documentFound e =>
    [(js "parent", some (.ofStr e.parent)), (js "understanding", some (.ofStr e.understanding)),
      (js "picks", some (.ofArray (e.picks.map DocPick.toJson))),
      (js "near", some (.ofArray (e.near.map DocPick.toJson))), (js "notes", some (.ofArray (e.notes.map .ofStr)))]
  | .documentContent e =>
    [(js "parent", e.parent.map .ofStr), (js "path", some (.ofStr e.path)), (js "title", some (.ofStr e.title)),
      (js "updated", some (.ofStr e.updated)), (js "version", some (.ofStr e.version)),
      (js "tokens", some (.ofNat e.tokens)), (js "content", some (.ofStr e.content)),
      (js "format", some (.ofStr e.format.text)), (js "base", e.base.map .ofStr),
      (js "source", some (.ofStr e.source.text))]
  | .filesAttached e =>
    [(js "parent", e.parent.map .ofStr), (js "source", some (.ofStr e.source.text)),
      (js "files", some (.ofArray (e.files.map SessionFile.toJson))), (js "taskRunId", e.taskRunId.map .ofStr)]
  | .workspaceChanged e =>
    [(js "transactionId", e.transactionId.map .ofStr), (js "parent", some (.ofStr e.parent)),
      (js "scope", some (.ofStr e.scope.text)), (js "target", some (.ofStr e.target)),
      (js "change", some (.ofStr e.change.text)), (js "worktreeId", e.worktreeId.map .ofStr),
      (js "version", e.version.map .ofStr), (js "hash", e.hash.map .ofStr),
      (js "files", e.files.map fun fs => .ofArray (fs.map .ofStr))]
  | .replySent e =>
    [(js "parent", e.parent.map .ofStr), (js "text", some (.ofStr e.text)),
      (js "kind", e.kind.map fun x => .ofStr x.text),
      (js "source", e.source.map fun x => .ofStr x.text)]
  | .sessionTitled e =>
    [(js "parent", e.parent.map .ofStr), (js "text", some (.ofStr e.text)), (js "manual", e.manual.map .ofBool)]
  | .sessionMetadata e =>
    [(js "parent", e.parent.map .ofStr), (js "archived", e.archived.map .ofBool), (js "pinned", e.pinned.map .ofBool)]
  | .systemNotice e =>
    [(js "parent", e.parent.map .ofStr), (js "source", some (.ofStr e.source.text)),
      (js "code", some (.ofStr e.code)),
      (js "message", some (.ofStr e.message))]
  | .contextCompacted e =>
    [(js "throughSeq", some (.ofNat e.throughSeq)), (js "summary", some (.ofStr e.summary)),
      (js "estimatedInputTokens", e.estimatedInputTokens.map .ofNat),
        (js "contextWindow", e.contextWindow.map .ofNat),
      (js "failure", e.failure.map .ofStr)]
  | .contextReduced e =>
    [(js "throughSeq", some (.ofNat e.throughSeq)), (js "releasedTokens", e.releasedTokens.map .ofNumber)]

def LedgerEvent.fields (e : LedgerEvent) : Fields :=
  (js "type", some (.ofStr e.body.type)) :: (js "seq", some (.ofNat e.seq)) :: (js "at", some (.ofStr e.at)) ::
    (js "turn", e.turn.map .ofNat) :: (js "step", e.step.map .ofNat) :: e.body.fields

variable (e : LedgerEvent)

theorem LedgerEvent.nodup_fields : (e.fields.map Prod.fst).Nodup := by
  obtain ⟨⟨turn, step, body⟩, seq, time⟩ := e
  cases body with
  | spanStarted e => obtain ⟨id, parent, _ | _⟩ := e <;> exact of_decide_eq_true rfl
  | spanFinished e => obtain ⟨id, status, error, _ | _⟩ := e <;> exact of_decide_eq_true rfl
  | _ => exact of_decide_eq_true rfl

def LedgerEvent.members (e : LedgerEvent) : OMap JsString Json := JsonValue.members e.fields

theorem LedgerEvent.get_fields_of_foreign {key : JsString} (h : key ∈ [js "cycle", js "actionId"]) :
    OMap.get e.fields key = none := by
  obtain ⟨⟨turn, step, body⟩, seq, time⟩ := e
  rw [List.mem_cons, List.mem_singleton] at h
  rcases h with rfl | rfl <;> cases body with
  | spanStarted e => obtain ⟨id, parent, _ | _⟩ := e <;> exact of_decide_eq_true rfl
  | spanFinished e => obtain ⟨id, status, error, _ | _⟩ := e <;> exact of_decide_eq_true rfl
  | _ => exact of_decide_eq_true rfl

/-- The members of the object a caller appends. -/
def LedgerEventDraft.members (d : LedgerEventDraft) : OMap JsString Json :=
  JsonValue.members ((js "type", some (.ofStr d.body.type)) :: (js "turn", d.turn.map .ofNat) ::
    (js "step", d.step.map .ofNat) :: d.body.fields)

theorem LedgerEvent.members_perm :
    (e.toLedgerEventDraft.members ++ [(js "seq", Json.num (.ofNat e.seq)),
      (js "at", Json.str e.at)]).Perm e.members := by
  exact List.Perm.cons _ List.perm_append_comm

structure EventObject where
  event : LedgerEvent
  members : OMap JsString Json
  perm : members.Perm event.members

namespace EventObject

variable (o : EventObject)

theorem distinct : (Json.obj o.members).distinct = true :=
  Json.distinct_perm o.perm.symm (JsonValue.distinct_members o.event.nodup_fields)

theorem nodup_keys : o.members.keys.Nodup := (Json.distinct_obj.mp o.distinct).1

theorem get_members (k : JsString) :
    o.members.get k = (OMap.get o.event.fields k).join.map Subtype.val := by
  rw [OMap.get_perm o.perm o.nodup_keys]
  exact JsonValue.get_members o.event.nodup_fields k

def ofEvent (e : LedgerEvent) : EventObject := ⟨e, e.members, List.Perm.refl _⟩

end EventObject

structure DraftObject where
  draft : LedgerEventDraft
  members : OMap JsString Json
  perm : members.Perm draft.members

namespace DraftObject

/-- `{ ...draft, seq, at }`. -/
def stamp (d : DraftObject) (seq : Nat) (time : JsString) : EventObject where
  event := { d.draft with seq := seq, «at» := time }
  members := (OMap.set d.members (js "seq") (.num (.ofNat seq))).set (js "at") (.str time)
  perm := by
    have hmem := LedgerEvent.members_perm { d.draft with seq := seq, «at» := time }
    have hnodup := (Json.distinct_obj.mp (EventObject.ofEvent { d.draft with seq := seq, «at» := time }).distinct).1
    have hp := (d.perm.append_right [(js "seq", Json.num (.ofNat seq)), (js "at", Json.str time)]).trans hmem
    have hn : (OMap.keys (d.members ++ [(js "seq", Json.num (.ofNat seq)), (js "at", Json.str time)])).Nodup :=
      (hp.map Prod.fst).nodup_iff.mpr hnodup
    simp only [OMap.keys, List.map_append, List.map_cons, List.map_nil, List.nodup_append] at hn
    have hseq : js "seq" ∉ OMap.keys d.members := fun h => hn.2.2 _ h _ (by simp) rfl
    have hat : js "at" ∉ OMap.keys (d.members ++ [(js "seq", Json.num (.ofNat seq))]) := by
      simp only [OMap.keys, List.map_append, List.map_cons, List.map_nil, List.mem_append, List.mem_singleton, not_or]
      exact ⟨fun h => hn.2.2 _ h _ (by simp) rfl, by decide⟩
    rw [OMap.set_of_not_mem hseq, OMap.set_of_not_mem hat, List.append_assoc]
    exact hp

end DraftObject

end Wrenyard.Session
