import Wrenyard.Turn.Runtime

/-!
# The segments of a turn

What each part of a turn does from one `await` to the next, in the order of the source: the step loop with its reason
call, the tool calls and actions, the flushes of results, the replies, and the interrupts and steered messages.  Waits
between which nothing of the turn is read or written are one wait.
-/

namespace Wrenyard.Turn

open Js Session Async

abbrev Segment := Yield TurnRuntime LedgerEventDraft Pc Out

variable (c : TurnConfig)

def turnDraft (body : EventBody) : LedgerEventDraft := ⟨some c.turn, none, body⟩

def stepDraft (step : Nat) (body : EventBody) : LedgerEventDraft := ⟨some c.turn, some step, body⟩

def stepStartedDraft (step : Nat) (lastInputTokens : Option Nat) : LedgerEventDraft :=
  stepDraft c step (.stepStarted
    { id := stepId c.turn step, parent := turnId c.turn, model := c.publicId, contextWindow := c.contextWindow
      lastInputTokens })

def stepFinishedDraft (step : Nat) (id : JsString) (status : StepStatus) : LedgerEventDraft :=
  stepDraft c step (.stepFinished { id, status })

def reasoningCompletedDraft (step : Nat) (outcome : ReasonOutcome) (workerOutput : JsString) : LedgerEventDraft :=
  stepDraft c step (.reasoningCompleted
    { parent := outcome.spanId, text := outcome.text, workerOutput := some workerOutput })

def turnFinishedDraft (status : TurnStatus) (error : Option JsString) : LedgerEventDraft :=
  turnDraft c (.turnFinished { id := turnId c.turn, status, error })

def turnSteeredDraft (text : JsString) (sender : Option JsString) : LedgerEventDraft :=
  turnDraft c (.turnSteered { id := turnId c.turn, text, sender })

/-- The `system.error` of `appendError`: its parent is the step in progress, else the turn. -/
def errorDraft (t : TurnRuntime) (stage message : JsString) (step : Nat) : LedgerEventDraft :=
  stepDraft c step (.systemNotice
    { level := .error, parent := some (t.currentStepId.getD (turnId c.turn)), source := .system, code := stage
      message })

def replySentDraft (request : ReplyRequest) (parent : Option JsString) (text : JsString) (source : ReplySource) :
    LedgerEventDraft :=
  stepDraft c request.step (.replySent
    { parent, text, kind := some (if request.terminal then .final else .progress), source := some source })

/-- `flushResults`: one more link of the chain of flushes. -/
def flushResults (t : TurnRuntime) (owner : FlushOwner) : Segment :=
  ⟨{ t with flushesAdded := t.flushesAdded + 1 }, [.wait (.flushTurn t.flushesAdded owner)], none⟩

/-- The `action.finished` of a result as it is appended. -/
def finishedDraft (t : TurnRuntime) (bundle : ResultBundle) : LedgerEventDraft :=
  stepDraft c bundle.step (.actionFinished
    (if t.dropDeferred || t.aborted then { bundle.finished with afterInterrupt := some true } else bundle.finished))

def settleFlush (t : TurnRuntime) (ok : Bool) (owner : FlushOwner) : Segment :=
  ⟨{ t with flushesSettled := t.flushesSettled + 1 }, [.wait (.flushEnd ok owner)], none⟩

def flushLoop (t : TurnRuntime) (owner : FlushOwner) : Segment :=
  match t.reasonCompleted, t.resultQueue with
  | true, bundle :: queue =>
    ⟨{ t with resultQueue := queue },
      [.append (finishedDraft c t bundle) (.flushed bundle.step bundle.deferred owner)], none⟩
  | _, _ => settleFlush t true owner

def flushDeferred (t : TurnRuntime) (step : Nat) (deferred : List DeferredBody) (owner : FlushOwner) : Segment :=
  match deferred.dropWhile fun body => body.isReadDraft && (t.dropDeferred || t.aborted) with
  | [] => flushLoop c t owner
  | body :: deferred => ⟨t, [.append (stepDraft c step body.body) (.flushed step deferred owner)], none⟩

/-- `enqueue`: one more link of the chain of replies. -/
def enqueueReply (t : TurnRuntime) (request : ReplyRequest) : TurnRuntime × Suspended LedgerEventDraft Pc :=
  ({ t with repliesAdded := t.repliesAdded + 1 }, .wait (.replyTurn t.repliesAdded request))

/-- `close`: the one closing communication of a turn without fresh output. -/
def closeTurn (t : TurnRuntime) (error : JsString) (k : Pc) : Segment :=
  let (t', reply) := enqueueReply t { step := t.step, status := .failed, terminal := true, error := some error }
  ⟨t', [reply, .wait k], none⟩

def settleReply (t : TurnRuntime) (ok : Bool) : Segment :=
  ⟨{ t with repliesSettled := t.repliesSettled + 1, replyOk := ok }, [], none⟩

def iterate (t : TurnRuntime) : Segment :=
  if t.finished || t.aborted then ⟨t, [], none⟩
  else
    ⟨{ t with
        step := t.step + 1
        actionsThisStep := 0
        toolCallsThisStep := 0
        asksThisStep := []
        reasonCompleted := false
        correctionRequired := false
        currentReasonText := []
        currentStepId := none }, [.wait .memory], none⟩

/-- The `finally` of an iteration: it waits for the replies before it closes the step. -/
def leave (t : TurnRuntime) (status : StepStatus) (exit : Exit) : Segment :=
  ⟨t, [.wait (.replies (if t.finished || t.aborted then .interrupted else status) exit)], none⟩

/-- The flags of failed work: late results are still recorded, but as such. -/
def failWork (t : TurnRuntime) (failure : Failure) : Segment :=
  ⟨{ t with reasonCompleted := true, dropDeferred := true, aborted := true }, [.wait (.cancelWork failure)], none⟩

/-- What follows the `finally`: the next iteration, the end, or the error path of the loop. -/
def afterStep (t : TurnRuntime) : Exit → Segment
  | .next => iterate t
  | .stop => ⟨t, [], none⟩
  | .throw error => if t.finished then ⟨t, [], none⟩ else failWork t (.thrown error)

/-- `finishStep`: the step's single `step.finished`, when a `step.started` exists. -/
def finishStep (t : TurnRuntime) (status : StepStatus) (exit : Exit) : Segment :=
  match t.currentStepId with
  | none => afterStep t exit
  | some id =>
    ⟨{ t with currentStepId := none }, [.append (stepFinishedDraft c t.step id status) (.stepFinished exit)], none⟩

/-- `runReason` returns or throws, and the loop goes on in a segment of its own. -/
def reasonEnds (t : TurnRuntime) (result : Reasoned) : Segment := ⟨t, [.wait (.reasoned result)], none⟩

/-- The loop after `runReason`. -/
def afterReason (t : TurnRuntime) : Reasoned → Segment
  | .threw error => leave t .failed (.throw error)
  | .failed error => if t.finished then leave t .done .stop else closeTurn t error .closed
  | .ok terminal => if t.finished || terminal then leave t .done .stop else ⟨t, [.wait .acting], none⟩

def hasHandwrittenAction (text : JsString) : Bool := includes text (js "<action") || includes text (js "<wy-action")

def isTerminalStep (t : TurnRuntime) (prose : JsString) : Bool :=
  if t.correctionRequired then false
  else if t.asksThisStep.length = 1 ∧ t.actionsThisStep = 0 then true
  else decide (t.toolCallsThisStep = 0) && decide (trim prose ≠ []) && !hasHandwrittenAction prose

/-- The visible prose, followed by the intents and questions of the tool calls. -/
def buildWorkerOutput (prose : JsString) (workerLines : List JsString) : JsString :=
  if workerLines = [] then prose
  else if trim prose = [] then unlines workerLines
  else prose ++ [lf] ++ unlines workerLines

def ParsedAction.input (action : ParsedAction) : JsonValue :=
  .ofFields [(js "type", some (.ofStr action.type.text)), (js "intent", some (.ofStr action.intent)),
    (js "name", action.name.map .ofStr)] (show [js "type", js "intent", js "name"].Nodup by decide)

def pushLine (workerLines : List JsString) (line : JsString) : List JsString :=
  if c.agentTools then workerLines else workerLines ++ [line]

/-- `onToolCall`: an invalid call forces a correction, a question is remembered, an action starts at once. -/
def onToolCall (t : TurnRuntime) (steersSeen : Nat) (workerLines : List JsString) (call : ParsedCall) (taken : Nat) :
    Segment :=
  if t.finished || t.aborted then ⟨t, [.wait (.invoking steersSeen workerLines)], none⟩
  else
    let t := { t with toolCallsThisStep := t.toolCallsThisStep + 1 }
    match call with
    | .invalid message =>
      ⟨{ t with correctionRequired := true, parsePromises := t.parsePromises + 1 },
        [.wait (.invoking steersSeen workerLines), .append (errorDraft c t (js "reason") message t.step) .reporting],
        none⟩
    | .ask intent =>
      ⟨{ t with asksThisStep := t.asksThisStep ++ [intent] },
        [.wait (.invoking steersSeen (pushLine c workerLines (js "- ask: " ++ intent)))], none⟩
    | .action action =>
      let actionSeq := t.actionSeq + taken + 1
      let actionId := js "a" ++ natText actionSeq
      ⟨{ t with actionsThisStep := t.actionsThisStep + 1, parsePromises := t.parsePromises + 1, actionSeq },
        [.wait (.invoking steersSeen
            (pushLine c workerLines (js "- " ++ action.type.text ++ js ": " ++ action.intent))),
          .append (stepDraft c t.step (.actionStarted
            { id := actionId, parent := stepId c.turn t.step, type := action.type, prompt := action.intent
              input := some action.input, taskRunId := none })) (.starting actionId t.step action)], none⟩

def reasonOutcome (t : TurnRuntime) (steersSeen : Nat) (workerLines : List JsString) :
    Except JsString ReasonOutcome → Segment
  | .error error => if t.finished then reasonEnds t (.failed (js "interrupted")) else failWork t (.reason error)
  | .ok outcome =>
    if t.finished then reasonEnds t (.failed (js "interrupted"))
    else
      match outcome.reasoning.filter (· ≠ []) with
      | some text =>
        ⟨t, [.append (stepDraft c t.step (.reasoningThinking { parent := outcome.spanId, text }))
          (.thinking steersSeen outcome workerLines)], none⟩
      | none =>
        ⟨{ t with currentReasonText := outcome.text }, [.wait (.parses steersSeen outcome workerLines)], none⟩

def completeReason (t : TurnRuntime) (steersSeen : Nat) (outcome : ReasonOutcome) (workerLines : List JsString) :
    Segment :=
  if t.finished then reasonEnds t (.failed (js "interrupted"))
  else
    let workerOutput := buildWorkerOutput outcome.text workerLines
    let terminal := isTerminalStep t outcome.text && decide (t.steers = steersSeen)
    ⟨{ t with closing := t.closing || terminal },
      [.append (reasoningCompletedDraft c t.step outcome workerOutput) (.completed terminal workerOutput)], none⟩

def requestReply (t : TurnRuntime) (terminal : Bool) (workerOutput : JsString) : Segment :=
  if trim workerOutput = [] then reasonEnds t (.ok terminal)
  else
    let (t', reply) := enqueueReply t
      { step := t.step, status := if terminal then .completed else .running, terminal, error := none }
    ⟨t', [reply, .wait (.reasoned (.ok terminal))], none⟩

def decideStep (t : TurnRuntime) : Segment :=
  let report (message : JsString) (after : AfterError) : Segment :=
    ⟨t, [.append (errorDraft c t (js "reason") message t.step) (.errorAppended after)], none⟩
  if t.finished then leave t .done .stop
  else if 1 < t.asksThisStep.length then report (js "only one ask is allowed per output") .correct
  else if t.asksThisStep.length = 1 ∧ 0 < t.actionsThisStep then
    report (js "ask must be sent alone; it was ignored") .proceed
  else if t.toolCallsThisStep = 0 then
    if trim t.currentReasonText = [] then report (js "reason call returned no visible output") .emptyReason
    else if hasHandwrittenAction t.currentReasonText then
      report (js "actions can only be started through the wy_action tool") .correct
    else leave t .done .next
  else leave t .done .next

def afterError (t : TurnRuntime) : AfterError → Segment
  | .correct => leave { t with correctionRequired := true } .done .next
  | .proceed => leave t .done .next
  | .emptyReason =>
    if t.emptyReasonRetried then closeTurn t (js "reason call returned no visible output") .closed
    else leave { t with emptyReasonRetried := true } .done .next

def closeLastTurn (t : TurnRuntime) (status : TerminalStatus) (error : Option JsString) : Segment :=
  ⟨t, [.append (turnFinishedDraft c status.turn error) (.turnFinished status)], none⟩

def closeLastStep (t : TurnRuntime) (status : TerminalStatus) (error : Option JsString) : Segment :=
  match t.currentStepId with
  | none => closeLastTurn c t status error
  | some id =>
    ⟨{ t with currentStepId := none },
      [.append (stepFinishedDraft c t.step id status.step) (.lastStepFinished status error)], none⟩

/-- `finishTurn`: finalization is claimed before any write is awaited. -/
def finishTurn (t : TurnRuntime) (status : TerminalStatus) (error : Option JsString) (memories : Bool) : Segment :=
  if t.finished then settleReply t true
  else
    let t := { t with status := some status.turn, finished := true }
    if memories then ⟨t, [.wait (.saveMemories status error)], none⟩ else closeLastStep c t status error

/-- What follows a reply that was sent, or that had nothing to send. -/
def afterReply (t : TurnRuntime) (request : ReplyRequest) (memories : Bool) : Segment :=
  if t.finished || t.aborted then settleReply t true
  else if request.terminal then finishTurn c t request.status.terminal request.error memories
  else settleReply t true

def suppressReply (t : TurnRuntime) (request : ReplyRequest) (parent : Option JsString) : Segment :=
  if request.terminal && t.aborted then
    ⟨t, [.append (replySentDraft c request parent (js "已中断") .interruption) .interruptionSent], none⟩
  else settleReply t true

def terminalReasonOutput (events : List LedgerEventDraft) (turn step : Nat) : Option (JsString × JsString) :=
  events.reverse.findSome? fun event =>
    match event.body with
    | .reasoningCompleted e =>
      if event.turn = some turn ∧ event.step = some step then some (e.text, e.parent) else none
    | _ => none

/-- `publishFinal`: the closing text of a session that runs on an agent tool port is the reply. -/
def publishFinal (t : TurnRuntime) (events : List LedgerEventDraft) (request : ReplyRequest) : Segment :=
  match (terminalReasonOutput events c.turn request.step).filter fun output => trim output.1 ≠ [] with
  | some (text, parent) =>
    if request.status = .completed then
      ⟨t, [.append (replySentDraft c request (some parent) text .agentText) (.replySent request false)], none⟩
    else afterReply c t request false
  | none => afterReply c t request false

/-- The start of `process`. -/
def processReply (t : TurnRuntime) (events : List LedgerEventDraft) (request : ReplyRequest) : Segment :=
  if t.finished || t.aborted then suppressReply c t request none
  else if request.terminal && c.agentTools then publishFinal c t events request
  else
    let canSave := request.terminal && decide (request.status = .completed) &&
        decide (t.asksThisStep = []) && c.memory
    ⟨t, [.wait (.replyCall request canSave)], none⟩

def replyText (request : ReplyRequest) (outcome : ReplyOutcome) : Except JsString (Option (JsString × ReplySource)) :=
  if outcome.ok then
    match outcome.toolText with
    | .error message => .error message
    | .ok text =>
      if trim text ≠ [] then .ok (some (text, .tool))
      else if trim outcome.text ≠ [] then .ok (some (outcome.text, .replyText))
      else if request.terminal then .error (js "Reply call completed without a non-empty reply tool call")
      else .ok none
  else .error (outcome.error.getD (js "reply call failed"))

/-- The rest of `process`, after the reply call. -/
def replyOutcome (t : TurnRuntime) (request : ReplyRequest) (canSave : Bool) (outcome : ReplyOutcome) : Segment :=
  if t.finished || t.aborted then suppressReply c t request (some outcome.spanId)
  else
    match replyText request outcome with
    | .error failure =>
      if request.terminal then
        ⟨t, [.append (errorDraft c t (js "reply") failure request.step) (.replyError request failure)], none⟩
      else settleReply t true
    | .ok none => afterReply c t request false
    | .ok (some (text, source)) =>
      ⟨t, [.append (replySentDraft c request (some outcome.spanId) text source)
        (.replySent request (canSave && decide (source = .tool)))], none⟩

def replyFailed (t : TurnRuntime) (request : ReplyRequest) (failure : JsString) : Segment :=
  if t.finished || t.aborted then settleReply t true
  else
    let error := if request.status = .failed then request.error.getD failure else failure
    finishTurn c t .failed (some error) false

def afterTurnFinished (t : TurnRuntime) (status : TerminalStatus) : Segment :=
  if status = .completed ∧ t.asksThisStep.length = 1 ∧ t.actionsThisStep = 0 then
    ⟨t, [.append (turnDraft c (.turnAttention
      { turnId := turnId c.turn, needsUser := true, label := none, source := .ask })) .attention], none⟩
  else settleReply { t with durableTerminal := true } true

/-- `interruptTurn`: the terminal flag is flipped before anything is awaited. -/
def interruptTurn (t : TurnRuntime) (reason : InterruptReason) : Segment :=
  if t.finished then ⟨t, [], none⟩
  else
    ⟨{ t with status := some .interrupted, finished := true, reasonCompleted := true },
      [.append (turnDraft c (.turnInterrupted { parent := turnId c.turn, reason })) .interrupted], none⟩

def enqueueResult (t : TurnRuntime) (actionId : JsString) (step : Nat) (action : ParsedAction)
    (outcome : ActionOutcome) : Segment :=
  let finished : ActionFinishedEvent :=
    { id := actionId, type := action.type, status := outcome.status, result := outcome.result, task := outcome.task
      taskStatus := outcome.taskStatus, taskRunId := outcome.taskRunId
      afterInterrupt := if t.aborted then some true else none }
  let t := { t with resultQueue := t.resultQueue ++ [⟨step, finished, outcome.deferred⟩] }
  if t.reasonCompleted then flushResults t .action
  else ⟨{ t with actionPromises := t.actionPromises - 1 }, [], none⟩

/-- `steer`: counted in the same segment as the append is queued. -/
def steer (t : TurnRuntime) (text : JsString) (sender : Option JsString) : Segment :=
  if t.durableTerminal || t.finished || t.closing then ⟨t, [], some .undefined⟩
  else ⟨{ t with steers := t.steers + 1 }, [.append (turnSteeredDraft c text sender) .steered], none⟩

def afterFlush (t : TurnRuntime) (answer : Answer) : Bool → FlushOwner → Option Segment
  | true, .completed terminal workerOutput => some (requestReply t terminal workerOutput)
  | true, .failure (.reason error) =>
    -- the controller of a turn that is still open is replaced, so that its closing reply is not aborted
    some (reasonEnds (if t.finished then t else { t with aborted := false }) (.failed error))
  | true, .failure (.thrown error) =>
    some (if t.finished then ⟨t, [], none⟩ else closeTurn { t with aborted := false } error .catchClosed)
  | true, .interrupt => some ⟨t, [.append (turnFinishedDraft c .interrupted none) .interruptFinished], none⟩
  | false, .failure (.thrown _) => some ⟨t, [], none⟩
  | false, .interrupt => some ⟨t, [], none⟩
  | _, .action => some ⟨{ t with actionPromises := t.actionPromises - 1 }, [], none⟩
  | false, _ =>
    match answer with
    | .failed error => some (reasonEnds t (.threw error))
    | _ => none

def resumeWaiting (t : TurnRuntime) (events : List LedgerEventDraft) : Pc → Answer → Option Segment
  | .start, .ok => some (iterate t)
  | .start, .failed _ => some ⟨t, [], none⟩
  | .memory, .ok => some (if t.finished then leave t .done .stop else ⟨t, [.wait .reasoning], none⟩)
  | .memory, .failed error => some (leave t .failed (.throw error))
  | .reasoning, .context lastInputTokens =>
    some ⟨t, [.append (stepStartedDraft c t.step lastInputTokens) (.stepStarted t.steers)], none⟩
  | .reasoning, .failed error => some (reasonEnds t (.threw error))
  | .prepared steersSeen, .compaction (.ok _) => some ⟨t, [.wait (.invoking steersSeen [])], none⟩
  | .prepared _, .compaction (.error error) => some (reasonEnds t (.failed error))
  | .prepared _, .failed error => some (reasonEnds t (.threw error))
  | .invoking steersSeen workerLines, .toolCall call taken => some (onToolCall c t steersSeen workerLines call taken)
  | .invoking steersSeen workerLines, .reason result => some (reasonOutcome c t steersSeen workerLines result)
  | .parses steersSeen outcome workerLines, .ok =>
    if t.parsePromises = 0 then some (completeReason c t steersSeen outcome workerLines) else none
  | .reasoned result, .ok => some (afterReason t result)
  | .acting, .ok => if t.actionPromises = 0 then some (decideStep c t) else none
  | .closed, .ok =>
    if t.repliesSettled = t.repliesAdded ∧ t.replyOk = true then some (leave t .failed .stop) else none
  | .closed, .failed error =>
    if t.repliesSettled = t.repliesAdded ∧ t.replyOk = false then some (leave t .failed (.throw error)) else none
  | .cancelWork failure, .ok => some ⟨t, [.wait (.drainParses failure)], none⟩
  | .drainParses failure, .ok =>
    if t.parsePromises = 0 then some ⟨t, [.wait (.drainActions failure)], none⟩ else none
  | .drainActions failure, .ok => if t.actionPromises = 0 then some (flushResults t (.failure failure)) else none
  | .replies status exit, .ok =>
    if t.repliesSettled = t.repliesAdded then some (finishStep c t status exit) else none
  | .catchClosed, .ok => if t.repliesSettled = t.repliesAdded then some ⟨t, [], none⟩ else none
  | .flushTurn link owner, .ok => if t.flushesSettled = link then some (flushLoop c t owner) else none
  | .flushEnd ok owner, answer => afterFlush c t answer ok owner
  | .replyTurn link request, .ok =>
    if t.repliesSettled = link then some (processReply c t events request) else none
  | .replyCall request canSave, .reply outcome => some (replyOutcome c t request canSave outcome)
  | .replyCall _ _, .failed _ => some (settleReply t false)
  | .saveMemories status error, .ok => some (closeLastStep c t status error)
  | .interruptTurn reason, .ok => some (interruptTurn c t reason)
  | .interruptCancel, .ok => some (flushResults t .interrupt)
  | .running actionId step action, .result outcome => some (enqueueResult t actionId step action outcome)
  | .steer text sender, .ok => some (steer c t text sender)
  | _, _ => none

def resumeAppended (t : TurnRuntime) (events : List LedgerEventDraft) (event : LedgerEventDraft) : Pc → Option Segment
  | .stepStarted steersSeen =>
    some ⟨{ t with currentStepId := some (stepId c.turn t.step), requestEvents := events },
      [.wait (.prepared steersSeen)], none⟩
  | .thinking steersSeen outcome workerLines =>
    some ⟨{ t with currentReasonText := outcome.text }, [.wait (.parses steersSeen outcome workerLines)], none⟩
  | .completed terminal workerOutput =>
    some (flushResults { t with reasonCompleted := true } (.completed terminal workerOutput))
  | .errorAppended after => some (afterError t after)
  | .stepFinished exit => some (afterStep t exit)
  | .flushed step deferred owner => some (flushDeferred c t step deferred owner)
  | .interruptionSent => some (settleReply t true)
  | .replyError request failure => some (replyFailed c t request failure)
  | .replySent request memories => some (afterReply c t request memories)
  | .lastStepFinished status error => some (closeLastTurn c t status error)
  | .turnFinished status => some (afterTurnFinished c t status)
  | .attention => some (settleReply { t with durableTerminal := true } true)
  | .interrupted => some ⟨{ t with aborted := true }, [.wait .interruptCancel], none⟩
  | .interruptFinished => some ⟨{ t with durableTerminal := true }, [], none⟩
  | .reporting => some ⟨{ t with parsePromises := t.parsePromises - 1 }, [], none⟩
  | .starting actionId step action =>
    some ⟨{ t with parsePromises := t.parsePromises - 1, actionPromises := t.actionPromises + 1 },
      [.wait (.running actionId step action)], none⟩
  | .steered => some ⟨t, [], some (.steered c.turn event)⟩
  | _ => none

def resumeFailed (t : TurnRuntime) (error : JsString) : Pc → Option Segment
  | .stepStarted _ => some (reasonEnds t (.threw error))
  | .thinking _ _ _ => some (reasonEnds t (.threw error))
  | .completed _ _ => some (reasonEnds t (.threw error))
  -- reporting an error never fails
  | .errorAppended after => some (afterError t after)
  | .replyError request failure => some (replyFailed c t request failure)
  | .reporting => some ⟨{ t with parsePromises := t.parsePromises - 1 }, [], none⟩
  -- neither does closing a step
  | .stepFinished exit => some (afterStep t exit)
  | .flushed _ _ owner => some (settleFlush t false owner)
  | .interruptionSent => some (settleReply t false)
  | .replySent _ _ => some (settleReply t false)
  | .lastStepFinished _ _ => some (settleReply t false)
  | .turnFinished _ => some (settleReply t false)
  | .attention => some (settleReply t false)
  | .interrupted => some ⟨t, [], none⟩
  | .interruptFinished => some ⟨t, [], none⟩
  | .starting _ step _ => some ⟨t, [.append (errorDraft c t (js "action") error step) .reporting], none⟩
  | .steered => some ⟨t, [], some .threw⟩
  | _ => none

def resume (t : TurnRuntime) (events : List LedgerEventDraft) (thread : Thread LedgerEventDraft Pc)
    (answer : Answer) :
    Option Segment :=
  match thread, answer with
  | .waiting k, answer => resumeWaiting c t events k answer
  | .settled event true k, .ok => resumeAppended c t events event k
  | .settled _ false k, .failed error => resumeFailed c t error k
  | _, _ => none

/-- What comes from outside: interrupts and steers first wait for the session; a shutdown interrupts an open turn, and
aborts what a finished one still has under way. -/
def call (t : TurnRuntime) : Call → Segment
  | .interrupt => ⟨t, [.wait (.interruptTurn .user)], none⟩
  | .shutdown =>
    if t.finished then ⟨{ t with aborted := true }, [], none⟩ else ⟨t, [.wait (.interruptTurn .shutdown)], none⟩
  | .steer text sender => ⟨t, [.wait (.steer text sender)], none⟩

def program : Program TurnRuntime LedgerEventDraft Pc Call Answer Out := ⟨call, resume c⟩

def initial (actionSeq : Nat) : State TurnRuntime LedgerEventDraft Pc :=
  ⟨createTurn actionSeq, [], [], [.waiting .start]⟩

abbrev TurnState := State TurnRuntime LedgerEventDraft Pc

abbrev step : TurnState → Action Call Answer → Option (TurnState × Option Out) := Async.step (program c)

end Wrenyard.Turn
