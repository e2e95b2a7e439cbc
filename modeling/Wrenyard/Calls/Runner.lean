import Wrenyard.Calls.Budget
import Wrenyard.Js.OrderedSet
import Wrenyard.Lib.Transition

/-!
# The call runner

`createCallRunner` of `session/src/model/request.ts` as a machine: one call of `run`, from the reading of the model
list to the value or the error it ends with.  A step is what happens between two awaits.  The environment answers the
awaits in any way: the model list, the route of an auxiliary role, the appends of the two span events, every transport
call with its events, the ladder of an automatic call and the timer of a wait; and it may abort the call before any
step.

A transport call sends at most one upstream request, and none once the call is aborted (`createModelTransport` checks
the signal before its `fetch`); the events of an abandoned call may still arrive.  The messages are left out, but for
the estimate of their tokens, and so are the tools, the cache key and the text callbacks' own effects.
-/

namespace Wrenyard.Calls

open Js Session

inductive CallRole where
  | reason
  | auxiliary (role : AuxiliaryCallRole)
deriving DecidableEq

/-- The caller's expensive model for the `reason` role. -/
structure ReasonSelection where
  provider : JsString
  model : JsString
  reasoningEffort : ReasoningEffort
  fast : Option Bool
  automatic : Bool

/-- `ModelCallInput`, and what `CallRunnerOptions` fixes for the call. -/
structure ModelCall where
  spanId : JsString
  parent : JsString
  role : CallRole
  turn : Option Nat
  step : Option Nat
  layers : Layers
  reason : Option ReasonSelection
  maxTokens : Option Nat
  estimatedInputTokens : Nat
  /-- `selectAutomaticRoutes` is present. -/
  selectAutomaticRoutes : Bool
  /-- What the getters of the retry policy return, when they are present. -/
  retrySessions : Option Bool
  retryBots : Option Bool

def AUXILIARY_FIRST_RESPONSE_TIMEOUT_SEC : Nat := 30

def REASONING_RETRY_DELAYS_MS : List Nat := [2000, 4000, 8000, 16000]

def REASONING_MAX_RETRIES : Nat := 4

def SUGGESTION_MAX_TOKENS : Nat := 384

/-- The recovery wait of a main reasoning call, as `onWait` reports it. -/
structure Wait where
  reason : JsString
  retryAt : Option JsString
deriving DecidableEq

structure ModelRequest where
  model : JsString
  reasoningEffort : ReasoningEffort
  fast : Option Bool
  maxOutputTokens : Option Nat
  firstResponseTimeoutSec : Option Nat

structure ToolCall where
  index : Nat
  id : JsString
  name : JsString
  arguments : JsString

inductive ModelEvent where
  | text (delta : JsString)
  | reasoning (delta : JsString)
  | toolCall (call : ToolCall)
  | usage (usage : Usage)
  | activity
  | retry
  | wait (wait : Wait)

/-- `createModelTransport` reports neither waits nor retries. -/
def ModelEvent.fromAdapter : ModelEvent → Bool
  | .retry => false
  | .wait _ => false
  | _ => true

structure ModelResult where
  text : JsString
  reasoning : Option JsString
  toolCalls : List ToolCall
  usage : Option Usage
  finishReason : Option FinishReason
  metrics : ModelMetrics

structure ServedRoute where
  provider : Option JsString
  model : JsString
  effort : Option ReasoningEffort

structure ModelCallOutput where
  model : JsString
  text : JsString
  reasoning : Option JsString
  usage : Option Usage
  toolCalls : List ToolCall
  finishReason : Option FinishReason
  metrics : ModelMetrics
  route : ServedRoute

/-- `ModelCallError`; its status is `failed` or `aborted`. -/
structure ModelCallError where
  message : JsString
  spanId : JsString
  role : CallRole
  model : JsString
  aborted : Bool
  failure : SpanError
  metrics : Option ModelMetrics
deriving DecidableEq

/-- What `run` throws: a `ModelCallError`, or an error it passes on. -/
inductive CallFailure where
  | call (error : ModelCallError)
  | thrown (error : Thrown)
deriving DecidableEq

def routeKeyOf (provider model : JsString) : Except Thrown JsString :=
  let providerID := trim provider
  let modelID := trim model
  if providerID = [] then .error (.plain (js "A model selection requires a resolved provider"))
  else if modelID = [] then .error (.plain (js "A model selection requires a registered model id"))
  else if modelID.contains 47 then
    .error (.plain (js "Model selection must use the registered model id, not a provider-qualified id: " ++ modelID))
  else .ok (providerID ++ js "/" ++ modelID)

def reasoningRetriesEnabled (c : ModelCall) (automatic : Bool) : Bool :=
  (if automatic then c.retryBots else c.retrySessions).getD true

/-- A failure whose meaning is unclear, before any output. -/
def isReasoningCallerRetryable (error : Thrown) (outputStarted : Bool) : Bool :=
  if outputStarted || !error.modelError || error.outputStarted then false
  else
    match error.kind with
    | some .server => true
    | some .network => true
    | some .rateLimited => error.retryAt.isNone && error.retryAfterMs.isNone
    | _ => false

/-- An explicit answer that the route has no capacity. -/
def capacityFailure (error : Thrown) : Bool :=
  error.modelError &&
    match error.kind with
    | some .quotaExhausted => true
    | some .rateLimited => error.retryAt.isSome || error.retryAfterMs.isSome
    | _ => false

/-- A draw of `Math.random`, in units of `2 ^ -53`, and the clock: the text of the instant some milliseconds from
now. -/
structure Clock where
  random : Nat
  after : Nat → JsString

/-- One backoff step: the ordinal step times a jitter between 0.75 and 1, rounded. -/
def reasoningRetryDelayMs (retryOrdinal : Nat) (random : Nat) : Nat :=
  let base := REASONING_RETRY_DELAYS_MS.getD (min (max retryOrdinal 1 - 1) (REASONING_RETRY_DELAYS_MS.length - 1)) 0
  (2 * base * (3 * 2 ^ 53 + random) + 2 ^ 55) / 2 ^ 56

def abortMessage (aborted : Bool) : JsString :=
  if aborted then js "Model call was aborted" else js "Model call failed"

def attemptsOf (metrics : Option ModelMetrics) : List ModelAttempt := (metrics.map (·.attempts)).getD []

def mergedMetrics (base : Option ModelMetrics) (routeAttempts : List ModelAttempt) : Option ModelMetrics :=
  if routeAttempts = [] then base
  else some { base.getD ⟨none, none, none, none, none, none, []⟩ with attempts := routeAttempts }

def providerOf (model : JsString) : Option JsString := (indexOf model 47).map model.take

/-- The variables of the loops of `runReasoning`. -/
structure Reasoning where
  first : ReasonSelection
  candidates : List ReasonSelection
  index : Nat
  ladderLoaded : Bool
  started : Bool
  excludedModels : List JsString
  consecutiveFailures : OMap JsString Nat
  retriesUsed : Nat
  retriesEnabled : Bool
  lastError : Option Thrown

structure Try where
  candidate : ReasonSelection
  model : JsString
  budget : ContextBudget

inductive Phase where
  | loadingModels
  | resolving
  /-- Appending `span.started`. -/
  | startingAuxiliary (route : SpanRoute) (budget : ContextBudget)
  | startingReasoning (r : Reasoning) (t : Try)
  /-- In a transport call, which may have sent its upstream request. -/
  | callingAuxiliary (route : SpanRoute) (issued : Bool)
  | calling (r : Reasoning) (t : Try) (issued : Bool)
  | loadingLadder (r : Reasoning) (t : Try) (capacity : Bool)
  | waiting (r : Reasoning) (t : Try) (switchRoute : Bool)
  /-- Appending the `span.finished` of a failure, inside the `try` of `run` or in its `catch`. -/
  | failing (inCatch : Bool) (error : ModelCallError)
  /-- Appending the `span.finished` of a result. -/
  | finishing (output : ModelCallOutput)
  | done (outcome : Except CallFailure ModelCallOutput)

structure CallState where
  models : List GatewayModel
  aborted : Bool
  model : JsString
  actualReasoningEffort : Option ReasoningEffort
  partialUsage : Option Usage
  emitted : Bool
  outputStarted : Bool
  waiting : Option Wait
  routeAttempts : List ModelAttempt
  /-- A transport call was abandoned by an abort, and may still report events. -/
  stale : Bool
  phase : Phase

def CallState.initial : CallState where
  models := []
  aborted := false
  model := []
  actualReasoningEffort := none
  partialUsage := none
  emitted := false
  outputStarted := false
  waiting := none
  routeAttempts := []
  stale := false
  phase := .loadingModels

/-- What the environment does. -/
inductive CallAction where
  | abort
  /-- The model list is read, or fails to be. -/
  | listed (models : Option (List GatewayModel))
  | resolved (route : Except Thrown SpanRoute)
  /-- An append succeeds, or fails with a message. -/
  | appended (failure : Option JsString)
  /-- The transport sends its upstream request. -/
  | issued
  | event (event : ModelEvent)
  | settled (outcome : Except Thrown ModelResult) (clock : Clock)
  /-- The ladder is read, or fails to be. -/
  | routes (ladder : Option (List ReasonSelection)) (clock : Clock)
  | elapsed
  /-- The abort ends the wait. -/
  | waitAborted

/-- What a step does to the environment. -/
inductive Effect where
  | resolveAuxiliaryModel (role : AuxiliaryCallRole)
  | selectAutomaticRoutes
  | append (draft : LedgerEventDraft)
  | complete (request : ModelRequest)
  | delay (ms : Nat)
  | onWait (state : Option Wait)
  | onText (delta : JsString)
  | onReasoning (delta : JsString)
  | onToolCall (call : ToolCall)

abbrev Move := CallState × List Effect

/-- A further step after some effects. -/
def Move.andThen (m : Move) (next : CallState → Move) : Move := ((next m.1).1, m.2 ++ (next m.1).2)

section

variable (c : ModelCall)

def ModelCall.spanKind : ModelSpanKind :=
  match c.role with
  | .reason => .reasoning
  | .auxiliary _ => .auxiliary

def ModelCall.outputTokens : Option Nat :=
  if c.role = .auxiliary .suggestion then some SUGGESTION_MAX_TOKENS else c.maxTokens

def startedDraft (request : ModelSpanRequest) : LedgerEventDraft where
  turn := c.turn
  step := c.step
  body := .spanStarted ⟨c.spanId, c.parent, .model c.spanKind request⟩

structure FinishFields where
  output : Option JsString
  reasoning : Option JsString
  error : Option SpanError
  metrics : Option ModelMetrics

def finishedDraft (s : CallState) (status : SpanStatus) (fields : FinishFields) : LedgerEventDraft where
  turn := c.turn
  step := c.step
  body := .spanFinished ⟨c.spanId, status, fields.error,
    .model ⟨c.spanKind, fields.output, fields.reasoning, if s.model = [] then none else some s.model, fields.metrics⟩⟩

def reportWait (s : CallState) (state : Option Wait) : Move :=
  if c.role ≠ .reason ∨ s.waiting = state then (s, [])
  else ({ s with waiting := state }, [.onWait state])

/-- `run` ends: the `finally` of its body, and its outcome. -/
def conclude (s : CallState) (outcome : Except CallFailure ModelCallOutput) : Move :=
  Move.andThen (reportWait c s none) fun s => ({ s with phase := .done outcome }, [])

structure FailDetail where
  aborted : Bool
  error : Option SpanError
  metrics : Option ModelMetrics

def fail (s : CallState) (inCatch : Bool) (message : JsString) (detail : FailDetail) : Move :=
  let failure := detail.error.getD ⟨.model .protocol, none, none, message⟩
  let error : ModelCallError := ⟨message, c.spanId, c.role, s.model, detail.aborted, failure, detail.metrics⟩
  if s.emitted then conclude c s (.error (.call error))
  else
    ({ s with emitted := true, phase := .failing inCatch error },
      [.append (finishedDraft c s (if detail.aborted then .aborted else .failed) ⟨none, none, some failure,
        detail.metrics⟩)])

/-- The `catch` of `run`, for an error that is no `ModelCallError`. -/
def caught (s : CallState) (error : Thrown) : Move :=
  let message := if s.aborted then abortMessage true else withOverflowPrefix error
  let failure := if s.aborted then ⟨.model .aborted, none, none, message⟩ else errorFactOf error
  fail c s true message ⟨s.aborted, some failure, mergedMetrics error.metrics s.routeAttempts⟩

def auxiliaryFailure (s : CallState) (message : JsString) (retryAt : Option JsString) (kind : ModelErrorKind) :
    FailDetail where
  aborted := s.aborted
  error := some ⟨.model (if s.aborted then .aborted else kind), none, if s.aborted then none else retryAt, message⟩
  metrics := mergedMetrics none s.routeAttempts

/-- The end of `run` behind a result. -/
def completed (s : CallState) (result : ModelResult) : Move :=
  Move.andThen (reportWait c s none) fun s =>
    let metrics := (mergedMetrics (some result.metrics) s.routeAttempts).getD result.metrics
    let output : ModelCallOutput :=
      { model := s.model
        text := result.text
        reasoning := result.reasoning
        usage := result.usage <|> s.partialUsage
        toolCalls := result.toolCalls
        finishReason := result.finishReason
        metrics := metrics
        route := ⟨providerOf s.model, s.model, s.actualReasoningEffort⟩ }
    if s.emitted then ({ s with phase := .done (.ok output) }, [])
    else
      ({ s with emitted := true, phase := .finishing output },
        [.append (finishedDraft c s .ok ⟨some result.text, result.reasoning, none, some metrics⟩)])

/-- `runAuxiliary`, up to the append of its start. -/
def runAuxiliary (s : CallState) (role : AuxiliaryCallRole) (route : SpanRoute) : Move :=
  let budget := checkContextBudget route.model c.estimatedInputTokens s.models c.outputTokens
  let s := { s with model := route.model }
  match budget.reason with
  | some reason =>
    let message := js "context_overflow: " ++ reason
    fail c s false message (auxiliaryFailure s message none .contextOverflow)
  | none =>
    let sent := if hasSelectableReasoningEfforts budget.metadata then route.reasoningEffort
        else PROVIDER_DEFAULT_REASONING
    ({ s with actualReasoningEffort := some sent, phase := .startingAuxiliary route budget },
      [.append (startedDraft c ⟨some role, route.model, some ⟨none, some sent⟩, budget.estimatedInputTokens, c.layers,
        some ⟨[route], some 1⟩⟩)])

/-- `callModelAttempt` of an auxiliary call. -/
def callAuxiliary (s : CallState) (route : SpanRoute) (budget : ContextBudget) : Move :=
  let sent := if hasSelectableReasoningEfforts budget.metadata then route.reasoningEffort
      else PROVIDER_DEFAULT_REASONING
  ({ s with phase := .callingAuxiliary route false },
    [.complete ⟨route.model, sent, none, budget.requestMaxOutputTokens <|> c.outputTokens,
      some AUXILIARY_FIRST_RESPONSE_TIMEOUT_SEC⟩])

/-- The `catch` of `runAuxiliary`. -/
def auxiliaryFailed (s : CallState) (error : Thrown) : Move :=
  let fact := errorFactOf error
  let s := { s with routeAttempts := s.routeAttempts ++ attemptsOf error.metrics }
  let passed := [SpanErrorKind.model .invalidRequest, .model .contextOverflow, .model .protocol, .model .aborted]
  if s.aborted || s.outputStarted || passed.contains fact.kind then caught c s error
  else
    let message := withOverflowPrefix error
    let kind := match fact.kind with
      | .model kind => kind
      | .task => .protocol
    fail c s false message (auxiliaryFailure s message fact.retryAt kind)

inductive Next where
  | exhausted
  | thrown (error : Thrown)
  /-- The first candidate may not be called. -/
  | refused (message : JsString)
  | found (index : Nat) (t : Try)

def nextCandidate (models : List GatewayModel) (excludedModels : List JsString) :
    Nat → List ReasonSelection → Next
  | _, [] => .exhausted
  | index, candidate :: rest =>
    match routeKeyOf candidate.provider candidate.model with
    | .error e => .thrown e
    | .ok model =>
      if excludedModels.contains model then nextCandidate models excludedModels (index + 1) rest
      else
        let budget := checkContextBudget model c.estimatedInputTokens models c.outputTokens
        if hasSelectableReasoningEfforts budget.metadata &&
            !isReasoningEffortSupported budget.metadata candidate.reasoningEffort then
          if index = 0 then
            .refused (js "Model " ++ model ++ js " does not support reasoning effort \"" ++
              candidate.reasoningEffort.text ++ js "\"")
          else nextCandidate models excludedModels (index + 1) rest
        else
          match budget.reason with
          | some reason =>
            if index = 0 then .refused (js "context_overflow: " ++ reason)
            else nextCandidate models excludedModels (index + 1) rest
          | none => .found index ⟨candidate, model, budget⟩

/-- `callModelAttempt` of a main reasoning call. -/
def callModel (s : CallState) (r : Reasoning) (t : Try) : Move :=
  let sent := if hasSelectableReasoningEfforts t.budget.metadata then t.candidate.reasoningEffort
    else PROVIDER_DEFAULT_REASONING
  ({ s with phase := .calling r t false },
    [.complete ⟨t.model, sent, t.candidate.fast, t.budget.requestMaxOutputTokens <|> c.outputTokens, none⟩])

def proceed (s : CallState) (r : Reasoning) : Move :=
  match nextCandidate c s.models r.excludedModels r.index (r.candidates.drop r.index) with
  | .exhausted => caught c s (r.lastError.getD (.plain (js "Main reasoning: no candidate qualified")))
  | .thrown e => caught c s e
  | .refused message => fail c s false message ⟨false, none, none⟩
  | .found index t =>
    let sent := if hasSelectableReasoningEfforts t.budget.metadata then t.candidate.reasoningEffort
      else PROVIDER_DEFAULT_REASONING
    let s := { s with model := t.model, actualReasoningEffort := some sent }
    let r := { r with index := index }
    if r.started then callModel c s r t
    else
      ({ s with phase := .startingReasoning { r with started := true } t },
        [.append (startedDraft c ⟨none, t.model, some ⟨some t.candidate.reasoningEffort.text, some sent⟩,
          t.budget.estimatedInputTokens, c.layers, none⟩)])

def runReasoning (s : CallState) (first : ReasonSelection) : Move :=
  proceed c s
    { first := first
      candidates := [first]
      index := 0
      ladderLoaded := false
      started := false
      excludedModels := []
      consecutiveFailures := []
      retriesUsed := 0
      retriesEnabled := reasoningRetriesEnabled c first.automatic
      lastError := none }

def retry (s : CallState) (r : Reasoning) (t : Try) (capacity switchRoute : Bool) (clock : Clock) : Move :=
  let r := { r with retriesUsed := r.retriesUsed + 1 }
  if capacity then proceed c s { r with index := r.index + 1 }
  else
    let delayMs := reasoningRetryDelayMs r.retriesUsed clock.random
    Move.andThen (reportWait c s (some ⟨js "recovery", some (clock.after delayMs)⟩)) fun s =>
      if s.aborted then Move.andThen (reportWait c s none) fun s => caught c s abortError
      else ({ s with phase := .waiting r t switchRoute }, [.delay delayMs])

/-- The `catch` of a main reasoning attempt. -/
def attemptFailed (s : CallState) (r : Reasoning) (t : Try) (error : Thrown) (clock : Clock) : Move :=
  let s := { s with routeAttempts := s.routeAttempts ++ attemptsOf error.metrics }
  let automatic := r.first.automatic
  let capacity := capacityFailure error
  if !r.retriesEnabled || s.aborted || s.outputStarted || (error.modelError && error.outputStarted) ||
      decide (REASONING_MAX_RETRIES ≤ r.retriesUsed) ||
      (!isReasoningCallerRetryable error s.outputStarted && !(automatic && capacity)) then
    caught c s error
  else
    let failures := (r.consecutiveFailures.get t.model).getD 0 + 1
    let r := { r with lastError := some error, consecutiveFailures := r.consecutiveFailures.set t.model failures }
    if automatic && (capacity || decide (2 ≤ failures)) then
      let r := { r with excludedModels := OSet.add r.excludedModels t.model }
      if r.ladderLoaded || !c.selectAutomaticRoutes then retry c s r t capacity true clock
      else
        ({ s with phase := .loadingLadder { r with ladderLoaded := true } t capacity }, [.selectAutomaticRoutes])
    else retry c s r t capacity false clock

def addCandidates : List ReasonSelection → List ReasonSelection → Except Thrown (List ReasonSelection)
  | candidates, [] => .ok candidates
  | candidates, candidate :: ladder => do
    let key ← routeKeyOf candidate.provider candidate.model
    let known ← candidates.anyM fun known => return (← routeKeyOf known.provider known.model) == key
    if known then addCandidates candidates ladder else addCandidates (candidates ++ [candidate]) ladder

def ladderRead (s : CallState) (r : Reasoning) (t : Try) (capacity : Bool) (ladder : Option (List ReasonSelection))
    (clock : Clock) : Move :=
  match ladder with
  | none => if s.aborted then caught c s abortError else retry c s r t capacity true clock
  | some ladder =>
    match addCandidates r.candidates ladder with
    | .error e => caught c s e
    | .ok candidates => retry c s { r with candidates := candidates } t capacity true clock

def onEvent (s : CallState) : ModelEvent → Move
  | .text delta =>
    Move.andThen (reportWait c s none) fun s =>
      ({ s with outputStarted := s.outputStarted || !delta.isEmpty }, [.onText delta])
  | .reasoning delta =>
    Move.andThen (reportWait c s none) fun s =>
      ({ s with outputStarted := s.outputStarted || !delta.isEmpty }, [.onReasoning delta])
  | .toolCall call =>
    Move.andThen (reportWait c s none) fun s => ({ s with outputStarted := true }, [.onToolCall call])
  | .usage usage => Move.andThen (reportWait c s none) fun s => ({ s with partialUsage := some usage }, [])
  | .activity => reportWait c s none
  | .retry => reportWait c s none
  | .wait wait => reportWait c s (some wait)

def start (s : CallState) : Move :=
  match c.role with
  | .auxiliary role => ({ s with phase := .resolving }, [.resolveAuxiliaryModel role])
  | .reason =>
    match c.reason with
    | none => fail c s false (js "The reason role requires a model selection") ⟨false, none, none⟩
    | some first =>
      match routeKeyOf first.provider first.model with
      | .error e => caught c s e
      | .ok model =>
        let s := { s with model := model }
        if s.aborted then fail c s false (abortMessage true) ⟨true, none, none⟩ else runReasoning c s first

def CallState.abandon (s : CallState) (issued : Bool) : CallState :=
  { s with stale := s.stale || (s.aborted && issued) }

def callStep (s : CallState) (a : CallAction) : Option Move :=
  match a, s.phase with
  | .abort, _ => some ({ s with aborted := true }, [])
  | .listed models, .loadingModels => some (start c { s with models := models.getD [] })
  | .resolved (.error e), .resolving => some (caught c s e)
  | .resolved (.ok route), .resolving =>
    match c.role with
    | .reason => none
    | .auxiliary role =>
      if s.aborted then some (fail c s false (abortMessage true) ⟨true, none, none⟩)
      else some (runAuxiliary c s role route)
  | .appended none, .startingAuxiliary route budget =>
    if s.aborted then some (fail c s false (abortMessage true) ⟨true, none, none⟩)
    else some (callAuxiliary c s route budget)
  | .appended (some e), .startingAuxiliary _ _ => some (caught c s (.plain e))
  | .appended none, .startingReasoning r t => some (callModel c s r t)
  | .appended (some e), .startingReasoning _ _ => some (caught c s (.plain e))
  | .issued, .callingAuxiliary route false =>
    if s.aborted then none else some ({ s with phase := .callingAuxiliary route true }, [])
  | .issued, .calling r t false => if s.aborted then none else some ({ s with phase := .calling r t true }, [])
  | .event e, .callingAuxiliary _ true => some (onEvent c s e)
  | .event e, .calling _ _ true => some (onEvent c s e)
  | .event e, _ => if s.stale && e.fromAdapter then some (onEvent c s e) else none
  | .settled (.ok result) _, .callingAuxiliary _ true =>
    some (completed c { s with routeAttempts := s.routeAttempts ++ result.metrics.attempts } result)
  | .settled (.error e) _, .callingAuxiliary _ issued => some (auxiliaryFailed c (s.abandon issued) e)
  | .settled (.ok result) _, .calling _ _ true =>
    some (completed c { s with routeAttempts := s.routeAttempts ++ result.metrics.attempts } result)
  | .settled (.error e) clock, .calling r t issued => some (attemptFailed c (s.abandon issued) r t e clock)
  | .routes ladder clock, .loadingLadder r t capacity => some (ladderRead c s r t capacity ladder clock)
  | .elapsed, .waiting r t switchRoute =>
    some (Move.andThen (reportWait c s none) fun s =>
      if switchRoute then proceed c s { r with index := r.index + 1 } else callModel c s r t)
  | .waitAborted, .waiting _ _ _ =>
    if s.aborted then some (Move.andThen (reportWait c s none) fun s => caught c s abortError) else none
  | .appended none, .failing _ error => some (conclude c s (.error (.call error)))
  | .appended (some e), .failing inCatch _ =>
    if inCatch then some (conclude c s (.error (.thrown (.plain e)))) else some (caught c s (.plain e))
  | .appended none, .finishing output => some ({ s with phase := .done (.ok output) }, [])
  | .appended (some e), .finishing _ => some ({ s with phase := .done (.error (.thrown (.plain e))) }, [])
  | _, _ => none

abbrev CallStep : CallState → CallAction × List Effect → CallState → Prop := Transition.StepOf (callStep c)

end

end Wrenyard.Calls
