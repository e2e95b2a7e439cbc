import Wrenyard.Routing.Dispatcher

/-!
# The task dispatch resolver

`resolve` evaluates the candidates of a task together, `eligible` and `diagnose` evaluate each of them alone.  What
the dispatcher selects has to pass further checks; what it rejects is explained by a mirror of its gates.
-/

namespace Wrenyard.Routing

open Js Session Gateway

inductive TaskResolutionFailureCode where
  | noAvailableProvider
  | contextWindow
  | priceLimit
  | intelligenceRequirement
  | speedRequirement
  | quotaUnavailable
  | quotaInsufficient
deriving DecidableEq

/-- The position of a code in `TASK_RESOLUTION_FAILURE_CODE_ORDER`. -/
def TaskResolutionFailureCode.priority : TaskResolutionFailureCode → Nat
  | noAvailableProvider => 0
  | contextWindow => 1
  | priceLimit => 2
  | intelligenceRequirement => 3
  | speedRequirement => 4
  | quotaUnavailable => 5
  | quotaInsufficient => 6

inductive TaskResolutionFailureDetail where
  | modelExcluded
  | providerExcluded
  | profileExcluded
  | clientExcluded
  | runtimeUnresolved
  | webSearchUnsupported
  | imageInputUnsupported
  | textInputUnsupported

structure TaskResolutionElimination where
  code : TaskResolutionFailureCode
  priceUsdPerMillion : Option Number
  detail : Option TaskResolutionFailureDetail

def selectTaskResolutionFailure : List TaskResolutionElimination → Option TaskResolutionFailureCode
  | [] => none
  | first :: eliminations =>
    let price (e : TaskResolutionElimination) : Number := e.priceUsdPerMillion.getD (.infinite false)
    some (eliminations.foldl (fun best candidate =>
      if (price candidate).lt (price best) ||
          (price candidate == price best && candidate.code.priority < best.code.priority : Bool) then candidate
      else best) first).code

structure NoEligiblePlanError where
  resolutionFailureCode : TaskResolutionFailureCode

structure ResolvedSpeed where
  effectiveTps : Number
  source : SpeedSource
  sampleCount : Number
  expectedTpsMet : Bool
  checkedAt : Option JsString

structure TaskResolvedDispatch where
  requestedAgentRuntime : JsString
  profile : JsString
  client : JsString
  provider : JsString
  model : JsString
  modelId : JsString
  native : Bool
  speed : ResolvedSpeed
  intelligence : Option IntelligenceTier
  referencePricing : Option ModelPricing
  protocol : Option GatewayProtocol
  reasoningEffort : Option ReasoningEffort
  fast : Option Bool
  clientReasoningEffort : Option JsString

def toReferencePricing (model : ModelDefinition) : Option ModelPricing :=
  match routingReferencePriceOf model with
  | none => none
  | some _ => model.pricing

def toResolvedDispatch (requestedAgentRuntime profileId : JsString) (plan : DispatchPlan) (model : ModelDefinition)
    (speed : SpeedEvidence) (requirements : TaskDispatchRequirements) : TaskResolvedDispatch where
  requestedAgentRuntime := requestedAgentRuntime
  profile := profileId
  client := plan.client
  provider := plan.provider
  model := plan.model
  modelId := plan.provider ++ js "/" ++ model.id
  native := plan.native
  speed :=
    { effectiveTps := speed.tps
      source := speed.source
      sampleCount := speed.sampleCount.getD (.finite 0)
      expectedTpsMet := requirements.expectedTps.all fun expected =>
        !(Number.finite 0).lt expected || expected.le speed.tps
      checkedAt := speed.checkedAt }
  intelligence := model.intelligence
  referencePricing := toReferencePricing model
  protocol := plan.protocol
  reasoningEffort := plan.reasoningEffort
  fast := plan.fast
  clientReasoningEffort := plan.clientReasoningEffort

structure TaskDispatchChoice where
  exactAgentRuntime : JsString
  resolved : TaskResolvedDispatch

structure ResolveTaskDispatchInput where
  requirements : TaskDispatchRequirements
  target : Option JsString

structure TaskDispatchDiagnosticChoice where
  exactAgentRuntime : JsString
  available : Bool
  baseline : Option TaskResolvedDispatch
  admitted : Option TaskResolvedDispatch
  rejectionCode : Option TaskResolutionFailureCode
  rejectionDetail : Option TaskResolutionFailureDetail

section

variable (catalog : Catalog) (env : DispatchEnv) (localSpeed : List LocalSpeedSample)

def TaskResolutionElimination.early (detail : Option TaskResolutionFailureDetail) : TaskResolutionElimination :=
  ⟨.noAvailableProvider, none, detail⟩

def TaskResolutionElimination.atGate (modelDef : ModelDefinition) (code : TaskResolutionFailureCode)
    (detail : Option TaskResolutionFailureDetail) : TaskResolutionElimination :=
  ⟨code, (routingReferencePriceOf modelDef).bind (·.outputUsdPerMillion), detail⟩

def missingDetail (missing : List ModelCapability) : Option TaskResolutionFailureDetail :=
  if missing.contains .image then some .imageInputUnsupported
  else if missing.contains .text then some .textInputUnsupported
  else none

def replayGates (candidate : DispatchCandidate) (requirements : TaskDispatchRequirements) :
    Except TaskResolutionElimination Unit := do
  let excludedForProvider := excludedModelIdsFor (catalog.provider candidate.provider) requirements.excludeModelIds
  refuseIf (excludedForProvider.contains candidate.model) (.early (some .modelExcluded))
  refuseIf (requirements.excludeProfileIds.contains candidate.profileId) (.early (some .profileExcluded))
  refuseIf (requirements.excludeClientIds.contains candidate.client) (.early (some .clientExcluded))
  refuseIf (requirements.excludeProviderIds.contains candidate.provider) (.early (some .providerExcluded))
  refuseIf (!isMainstreamModelId candidate.model) (.early none)
  let plan ← orRefuse (.early (some .runtimeUnresolved)) (catalog.resolveRun candidate.client candidate.provider
    candidate.model requirements.expectedReasoningEffort requirements.fast)
  refuseIf (requirements.requiresWebSearch && !plan.supportsWebSearch) (.early (some .webSearchUnsupported))
  let provider ← orRefuse (.early (some .runtimeUnresolved)) (catalog.provider plan.provider)
  let modelDef ← orRefuse (.early (some .runtimeUnresolved)) (provider.models.find? (·.id = plan.model))
  refuseIf (excludedForProvider.contains plan.model) (.atGate modelDef .noAvailableProvider (some .modelExcluded))
  refuseIf (!explicitFreeAutoEligibility env provider modelDef (catalog.confirmedFreeSupply provider.id modelDef.id))
    (.atGate modelDef .noAvailableProvider none)
  refuseIf (exceedsContext requirements modelDef) (.atGate modelDef .contextWindow none)
  let missing := requirements.requiredCapabilities.filter fun capability =>
    !(modelDef.capabilities.getD []).contains capability
  refuseIf (missing ≠ []) (.atGate modelDef .noAvailableProvider (missingDetail missing))
  refuseIf (belowIntelligence requirements modelDef) (.atGate modelDef .intelligenceRequirement none)
  refuseIf (abovePrice requirements modelDef) (.atGate modelDef .priceLimit none)
  refuseIf (belowSpeed requirements (resolveModelSpeed env provider modelDef localSpeed))
    (.atGate modelDef .speedRequirement none)

def eliminationForCandidate (candidate : DispatchCandidate) (requirements : TaskDispatchRequirements) :
    Option TaskResolutionElimination :=
  match replayGates catalog env localSpeed candidate requirements with
  | .error elimination => some elimination
  | .ok () => none

def referenceOutputPriceOf (candidate : DispatchCandidate) : Option Number := do
  let provider ← catalog.provider candidate.provider
  let modelDef ← provider.models.find? (·.id = candidate.model)
  let reference ← routingReferencePriceOf modelDef
  reference.outputUsdPerMillion

def laterFailure (runtimePlans : OMap JsString DispatchPlan) (canonicalTarget : JsString)
    (selected : DispatchResolution) : Option TaskResolutionFailureCode :=
  if !runtimePlans.has canonicalTarget then some .noAvailableProvider
  else if !selected.speed.tps.finite?.any (0 < ·) then some .speedRequirement
  else if selected.model.intelligence = none then some .intelligenceRequirement
  else if routingReferencePriceOf selected.model = none then some .priceLimit
  else if (catalog.provider selected.plan.provider).any fun selectedProvider =>
      !explicitFreeAutoEligibility env selectedProvider selected.model
        (catalog.confirmedFreeSupply selectedProvider.id selected.model.id) then some .noAvailableProvider
  else none

def evaluate (runtimePlans : OMap JsString DispatchPlan) (requirements : TaskDispatchRequirements)
    (target : Option JsString) (candidatePool : List DispatchCandidate) :
    MayThrow (Except NoEligiblePlanError TaskDispatchChoice) := do
  match ← ConstrainedDispatcher.resolve catalog env requirements localSpeed candidatePool with
  | none =>
    let eliminations := candidatePool.filterMap fun candidate =>
      eliminationForCandidate catalog env localSpeed candidate requirements
    return .error ⟨(selectTaskResolutionFailure eliminations).getD .noAvailableProvider⟩
  | some selected =>
    let chosen := candidatePool.find? fun candidate => candidate.client = selected.plan.client ∧
      candidate.provider = selected.plan.provider ∧ candidate.model = selected.plan.model
    let canonicalTarget ← match chosen with
      | some chosen => pure chosen.profileId
      | none => match formatRunSyntax selected.plan.run with
        | some canonicalTarget => pure canonicalTarget
        | none => throw ()
    match laterFailure catalog env runtimePlans canonicalTarget selected with
    | some code => return .error ⟨code⟩
    | none =>
      return .ok ⟨canonicalTarget, toResolvedDispatch (target.getD []) canonicalTarget selected.plan selected.model
        selected.speed requirements⟩

def selectCandidatePool (target : Option JsString) (candidates : List DispatchCandidate) :
    Except NoEligiblePlanError (List DispatchCandidate) :=
  match target with
  | none => .ok candidates
  | some target =>
    if target = [] then .ok candidates
    else
      let named : Option JsString := do
        let parsed ← parseRunSyntax target
        let provider ← catalog.provider parsed.provider
        let registeredModel ← resolveHistoricalOfferedModelId provider parsed.model
        formatRunSyntax { parsed with model := registeredModel }
      match named with
      | none => .error ⟨.noAvailableProvider⟩
      | some target => .ok (candidates.filter (·.profileId = target))

end

structure DispatchSnapshot where
  catalog : Catalog
  env : DispatchEnv
  runtimePlans : OMap JsString DispatchPlan
  localSpeed : List LocalSpeedSample

namespace DispatchSnapshot

variable (snapshot : DispatchSnapshot) (input : ResolveTaskDispatchInput)

def pool : Except NoEligiblePlanError (List DispatchCandidate) :=
  selectCandidatePool snapshot.catalog input.target (snapshot.catalog.enumerateTaskCandidates snapshot.env)

def evaluated (requirements : TaskDispatchRequirements) (candidatePool : List DispatchCandidate) :
    MayThrow (Except NoEligiblePlanError TaskDispatchChoice) :=
  evaluate snapshot.catalog snapshot.env snapshot.localSpeed snapshot.runtimePlans requirements input.target
    candidatePool

def resolve : MayThrow (Except NoEligiblePlanError TaskDispatchChoice) :=
  match snapshot.pool input with
  | .error e => .ok (.error e)
  | .ok candidatePool => snapshot.evaluated input input.requirements candidatePool

def eliminationOf (candidate : DispatchCandidate) (e : NoEligiblePlanError) : TaskResolutionElimination where
  code := e.resolutionFailureCode
  priceUsdPerMillion :=
    if e.resolutionFailureCode = .noAvailableProvider then none
    else referenceOutputPriceOf snapshot.catalog candidate
  detail := none

def eligible : MayThrow (Except NoEligiblePlanError (List TaskDispatchChoice)) :=
  match snapshot.pool input with
  | .error e => .ok (.error e)
  | .ok candidatePool => do
    let outcomes ← candidatePool.mapM fun candidate => do
      return (candidate, ← snapshot.evaluated input input.requirements [candidate])
    let choices := outcomes.filterMap fun outcome => outcome.2.toOption
    if choices ≠ [] then return .ok choices
    else
      let eliminations := outcomes.filterMap fun outcome =>
        match outcome.2 with
        | .ok _ => none
        | .error e => some (snapshot.eliminationOf outcome.1 e)
      return .error ⟨(selectTaskResolutionFailure eliminations).getD .noAvailableProvider⟩

def diagnosisOf (candidate : DispatchCandidate) : MayThrow TaskDispatchDiagnosticChoice := do
  let baseline ← snapshot.evaluated input .empty [candidate]
  let admitted ← snapshot.evaluated input input.requirements [candidate]
  let rejection := match admitted with
    | .ok _ => none
    | .error _ =>
      eliminationForCandidate snapshot.catalog snapshot.env snapshot.localSpeed candidate input.requirements
  return {
    exactAgentRuntime := candidate.profileId
    available := baseline.toOption.isSome
    baseline := baseline.toOption.map (·.resolved)
    admitted := admitted.toOption.map (·.resolved)
    rejectionCode := rejection.map (·.code)
    rejectionDetail := rejection.bind (·.detail) }

def diagnose : MayThrow (Except NoEligiblePlanError (List TaskDispatchDiagnosticChoice)) :=
  match snapshot.pool input with
  | .error e => .ok (.error e)
  | .ok candidatePool => do return .ok (← candidatePool.mapM (snapshot.diagnosisOf input))

end DispatchSnapshot

end Wrenyard.Routing
