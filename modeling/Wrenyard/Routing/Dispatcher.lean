import Wrenyard.Routing.Catalog

/-!
# The constrained dispatcher

The candidates of a task pass the hard gates one by one; of those that pass, one client stands for each provider and
model, and the first in order wins.  The effort is applied to the winner alone, which may throw.
-/

namespace Wrenyard.Routing

open Js Session Gateway

abbrev MayThrow := Except Unit

/-- `a < b`. -/
def Number.lt (a b : Number) : Bool := a.le b && !b.le a

structure TaskDispatchRequirements where
  inputTokens : Option Number
  expectedTps : Option Number
  minimumTps : Option Number
  intelligenceMin : Option IntelligenceTier
  maxOutputUsdPerMillion : Option Number
  requiredCapabilities : List ModelCapability
  excludeModelIds : List JsString
  excludeProfileIds : List JsString
  excludeClientIds : List JsString
  excludeProviderIds : List JsString
  requiresWebSearch : Bool
  expectedReasoningEffort : Option ReasoningEffort
  fast : Option Bool

/-- `{}`. -/
def TaskDispatchRequirements.empty : TaskDispatchRequirements where
  inputTokens := none
  expectedTps := none
  minimumTps := none
  intelligenceMin := none
  maxOutputUsdPerMillion := none
  requiredCapabilities := []
  excludeModelIds := []
  excludeProfileIds := []
  excludeClientIds := []
  excludeProviderIds := []
  requiresWebSearch := false
  expectedReasoningEffort := none
  fast := none

section

variable (requirements : TaskDispatchRequirements) (modelDef : ModelDefinition)

def exceedsContext : Bool :=
  requirements.inputTokens.any fun inputTokens =>
    match modelDef.contextWindow.bind (·.finite?) with
    | none => true
    | some contextWindow =>
      (Number.finite contextWindow).lt (inputTokens.add (modelDef.maxOutputTokens.getD (.finite 0)))

def belowIntelligence : Bool :=
  requirements.intelligenceMin.any fun intelligenceMin =>
    modelDef.intelligence.all fun intelligence => intelligence.order < intelligenceMin.order

def abovePrice : Bool :=
  requirements.maxOutputUsdPerMillion.any fun maxOutputUsdPerMillion =>
    match routingReferencePriceOf modelDef with
    | none => true
    | some (.free price) => price.any fun price => maxOutputUsdPerMillion.lt price
    | some (.priced price) => maxOutputUsdPerMillion.lt price

def belowSpeed (speed : SpeedEvidence) : Bool := requirements.minimumTps.any fun minimumTps => speed.tps.lt minimumTps

end

def refuseIf {ε : Type} (refused : Bool) (gate : ε) : Except ε Unit := if refused then .error gate else .ok ()

def orRefuse {ε α : Type} (gate : ε) : Option α → Except ε α
  | none => .error gate
  | some a => .ok a

/-- The gates of the dispatcher. -/
inductive Gate where
  | modelExcluded
  | profileExcluded
  | clientExcluded
  | providerExcluded
  | planUnresolved
  | providerUnresolved
  | modelUnresolved
  | fastUnsupported
  | webSearchUnsupported
  | aliasExcluded
  | notMainstream
  | freeIneligible
  | contextWindow
  | capabilityMissing
  | intelligence
  | price
  | speed

structure DispatchResolution where
  plan : DispatchPlan
  model : ModelDefinition
  speed : SpeedEvidence

section

variable (catalog : Catalog) (env : DispatchEnv) (requirements : TaskDispatchRequirements)
  (localSpeed : List LocalSpeedSample)

/-- The body of the loop of `resolve`: the first gate that refuses the candidate, or its entry. -/
def ConstrainedDispatcher.candidateEntry (candidate : DispatchCandidate) : Except Gate DispatchResolution := do
  let excludedForProvider := excludedModelIdsFor (catalog.provider candidate.provider) requirements.excludeModelIds
  refuseIf (excludedForProvider.contains candidate.model) .modelExcluded
  refuseIf (requirements.excludeProfileIds.contains candidate.profileId) .profileExcluded
  refuseIf (requirements.excludeClientIds.contains candidate.client) .clientExcluded
  refuseIf (requirements.excludeProviderIds.contains candidate.provider) .providerExcluded
  let plan ← orRefuse .planUnresolved
    (catalog.resolveRun candidate.client candidate.provider candidate.model none requirements.fast)
  let provider ← orRefuse .providerUnresolved (catalog.provider plan.provider)
  let modelDef ← orRefuse .modelUnresolved (provider.models.find? (·.id = plan.model))
  refuseIf (requirements.fast == some true && !modelDef.supportsFast) .fastUnsupported
  refuseIf (requirements.requiresWebSearch && !plan.supportsWebSearch) .webSearchUnsupported
  refuseIf (excludedForProvider.contains plan.model) .aliasExcluded
  refuseIf (!isMainstreamModelId modelDef.id) .notMainstream
  refuseIf (!explicitFreeAutoEligibility env provider modelDef (catalog.confirmedFreeSupply provider.id modelDef.id))
    .freeIneligible
  refuseIf (exceedsContext requirements modelDef) .contextWindow
  refuseIf (!requirements.requiredCapabilities.all (modelDef.capabilities.getD []).contains) .capabilityMissing
  refuseIf (belowIntelligence requirements modelDef) .intelligence
  refuseIf (abovePrice requirements modelDef) .price
  let speed := resolveModelSpeed env provider modelDef localSpeed
  refuseIf (belowSpeed requirements speed) .speed
  return ⟨plan, modelDef, speed⟩

def DispatchPlan.providerModel (plan : DispatchPlan) : JsString := plan.provider ++ js "/" ++ plan.model

def byProviderModel (entries : List DispatchResolution) : OMap JsString (List DispatchResolution) :=
  entries.foldl (fun groups entry =>
    groups.set entry.plan.providerModel ((groups.get entry.plan.providerModel).getD [] ++ [entry])) []

/-- The client that stands for a provider and model: a native one, else `grok`, else by name. -/
def representative (group : List DispatchResolution) : Option DispatchResolution :=
  let native := group.filter (·.plan.native)
  let usable := if native = [] then group else native
  let grok (entry : DispatchResolution) : ℚ := if entry.plan.client = js "grok" then 0 else 1
  (Comparator.sort (fun a b =>
    if native = [] ∧ grok a ≠ grok b then grok a - grok b
      else env.localeCompare a.plan.client b.plan.client) usable).head?

def compareEntries (a b : DispatchResolution) : ℚ :=
  let meets (entry : DispatchResolution) : Bool := requirements.expectedTps.any fun expected =>
    (Number.finite 0).lt expected && expected.le entry.speed.tps
  let price (entry : DispatchResolution) : Option Number :=
    (routingReferencePriceOf entry.model).bind (·.outputUsdPerMillion)
  if meets a ≠ meets b then if meets a then -1 else 1
  else if price a = price b then env.localeCompare a.plan.providerModel b.plan.providerModel
  else
    match price a, price b with
    | none, _ => 1
    | _, none => -1
    | some pa, some pb => if pa.lt pb then -1 else if pb.lt pa then 1 else 0

def ConstrainedDispatcher.applyEffort (winner : DispatchResolution) : MayThrow DispatchResolution :=
  if requirements.expectedReasoningEffort.isNone && requirements.fast.isNone then .ok winner
  else
    match catalog.resolveRun winner.plan.client winner.plan.provider winner.plan.model
        requirements.expectedReasoningEffort requirements.fast with
    | none => .error ()
    | some plan => .ok { winner with plan := plan }

def ConstrainedDispatcher.resolve (candidates : List DispatchCandidate) : MayThrow (Option DispatchResolution) :=
  let eligible := candidates.filterMap fun candidate =>
    (ConstrainedDispatcher.candidateEntry catalog env requirements localSpeed candidate).toOption
  let collapsed := (byProviderModel eligible).filterMap fun group => representative env group.2
  match (Comparator.sort (compareEntries env requirements) collapsed).head? with
  | none => .ok none
  | some winner => (ConstrainedDispatcher.applyEffort catalog requirements winner).map some

end

end Wrenyard.Routing
