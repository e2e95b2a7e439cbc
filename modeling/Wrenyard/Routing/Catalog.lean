import Wrenyard.Gateway.Protocols
import Wrenyard.Js.OrderedSet
import Wrenyard.Routing.Ranking
import Wrenyard.Session.EventJson

/-!
# The catalog

The registered providers and clients, and what they say of one route: which clients can run it, at which effort, at
which reference price and at which speed.  `resolveRun` yields the plan of a route or throws; the task candidates are
the routes it yields a plan for.
-/

namespace Wrenyard.Routing

open Js Session Gateway

/-- `REASONING_EFFORT_ORDER`. -/
def effortOrder : ReasoningEffort → ℤ
  | .none => 0
  | .low => 1
  | .medium => 2
  | .high => 3
  | .xhigh => 4
  | .max => 5
  | .default => -1

/-- The nearest supported level at or above the request, else the highest one; none is a throw. -/
def resolveReasoningEffort (expected : ReasoningEffort) (supported : List ReasoningEffort) : Option ReasoningEffort :=
  if supported = [] then none
  else if supported = [.default] then some .default
  else if expected = .default then if supported.contains .default then some .default else none
  else
    let ordered := (supported.filter (· ≠ .default)).insertionSort fun a b => effortOrder a ≤ effortOrder b
    ordered.find? (effortOrder expected ≤ effortOrder ·) <|> ordered.getLast?

inductive ModelCapability where
  | text
  | image
deriving DecidableEq

/-- USD per million tokens. -/
structure ModelPricing where
  cached : Number
  input : Number
  output : Number

structure ModelDefinition where
  id : JsString
  upstreamId : Option JsString
  contextWindow : Option Number
  supportsFast : Bool
  intelligence : Option IntelligenceTier
  reasoningEfforts : List ReasoningEffort
  maxOutputTokens : Option Number
  capabilities : Option (List ModelCapability)
  /-- The clients the model is restricted to; none of them when the list is empty. -/
  supportedClients : Option (List JsString)
  speed : Number
  pricing : Option ModelPricing
  free : Bool
  protocols : List GatewayProtocol

/-- How a runtime materializes one effort. -/
structure ReasoningEffortMapping where
  environment : Option (OMap JsString JsString)
  model : Option JsString
  effort : Option JsString

structure SpeedMeasurement where
  initialTps : Number
  measuredAt : JsString
  method : JsString

/-- How a provider materializes Fast: whether it maps the model of a native run, and the names of the request
fields. -/
structure ProviderFastMapping where
  model : Bool
  request : Option (JsString → Bool → GatewayProtocol → List JsString)

structure ProviderDefinition where
  id : JsString
  models : List ModelDefinition
  nativeClients : List JsString
  modelAliases : OMap JsString JsString
  modelSpeedOverrides : OMap JsString Number
  modelSpeedMeasurements : OMap JsString SpeedMeasurement
  /-- By model, client and level. -/
  reasoningEffortMappings : OMap JsString (OMap JsString (OMap ReasoningEffort ReasoningEffortMapping))
  fastMapping : Option ProviderFastMapping

structure ClientDefinition where
  id : JsString
  nativeProvider : Option JsString
  gatewayProtocols : List GatewayProtocol
  forwardsGatewayReasoningEffort : Bool
  unsupportedGatewayProviders : List JsString
  taskCapable : Bool
  supportsNativeWebSearch : Bool
  supportsNativeFast : Bool

structure Catalog where
  providersByID : List ProviderDefinition
  clientsByID : List ClientDefinition
  aliases : ∀ provider ∈ providersByID, ∀ model ∈ provider.models, provider.modelAliases.get model.id = none

structure DispatchPlan where
  client : JsString
  provider : JsString
  model : JsString
  native : Bool
  protocol : Option GatewayProtocol
  supportsWebSearch : Bool
  reasoningEffort : Option ReasoningEffort
  clientReasoningEffort : Option JsString
  fast : Option Bool

structure DispatchCandidate where
  profileId : JsString
  client : JsString
  provider : JsString
  model : JsString

/-- What the language leaves to its environment: the order of texts, the value of a date text, and the clock. -/
structure DispatchEnv where
  localeCompare : JsString → JsString → ℚ
  dateValue : JsString → Number
  now : ℚ

namespace Catalog

variable (catalog : Catalog)

def provider (id : JsString) : Option ProviderDefinition := catalog.providersByID.find? (·.id = id)

def client (id : JsString) : Option ClientDefinition := catalog.clientsByID.find? (·.id = id)

def reasoningEfforts (clientID providerID modelID : JsString) : Option (List ReasoningEffort) := do
  let client ← catalog.client clientID
  let provider ← catalog.provider providerID
  let resolvedModelID := (provider.modelAliases.get modelID).getD modelID
  let modelDef ← provider.models.find? (·.id = resolvedModelID)
  let byLevel := (provider.reasoningEffortMappings.get modelDef.id).bind fun byClient => byClient.get clientID
  let forwardsGatewayEffort := client.forwardsGatewayReasoningEffort && !provider.nativeClients.contains clientID &&
    client.gatewayProtocols.any modelDef.protocols.contains &&
      !client.unsupportedGatewayProviders.contains providerID &&
    modelDef.supportedClients.all fun clients => clients.isEmpty || clients.contains clientID
  match byLevel with
  | none => if forwardsGatewayEffort then some modelDef.reasoningEfforts else none
  | some levels =>
    let subset := modelDef.reasoningEfforts.filter levels.has
    if subset = [] then none else some subset

def supportsFast (clientID providerID modelID : JsString) : Bool :=
  match catalog.client clientID, catalog.provider providerID with
  | some client, some provider =>
    let resolvedModelID := (provider.modelAliases.get modelID).getD modelID
    match provider.models.find? (·.id = resolvedModelID) with
    | none => false
    | some modelDef =>
      if !modelDef.supportsFast then false
      else if client.supportsNativeFast && client.nativeProvider == some providerID then true
      else if provider.nativeClients.contains clientID then provider.fastMapping.any (·.model)
      else
        match provider.fastMapping.bind (·.request) with
        | none => false
        | some requestMapping =>
          match client.gatewayProtocols.find? modelDef.protocols.contains with
          | none => false
          | some protocol => !(requestMapping modelDef.id true protocol).isEmpty
  | _, _ => false

/-- The effort of a run and its name on the wire; enumeration resolves compatibility only. -/
def resolveReasoning (provider : ProviderDefinition) (modelDef : ModelDefinition) (clientID : JsString) :
    Option ReasoningEffort → Option (Option ReasoningEffort × Option JsString)
  | none => do
    let _ ← catalog.reasoningEfforts clientID provider.id modelDef.id
    return (none, none)
  | some expected => do
    let supported ← catalog.reasoningEfforts clientID provider.id modelDef.id
    let selected ← resolveReasoningEffort expected supported
    let byLevel := (provider.reasoningEffortMappings.get modelDef.id).bind fun byClient => byClient.get clientID
    match byLevel.bind fun levels => levels.get selected with
    | none => return (some selected, some selected.text)
    | some mapping =>
      guard (mapping.effort.isSome ∨ mapping.model.isSome ∨ mapping.environment.isSome)
      return (some selected, mapping.effort)

def resolveRun (clientID providerID modelID : JsString) (expected : Option ReasoningEffort) (fast : Option Bool) :
    Option DispatchPlan := do
  let client ← catalog.client clientID
  let provider ← catalog.provider providerID
  let modelID := (provider.modelAliases.get modelID).getD modelID
  let modelDef ← provider.models.find? (·.id = modelID)
  guard (modelDef.supportedClients.all fun clients => clients.isEmpty || clients.contains clientID)
  guard (modelDef.supportedClients ≠ some [])
  if provider.nativeClients.contains clientID then
    guard (fast = none ∨ catalog.supportsFast clientID providerID modelID)
    let effort ← catalog.resolveReasoning provider modelDef clientID expected
    return ⟨clientID, providerID, modelID, true, none,
      client.supportsNativeWebSearch && client.nativeProvider == some providerID, effort.1, effort.2, fast⟩
  else
    guard (!client.unsupportedGatewayProviders.contains providerID)
    let protocol ← client.gatewayProtocols.find? modelDef.protocols.contains
    guard (fast = none ∨ catalog.supportsFast clientID providerID modelID)
    let effort ← catalog.resolveReasoning provider modelDef clientID expected
    return ⟨clientID, providerID, modelID, false, some protocol, false, effort.1, effort.2, fast⟩

def confirmedFreeSupply (providerId modelId : JsString) : Bool :=
  match catalog.provider providerId with
  | none => false
  | some provider => (provider.models.find? (·.id = modelId)).any (·.free)

end Catalog

inductive RoutingReferencePrice where
  | free (outputUsdPerMillion : Option Number)
  | priced (outputUsdPerMillion : Number)

def routingReferencePriceOf (model : ModelDefinition) : Option RoutingReferencePrice :=
  if model.free then some (.free (model.pricing.map (·.output)))
  else model.pricing.map fun pricing => .priced pricing.output

def RoutingReferencePrice.outputUsdPerMillion : RoutingReferencePrice → Option Number
  | free price => price
  | priced price => some price

def hasMeasuredSpeedProvenance (env : DispatchEnv) (provider : ProviderDefinition) (modelID : JsString) : Bool :=
  (provider.modelSpeedMeasurements.get modelID).any fun measurement =>
    provider.modelSpeedOverrides.has modelID && measurement.initialTps.finite?.any (0 < ·) &&
      (env.dateValue measurement.measuredAt).finite?.isSome && trim measurement.method != []

def MAINSTREAM_MODEL_IDS : List JsString :=
  [js "deepseek-v4.1-flash", js "deepseek-v4.1-flash-free", js "deepseek-v4-pro", js "hunyuan-hy3", js "hunyuan-hy4",
    js "kimi-k3.1-pro", js "kimi-k3", js "kimi-k2.8", js "gpt-6-astra", js "gpt-6.1-sol", js "gpt-6.1-terra",
      js "gpt-6-sol",
    js "gpt-6-luna", js "glm-5.3", js "glm-5.3-flash", js "minimax-m3.1-flash", js "claude-fable-5-1",
      js "claude-opus-5",
    js "claude-opus-5-5", js "claude-sonnet-5-5", js "claude-haiku-5-5", js "grok-4.7", js "muse-spark-1.3",
    js "gemini-3.8-flash", js "gemini-4-argon", js "doubao-seed-2-0-lite", js "qwen3.8-max", js "mimo-v2.6-pro",
    js "mimo-v2.6-flash", js "mimo-v2.6-pro-ultraspeed", js "nemotron-3-ultra", js "nemotron-3.5-lightning",
    js "nemotron-3-super-120b-a12b", js "swe-2"]

def isMainstreamModelId (id : JsString) : Bool := MAINSTREAM_MODEL_IDS.contains id

def explicitFreeAutoEligibility (env : DispatchEnv) (provider : ProviderDefinition) (model : ModelDefinition)
    (liveConfirmedFree : Bool) : Bool :=
  !model.free || liveConfirmedFree || (isMainstreamModelId model.id &&
    hasMeasuredSpeedProvenance env provider model.id)

structure LocalSpeedSample where
  provider : JsString
  model : JsString
  tps : Number
  sampleCount : Number
  checkedAt : JsString

inductive SpeedSource where
  | local31d
  | providerOverride
  | catalogDefault

structure SpeedEvidence where
  source : SpeedSource
  tps : Number
  checkedAt : Option JsString
  sampleCount : Option Number

def LOCAL_SPEED_FRESH_MS : ℚ := 31 * 24 * 60 * 60 * 1000

def isFreshLocalSample (env : DispatchEnv) (sample : LocalSpeedSample) : Bool :=
  sample.tps.finite?.any (0 < ·) && sample.sampleCount.integer?.any (0 < ·) && trim sample.checkedAt != [] &&
    (env.dateValue sample.checkedAt).finite?.any fun checked =>
      checked ≤ env.now ∧ env.now - LOCAL_SPEED_FRESH_MS ≤ checked

def resolveModelSpeed (env : DispatchEnv) (provider : ProviderDefinition) (modelDef : ModelDefinition)
    (localSpeed : List LocalSpeedSample) : SpeedEvidence :=
  match localSpeed.find? fun sample =>
      sample.provider = provider.id ∧ sample.model = modelDef.id ∧ isFreshLocalSample env sample with
  | some sample => ⟨.local31d, sample.tps, some sample.checkedAt, some sample.sampleCount⟩
  | none =>
    match provider.modelSpeedOverrides.get modelDef.id with
    | some override => ⟨.providerOverride, override, none, none⟩
    | none => ⟨.catalogDefault, modelDef.speed, none, none⟩

def CLIENT_BY_KEY : OMap JsString JsString :=
  [(js "cc", js "claude"), (js "cb", js "codebuddy"), (js "codex", js "codex"), (js "cur", js "cursor"),
    (js "gk", js "grok"), (js "dsh", js "dsh"), (js "oc", js "opencode"), (js "pi", js "pi"), (js "kc", js "kimi")]

def CLIENT_KEY_BY_ID : OMap JsString JsString := CLIENT_BY_KEY.map Prod.swap

structure RunSyntaxRef where
  client : JsString
  provider : JsString
  model : JsString

/-- `/^[^:]+:free$/`, of a text that contains a colon. -/
def isFreeVariant (model : JsString) : Bool :=
  let stem := model.takeWhile (· ≠ 58)
  stem != [] && model.drop stem.length == js ":free"

/-- `provider/model:client`; none is a throw. -/
def parseRunSyntax (input : JsString) : Option RunSyntaxRef := do
  guard (input ≠ [])
  guard (!input.any isSpace)
  let slash ← indexOf input 47
  let colon ← lastIndexOf input 58
  guard (slash ≤ colon)
  let provider := input.take slash
  guard (!provider.contains 58)
  let model := (input.take colon).drop (slash + 1)
  guard (provider = js "wrenyard" ∨ !model.contains 58 ∨ isFreeVariant model)
  guard (provider ≠ [])
  guard (model ≠ [])
  let client ← CLIENT_BY_KEY.get (input.drop (colon + 1))
  return ⟨client, provider, model⟩

def formatRunSyntax (target : RunSyntaxRef) : Option JsString := do
  let publicKey ← CLIENT_KEY_BY_ID.get target.client
  guard (!target.provider.any isSpace ∧ !target.model.any isSpace)
  guard (target.provider ≠ [] ∧ target.model ≠ [])
  guard (!target.provider.contains 47)
  guard (!(target.provider.contains 58 || (target.model.contains 58 && !isFreeVariant target.model)))
  return target.provider ++ js "/" ++ target.model ++ js ":" ++ publicKey

def DispatchPlan.run (plan : DispatchPlan) : RunSyntaxRef := ⟨plan.client, plan.provider, plan.model⟩

def Catalog.enumerateTaskCandidates (catalog : Catalog) (env : DispatchEnv) : List DispatchCandidate :=
  let byId {α : Type} (id : α → JsString) := Comparator.sort fun a b => env.localeCompare (id a) (id b)
  let taskClients := (byId (·.id) catalog.clientsByID).filter (·.taskCapable)
  byId (·.profileId) ((byId (·.id) catalog.providersByID).flatMap fun provider =>
    provider.models.flatMap fun model =>
      taskClients.filterMap fun client => do
        let plan ← catalog.resolveRun client.id provider.id model.id none none
        let profileId ← formatRunSyntax plan.run
        return ⟨profileId, plan.client, plan.provider, plan.model⟩)

def resolveHistoricalOfferedModelId (definition : ProviderDefinition) (spelling : JsString) : Option JsString :=
  let requested := trim spelling
  let providerPrefix := definition.id ++ js "/"
  let model := if startsWith requested providerPrefix then requested.drop providerPrefix.length else requested
  let offered := definition.models.map (·.id)
  if model = [] then none
  else if offered.contains model then some model
  else
    let byAlias := (definition.modelAliases.get model).toList
    let byUpstream := (definition.models.filter (·.upstreamId = some model)).map (·.id)
    let byMapping := definition.reasoningEffortMappings.flatMap fun entry =>
      entry.2.flatMap fun client => (client.2.filter (·.2.model = some model)).map fun _ => entry.1
    match OSet.ofList ((byAlias ++ byUpstream ++ byMapping).filter offered.contains) with
    | [only] => some only
    | _ => none

def excludedModelIdsFor (provider : Option ProviderDefinition) (excludedModels : List JsString) : List JsString :=
  match provider with
  | none => excludedModels
  | some provider => excludedModels ++ excludedModels.filterMap (resolveHistoricalOfferedModelId provider)

end Wrenyard.Routing
