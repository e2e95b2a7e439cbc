import Wrenyard.Js.KeyedFold
import Wrenyard.Stats.Samples

/-!
# Reading the speed samples of executions

`readExecutionTpsSamples` selects done executions by any of their id, task, tasks and end, collects the tokenizer
samples their clients recorded and those the gateway recorded for them, and makes at most one sample of each
execution.  A time stamp is its number of milliseconds; the data of an event is the value its text parses to.
-/

namespace Wrenyard.Stats

open Js

structure Dispatch where
  provider : Option JsString
  model : Option JsString
  modelId : Option JsString

structure Execution where
  id : JsString
  taskId : Option JsString
  done : Bool
  createdAt : Int
  endedAt : Option Int
  dispatch : Option Dispatch

structure EventRow where
  executionId : Option JsString
  type : JsString
  createdAt : Int
  data : Option Json

/-- The tables the samples are read from; the id is the primary key of the executions. -/
structure Database where
  executions : List Execution
  events : List EventRow
  distinct : (executions.map Execution.id).Nodup

structure ReadExecutionTpsOptions where
  executionId : Option JsString := none
  startAt : Option Int := none
  endAt : Option Int := none
  taskId : Option JsString := none
  taskIds : Option (List JsString) := none

structure ExecutionTpsSample where
  executionId : JsString
  taskId : JsString
  provider : JsString
  model : JsString
  modelId : JsString
  endedAt : Int
  outputTokens : Nat
  durationMs : ℚ
  tps : ℚ
  firstTokenMs : Option ℚ

structure ExecutionSampleRow where
  executionId : JsString
  taskId : Option JsString
  createdAt : Int
  endedAt : Int
  provider : Option JsString
  model : Option JsString
  modelId : Option JsString
deriving DecidableEq

def doneRow (e : Execution) : Option ExecutionSampleRow := do
  let endedAt ← e.endedAt
  let dispatch ← e.dispatch
  if e.done then
    some
      { executionId := e.id, taskId := e.taskId, createdAt := e.createdAt, endedAt
        provider := dispatch.provider, model := dispatch.model, modelId := dispatch.modelId }
  else none

def ReadExecutionTpsOptions.meets (options : ReadExecutionTpsOptions) (row : ExecutionSampleRow) : Bool :=
  options.executionId.all (fun id => row.executionId = id) &&
    options.startAt.all (fun startAt => startAt ≤ row.endedAt) &&
    options.endAt.all (fun endAt => row.endedAt < endAt) &&
    options.taskId.all (fun taskId => row.taskId = some taskId) &&
    options.taskIds.all fun taskIds => row.taskId.any fun taskId => taskId ∈ taskIds

def executionRows (db : Database) (options : ReadExecutionTpsOptions) : List ExecutionSampleRow :=
  if options.taskIds = some [] then [] else (db.executions.filterMap doneRow).filter options.meets

/-- The bound on the gateway events: the start of the window, or the first creation among the selected. -/
def eventsSince (options : ReadExecutionTpsOptions) (rows : List ExecutionSampleRow) : Int :=
  options.startAt.getD
    (rows.foldl (fun min row => if row.createdAt < min then row.createdAt else min)
      ((rows.head?.map ExecutionSampleRow.createdAt).getD 0))

def byId (rows : List ExecutionSampleRow) : OMap JsString ExecutionSampleRow :=
  OMap.foldKeyed (fun _ row => row) [] (rows.map fun row => (row.executionId, row))

structure Totals where
  outputTokens : Nat
  durationMs : ℚ

/-- What the loop over the usage keeps of one execution. -/
structure UsageBucket where
  invalid : Bool
  seen : OMap JsString ResponseSample
  totals : Option Totals

def UsageBucket.addSample (b : UsageBucket) (sample : ResponseSample) : UsageBucket :=
  match OMap.get b.seen sample.responseId with
  | some previous => if sameResponseSample previous sample then b else { b with invalid := true }
  | none =>
    let current := b.totals.getD ⟨0, 0⟩
    { b with
      seen := OMap.set b.seen sample.responseId sample
      totals := some ⟨current.outputTokens + sample.outputTokens, current.durationMs + sample.durationMs⟩ }

def addUsage (b : Option UsageBucket) (parsed : ResponseSamples) : UsageBucket :=
  let b := b.getD ⟨false, [], none⟩
  parsed.samples.foldl UsageBucket.addSample { b with invalid := b.invalid || parsed.invalid }

def usageEntry (registry : Registry) (executions : OMap JsString ExecutionSampleRow) (row : EventRow) :
    Option (JsString × ResponseSamples) := do
  let id ← row.executionId
  let execution ← OMap.get executions id
  if row.type = js "turn_usage" then
    let parsed ← parseResponseSamples registry row.data execution.model execution.provider
    return (id, parsed)
  else none

def member? (record : OMap JsString Json) (key : JsString) : Option (OMap JsString Json) :=
  match OMap.get record key with
  | some (.obj nested) => some nested
  | _ => none

/-- Extracts the persisted event envelope's nested `data` object. -/
def parseEnvelopeData : Option Json → Option (OMap JsString Json)
  | some (.obj envelope) =>
    if OMap.get envelope (js "schema_version") = some (.str (js "foreman.event.v1")) then member? envelope (js "data")
    else none
  | _ => none

/-- `json_extract(data, '$.data.executionId')`, where it is a text -/
def extractedExecutionId : Option Json → Option JsString
  | some (.obj envelope) => do
    match OMap.get (← member? envelope (js "data")) (js "executionId") with
    | some (.str id) => some id
    | _ => none
  | _ => none

structure GatewayAttribution where
  executionId : JsString
  status : Option Json
  provider : Option Json
  publicModel : Option Json
  tpsSamples : Option Json
  payload : OMap JsString Json

def parseGatewayAttribution (value : Option Json) : Option GatewayAttribution := do
  let data ← parseEnvelopeData value
  let rawId ← text? (OMap.get data (js "executionId"))
  return {
    executionId := trim rawId
    status := OMap.get data (js "status")
    provider := OMap.get data (js "provider")
    publicModel := OMap.get data (js "publicModel")
    tpsSamples := OMap.get data (js "tps_samples")
    payload := data }

/-- A successful response with a sample vector. -/
def GatewayAttribution.measurable (a : GatewayAttribution) : Bool :=
  number? a.status = some 200 &&
    match a.tpsSamples with
    | some (.arr _) => true
    | _ => false

/-- `typeof value === 'string' ? value.trim() : ''` -/
def trimmedText : Option Json → JsString
  | some (.str s) => trim s
  | _ => []

/-- `null` in a template -/
def orNull (s : Option JsString) : JsString := s.getD (js "null")

def gatewaySamples (registry : Registry) (execution : ExecutionSampleRow) (a : GatewayAttribution) :
    Option (List ResponseSample) :=
  let provider := trimmedText a.provider
  let publicModel := trimmedText a.publicModel
  if provider = [] ∨ publicModel = [] ∨ some provider ≠ execution.provider ∨
      publicModel ≠ orNull execution.provider ++ js "/" ++ orNull execution.model then none
  else
    match parseResponseSamplesRecord registry a.payload execution.model execution.provider with
    | some parsed => if parsed.invalid then none else some parsed.samples
    | none => none

structure GatewayBucket where
  samples : List ResponseSample
  invalid : Bool

def addGateway (b : Option GatewayBucket) (samples : Option (List ResponseSample)) : GatewayBucket :=
  let b := b.getD ⟨[], false⟩
  match samples with
  | some samples => { b with samples := b.samples ++ samples }
  | none => { b with invalid := true }

def gatewayTaken (since : Int) (ids : List JsString) (row : EventRow) : Bool :=
  row.type = js "gateway.request.completed" && since ≤ row.createdAt &&
    (extractedExecutionId row.data).any fun id => id ∈ ids

def gatewayEntry (registry : Registry) (executions : OMap JsString ExecutionSampleRow) (row : EventRow) :
    Option (JsString × Option (List ResponseSample)) := do
  let attribution ← parseGatewayAttribution row.data
  let execution ← OMap.get executions attribution.executionId
  if attribution.measurable then some (attribution.executionId, gatewaySamples registry execution attribution)
    else none

/-- What the loop of `sumResponseSamples` keeps. -/
structure SampleSum where
  seen : OMap JsString ResponseSample
  outputTokens : Nat
  durationMs : ℚ
  latencies : List ℚ

def SampleSum.add (sum : SampleSum) (sample : ResponseSample) : Option SampleSum :=
  match OMap.get sum.seen sample.responseId with
  | some previous => if sameResponseSample previous sample then some sum else none
  | none =>
    some
      { seen := OMap.set sum.seen sample.responseId sample
        outputTokens := sum.outputTokens + sample.outputTokens
        durationMs := sum.durationMs + sample.durationMs
        latencies := sum.latencies ++ sample.firstTokenMs.toList }

def sumResponseSamples (samples : List ResponseSample) : Option (Totals × Option ℚ) := do
  let sum ← samples.foldlM SampleSum.add ⟨[], 0, 0, []⟩
  if sum.outputTokens = 0 ∨ sum.outputTokens > maxSafeInteger ∨ sum.durationMs ≤ 0 then none
  else some (⟨sum.outputTokens, sum.durationMs⟩, median sum.latencies)

/-- `migrateProviderId` -/
def migrateProviderId (value : JsString) : JsString :=
  if value = js "codex" then js "chatgpt"
  else if value = js "anthropic-api" then js "anthropic"
  else if value = js "opencode-native" then js "opencode-zen"
  else value

def safeIdentity (value : Option JsString) : Option JsString := do
  let trimmed := trim (← value)
  if trimmed = [] then none else some trimmed

/-- `value?.trim()` in a template -/
def trimmedOrUndefined (value : Option JsString) : JsString := (value.map trim).getD (js "undefined")

def sampleOf (registry : Registry) (row : ExecutionSampleRow) (usage : Option UsageBucket)
    (gateway : Option GatewayBucket) : Option ExecutionTpsSample := do
  if row.modelId.map trim ≠ some (trimmedOrUndefined row.provider ++ js "/" ++ trimmedOrUndefined row.model) then none
  else
    let provider ← (safeIdentity row.provider).map migrateProviderId
    let rawModel ← safeIdentity row.model
    let modelId ← safeIdentity row.modelId
    let model := normalizeSampleModel registry (some provider) rawModel
    let sample (totals : Totals) (firstTokenMs : Option ℚ) (tps : ℚ) : ExecutionTpsSample :=
      { executionId := row.executionId, taskId := row.taskId.getD [], provider, model, modelId, endedAt := row.endedAt
        outputTokens := totals.outputTokens, durationMs := totals.durationMs, tps, firstTokenMs }
    if registry.hasReplayedStream provider model then none
    else if (gateway.any fun g => g.invalid) then none
    else if (gateway.any fun g => g.samples ≠ []) then
      let sum ← sumResponseSamples ((gateway.map GatewayBucket.samples).getD [])
      let tps ← ratePerSecond sum.1.outputTokens sum.1.durationMs
      return sample sum.1 sum.2 tps
    else if (usage.any fun u => u.invalid) then none
    else
      let totals ← usage.bind UsageBucket.totals
      if totals.outputTokens = 0 ∨ totals.outputTokens > maxSafeInteger ∨ totals.durationMs ≤ 0 then none
      else
        let tps ← ratePerSecond totals.outputTokens totals.durationMs
        return sample totals none tps

def usageByExecution (registry : Registry) (db : Database) (rows : List ExecutionSampleRow) :
    OMap JsString UsageBucket :=
  OMap.foldKeyed addUsage [] (db.events.filterMap (usageEntry registry (byId rows)))

def gatewayByExecution (registry : Registry) (db : Database) (options : ReadExecutionTpsOptions)
    (rows : List ExecutionSampleRow) : OMap JsString GatewayBucket :=
  OMap.foldKeyed addGateway []
    ((db.events.filter (gatewayTaken (eventsSince options rows) (rows.map ExecutionSampleRow.executionId))).filterMap
      (gatewayEntry registry (byId rows)))

def readExecutionTpsSamples (registry : Registry) (db : Database) (options : ReadExecutionTpsOptions) :
    List ExecutionTpsSample :=
  let rows := executionRows db options
  let usage := usageByExecution registry db rows
  let gateway := gatewayByExecution registry db options rows
  rows.filterMap fun row => sampleOf registry row (OMap.get usage row.executionId) (OMap.get gateway row.executionId)

end Wrenyard.Stats
