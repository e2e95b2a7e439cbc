import Wrenyard.Stats.ProjectionRuns

/-!
# The usage of a task run

`run-metadata.ts` reads the usage of a run from its executions, the usage records of their clients and the completions
that the gateway recorded for them, for one run or for a batch of runs.  Both readers group the same rows, so that a
batch gives for each of its runs what the reader of one run gives (`readTaskRunMetadataBatch_get`).
-/

namespace Wrenyard.Stats

open Js Option

def readNonNegativeInteger : Option Json → Option Nat
  | some (.num n) => if n.negative = false ∧ n.fraction = [] then some n.whole else none
  | _ => none

structure UsageSums where
  input : Nat
  cached : Nat
  output : Nat

structure GatewayIdentity where
  provider : JsString
  model : JsString
  eventId : Nat

structure GatewayFacts where
  executionId : JsString
  usage : UsageSums
  measured : DirtyRunFlags
  identity : Option GatewayIdentity

/-- The identity that an exact `<provider>/<model>` gives. -/
def gatewayIdentity (data : OMap JsString Json) (eventId : Nat) : Option GatewayIdentity :=
  let provider := trimmedText (OMap.get data (js "provider"))
  let publicModel := trimmedText (OMap.get data (js "publicModel"))
  let model := trim (publicModel.drop (provider.length + 1))
  if provider ≠ [] ∧ (provider ++ js "/").isPrefixOf publicModel ∧ model ≠ []
    then some ⟨provider, model, eventId⟩ else none

def gatewaySums (usage : OMap JsString Json) : UsageSums where
  input := (readNonNegativeInteger (OMap.get usage (js "input"))).getD 0
  cached := (readNonNegativeInteger (OMap.get usage (js "cachedInput"))).getD 0
  output := (readNonNegativeInteger (OMap.get usage (js "output"))).getD 0

def gatewayMeasured (usage : OMap JsString Json) : DirtyRunFlags where
  input := (readNonNegativeInteger (OMap.get usage (js "input"))).isSome
  cached := (readNonNegativeInteger (OMap.get usage (js "cachedInput"))).isSome
  output := (readNonNegativeInteger (OMap.get usage (js "output"))).isSome

def parseGatewayCompletion (value : Option Json) (eventId : Nat) : Option GatewayFacts := do
  let data ← parseEnvelopeData value
  if number? (OMap.get data (js "status")) ≠ some 200 then none
  else
    let executionId ← text? (OMap.get data (js "executionId"))
    let usage := (member? data (js "usage")).getD []
    return ⟨trim executionId, gatewaySums usage, gatewayMeasured usage, gatewayIdentity data eventId⟩

structure GatewayEvidence where
  usage : UsageSums
  measured : DirtyRunFlags
  identity : Option GatewayIdentity

def noEvidence : GatewayEvidence := ⟨⟨0, 0, 0⟩, ⟨false, false, false⟩, none⟩

def addEvidence (evidence : Option GatewayEvidence) (parsed : GatewayFacts) : GatewayEvidence :=
  let evidence := evidence.getD noEvidence
  { usage :=
      ⟨evidence.usage.input + parsed.usage.input, evidence.usage.cached + parsed.usage.cached,
        evidence.usage.output + parsed.usage.output⟩
    measured :=
      ⟨evidence.measured.input || parsed.measured.input, evidence.measured.cached || parsed.measured.cached,
        evidence.measured.output || parsed.measured.output⟩
    identity := parsed.identity.or evidence.identity }

inductive Trust where
  | additive
  | unscoped
  | excluded
deriving DecidableEq

structure TurnUsageEvent where
  trust : Trust
  input : Option Nat
  cached : Option Nat
  read : Option Nat
  write : Option Nat
  output : Option Nat

def turnUsageTrust (record : OMap JsString Json) : Trust :=
  match OMap.get record (js "token_scope") with
  | some (.str scope) => if scope = js "agent_turn" then .additive else if scope = [] then .unscoped else .excluded
  | none | some .null => .unscoped
  | _ => .excluded

def excludedTurnEvent : TurnUsageEvent := ⟨.excluded, none, none, none, none, none⟩

def parseTurnUsage (value : Option Json) : TurnUsageEvent :=
  match usageRecord value with
  | none => excludedTurnEvent
  | some record =>
    if turnUsageTrust record = .excluded then excludedTurnEvent
    else
      let read := readNonNegativeInteger (OMap.get record (js "cache_read_input_tokens"))
      let write := readNonNegativeInteger (OMap.get record (js "cache_creation_input_tokens"))
      { trust := turnUsageTrust record
        input := readNonNegativeInteger (OMap.get record (js "input_tokens"))
        cached :=
          (readNonNegativeInteger (OMap.get record (js "cached_input_tokens"))).or
            (if read.isSome ∨ write.isSome then some (read.getD 0 + write.getD 0) else none)
        read
        write
        output := readNonNegativeInteger (OMap.get record (js "output_tokens")) }

/-- A row of the dispatches; `resolved` is what `toResolvedDispatch` makes of it. -/
structure AttemptDispatchRow (δ : Type) where
  executionId : JsString
  provider : Option JsString
  model : Option JsString
  pricingInput : Option ℚ
  pricingOutput : Option ℚ
  pricingCache : Option ℚ
  pricingCacheWrite : Option ℚ
  resolved : Option δ

variable {δ : Type}

def validRate (rate : Option ℚ) : Bool := rate.any fun rate => 0 ≤ rate

def priced (tokens : Nat) (rate : Option ℚ) : Option ℚ :=
  if tokens = 0 then some 0 else if validRate rate then some (tokens * rate.getD 0 / 1000000) else none

/-- The costs of the components of a record, `none` where one has no rate or the split is inconsistent. -/
def priceEvent (e : TurnUsageEvent) (d : AttemptDispatchRow δ) : ℚ × Bool :=
  let inconsistent (cached write : Nat) : Bool := cached < write || e.read.any fun read => cached < read + write
  let parts : List (Option ℚ) :=
    (e.input.map fun input => priced input d.pricingInput).toList ++
      (e.output.map fun output => priced output d.pricingOutput).toList ++
      match e.cached, e.write with
      | some cached, some write =>
        if inconsistent cached write then [none]
        else [priced write d.pricingCacheWrite, priced (cached - write) d.pricingCache]
      | some cached, none => [priced cached d.pricingCache]
      | none, _ => []
  ((parts.map fun part => part.getD 0).sum, parts.all Option.isSome)

inductive TaskUsageCompleteness where
  | complete
  | unavailable
  | partialUsage

structure TaskRunMetadataTps where
  tps : ℚ
  outputTokens : Nat
  durationMs : ℚ

structure TaskUsage where
  completeness : TaskUsageCompleteness
  attemptCount : Nat
  usageEventCount : Nat
  inputTokens : Option Nat
  cachedInputTokens : Option Nat
  outputTokens : Option Nat
  cacheReadInputTokens : Option Nat
  cacheCreationInputTokens : Option Nat
  totalTokens : Option Nat
  generationMs : Option ℚ
  outputTps : Option ℚ
  /-- With `reference_cost_basis`, where it is there. -/
  referenceCostUsd : Option ℚ
  referenceCostComplete : Bool

structure TaskRunResolvedUsage (δ : Type) where
  resolved : Option δ
  recorded : Option (JsString × JsString)
  usage : TaskUsage

structure Attempt (δ : Type) where
  events : List TurnUsageEvent
  evidence : Option GatewayEvidence
  dispatch : Option (AttemptDispatchRow δ)

def isDisplayableTurnUsage (e : TurnUsageEvent) (eventCount : Nat) : Bool :=
  e.trust = .additive || (e.trust = .unscoped && eventCount = 1)

def Attempt.displayed (a : Attempt δ) : List TurnUsageEvent :=
  a.events.filter fun e => isDisplayableTurnUsage e a.events.length

def partition (attempts : List (Attempt δ)) (field : TurnUsageEvent → Option Nat) (measured : DirtyRunFlags → Bool)
    (fallback : Nat) : Option Nat :=
  let everyAttemptHasRow := attempts ≠ [] ∧ ∀ a ∈ attempts, a.events ≠ []
  let displayed := attempts.flatMap Attempt.displayed
  if (displayed.all fun e => (field e).isNone) ∧
    attempts.any fun a => a.evidence.any fun g => measured g.measured then
    some fallback
  else if everyAttemptHasRow ∧ (attempts.all fun a => a.displayed.length = a.events.length) ∧
      displayed.all fun e => (field e).isSome then
    some ((displayed.map fun e => (field e).getD 0).sum)
  else none

def gatewaySum (attempts : List (Attempt δ)) (field : UsageSums → Nat) : Nat :=
  (attempts.map fun a => (a.evidence.map fun g => field g.usage).getD 0).sum

/-- The `usage` of a run, without its cost and speed. -/
def tokenUsage (attempts : List (Attempt δ)) (usageEventCount : Nat) : TaskUsage :=
  let displayed := attempts.flatMap Attempt.displayed
  let full (e : TurnUsageEvent) : Bool := e.input.isSome && e.cached.isSome && e.output.isSome
  let anyDisplayableValidToken := displayed.any fun e => e.input.isSome || e.cached.isSome || e.output.isSome
  let anyGatewayMeasured := attempts.any fun a => a.evidence.any fun g =>
    g.measured.input || g.measured.output || g.measured.cached
  let everyRowTrusted := attempts.all fun a => a.events.all fun e => e.trust = .additive
  let input := partition attempts TurnUsageEvent.input DirtyRunFlags.input
    (gatewaySum attempts UsageSums.input - gatewaySum attempts UsageSums.cached)
  let cached := partition attempts TurnUsageEvent.cached DirtyRunFlags.cached (gatewaySum attempts UsageSums.cached)
  let output := partition attempts TurnUsageEvent.output DirtyRunFlags.output (gatewaySum attempts UsageSums.output)
  { completeness :=
      if attempts = [] ∨ (!anyDisplayableValidToken && !anyGatewayMeasured) then .unavailable
      else if (∀ a ∈ attempts, a.events ≠ []) ∧ everyRowTrusted ∧ displayed.all full then .complete
      else .partialUsage
    attemptCount := attempts.length
    usageEventCount
    inputTokens := input
    cachedInputTokens := cached
    outputTokens := output
    cacheReadInputTokens := partition attempts TurnUsageEvent.read (fun _ => false) 0
    cacheCreationInputTokens := partition attempts TurnUsageEvent.write (fun _ => false) 0
    totalTokens := do return (← input) + (← cached) + (← output)
    generationMs := none
    outputTps := none
    referenceCostUsd := none
    referenceCostComplete := false }

def Attempt.costs (a : Attempt δ) : Option (List (ℚ × Bool)) := do
  let dispatch ← a.dispatch
  if a.events = [] ∨ a.displayed.length ≠ a.events.length then none
  else if a.events.all fun e => e.input.isSome && e.cached.isSome && e.output.isSome then
    some (a.events.map fun e => priceEvent e dispatch)
  else none

/-- `reference_cost_usd`, where every record is fully priced. -/
def referenceCost (attempts : List (Attempt δ)) : Option ℚ := do
  let costs ← attempts.mapM Attempt.costs
  if attempts ≠ [] ∧ costs.all fun parts => parts.all Prod.snd
    then some ((costs.map fun parts => (parts.map Prod.fst).sum).sum)
  else none

def isNonBlank (value : Option JsString) : Bool := value.any fun value => trim value ≠ []

def latestIdentity (attempts : List (Attempt δ)) : Option GatewayIdentity :=
  attempts.foldl (fun latest a =>
    match a.evidence.bind GatewayEvidence.identity with
    | some identity => if latest.all fun i => i.eventId < identity.eventId then some identity else latest
    | none => latest) none

def attemptsOf (attemptRows : List JsString) (dispatchRows : List (AttemptDispatchRow δ))
    (eventsByExecution : OMap JsString (List TurnUsageEvent)) (gatewayByExecution : OMap JsString GatewayEvidence) :
    List (Attempt δ) :=
  let dispatchByExecution := OMap.foldKeyed (fun _ d => d) [] (dispatchRows.map fun d => (d.executionId, d))
  attemptRows.map fun id =>
    { events := (OMap.get eventsByExecution id).getD []
      evidence := OMap.get gatewayByExecution id
      dispatch := OMap.get dispatchByExecution id }

/-- Pure projection shared by the single-run and batch readers. -/
def projectTaskRunMetadata (attemptRows : List JsString) (dispatchRows : List (AttemptDispatchRow δ))
    (usageEventCount : Nat)
    (eventsByExecution : OMap JsString (List TurnUsageEvent)) (gatewayByExecution : OMap JsString GatewayEvidence)
    (taskTps : Option TaskRunMetadataTps) : TaskRunResolvedUsage δ :=
  let attempts := attemptsOf attemptRows dispatchRows eventsByExecution gatewayByExecution
  let cost := referenceCost attempts
  { resolved := dispatchRows.reverse.findSome? AttemptDispatchRow.resolved
    recorded :=
      match dispatchRows.reverse.find? fun d => isNonBlank d.provider && isNonBlank d.model with
      | some d => some (trim (d.provider.getD []), trim (d.model.getD []))
      | none => (latestIdentity attempts).map fun identity => (identity.provider, identity.model)
    usage :=
      { tokenUsage attempts usageEventCount with
        generationMs := taskTps.map TaskRunMetadataTps.durationMs
        outputTps := taskTps.map TaskRunMetadataTps.tps
        referenceCostUsd := cost
        referenceCostComplete :=
          cost.isSome && attempts.all fun a => a.events.all fun e => e.trust = .additive } }

structure TpsSample where
  taskId : JsString
  outputTokens : Nat
  durationMs : ℚ

def rateOf (samples : List TpsSample) : Option TaskRunMetadataTps := do
  let outputTokens := (samples.map TpsSample.outputTokens).sum
  let durationMs := (samples.map TpsSample.durationMs).sum
  if outputTokens > maxSafeInteger ∨ outputTokens = 0 ∨ durationMs ≤ 0 then none
  else some ⟨1000 * outputTokens / durationMs, outputTokens, durationMs⟩

/-- The other tables of the database, and the readers of speed samples; both readers aggregate the same samples. -/
structure RunTables (δ : Type) where
  /-- `task_run_telemetry` -/
  telemetry : OMap JsString Nat
  /-- `task_run_attempt_dispatch` by task run, in the order of the query -/
  dispatches : List (JsString × AttemptDispatchRow δ)
  readTaskTps : JsString → Option TaskRunMetadataTps
  readExecutionTpsSamples : List JsString → List TpsSample
  samples_spec : ∀ ids run, run ∈ ids →
    readTaskTps run = rateOf ((readExecutionTpsSamples ids).filter fun sample => sample.taskId = run)

namespace StatsState

variable (s : StatsState)

/-- `ORDER BY created_at ASC, id ASC` -/
def attemptOrder : List Execution :=
  s.executions.insertionSort fun a b => a.createdAt < b.createdAt ∨ (a.createdAt = b.createdAt ∧ ¬ b.id < a.id)

def readGatewayEvidence (executionIds : List JsString) : OMap JsString GatewayEvidence :=
  OMap.foldKeyed addEvidence []
    ((s.events.filter fun e => e.type = js "gateway.request.completed" &&
      (extractedExecutionId e.data).any fun id => id ∈ executionIds).filterMap fun e =>
        (parseGatewayCompletion e.data e.id).map fun parsed => (parsed.executionId, parsed))

def readExecutionEvents (executionId : JsString) : List TurnUsageEvent :=
  (s.events.filter fun e => e.executionId = some executionId ∧ e.type = js "turn_usage").map fun e =>
    parseTurnUsage e.data

def readTaskRunMetadata (tables : RunTables δ) (run : JsString) : TaskRunResolvedUsage δ :=
  let attemptRows := (s.attemptOrder.filter fun ex => ex.taskId = some run).map Execution.id
  projectTaskRunMetadata attemptRows ((tables.dispatches.filter fun d => d.1 = run).map Prod.snd)
    ((OMap.get tables.telemetry run).getD 0)
    (OMap.foldKeyed (fun _ events => events) [] (attemptRows.map fun id => (id, s.readExecutionEvents id)))
    (s.readGatewayEvidence attemptRows) (tables.readTaskTps run)

def batchAttempts (ids : List JsString) : List (JsString × JsString) :=
  s.attemptOrder.filterMap fun ex => (ex.taskId.filter fun run => run ∈ ids).map fun run => (run, ex.id)

def readTaskRunMetadataBatch (tables : RunTables δ) (ids : List JsString) : OMap JsString (TaskRunResolvedUsage δ) :=
  let executionIds := (s.batchAttempts ids).map Prod.snd
  let attemptsByTask := OMap.collect (s.batchAttempts ids)
  let dispatchByTask := OMap.collect (tables.dispatches.filter fun d => d.1 ∈ ids)
  let gatewayByExecution := s.readGatewayEvidence executionIds
  let eventsByExecution := OMap.collect (s.events.filterMap fun e =>
    (e.executionId.filter fun id => id ∈ executionIds ∧ e.type = js "turn_usage").map fun id =>
      (id, parseTurnUsage e.data))
  let samplesByTask := OMap.collect ((tables.readExecutionTpsSamples ids).map fun sample => (sample.taskId, sample))
  OMap.foldKeyed (fun _ metadata => metadata) [] (ids.map fun run => (run,
    projectTaskRunMetadata ((OMap.get attemptsByTask run).getD []) ((OMap.get dispatchByTask run).getD [])
      ((OMap.get (tables.telemetry.filter fun row => row.1 ∈ ids) run).getD 0) eventsByExecution gatewayByExecution
      (rateOf ((OMap.get samplesByTask run).getD []))))

def completions : List GatewayFacts :=
  (s.events.filter fun e => e.type = js "gateway.request.completed").filterMap fun e =>
    parseGatewayCompletion e.data e.id

def PlainIds : Prop :=
  ∀ e ∈ s.events, e.type = js "gateway.request.completed" → ∀ id, extractedExecutionId e.data = some id → trim id = id

variable {s}

theorem attemptsOf_congr {rows : List JsString} {dispatches : List (AttemptDispatchRow δ)}
    {events events' : OMap JsString (List TurnUsageEvent)} {gateway gateway' : OMap JsString GatewayEvidence}
    (hevents : ∀ id ∈ rows, (events.get id).getD [] = (events'.get id).getD [])
    (hgateway : ∀ id ∈ rows, gateway.get id = gateway'.get id) :
    attemptsOf rows dispatches events gateway = attemptsOf rows dispatches events' gateway' := by
  apply List.map_congr_left
  intro id hid
  rw [hevents id hid, hgateway id hid]

theorem extracted_of_parse {value : Option Json} {eventId : Nat} {parsed : GatewayFacts}
    (h : parseGatewayCompletion value eventId = some parsed) :
    ∃ id, extractedExecutionId value = some id ∧ trim id = parsed.executionId := by
  unfold parseGatewayCompletion at h
  simp only [bind_eq_bind, bind_eq_some_iff] at h
  obtain ⟨data, hdata, h⟩ := h
  split at h
  · cases h
  obtain ⟨id, hid, h⟩ := bind_eq_some_iff.mp h
  cases h
  refine ⟨id, ?_, rfl⟩
  unfold parseEnvelopeData at hdata
  unfold extractedExecutionId
  split at hdata
  · split at hdata
    · have htext : data.get (js "executionId") = some (.str id) := by
        unfold text? at hid
        split at hid
        · split at hid <;> cases hid
          assumption
        · cases hid
      simp only [hdata, bind_eq_bind, bind_some, htext]
    · cases hdata
  · cases hdata

variable {ids : List JsString}

/-- The evidence of an execution is what its completions make of it, whatever else is read. -/
theorem get_readGatewayEvidence (hplain : s.PlainIds) {id : JsString} (hid : id ∈ ids) :
    OMap.get (s.readGatewayEvidence ids) id =
    OMap.foldAt addEvidence none (s.completions.filter fun parsed => parsed.executionId = id) := by
  have hget : OMap.get (s.readGatewayEvidence ids) id = OMap.foldAt addEvidence none (OMap.valuesAt id _) :=
    OMap.get_foldKeyed [] _ id
  rw [hget]
  congr 1
  unfold OMap.valuesAt completions
  rw [List.filterMap_filterMap, List.filterMap_filter, List.filter_filterMap, List.filterMap_filter]
  apply List.filterMap_congr
  intro e he
  by_cases hg : e.type = js "gateway.request.completed"
  · cases hparse : parseGatewayCompletion e.data e.id with
    | none => simp
    | some parsed =>
      obtain ⟨raw, hraw, htrim⟩ := extracted_of_parse hparse
      rw [hplain e he hg raw hraw] at htrim
      by_cases hkey : parsed.executionId = id
      · simp [hg, hraw, htrim, hkey, hid, filter_some]
      · simp [hkey, filter_some]
  · simp [hg]

theorem mem_attemptOrder {ex : Execution} : ex ∈ s.attemptOrder ↔ ex ∈ s.executions :=
  (List.perm_insertionSort _ _).mem_iff

theorem valuesAt_batchAttempts {run : JsString} (hrun : run ∈ ids) :
    OMap.valuesAt run (s.batchAttempts ids) =
    (s.attemptOrder.filter fun ex => ex.taskId = some run).map Execution.id := by
  apply OMap.valuesAt_filterMap
  intro ex _
  cases ex.taskId with
  | none => rfl
  | some task =>
    by_cases htask : task = run
    · simp [htask, hrun, filter_some]
    · by_cases hmem : task ∈ ids <;> simp [htask, hmem, filter_some]

/-- A batch gives for each of its runs what the reader of one run gives. -/
theorem readTaskRunMetadataBatch_get (hplain : s.PlainIds) (tables : RunTables δ) {run : JsString}
    (hrun : run ∈ ids) :
    OMap.get (s.readTaskRunMetadataBatch tables ids) run = some (s.readTaskRunMetadata tables run) := by
  have hattempts : (OMap.get (OMap.collect (s.batchAttempts ids)) run).getD [] =
      (s.attemptOrder.filter fun ex => ex.taskId = some run).map Execution.id := by
    rw [OMap.get_collect, valuesAt_batchAttempts hrun]
  have hdispatches : (OMap.get (OMap.collect (tables.dispatches.filter fun d => d.1 ∈ ids)) run).getD [] =
      (tables.dispatches.filter fun d => d.1 = run).map Prod.snd := by
    rw [OMap.get_collect, ← List.filterMap_eq_filter]
    apply OMap.valuesAt_filterMap
    intro d _
    by_cases hd : d.1 = run
    · simp [Option.guard, hd, hrun]
    · by_cases hmem : d.1 ∈ ids <;> simp [Option.guard, hd, hmem]
  have htelemetry : OMap.get (tables.telemetry.filter fun row => row.1 ∈ ids) run = tables.telemetry.get run := by
    rw [OMap.get_filter_key (p := fun key => key ∈ ids), if_pos (decide_eq_true hrun)]
  have htps : rateOf ((OMap.get (OMap.collect ((tables.readExecutionTpsSamples ids).map fun sample =>
      (sample.taskId, sample))) run).getD []) = tables.readTaskTps run := by
    rw [OMap.get_collect, tables.samples_spec ids run hrun, ← List.filterMap_eq_map',
      OMap.valuesAt_filterMap (p := fun sample : TpsSample => sample.taskId = run) (g := id)]
    · rw [List.map_id]
    · intro sample _
      by_cases hs : sample.taskId = run <;> simp [hs]
  have hmember : ∀ id ∈ (s.attemptOrder.filter fun ex => ex.taskId = some run).map Execution.id,
      id ∈ (s.batchAttempts ids).map Prod.snd := by
    intro id hid
    rw [← valuesAt_batchAttempts hrun] at hid
    obtain ⟨e, he, hsome⟩ := List.mem_filterMap.mp hid
    split at hsome <;> cases hsome
    exact List.mem_map_of_mem he
  refine (OMap.get_foldKeyed_map _ hrun).trans ?_
  rw [hattempts, hdispatches, htelemetry, htps]
  unfold readTaskRunMetadata projectTaskRunMetadata
  rw [attemptsOf_congr]
  · intro id hid
    rw [OMap.get_foldKeyed_map s.readExecutionEvents hid, OMap.get_collect, getD_some]
    apply OMap.valuesAt_filterMap
    intro e _
    cases e.executionId with
    | none => simp
    | some other =>
      by_cases ho : other = id
      · by_cases hu : e.type = js "turn_usage" <;> simp [ho, hu, hmember id hid, filter_some]
      · rw [filter_some]
        split <;> simp [ho]
  · intro id hid
    rw [get_readGatewayEvidence hplain hid, get_readGatewayEvidence hplain (hmember id hid)]

end StatsState

end Wrenyard.Stats
