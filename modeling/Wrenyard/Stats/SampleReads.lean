import Wrenyard.Stats.TpsRead

/-!
# One sample of one execution

What a read makes of a selected execution depends on the row of the execution, the usage recorded under its id and the
measurable completions of the gateway that the bounds of the read let through, and on nothing else of the options
(`read_eq_sample`).  So two reads that let the same measurable completions of an execution through agree on it
(`read_agrees`).
-/

namespace Wrenyard.Stats

open Js List Option

variable {registry : Registry} {db : Database} {options options' : ReadExecutionTpsOptions} {row : ExecutionSampleRow}

theorem doneRow_executionId {e : Execution} (h : doneRow e = some row) : row.executionId = e.id := by
  unfold doneRow at h
  cases hended : e.endedAt with
  | none => simp [hended] at h
  | some endedAt =>
    cases hdispatch : e.dispatch with
    | none => simp [hended, hdispatch] at h
    | some dispatch =>
      by_cases hdone : e.done = true
      · simp only [hended, hdispatch, hdone, bind_eq_bind, bind_some, if_true, Option.some.injEq] at h
        rw [← h]
      · simp [hended, hdispatch, hdone] at h

theorem sublist_keys {α β κ : Type} {f : α → Option β} {g : α → κ} {g' : β → κ}
    (h : ∀ a b, f a = some b → g' b = g a) (l : List α) : ((l.filterMap f).map g').Sublist (l.map g) := by
  induction l with
  | nil => exact List.Sublist.refl _
  | cons a l ih =>
    cases hf : f a with
    | none =>
      rw [filterMap_cons_none hf, map_cons]
      exact ih.cons _
    | some b =>
      rw [filterMap_cons_some hf, map_cons, map_cons, h a b hf]
      exact ih.cons_cons _

theorem nodup_done (db : Database) : ((db.executions.filterMap doneRow).map ExecutionSampleRow.executionId).Nodup :=
  db.distinct.sublist (sublist_keys (fun _ _ => doneRow_executionId) db.executions)

theorem mem_executionRows :
    row ∈ executionRows db options ↔ row ∈ db.executions.filterMap doneRow ∧ options.meets row = true := by
  unfold executionRows
  split
  · rename_i h
    have hmeets : options.meets row = false := by
      unfold ReadExecutionTpsOptions.meets
      rw [h]
      cases row.taskId <;> simp
    simp [hmeets]
  · rw [mem_filter]

theorem nodup_executionRows (db : Database) (options : ReadExecutionTpsOptions) :
    ((executionRows db options).map ExecutionSampleRow.executionId).Nodup := by
  unfold executionRows
  split
  · exact nodup_nil
  · exact (nodup_done db).sublist (filter_sublist.map _)

variable {rows : List ExecutionSampleRow}

variable (hn : (rows.map ExecutionSampleRow.executionId).Nodup)
include hn

theorem eq_of_executionId {row' : ExecutionSampleRow}
    (h : row ∈ rows) (h' : row' ∈ rows) (hid : row.executionId = row'.executionId) : row = row' :=
  List.inj_on_of_nodup_map hn h h' hid

theorem byId_eq : byId rows = rows.map fun row => (row.executionId, row) := by
  have hkeys : (OMap.keys ([] ++ rows.map fun row => (row.executionId, row))).Nodup := by
    simpa [OMap.keys, Function.comp_def] using hn
  exact OMap.foldl_set hkeys

theorem get_byId (h : row ∈ rows) : OMap.get (byId rows) row.executionId = some row := by
  have hkeys : OMap.keys (rows.map fun row => (row.executionId, row)) = rows.map ExecutionSampleRow.executionId := by
    simp [OMap.keys, Function.comp_def]
  rw [byId_eq hn]
  exact OMap.get_of_mem (hkeys ▸ hn) (mem_map_of_mem (f := fun row => (row.executionId, row)) h)

omit hn

def usageOf (registry : Registry) (row : ExecutionSampleRow) (e : EventRow) : Option ResponseSamples :=
  if e.executionId = some row.executionId ∧ e.type = js "turn_usage" then
    parseResponseSamples registry e.data row.model row.provider
  else none

def measured (id : JsString) (e : EventRow) : Option GatewayAttribution :=
  (parseGatewayAttribution e.data).filter fun a => a.executionId = id && a.measurable

def Measured (id : JsString) (e : EventRow) : Prop :=
  e.type = js "gateway.request.completed" ∧ (measured id e).isSome

def takes (db : Database) (options : ReadExecutionTpsOptions) : EventRow → Bool :=
  let rows := executionRows db options
  gatewayTaken (eventsSince options rows) (rows.map ExecutionSampleRow.executionId)

instance instDecidableMeasured (id : JsString) (e : EventRow) : Decidable (Measured id e) := by
  unfold Measured
  infer_instance

def usageBucket (registry : Registry) (db : Database) (row : ExecutionSampleRow) : Option UsageBucket :=
  OMap.foldAt addUsage none (db.events.filterMap (usageOf registry row))

def gatewayBucket (registry : Registry) (db : Database) (row : ExecutionSampleRow) (takes : EventRow → Bool) :
    Option GatewayBucket :=
  OMap.foldAt addGateway none
    ((db.events.filter takes).filterMap fun e => (measured row.executionId e).map (gatewaySamples registry row))

theorem valuesAt_filterMap {α δ : Type} (f : α → Option (JsString × δ)) (k : JsString) (l : List α) :
    OMap.valuesAt k (l.filterMap f) = l.filterMap fun a => (f a).bind fun e => if e.1 = k then some e.2
    else none := by
  unfold OMap.valuesAt
  rw [filterMap_filterMap]

theorem get_usageByExecution (hn : (rows.map ExecutionSampleRow.executionId).Nodup) (h : row ∈ rows) :
    OMap.get (usageByExecution registry db rows) row.executionId = usageBucket registry db row := by
  unfold usageByExecution usageBucket
  rw [OMap.get_foldKeyed, OMap.get_nil, valuesAt_filterMap]
  congr 1
  apply filterMap_congr
  intro e _
  unfold usageEntry usageOf
  cases hid : e.executionId with
  | none => simp
  | some id =>
    by_cases heq : id = row.executionId
    · subst heq
      by_cases htype : e.type = js "turn_usage"
      · simp only [get_byId hn h, htype, bind_eq_bind, bind_some, if_true, and_self]
        cases parseResponseSamples registry e.data row.model row.provider with
        | none => rfl
        | some parsed => simp
      · simp [htype]
    · rw [if_neg (by simpa using fun h _ => absurd h heq)]
      cases hget : OMap.get (byId rows) id with
      | none => simp [hget]
      | some row' =>
        by_cases htype : e.type = js "turn_usage"
        · simp only [hget, htype, bind_eq_bind, bind_some, if_true]
          cases parseResponseSamples registry e.data row'.model row'.provider with
          | none => rfl
          | some parsed => simp [heq]
        · simp [htype]

theorem get_gatewayByExecution (hn : (rows.map ExecutionSampleRow.executionId).Nodup) (h : row ∈ rows) :
    OMap.get (gatewayByExecution registry db options rows) row.executionId =
    gatewayBucket registry db row (gatewayTaken (eventsSince options rows)
      (rows.map ExecutionSampleRow.executionId)) := by
  unfold gatewayByExecution gatewayBucket
  rw [OMap.get_foldKeyed, OMap.get_nil, valuesAt_filterMap]
  congr 1
  apply filterMap_congr
  intro e _
  unfold gatewayEntry measured
  cases hattr : parseGatewayAttribution e.data with
  | none => rfl
  | some a =>
    by_cases heq : a.executionId = row.executionId
    · by_cases hm : a.measurable = true
      · simp [heq, hm, get_byId hn h, Option.filter]
      · simp [hm, Option.filter]
    cases hget : OMap.get (byId rows) a.executionId with
    | none => simp [hget, heq, Option.filter]
    | some row' =>
      by_cases hm : a.measurable = true
      all_goals simp [hget, hm, heq, Option.filter]

theorem sampleOf_spec {usage : Option UsageBucket} {gateway : Option GatewayBucket} {s : ExecutionTpsSample}
    (h : sampleOf registry row usage gateway = some s) : s.executionId = row.executionId ∧ s.endedAt = row.endedAt ∧
    (safeIdentity row.provider).map migrateProviderId = some s.provider := by
  unfold sampleOf at h
  by_cases hid : row.modelId.map trim ≠ some (trimmedOrUndefined row.provider ++ js "/" ++
    trimmedOrUndefined row.model)
  · rw [if_pos hid] at h
    cases h
  rw [if_neg hid] at h
  simp only [bind_eq_bind, bind_eq_some_iff] at h
  obtain ⟨provider, hprovider, rawModel, -, modelId, -, h⟩ := h
  rw [hprovider]
  by_cases hreplay : registry.hasReplayedStream provider (normalizeSampleModel registry (some provider) rawModel) =
    true
  · simp [hreplay] at h
  rw [if_neg hreplay] at h
  by_cases hinvalid : (gateway.any fun g => g.invalid) = true
  · simp [hinvalid] at h
  rw [if_neg hinvalid] at h
  by_cases hgateway : (gateway.any fun g => g.samples ≠ []) = true
  · rw [if_pos hgateway] at h
    simp only [bind_eq_some_iff] at h
    obtain ⟨sum, -, tps, -, h⟩ := h
    obtain rfl := Option.some.inj h
    exact ⟨rfl, rfl, rfl⟩
  rw [if_neg hgateway] at h
  by_cases husage : (usage.any fun u => u.invalid) = true
  · simp [husage] at h
  rw [if_neg husage] at h
  simp only [bind_eq_some_iff] at h
  obtain ⟨totals, -, h⟩ := h
  by_cases hbad : totals.outputTokens = 0 ∨ totals.outputTokens > maxSafeInteger ∨ totals.durationMs ≤ 0
  · simp [hbad] at h
  rw [if_neg hbad] at h
  simp only [bind_eq_some_iff] at h
  obtain ⟨tps, -, h⟩ := h
  obtain rfl := Option.some.inj h
  exact ⟨rfl, rfl, rfl⟩

def sampleFor (samples : List ExecutionTpsSample) (id : JsString) : Option ExecutionTpsSample :=
  samples.find? fun s => s.executionId = id

def sampleIn (registry : Registry) (db : Database) (options : ReadExecutionTpsOptions) (row : ExecutionSampleRow) :
    Option ExecutionTpsSample :=
  sampleOf registry row (usageBucket registry db row) (gatewayBucket registry db row (takes db options))

theorem readExecutionTpsSamples_eq (registry : Registry) (db : Database) (options : ReadExecutionTpsOptions) :
    readExecutionTpsSamples registry db options =
    (executionRows db options).filterMap (sampleIn registry db options) := by
  apply filterMap_congr
  intro row hrow
  have hn := nodup_executionRows db options
  rw [get_usageByExecution hn hrow, get_gatewayByExecution hn hrow]
  rfl

theorem sampleFor_filterMap {f : ExecutionSampleRow → Option ExecutionTpsSample}
    (hf : ∀ row s, f row = some s → s.executionId = row.executionId)
    (hn : (rows.map ExecutionSampleRow.executionId).Nodup) (h : row ∈ rows) :
    sampleFor (rows.filterMap f) row.executionId = f row := by
  induction rows with
  | nil => cases h
  | cons row' rows ih =>
    rw [map_cons, nodup_cons] at hn
    unfold sampleFor at ih ⊢
    rcases mem_cons.mp h with rfl | h
    · cases hrow : f row with
      | none =>
        rw [filterMap_cons_none hrow, List.find?_eq_none]
        intro s hs
        obtain ⟨row', hrow', hs⟩ := mem_filterMap.mp hs
        have hid := hf row' s hs
        have hne : row'.executionId ≠ row.executionId := by
          intro heq
          exact hn.1 (heq ▸ mem_map_of_mem hrow')
        simpa [hid] using hne
      | some s =>
        rw [filterMap_cons_some hrow, List.find?_cons_of_pos]
        simpa using hf row s hrow
    · have hne : row'.executionId ≠ row.executionId := by
        intro heq
        exact hn.1 (heq ▸ mem_map_of_mem h)
      cases hrow : f row' with
      | none =>
        rw [filterMap_cons_none hrow]
        exact ih hn.2 h
      | some s =>
        rw [filterMap_cons_some hrow, List.find?_cons_of_neg]
        · exact ih hn.2 h
        · simpa [hf row' s hrow] using hne

theorem sampleIn_executionId {s : ExecutionTpsSample} (h : sampleIn registry db options row = some s) :
    s.executionId = row.executionId := (sampleOf_spec h).1

theorem nodup_read (registry : Registry) (db : Database) (options : ReadExecutionTpsOptions) :
    ((readExecutionTpsSamples registry db options).map ExecutionTpsSample.executionId).Nodup := by
  rw [readExecutionTpsSamples_eq]
  exact (nodup_executionRows db options).sublist (sublist_keys (fun _ _ => sampleIn_executionId) _)

theorem read_eq_sample (h : row ∈ executionRows db options) :
    sampleFor (readExecutionTpsSamples registry db options) row.executionId = sampleIn registry db options row := by
  rw [readExecutionTpsSamples_eq]
  exact sampleFor_filterMap (fun _ _ => sampleIn_executionId) (nodup_executionRows db options) h

def SameMeasured (db : Database) (options options' : ReadExecutionTpsOptions) (id : JsString) : Prop :=
  ∀ e ∈ db.events, Measured id e → takes db options e = takes db options' e

theorem filterMap_filter_congr {α β : Type} {p q : α → Bool} {f : α → Option β} {l : List α}
    (h : ∀ a ∈ l, (f a).isSome → p a = q a) : (l.filter p).filterMap f = (l.filter q).filterMap f := by
  induction l with
  | nil => rfl
  | cons a l ih =>
    have htail := ih fun b hb => h b (mem_cons_of_mem a hb)
    rw [filter_cons, filter_cons]
    cases hf : f a with
    | none => by_cases hp : p a = true <;> by_cases hq : q a = true <;> simp [hp, hq, hf, htail]
    | some b =>
      have heq := h a (mem_cons_self ..) (by simp [hf])
      rw [heq]
      by_cases hq : q a = true <;> simp [hq, hf, htail]

theorem gatewayTaken_type {since : Int} {ids : List JsString} {e : EventRow} (h : gatewayTaken since ids e = true) :
    e.type = js "gateway.request.completed" := by
  unfold gatewayTaken at h
  simp only [Bool.and_eq_true, decide_eq_true_eq] at h
  exact h.1.1

theorem sampleIn_congr (hsame : SameMeasured db options options' row.executionId) :
    sampleIn registry db options row = sampleIn registry db options' row := by
  unfold sampleIn gatewayBucket
  congr 2
  apply filterMap_filter_congr
  intro e he hsome
  rw [isSome_map] at hsome
  by_cases htype : e.type = js "gateway.request.completed"
  · exact hsame e he ⟨htype, hsome⟩
  have hno : ∀ o, takes db o e = false := by
    intro o
    rw [Bool.eq_false_iff]
    exact fun h => htype (gatewayTaken_type h)
  rw [hno, hno]

/-- Two reads that select an execution agree on it when their bounds let the same of its measurable completions
through. -/
theorem read_agrees (h : row ∈ executionRows db options) (h' : row ∈ executionRows db options')
    (hsame : SameMeasured db options options' row.executionId) :
    sampleFor (readExecutionTpsSamples registry db options) row.executionId =
    sampleFor (readExecutionTpsSamples registry db options') row.executionId := by
  rw [read_eq_sample h, read_eq_sample h', sampleIn_congr hsame]

end Wrenyard.Stats
