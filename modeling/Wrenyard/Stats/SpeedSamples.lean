import Wrenyard.Stats.SpeedRuns

/-!
# How a speed sample is read

A read bounds the measurable completions of the gateway by the start of its window, or by the first creation among the
executions it selects, and takes those under the ids it selects.  As long as these bounds let the same measurable
completions of an execution through, it does not matter how the execution is read, and the kept window gives the
estimates of the tables (`speed_samples`).  An execution that was created before the window started may lose what was
measured before it (`straddling_execution`).
-/

namespace Wrenyard.Stats

open Js

variable {registry : Registry} {localMidnightMs : Int → Int}

theorem distinctEnds_read {db : Database} (options : ReadExecutionTpsOptions)
    (hends : ((db.executions.filterMap doneRow).map ExecutionSampleRow.endedAt).Nodup) :
    DistinctEnds (readExecutionTpsSamples registry db options) := by
  intro a ha b hb hab
  rw [readExecutionTpsSamples_eq] at ha hb
  obtain ⟨row, hrow, ha'⟩ := List.mem_filterMap.mp ha
  obtain ⟨row', hrow', hb'⟩ := List.mem_filterMap.mp hb
  rw [sampleIn_endedAt ha', sampleIn_endedAt hb'] at hab
  have heq := List.inj_on_of_nodup_map hends (mem_executionRows.mp hrow).1 (mem_executionRows.mp hrow').1 hab
  subst heq
  exact Option.some.inj (ha'.symm.trans hb')

theorem not_mem_trim {s : JsString} {u : UInt16} (h : u ∉ s) : u ∉ trim s := by
  intro hu
  unfold trim at hu
  rw [List.mem_reverse] at hu
  have h1 := (List.dropWhile_sublist _).mem hu
  rw [List.mem_reverse] at h1
  exact h ((List.dropWhile_sublist _).mem h1)

theorem not_mem_migrateProviderId {s : JsString} (h : (0 : UInt16) ∉ s) : (0 : UInt16) ∉ migrateProviderId s := by
  unfold migrateProviderId
  by_cases h1 : s = js "codex"
  · rw [if_pos h1]
    decide
  by_cases h2 : s = js "anthropic-api"
  · rw [if_neg h1, if_pos h2]
    decide
  by_cases h3 : s = js "opencode-native"
  · rw [if_neg h1, if_neg h2, if_pos h3]
    decide
  rwa [if_neg h1, if_neg h2, if_neg h3]

def PlainProviders (db : Database) : Prop :=
  ∀ row ∈ db.executions.filterMap doneRow, (0 : UInt16) ∉ row.provider.getD []

theorem exactKeys_read {db : Database} (options : ReadExecutionTpsOptions) (h : PlainProviders db) :
    ExactKeys (readExecutionTpsSamples registry db options) := by
  apply exactKeys_of_provider
  intro s hs
  obtain ⟨row, hrow, hs⟩ := List.mem_filterMap.mp hs
  have hplain := h row (mem_executionRows.mp hrow).1
  have hprovider := (sampleOf_spec hs).2.2
  rw [Option.map_eq_some_iff] at hprovider
  obtain ⟨p, hp, hmigrate⟩ := hprovider
  rw [← hmigrate]
  apply not_mem_migrateProviderId
  unfold safeIdentity at hp
  rw [Option.bind_eq_bind, Option.bind_eq_some_iff] at hp
  obtain ⟨raw, hraw, hp⟩ := hp
  rw [hraw, Option.getD_some] at hplain
  by_cases hempty : trim raw = []
  · rw [if_pos hempty] at hp
    cases hp
  · rw [if_neg hempty] at hp
    rw [← Option.some.inj hp]
    exact not_mem_trim hplain

/-- A sound window gives the estimates of the tables. -/
theorem Sound.estimates {s : SpeedState} (hs : Sound registry s) {now : Int} (hclock : s.clock ≤ now)
    (hexact : Exact s.db (trailing now))
    (hends : ((s.db.executions.filterMap doneRow).map ExecutionSampleRow.endedAt).Nodup)
    (hplain : PlainProviders s.db) :
    (readLocalSpeedSamplesCached localMidnightMs s.kept now).2.Perm (readLocalSpeedSamples registry s.db now) := by
  have hperm := (hs.perm localMidnightMs hclock hexact).symm
  apply List.Perm.symm
  apply aggregate_perm ?_ ?_ hperm
  · exact (distinctEnds_read (trailing now) hends).subset fun a ha => List.mem_of_mem_filter ha
  · exact (exactKeys_read (trailing now) hplain).subset fun a ha => List.mem_of_mem_filter ha

/-- Two reads that let the same measurable completions of an execution through give one sample of it; and after the
window was filled and every completion refreshed, the kept samples give the estimates of the tables. -/
theorem speed_samples (registry : Registry) :
    (∀ (db : Database) (options options' : ReadExecutionTpsOptions) (row : ExecutionSampleRow),
      row ∈ executionRows db options → row ∈ executionRows db options' →
      SameMeasured db options options' row.executionId →
      sampleFor (readExecutionTpsSamples registry db options) row.executionId =
        sampleFor (readExecutionTpsSamples registry db options') row.executionId) ∧
    (∀ (localMidnightMs : Int → Int) (db : Database) (start now : Int) (s : SpeedState),
      Exact db (retained localMidnightMs start) →
      (∀ row ∈ db.executions.filterMap doneRow, row.endedAt < start) →
      Kept.Run registry localMidnightMs db start s → s.clock ≤ now → Exact s.db (trailing now) →
      ((s.db.executions.filterMap doneRow).map ExecutionSampleRow.endedAt).Nodup → PlainProviders s.db →
      (readLocalSpeedSamplesCached localMidnightMs s.kept now).2.Perm (readLocalSpeedSamples registry s.db now)) := by
  constructor
  · intro db options options' row h h' hsame
    exact read_agrees h h' hsame
  · intro localMidnightMs db start now s hstart hended hrun hclock hexact hends hplain
    exact (Sound.run hstart hended hrun).estimates hclock hexact hends hplain

def bareRegistry : Registry := ⟨fun _ model => model, fun _ _ => false⟩

def count (n : Nat) : Json := .num (.ofNat n)

/-- A completion of the gateway for the execution `e1`, with one sample. -/
def measuredCompletion : EventRow :=
  { executionId := none, type := js "gateway.request.completed", createdAt := 2000
    data := some (.obj [
      (js "schema_version", .str (js "foreman.event.v1")),
      (js "data", .obj [
        (js "executionId", .str (js "e1")), (js "status", count 200), (js "provider", .str (js "p")),
        (js "publicModel", .str (js "p/m")),
        (js "tps_samples", .arr [.obj [
          (js "response_id", .str (js "r1")), (js "model", .str (js "m")), (js "output_tokens", count 400),
          (js "first_token_at_ms", count 1100), (js "completed_at_ms", count 1900)]])])]) }

def straddling : Execution :=
  { id := js "e1", taskId := some (js "t1"), done := true, createdAt := 1000, endedAt := some 5000
    dispatch := some ⟨some (js "p"), some (js "m"), some (js "p/m")⟩ }

def straddlingDb : Database := ⟨[straddling], [measuredCompletion], by decide⟩

/-- The same execution read by its id and by a window that starts before it, and a window that is filled by it. -/
theorem speed_samples_straddling :
    sampleFor (readExecutionTpsSamples bareRegistry straddlingDb (only (js "e1"))) (js "e1") =
      sampleFor (readExecutionTpsSamples bareRegistry straddlingDb { startAt := some 1000, endAt := some 6000 })
        (js "e1") ∧
    (readLocalSpeedSamplesCached (fun now => now - LOCAL_SPEED_WINDOW_MS)
      (bootstrap bareRegistry (fun now => now - LOCAL_SPEED_WINDOW_MS) straddlingDb 6000).kept 7000).2.Perm
      (readLocalSpeedSamples bareRegistry straddlingDb 7000) := by
  refine ⟨(speed_samples bareRegistry).1 straddlingDb (only (js "e1")) { startAt := some 1000, endAt := some 6000 }
    { executionId := js "e1", taskId := some (js "t1"), createdAt := 1000, endedAt := 5000
      provider := some (js "p"), model := some (js "m"), modelId := some (js "p/m") } ?_ ?_ ?_,
    (speed_samples bareRegistry).2 (fun now => now - LOCAL_SPEED_WINDOW_MS) straddlingDb 6000 7000 _
      ?_ ?_ Kept.Run.start ?_ ?_ ?_ ?_⟩
  · decide
  · decide
  · unfold SameMeasured
    decide
  · unfold Exact SameMeasured
    decide
  · decide
  · decide
  · unfold Exact SameMeasured
    decide
  · decide
  · unfold PlainProviders
    decide

/-- Read by its id the execution has a sample, read by a window that starts at 3000 it has none. -/
theorem straddling_execution :
    (executionRows straddlingDb (only (js "e1"))).map ExecutionSampleRow.executionId = [js "e1"] ∧
    (executionRows straddlingDb { startAt := some 3000 }).map ExecutionSampleRow.executionId = [js "e1"] ∧
    (sampleFor (readExecutionTpsSamples bareRegistry straddlingDb (only (js "e1"))) (js "e1")).map
      (fun s => (s.outputTokens, s.tps)) = some (400, 500) ∧
    sampleFor (readExecutionTpsSamples bareRegistry straddlingDb { startAt := some 3000 }) (js "e1") = none := by
  refine ⟨?_, ?_, ?_, ?_⟩
  · decide
  · decide
  · decide +kernel
  · decide

end Wrenyard.Stats
