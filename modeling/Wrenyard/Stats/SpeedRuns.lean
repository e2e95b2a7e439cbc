import Wrenyard.Stats.SampleReads
import Wrenyard.Stats.SpeedOrder

/-!
# The kept window over a run

A daemon fills the window once and refreshes an execution after each transaction that completes it or records a late
completion of the gateway for it; every other transaction leaves the executions that are done, and what is recorded
about them, as they are.  In such a run a kept sample is the sample a read of its execution gives, and every sample
young enough is kept (`Sound`).
-/

namespace Wrenyard.Stats

open Js List

variable {registry : Registry} {localMidnightMs : Int → Int}

def doneOf (db : Database) (id : JsString) : Option ExecutionSampleRow :=
  (db.executions.filterMap doneRow).find? fun row => row.executionId = id

def about (id : JsString) (e : EventRow) : Bool :=
  (e.executionId = some id && e.type = js "turn_usage") || decide (Measured id e)

def sampleById (registry : Registry) (db : Database) (id : JsString) : Option ExecutionTpsSample :=
  (readExecutionTpsSamples registry db (only id)).head?

def Untouched (db db' : Database) (id : JsString) : Prop :=
  doneOf db id = doneOf db' id ∧ db.events.filter (about id) = db'.events.filter (about id)

theorem filter_executionId {rows : List ExecutionSampleRow} (hn : (rows.map ExecutionSampleRow.executionId).Nodup)
    (id : JsString) :
    (rows.filter fun row => row.executionId = id) = (rows.find? fun row => row.executionId = id).toList := by
  induction rows with
  | nil => rfl
  | cons row rows ih =>
    rw [map_cons, nodup_cons] at hn
    by_cases h : row.executionId = id
    · have hrest : (rows.filter fun row => row.executionId = id) = [] := by
        rw [filter_eq_nil_iff]
        intro row' hrow' hid
        rw [decide_eq_true_eq] at hid
        exact hn.1 (h.trans hid.symm ▸ mem_map_of_mem hrow')
      simp [h, hrest]
    · simp [h, ih hn.2]

theorem executionRows_only (db : Database) (id : JsString) : executionRows db (only id) = (doneOf db id).toList := by
  have hmeets : (only id).meets = fun row => decide (row.executionId = id) := by
    funext row
    unfold only ReadExecutionTpsOptions.meets
    simp
  unfold executionRows doneOf
  rw [if_neg (by unfold only; simp), hmeets]
  exact filter_executionId (nodup_done db) id

theorem sampleById_eq (registry : Registry) (db : Database) (id : JsString) :
    sampleById registry db id = (doneOf db id).bind (sampleIn registry db (only id)) := by
  unfold sampleById
  rw [readExecutionTpsSamples_eq, executionRows_only]
  cases doneOf db id with
  | none => rfl
  | some row => cases h : sampleIn registry db (only id) row <;> simp [h]

variable {db : Database} {id : JsString} {row : ExecutionSampleRow}

theorem doneOf_spec (h : doneOf db id = some row) : row ∈ db.executions.filterMap doneRow ∧ row.executionId = id := by
  have hid := List.find?_some h
  exact ⟨mem_of_find?_eq_some h, by simpa using hid⟩

theorem doneOf_of_mem (h : row ∈ db.executions.filterMap doneRow) : doneOf db row.executionId = some row := by
  unfold doneOf
  cases hfind : (db.executions.filterMap doneRow).find? fun row' => row'.executionId = row.executionId with
  | none =>
    have := List.find?_eq_none.mp hfind row h
    simp at this
  | some row' =>
    have hspec := doneOf_spec hfind
    rw [eq_of_executionId (nodup_done db) hspec.1 h hspec.2]

theorem sampleIn_only (registry : Registry) (h : doneOf db id = some row) :
    sampleIn registry db (only id) row =
      sampleOf registry row
        (OMap.foldAt addUsage none ((db.events.filter (about id)).filterMap (usageOf registry row)))
        (OMap.foldAt addGateway none
          (((db.events.filter (about id)).filter (gatewayTaken row.createdAt [id])).filterMap fun e =>
            (measured id e).map (gatewaySamples registry row))) := by
  have hid : row.executionId = id := (doneOf_spec h).2
  have htakes : takes db (only id) = gatewayTaken row.createdAt [id] := by
    unfold takes
    rw [executionRows_only, h]
    unfold eventsSince only
    simp [hid]
  unfold sampleIn usageBucket gatewayBucket
  rw [htakes, hid, filter_filter]
  congr 2
  · rw [← filter_true (l := db.events), filter_filter]
    apply filterMap_filter_congr
    intro e _ hsome
    unfold usageOf at hsome
    by_cases huse : e.executionId = some row.executionId ∧ e.type = js "turn_usage"
    · unfold about
      simp [← hid, huse.1, huse.2]
    · rw [if_neg huse] at hsome
      cases hsome
  · apply filterMap_filter_congr
    intro e _ hsome
    rw [Option.isSome_map] at hsome
    by_cases htaken : gatewayTaken row.createdAt [id] e = true
    · have hm : Measured id e := ⟨gatewayTaken_type htaken, hsome⟩
      unfold about
      simp [htaken, hm]
    · simp [htaken]

theorem Untouched.sampleById {db' : Database} (h : Untouched db db' id) (registry : Registry) :
    Stats.sampleById registry db id = Stats.sampleById registry db' id := by
  rw [sampleById_eq, sampleById_eq, ← h.1]
  cases hrow : doneOf db id with
  | none => rfl
  | some row =>
    have hrow' : doneOf db' id = some row := h.1 ▸ hrow
    rw [Option.bind_some, Option.bind_some, sampleIn_only registry hrow, sampleIn_only registry hrow', h.2]

/-- The tables, the kept samples and the last time local speed was read. -/
structure SpeedState where
  db : Database
  kept : Kept
  clock : Int

/-- The window after it was filled. -/
def bootstrap (registry : Registry) (localMidnightMs : Int → Int) (db : Database) (now : Int) : SpeedState :=
  { db, kept := initializeLocalSpeedSamples registry localMidnightMs db now, clock := now }

def DoneIn (db db' : Database) (id : JsString) : Prop := (doneOf db id).isSome ∨ (doneOf db' id).isSome

inductive SpeedStep (registry : Registry) (localMidnightMs : Int → Int) : SpeedState → SpeedState → Prop
  /-- A transaction about executions that are not done. -/
  | write (s : SpeedState) (db' : Database) (h : ∀ id, DoneIn s.db db' id → Untouched s.db db' id) :
      SpeedStep registry localMidnightMs s { s with db := db' }
  /-- A transaction about one execution, its completion or a late completion of the gateway for it, with the
  update. -/
  | refresh (s : SpeedState) (db' : Database) (executionId : JsString)
      (h : ∀ id, id ≠ executionId → DoneIn s.db db' id → Untouched s.db db' id) :
      SpeedStep registry localMidnightMs s
        { s with db := db', kept := updateLocalSpeedSample registry s.kept db' executionId }
  /-- Local speed is read. -/
  | read (s : SpeedState) (now : Int) (h : s.clock ≤ now) :
      SpeedStep registry localMidnightMs s
        { s with kept := (readLocalSpeedSamplesCached localMidnightMs s.kept now).1, clock := now }

inductive Kept.Run (registry : Registry) (localMidnightMs : Int → Int) (db : Database) (now : Int) : SpeedState → Prop
  | start : Run registry localMidnightMs db now (bootstrap registry localMidnightMs db now)
  | step {s s' : SpeedState} (hs : Run registry localMidnightMs db now s)
      (h : SpeedStep registry localMidnightMs s s') : Run registry localMidnightMs db now s'

structure Sound (registry : Registry) (s : SpeedState) : Prop where
  nodup : (OMap.keys s.kept).Nodup
  isSample : ∀ id x, OMap.get s.kept id = some x → sampleById registry s.db id = some x
  isKept : ∀ id x, sampleById registry s.db id = some x → s.clock - LOCAL_SPEED_WINDOW_MS ≤ x.endedAt →
    OMap.get s.kept id = some x

theorem sampleById_of_not_done (h : doneOf db id = none) : sampleById registry db id = none := by
  rw [sampleById_eq, h]
  rfl

theorem sampleById_congr {db' : Database} (h : DoneIn db db' id → Untouched db db' id) :
    sampleById registry db id = sampleById registry db' id := by
  by_cases hd : DoneIn db db' id
  · exact (h hd).sampleById registry
  · unfold DoneIn at hd
    simp only [not_or, Option.not_isSome_iff_eq_none] at hd
    rw [sampleById_of_not_done hd.1, sampleById_of_not_done hd.2]

theorem get_update (kept : Kept) (db : Database) (executionId id : JsString) :
    OMap.get (updateLocalSpeedSample registry kept db executionId) id =
      if executionId = id then sampleById registry db id else kept.get id := by
  unfold updateLocalSpeedSample sampleById
  by_cases h : executionId = id
  · subst h
    cases (readExecutionTpsSamples registry db (only executionId)).head? with
    | none => simp [OMap.get_delete]
    | some x => simp [OMap.get_set]
  · cases (readExecutionTpsSamples registry db (only executionId)).head? with
    | none => simp [OMap.get_delete, h]
    | some x => simp [OMap.get_set, h]

theorem nodup_update {kept : Kept} (h : (kept.keys).Nodup) (db : Database) (executionId : JsString) :
    (OMap.keys (updateLocalSpeedSample registry kept db executionId)).Nodup := by
  unfold updateLocalSpeedSample
  cases (readExecutionTpsSamples registry db (only executionId)).head? with
  | none => exact OMap.nodup_keys_delete h executionId
  | some x => exact OMap.nodup_keys_set h executionId x

variable {s : SpeedState}

theorem Sound.step {s' : SpeedState} (hs : Sound registry s) (h : SpeedStep registry localMidnightMs s s') :
    Sound registry s' := by
  cases h with
  | write db' h =>
    have heq : ∀ id, sampleById registry s.db id = sampleById registry db' id := fun id => sampleById_congr (h id)
    refine ⟨hs.nodup, ?_, ?_⟩ <;> intro id x hx
    · exact heq id ▸ hs.isSample id x hx
    · exact hs.isKept id x (heq id ▸ hx)
  | refresh db' executionId h =>
    have heq : ∀ id, id ≠ executionId → sampleById registry s.db id = sampleById registry db' id :=
      fun id hne => sampleById_congr (h id hne)
    refine ⟨nodup_update hs.nodup db' executionId, ?_, ?_⟩
    · intro id x hx
      simp only [get_update] at hx
      by_cases hid : executionId = id
      · rwa [if_pos hid] at hx
      · rw [if_neg hid] at hx
        exact heq id (Ne.symm hid) ▸ hs.isSample id x hx
    · intro id x hx hend
      simp only [get_update]
      by_cases hid : executionId = id
      · rwa [if_pos hid]
      · rw [if_neg hid]
        exact hs.isKept id x (heq id (Ne.symm hid) ▸ hx) hend
  | read now h =>
    have hget : ∀ id, OMap.get (prune localMidnightMs s.kept now) id =
        (s.kept.get id).filter fun x => retainedWindowStartMs localMidnightMs now ≤ x.endedAt :=
      fun id => OMap.get_filter hs.nodup (fun e => retainedWindowStartMs localMidnightMs now ≤ e.2.endedAt) id
    refine ⟨hs.nodup.sublist (filter_sublist.map Prod.fst), ?_, ?_⟩
    · intro id x hx
      have hx' := (hget id).symm.trans hx
      rw [Option.filter_eq_some_iff] at hx'
      exact hs.isSample id x hx'.1
    · intro id x hx hend
      have hkept := hs.isKept id x hx (by dsimp only at hend; omega)
      have hstart : retainedWindowStartMs localMidnightMs now ≤ x.endedAt := le_trans (min_le_left _ _) hend
      refine (hget id).trans ?_
      rw [Option.filter_eq_some_iff]
      exact ⟨hkept, by simpa using hstart⟩

theorem get_pairs (samples : List ExecutionTpsSample) (id : JsString) :
    OMap.get (samples.map fun s => (s.executionId, s)) id = sampleFor samples id := by
  induction samples with
  | nil => rfl
  | cons s samples ih =>
    unfold sampleFor at ih ⊢
    rw [map_cons, OMap.get_cons, List.find?_cons, ih]
    by_cases h : s.executionId = id
    · simp [h]
    · simp [h]

theorem pairs_eq {samples : List ExecutionTpsSample} (hn : (samples.map ExecutionTpsSample.executionId).Nodup) :
    OMap.foldKeyed (fun _ sample => sample) [] (samples.map fun s => (s.executionId, s)) =
      samples.map fun s => (s.executionId, s) := by
  have hkeys : (OMap.keys ([] ++ samples.map fun s => (s.executionId, s))).Nodup := by
    simpa [OMap.keys, Function.comp_def] using hn
  exact OMap.foldl_set hkeys

/-- Every measurable completion of a selected execution that a read of the execution alone lets through is let through
by the options, and the other way round. -/
def Exact (db : Database) (options : ReadExecutionTpsOptions) : Prop :=
  ∀ row ∈ executionRows db options, SameMeasured db options (only row.executionId) row.executionId

theorem sampleFor_read {options : ReadExecutionTpsOptions} (hexact : Exact db options) (id : JsString) :
    sampleFor (readExecutionTpsSamples registry db options) id =
    ((doneOf db id).filter options.meets).bind (sampleIn registry db (only id)) := by
  cases hrow : (doneOf db id).filter options.meets with
  | some row =>
    rw [Option.filter_eq_some_iff] at hrow
    obtain ⟨hmem, rfl⟩ := doneOf_spec hrow.1
    have hsel : row ∈ executionRows db options := mem_executionRows.mpr ⟨hmem, hrow.2⟩
    rw [read_eq_sample hsel, sampleIn_congr (hexact row hsel)]
    rfl
  | none =>
    unfold sampleFor
    rw [Option.bind_none, List.find?_eq_none]
    intro s hs hid
    rw [decide_eq_true_eq] at hid
    rw [readExecutionTpsSamples_eq] at hs
    obtain ⟨row, hsel, hs⟩ := mem_filterMap.mp hs
    obtain ⟨hmem, hmeets⟩ := mem_executionRows.mp hsel
    have hdone := doneOf_of_mem hmem
    rw [← sampleIn_executionId hs, hid] at hdone
    rw [hdone] at hrow
    simp [Option.filter, hmeets] at hrow

theorem sampleIn_endedAt {options : ReadExecutionTpsOptions} {s : ExecutionTpsSample}
    (h : sampleIn registry db options row = some s) : s.endedAt = row.endedAt :=
  (sampleOf_spec h).2.1

theorem meets_window {startAt endAt : Int} :
    ReadExecutionTpsOptions.meets { startAt := some startAt, endAt := some endAt } row =
      (decide (startAt ≤ row.endedAt) && decide (row.endedAt < endAt)) := by
  unfold ReadExecutionTpsOptions.meets
  simp

theorem sampleFor_window {startAt endAt : Int} (hexact : Exact db { startAt := some startAt, endAt := some endAt })
    (id : JsString) :
    sampleFor (readExecutionTpsSamples registry db { startAt := some startAt, endAt := some endAt }) id =
      (sampleById registry db id).filter fun s => startAt ≤ s.endedAt && s.endedAt < endAt := by
  rw [sampleFor_read hexact, sampleById_eq]
  cases hdone : doneOf db id with
  | none => rfl
  | some row =>
    rw [Option.bind_some]
    by_cases hmeets : (decide (startAt ≤ row.endedAt) && decide (row.endedAt < endAt)) = true
    · rw [Option.filter_some, if_pos (meets_window.trans hmeets), Option.bind_some]
      cases hs : sampleIn registry db (only id) row with
      | none => rfl
      | some s =>
        rw [Option.filter_some, sampleIn_endedAt hs, if_pos hmeets]
    · rw [Option.filter_some, if_neg (fun h => hmeets (meets_window.symm.trans h)), Option.bind_none]
      cases hs : sampleIn registry db (only id) row with
      | none => rfl
      | some s =>
        rw [Option.filter_some, sampleIn_endedAt hs, if_neg hmeets]

theorem Sound.start {now : Int} (hexact : Exact db (retained localMidnightMs now))
    (hended : ∀ row ∈ db.executions.filterMap doneRow, row.endedAt < now) :
    Sound registry (bootstrap registry localMidnightMs db now) := by
  have hkept : (bootstrap registry localMidnightMs db now).kept =
      (readExecutionTpsSamples registry db (retained localMidnightMs now)).map fun s => (s.executionId, s) :=
    pairs_eq (nodup_read registry db _)
  have hget : ∀ id, OMap.get (bootstrap registry localMidnightMs db now).kept id =
      (sampleById registry db id).filter fun s =>
        retainedWindowStartMs localMidnightMs now ≤ s.endedAt && s.endedAt < now := by
    intro id
    rw [hkept, get_pairs]
    exact sampleFor_window hexact id
  refine ⟨?_, ?_, ?_⟩
  · rw [hkept]
    simpa [OMap.keys, Function.comp_def] using nodup_read registry db (retained localMidnightMs now)
  · intro id x hx
    rw [hget, Option.filter_eq_some_iff] at hx
    exact hx.1
  · intro id x hx hend
    rw [hget, Option.filter_eq_some_iff]
    refine ⟨hx, ?_⟩
    have hbefore : x.endedAt < now := by
      rw [sampleById_eq, Option.bind_eq_some_iff] at hx
      obtain ⟨row, hrow, hs⟩ := hx
      rw [sampleIn_endedAt hs]
      exact hended row (doneOf_spec hrow).1
    have hstart : retainedWindowStartMs localMidnightMs now ≤ x.endedAt := le_trans (min_le_left _ _) hend
    simp [hbefore, hstart]

/-- Every state of a run whose window was filled by an exact read after the ends on record is sound. -/
theorem Sound.run {now : Int} (hexact : Exact db (retained localMidnightMs now))
    (hended : ∀ row ∈ db.executions.filterMap doneRow, row.endedAt < now)
    (hrun : Kept.Run registry localMidnightMs db now s) : Sound registry s := by
  induction hrun with
  | start => exact Sound.start hexact hended
  | step _ h ih => exact ih.step h

theorem inWindow_eq (now : Int) (s : ExecutionTpsSample) :
    inWindow now s = (decide (now - LOCAL_SPEED_WINDOW_MS ≤ s.endedAt) && decide (s.endedAt < now)) := rfl

theorem mem_values {registry : Registry} (hs : Sound registry s) {x : ExecutionTpsSample} :
    x ∈ s.kept.map Prod.snd ↔ s.kept.get x.executionId = some x := by
  constructor
  · intro h
    obtain ⟨e, he, rfl⟩ := mem_map.mp h
    have hget := OMap.get_of_mem hs.nodup he
    have hsample := hs.isSample e.1 e.2 hget
    rw [sampleById_eq, Option.bind_eq_some_iff] at hsample
    obtain ⟨row, hrow, hx⟩ := hsample
    rw [sampleIn_executionId hx, (doneOf_spec hrow).2]
    exact hget
  · intro h
    exact mem_map.mpr ⟨_, OMap.mem_of_get h, rfl⟩

theorem nodup_of_nodup_executionId {samples : List ExecutionTpsSample}
    (h : (samples.map ExecutionTpsSample.executionId).Nodup) : samples.Nodup := h.of_map _

theorem Sound.perm (hs : Sound registry s) (localMidnightMs : Int → Int) {now : Int} (hclock : s.clock ≤ now)
    (hexact : Exact s.db (trailing now)) :
    (((prune localMidnightMs s.kept now).map Prod.snd).filter (inWindow now)).Perm
      ((readExecutionTpsSamples registry s.db (trailing now)).filter (inWindow now)) := by
  have hpruned : Sound registry { s with kept := prune localMidnightMs s.kept now, clock := now } :=
    hs.step (SpeedStep.read s now hclock)
  have hread := nodup_of_nodup_executionId (nodup_read registry s.db (trailing now))
  have hkeys : OMap.keys (prune localMidnightMs s.kept now) =
      ((prune localMidnightMs s.kept now).map Prod.snd).map ExecutionTpsSample.executionId := by
    rw [map_map]
    apply map_congr_left
    intro e he
    have hentry := OMap.get_of_mem hpruned.nodup he
    have hsample := hpruned.isSample e.1 e.2 hentry
    rw [sampleById_eq, Option.bind_eq_some_iff] at hsample
    obtain ⟨row, hrow, hx⟩ := hsample
    exact ((sampleIn_executionId hx).trans (doneOf_spec hrow).2).symm
  have hvalues : ((prune localMidnightMs s.kept now).map Prod.snd).Nodup :=
    nodup_of_nodup_executionId (hkeys ▸ hpruned.nodup)
  rw [perm_ext_iff_of_nodup (hvalues.filter _) (hread.filter _)]
  intro x
  have hwindow : sampleFor (readExecutionTpsSamples registry s.db (trailing now)) x.executionId = _ :=
    sampleFor_window hexact x.executionId
  rw [mem_filter, mem_filter]
  constructor
  · rintro ⟨hx, hin⟩
    have hsample := hpruned.isSample _ _ ((mem_values hpruned).mp hx)
    rw [hsample, Option.filter_some, if_pos (inWindow_eq now x ▸ hin)] at hwindow
    exact ⟨mem_of_find?_eq_some hwindow, hin⟩
  · rintro ⟨hx, hin⟩
    have hfor : sampleFor (readExecutionTpsSamples registry s.db (trailing now)) x.executionId = some x := by
      rw [← get_pairs]
      have hkeys' := nodup_read registry s.db (trailing now)
      exact OMap.get_of_mem (e := (x.executionId, x)) (by simpa [OMap.keys, Function.comp_def] using hkeys')
        (mem_map_of_mem (f := fun s => (s.executionId, s)) hx)
    have hsome := hwindow.symm.trans hfor
    rw [Option.filter_eq_some_iff] at hsome
    have hstart : now - LOCAL_SPEED_WINDOW_MS ≤ x.endedAt := by
      rw [inWindow_eq, Bool.and_eq_true, decide_eq_true_eq] at hin
      exact hin.1
    exact ⟨(mem_values hpruned).mpr (hpruned.isKept _ x hsome.1 hstart), hin⟩

end Wrenyard.Stats
