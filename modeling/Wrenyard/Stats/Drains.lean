import Wrenyard.Stats.Projection

/-!
# The projection follows the history

What every transaction keeps: the rows are those of the relevant events up to the watermark, as the executions and the
stored flags resolve them now; the flags of a run that has projected completions and is not dirty are those of its
usage; and the cells of the rollup are the sums of what their rows contribute (`Projected`).
-/

namespace Wrenyard.Stats

open Js Transition List

variable {cal : Calendar} {s : StatsState} {e : EventRecord} {run : JsString}

namespace StatsState

def Owned (s : StatsState) (e : EventRecord) : Prop :=
  (e.type = js "gateway.request.completed" ∧ e.executionId = none ∧ e.taskId = none) ∨
    (e.type ≠ js "gateway.request.completed" ∧
      ∃ ex ∈ s.executions, e.executionId = some ex.id ∧ e.taskId = ex.taskId)

structure History (s : StatsState) : Prop where
  sorted : s.events.Pairwise fun a b => a.id < b.id
  positive : ∀ e ∈ s.events, 0 < e.id
  executions : (s.executions.map Execution.id).Nodup
  named : ∀ ex ∈ s.executions, ex.taskId ≠ some []
  owned : ∀ e ∈ s.events, s.Owned e
  enveloped : ∀ e ∈ s.events, e.type = js "gateway.request.completed" →
    ∃ eventId severity data, e.data = some (foremanEnvelope eventId severity data)

theorem taskByExec_ne (id : JsString) : s.taskByExec id ≠ some [] := by
  intro h
  simpa using (Option.filter_eq_some_iff.mp h).2

theorem History.runOf_ne (h : s.History) (he : e ∈ s.events) : s.runOf e ≠ some [] := by
  have htask : e.taskId ≠ some [] := by
    rcases h.owned e he with ⟨-, -, ht⟩ | ⟨-, ex, hex, -, ht⟩ <;> rw [ht]
    · exact fun h0 => by cases h0
    · exact h.named ex hex
  have hbind : ∀ o : Option JsString, o.bind s.taskByExec ≠ some [] := by
    intro o
    cases o with
    | none => exact fun h0 => by cases h0
    | some id => exact taskByExec_ne id
  unfold runOf
  dsimp only
  split
  · exact hbind _
  cases hn : (nestedOf e).bind s.taskByExec with
  | none => exact htask
  | some task =>
    rw [Option.some_or, ← hn]
    exact hbind _

variable {ex : Execution}

theorem History.runOf_append (h : s.History) (hnew : ∀ other ∈ s.executions, other.id ≠ ex.id) (he : e ∈ s.events)
    (hnested : nestedOf e ≠ some ex.id) :
    ({ s with executions := s.executions ++ [ex] } : StatsState).runOf e = s.runOf e := by
  have htask : ∀ id, ex.id ≠ id →
      ({ s with executions := s.executions ++ [ex] } : StatsState).taskByExec id = s.taskByExec id := by
    intro id hid
    unfold taskByExec
    rw [List.find?_append, List.find?_cons_of_neg (by simpa using hid), List.find?_nil, Option.or_none]
  have hbind : ∀ o : Option JsString, o ≠ some ex.id →
      o.bind ({ s with executions := s.executions ++ [ex] } : StatsState).taskByExec = o.bind s.taskByExec := by
    intro o ho
    cases o with
    | none => rfl
    | some id => exact htask id fun h0 => ho (by rw [h0])
  have hcolumn : e.executionId ≠ some ex.id := by
    rcases h.owned e he with ⟨-, hnone, -⟩ | ⟨-, other, hother, hsome, -⟩
    · rw [hnone]
      exact fun h0 => by cases h0
    · rw [hsome]
      exact fun h0 => hnew other hother (Option.some.inj h0)
  unfold runOf
  rw [hbind _ hnested, hbind _ hcolumn]

variable {s' : StatsState}

theorem readDirtyRunFlags_congr (h : s'.runUsage run = s.runUsage run) :
    s'.readDirtyRunFlags run = s.readDirtyRunFlags run := by
  unfold readDirtyRunFlags
  rw [h]

theorem runUsage_execution (hnew : ∀ e ∈ s.events, e.executionId ≠ some ex.id) :
    ({ s with executions := s.executions ++ [ex] } : StatsState).runUsage run = s.runUsage run := by
  have hnone : (s.events.filter fun ev => ev.executionId = some ex.id ∧ ev.type = js "turn_usage") = [] := by
    rw [filter_eq_nil_iff]
    intro ev hev
    simp [hnew ev hev]
  unfold runUsage
  rw [filter_append, flatMap_append]
  by_cases h : ex.taskId = some run
  · rw [filter_cons_of_pos (by simpa using h), filter_nil, flatMap_cons, flatMap_nil, hnone]
    simp
  · rw [filter_cons_of_neg (by simpa using h), filter_nil, flatMap_nil, append_nil]

theorem runUsage_append (h : ∀ ex ∈ s.executions, ex.taskId = some run → e.executionId = some ex.id →
    e.type ≠ js "turn_usage") : (s.append e).runUsage run = s.runUsage run := by
  unfold runUsage append
  apply flatMap_congr
  intro ex hex
  rw [mem_filter, decide_eq_true_eq] at hex
  rw [filter_append, filter_cons_of_neg, filter_nil, append_nil]
  simpa using h ex hex.1 hex.2

def drained (s : StatsState) : List EventRecord := s.events.filter fun e => e.id ≤ s.watermark ∧ relevant e

variable {rest : List EventRecord}

theorem filter_next {l : List EventRecord} {w : Nat} (hl : l.Pairwise fun a b => a.id < b.id)
    (h : (l.filter fun a => w < a.id ∧ relevant a) = e :: rest) :
    (l.filter fun a => a.id ≤ e.id ∧ relevant a) = (l.filter fun a => a.id ≤ w ∧ relevant a) ++ [e] ∧
      (l.filter fun a => e.id < a.id ∧ relevant a) = rest := by
  induction l with
  | nil => cases h
  | cons a l ih =>
    obtain ⟨hlt, hl⟩ := pairwise_cons.mp hl
    by_cases ha : w < a.id ∧ relevant a
    · rw [filter_cons_of_pos (by simpa using ha)] at h
      obtain ⟨rfl, rfl⟩ := List.cons.inj h
      have hnone : ∀ v ≤ a.id, (l.filter fun b => b.id ≤ v ∧ relevant b) = [] := by
        intro v hv
        rw [filter_eq_nil_iff]
        intro b hb
        have := hlt b hb
        simp only [decide_eq_true_eq, not_and]
        omega
      rw [filter_cons_of_pos (by simpa using ha.2), filter_cons_of_neg (by simp; omega),
        filter_cons_of_neg (by simp), hnone _ (Nat.le_refl _), hnone _ (by omega)]
      refine ⟨rfl, filter_congr ?_⟩
      intro b hb
      have := hlt b hb
      simp only [decide_eq_decide]
      constructor
      all_goals exact fun hb' => ⟨by omega, hb'.2⟩
    · rw [filter_cons_of_neg (by simpa using ha)] at h
      obtain ⟨h1, h2⟩ := ih hl h
      have he : w < e.id ∧ relevant e := by
        have hmem : e ∈ l.filter fun a => w < a.id ∧ relevant a := by
          rw [h]
          exact mem_cons_self ..
        simpa using (mem_filter.mp hmem).2
      by_cases hr : relevant a = true
      · have haw : a.id ≤ w := by
          by_contra hlt'
          exact ha ⟨by omega, hr⟩
        rw [filter_cons_of_pos (by simp [hr]; omega), filter_cons_of_pos (by simp [hr, haw]),
          filter_cons_of_neg (by simp [hr]; omega), h1]
        exact ⟨rfl, h2⟩
      · rw [filter_cons_of_neg (by simp [hr]), filter_cons_of_neg (by simp [hr]),
          filter_cons_of_neg (by simp [hr])]
        exact ⟨h1, h2⟩

/-- The tables of the projection, against the history. -/
structure Projected (cal : Calendar) (s : StatsState) : Prop where
  rows : s.rows.map ProjectionRow.toProjectionCore = s.drained.map (s.coreOf cal)
  watermark : s.watermark = 0 ∨ ∃ e ∈ s.events, e.id = s.watermark
  flags : ∀ run, run ∉ s.dirtyRuns → (∃ row ∈ s.rows, ofRun run row = true) →
    OMap.get s.runFlags run = some (s.readDirtyRunFlags run)
  keys : (OMap.keys s.rollup).Nodup
  rollup : ∀ p : RollupKey → Bool,
    OMap.total p s.rollup = ((s.rows.filter fun row => p row.key).map fun row => row.contribution).sum

theorem mem_insertIgnore {keys : List JsString} {key k : JsString} : k ∈ insertIgnore keys key ↔
    k ∈ keys ∨ k = key := by
  unfold insertIgnore
  split
  · rename_i h
    constructor
    · exact Or.inl
    · rintro (hk | rfl)
      · exact hk
      · exact h
  · rw [mem_append, mem_singleton]

theorem mem_markDirtyRun {o : Option JsString} :
    run ∈ (s.markDirtyRun o).dirtyRuns ↔ run ∈ s.dirtyRuns ∨ (o = some run ∧ run ≠ []) := by
  unfold markDirtyRun
  cases o with
  | none => simp
  | some other =>
    by_cases h : other = []
    · subst h
      simp only [Option.filter_some, ne_eq, not_true_eq_false, decide_false, Bool.false_eq_true, if_false,
        Option.map_none,
        Option.getD_none, Option.some.injEq]
      constructor
      · exact Or.inl
      · rintro (hr | ⟨rfl, hne⟩)
        · exact hr
        · exact absurd rfl hne
    · simp only [Option.filter_some, ne_eq, h, not_false_eq_true, decide_true, if_true, Option.map_some,
        Option.getD_some,
        mem_insertIgnore, Option.some.injEq]
      constructor
      · rintro (hr | rfl)
        · exact Or.inl hr
        · exact Or.inr ⟨rfl, h⟩
      · rintro (hr | ⟨rfl, -⟩)
        · exact Or.inl hr
        · exact Or.inr rfl

theorem ofRun_iff {row : ProjectionRow} :
    ofRun run row = true ↔ row.type = js "gateway.request.completed" ∧ row.taskRunId = some run := by
  simp [ofRun]

theorem Projected.row_iff (h : s.Projected cal) {core : ProjectionCore} :
    (∃ row ∈ s.rows, row.toProjectionCore = core) ↔ ∃ e ∈ s.drained, s.coreOf cal e = core := by
  rw [← mem_map, ← mem_map, h.rows]

theorem Projected.watermark_lt (h : s.Projected cal) {id : Nat} (hid : 0 < id) (hlast : ∀ e ∈ s.events, e.id < id) :
    s.watermark < id := by
  rcases h.watermark with h0 | ⟨e, he, hw⟩
  · omega
  · rw [← hw]
    exact hlast e he

theorem Projected.drained_append (h : s.Projected cal) (hid : 0 < e.id)
    (hlast : ∀ other ∈ s.events, other.id < e.id) :
    (s.append e).drained = s.drained := by
  have := h.watermark_lt hid hlast
  unfold drained append
  rw [filter_append, filter_cons_of_neg (by simp; omega), filter_nil, append_nil]

/-! ### Transactions -/

theorem History.of_eq (h : s.History) (hev : s'.events = s.events)
    (hex : s'.executions = s.executions) : s'.History where
  sorted := by rw [hev]; exact h.sorted
  positive := by rw [hev]; exact h.positive
  executions := by rw [hex]; exact h.executions
  named := by rw [hex]; exact h.named
  owned := by
    unfold Owned
    rw [hev, hex]
    exact h.owned
  enveloped := by rw [hev]; exact h.enveloped

theorem Projected.of_eq (h : s.Projected cal) (hev : s'.events = s.events)
    (hex : s'.executions = s.executions) (hw : s'.watermark = s.watermark) (hrows : s'.rows = s.rows)
    (hrollup : s'.rollup = s.rollup) (hdirty : ∀ run ∈ s.dirtyRuns, run ∈ s'.dirtyRuns)
    (hflags : s'.runFlags = s.runFlags) : s'.Projected cal := by
  have hcore : s'.coreOf cal = s.coreOf cal := by
    funext e
    unfold coreOf runOf storedFlags taskByExec
    rw [hex, hflags]
  constructor
  · unfold drained
    rw [hrows, hev, hw, hcore]
    exact h.rows
  · rw [hev, hw]
    exact h.watermark
  · intro run hrun hrow
    have husage : s'.runUsage run = s.runUsage run := by
      unfold runUsage
      rw [hex, hev]
    rw [hflags, readDirtyRunFlags_congr husage]
    exact h.flags run (fun hd => hrun (hdirty run hd)) (by rwa [← hrows])
  · rw [hrollup]
    exact h.keys
  · rw [hrollup, hrows]
    exact h.rollup

theorem Projected.applyEvent (hh : s.History) (h : s.Projected cal) (hp : s.pendingEvents = e :: rest) :
    (s.applyEvent cal e).Projected cal ∧ (s.applyEvent cal e).pendingEvents = rest := by
  obtain ⟨hdrained, hpending⟩ := filter_next hh.sorted hp
  obtain ⟨he, hlt, -⟩ : e ∈ s.events ∧ s.watermark < e.id ∧ relevant e = true := by
    have hmem : e ∈ s.pendingEvents := by
      rw [hp]
      exact mem_cons_self ..
    simpa [pendingEvents] using hmem
  have hkeep : s.rows.filter (fun other => other.eventId ≠ e.id) = s.rows := by
    rw [filter_eq_self]
    intro row hrow
    obtain ⟨e', he', hcore⟩ := h.row_iff.mp ⟨row, hrow, rfl⟩
    have hle : e'.id ≤ s.watermark := by
      have := (mem_filter.mp he').2
      simp only [decide_eq_true_eq] at this
      exact this.1
    have hid : row.eventId = e'.id := by rw [← hcore]; rfl
    simp only [ne_eq, decide_not, Bool.not_eq_true', decide_eq_false_iff_not]
    omega
  have hrows : (s.applyEvent cal e).rows = s.rows ++ [{ s.coreOf cal e with identity := s.identityOf e }] := by
    rw [← hkeep]
    rfl
  refine ⟨⟨?_, Or.inr ⟨e, he, rfl⟩, ?_, OMap.nodup_keys_addAt h.keys _ _, ?_⟩, hpending⟩
  · have hd : (s.applyEvent cal e).drained = s.drained ++ [e] := hdrained
    rw [hrows, hd, map_append, map_append, h.rows]
    rfl
  · rintro run hrun ⟨row, hrow, hof⟩
    have hdirty := fun hd => hrun (mem_markDirtyRun.mpr hd)
    rw [hrows] at hrow
    rcases mem_append.mp hrow with hrow | hrow
    · exact h.flags run (fun hd => hdirty (Or.inl hd)) ⟨row, hrow, hof⟩
    rw [mem_singleton.mp hrow] at hof
    have hof' : e.type = js "gateway.request.completed" ∧ s.runOf e = some run := ofRun_iff.mp hof
    refine absurd (Or.inr ⟨?_, fun h0 => hh.runOf_ne he (h0 ▸ hof'.2)⟩) hdirty
    rw [if_pos (Or.inr hof'.1)]
    exact hof'.2
  · intro p
    have hr : OMap.total p (s.applyEvent cal e).rollup = _ := OMap.total_addAt p s.rollup _ _
    rw [hr, hrows, filter_append, map_append, sum_append, h.rollup p, filter_cons]
    congr 1
    split
    · simp
    · simp

theorem Projected.drainEvents (hh : s.History) (h : s.Projected cal) {xs : List EventRecord}
    (hp : s.pendingEvents = xs ++ rest) :
    (xs.foldl (StatsState.applyEvent cal) s).History ∧ (xs.foldl (StatsState.applyEvent cal) s).Projected cal := by
  induction xs generalizing s with
  | nil => exact ⟨hh, h⟩
  | cons e xs ih =>
    obtain ⟨h', hp'⟩ := h.applyEvent hh hp
    exact ih (hh.of_eq rfl rfl) h' hp'

theorem gate_zero (flags : Option DirtyRunFlags) : gate flags 0 = 0 := by
  unfold gate
  simp only [Prod.fst_zero, Prod.snd_zero, ite_self]
  rfl

theorem sum_regate (flags : DirtyRunFlags) (p : RollupKey → Bool) (rows : List ProjectionRow) :
    (((rows.map fun row => if ofRun run row then regate flags row else row).filter fun row => p row.key).map
        fun row => row.contribution).sum =
      ((rows.filter fun row => p row.key).map fun row => row.contribution).sum +
        ((((rows.filter (ofRun run)).filter fun row => deltaOf flags row ≠ 0).filter fun row => p row.key).map
          (deltaOf flags)).sum := by
  induction rows with
  | nil => simp
  | cons row rows ih =>
    rw [map_cons, filter_cons, filter_cons, filter_cons]
    by_cases hof : ofRun run row = true
    · have hkey : (regate flags row).key = row.key := rfl
      have hdelta : (regate flags row).contribution = row.contribution + deltaOf flags row := by
        unfold deltaOf
        rw [add_sub_cancel]
      rw [if_pos hof, if_pos hof, hkey, filter_cons]
      by_cases hp : p row.key = true
      · rw [if_pos hp, if_pos hp, map_cons, sum_cons, map_cons, sum_cons, ih, hdelta]
        by_cases h0 : deltaOf flags row = 0
        · rw [if_neg (by simpa using h0), h0, add_zero, add_assoc]
        · rw [if_pos (by simpa using h0), filter_cons, if_pos hp, map_cons, sum_cons, add_assoc, add_assoc,
            add_left_comm (deltaOf flags row)]
      · rw [if_neg hp, if_neg hp, ih]
        split
        · rw [filter_cons, if_neg hp]
        · rfl
    · rw [if_neg hof, if_neg hof]
      by_cases hp : p row.key = true
      · rw [if_pos hp, if_pos hp, map_cons, sum_cons, map_cons, sum_cons, ih, add_assoc]
      · rw [if_neg hp, if_neg hp, ih]

theorem storedFlags_set (flags : DirtyRunFlags) {o : Option JsString} (ho : o ≠ some []) :
    ({ s with runFlags := s.runFlags.set run flags } : StatsState).storedFlags o =
      if o = some run then some flags else s.storedFlags o := by
  unfold storedFlags
  cases o with
  | none => rfl
  | some other =>
    have hother : decide (other ≠ []) = true := decide_eq_true fun h0 => ho (by rw [h0])
    rw [Option.filter_some, if_pos hother, Option.bind_some, Option.bind_some, OMap.get_set]
    split
    · rename_i h
      rw [if_pos (by rw [h])]
    · rename_i h
      rw [if_neg fun h0 => h (Option.some.inj h0).symm]

theorem Projected.reconcileRun (hh : s.History) (h : s.Projected cal) (run : JsString) :
    (s.reconcileRun run).Projected cal := by
  have hrows : (s.reconcileRun run).rows = s.rows.map fun row =>
      if s.runFlags.get run ≠ some (s.readDirtyRunFlags run) ∧ ofRun run row then
        regate (s.readDirtyRunFlags run) row else row := rfl
  have hof : ∀ {run' : JsString} {row' : ProjectionRow}, row' ∈ (s.reconcileRun run).rows → ofRun run' row' = true →
      ∃ row ∈ s.rows, ofRun run' row = true := by
    intro run' row' hrow' hof'
    obtain ⟨row, hrow, rfl⟩ := mem_map.mp hrow'
    refine ⟨row, hrow, ?_⟩
    split at hof' <;> exact hof'
  refine ⟨?_, h.watermark, ?_, OMap.nodup_keys_foldl_addAt _ _ _ h.keys, ?_⟩
  · have hcore : (s.reconcileRun run).rows.map ProjectionRow.toProjectionCore =
        (s.rows.map ProjectionRow.toProjectionCore).map fun core =>
          if s.runFlags.get run ≠ some (s.readDirtyRunFlags run) ∧
              core.type = js "gateway.request.completed" ∧ core.taskRunId = some run then
            { core with fb := gate (some (s.readDirtyRunFlags run)) core.cand } else core := by
      rw [hrows, map_map, map_map]
      apply map_congr_left
      intro row _
      simp only [Function.comp_apply, ofRun_iff]
      split <;> rfl
    rw [hcore, h.rows, map_map]
    apply map_congr_left
    intro e he
    have hne : s.runOf e ≠ some [] := hh.runOf_ne (mem_of_mem_filter he)
    rw [Function.comp_apply]
    have hflags : (s.reconcileRun run).coreOf cal e =
        { s.coreOf cal e with
          fb := gate (({ s with runFlags := s.runFlags.set run (s.readDirtyRunFlags run) } : StatsState).storedFlags
            (s.runOf e)) (s.coreOf cal e).cand } := rfl
    rw [hflags]
    have hfb : (s.coreOf cal e).fb = gate (s.storedFlags (s.runOf e)) (s.coreOf cal e).cand := rfl
    by_cases hg : e.type = js "gateway.request.completed"
    · rw [storedFlags_set _ hne]
      by_cases hr : s.runOf e = some run
      · rw [if_pos hr]
        by_cases hprior : s.runFlags.get run = some (s.readDirtyRunFlags run)
        · have hrun : decide (run ≠ []) = true := decide_eq_true fun h0 => hne (by rw [hr, h0])
          have hstored : s.storedFlags (s.runOf e) = some (s.readDirtyRunFlags run) := by
            unfold storedFlags
            rw [hr, Option.filter_some, if_pos hrun, Option.bind_some, hprior]
          rw [if_neg (fun hc => hc.1 hprior), ← hstored, ← hfb]
        · rw [if_pos ⟨hprior, hg, hr⟩]
      · rw [if_neg (fun hc => hr hc.2.2), if_neg hr, ← hfb]
    · rw [if_neg (fun hc => hg hc.2.1)]
      have hcand : (s.coreOf cal e).cand = 0 := if_neg hg
      rw [hcand, gate_zero] at hfb ⊢
      rw [← hfb]
  · rintro run' hrun' ⟨row', hrow', hof'⟩
    obtain ⟨row, hrow, hof'⟩ := hof hrow' hof'
    have hget : OMap.get (s.reconcileRun run).runFlags run' = _ := OMap.get_set s.runFlags run run' _
    rw [hget]
    by_cases hr : run = run'
    · subst hr
      rw [if_pos rfl]
      rfl
    · rw [if_neg hr]
      refine h.flags run' (fun hd => hrun' ?_) ⟨row, hrow, hof'⟩
      exact mem_filter.mpr ⟨hd, by simpa using Ne.symm hr⟩
  · intro p
    have hroll : OMap.total p (s.reconcileRun run).rollup = _ := OMap.total_foldl_addAt p ProjectionRow.key
      (deltaOf (s.readDirtyRunFlags run)) _ s.rollup
    rw [hroll, h.rollup p, hrows]
    by_cases hprior : s.runFlags.get run = some (s.readDirtyRunFlags run)
    · simp [hprior]
    · simp only [hprior, ne_eq, not_false_eq_true, true_and, if_false]
      exact (sum_regate _ p s.rows).symm

theorem Projected.append (h : s.Projected cal) (hid : 0 < e.id) (hlast : ∀ other ∈ s.events, other.id < e.id)
    (hdirty : ∀ run, run ∉ s.dirtyRuns → (s.append e).runUsage run = s.runUsage run) :
    (s.append e).Projected cal := by
  refine ⟨?_, ?_, ?_, h.keys, h.rollup⟩
  · rw [h.drained_append hid hlast]
    exact h.rows
  · rcases h.watermark with h0 | ⟨e', he', hw⟩
    · exact Or.inl h0
    · exact Or.inr ⟨e', mem_append_left _ he', hw⟩
  · intro run hrun hrow
    rw [readDirtyRunFlags_congr (hdirty run hrun)]
    exact h.flags run hrun hrow

theorem History.append (h : s.History) (hid : 0 < e.id) (hlast : ∀ other ∈ s.events, other.id < e.id)
    (howned : s.Owned e) (henvelope : e.type = js "gateway.request.completed" →
      ∃ eventId severity data, e.data = some (foremanEnvelope eventId severity data)) : (s.append e).History where
  sorted := by
    refine pairwise_append.mpr ⟨h.sorted, pairwise_singleton _ _, ?_⟩
    intro a ha b hb
    rw [mem_singleton.mp hb]
    exact hlast a ha
  positive := by
    intro a ha
    rcases mem_append.mp ha with ha | ha
    · exact h.positive a ha
    · rw [mem_singleton.mp ha]
      exact hid
  executions := h.executions
  named := h.named
  owned := by
    intro a ha
    rcases mem_append.mp ha with ha | ha
    · exact h.owned a ha
    · rw [mem_singleton.mp ha]
      exact howned
  enveloped := by
    intro a ha
    rcases mem_append.mp ha with ha | ha
    · exact h.enveloped a ha
    · rw [mem_singleton.mp ha]
      exact henvelope

theorem History.execution (h : s.History) (hnew : ∀ other ∈ s.executions, other.id ≠ ex.id)
    (htask : ex.taskId ≠ some []) : ({ s with executions := s.executions ++ [ex] } : StatsState).History where
  sorted := h.sorted
  positive := h.positive
  executions := by
    rw [map_append, map_singleton]
    refine nodup_append.mpr ⟨h.executions, nodup_singleton _, ?_⟩
    intro id hid other hother
    obtain ⟨ex', hex', rfl⟩ := mem_map.mp hid
    rw [mem_singleton.mp hother]
    exact hnew ex' hex'
  named := by
    intro ex' hex'
    rcases mem_append.mp hex' with hex' | hex'
    · exact h.named ex' hex'
    · rw [mem_singleton.mp hex']
      exact htask
  owned := by
    intro a ha
    rcases h.owned a ha with ho | ⟨ht, ex', hex', ho⟩
    · exact Or.inl ho
    · exact Or.inr ⟨ht, ex', mem_append_left _ hex', ho⟩
  enveloped := h.enveloped

theorem Projected.execution (hh : s.History) (h : s.Projected cal) (hnew : ∀ other ∈ s.executions, other.id ≠ ex.id)
    (hnested : ∀ e ∈ s.events, nestedOf e ≠ some ex.id) :
    ({ s with executions := s.executions ++ [ex] } : StatsState).Projected cal := by
  refine ⟨?_, h.watermark, ?_, h.keys, h.rollup⟩
  · rw [h.rows]
    apply map_congr_left
    intro e he
    have hmem := mem_of_mem_filter he
    have hrun := hh.runOf_append hnew hmem (hnested e hmem)
    unfold coreOf
    rw [hrun]
    rfl
  · intro run hrun hrow
    have husage : ({ s with executions := s.executions ++ [ex] } : StatsState).runUsage run = s.runUsage run := by
      apply runUsage_execution
      intro e he
      rcases hh.owned e he with ⟨-, hnone, -⟩ | ⟨-, other, hother, hsome, -⟩
      · rw [hnone]
        exact fun h0 => by cases h0
      · rw [hsome]
        exact fun h0 => hnew other hother (Option.some.inj h0)
    rw [readDirtyRunFlags_congr husage]
    exact h.flags run hrun hrow

theorem History.projected_reset (hh : s.History) : s.resetStatsProjection.Projected cal := by
  have hnone : s.resetStatsProjection.drained = [] := by
    unfold drained
    rw [filter_eq_nil_iff]
    intro e he
    have := hh.positive e he
    have hw : s.resetStatsProjection.watermark = 0 := rfl
    simp only [decide_eq_true_eq, not_and]
    omega
  refine ⟨?_, Or.inl rfl, ?_, nodup_nil, fun p => rfl⟩
  · rw [hnone]
    rfl
  · rintro run _ ⟨row, hrow, _⟩
    cases hrow

end StatsState

end Wrenyard.Stats
