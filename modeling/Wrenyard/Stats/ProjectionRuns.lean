import Wrenyard.Stats.Drains

/-!
# Runs of the transactions

What holds in every state that the transactions reach: the history is in order, the projection follows it, and every
interval is that of a task run that ended (`Consistent`).
-/

namespace Wrenyard.Stats

open Js Transition List

variable {cal : Calendar} {s s' : StatsState} {t : TaskRow}

namespace StatsState

structure Timed (s : StatsState) : Prop where
  tasks : (s.tasks.map TaskRow.id).Nodup
  keys : (OMap.keys s.intervals).Nodup
  intervals : ∀ i ∈ s.intervals, ∃ t ∈ s.tasks, t.id = i.1 ∧ t.status = i.2.status ∧
    t.endedAt = some i.2.effectiveEnd ∧
    i.2.status.terminal = true

theorem Timed.eq_of_id (h : s.Timed) {t' : TaskRow} (ht : t ∈ s.tasks) (ht' : t' ∈ s.tasks)
    (hid : t.id = t'.id) : t = t' :=
  List.inj_on_of_nodup_map h.tasks ht ht' hid

theorem Timed.not_mem_keys (h : s.Timed) (ht : t ∈ s.tasks) (hopen : t.status.terminal = false) :
    t.id ∉ s.intervals.keys := by
  intro hmem
  obtain ⟨i, hi, hid⟩ := mem_map.mp hmem
  obtain ⟨t', ht', hid', hstatus, -, hterminal⟩ := h.intervals i hi
  obtain rfl := h.eq_of_id ht ht' (by rw [hid', hid])
  rw [← hstatus, hopen] at hterminal
  cases hterminal

theorem Timed.addInterval (h : s.Timed) (ht : t ∈ s.tasks) (hterminal : t.status.terminal = true) {x : Int}
    (hx : t.endedAt = some x) (hnone : t.id ∉ s.intervals.keys) :
    ({ s with intervals := s.intervals.set t.id ⟨t.status, x⟩ } : StatsState).Timed where
  tasks := h.tasks
  keys := OMap.nodup_keys_set h.keys _ _
  intervals := by
    intro i hi
    have hi' : i ∈ s.intervals.set t.id ⟨t.status, x⟩ := hi
    rw [OMap.set_of_not_mem hnone] at hi'
    rcases mem_append.mp hi' with hi' | hi'
    · exact h.intervals i hi'
    · rw [mem_singleton.mp hi']
      exact ⟨t, ht, rfl, rfl, hx, hterminal⟩

def withEnd (s : StatsState) (id : JsString) (status : TaskStatus) (endedAt : Int) : StatsState :=
  { s with tasks := s.tasks.map fun t => if t.id = id then { t with status, endedAt := some endedAt } else t }

theorem Timed.withEnd (h : s.Timed) (ht : t ∈ s.tasks) (hopen : t.status.terminal = false) (status : TaskStatus)
    (endedAt : Int) : (s.withEnd t.id status endedAt).Timed where
  tasks := by
    have hids : (s.withEnd t.id status endedAt).tasks.map TaskRow.id = s.tasks.map TaskRow.id := by
      unfold StatsState.withEnd
      rw [map_map]
      apply map_congr_left
      intro other _
      rw [Function.comp_apply]
      split <;> rfl
    rw [hids]
    exact h.tasks
  keys := h.keys
  intervals := by
    intro i hi
    obtain ⟨t', ht', hid, hrest⟩ := h.intervals i hi
    refine ⟨t', ?_, hid, hrest⟩
    have hne : t'.id ≠ t.id := by
      intro h0
      exact h.not_mem_keys ht hopen (by rw [← h0, hid]; exact mem_map_of_mem hi)
    exact mem_map.mpr ⟨t', ht', if_neg hne⟩

theorem Timed.endTask (h : s.Timed) (ht : t ∈ s.tasks) (hopen : t.status.terminal = false) {status : TaskStatus}
    (hterminal : status.terminal = true) (endedAt : Int) : (s.endTask t.id status endedAt).Timed := by
  have hnone := h.not_mem_keys ht hopen
  have hmem : { t with status, endedAt := some endedAt } ∈ (s.withEnd t.id status endedAt).tasks :=
    mem_map.mpr ⟨t, ht, if_pos rfl⟩
  exact (h.withEnd ht hopen status endedAt).addInterval hmem hterminal rfl hnone

theorem pendingIntervals_addInterval (cal : Calendar) (h : s.Timed) {rest : List TaskRow}
    (hp : s.pendingIntervals = t :: rest) : (s.addInterval cal t).pendingIntervals = rest ∧ t ∈ s.tasks ∧
    t.status.terminal = true ∧ t.id ∉ s.intervals.keys ∧ ∃ x, t.endedAt = some x := by
  have hmem : t ∈ s.pendingIntervals := by
    rw [hp]
    exact mem_cons_self ..
  obtain ⟨ht, hpending⟩ := mem_filter.mp hmem
  simp only [Bool.and_eq_true, Bool.not_eq_true'] at hpending
  obtain ⟨⟨hterminal, hended⟩, hno⟩ := hpending
  obtain ⟨x, hx⟩ := Option.isSome_iff_exists.mp hended
  have hnone : t.id ∉ s.intervals.keys := by
    intro hk
    rw [OMap.has_eq_true_iff.mpr hk] at hno
    cases hno
  refine ⟨?_, ht, hterminal, hnone, x, hx⟩
  have hnodup : (t :: rest).map TaskRow.id |>.Nodup := by
    rw [← hp]
    exact h.tasks.sublist (filter_sublist.map _)
  have hinner : (s.addInterval cal t).pendingIntervals = s.pendingIntervals.filter fun other => other.id ≠ t.id := by
    unfold pendingIntervals addInterval
    rw [hx, filter_filter]
    apply filter_congr
    intro other _
    have hmark : (({ s with intervals := s.intervals.set t.id ⟨t.status, x⟩ } : StatsState).markSealedDayDirty
        (cal.localDayKeyOf x)).intervals = s.intervals.set t.id ⟨t.status, x⟩ := rfl
    rw [hmark, OMap.has_set]
    cases other.status.terminal <;> cases other.endedAt.isSome <;> cases s.intervals.has other.id <;> simp [eq_comm]
  rw [hinner, hp, filter_cons_of_neg (by simp), filter_eq_self]
  intro other hother
  have := (nodup_cons.mp hnodup).1
  simp only [ne_eq, decide_not, Bool.not_eq_true', decide_eq_false_iff_not]
  exact fun h0 => this (h0 ▸ mem_map_of_mem hother)

/-! ### Every transaction -/

structure Consistent (cal : Calendar) (s : StatsState) : Prop where
  history : s.History
  projected : s.Projected cal
  timed : s.Timed

theorem Consistent.of_eq (h : s.Consistent cal) (hev : s'.events = s.events) (hex : s'.executions = s.executions)
    (hw : s'.watermark = s.watermark) (hrows : s'.rows = s.rows) (hrollup : s'.rollup = s.rollup)
    (hdirty : ∀ run ∈ s.dirtyRuns, run ∈ s'.dirtyRuns) (hflags : s'.runFlags = s.runFlags) (htimed : s'.Timed) :
    s'.Consistent cal :=
  ⟨h.history.of_eq hev hex, h.projected.of_eq hev hex hw hrows hrollup hdirty hflags, htimed⟩

theorem Timed.of_eq (h : s.Timed) (htasks : s'.tasks = s.tasks) (hintervals : s'.intervals = s.intervals) :
    s'.Timed where
  tasks := by rw [htasks]; exact h.tasks
  keys := by rw [hintervals]; exact h.keys
  intervals := by rw [htasks, hintervals]; exact h.intervals

theorem addInterval_eq {x : Int} (hx : t.endedAt = some x) :
    s.addInterval cal t = ({ s with intervals := s.intervals.set t.id ⟨t.status, x⟩ } : StatsState).markSealedDayDirty
      (cal.localDayKeyOf x) := by
  unfold addInterval
  rw [hx]

theorem Consistent.addIntervals (h : s.Consistent cal) {xs rest : List TaskRow}
    (hp : s.pendingIntervals = xs ++ rest) :
    (xs.foldl (addInterval cal) s).Consistent cal := by
  induction xs generalizing s with
  | nil => exact h
  | cons t xs ih =>
    obtain ⟨hrest, ht, hterminal, hnone, x, hx⟩ := pendingIntervals_addInterval cal h.timed hp
    refine ih ?_ hrest
    rw [addInterval_eq hx]
    exact h.of_eq rfl rfl rfl rfl rfl (fun _ h => h) rfl
      ((h.timed.addInterval ht hterminal hx hnone).of_eq rfl rfl)

theorem Consistent.endTasks (h : s.Consistent cal) (endedAt : Int) {xs : List TaskRow}
    (hids : (xs.map TaskRow.id).Nodup) (hxs : ∀ t ∈ xs, t ∈ s.tasks ∧ t.status.terminal = false) :
    (xs.foldl (fun s t => s.endTask t.id .interrupted endedAt) s).Consistent cal := by
  induction xs generalizing s with
  | nil => exact h
  | cons t xs ih =>
    obtain ⟨ht, hopen⟩ := hxs t (mem_cons_self ..)
    refine ih ?_ (nodup_cons.mp hids).2 ?_
    · exact h.of_eq rfl rfl rfl rfl rfl (fun _ h => h) rfl (h.timed.endTask ht hopen rfl endedAt)
    · intro other hother
      obtain ⟨hmem, ho⟩ := hxs other (mem_cons_of_mem _ hother)
      refine ⟨mem_map.mpr ⟨other, hmem, if_neg ?_⟩, ho⟩
      intro h0
      exact (nodup_cons.mp hids).1 (h0 ▸ mem_map_of_mem hother)

theorem exists_of_isOpen {id : JsString} (h : s.isOpen id = true) :
    ∃ t ∈ s.tasks, t.id = id ∧ t.status.terminal = false := by
  obtain ⟨t, ht, hopen⟩ := any_eq_true.mp h
  simp only [Bool.and_eq_true, decide_eq_true_eq, Bool.not_eq_true'] at hopen
  exact ⟨t, ht, hopen⟩

theorem Consistent.step (h : s.Consistent cal) {a : StatsAction} (hs : s.step cal a = some s') :
    s'.Consistent cal := by
  cases a <;> simp only [StatsState.step, Option.ite_none_right_eq_some, Option.some.injEq] at hs
  case execution ex =>
    split at hs <;> cases hs
    rename_i hno
    simp only [any_eq_true, decide_eq_true_eq, not_or, not_exists, not_and] at hno
    exact ⟨h.history.execution hno.1 hno.2.1, h.projected.execution h.history hno.1 hno.2.2, h.timed.of_eq rfl rfl⟩
  case accepted id template =>
    split at hs <;> cases hs
    rename_i hno
    simp only [any_eq_true, decide_eq_true_eq, not_exists, not_and] at hno
    refine h.of_eq rfl rfl rfl rfl rfl (fun _ h => h) rfl ⟨?_, h.timed.keys, ?_⟩
    · rw [map_append, map_singleton]
      refine nodup_append.mpr ⟨h.timed.tasks, nodup_singleton _, ?_⟩
      intro other hother id' hid'
      obtain ⟨t, ht, rfl⟩ := mem_map.mp hother
      rw [mem_singleton.mp hid']
      exact hno t ht
    · intro i hi
      obtain ⟨t, ht, hrest⟩ := h.timed.intervals i hi
      exact ⟨t, mem_append_left _ ht, hrest⟩
  case terminal id status endedAt =>
    obtain ⟨hopen, rfl⟩ := hs
    rw [Bool.and_eq_true] at hopen
    obtain ⟨t, ht, rfl, ho⟩ := exists_of_isOpen hopen.1
    exact h.of_eq rfl rfl rfl rfl rfl (fun run hrun => mem_markDirtyRun.mpr (Or.inl hrun)) rfl
      ((h.timed.endTask ht ho hopen.2 endedAt).of_eq rfl rfl)
  case allInterrupted endedAt =>
    cases hs
    refine h.endTasks endedAt (h.timed.tasks.sublist (filter_sublist.map _)) ?_
    intro t ht
    obtain ⟨ht, hopen⟩ := mem_filter.mp ht
    exact ⟨ht, by simpa using hopen⟩
  case executionEvent id executionId type createdAt data =>
    simp only [Option.bind_eq_bind, Option.bind_eq_some_iff] at hs
    obtain ⟨ex, hex, hs⟩ := hs
    obtain ⟨hno, hs⟩ := Option.ite_none_left_eq_some.1 hs
    simp only [any_eq_true, decide_eq_true_eq, not_or, not_exists, not_and, Nat.not_le] at hno
    have hmem : ex ∈ s.executions := mem_of_find?_eq_some hex
    have hid : ex.id = executionId := by simpa using List.find?_some hex
    have howned : s.Owned { executionId := some executionId, type, createdAt, data, id, taskId := ex.taskId } :=
      Or.inr ⟨hno.2.2, ex, hmem, by rw [hid], rfl⟩
    have hother : ∀ run, (type = js "turn_usage" → ex.taskId ≠ some run) →
        (s.append { executionId := some executionId, type, createdAt, data, id, taskId := ex.taskId }).runUsage run =
          s.runUsage run := by
      intro run hrun
      apply runUsage_append
      rintro ex' hex' htask hcolumn rfl
      have hsame : ex = ex' :=
        inj_on_of_nodup_map h.history.executions hmem hex' (by rw [hid]; exact Option.some.inj hcolumn)
      exact hrun rfl (hsame ▸ htask)
    have hhistory := h.history.append (Nat.pos_of_ne_zero hno.2.1) hno.1 howned fun h0 => absurd h0 hno.2.2
    split at hs
    · cases hs
      refine ⟨hhistory.of_eq rfl rfl, ?_, h.timed.of_eq rfl rfl⟩
      have hmark : (s.markDirtyRun ex.taskId).Projected cal :=
        h.projected.of_eq rfl rfl rfl rfl rfl (fun run hrun => mem_markDirtyRun.mpr (Or.inl hrun)) rfl
      have happend : ∀ e : EventRecord, 0 < e.id → (∀ other ∈ s.events, other.id < e.id) →
          (∀ run, run ∉ (s.markDirtyRun ex.taskId).dirtyRuns → (s.append e).runUsage run = s.runUsage run) →
          ((s.append e).markDirtyRun ex.taskId).Projected cal :=
        fun e hid hlast hdirty => hmark.append hid hlast hdirty
      refine happend _ (Nat.pos_of_ne_zero hno.2.1) hno.1 ?_
      intro run hrun
      refine hother run fun _ h0 => hrun (mem_markDirtyRun.mpr (Or.inr ⟨h0, ?_⟩))
      rintro rfl
      exact h.history.named ex hmem h0
    · rename_i htype
      cases hs
      refine ⟨hhistory, ?_, h.timed.of_eq rfl rfl⟩
      exact h.projected.append (Nat.pos_of_ne_zero hno.2.1) hno.1 fun run _ => hother run fun h0 => absurd h0 htype
  case gatewayCompleted id createdAt eventId severity data =>
    split at hs <;> cases hs
    rename_i hno
    simp only [any_eq_true, decide_eq_true_eq, not_or, not_exists, not_and, Nat.not_le] at hno
    refine ⟨h.history.append (Nat.pos_of_ne_zero hno.2) hno.1 (Or.inl ⟨rfl, rfl, rfl⟩) fun _ => ⟨_, _, _, rfl⟩,
      h.projected.append (Nat.pos_of_ne_zero hno.2) hno.1 ?_, h.timed.of_eq rfl rfl⟩
    intro run _
    apply runUsage_append
    intro ex _ _ hcolumn
    cases hcolumn
  case drainEvents batch =>
    cases hs
    obtain ⟨hh, hp⟩ := h.projected.drainEvents h.history (take_append_drop batch s.pendingEvents).symm
    refine ⟨hh, hp, ?_⟩
    refine List.foldlRecOn _ _ h.timed fun s' hs' e _ => ?_
    exact hs'.of_eq rfl rfl
  case drainRuns batch =>
    cases hs
    refine List.foldlRecOn _ _ h fun s' hs' run _ => ?_
    exact ⟨hs'.history.of_eq rfl rfl, hs'.projected.reconcileRun hs'.history run, hs'.timed.of_eq rfl rfl⟩
  case drainTaskIntervals batch =>
    cases hs
    exact h.addIntervals (take_append_drop batch s.pendingIntervals).symm
  case drainDirtyDays batch =>
    cases hs
    refine List.foldlRecOn _ _ h fun s' hs' day _ => ?_
    exact hs'.of_eq rfl rfl rfl rfl rfl (fun _ h => h) rfl (hs'.timed.of_eq rfl rfl)
  case drainDeferredDays batch =>
    cases hs
    refine List.foldlRecOn _ _ h fun s' hs' day _ => ?_
    unfold drainDeferredDay
    split
    · exact hs'
    · exact hs'.of_eq rfl rfl rfl rfl rfl (fun _ h => h) rfl (hs'.timed.of_eq rfl rfl)
  case sealDays days =>
    cases hs
    refine List.foldlRecOn _ _ h fun s' hs' day _ => ?_
    unfold sealDay
    split
    all_goals exact hs'.of_eq rfl rfl rfl rfl rfl (fun _ h => h) rfl (hs'.timed.of_eq rfl rfl)
  case reset =>
    cases hs
    refine ⟨h.history.of_eq rfl rfl, h.history.projected_reset, h.timed.tasks, nodup_nil, ?_⟩
    intro i hi
    cases hi

theorem consistent_initial : initial.Consistent cal where
  history := ⟨List.Pairwise.nil, (fun _ h => by cases h), List.nodup_nil, (fun _ h => by cases h),
    (fun _ h => by cases h),
    (fun _ h => by cases h)⟩
  projected := ⟨rfl, Or.inl rfl, (fun _ _ ⟨_, h, _⟩ => by cases h), List.nodup_nil, fun _ => rfl⟩
  timed := ⟨List.nodup_nil, List.nodup_nil, (fun _ h => by cases h)⟩

theorem Reached.consistent (h : s.Reached cal) : s.Consistent cal := by
  obtain ⟨tr, hrun⟩ := h
  exact hrun.invariant (Consistent cal) (fun _ _ _ hs hstep => hs.step hstep) consistent_initial

/-- What an event contributes, straight from the history: a partition of a completion counts where the clients of its
run do not report it. -/
def rawContribution (s : StatsState) (e : EventRecord) : RollupTotals :=
  if e.type = js "dispatch" then (1, 0, 0)
  else if e.type = js "turn_usage" then
    let u := usagePartitions e.data
    (0, u.1 + u.2.1, u.2.2)
  else if e.type = js "gateway.request.completed" then
    let fb := gate ((s.runOf e).map s.readDirtyRunFlags) (candidatePartitions e.data)
    (0, fb.1 + fb.2.1, fb.2.2)
  else 0

variable {e : EventRecord}

/-- The run of a completion is that of the execution it names. -/
theorem History.runOf_completion (h : s.History) (he : e ∈ s.events)
    (hg : e.type = js "gateway.request.completed") : s.runOf e = (nestedExecutionId e.data).bind s.taskByExec := by
  have hcolumns : e.executionId = none ∧ e.taskId = none := by
    rcases h.owned e he with ⟨-, hcolumns⟩ | ⟨hno, -⟩
    · exact hcolumns
    · exact absurd hg hno
  unfold runOf nestedOf
  rw [hcolumns.1, hcolumns.2, if_pos hg, Option.or_none]
  simp [truthy, Json.truthy]

theorem Consistent.storedFlags_eq (h : s.Consistent cal) (hclean : s.dirtyRuns = []) (he : e ∈ s.drained)
    (hg : e.type = js "gateway.request.completed") :
    s.storedFlags (s.runOf e) = (s.runOf e).map s.readDirtyRunFlags := by
  have hne : s.runOf e ≠ some [] := h.history.runOf_ne (mem_of_mem_filter he)
  cases hrun : s.runOf e with
  | none => rfl
  | some run =>
    obtain ⟨row, hrow, hcore⟩ := h.projected.row_iff.mpr ⟨e, he, rfl⟩
    have hof : ofRun run row = true := by
      rw [ofRun_iff, hcore]
      exact ⟨hg, hrun⟩
    have hget := h.projected.flags run (by rw [hclean]; exact not_mem_nil) ⟨row, hrow, hof⟩
    have hnil : decide (run ≠ []) = true := decide_eq_true fun h0 => hne (by rw [hrun, h0])
    unfold storedFlags
    rw [Option.filter_some, if_pos hnil, Option.bind_some, hget, Option.map_some]

theorem Consistent.contribution_eq (h : s.Consistent cal) (hclean : s.dirtyRuns = [])
    (he : e ∈ s.drained) : (s.coreOf cal e).contribution = s.rawContribution e := by
  unfold ProjectionCore.contribution rawContribution
  by_cases hd : e.type = js "dispatch"
  · have hcore : (s.coreOf cal e).type = js "dispatch" := hd
    rw [if_pos hd, if_pos hcore, hcore, if_neg (by decide), if_neg (by decide), if_neg (by decide),
      if_neg (by decide)]
  have hcore : (s.coreOf cal e).type = e.type := rfl
  rw [if_neg hd, hcore, if_neg hd]
  by_cases hu : e.type = js "turn_usage"
  · rw [if_pos hu, if_pos hu, if_pos hu]
    have hcoreU : (s.coreOf cal e).u = usagePartitions e.data := if_pos hu
    rw [hcoreU]
  rw [if_neg hu, if_neg hu, if_neg hu]
  by_cases hg : e.type = js "gateway.request.completed"
  · have hcand : (s.coreOf cal e).fb = gate ((s.runOf e).map s.readDirtyRunFlags) (candidatePartitions e.data) := by
      rw [← h.storedFlags_eq hclean he hg]
      show gate _ (if e.type = js "gateway.request.completed" then candidatePartitions e.data else 0) = _
      rw [if_pos hg]
    rw [if_pos hg, if_pos hg, if_pos hg, hcand]
  · rw [if_neg hg, if_neg hg, if_neg hg]
    rfl

theorem Consistent.total_eq (h : s.Consistent cal) (hclean : s.dirtyRuns = []) (q : JsString → JsString → Bool) :
    OMap.total (fun key => q key.dayKey key.type) s.rollup =
      ((s.drained.filter fun e => q (cal.localDayKeyOf e.createdAt) e.type).map s.rawContribution).sum := by
  have hcores : ((s.rows.filter fun row => q row.key.dayKey row.key.type).map fun row => row.contribution) =
      (((s.rows.map ProjectionRow.toProjectionCore).filter fun core => q core.dayKey core.type).map
        ProjectionCore.contribution) := by
    rw [filter_map, map_map]
    rfl
  rw [h.projected.rollup, hcores, h.projected.rows, filter_map, map_map]
  congr 1
  apply map_congr_left
  intro e he
  exact h.contribution_eq hclean (mem_of_mem_filter he)

theorem drained_of_no_pending (h : s.pendingEvents = []) : s.drained = s.events.filter relevant := by
  apply filter_congr
  intro e he
  have := filter_eq_nil_iff.mp h e he
  simp only [decide_eq_true_eq, not_and] at this
  by_cases hr : relevant e = true
  · have hle : e.id ≤ s.watermark := by
      by_contra hlt
      exact this (by omega) hr
    simp [hr, hle]
  · simp [hr]

end StatsState

end Wrenyard.Stats
