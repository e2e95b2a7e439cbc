import Mathlib.Algebra.Order.BigOperators.Group.List
import Mathlib.Algebra.Order.Monoid.Prod
import Mathlib.Tactic.Abel
import Wrenyard.Stats.ProjectionRuns

/-!
# The figures of today

`readTodayStats` scans the events of the day; `readStatsSummary` sums the rollup of the day behind a drain.  On a
fresh summary both give the same figures exactly when no completion of the day without a known task run reports tokens
(`today_agrees_iff`): the summary counts such a completion, the scan leaves it out.
-/

namespace Wrenyard.Stats

open Js Transition List

variable {cal : Calendar} {s : StatsState} {e : EventRecord}

structure GatewayCompletion where
  uncached : Option ℚ
  cached : Option ℚ
  output : Option ℚ

def gatewayCompletion (data : Option Json) : Option (JsString × GatewayCompletion) :=
  match data with
  | some (.obj envelope) => do
    let payload ← member? envelope (js "data")
    if number? (OMap.get payload (js "status")) ≠ some 200 then none
    else
      let id ← text? (OMap.get payload (js "executionId"))
      let usage := (member? payload (js "usage")).getD []
      let cached := measured? (OMap.get usage (js "cachedInput"))
      some (trim id,
        { uncached := (measured? (OMap.get usage (js "input"))).map fun input => max (input - cached.getD 0) 0
          cached
          output := measured? (OMap.get usage (js "output")) })
  | _ => none

def GatewayCompletion.fallback (reported : DirtyRunFlags) (c : GatewayCompletion) : RollupTotals :=
  (0, (if reported.input then 0 else c.uncached.getD 0) + (if reported.cached then 0 else c.cached.getD 0),
    if reported.output then 0 else c.output.getD 0)

def fullInputTokens (record : OMap JsString Json) : ℚ :=
  nonNegativeNumber (OMap.get record (js "input_tokens")) + normalizedCachedTokens record

namespace StatsState

def todayRows (cal : Calendar) (s : StatsState) (now : Int) (type : JsString) : List EventRecord :=
  s.events.filter fun e =>
    e.type = type && ((cal.dayWindowFromDayKey (cal.localDayKeyOf now)).getD fun _ => false) e.createdAt

def fallbackByRun (s : StatsState) (rows : List EventRecord) : OMap JsString RollupTotals :=
  ((OMap.collect (rows.filterMap fun e => gatewayCompletion e.data)).filterMap fun execution =>
      (s.taskByExec execution.1).map fun run => (run, execution.2)).foldl
    (fun sums run => OMap.addAt sums run.1 ((run.2.map (GatewayCompletion.fallback (s.readDirtyRunFlags run.1))).sum))
      []

/-- `dispatchCount`, `inputTokens` and `outputTokens` -/
def readTodayStats (cal : Calendar) (s : StatsState) (now : Int) : RollupTotals :=
  let usage := (s.todayRows cal now (js "turn_usage")).filterMap fun e => usageRecord e.data
  (((s.todayRows cal now (js "dispatch")).length : ℚ), 0, 0) +
    (usage.map fun record => (0, fullInputTokens record,
      nonNegativeNumber (OMap.get record (js "output_tokens")))).sum +
    OMap.total (fun _ => true) (s.fallbackByRun (s.todayRows cal now (js "gateway.request.completed")))

def drainStatsProjection (cal : Calendar) (s : StatsState) : StatsState :=
  ((((s.drainStatsProjectionEvents cal 512).drainStatsProjectionRuns 64).drainStatsProjectionTaskIntervals cal
    256).drainStatsDirtySealedDays cal 32).drainStatsDeferredSealedDays cal 32

/-- `readStatsProjectionFreshness().state === 'fresh'` behind the cold backfill -/
def fresh (s : StatsState) : Bool :=
  s.pendingEvents.isEmpty && s.dirtyRuns.isEmpty && s.pendingIntervals.isEmpty && s.dirtyDays.isEmpty &&
    s.deferredDays.isEmpty

def bucketOf (s : StatsState) (dayKey : JsString) : RollupTotals :=
  ((OMap.total (fun key => key.dayKey = dayKey && key.type = js "dispatch") s.rollup).1, (s.rollupOfDay dayKey).2)

/-- The entry of today of an uncached summary that is fresh; the closed days without a sealed row are sealed on the
way. -/
def readStatsSummaryToday (cal : Calendar) (s : StatsState) (now : Int) (missing : List Int) : Option RollupTotals :=
  let s := ((missing.map cal.localDayKeyOf).foldl (sealDay cal) (s.drainStatsProjection cal))
  if s.fresh then some (s.bucketOf (cal.localDayKeyOf now)) else none

def onDay (cal : Calendar) (now : Int) (e : EventRecord) : Bool :=
  cal.localDayKeyOf e.createdAt = cal.localDayKeyOf now

def orphaned (s : StatsState) (e : EventRecord) : Bool :=
  e.type = js "gateway.request.completed" && (s.runOf e).isNone

theorem todayRows_eq (now : Int) (type : JsString) :
    s.todayRows cal now type = (s.events.filter (onDay cal now)).filter fun e => e.type = type := by
  obtain ⟨w, hw, hspec⟩ := cal.window_spec now
  unfold todayRows
  rw [hw, filter_filter]
  apply filter_congr
  intro e _
  have : w e.createdAt = onDay cal now e := by
    unfold onDay
    rw [Bool.eq_iff_iff, hspec, decide_eq_true_eq]
  rw [Option.getD_some, this]

end StatsState

theorem nonNegativeNumber_eq (value : Option Json) : nonNegativeNumber value = (measured? value).getD 0 := by
  unfold nonNegativeNumber measured?
  cases number? value with
  | none => rfl
  | some n =>
    rw [Option.filter_some, Option.filter_some]
    rcases lt_trichotomy n 0 with h | rfl | h
    · simp [not_lt.mpr h.le, not_le.mpr h]
    · simp
    · simp [h, h.le]

theorem measured_nonneg (value : Option Json) : 0 ≤ (measured? value).getD 0 := by
  unfold measured?
  cases number? value with
  | none => exact le_refl _
  | some n =>
    rw [Option.filter_some]
    by_cases h : 0 ≤ n
    · rw [if_pos (decide_eq_true h)]
      exact h
    · simp [h]

theorem candidatePartitions_nonneg (data : Option Json) :
    0 ≤ (candidatePartitions data).1 ∧ 0 ≤ (candidatePartitions data).2.1 ∧ 0 ≤ (candidatePartitions data).2.2 := by
  unfold candidatePartitions
  cases completionUsage data with
  | none => exact ⟨le_refl _, le_refl _, le_refl _⟩
  | some usage =>
    refine ⟨le_max_right _ _, measured_nonneg _, ?_⟩
    show 0 ≤ nonNegativeNumber _
    rw [nonNegativeNumber_eq]
    exact measured_nonneg _

theorem gatewayCompletion_foremanEnvelope (eventId severity : JsString) (data : OMap JsString Json) :
    gatewayCompletion (some (StatsState.foremanEnvelope eventId severity data)) =
      if number? (data.get (js "status")) ≠ some 200 then none
      else (text? (data.get (js "executionId"))).map fun id => (trim id,
        { uncached := (measured? (OMap.get ((member? data (js "usage")).getD []) (js "input"))).map fun input =>
            max (input - (measured? (OMap.get ((member? data (js "usage")).getD []) (js "cachedInput"))).getD 0) 0
          cached := measured? (OMap.get ((member? data (js "usage")).getD []) (js "cachedInput"))
          output := measured? (OMap.get ((member? data (js "usage")).getD []) (js "output")) }) := by
  show (if number? (data.get (js "status")) ≠ some 200 then none else _) = _
  split
  · rfl
  · cases text? (data.get (js "executionId")) <;> rfl

theorem candidatePartitions_foremanEnvelope (eventId severity : JsString) (data : OMap JsString Json) :
    candidatePartitions (some (StatsState.foremanEnvelope eventId severity data)) =
      if number? (data.get (js "status")) ≠ some 200 then 0
      else gatewayPartitions ((member? data (js "usage")).getD []) := by
  have hzero : gatewayPartitions [] = 0 := by
    unfold gatewayPartitions nonNegativeNumber measured?
    simp [number?]
  have hstatus : measured? (data.get (js "status")) = some 200 ↔ number? (data.get (js "status")) = some 200 := by
    unfold measured?
    rw [Option.filter_eq_some_iff]
    constructor
    · exact fun h => h.1
    · exact fun h => ⟨h, by decide⟩
  have hdata : completionUsage (some (StatsState.foremanEnvelope eventId severity data)) =
      if measured? (data.get (js "status")) = some 200 then member? data (js "usage") else none := rfl
  unfold candidatePartitions
  rw [hdata]
  by_cases h : number? (data.get (js "status")) = some 200
  · rw [if_pos (hstatus.mpr h), if_neg (not_not.mpr h)]
    cases member? data (js "usage") with
    | none => exact hzero.symm
    | some usage => rfl
  · rw [if_neg (fun h' => h (hstatus.mp h')), if_pos h]
    rfl

theorem fallback_eq (flags : DirtyRunFlags) (usage : OMap JsString Json) :
    GatewayCompletion.fallback flags
        { uncached := (measured? (usage.get (js "input"))).map fun input =>
            max (input - (measured? (usage.get (js "cachedInput"))).getD 0) 0
          cached := measured? (usage.get (js "cachedInput"))
          output := measured? (usage.get (js "output")) } =
      (0, (gate (some flags) (gatewayPartitions usage)).1 + (gate (some flags) (gatewayPartitions usage)).2.1,
        (gate (some flags) (gatewayPartitions usage)).2.2) := by
  have hinput : ((measured? (usage.get (js "input"))).map fun input =>
      max (input - (measured? (usage.get (js "cachedInput"))).getD 0) 0).getD 0 = (gatewayPartitions usage).1 := by
    unfold gatewayPartitions
    rw [nonNegativeNumber_eq]
    have := measured_nonneg (usage.get (js "cachedInput"))
    cases measured? (usage.get (js "input")) with
    | none => simp [this]
    | some input => rfl
  have houtput : (measured? (usage.get (js "output"))).getD 0 = (gatewayPartitions usage).2.2 :=
    (nonNegativeNumber_eq _).symm
  unfold GatewayCompletion.fallback gate
  rw [hinput, houtput]
  rfl

namespace StatsState

/-! ### Sums over the day -/

def scanned (s : StatsState) (e : EventRecord) : RollupTotals := if s.orphaned e then 0 else s.rawContribution e

theorem rawContribution_of_not_relevant (h : relevant e = false) : s.rawContribution e = 0 := by
  unfold relevant at h
  simp only [Bool.or_eq_false_iff, decide_eq_false_iff_not] at h
  unfold rawContribution
  rw [if_neg h.1.1, if_neg h.1.2, if_neg h.2]

theorem sum_by_type (f : EventRecord → RollupTotals) (l : List EventRecord)
    (h : ∀ e ∈ l, relevant e = false → f e = 0) :
    (l.map f).sum = ((l.filter fun e => e.type = js "dispatch").map f).sum +
      ((l.filter fun e => e.type = js "turn_usage").map f).sum +
        ((l.filter fun e => e.type = js "gateway.request.completed").map f).sum := by
  induction l with
  | nil => simp
  | cons e l ih =>
    rw [map_cons, sum_cons, ih fun e' he' => h e' (mem_cons_of_mem _ he'), filter_cons, filter_cons,
      filter_cons]
    by_cases hd : e.type = js "dispatch"
    · rw [if_pos (decide_eq_true hd), hd, if_neg (by decide), if_neg (by decide), map_cons, sum_cons, add_assoc,
        add_assoc, add_assoc]
    rw [if_neg (by simpa using hd)]
    by_cases hu : e.type = js "turn_usage"
    · rw [if_pos (decide_eq_true hu), hu, if_neg (by decide), map_cons, sum_cons]
      abel
    rw [if_neg (by simpa using hu)]
    by_cases hg : e.type = js "gateway.request.completed"
    · rw [if_pos (decide_eq_true hg), map_cons, sum_cons]
      abel
    · rw [if_neg (by simpa using hg), h e (mem_cons_self ..) (by simp [relevant, hd, hu, hg]), zero_add]

theorem scanned_completion (h : s.History) (he : e ∈ s.events) (hg : e.type = js "gateway.request.completed") :
    ((gatewayCompletion e.data).map fun c =>
        ((s.taskByExec c.1).map fun run => c.2.fallback (s.readDirtyRunFlags run)).getD 0).getD 0 = s.scanned e := by
  obtain ⟨eventId, severity, data, hdata⟩ := h.enveloped e he hg
  have hrun : s.runOf e = ((text? (data.get (js "executionId"))).map trim).bind s.taskByExec := by
    rw [h.runOf_completion he hg, hdata]
    show ((text? (data.get (js "executionId"))).bind fun id => some (trim id)).bind _ = _
    rw [Option.map_eq_bind]
    rfl
  have hraw : s.rawContribution e =
      (0, (gate ((s.runOf e).map s.readDirtyRunFlags) (candidatePartitions e.data)).1 +
        (gate ((s.runOf e).map s.readDirtyRunFlags) (candidatePartitions e.data)).2.1,
        (gate ((s.runOf e).map s.readDirtyRunFlags) (candidatePartitions e.data)).2.2) := by
    unfold rawContribution
    rw [hg, if_neg (by decide), if_neg (by decide), if_pos rfl]
  unfold scanned orphaned
  rw [hraw, hdata, gatewayCompletion_foremanEnvelope, candidatePartitions_foremanEnvelope, hrun, decide_eq_true hg,
    Bool.true_and]
  by_cases hstatus : number? (data.get (js "status")) ≠ some 200
  · rw [if_pos hstatus, if_pos hstatus, gate_zero, Prod.fst_zero, Prod.snd_zero, Prod.fst_zero,
      Prod.snd_zero, add_zero]
    exact (ite_self _).symm
  rw [if_neg hstatus, if_neg hstatus]
  cases ht : text? (data.get (js "executionId")) with
  | none => rfl
  | some id =>
    rw [Option.map_some, Option.map_some, Option.map_some, Option.bind_some, Option.getD_some]
    cases htask : s.taskByExec (trim id) with
    | none => rfl
    | some run =>
      rw [Option.map_some, Option.map_some, Option.getD_some, fallback_eq]
      rfl

theorem scanned_of_type (hg : e.type ≠ js "gateway.request.completed") : s.scanned e = s.rawContribution e := by
  unfold scanned orphaned
  rw [decide_eq_false hg, Bool.false_and, if_neg Bool.false_ne_true]

variable (l : List EventRecord)

theorem sum_dispatch (hl : ∀ e ∈ l, e.type = js "dispatch") :
    (l.map s.scanned).sum = ((l.length : ℚ), 0, 0) := by
  have hconst : l.map s.scanned = l.map fun _ => ((1, 0, 0) : RollupTotals) := by
    apply map_congr_left
    intro e he
    rw [scanned_of_type (by rw [hl e he]; decide)]
    exact if_pos (hl e he)
  rw [hconst, map_const', sum_replicate]
  simp

theorem sum_usage (hl : ∀ e ∈ l, e.type = js "turn_usage") :
    ((l.filterMap fun e => usageRecord e.data).map fun record =>
      ((0, fullInputTokens record, nonNegativeNumber (record.get (js "output_tokens"))) : RollupTotals)).sum =
      (l.map s.scanned).sum := by
  rw [OMap.sum_filterMap]
  congr 1
  apply map_congr_left
  intro e he
  rw [scanned_of_type (by rw [hl e he]; decide)]
  unfold rawContribution usagePartitions
  rw [hl e he, if_neg (by decide), if_pos rfl]
  cases usageRecord e.data with
  | none =>
    show (0 : RollupTotals) = (0, 0 + 0, 0)
    rw [add_zero]
    rfl
  | some record => rfl

theorem sum_completions (h : s.History) (l : List EventRecord)
    (hl : ∀ e ∈ l, e ∈ s.events ∧ e.type = js "gateway.request.completed") :
    OMap.total (fun _ => true) (s.fallbackByRun l) = (l.map s.scanned).sum := by
  have hfold : OMap.total (fun _ => true) (s.fallbackByRun l) = _ :=
    OMap.total_foldl_addAt (fun _ => true) (fun run : JsString × List GatewayCompletion => run.1)
      (fun run => (run.2.map (GatewayCompletion.fallback (s.readDirtyRunFlags run.1))).sum) _ []
  have hzero : OMap.total (fun _ : JsString => true) ([] : OMap JsString RollupTotals) = 0 := rfl
  rw [hfold, hzero, zero_add, filter_true, OMap.sum_filterMap]
  have hcell : ∀ execution : JsString × List GatewayCompletion,
      (((s.taskByExec execution.1).map fun run => (run, execution.2)).map fun run =>
          (run.2.map (GatewayCompletion.fallback (s.readDirtyRunFlags run.1))).sum).getD 0 =
        (execution.2.map fun c =>
          ((s.taskByExec execution.1).map fun run => c.fallback (s.readDirtyRunFlags run)).getD 0).sum := by
    intro execution
    cases s.taskByExec execution.1 with
    | none => simp
    | some run => rfl
  rw [map_congr_left fun execution _ => hcell execution,
    OMap.sum_collect fun id (c : GatewayCompletion) =>
      ((s.taskByExec id).map fun run => c.fallback (s.readDirtyRunFlags run)).getD 0, OMap.sum_filterMap]
  congr 1
  apply map_congr_left
  intro e he
  exact scanned_completion h (hl e he).1 (hl e he).2

/-- The scan counts the events of the day, except the completions without a known run. -/
theorem readTodayStats_eq (h : s.History) (now : Int) :
    s.readTodayStats cal now = ((s.events.filter (onDay cal now)).map s.scanned).sum := by
  have hmem : ∀ (type : JsString), ∀ e ∈ (s.events.filter (onDay cal now)).filter (fun e => e.type = type),
      e ∈ s.events ∧ e.type = type := by
    intro type e he
    obtain ⟨he, htype⟩ := mem_filter.mp he
    exact ⟨mem_of_mem_filter he, of_decide_eq_true htype⟩
  rw [sum_by_type s.scanned]
  · unfold readTodayStats
    rw [todayRows_eq, todayRows_eq, todayRows_eq, sum_dispatch _ fun e he => (hmem _ e he).2,
      ← sum_usage _ fun e he => (hmem _ e he).2, ← sum_completions h _ (hmem _)]
  · intro e _ hr
    unfold scanned
    rw [rawContribution_of_not_relevant hr, ite_self]

theorem rawContribution_fst (hd : e.type ≠ js "dispatch") : (s.rawContribution e).1 = 0 := by
  unfold rawContribution
  rw [if_neg hd]
  split
  · rfl
  · split <;> rfl

/-- The bucket of a day in a fresh state has what its events contribute. -/
theorem bucketOf_eq (h : s.Consistent cal) (hpending : s.pendingEvents = []) (hclean : s.dirtyRuns = []) (now : Int) :
    s.bucketOf (cal.localDayKeyOf now) = ((s.events.filter (onDay cal now)).map s.rawContribution).sum := by
  have hday : s.rollupOfDay (cal.localDayKeyOf now) =
      ((s.events.filter (onDay cal now)).map s.rawContribution).sum := by
    have htotal := h.total_eq hclean fun dayKey _ => dayKey = cal.localDayKeyOf now
    unfold rollupOfDay
    rw [htotal, drained_of_no_pending hpending, filter_filter]
    have hcomm : (s.events.filter fun e => decide (cal.localDayKeyOf e.createdAt = cal.localDayKeyOf now) &&
        relevant e) =
        (s.events.filter (onDay cal now)).filter relevant := by
      rw [filter_filter]
      exact filter_congr fun e _ => Bool.and_comm ..
    rw [hcomm, OMap.sum_filter fun e _ hr => rawContribution_of_not_relevant hr]
  have hfirst : (OMap.total (fun key => key.dayKey = cal.localDayKeyOf now && key.type = js "dispatch") s.rollup).1 =
      (s.rollupOfDay (cal.localDayKeyOf now)).1 := by
    have hdispatch := h.total_eq hclean fun dayKey type => dayKey = cal.localDayKeyOf now && type = js "dispatch"
    have hall := h.total_eq hclean fun dayKey _ => dayKey = cal.localDayKeyOf now
    unfold rollupOfDay
    rw [hdispatch, hall]
    have hfst : ∀ l : List EventRecord, (l.map s.rawContribution).sum.1 =
        (l.map fun e => (s.rawContribution e).1).sum := by
      intro l
      have := map_list_sum (AddMonoidHom.fst ℚ (ℚ × ℚ)) (l.map s.rawContribution)
      rw [map_map] at this
      exact this
    have hsplit : (s.drained.filter fun e => decide (cal.localDayKeyOf e.createdAt = cal.localDayKeyOf now) &&
        decide (e.type = js "dispatch")) =
        (s.drained.filter fun e => decide (cal.localDayKeyOf e.createdAt = cal.localDayKeyOf now)).filter fun e =>
          decide (e.type = js "dispatch") := by
      rw [filter_filter]
      exact filter_congr fun e _ => Bool.and_comm ..
    rw [hfst, hfst, hsplit, OMap.sum_filter fun e _ hd => rawContribution_fst (of_decide_eq_false hd)]
  unfold bucketOf
  rw [hfirst, hday]

/-- What the scan leaves out. -/
theorem sum_rawContribution :
    (l.map s.rawContribution).sum = (l.map s.scanned).sum + ((l.filter s.orphaned).map s.rawContribution).sum := by
  induction l with
  | nil => simp
  | cons e l ih =>
    rw [map_cons, sum_cons, map_cons, sum_cons, ih, filter_cons]
    unfold scanned
    by_cases ho : s.orphaned e = true
    · rw [if_pos ho, if_pos ho, map_cons, sum_cons, zero_add, add_left_comm]
    · rw [if_neg ho, if_neg ho, add_assoc]

theorem rawContribution_orphaned (ho : s.orphaned e = true) : s.rawContribution e =
    (0, (candidatePartitions e.data).1 + (candidatePartitions e.data).2.1, (candidatePartitions e.data).2.2) := by
  unfold orphaned at ho
  rw [Bool.and_eq_true, decide_eq_true_eq, Option.isNone_iff_eq_none] at ho
  unfold rawContribution
  rw [ho.1, if_neg (by decide), if_neg (by decide), if_pos rfl, ho.2]
  rfl

theorem rawContribution_orphaned_iff (ho : s.orphaned e = true) :
    s.rawContribution e = 0 ↔ candidatePartitions e.data = 0 := by
  rw [rawContribution_orphaned ho]
  obtain ⟨h1, h2, h3⟩ := candidatePartitions_nonneg e.data
  constructor
  · intro h
    have hsum : (candidatePartitions e.data).1 + (candidatePartitions e.data).2.1 = 0 := congrArg (·.2.1) h
    have hout : (candidatePartitions e.data).2.2 = 0 := congrArg (·.2.2) h
    obtain ⟨hi, hc⟩ := (add_eq_zero_iff_of_nonneg h1 h2).mp hsum
    exact Prod.ext hi (Prod.ext hc hout)
  · intro h
    rw [h, Prod.fst_zero, Prod.snd_zero, Prod.fst_zero, Prod.snd_zero, add_zero]
    rfl

theorem sum_orphaned_iff : ((l.filter s.orphaned).map s.rawContribution).sum = 0 ↔
    ∀ e ∈ l, s.orphaned e = true → candidatePartitions e.data = 0 := by
  constructor
  · intro h e he ho
    have hmem : s.rawContribution e ∈ (l.filter s.orphaned).map s.rawContribution :=
      mem_map_of_mem (mem_filter.mpr ⟨he, ho⟩)
    refine (rawContribution_orphaned_iff ho).mp (all_zero_of_le_zero_le_of_sum_eq_zero ?_ h hmem)
    intro x hx
    obtain ⟨e', he', rfl⟩ := mem_map.mp hx
    rw [rawContribution_orphaned (mem_filter.mp he').2]
    obtain ⟨h1, h2, h3⟩ := candidatePartitions_nonneg e'.data
    exact ⟨le_refl _, add_nonneg h1 h2, h3⟩
  · intro h
    have hnone : (l.filter s.orphaned).map s.rawContribution = (l.filter s.orphaned).map fun _ => 0 := by
      apply map_congr_left
      intro e he
      obtain ⟨he, ho⟩ := mem_filter.mp he
      exact (rawContribution_orphaned_iff ho).mpr (h e he ho)
    rw [hnone]
    simp

def SameHistory (s s' : StatsState) : Prop := s'.events = s.events ∧ s'.executions = s.executions

theorem sameHistory_foldl {α : Type} {f : StatsState → α → StatsState} (h : ∀ s a, SameHistory s (f s a)) (l : List α)
    (s : StatsState) : SameHistory s (l.foldl f s) := by
  induction l generalizing s with
  | nil => exact ⟨rfl, rfl⟩
  | cons a l ih => exact ⟨(ih (f s a)).1.trans (h s a).1, (ih (f s a)).2.trans (h s a).2⟩

theorem sameHistory_addInterval (s : StatsState) (t : TaskRow) : SameHistory s (s.addInterval cal t) := by
  unfold addInterval
  cases t.endedAt <;> exact ⟨rfl, rfl⟩

theorem sameHistory_drainDeferredDay (s : StatsState) (dayKey : JsString) :
    SameHistory s (s.drainDeferredDay cal dayKey) := by
  unfold drainDeferredDay
  split <;> exact ⟨rfl, rfl⟩

theorem sameHistory_sealDay (s : StatsState) (dayKey : JsString) : SameHistory s (s.sealDay cal dayKey) := by
  unfold sealDay
  split <;> exact ⟨rfl, rfl⟩

theorem SameHistory.trans {s' s'' : StatsState} (h : SameHistory s s') (h' : SameHistory s' s'') :
    SameHistory s s'' :=
  ⟨h'.1.trans h.1, h'.2.trans h.2⟩

theorem sameHistory_drain (s : StatsState) : SameHistory s (s.drainStatsProjection cal) := by
  have hevents : ∀ s : StatsState, SameHistory s (s.drainStatsProjectionEvents cal 512) :=
    fun s => sameHistory_foldl (f := applyEvent cal) (fun _ _ => ⟨rfl, rfl⟩) _ s
  have hruns : ∀ s : StatsState, SameHistory s (s.drainStatsProjectionRuns 64) :=
    fun s => sameHistory_foldl (f := reconcileRun) (fun _ _ => ⟨rfl, rfl⟩) _ s
  have hintervals : ∀ s : StatsState, SameHistory s (s.drainStatsProjectionTaskIntervals cal 256) :=
    fun s => sameHistory_foldl sameHistory_addInterval _ s
  have hdirty : ∀ s : StatsState, SameHistory s (s.drainStatsDirtySealedDays cal 32) :=
    fun s => sameHistory_foldl (f := drainDirtyDay cal) (fun _ _ => ⟨rfl, rfl⟩) _ s
  have hdeferred : ∀ s : StatsState, SameHistory s (s.drainStatsDeferredSealedDays cal 32) :=
    fun s => sameHistory_foldl sameHistory_drainDeferredDay _ s
  exact (hevents s).trans ((hruns _).trans ((hintervals _).trans ((hdirty _).trans (hdeferred _))))

theorem Consistent.drain (h : s.Consistent cal) : (s.drainStatsProjection cal).Consistent cal := by
  have h1 := h.step (a := .drainEvents 512) rfl
  have h2 := h1.step (a := .drainRuns 64) rfl
  have h3 := h2.step (a := .drainTaskIntervals 256) rfl
  have h4 := h3.step (a := .drainDirtyDays 32) rfl
  exact h4.step (a := .drainDeferredDays 32) rfl

theorem SameHistory.readTodayStats {s' : StatsState} (h : SameHistory s s') (now : Int) :
    s'.readTodayStats cal now = s.readTodayStats cal now := by
  unfold StatsState.readTodayStats fallbackByRun readDirtyRunFlags runUsage taskByExec todayRows
  rw [h.1, h.2]

theorem SameHistory.orphaned {s' : StatsState} (h : SameHistory s s') : s'.orphaned e = s.orphaned e := by
  unfold StatsState.orphaned runOf taskByExec
  rw [h.2]

/-- The entry of today of a fresh summary is that of the scan exactly when no completion of the day without a known
task run reports tokens. -/
theorem today_agrees_iff (cal : Calendar) (s : StatsState) (now : Int) (missing : List Int) (today : RollupTotals)
    (hs : s.Reached cal) (htoday : s.readStatsSummaryToday cal now missing = some today) : today =
    s.readTodayStats cal now ↔ ∀ e ∈ s.events, onDay cal now e = true → s.orphaned e = true →
    candidatePartitions e.data = 0 := by
  unfold readStatsSummaryToday at htoday
  have hsame : SameHistory s ((missing.map cal.localDayKeyOf).foldl (sealDay cal) (s.drainStatsProjection cal)) :=
    (sameHistory_drain s).trans (sameHistory_foldl sameHistory_sealDay _ _)
  have hc : ((missing.map cal.localDayKeyOf).foldl (sealDay cal) (s.drainStatsProjection cal)).Consistent cal :=
    hs.consistent.drain.step (a := .sealDays missing) rfl
  dsimp only at htoday
  split at htoday <;> cases htoday
  rename_i hfresh
  unfold fresh at hfresh
  simp only [Bool.and_eq_true, List.isEmpty_iff] at hfresh
  rw [← hsame.readTodayStats, bucketOf_eq hc hfresh.1.1.1.1 hfresh.1.1.1.2, readTodayStats_eq hc.history,
    sum_rawContribution, add_eq_left, sum_orphaned_iff, hsame.1]
  constructor
  · intro h e he hday ho
    exact h e (List.mem_filter.mpr ⟨he, hday⟩) (hsame.orphaned ▸ ho)
  · intro h e he ho
    obtain ⟨he, hday⟩ := List.mem_filter.mp he
    exact h e he hday (hsame.orphaned ▸ ho)

def oneDay : Calendar where
  localDayKeyOf _ := js "2026-01-01"
  dayWindowFromDayKey _ := some fun _ => true
  window_spec _ := ⟨_, rfl, fun _ => ⟨fun _ => rfl, fun _ => rfl⟩⟩

/-- A completed call with tokens of one kind. -/
def completed (seq : Nat) (id kind : String) (tokens : Nat) (details : OMap JsString Json) : StatsAction :=
  .gatewayCompleted seq 0 (js id) (js "info")
    (details ++ [(js "status", .num (.ofNat 200)), (js "usage", .obj [(js kind, .num (.ofNat tokens))])])

def sessionCall : List StatsAction := [completed 1 "gateway_1" "input" 10 []]

def afterSessionCall : StatsState := (steps (step oneDay) initial sessionCall).getD initial

theorem reached_afterSessionCall : afterSessionCall.Reached oneDay := ⟨sessionCall, run_of_steps (by rfl)⟩

theorem summary_afterSessionCall : readStatsSummaryToday oneDay afterSessionCall 0 [] = some (0, 10, 0) := by
  decide +kernel

/-- The summary counts the tokens of the call, the scan does not. -/
theorem not_today_agrees :
    ¬ ∀ (cal : Calendar) (s : StatsState) (now : Int) (missing : List Int) (today : RollupTotals), s.Reached cal →
    s.readStatsSummaryToday cal now missing = some today → today = s.readTodayStats cal now := by
  intro h
  have := h oneDay afterSessionCall 0 [] (0, 10, 0) reached_afterSessionCall summary_afterSessionCall
  have hscan : afterSessionCall.readTodayStats oneDay 0 = (0, 0, 0) := by decide +kernel
  rw [hscan] at this
  exact absurd this (by decide)

def taskCall : List StatsAction :=
  [.execution ⟨js "exec_1", some (js "task_1"), false, 0, none, none⟩,
    completed 1 "gateway_1" "input" 10 [(js "executionId", .str (js "exec_1"))]]

def afterTaskCall : StatsState := (steps (step oneDay) initial taskCall).getD initial

theorem today_agrees_iff_sessionCall : ((0, 10, 0) : RollupTotals) = afterTaskCall.readTodayStats oneDay 0 ∧
    ¬ ∀ e ∈ afterSessionCall.events, onDay oneDay 0 e = true → afterSessionCall.orphaned e = true →
      candidatePartitions e.data = 0 := by
  have htask := today_agrees_iff oneDay afterTaskCall 0 [] (0, 10, 0) ⟨taskCall, run_of_steps (by rfl)⟩
    (by decide +kernel)
  have hsession := today_agrees_iff oneDay afterSessionCall 0 [] (0, 10, 0) reached_afterSessionCall
    summary_afterSessionCall
  exact ⟨htask.mpr (by decide +kernel), fun h => absurd (hsession.mpr h) (by decide +kernel)⟩

/-- The rows are those of the events up to the watermark and the cells their sums.  When nothing is pending and no run
is dirty, the cells count what the history says. -/
theorem projection_follows_history (cal : Calendar) (s : StatsState) (hs : s.Reached cal) :
    s.rows.map ProjectionRow.toProjectionCore = s.drained.map (s.coreOf cal) ∧
    (∀ p : RollupKey → Bool,
      OMap.total p s.rollup = ((s.rows.filter fun row => p row.key).map fun row => row.contribution).sum) ∧
    (s.pendingEvents = [] → s.dirtyRuns = [] → ∀ q : JsString → JsString → Bool,
      OMap.total (fun key => q key.dayKey key.type) s.rollup =
        (((s.events.filter relevant).filter fun e => q (cal.localDayKeyOf e.createdAt) e.type).map
          s.rawContribution).sum) := by
  have hc := hs.consistent
  refine ⟨hc.projected.rows, hc.projected.rollup, fun hpending hclean q => ?_⟩
  rw [hc.total_eq hclean, drained_of_no_pending hpending]

theorem projection_follows_history_drained : ∃ s : StatsState, s.Reached oneDay ∧ s.rows ≠ [] ∧
    s.rows.map ProjectionRow.toProjectionCore = s.drained.map (s.coreOf oneDay) ∧
    OMap.total (fun key => decide (key.type = js "gateway.request.completed")) s.rollup =
      (((s.events.filter relevant).filter fun e => decide (e.type = js "gateway.request.completed")).map
        s.rawContribution).sum := by
  have hrun : (steps (step oneDay) initial (sessionCall ++ [.drainEvents 1])).any (fun s =>
      s.pendingEvents.isEmpty && s.dirtyRuns.isEmpty && !s.rows.isEmpty) = true := by decide
  rw [Option.any_eq_true] at hrun
  obtain ⟨s, hsteps, hs⟩ := hrun
  simp only [Bool.and_eq_true, List.isEmpty_iff, Bool.not_eq_true', List.isEmpty_eq_false_iff] at hs
  have hreached : s.Reached oneDay := ⟨_, run_of_steps hsteps⟩
  obtain ⟨hrows, -, hcells⟩ := projection_follows_history oneDay s hreached
  exact ⟨s, hreached, hs.2, hrows, hcells hs.1.1 hs.1.2 fun _ type => decide (type = js "gateway.request.completed")⟩

end StatsState

end Wrenyard.Stats
