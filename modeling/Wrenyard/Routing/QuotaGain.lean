import Wrenyard.Routing.QuotaOrder
import Mathlib.Tactic.GCongr

/-!
# More quota left in a window

Raising what is left in one window of a candidate never makes its tier worse (`Gains`).  It lowers its score only
where the window leaves the insufficient band for the middle band of a rolling window, which carries no headroom
(`Dips`).
-/

namespace Wrenyard.Routing

open Js List

def QuotaEvidence.withRemaining (evidence : QuotaEvidence) (q : ℚ) : QuotaEvidence :=
  { evidence with remainingPercent := .finite q }

/-- A window among the constraints of a route. -/
structure WindowIn where
  before : List RequiredQuotaConstraint
  constraint : RequiredQuotaConstraint
  evidence : QuotaEvidence
  after : List RequiredQuotaConstraint

/-- The constraint when `q` percent are left. -/
def WindowIn.left (w : WindowIn) (q : ℚ) : RequiredQuotaConstraint :=
  { w.constraint with evidence := some (w.evidence.withRemaining q) }

def WindowIn.constraints (w : WindowIn) (q : ℚ) : List RequiredQuotaConstraint := w.before ++ w.left q :: w.after

/-- From the insufficient band into the middle band. -/
def Enters (r r' : ℚ) : Prop :=
  r ≤ QUOTA_INSUFFICIENT_REMAINING ∧ QUOTA_INSUFFICIENT_REMAINING < r' ∧ r' < ROLLING_ABUNDANT_REMAINING

/-- The raise takes a rolling window into the middle band. -/
def Dips (evidence : QuotaEvidence) (q q' : ℚ) : Prop :=
  (evidence.replenishmentKind = js "rolling_partial" ∨ evidence.replenishmentKind = js "unknown") ∧
    Enters (q / 100) (q' / 100)

/-- The second state is no worse and, if `keeps`, has no less headroom. -/
structure Gains (keeps : Prop) (s s' : QuotaState) (x x' : Option ℚ) : Prop where
  state : s'.severity ≤ s.severity
  alive : s' ≠ .exhausted
  headroom : keeps → x.getD ZERO_QUOTA_HEADROOM ≤ x'.getD ZERO_QUOTA_HEADROOM

variable {keeps : Prop} {nowMs : Number} {w : WindowIn} {evidence : QuotaEvidence} {q q' : ℚ} {free : Bool}
  {constraints : List RequiredQuotaConstraint}

theorem Gains.refl {s : QuotaState} (h : s ≠ .exhausted) (x : Option ℚ) : Gains keeps s s x x :=
  ⟨le_refl _, h, fun _ => le_refl _⟩

abbrev Gained (keeps : Prop) (m m' : MeasuredAssessment) : Prop := Gains keeps m.state m'.state m.headroom m'.headroom

theorem gained_rejected (code : ConstraintRejectCode) : Gained keeps (rejected code) (rejected code) :=
  .refl (fun h => by cases h) _

theorem gained_ite {p : Prop} [Decidable p] {m m' n n' : MeasuredAssessment} (hpos : p → Gained keeps m m')
    (hneg : ¬ p → Gained keeps n n') : Gained keeps (if p then m else n) (if p then m' else n') := by
  split
  · next h => exact hpos h
  · next h => exact hneg h

theorem gained_rollingBands {r r' : ℚ} (hle : r ≤ r') (hdips : keeps → ¬ Enters r r') :
    Gained keeps (rollingBands r) (rollingBands r') := by
  unfold rollingBands
  unfold Enters at hdips
  unfold QUOTA_INSUFFICIENT_REMAINING ROLLING_ABUNDANT_REMAINING FULL_CYCLE_HEADROOM_WEIGHT at *
  split_ifs
  all_goals
    refine ⟨?_, by simp, fun hkeeps => ?_⟩
    · norm_num [QuotaState.severity] <;> linarith
    · have := hdips hkeeps
      simp only [Option.getD_some, Option.getD_none, ZERO_QUOTA_HEADROOM]
      first | linarith | exact absurd ⟨by assumption, by linarith, by linarith⟩ this

theorem gained_fullCycle {now r r' : ℚ} (hle : r ≤ r') :
    Gained keeps (fullCycle now r evidence) (fullCycle now r' evidence) := by
  unfold fullCycle
  cases evidence.resetAtMs.bind Number.finite? with
  | none => exact gained_rejected _
  | some resetAt =>
    refine gained_ite (fun _ => gained_rejected _) fun _ => ?_
    cases evidence.windowMs.bind Number.finite? with
    | none => exact gained_rejected _
    | some window =>
      refine gained_ite (fun _ => gained_rejected _) fun _ => gained_ite (fun _ => gained_rejected _) fun _ => ?_
      dsimp only
      split_ifs
      all_goals
        refine ⟨?_, by simp, fun _ => ?_⟩
        · norm_num [QuotaState.severity] <;> linarith
        · simp only [Option.getD_some, FULL_CYCLE_HEADROOM_WEIGHT, FULL_CYCLE_RESET_WEIGHT]
          gcongr

theorem gained_window (h0 : 0 < q) (hle : q ≤ q') (h100 : q' ≤ 100) :
    Gained (¬ Dips evidence q q') (measuredWindow nowMs (some (evidence.withRemaining q)))
      (measuredWindow nowMs (some (evidence.withRemaining q'))) := by
  have hr : q / 100 ≤ q' / 100 := by linarith
  have hin {q : ℚ} (h0 : 0 < q) (h100 : q ≤ 100) : ¬ (q < 0 ∨ q > 100) ∧ ¬ q / 100 = 0 :=
    ⟨by rintro (h | h) <;> linarith, by linarith⟩
  obtain ⟨hrange, hzero⟩ := hin h0 (hle.trans h100)
  obtain ⟨hrange', hzero'⟩ := hin (h0.trans_le hle) h100
  simp only [measuredWindow, QuotaEvidence.withRemaining, if_neg hrange, if_neg hzero, if_neg hrange', if_neg hzero',
    Number.finite?]
  cases nowMs with
  | infinite _ | nan => exact gained_rejected _
  | finite now =>
    cases evidence.observedAtMs with
    | infinite _ | nan => exact gained_rejected _
    | finite observedAt =>
      refine gained_ite (fun _ => gained_rejected _) fun _ => ?_
      cases evidence.validForMs with
      | infinite _ | nan => exact gained_rejected _
      | finite validFor =>
        exact gained_ite (fun _ => gained_rejected _) fun _ => gained_ite (fun _ => gained_rejected _) fun _ =>
          gained_ite (fun _ => @gained_fullCycle _ evidence _ _ _ hr) fun _ =>
            gained_ite (fun hkind => gained_rollingBands hr fun hnot hdips => hnot ⟨hkind, hdips⟩) fun _ =>
              gained_rejected _

theorem measured_gained (h0 : 0 ≤ q) (hle : q ≤ q') (h100 : q' ≤ 100)
    (halive : (measuredAssessment nowMs (w.left q)).state ≠ .exhausted) :
    Gained (¬ Dips w.evidence q q') (measuredAssessment nowMs (w.left q))
      (measuredAssessment nowMs (w.left q')) := by
  unfold measuredAssessment at halive
  refine gained_ite (fun hbalance => ?_) fun hwindow => ?_
  · exact .refl (by rwa [if_pos hbalance] at halive) _
  · rw [if_neg hwindow] at halive
    cases nowMs with
    | infinite _ | nan => exact gained_rejected _
    | finite now =>
      refine gained_window (lt_of_le_of_ne h0 fun hq => halive ?_) hle h100
      subst hq
      norm_num [measuredWindow, WindowIn.left, QuotaEvidence.withRemaining, Number.finite?]

theorem constraint_gains (h0 : 0 ≤ q) (hle : q ≤ q') (h100 : q' ≤ 100)
    (halive : stateOf nowMs (w.left q) ≠ .exhausted) :
    Gains (¬ Dips w.evidence q q') (stateOf nowMs (w.left q)) (stateOf nowMs (w.left q'))
      (assessConstraint nowMs (w.left q)).headroom
      (assessConstraint nowMs (w.left q')).headroom := by
  have hstatus : evidenceStatusOf (w.left q') = evidenceStatusOf (w.left q) := rfl
  have hflag (q : ℚ) : (w.left q).observedExhausted = w.constraint.observedExhausted := rfl
  unfold stateOf assessConstraint at *
  simp only [hflag, hstatus] at halive ⊢
  split at halive
  · exact absurd rfl halive
  next hopen =>
  have hgained : (measuredAssessment nowMs (w.left q)).state ≠ .exhausted →
      Gained (¬ Dips w.evidence q q') _ _ := measured_gained h0 hle h100
  rw [if_neg hopen, if_neg hopen]
  split at halive
  · next hdesign =>
    rw [if_pos hdesign, if_pos hdesign]
    split at halive
    · exact absurd rfl halive
    · next hm =>
      rw [if_neg hm, if_neg (hgained hm).alive]
      exact .refl (by simp) _
  · next hdesign =>
    rw [if_neg hdesign, if_neg hdesign]
    exact hgained halive

theorem not_exhausted (halive : (assessRequiredQuota nowMs constraints free).state ≠ .exhausted) :
    .exhausted ∉ constraints.map (stateOf nowMs) := by
  intro hmem
  obtain ⟨c, hc, hstate⟩ := mem_map.1 hmem
  exact halive (state_exhausted hc hstate)

theorem WindowIn.constraints_ne_nil (w : WindowIn) (q : ℚ) : w.constraints q ≠ [] := by simp [constraints]

theorem WindowIn.map_constraints {α : Type} (w : WindowIn) (f : RequiredQuotaConstraint → α) (q : ℚ) :
    (w.constraints q).map f = w.before.map f ++ f (w.left q) :: w.after.map f := List.map_append

/-- Of what is known of the quota, more in one window changes the states and the headroom only. -/
theorem WindowIn.map_status (w : WindowIn) (q q' : ℚ) :
    (w.constraints q).map evidenceStatusOf = (w.constraints q').map evidenceStatusOf := by
  rw [w.map_constraints, w.map_constraints]
  rfl

theorem WindowIn.measuredAt (w : WindowIn) (q q' : ℚ) :
    measuredAtOf nowMs (w.constraints q) = measuredAtOf nowMs (w.constraints q') := by
  unfold measuredAtOf constraints
  rw [foldl_append, foldl_append]
  rfl

theorem status_constraints (h : constraints ≠ []) : (assessRequiredQuota nowMs constraints free).constraints.map
    (·.evidenceStatus) = constraints.map evidenceStatusOf := by
  rw [assessRequiredQuota, if_neg h, map_map]
  exact map_congr_left fun c _ => evidenceStatus_assess c

theorem state_window : (assessRequiredQuota nowMs (w.constraints q) free).state =
    measuredState nowMs (w.constraints q) ((w.constraints q).map (assessConstraint nowMs)) := by
  rw [state_eq (w.constraints_ne_nil q), if_neg fun hfree => ?_]
  cases (hfree.2.2 (w.left q) (by simp [WindowIn.constraints])).1

theorem quota_gains (h0 : 0 ≤ q) (hle : q ≤ q') (h100 : q' ≤ 100)
    (halive : (assessRequiredQuota nowMs (w.constraints q) free).state ≠ .exhausted) :
    let quota := assessRequiredQuota nowMs (w.constraints q) free
    let quota' := assessRequiredQuota nowMs (w.constraints q') free
    Gains (¬ Dips w.evidence q q') quota.state quota'.state quota.headroom quota'.headroom := by
  have hnone := not_exhausted halive
  rw [w.map_constraints, mem_append, mem_cons, not_or, not_or] at hnone
  have hgains := constraint_gains h0 hle h100 (Ne.symm hnone.2.1)
  have hnone' : .exhausted ∉ (w.constraints q').map (stateOf nowMs) := by
    rw [w.map_constraints, mem_append, mem_cons, not_or, not_or]
    exact ⟨hnone.1, Ne.symm hgains.alive, hnone.2.2⟩
  have halive' : (assessRequiredQuota nowMs (w.constraints q') free).state ≠ .exhausted := by
    rw [state_window, ne_eq, measuredState_exhausted_iff]
    exact hnone'
  refine ⟨?_, halive', fun hkeeps => ?_⟩
  · have hsome (q : ℚ) : SomeNotObtained (w.constraints q) ↔ .notObtained ∈ (w.constraints q).map evidenceStatusOf :=
      mem_map.symm
    rw [state_window, state_window, measuredState_eq, measuredState_eq, hsome, hsome, w.map_status q q']
    unfold InGrace
    rw [w.measuredAt q q']
    split
    · next hlost => rw [if_pos ⟨hlost.1, not_exhausted halive, hlost.2.2⟩]
    next hkept =>
    rw [if_neg fun hlost => hkept ⟨hlost.1, hnone', hlost.2.2⟩]
    refine worstState_le fun s hs => ?_
    have hle {s : QuotaState} := @le_worstState ((w.constraints q).map (stateOf nowMs)) s
    rw [w.map_constraints] at hs hle ⊢
    simp only [mem_append, mem_cons] at hs hle
    rcases hs with hs | rfl | hs
    · exact hle (.inl hs)
    · exact hgains.state.trans (hle (.inr (.inl rfl)))
    · exact hle (.inr (.inr hs))
  · unfold assessRequiredQuota at halive halive' ⊢
    simp only [if_neg (w.constraints_ne_nil _)] at halive halive' ⊢
    rw [if_neg halive, if_neg halive']
    simp only [w.map_constraints, map_append, map_cons, sum_append, sum_cons, length_append,
      length_cons, length_map, Option.getD_some]
    gcongr
    exact hgains.headroom hkeeps

theorem assess_of_quota {quota quota' : QuotaAssessment}
    (h : quota.constraints.map (·.evidenceStatus) = quota'.constraints.map (·.evidenceStatus))
    (marginalPrice : Option MarginalPriceEvidence) (free : Option ConfirmedFreeSupplyEvidence)
    (now timeout reference rate cap : ℚ) :
    SupplyEvidencePolicy.assess marginalPrice free now timeout reference rate cap quota' =
      (SupplyEvidencePolicy.assess marginalPrice free now timeout reference rate cap quota).map fun supply =>
        { supply with
          headroom :=
            if supply.confirmedFreeSupplyApplied && (quota.constraints.map (·.evidenceStatus) != [] &&
              (quota.constraints.map (·.evidenceStatus)).all (· != .measured)) then 1
            else quota'.headroom.getD ZERO_QUOTA_HEADROOM } := by
  have hmissing (quota : QuotaAssessment) : (decide (quota.constraints ≠ []) &&
      quota.constraints.all fun constraint => constraint.evidenceStatus != .measured) =
      (quota.constraints.map (·.evidenceStatus) != [] &&
        (quota.constraints.map (·.evidenceStatus)).all (· != .measured)) := by
    rw [all_map]
    cases quota.constraints <;> rfl
  unfold SupplyEvidencePolicy.assess
  rw [hmissing quota, hmissing quota', ← h]
  cases freeSupply now timeout free with
  | mk freeNotes freeEvidence =>
    dsimp only
    split
    · split <;> rfl
    cases marginalSupply now timeout reference marginalPrice with
    | error rejection => rfl
    | ok marginal =>
      split <;> rfl

theorem supply_gains {quota quota' : QuotaAssessment} {marginalPrice : Option MarginalPriceEvidence}
    {free : Option ConfirmedFreeSupplyEvidence} {now timeout reference rate cap : ℚ} {supply : SupplyAssessment}
    (hstatus : quota.constraints.map (·.evidenceStatus) = quota'.constraints.map (·.evidenceStatus))
    (hgains : Gains keeps quota.state quota'.state quota.headroom quota'.headroom)
    (h : SupplyEvidencePolicy.assess marginalPrice free now timeout reference rate cap quota = .ok supply) :
    ∃ headroom, SupplyEvidencePolicy.assess marginalPrice free now timeout reference rate cap quota' =
      .ok { supply with headroom := headroom } ∧ (keeps → supply.headroom ≤ headroom) := by
  have hself := @assess_of_quota quota quota rfl marginalPrice free now timeout reference rate cap
  have hmore := assess_of_quota hstatus marginalPrice free now timeout reference rate cap
  rw [h] at hself hmore
  refine ⟨_, hmore, fun hkeeps => (congrArg SupplyAssessment.headroom (Except.ok.inj hself)).trans_le ?_⟩
  dsimp only
  split
  · exact le_refl _
  · exact hgains.headroom hkeeps

def CandidateInput.withQuota (input : CandidateInput) (requiredQuota : List RequiredQuotaConstraint) :
    CandidateInput :=
  { input with requiredQuota := requiredQuota }

theorem clamp01_mono {x y : ℚ} (h : x ≤ y) : clamp01 x ≤ clamp01 y := by
  unfold clamp01
  split_ifs <;> linarith

/-- `a'` is the same candidate with no worse tier and, if `keeps`, no lower score. -/
structure Improves (keeps : Prop) (a a' : CandidateAssessment) : Prop where
  canonicalId : a'.canonicalId = a.canonicalId
  snapshotId : a'.snapshotId = a.snapshotId
  tier : a'.tier.severity ≤ a.tier.severity
  score : keeps → a.score ≤ a'.score

variable {input : CandidateInput} {weights : ScoreWeights} {a a' : CandidateAssessment}

theorem evaluate_improves (h0 : 0 ≤ q) (hle : q ≤ q') (h100 : q' ≤ 100)
    (h : CandidateEvaluator.evaluate (input.withQuota (w.constraints q)) weights = .ok a) :
    ∃ a', CandidateEvaluator.evaluate (input.withQuota (w.constraints q')) weights = .ok a' ∧
      Improves (¬ Dips w.evidence q q') a a' := by
  unfold CandidateEvaluator.evaluate snapshotCandidate CandidateInput.withQuota at h ⊢
  by_cases hkind : w.constraint.kind = some .balance
  -- the snapshot of a balance has no window
  · have hsame (q : ℚ) : snapshotConstraint (w.left q) = { w.constraint with evidence := none } := if_pos hkind
    simp only [w.map_constraints, hsame] at h ⊢
    exact ⟨a, h, rfl, rfl, le_refl _, fun _ => le_refl _⟩
  obtain ⟨w', hw', hevidence⟩ : ∃ w' : WindowIn, (∀ q, (w.constraints q).map snapshotConstraint = w'.constraints q) ∧
      w'.evidence = w.evidence := by
    refine ⟨⟨w.before.map snapshotConstraint, { w.constraint with kind := none, balance := none }, w.evidence,
      w.after.map snapshotConstraint⟩, fun q => ?_, rfl⟩
    rw [w.map_constraints, show snapshotConstraint (w.left q) = _ from if_neg hkind]
    rfl
  simp only [hw'] at h ⊢
  rw [← hevidence]
  obtain ⟨_, hid, h⟩ := Checks.bind_eq_ok.mp h
  obtain ⟨now, hnow, h⟩ := Checks.bind_eq_ok.mp h
  obtain ⟨timeout, htimeout, h⟩ := Checks.bind_eq_ok.mp h
  obtain ⟨reference, hreference, h⟩ := Checks.bind_eq_ok.mp h
  obtain ⟨rate, hrate, h⟩ := Checks.bind_eq_ok.mp h
  obtain ⟨cap, hcap, h⟩ := Checks.bind_eq_ok.mp h
  obtain ⟨speed, hspeed, h⟩ := Checks.bind_eq_ok.mp h
  obtain ⟨ranks, hranks, h⟩ := Checks.bind_eq_ok.mp h
  split at h
  · cases h
  next halive =>
  obtain ⟨supply, hsupply, h⟩ := Checks.bind_eq_ok.mp h
  have hgains (free : Bool) := @quota_gains _ w' _ _ free h0 hle h100
    (by rw [state_window, ← @state_window _ _ _ false]; exact halive)
  have hstatus : (assessRequiredQuota input.nowMs (w'.constraints q) false).constraints.map (·.evidenceStatus) = _ :=
    (status_constraints (w'.constraints_ne_nil q)).trans (w'.map_status q q')
  obtain ⟨headroom, hsupply', hheadroom⟩ := supply_gains
    (hstatus.trans (status_constraints (w'.constraints_ne_nil q')).symm) (hgains false) hsupply
  cases h
  refine ⟨_, Checks.bind_eq_ok.mpr ⟨_, hid, Checks.bind_eq_ok.mpr ⟨_, hnow, Checks.bind_eq_ok.mpr ⟨_, htimeout,
    Checks.bind_eq_ok.mpr ⟨_, hreference, Checks.bind_eq_ok.mpr ⟨_, hrate, Checks.bind_eq_ok.mpr ⟨_, hcap,
    Checks.bind_eq_ok.mpr ⟨_, hspeed, Checks.bind_eq_ok.mpr ⟨_, hranks, (if_neg (hgains false).alive).trans
    (Checks.bind_eq_ok.mpr ⟨_, hsupply', rfl⟩)⟩⟩⟩⟩⟩⟩⟩⟩, rfl, rfl, ?_, fun hkeeps => ?_⟩
  · split
    · exact (hgains true).state
    · exact (hgains false).state
  · have hquality := mul_le_mul_of_nonneg_left (clamp01_mono (hheadroom hkeeps)) (weights.unit weights.Q (by simp)).1
    unfold CandidateScorer.score
    linarith

theorem Improves.compare_le (h : Improves keeps a a') (hwhen : keeps ∨ a'.tier ≠ a.tier) :
    compareRanked a' a ≤ 0 := by
  have hrefl (s : JsString) : compareLex s s ≤ 0 := by
    rw [compareLex, if_neg (List.lt_irrefl s), if_neg (List.lt_irrefl s)]
  have htier := h.tier
  unfold compareRanked Comparator.then_
  simp only [h.canonicalId, h.snapshotId]
  split_ifs with hsame
  · exact hrefl _
  · exact hrefl _
  · linarith [h.score (hwhen.resolve_right fun hne => hne (QuotaState.severity_inj (sub_eq_zero.mp hsame)))]
  · linarith

/-- **More quota in a window** makes no tier worse.  It lowers no score, unless the raise takes a rolling window into
its middle band; and unless it does so within one tier, the candidate stays ahead of those it preceded, in the ranked
list too. -/
theorem more_quota (h0 : 0 ≤ q) (hle : q ≤ q') (h100 : q' ≤ 100)
    (h : CandidateEvaluator.evaluate (input.withQuota (w.constraints q)) weights = .ok a) :
    ∃ a', CandidateEvaluator.evaluate (input.withQuota (w.constraints q')) weights = .ok a' ∧
      a'.tier.severity ≤ a.tier.severity ∧ (¬ Dips w.evidence q q' → a.score ≤ a'.score) ∧
      (¬ Dips w.evidence q q' ∨ a'.tier ≠ a.tier →
        (∀ b, compareRanked a b < 0 → compareRanked a' b < 0) ∧
        -- so it does in the list that the router sorts
        ∀ before after b, b.canonicalId ≠ a.canonicalId →
          [a, b].Sublist (Comparator.sort compareRanked (before ++ a :: after)) →
          [a', b].Sublist (Comparator.sort compareRanked (before ++ a' :: after))) := by
  obtain ⟨a', ha', himproves⟩ := evaluate_improves h0 hle h100 h
  refine ⟨a', ha', himproves.tier, himproves.score, fun hwhen => ?_⟩
  have hstays : ∀ b, compareRanked a b < 0 → compareRanked a' b < 0 := by
    intro b hahead
    by_contra hbehind
    have hb := (lawful_compareRanked.swap b a').mpr (not_lt.mp hbehind)
    have hba := lawful_compareRanked.trans b a' a hb (himproves.compare_le hwhen)
    exact hahead.not_ge ((lawful_compareRanked.swap b a).mp hba)
  refine ⟨hstays, fun before after b hne hsub => ?_⟩
  have hsorted := (Comparator.pairwise_sort lawful_compareRanked (before ++ a :: after)).sublist hsub
  have hle : compareRanked a b ≤ 0 := by simpa using hsorted
  have hahead := lt_of_le_of_ne hle fun h0 => hne (canonicalId_of_compareRanked h0).symm
  have hmem : b ∈ before ++ a :: after := Comparator.mem_sort.mp (hsub.subset (by simp))
  have hother : b ∈ before ++ a' :: after := by
    rcases List.mem_append.mp hmem with hbefore | hrest
    · exact List.mem_append_left _ hbefore
    · rcases List.mem_cons.mp hrest with rfl | hafter
      · exact absurd rfl hne
      · exact List.mem_append_right _ (List.mem_cons_of_mem _ hafter)
  exact Comparator.sublist_sort_of_neg lawful_compareRanked (by simp) hother (hstays b hahead)

/-- A rolling window beside one of which 5 percent are left. -/
def sampleWindow : WindowIn :=
  let low : QuotaEvidence := ⟨.finite 5, .finite 0, .finite 1, js "rolling_partial", none, none⟩
  ⟨[], fullWindow, low, [{ fullWindow with evidence := some low }]⟩

def sampleAssessed (q : ℚ) : Except Rejection CandidateAssessment :=
  CandidateEvaluator.evaluate (CandidateInput.withQuota ⟨js "s", js "c", .finite 0, .finite 0, none,
    .finite 0, .finite 1,
    .finite 0, .finite 0, none, .finite 0, .finite 0, none, [], none, none⟩ (sampleWindow.constraints q))
    ⟨4 / 10, 3 / 10, 2 / 10, 1 / 10, by norm_num, by norm_num [SCORE_WEIGHTS_SUM_TOLERANCE]⟩

def sampleScore (q : ℚ) : Option (QuotaState × ℚ) := (sampleAssessed q).toOption.map fun a => (a.tier, a.score)

theorem more_quota_sample : ∃ a a', sampleAssessed 10 = .ok a ∧ sampleAssessed 80 = .ok a' ∧
    a'.tier.severity ≤ a.tier.severity ∧ a.score ≤ a'.score ∧ ∀ b, b.canonicalId ≠ a.canonicalId →
      [a, b].Sublist (Comparator.sort compareRanked [b, a]) →
      [a', b].Sublist (Comparator.sort compareRanked [b, a']) := by
  cases ha : sampleAssessed 10 with
  | error _ =>
    have hsome : (sampleAssessed 10).toOption.isSome = true := by decide +kernel
    rw [ha] at hsome
    cases hsome
  | ok a =>
    obtain ⟨a', ha', htier, hscore, hranked⟩ := @more_quota _ _ 80 _ _ _ (by norm_num) (by norm_num) (by norm_num) ha
    have hkeeps : ¬ Dips sampleWindow.evidence 10 80 := fun hdips => by
      norm_num [Dips, Enters, ROLLING_ABUNDANT_REMAINING] at hdips
    exact ⟨a, a', rfl, ha', htier, hscore hkeeps, fun b => (hranked (.inl hkeeps)).2 [b] [] b⟩

/-- From 10 to 20 percent the score falls within the tier that the other window keeps. -/
theorem not_more_quota : ∃ low high, sampleScore 10 = some (.insufficient, high) ∧
    sampleScore 20 = some (.insufficient, low) ∧ low < high :=
  ⟨161 / 400, 163 / 400, by decide +kernel, by decide +kernel, by norm_num⟩

end Wrenyard.Routing
