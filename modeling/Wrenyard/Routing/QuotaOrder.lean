import Mathlib.Tactic.Linarith
import Wrenyard.Routing.Ranking

/-!
# The order of quota states

The state of a route is the worst of its constraints, but for three rules that are about all of them: a reading that
was not obtained keeps the last state for a grace period that the newest observation of any constraint renews, a route
without constraints is sufficient, and a free route without evidence is abundant.  Apart from a renewed grace period,
a further constraint makes no route with constraints better (`quota_worsens`).
-/

namespace Wrenyard.Routing

open Js

variable {nowMs : Number} {constraints others : List RequiredQuotaConstraint} {free : Bool}

theorem QuotaState.severity_inj {s t : QuotaState} (h : s.severity = t.severity) : s = t := by
  cases s <;> cases t <;> first | rfl | (norm_num [severity] at h)

theorem QuotaState.severity_le (s : QuotaState) : 0 ≤ s.severity ∧ s.severity ≤ 3 := by
  cases s <;> norm_num [severity]

theorem QuotaState.le_insufficient {s : QuotaState} (h : s ≠ .exhausted) :
    s.severity ≤ QuotaState.insufficient.severity := by
  cases s <;> first | exact absurd rfl h | norm_num [severity]

private theorem foldl_worst (states : List QuotaState) (worst : QuotaState) :
    let r := states.foldl (fun worst state => if state.severity > worst.severity then state else worst) worst
    worst.severity ≤ r.severity ∧ (∀ s ∈ states, s.severity ≤ r.severity) ∧ (r = worst ∨ r ∈ states) := by
  induction states generalizing worst with
  | nil => exact ⟨le_refl _, by simp, Or.inl rfl⟩
  | cons s states ih =>
    obtain ⟨hworst, hall, hmem⟩ := ih (if s.severity > worst.severity then s else worst)
    simp only [List.foldl_cons, List.mem_cons, forall_eq_or_imp]
    split at hworst
    · rename_i hlt
      rw [if_pos hlt] at hall hmem ⊢
      exact ⟨hlt.le.trans hworst, ⟨hworst, hall⟩, Or.inr hmem⟩
    · rename_i hle
      rw [if_neg hle] at hall hmem ⊢
      exact ⟨hworst, ⟨(not_lt.mp hle).trans hworst, hall⟩, hmem.imp_right Or.inr⟩

variable {states : List QuotaState}

theorem le_worstState {s : QuotaState} (h : s ∈ states) :
    s.severity ≤ (worstState states).severity := (foldl_worst states .abundant).2.1 s h

theorem worstState_le {t : QuotaState} (h : ∀ s ∈ states, s.severity ≤ t.severity) :
    (worstState states).severity ≤ t.severity := by
  rcases (foldl_worst states .abundant).2.2 with heq | hmem
  · rw [worstState, heq]
    exact t.severity_le.1
  · exact h _ hmem

theorem worstState_exhausted (h : QuotaState.exhausted ∈ states) :
    worstState states = .exhausted :=
  QuotaState.severity_inj (le_antisymm (QuotaState.severity_le _).2 (le_worstState h))

theorem worstState_ne_exhausted (h : QuotaState.exhausted ∉ states) :
    worstState states ≠ .exhausted := by
  intro heq
  rcases (foldl_worst states .abundant).2.2 with hnil | hmem
  · rw [worstState, hnil] at heq
    cases heq
  · rw [worstState] at heq
    rw [heq] at hmem
    exact h hmem

def usable (nowMs : Number) (constraint : RequiredQuotaConstraint) : Option ℚ :=
  (observedAtOf constraint).filter fun observedAt => (Number.finite observedAt).le nowMs

private theorem foldl_measuredAt (constraints : List RequiredQuotaConstraint) (measuredAt : Option ℚ) :
    let r := constraints.foldl (fun measuredAt constraint =>
      match observedAtOf constraint with
      | none => measuredAt
      | some observedAt =>
        if (Number.finite observedAt).le nowMs && measuredAt.all fun at_ => decide (observedAt > at_)
          then some observedAt
        else measuredAt) measuredAt
    (∀ x ∈ measuredAt, ∃ m ∈ r, x ≤ m) ∧ (∀ c ∈ constraints, ∀ x ∈ usable nowMs c, ∃ m ∈ r, x ≤ m) ∧
      ∀ m ∈ r, m ∈ measuredAt ∨ ∃ c ∈ constraints, m ∈ usable nowMs c := by
  induction constraints generalizing measuredAt with
  | nil => exact ⟨fun x hx => ⟨x, hx, le_refl x⟩, by simp, fun m hm => Or.inl hm⟩
  | cons c constraints ih =>
    simp only [List.foldl_cons, List.mem_cons, forall_eq_or_imp, exists_eq_or_imp]
    cases hobs : observedAtOf c with
    | none =>
      obtain ⟨hacc, hall, hmem⟩ := ih measuredAt
      exact ⟨hacc, ⟨by simp [usable, hobs], hall⟩, fun m hm => (hmem m hm).imp_right Or.inr⟩
    | some observedAt =>
      dsimp only
      split
      · rename_i hnew
        simp only [Bool.and_eq_true, Option.all_eq_true, decide_eq_true_eq] at hnew
        obtain ⟨hacc, hall, hmem⟩ := ih (some observedAt)
        obtain ⟨m, hm, hle⟩ := hacc observedAt rfl
        have husable : usable nowMs c = some observedAt := by simp [usable, hobs, hnew.1]
        refine ⟨fun x hx => ⟨m, hm, (hnew.2 x hx).le.trans hle⟩, ⟨fun x hx => ?_, hall⟩, fun m' hm' => ?_⟩
        · rw [husable] at hx
          cases hx
          exact ⟨m, hm, hle⟩
        · rcases hmem m' hm' with heq | hin
          · exact Or.inr (Or.inl (husable.trans heq))
          · exact Or.inr (Or.inr hin)
      · rename_i hold
        obtain ⟨hacc, hall, hmem⟩ := ih measuredAt
        refine ⟨hacc, ⟨fun x hx => ?_, hall⟩, fun m hm => (hmem m hm).imp_right Or.inr⟩
        rw [usable, hobs] at hx
        obtain ⟨rfl, hle⟩ := Option.mem_filter_iff.mp hx |>.imp_left Option.some.inj
        cases measuredAt with
        | none => simp [hle] at hold
        | some a =>
          obtain ⟨m, hm, hm'⟩ := hacc a rfl
          have hxa : observedAt ≤ a := by simpa [hle] using hold
          exact ⟨m, hm, hxa.trans hm'⟩

variable {c : RequiredQuotaConstraint}

theorem le_measuredAt (hc : c ∈ constraints) {x : ℚ} (hx : x ∈ usable nowMs c) :
    ∃ m ∈ measuredAtOf nowMs constraints, x ≤ m := (foldl_measuredAt constraints none).2.1 c hc x hx

theorem mem_measuredAt {m : ℚ} (h : m ∈ measuredAtOf nowMs constraints) : ∃ c ∈ constraints, m ∈ usable nowMs c :=
  ((foldl_measuredAt constraints none).2.2 m h).resolve_left (by simp)

theorem measuredAt_mono (hsub : constraints ⊆ others) {m : ℚ} (h : m ∈ measuredAtOf nowMs constraints) :
    ∃ m' ∈ measuredAtOf nowMs others, m ≤ m' := by
  obtain ⟨c, hc, hm⟩ := mem_measuredAt h
  exact le_measuredAt (hsub hc) hm

theorem measuredAt_perm (h : constraints.Perm others) :
    measuredAtOf nowMs constraints = measuredAtOf nowMs others := by
  have hle {l l' : List RequiredQuotaConstraint} (hsub : l ⊆ l') {m : ℚ} (hm : m ∈ measuredAtOf nowMs l) :=
    measuredAt_mono hsub hm
  ext m
  constructor
  · intro hm
    obtain ⟨m', hm', h1⟩ := hle h.subset hm
    obtain ⟨m'', hm'', h2⟩ := hle h.symm.subset hm'
    cases hm.symm.trans hm''
    rwa [le_antisymm h1 h2]
  · intro hm
    obtain ⟨m', hm', h1⟩ := hle h.symm.subset hm
    obtain ⟨m'', hm'', h2⟩ := hle h.subset hm'
    cases hm.symm.trans hm''
    rwa [le_antisymm h1 h2]

/-- The newest observation is within the grace period. -/
def InGrace (nowMs : Number) (constraints : List RequiredQuotaConstraint) : Prop :=
  ∃ m ∈ measuredAtOf nowMs constraints, (nowMs.add (.finite (-m))).le (.finite QUOTA_EVIDENCE_GRACE_MS) = true

def SomeNotObtained (constraints : List RequiredQuotaConstraint) : Prop :=
  ∃ c ∈ constraints, evidenceStatusOf c = .notObtained

def stateOf (nowMs : Number) (constraint : RequiredQuotaConstraint) : QuotaState :=
  (assessConstraint nowMs constraint).state

theorem evidenceStatus_assess (c : RequiredQuotaConstraint) :
    (assessConstraint nowMs c).evidenceStatus = evidenceStatusOf c := by
  unfold assessConstraint
  dsimp only
  split
  · rfl
  · split
    · split <;> rfl
    · rfl

theorem routeEvidence_iff : routeEvidence (constraints.map (assessConstraint nowMs)) = .notObtained ↔
    SomeNotObtained constraints := by
  have hany : (constraints.map (assessConstraint nowMs)).any (·.evidenceStatus == .notObtained) = true ↔
      SomeNotObtained constraints := by
    simp [SomeNotObtained, evidenceStatus_assess]
  rw [← hany, routeEvidence]
  split
  · rename_i h
    exact iff_of_true rfl h
  · rename_i h
    refine iff_of_false ?_ h
    split <;> simp

open Classical in
theorem measuredState_eq : measuredState nowMs constraints (constraints.map (assessConstraint nowMs)) =
    if SomeNotObtained constraints ∧ .exhausted ∉ constraints.map (stateOf nowMs) ∧ ¬ InGrace nowMs constraints then
      .insufficient
    else worstState (constraints.map (stateOf nowMs)) := by
  have hstates : (constraints.map (assessConstraint nowMs)).map (·.state) = constraints.map (stateOf nowMs) := by
    rw [List.map_map]
    rfl
  unfold measuredState InGrace
  simp only [routeEvidence_iff, hstates]
  split
  · rename_i hno
    cases measuredAtOf nowMs constraints with
    | none => simp [hno]
    | some m => by_cases hg : (nowMs.add (.finite (-m))).le (.finite QUOTA_EVIDENCE_GRACE_MS) =
      true <;> simp [hno, hg]
  · rename_i hno
    rw [if_neg fun h => hno ⟨h.1, h.2.1⟩]

def Promotable (constraints : List RequiredQuotaConstraint) : Prop :=
  ∀ c ∈ constraints, c.evidence = none ∧ c.balance = none ∧ ¬ (c.id = js "codebuddy/monthly" ∧ c.usageUnknown = true)

theorem measuredState_exhausted_iff : measuredState nowMs constraints (constraints.map (assessConstraint nowMs)) =
    .exhausted ↔ .exhausted ∈ constraints.map (stateOf nowMs) := by
  rw [measuredState_eq]
  constructor
  · intro h
    by_contra hnot
    split at h
    · cases h
    · exact worstState_ne_exhausted hnot h
  · intro h
    rw [if_neg fun hno => hno.2.1 h, worstState_exhausted h]

open Classical in
theorem state_eq (h : constraints ≠ []) : (assessRequiredQuota nowMs constraints free).state =
    if free = true ∧ .exhausted ∉ constraints.map (stateOf nowMs) ∧ Promotable constraints then .abundant
    else measuredState nowMs constraints (constraints.map (assessConstraint nowMs)) := by
  rw [assessRequiredQuota, if_neg h]
  refine if_congr (and_congr_right fun _ => ?_) rfl rfl
  rw [ne_eq, measuredState_exhausted_iff]
  refine and_congr_right fun _ => ?_
  simp only [Promotable, List.any_eq_true, not_exists, not_and, Bool.or_eq_true, Bool.and_eq_true, beq_iff_eq,
    Option.isSome_iff_ne_none]
  constructor
  · intro hfree c hc
    have hnone := hfree.2 c hc
    rw [not_or, not_not, not_not] at hnone
    exact ⟨hnone.1, hnone.2, hfree.1 c hc⟩
  · intro hall
    exact ⟨fun c hc => (hall c hc).2.2, fun c hc => by simp [hall c hc]⟩

/-- A further constraint that does not renew the grace period makes the state of a route with constraints no
better. -/
theorem severity_mono (h : constraints ≠ []) (hsub : constraints ⊆ others)
    (hgrace : SomeNotObtained constraints → InGrace nowMs others → InGrace nowMs constraints) :
    (assessRequiredQuota nowMs constraints free).state.severity ≤
    (assessRequiredQuota nowMs others free).state.severity := by
  have hmap : constraints.map (stateOf nowMs) ⊆ others.map (stateOf nowMs) := List.map_subset _ hsub
  have hworst : (worstState (constraints.map (stateOf nowMs))).severity ≤
      (worstState (others.map (stateOf nowMs))).severity := worstState_le fun s hs => le_worstState (hmap hs)
  have hsome (hno : SomeNotObtained constraints) : SomeNotObtained others := by
    obtain ⟨c, hc, hnot⟩ := hno
    exact ⟨c, hsub hc, hnot⟩
  rw [state_eq h, state_eq (List.ne_nil_of_mem (hsub (List.head_mem h)))]
  by_cases hfree : free = true ∧ .exhausted ∉ constraints.map (stateOf nowMs) ∧ Promotable constraints
  · rw [if_pos hfree]
    exact (QuotaState.severity_le _).1
  rw [if_neg hfree]
  by_cases hexh : .exhausted ∈ others.map (stateOf nowMs)
  · rw [if_neg fun hf => hf.2.1 hexh, measuredState_exhausted_iff.mpr hexh]
    exact (QuotaState.severity_le _).2
  have hexh' := fun hmem => hexh (hmap hmem)
  have hnot : ¬ (free = true ∧ .exhausted ∉ others.map (stateOf nowMs) ∧ Promotable others) :=
    fun hf => hfree ⟨hf.1, hexh', fun c hc => hf.2.2 c (hsub hc)⟩
  rw [if_neg hnot, measuredState_eq, measuredState_eq]
  by_cases hlost : SomeNotObtained others ∧ .exhausted ∉ others.map (stateOf nowMs) ∧ ¬ InGrace nowMs others
  · split
    · exact le_refl _
    · exact QuotaState.le_insufficient (worstState_ne_exhausted hexh')
  · rw [if_neg hlost, if_neg fun hno => hlost ⟨hsome hno.1, hexh, fun hg => hno.2.2 (hgrace hno.1 hg)⟩]
    exact hworst

theorem state_exhausted (hc : c ∈ constraints) (h : stateOf nowMs c = .exhausted) :
    (assessRequiredQuota nowMs constraints free).state = .exhausted := by
  have hmem : .exhausted ∈ constraints.map (stateOf nowMs) := List.mem_map.mpr ⟨c, hc, h⟩
  rw [state_eq (List.ne_nil_of_mem hc), if_neg fun hf => hf.2.1 hmem, measuredState_exhausted_iff.mpr hmem]

inductive ObservedExhausted (nowMs : Number) (c : RequiredQuotaConstraint) : Prop where
  | flag : c.observedExhausted = true → ObservedExhausted nowMs c
  | window {now : ℚ} {evidence : QuotaEvidence} : nowMs = .finite now → c.kind ≠ some .balance → c.balance = none →
      c.evidence = some evidence → evidence.remainingPercent = .finite 0 → ObservedExhausted nowMs c
  | balance {now observedAt : ℚ} {balance : BalanceEvidence} : nowMs = .finite now → c.balance = some balance →
      balance.observedAtMs = .finite observedAt → observedAt ≤ now →
      balance.availability = some (js "unavailable") ∨ (∃ value ∈ balance.amount.bind amountValue, value ≤ 0) →
      ObservedExhausted nowMs c

theorem ObservedExhausted.state (h : ObservedExhausted nowMs c) :
    stateOf nowMs c = .exhausted := by
  have hmeasured (hstate : (measuredAssessment nowMs c).state = .exhausted) : stateOf nowMs c = .exhausted := by
    unfold stateOf assessConstraint
    dsimp only
    split
    · rfl
    · split
      · rfl
      · exact hstate
  cases h with
  | flag hflag => rw [stateOf, assessConstraint, if_pos hflag]
  | window hnow hkind hbalance hevidence hzero =>
    apply hmeasured
    norm_num [measuredAssessment, measuredWindow, hnow, hkind, hbalance, hevidence, hzero, Number.finite?]
  | balance hnow hbalance hobs hle hgone =>
    apply hmeasured
    simp only [measuredAssessment, hbalance, Option.isSome_some, or_true, if_true, measuredBalance, hnow, hobs,
      Number.finite?, if_neg (not_lt.mpr hle)]
    rcases hgone with hun | ⟨value, hvalue, hle0⟩
    · rw [if_pos hun]
    · split
      · rfl
      · rw [if_pos (by rw [Option.mem_def.mp hvalue]; exact decide_eq_true hle0)]

/-- All but the mean headroom: the code sums doubles in list order, so that another order may round it differently. -/
structure SameUpToOrder (a b : QuotaAssessment) : Prop where
  state : a.state = b.state
  evidence : a.evidence = b.evidence
  measuredAt : a.measuredAt = b.measuredAt
  coverageComplete : a.coverageComplete = b.coverageComplete
  exhaustedConstraintIds : a.exhaustedConstraintIds.Perm b.exhaustedConstraintIds
  constraints : a.constraints.Perm b.constraints

theorem assess_perm (h : constraints.Perm others) :
    SameUpToOrder (assessRequiredQuota nowMs constraints free) (assessRequiredQuota nowMs others free) := by
  by_cases hnil : constraints = []
  · subst hnil
    rw [h.nil_eq]
    exact ⟨rfl, rfl, rfl, rfl, .rfl, .rfl⟩
  have hnil' : others ≠ [] := fun hn => hnil (hn ▸ h).eq_nil
  have hmap := h.map (assessConstraint nowMs)
  have hgrace : InGrace nowMs constraints ↔ InGrace nowMs others := by rw [InGrace, InGrace, measuredAt_perm h]
  have hstate : (assessRequiredQuota nowMs constraints free).state = (assessRequiredQuota nowMs others free).state :=
    QuotaState.severity_inj (le_antisymm (severity_mono hnil h.subset fun _ => hgrace.mpr)
      (severity_mono hnil' h.symm.subset fun _ => hgrace.mp))
  refine ⟨hstate, ?_, ?_, ?_, ?_, ?_⟩
  all_goals simp only [assessRequiredQuota, if_neg hnil, if_neg hnil']
  · rw [routeEvidence, routeEvidence, hmap.any_eq, hmap.any_eq]
  · exact measuredAt_perm h
  · exact hmap.all_eq
  · exact (hmap.filter _).map _
  · exact hmap

/-- **A further constraint never helps** a route with constraints, unless it renews an expired grace period; an
observed exhaustion is final; and the order of the constraints does not matter. -/
theorem quota_worsens (nowMs : Number) (free : Bool) :
    (∀ constraints others : List RequiredQuotaConstraint, constraints ≠ [] → (∃ c, others.Perm (c :: constraints)) →
      (SomeNotObtained constraints → InGrace nowMs others → InGrace nowMs constraints) →
      (assessRequiredQuota nowMs constraints free).state.severity ≤
        (assessRequiredQuota nowMs others free).state.severity) ∧
    (∀ constraints : List RequiredQuotaConstraint, (∃ c ∈ constraints, ObservedExhausted nowMs c) →
      (assessRequiredQuota nowMs constraints free).state = .exhausted) ∧
    ∀ constraints others : List RequiredQuotaConstraint, constraints.Perm others →
      SameUpToOrder (assessRequiredQuota nowMs constraints free) (assessRequiredQuota nowMs others free) := by
  refine ⟨?_, ?_, fun constraints others hperm => assess_perm hperm⟩
  · intro constraints others hne hadd hgrace
    obtain ⟨c, hperm⟩ := hadd
    exact severity_mono hne (fun x hx => hperm.symm.subset (List.mem_cons_of_mem c hx)) hgrace
  · rintro constraints ⟨c, hc, hex⟩
    exact state_exhausted hc hex.state

def fullWindow : RequiredQuotaConstraint :=
  ⟨js "full", some ⟨.finite 100, .finite 0, .finite 1, js "rolling_partial", none, none⟩, none, none, none,
    false, false⟩

/-- Without constraints a route is sufficient; with a full window it is abundant. -/
theorem not_quota_worsens : ¬ ∀ (nowMs : Number) (constraints : List RequiredQuotaConstraint)
    (c : RequiredQuotaConstraint) (free : Bool), (assessRequiredQuota nowMs constraints free).state.severity ≤
      (assessRequiredQuota nowMs (constraints ++ [c]) free).state.severity := by
  intro h
  have hworse := h (.finite 0) [] fullWindow false
  revert hworse
  decide +kernel

end Wrenyard.Routing
