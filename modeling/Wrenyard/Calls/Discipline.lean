import Wrenyard.Calls.Retries

/-!
# The discipline of the retries

Over every run of a call in the `reason` role: at most five transport calls are made, none behind one whose output
started and no upstream request behind the abort; only the selected model is called unless the selection is automatic;
a model is not called again once it was excluded; every reported wait is cleared; and the finish records the attempts
of all tries in order.  A wait that ends leads to the next call in the runs where a switch of the model finds a
candidate (`retries_disciplined`); an automatic call that finds none waits for nothing (`not_retries_disciplined`).
-/

namespace Wrenyard.Calls

open Js Session Transition List

variable {c : ModelCall} {s s' : CallState} {σ : Tally} {m : Move} {a : CallAction}
  {tr : List (CallAction × List Effect)} {excluded : List JsString}

/-! ### Output -/

def CallAction.startsOutput : CallAction → Bool
  | .event (.text delta) => !delta.isEmpty
  | .event (.reasoning delta) => !delta.isEmpty
  | .event (.toolCall _) => true
  | .settled (.ok _) _ => true
  | .settled (.error e) _ => e.modelError && e.outputStarted
  | _ => false

def Spent (s : CallState) : Prop :=
  match s.phase with
  | .calling _ _ issued => issued = true ∧ s.outputStarted = true
  | .failing _ _ => True
  | .finishing _ => True
  | .done _ => True
  | _ => False

/-- A move that makes no transport call, and leaves none to make. -/
structure Stops (m : Move) : Prop where
  spent : Spent m.1
  silent : ∀ request, Effect.complete request ∉ m.2

theorem Spent.of_same (h : Spent s) (hphase : s'.phase = s.phase)
    (houtput : s.outputStarted = true → s'.outputStarted = true) :
    Spent s' := by
  unfold Spent at h ⊢
  rw [hphase]
  split at h
  · exact ⟨h.1, houtput h.2⟩
  · trivial
  · trivial
  · trivial
  · exact h.elim

theorem reportWait_silent (state : Option Wait) : ∀ request, Effect.complete request ∉ (reportWait c s state).2 := by
  intro request
  rcases reportWait_cases c s state with heq | heq <;> rw [heq] <;> simp

theorem Stops.report {state : Option Wait} {next : CallState → Move}
    (h : ∀ waiting, Stops (next { s with waiting := waiting })) :
    Stops (Move.andThen (reportWait c s state) next) := by
  have hwaiting : ∃ waiting, (reportWait c s state).1 = { s with waiting := waiting } := by
    rcases reportWait_cases c s state with heq | heq
    · exact ⟨s.waiting, by rw [heq]⟩
    · exact ⟨state, by rw [heq]⟩
  obtain ⟨waiting, heq⟩ := hwaiting
  have hnext := h waiting
  rw [← heq] at hnext
  refine ⟨hnext.spent, fun request hmem => ?_⟩
  rcases mem_append.mp hmem with hmem | hmem
  · exact reportWait_silent state request hmem
  · exact hnext.silent request hmem

theorem conclude_stops (outcome : Except CallFailure ModelCallOutput) : Stops (conclude c s outcome) :=
  Stops.report fun _ => ⟨trivial, by simp⟩

theorem fail_stops (inCatch : Bool) (message : JsString) (detail : FailDetail) :
    Stops (fail c s inCatch message detail) := by
  unfold fail
  split
  · exact conclude_stops _
  · exact ⟨trivial, by simp⟩

theorem caught_stops (error : Thrown) : Stops (caught c s error) := fail_stops true _ _

theorem completed_stops (result : ModelResult) : Stops (completed c s result) := by
  refine Stops.report fun waiting => ?_
  split
  all_goals exact ⟨trivial, by simp⟩

theorem attemptFailed_stops {r : Reasoning} {t : Try} {error : Thrown} (clock : Clock)
    (h : s.outputStarted = true ∨ (error.modelError && error.outputStarted) = true) :
    Stops (attemptFailed c s r t error clock) := by
  unfold attemptFailed
  rw [if_pos]
  · exact caught_stops error
  · rcases h with h | h <;> simp [h]

theorem onEvent_stops (e : ModelEvent) (h : Spent s) : Stops (onEvent c s e) := by
  have hreport (state : Option Wait) : Stops (reportWait c s state) := by
    refine ⟨?_, reportWait_silent state⟩
    rcases reportWait_cases c s state with heq | heq <;> rw [heq]
    · exact h
    · exact h.of_same rfl id
  cases e with
  | text | reasoning =>
    unfold onEvent
    refine Stops.report fun waiting => ⟨h.of_same rfl fun houtput => ?_, by simp⟩
    simp [houtput]
  | toolCall call =>
    unfold onEvent
    exact Stops.report fun waiting => ⟨h.of_same rfl fun _ => rfl, by simp⟩
  | usage usage =>
    unfold onEvent
    exact Stops.report fun waiting => ⟨h.of_same rfl id, by simp⟩
  | activity | retry => exact hreport none
  | wait wait => exact hreport (some wait)

theorem callStep_stops (h : Spent s) (hstep : callStep c s a = some m) : a ≠ .issued ∧ Stops m := by
  unfold callStep at hstep
  split at hstep
  any_goals
    rename_i hphase
    simp only [Spent, hphase] at h
    done
  · cases hstep
    exact ⟨by simp, h.of_same rfl id, by simp⟩
  · rename_i hphase
    simp only [Spent, hphase] at h
    cases h.1
  · cases hstep
    exact ⟨by simp, onEvent_stops _ h⟩
  · split at hstep <;> cases hstep
    exact ⟨by simp, onEvent_stops _ h⟩
  · cases hstep
    exact ⟨by simp, completed_stops _⟩
  · rename_i hphase
    cases hstep
    simp only [Spent, hphase] at h
    exact ⟨by simp, attemptFailed_stops _ (Or.inl h.2)⟩
  · cases hstep
    exact ⟨by simp, conclude_stops _⟩
  · split at hstep
    · cases hstep
      exact ⟨by simp, conclude_stops _⟩
    · cases hstep
      exact ⟨by simp, caught_stops _⟩
  · cases hstep
    exact ⟨by simp, trivial, by simp⟩
  · cases hstep
    exact ⟨by simp, trivial, by simp⟩
  · cases hstep

theorem PhaseInv.spent_of_stale (h : PhaseInv c σ s) (hstale : s.stale = true) : Spent s := by
  have hloud : ¬ Quiet s := by
    rintro ⟨-, hquiet⟩
    rw [hstale] at hquiet
    cases hquiet
  unfold PhaseInv at h
  unfold Spent
  split at h
  any_goals
    rename_i hphase
    simp only [hphase]
    done
  · exact absurd h.2.2 hloud
  · exact absurd h.2.2.2.2.2 hloud
  · have hquiet := h.2.2.2.2.2
    rw [hstale] at hquiet
    cases hquiet
  · exact absurd h.2.2.2.2.2 hloud
  · exact absurd h.2.2.2.2.2 hloud
  · exact h.elim

theorem onEvent_spends {r : Reasoning} {t : Try} (hphase : s.phase = .calling r t true) {e : ModelEvent}
    (houtput : (CallAction.event e).startsOutput = true) : Spent (onEvent c s e).1 := by
  cases e with
  | text delta | reasoning delta =>
    have hdelta : (!delta.isEmpty) = true := houtput
    unfold onEvent
    rcases reportWait_cases c s none with heq | heq <;> rw [heq] <;> simp [Spent, Move.andThen, hphase, hdelta]
  | toolCall call =>
    unfold onEvent
    rcases reportWait_cases c s none with heq | heq <;> rw [heq] <;> simp [Spent, Move.andThen, hphase]
  | usage | activity | retry | wait => cases houtput

/-- An action that starts output leaves a spent call. -/
theorem callStep_spends (h : PhaseInv c σ s) (houtput : a.startsOutput = true) (hstep : callStep c s a = some m) :
    Spent m.1 := by
  have hstep' := hstep
  unfold callStep at hstep'
  split at hstep' <;> try (cases houtput; done)
  any_goals
    rename_i hphase
    simp only [PhaseInv, hphase] at h
    done
  · rename_i hphase
    cases hstep'
    exact onEvent_spends hphase houtput
  · split at hstep'
    · rename_i hstale
      rw [Bool.and_eq_true] at hstale
      exact (callStep_stops (h.spent_of_stale hstale.1) hstep).2.spent
    · cases hstep'
  · cases hstep'
    exact (completed_stops _).spent
  · cases hstep'
    exact (attemptFailed_stops _ (Or.inr houtput)).spent
  · cases hstep'

def Qualifies (c : ModelCall) (models : List GatewayModel) (excludedModels : List JsString)
    (candidate : ReasonSelection) : Prop :=
  ∃ model, routeKeyOf candidate.provider candidate.model = .ok model ∧ model ∉ excludedModels ∧
    (hasSelectableReasoningEfforts (checkContextBudget model c.estimatedInputTokens models c.outputTokens).metadata =
      true →
      isReasoningEffortSupported (checkContextBudget model c.estimatedInputTokens models c.outputTokens).metadata
        candidate.reasoningEffort = true) ∧
    (checkContextBudget model c.estimatedInputTokens models c.outputTokens).reason = none

def Served (c : ModelCall) (s : CallState) (a : CallAction) : Prop :=
  a = .elapsed → ∀ r t, s.phase = .waiting r t true →
    ∃ candidate ∈ r.candidates.drop (r.index + 1), Qualifies c s.models r.excludedModels candidate

theorem nextCandidate_found {models : List GatewayModel} {excludedModels : List JsString}
    {rest : List ReasonSelection}
    (hkeys : ∀ candidate ∈ rest, ∃ key, routeKeyOf candidate.provider candidate.model = .ok key)
    (h : ∃ candidate ∈ rest, Qualifies c models excludedModels candidate) :
    ∀ index, index ≠ 0 → ∃ i t, nextCandidate c models excludedModels index rest = .found i t := by
  induction rest with
  | nil =>
    obtain ⟨candidate, hmem, -⟩ := h
    cases hmem
  | cons candidate rest ih =>
    intro index hindex
    obtain ⟨key, hkey⟩ := hkeys candidate (mem_cons_self ..)
    have hnext (h : ∃ candidate ∈ rest, Qualifies c models excludedModels candidate) :=
      ih (fun candidate hmem => hkeys candidate (mem_cons_of_mem _ hmem)) h (index + 1) (Nat.succ_ne_zero _)
    obtain ⟨candidate', hmem, model, hmodel, hfresh, heffort, hbudget⟩ := h
    unfold nextCandidate
    rw [hkey]
    rcases mem_cons.mp hmem with rfl | hmem
    · cases hkey.symm.trans hmodel
      dsimp only
      rw [if_neg (by simpa using hfresh)]
      rw [if_neg (by simpa using heffort)]
      rw [hbudget]
      exact ⟨_, _, rfl⟩
    · have hnext := hnext ⟨candidate', hmem, model, hmodel, hfresh, heffort, hbudget⟩
      dsimp only
      split
      · exact hnext
      split
      · exact hnext
      · split
        · exact hnext
        · exact ⟨_, _, rfl⟩

/-- A wait that ends leads to the next transport call. -/
theorem elapsed_calls (h : PhaseInv c σ s) (hserved : Served c s a) (ha : a = .elapsed)
    (hstep : callStep c s a = some m) : ∃ request, Effect.complete request ∈ m.2 := by
  have hleft := hserved ha
  unfold callStep at hstep
  split at hstep <;> try (cases ha; done)
  · rename_i r t switchRoute hphase
    cases hstep
    simp only [PhaseInv, hphase] at h
    obtain ⟨hloop, hstarted, -⟩ := h
    have hmodels : (reportWait c s none).1.models = s.models := by
      rcases reportWait_cases c s none with heq | heq <;> rw [heq]
    unfold Move.andThen
    cases switchRoute with
    | false => exact ⟨_, mem_append_right _ (mem_singleton.mpr rfl)⟩
    | true =>
      obtain ⟨i, t', hnext⟩ := nextCandidate_found
        (fun candidate hmem => hloop.keys candidate (mem_of_mem_drop hmem)) (hleft r t hphase) (r.index + 1)
        (Nat.succ_ne_zero _)
      dsimp only
      unfold proceed
      rw [hmodels, hnext]
      dsimp only
      rw [if_pos hstarted]
      exact ⟨_, mem_append_right _ (mem_singleton.mpr rfl)⟩
  · cases hstep

/-! ### Runs -/

theorem Tally.attempts_foldl_effect (effects : List Effect) (σ : Tally) :
    (effects.foldl Tally.effect σ).attempts = σ.attempts := by
  induction effects generalizing σ with
  | nil => rfl
  | cons x effects ih =>
    rw [foldl_cons, ih]
    cases x <;> rfl

theorem Tally.aborted_foldl_effect (effects : List Effect) (σ : Tally) :
    (effects.foldl Tally.effect σ).aborted = σ.aborted := by
  induction effects generalizing σ with
  | nil => rfl
  | cons x effects ih =>
    rw [foldl_cons, ih]
    cases x <;> rfl

theorem Tally.aborted_input (h : σ.aborted = true) : (σ.input a).aborted = true := by
  unfold Tally.input
  split
  any_goals exact h
  · rfl

/-- What a run has done is known at its end. -/
theorem run_known (hrole : c.role = .reason) (h : Run (CallStep c) .initial tr s) :
    Known (Tally.ofRun tr) s ∧ PhaseInv c (Tally.ofRun tr) s := by
  refine Run.history (fun tr s => Known (Tally.ofRun tr) s ∧ PhaseInv c (Tally.ofRun tr) s) ?_ h ?_
  · rintro tr s ⟨a, effects⟩ s' ⟨hknown, hphase⟩ hstep
    have hdone := callStep_done [] hrole hknown hphase hstep (by simp)
    rw [Tally.ofRun_snoc]
    exact ⟨hdone.known, hdone.phase⟩
  · exact ⟨⟨rfl, rfl, Nat.le_refl _, Nat.zero_le _, rfl⟩, rfl, rfl, rfl, rfl⟩

def CallState.excludedModels (s : CallState) : List JsString :=
  match s.phase with
  | .startingReasoning r _ => r.excludedModels
  | .calling r _ _ => r.excludedModels
  | .loadingLadder r _ _ => r.excludedModels
  | .waiting r _ _ => r.excludedModels
  | _ => []

def CallsModel (model : JsString) (e : CallAction × List Effect) : Prop :=
  ∃ request, Effect.complete request ∈ e.2 ∧ request.model = model

structure Disciplined (c : ModelCall) (tr : List (CallAction × List Effect)) (s : CallState) : Prop where
  /-- At most five transport calls, and not more upstream requests. -/
  five : (Tally.ofRun tr).issued ≤ (Tally.ofRun tr).requests ∧ (Tally.ofRun tr).requests ≤ 5
  /-- Neither follows where output started, or behind an answer. -/
  output : ∀ before e after, tr = before ++ e :: after → e.1.startsOutput = true →
    ∀ e' ∈ after, e'.1 ≠ .issued ∧ ∀ model, ¬ CallsModel model e'
  /-- No upstream request follows the abort. -/
  abort : ∀ before e after, tr = before ++ e :: after → e.1 = .abort → ∀ e' ∈ after, e'.1 ≠ .issued
  /-- A selection that is not automatic is kept. -/
  selected : ∀ first, c.reason = some first → first.automatic = false → ∀ e ∈ tr, ∀ model, CallsModel model e →
    routeKeyOf first.provider first.model = .ok model
  /-- A model is not called from the step on that excludes it. -/
  excluded : ∀ before e after s₁ s₂, tr = before ++ e :: after → Run (CallStep c) .initial before s₁ →
    CallStep c s₁ e s₂ → Run (CallStep c) s₂ after s → ∀ model ∈ s₂.excludedModels, ∀ e' ∈ e :: after,
      ¬ CallsModel model e'
  /-- A wait that ends leads to a transport call. -/
  waits : ∀ e ∈ tr, e.1 = .elapsed → ∃ model, CallsModel model e
  /-- Every reported wait is cleared. -/
  cleared : ∀ outcome, s.phase = .done outcome → (Tally.ofRun tr).reported = none
  /-- A finish records the attempts of all tries in order. -/
  recorded : ∀ before a effects after s' status fields, tr = before ++ (a, effects) :: after →
    Effect.append (finishedDraft c s' status fields) ∈ effects →
    attemptsOf fields.metrics = (Tally.ofRun (before ++ [(a, effects)])).attempts

def ServedStep (c : ModelCall) (s : CallState) (e : CallAction × List Effect) (s' : CallState) : Prop :=
  CallStep c s e s' ∧ Served c s e.1

/-- Behind a step that starts output, a run sends nothing. -/
theorem run_silent (h : Run (CallStep c) s tr s') (hspent : Spent s) :
    ∀ e ∈ tr, e.1 ≠ .issued ∧ ∀ model, ¬ CallsModel model e := by
  refine h.always Spent _ ?_ hspent
  intro s e s' hspent hstep
  obtain ⟨hissued, hstops⟩ := callStep_stops hspent hstep
  refine ⟨hstops.spent, hissued, ?_⟩
  rintro model ⟨request, hmem, -⟩
  exact hstops.silent request hmem

theorem callStep_aborted (haborted : s.aborted = true) (hstep : callStep c s a = some m) : a ≠ .issued := by
  intro ha
  unfold callStep at hstep
  split at hstep <;> try (cases ha; done)
  · rw [if_pos haborted] at hstep
    cases hstep
  · rw [if_pos haborted] at hstep
    cases hstep
  · cases hstep

/-- Behind the abort a run makes no upstream request. -/
theorem run_aborted (hrole : c.role = .reason) (hknown : Known σ s) (hphase : PhaseInv c σ s)
    (haborted : s.aborted = true)
    (h : Run (CallStep c) s tr s') : ∀ e ∈ tr, e.1 ≠ .issued := by
  refine h.always (fun s => s.aborted = true ∧ ∃ σ, Known σ s ∧ PhaseInv c σ s) _ ?_ ⟨haborted, σ, hknown, hphase⟩
  rintro s ⟨a, effects⟩ s' ⟨haborted, σ, hknown, hphase⟩ hstep
  have hdone := callStep_done [] hrole hknown hphase hstep (by simp)
  have haborted' : s'.aborted = true := by
    rw [hdone.known.aborted, Tally.aborted_foldl_effect]
    exact Tally.aborted_input (by rw [← hknown.aborted]; exact haborted)
  exact ⟨⟨haborted', _, hdone.known, hdone.phase⟩, callStep_aborted haborted hstep⟩

variable {model : JsString}

/-- A step that has excluded a model does not call it. -/
theorem MoveDone.not_calls {e : CallAction × List Effect} (h : MoveDone c σ excluded (s', e.2))
    (hmodel : Excluded model s') : ¬ CallsModel model e := by
  rintro ⟨request, hmem, rfl⟩
  obtain ⟨r, t, hphase, hrequest⟩ := h.calls request hmem
  dsimp only at hphase
  have hinv := h.phase
  simp only [PhaseInv, hphase] at hinv
  simp only [Excluded, hphase, hrequest] at hmodel
  exact hinv.2.1.fresh hmodel

/-- Behind a step that has excluded a model, a run does not call it. -/
theorem run_excluded (hrole : c.role = .reason) (hknown : Known σ s) (hphase : PhaseInv c σ s)
    (hmodel : Excluded model s) (h : Run (CallStep c) s tr s') : ∀ e ∈ tr, ¬ CallsModel model e := by
  refine h.always (fun s => Excluded model s ∧ ∃ σ, Known σ s ∧ PhaseInv c σ s) _ ?_ ⟨hmodel, σ, hknown, hphase⟩
  rintro s ⟨a, effects⟩ s' ⟨hmodel, σ, hknown, hphase⟩ hstep
  have hdone := callStep_done [model] hrole hknown hphase hstep (by simpa using hmodel)
  have hmodel' : Excluded model s' := hdone.excluded model (mem_singleton.mpr rfl)
  exact ⟨⟨hmodel', _, hdone.known, hdone.phase⟩, MoveDone.not_calls (e := (a, effects)) hdone hmodel'⟩

theorem Excluded.of_mem (h : model ∈ s.excludedModels) : Excluded model s := by
  unfold CallState.excludedModels at h
  unfold Excluded
  split at h
  any_goals
    rename_i hphase
    simpa only [hphase] using h
  · cases h

/-- Over every run of a main reasoning call in which every wait that ends to switch the model has a candidate left,
the retries are disciplined. -/
theorem retries_disciplined (c : ModelCall) (tr : List (CallAction × List Effect)) (s : CallState)
    (hrole : c.role = .reason)
    (h : Run (ServedStep c) .initial tr s) : Disciplined c tr s := by
  have hrun : Run (CallStep c) .initial tr s := h.mono fun _ _ _ hstep => hstep.1
  obtain ⟨hknown, hphase⟩ := run_known hrole hrun
  refine ⟨⟨hknown.issued, hknown.requests⟩, ?_, ?_, ?_, ?_, ?_, ?_, ?_⟩
  · rintro before ⟨a, effects⟩ after rfl houtput
    obtain ⟨s₁, s₂, hbefore, hstep, hafter⟩ := hrun.split_at
    exact run_silent hafter (callStep_spends (run_known hrole hbefore).2 houtput hstep)
  · rintro before ⟨a, effects⟩ after rfl ha
    obtain ⟨s₁, s₂, hbefore, hstep, hafter⟩ := hrun.split_at
    obtain ⟨hknown₂, hphase₂⟩ := run_known hrole (hbefore.append (.single hstep))
    refine run_aborted hrole hknown₂ hphase₂ ?_ hafter
    subst ha
    rw [hknown₂.aborted, Tally.ofRun_snoc, Tally.aborted_foldl_effect]
    rfl
  · rintro first hfirst hautomatic ⟨a, effects⟩ hmem model ⟨request, hrequest, rfl⟩
    obtain ⟨before, after, rfl⟩ := List.append_of_mem hmem
    obtain ⟨s₁, s₂, hbefore, hstep, -⟩ := hrun.split_at
    obtain ⟨hknown₁, hphase₁⟩ := run_known hrole hbefore
    have hdone := callStep_done [] hrole hknown₁ hphase₁ hstep (by simp)
    obtain ⟨r, t, hcalling, heq⟩ := hdone.calls request hrequest
    have hinv := hdone.phase
    dsimp only at hcalling hinv
    simp only [PhaseInv, hcalling] at hinv
    obtain ⟨hloop, hcallable, -⟩ := hinv
    have hr : r.first = first := Option.some.inj (hloop.first.symm.trans hfirst)
    have hcandidate : t.candidate = first := by
      have := hcallable.mem
      rw [hloop.own (by rw [hr]; exact hautomatic), hr] at this
      exact List.mem_singleton.mp this
    rw [heq, ← hcandidate]
    exact hcallable.model
  · rintro before ⟨a, effects⟩ after s₁ s₂ rfl hbefore hstep hafter model hmodel e' he'
    obtain ⟨hknown₁, hphase₁⟩ := run_known hrole hbefore
    have hdone := callStep_done [] hrole hknown₁ hphase₁ hstep (by simp)
    rcases List.mem_cons.mp he' with rfl | he'
    · exact MoveDone.not_calls (e := (a, effects)) hdone (Excluded.of_mem hmodel)
    · exact run_excluded hrole hdone.known hdone.phase (Excluded.of_mem hmodel) hafter e' he'
  · rintro ⟨a, effects⟩ hmem ha
    obtain ⟨before, after, rfl⟩ := List.append_of_mem hmem
    obtain ⟨s₁, s₂, hbefore, ⟨hstep, hserved⟩, -⟩ := h.split_at
    have hphase₁ := (run_known hrole (hbefore.mono fun _ _ _ hstep => hstep.1)).2
    obtain ⟨request, hrequest⟩ := elapsed_calls hphase₁ hserved ha hstep
    exact ⟨_, request, hrequest, rfl⟩
  · intro outcome hdone
    rw [← hknown.reported]
    simpa only [PhaseInv, hdone] using hphase
  · rintro before a effects after s' status fields rfl hmem
    obtain ⟨s₁, s₂, hbefore, hstep, -⟩ := hrun.split_at
    obtain ⟨hknown₁, hphase₁⟩ := run_known hrole hbefore
    have hdone := callStep_done [] hrole hknown₁ hphase₁ hstep (by simp)
    rw [Tally.ofRun_snoc, Tally.attempts_foldl_effect]
    exact hdone.recorded s' status fields hmem

def serverFailure : CallAction := .settled (.error (.ofKind .server (js "busy"))) someClock

/-- An automatic call whose model fails twice; the ladder gives another model, which answers. -/
def switchedActions : List CallAction :=
  [.listed none, .appended none, .issued, serverFailure, .elapsed, .issued, serverFailure,
    .routes (some [someSelection, { someSelection with model := js "n" }]) someClock, .elapsed, .issued,
    .settled (.ok someResult) someClock, .appended none]

def switchingCall : ModelCall := { someCall (some someSelection) with selectAutomaticRoutes := true }

instance (c : ModelCall) (models : List GatewayModel) (excludedModels : List JsString) (candidate : ReasonSelection) :
    Decidable (Qualifies c models excludedModels candidate) :=
  match hkey : routeKeyOf candidate.provider candidate.model with
  | .ok model => decidable_of_iff
      (model ∉ excludedModels ∧
        (hasSelectableReasoningEfforts
            (checkContextBudget model c.estimatedInputTokens models c.outputTokens).metadata = true →
          isReasoningEffortSupported (checkContextBudget model c.estimatedInputTokens models c.outputTokens).metadata
            candidate.reasoningEffort = true) ∧
        (checkContextBudget model c.estimatedInputTokens models c.outputTokens).reason = none)
      ⟨fun h => ⟨model, hkey, h⟩, fun ⟨_, hkey', h⟩ => Except.ok.inj (hkey.symm.trans hkey') ▸ h⟩
  | .error _ => .isFalse fun ⟨_, hkey', _⟩ => nomatch hkey.symm.trans hkey'

/-- A wait to switch the model has a candidate left. -/
def serves (c : ModelCall) (s : CallState) (_ : CallAction) : Bool :=
  match s.phase with
  | .waiting r _ true =>
    (r.candidates.drop (r.index + 1)).any fun candidate => decide (Qualifies c s.models r.excludedModels candidate)
  | _ => true

theorem ServedStep.of_guarded {e : CallAction × List Effect} (h : StepOf (guarded (serves c) (callStep c)) s e s') :
    ServedStep c s e s' := by
  obtain ⟨hstep, hserves⟩ := stepOf_guarded h
  refine ⟨hstep, fun _ r t hphase => ?_⟩
  simpa only [serves, hphase, List.any_eq_true, decide_eq_true_eq] using hserves

theorem retries_disciplined_retried :
    ∃ os s, Run (ServedStep switchingCall) .initial (switchedActions.zip os) s ∧ s.phase.output.isSome = true ∧
      s.model = js "p/n" ∧ Disciplined switchingCall (switchedActions.zip os) s := by
  have hexec : (exec (guarded (serves switchingCall) (callStep switchingCall)) .initial switchedActions).any (fun r =>
      r.1.phase.output.isSome && decide (r.1.model = js "p/n")) = true := by decide
  obtain ⟨⟨s, os⟩, hexec, hs⟩ := (Option.any_eq_true _ _).mp hexec
  rw [Bool.and_eq_true, decide_eq_true_eq] at hs
  have hrun := (run_of_exec hexec).mono fun _ _ _ => ServedStep.of_guarded
  exact ⟨os, s, hrun, hs.1, hs.2, retries_disciplined _ _ s rfl hrun⟩

def Effect.isCall : Effect → Bool
  | .complete _ => true
  | _ => false

/-- An automatic call whose ladder is not read: its only model fails twice, and no other is left when the wait
ends. -/
theorem not_retries_disciplined :
    ∃ c tr s, c.role = .reason ∧ Run (CallStep c) .initial tr s ∧ ¬ Disciplined c tr s := by
  have hexec : (exec (callStep (someCall (some someSelection))) .initial
      [.listed none, .appended none, .issued, serverFailure, .elapsed, .issued, serverFailure]).any (fun r =>
        (callStep (someCall (some someSelection)) r.1 .elapsed).any fun m => m.2.all fun x => !x.isCall) = true := by
    decide
  obtain ⟨⟨s, os⟩, hrun, hstep⟩ := (Option.any_eq_true _ _).mp hexec
  obtain ⟨⟨s', effects⟩, hstep, hsilent⟩ := (Option.any_eq_true _ _).mp hstep
  have hlast : CallStep (someCall (some someSelection)) s (.elapsed, effects) s' := hstep
  refine ⟨someCall (some someSelection), _, s', rfl, (run_of_exec hrun).append (.single hlast), ?_⟩
  intro hdisciplined
  obtain ⟨model, request, hmem, -⟩ := hdisciplined.waits (.elapsed, effects) (by simp) rfl
  have := List.all_eq_true.mp hsilent _ hmem
  cases this

end Wrenyard.Calls
