import Wrenyard.Calls.Runner

/-!
# The span events of a call

A call is to append one `span.started` and, behind it, one `span.finished`, to resolve only when the finish says `ok`,
and to throw a `ModelCallError` otherwise.  That holds over every run in which no check refuses the call before its
start is written and no append fails (`one_span`).  A refusal calls `fail` before there is a start.
-/

namespace Wrenyard.Calls

open Js Session Transition List

def Effect.draft : Effect → Option LedgerEventDraft
  | .append draft => some draft
  | _ => none

/-- The drafts a run appends, in order. -/
def drafts (tr : List (CallAction × List Effect)) : List LedgerEventDraft :=
  tr.flatMap fun e => e.2.filterMap Effect.draft

theorem drafts_snoc (tr : List (CallAction × List Effect)) (e : CallAction × List Effect) :
    drafts (tr ++ [e]) = drafts tr ++ e.2.filterMap Effect.draft := by
  simp [drafts]

variable {c : ModelCall} {s : CallState}

theorem reportWait_cases (c : ModelCall) (s : CallState) (state : Option Wait) :
    reportWait c s state = (s, []) ∨ reportWait c s state = ({ s with waiting := state }, [.onWait state]) := by
  unfold reportWait
  split
  · exact Or.inl rfl
  · exact Or.inr rfl

section

variable (c : ModelCall)

/-- The model takes the effort, and the input fits its context. -/
def ModelCall.fits (models : List GatewayModel) (model : JsString) (effort : ReasoningEffort) : Bool :=
  let budget := checkContextBudget model c.estimatedInputTokens models c.outputTokens
  !(hasSelectableReasoningEfforts budget.metadata && !isReasoningEffortSupported budget.metadata effort) &&
    budget.reason.isNone

/-- The action refuses no call before its start is written, and no append fails in it: the reason call has a well
formed selection, the auxiliary call has a route, the signal is not aborted at that check, and the model fits. -/
def ModelCall.passes (s : CallState) : CallAction → Bool
  | .listed models =>
    match c.role, c.reason with
    | .auxiliary _, _ => true
    | .reason, none => false
    | .reason, some first =>
      match routeKeyOf first.provider first.model with
      | .error _ => false
      | .ok model => !s.aborted && c.fits (models.getD []) model first.reasoningEffort
  | .resolved (.error _) => false
  | .resolved (.ok route) =>
    !s.aborted && (checkContextBudget route.model c.estimatedInputTokens s.models c.outputTokens).reason.isNone
  | .appended failure => failure.isNone
  | _ => true

def AdmittedStep : CallState → CallAction × List Effect → CallState → Prop := StepOf (guarded c.passes (callStep c))

/-- Only the start is appended. -/
def Opened (log : List LedgerEventDraft) : Prop := ∃ request, log = [startedDraft c request]

/-- The start and the finish are appended. -/
def Closed (log : List LedgerEventDraft) (status : SpanStatus) : Prop :=
  ∃ request s fields, log = [startedDraft c request, finishedDraft c s status fields]

/-- What is appended in each phase. -/
def SpanInv (log : List LedgerEventDraft) (s : CallState) : Prop :=
  match s.phase with
  | .loadingModels => log = [] ∧ s.emitted = false
  | .resolving => log = [] ∧ s.emitted = false
  | .startingAuxiliary _ _ => Opened c log ∧ s.emitted = false
  | .callingAuxiliary _ _ => Opened c log ∧ s.emitted = false
  | .startingReasoning r _ => Opened c log ∧ s.emitted = false ∧ r.started = true
  | .calling r _ _ => Opened c log ∧ s.emitted = false ∧ r.started = true
  | .loadingLadder r _ _ => Opened c log ∧ s.emitted = false ∧ r.started = true
  | .waiting r _ _ => Opened c log ∧ s.emitted = false ∧ r.started = true
  | .failing _ _ => ∃ status, status ≠ .ok ∧ Closed c log status
  | .finishing _ => Closed c log .ok
  | .done (.ok _) => Closed c log .ok
  | .done (.error (.call _)) => ∃ status, status ≠ .ok ∧ Closed c log status
  | .done (.error (.thrown _)) => False

def MoveInv (log : List LedgerEventDraft) (m : Move) : Prop := SpanInv c (log ++ m.2.filterMap Effect.draft) m.1

end

variable {log : List LedgerEventDraft} {m : Move}

theorem MoveInv.of_nil (h : SpanInv c log m.1) (heffects : m.2.filterMap Effect.draft = []) : MoveInv c log m := by
  rw [MoveInv, heffects, append_nil]
  exact h

theorem MoveInv.report {state : Option Wait} {next : CallState → Move}
    (h : ∀ waiting, MoveInv c log (next { s with waiting := waiting })) :
    MoveInv c log (Move.andThen (reportWait c s state) next) := by
  rcases reportWait_cases c s state with heq | heq
  · rw [heq]
    exact h s.waiting
  · rw [heq]
    exact h state

theorem conclude_inv {outcome : Except CallFailure ModelCallOutput}
    (h : ∀ s : CallState, SpanInv c log { s with phase := .done outcome }) :
    MoveInv c log (conclude c s outcome) := by
  exact MoveInv.report fun waiting => MoveInv.of_nil (h _) rfl

theorem onEvent_inv (h : SpanInv c log s) (e : ModelEvent) : MoveInv c log (onEvent c s e) := by
  have hsame : ∀ s' : CallState, s'.phase = s.phase → s'.emitted = s.emitted → SpanInv c log s' := by
    intro s' hphase hemitted
    unfold SpanInv at h ⊢
    rw [hphase, hemitted]
    exact h
  have hreport : ∀ state, MoveInv c log (reportWait c s state) := by
    intro state
    rcases reportWait_cases c s state with heq | heq <;> rw [heq]
    · exact MoveInv.of_nil h rfl
    · exact MoveInv.of_nil (hsame _ rfl rfl) rfl
  cases e with
  | text | reasoning | toolCall | usage => exact MoveInv.report fun waiting => MoveInv.of_nil (hsame _ rfl rfl) rfl
  | activity | retry => exact hreport none
  | wait wait => exact hreport (some wait)

variable {r : Reasoning}

variable (h : s.emitted = false)
include h

/-! ### Up to the start -/

theorem runAuxiliary_inv (hlog : log = []) (role : AuxiliaryCallRole) {route : SpanRoute}
    (hfits : (checkContextBudget route.model c.estimatedInputTokens s.models c.outputTokens).reason = none) :
    MoveInv c log (runAuxiliary c s role route) := by
  unfold runAuxiliary
  dsimp only
  rw [hfits, hlog]
  exact ⟨⟨_, rfl⟩, h⟩

/-- A selection that fits is the first candidate to be called. -/
theorem runReasoning_inv (hlog : log = []) {first : ReasonSelection} {model : JsString}
    (hkey : routeKeyOf first.provider first.model = .ok model)
    (hfits : c.fits s.models model first.reasoningEffort = true) : MoveInv c log (runReasoning c s first) := by
  unfold ModelCall.fits at hfits
  dsimp only at hfits
  rw [Bool.and_eq_true, Bool.not_eq_true', Option.isNone_iff_eq_none] at hfits
  obtain ⟨heffort, hreason⟩ := hfits
  have hnext : nextCandidate c s.models [] 0 [first] =
      .found 0 ⟨first, model, checkContextBudget model c.estimatedInputTokens s.models c.outputTokens⟩ := by
    rw [nextCandidate, hkey]
    dsimp only
    rw [heffort, hreason]
    rfl
  unfold runReasoning proceed
  dsimp only [List.drop]
  rw [hnext, hlog]
  dsimp only
  rw [if_neg Bool.false_ne_true]
  exact ⟨⟨_, rfl⟩, h, rfl⟩

theorem start_inv (hlog : log = []) {models : Option (List GatewayModel)}
    (hpass : c.passes s (.listed models) = true) :
    MoveInv c log (start c { s with models := models.getD [] }) := by
  unfold ModelCall.passes at hpass
  unfold start
  split
  · rw [hlog]
    exact ⟨rfl, h⟩
  rename_i hrole
  rw [hrole] at hpass
  cases hreason : c.reason with
  | none =>
    rw [hreason] at hpass
    cases hpass
  | some first =>
    rw [hreason] at hpass
    cases hkey : routeKeyOf first.provider first.model with
    | error e => simp [hkey] at hpass
    | ok model =>
      simp only [hkey, Bool.and_eq_true, Bool.not_eq_true'] at hpass
      dsimp only
      rw [hkey]
      dsimp only
      rw [if_neg (by simp [hpass.1])]
      exact runReasoning_inv (by exact h) hlog hkey hpass.2

/-! ### Behind the start -/

variable (hlog : Opened c log)
include hlog

theorem fail_inv (inCatch : Bool) (message : JsString) (detail : FailDetail) :
    MoveInv c log (fail c s inCatch message detail) := by
  obtain ⟨request, rfl⟩ := hlog
  unfold fail
  rw [if_neg (by simp [h])]
  refine ⟨if detail.aborted then .aborted else .failed, ?_, request, s, _, rfl⟩
  split <;> simp

theorem caught_inv (error : Thrown) : MoveInv c log (caught c s error) := fail_inv h hlog true _ _

theorem completed_inv (result : ModelResult) : MoveInv c log (completed c s result) := by
  obtain ⟨request, rfl⟩ := hlog
  refine MoveInv.report fun waiting => ?_
  rw [if_neg (by simp [h])]
  exact ⟨request, _, _, rfl⟩

theorem auxiliaryFailed_inv (error : Thrown) : MoveInv c log (auxiliaryFailed c s error) := by
  unfold auxiliaryFailed
  dsimp only
  split
  · exact caught_inv (by exact h) hlog error
  · exact fail_inv (by exact h) hlog _ _ _

variable (hr : r.started = true)
include hr

theorem callModel_inv (t : Try) : MoveInv c log (callModel c s r t) := MoveInv.of_nil ⟨hlog, h, hr⟩ rfl

theorem proceed_inv : MoveInv c log (proceed c s r) := by
  unfold proceed
  split
  · exact caught_inv h hlog _
  · exact caught_inv h hlog _
  · exact fail_inv h hlog _ _ _
  · dsimp only
    rw [if_pos hr]
    exact callModel_inv (by exact h) hlog (by exact hr) _

theorem retry_inv (t : Try) (capacity switchRoute : Bool) (clock : Clock) :
    MoveInv c log (retry c s r t capacity switchRoute clock) := by
  unfold retry
  split
  · exact proceed_inv h hlog (by exact hr)
  refine MoveInv.report fun waiting => ?_
  split
  · exact MoveInv.report fun waiting => caught_inv (by exact h) hlog _
  · exact MoveInv.of_nil ⟨hlog, h, hr⟩ rfl

theorem attemptFailed_inv (t : Try) (error : Thrown) (clock : Clock) :
    MoveInv c log (attemptFailed c s r t error clock) := by
  unfold attemptFailed
  dsimp only
  split
  · exact caught_inv (by exact h) hlog error
  split
  · split
    · exact retry_inv (by exact h) hlog (by exact hr) t _ _ clock
    · exact MoveInv.of_nil ⟨hlog, h, hr⟩ rfl
  · exact retry_inv (by exact h) hlog (by exact hr) t _ _ clock

theorem ladderRead_inv (t : Try) (capacity : Bool) (ladder : Option (List ReasonSelection)) (clock : Clock) :
    MoveInv c log (ladderRead c s r t capacity ladder clock) := by
  unfold ladderRead
  split
  · split
    · exact caught_inv h hlog _
    · exact retry_inv h hlog hr t _ _ clock
  · split
    · exact caught_inv h hlog _
    · exact retry_inv h hlog (by exact hr) t _ _ clock

omit h hlog hr

/-! ### Steps -/

/-- Every step that refuses no call and fails no append keeps the span events as its phase has them. -/
theorem callStep_spans {a : CallAction} (h : SpanInv c log s) (hpass : c.passes s a = true)
    (hstep : callStep c s a = some m) : MoveInv c log m := by
  unfold callStep at hstep
  split at hstep
  · -- an abort changes nothing the invariant is about
    cases hstep
    exact MoveInv.of_nil h rfl
  · rename_i models hphase
    cases hstep
    simp only [SpanInv, hphase] at h
    exact start_inv h.2 h.1 hpass
  · cases hpass
  · rename_i route hphase
    simp only [ModelCall.passes, Bool.and_eq_true, Bool.not_eq_true', Option.isNone_iff_eq_none] at hpass
    simp only [SpanInv, hphase] at h
    split at hstep
    · cases hstep
    rw [hpass.1] at hstep
    cases hstep
    exact runAuxiliary_inv h.2 h.1 _ hpass.2
  · rename_i route budget hphase
    simp only [SpanInv, hphase] at h
    split at hstep <;> cases hstep
    · exact fail_inv h.2 h.1 _ _ _
    · exact MoveInv.of_nil ⟨h.1, h.2⟩ rfl
  · cases hpass
  · rename_i r t hphase
    cases hstep
    simp only [SpanInv, hphase] at h
    exact callModel_inv h.2.1 h.1 h.2.2 t
  · cases hpass
  · rename_i route hphase
    simp only [SpanInv, hphase] at h
    split at hstep <;> cases hstep
    exact MoveInv.of_nil h rfl
  · rename_i r t hphase
    simp only [SpanInv, hphase] at h
    split at hstep <;> cases hstep
    exact MoveInv.of_nil h rfl
  · cases hstep
    exact onEvent_inv h _
  · cases hstep
    exact onEvent_inv h _
  · split at hstep <;> cases hstep
    exact onEvent_inv h _
  · rename_i result clock route hphase
    cases hstep
    simp only [SpanInv, hphase] at h
    exact completed_inv (by exact h.2) h.1 result
  · rename_i e clock route issued hphase
    cases hstep
    simp only [SpanInv, hphase] at h
    exact auxiliaryFailed_inv (by exact h.2) h.1 e
  · rename_i result clock r t hphase
    cases hstep
    simp only [SpanInv, hphase] at h
    exact completed_inv (by exact h.2.1) h.1 result
  · rename_i e clock r t issued hphase
    cases hstep
    simp only [SpanInv, hphase] at h
    exact attemptFailed_inv (by exact h.2.1) h.1 h.2.2 t e clock
  · rename_i ladder clock r t capacity hphase
    cases hstep
    simp only [SpanInv, hphase] at h
    exact ladderRead_inv h.2.1 h.1 h.2.2 t capacity ladder clock
  · rename_i r t switchRoute hphase
    cases hstep
    simp only [SpanInv, hphase] at h
    refine MoveInv.report fun waiting => ?_
    split
    · exact proceed_inv (by exact h.2.1) h.1 (by exact h.2.2)
    · exact callModel_inv (by exact h.2.1) h.1 h.2.2 t
  · rename_i r t switchRoute hphase
    simp only [SpanInv, hphase] at h
    split at hstep <;> cases hstep
    exact MoveInv.report fun waiting => caught_inv (by exact h.2.1) h.1 _
  · rename_i inCatch error hphase
    cases hstep
    simp only [SpanInv, hphase] at h
    exact conclude_inv fun s => h
  · cases hpass
  · rename_i output hphase
    cases hstep
    simp only [SpanInv, hphase] at h
    exact MoveInv.of_nil h rfl
  · cases hpass
  · cases hstep

theorem run_spans {tr : List (CallAction × List Effect)} (h : Run (AdmittedStep c) .initial tr s) :
    SpanInv c (drafts tr) s := by
  refine h.history (fun tr s => SpanInv c (drafts tr) s) ?_ ⟨rfl, rfl⟩
  intro tr s e s' hinv hstep
  obtain ⟨hstep, hpass⟩ := stepOf_guarded hstep
  rw [drafts_snoc]
  exact callStep_spans hinv hpass hstep

structure OneSpan (c : ModelCall) (tr : List (CallAction × List Effect)) (s : CallState) : Prop where
  /-- At any time nothing, the start, or the start and the finish are appended. -/
  ordered : drafts tr = [] ∨ Opened c (drafts tr) ∨ ∃ status, Closed c (drafts tr) status
  /-- The call resolves only when the finish says `ok`. -/
  resolves : ∀ output, s.phase = .done (.ok output) → Closed c (drafts tr) .ok
  /-- Otherwise it throws a `ModelCallError`, behind a finish that does not. -/
  throws : ∀ failure, s.phase = .done (.error failure) →
    ∃ error status, failure = .call error ∧ status ≠ .ok ∧ Closed c (drafts tr) status

/-- In every run that passes the checks before the start and fails no append the span events are as expected. -/
theorem one_span (c : ModelCall) (tr : List (CallAction × List Effect)) (s : CallState)
    (h : Run (AdmittedStep c) .initial tr s) : OneSpan c tr s := by
  have hinv := run_spans h
  refine ⟨?_, ?_, ?_⟩
  · unfold SpanInv at hinv
    split at hinv
    · exact Or.inl hinv.1
    · exact Or.inl hinv.1
    iterate 6 exact Or.inr (Or.inl hinv.1)
    · obtain ⟨status, -, hinv⟩ := hinv
      exact Or.inr (Or.inr ⟨status, hinv⟩)
    · exact Or.inr (Or.inr ⟨.ok, hinv⟩)
    · exact Or.inr (Or.inr ⟨.ok, hinv⟩)
    · obtain ⟨status, -, hinv⟩ := hinv
      exact Or.inr (Or.inr ⟨status, hinv⟩)
    · exact hinv.elim
  · intro output hphase
    simp only [SpanInv, hphase] at hinv
    exact hinv
  · intro failure hphase
    cases failure <;> simp only [SpanInv, hphase] at hinv
    case call error =>
      obtain ⟨status, hstatus, hclosed⟩ := hinv
      exact ⟨error, status, rfl, hstatus, hclosed⟩

def someSelection : ReasonSelection := ⟨js "p", js "m", .high, none, true⟩

def someCall (reason : Option ReasonSelection) : ModelCall where
  spanId := js "span"
  parent := js "step"
  role := .reason
  turn := some 1
  step := some 1
  layers := ⟨[], List.nodup_nil⟩
  reason := reason
  maxTokens := none
  estimatedInputTokens := 100
  selectAutomaticRoutes := false
  retrySessions := none
  retryBots := none

def someClock : Clock := ⟨0, natText⟩

def someResult : ModelResult where
  text := js "hi"
  reasoning := none
  toolCalls := []
  usage := none
  finishReason := none
  metrics := ⟨none, none, none, none, none, none, []⟩

def answeredActions : List CallAction :=
  [.listed none, .appended none, .issued, .event (.text (js "hi")), .settled (.ok someResult) someClock,
    .appended none]

def Phase.output : Phase → Option ModelCallOutput
  | .done (.ok output) => some output
  | _ => none

theorem Phase.eq_of_output {phase : Phase} {output : ModelCallOutput} (h : phase.output = some output) :
    phase = .done (.ok output) := by
  unfold Phase.output at h
  split at h
  · rw [Option.some.inj h]
  · cases h

theorem one_span_answered : ∃ os s, Run (AdmittedStep (someCall (some someSelection))) .initial
    (answeredActions.zip os) s ∧
    (∃ output, s.phase = .done (.ok output)) ∧
    OneSpan (someCall (some someSelection)) (answeredActions.zip os) s := by
  have hexec :
      (exec (guarded (someCall (some someSelection)).passes (callStep (someCall (some someSelection)))) .initial
      answeredActions).any (fun r => r.1.phase.output.isSome) = true := by decide
  obtain ⟨⟨s, os⟩, hrun, hs⟩ := (Option.any_eq_true _ _).mp hexec
  obtain ⟨output, houtput⟩ := Option.isSome_iff_exists.mp hs
  exact ⟨os, s, run_of_exec hrun, ⟨output, Phase.eq_of_output houtput⟩, one_span _ _ s (run_of_exec hrun)⟩

def Phase.failure : Phase → Option CallFailure
  | .done (.error failure) => some failure
  | _ => none

def isStart (draft : LedgerEventDraft) : Bool :=
  match draft.body with
  | .spanStarted _ => true
  | _ => false

theorem Phase.eq_of_failure {phase : Phase} {failure : CallFailure} (h : phase.failure = some failure) :
    phase = .done (.error failure) := by
  unfold Phase.failure at h
  split at h
  · rw [Option.some.inj h]
  · cases h

/-- A call without a selection fails without a start, and a call with an empty provider throws the error with which
the append of its finish fails. -/
theorem not_one_span :
    (∃ tr s failure, Run (CallStep (someCall none)) .initial tr s ∧ s.phase = .done (.error failure) ∧
      ∀ request, startedDraft (someCall none) request ∉ drafts tr) ∧
    ∃ c tr s, Run (CallStep c) .initial tr s ∧ s.phase = .done (.error (.thrown (.plain (js "ENOSPC")))) := by
  constructor
  · have hexec : (exec (callStep (someCall none)) .initial [.listed none, .appended none]).any (fun r =>
        r.1.phase.failure.isSome &&
          (drafts ([.listed none, .appended none].zip r.2)).all fun draft => !isStart draft) = true := by
      decide
    obtain ⟨⟨s, os⟩, hrun, hs⟩ := (Option.any_eq_true _ _).mp hexec
    rw [Bool.and_eq_true, Option.isSome_iff_exists] at hs
    obtain ⟨⟨failure, hfailure⟩, hdrafts⟩ := hs
    refine ⟨_, s, failure, run_of_exec hrun, Phase.eq_of_failure hfailure, ?_⟩
    intro request hmem
    have := List.all_eq_true.mp hdrafts _ hmem
    cases this
  · have hexec : (exec (callStep (someCall (some { someSelection with provider := [] }))) .initial
        [.listed none, .appended (some (js "ENOSPC"))]).any (fun r =>
          r.1.phase.failure == some (.thrown (.plain (js "ENOSPC")))) = true := by decide
    obtain ⟨⟨s, os⟩, hrun, hs⟩ := (Option.any_eq_true _ _).mp hexec
    exact ⟨_, _, s, run_of_exec hrun, Phase.eq_of_failure (beq_iff_eq.mp hs)⟩

end Wrenyard.Calls
