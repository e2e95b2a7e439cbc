import Wrenyard.Calls.Spans

/-!
# The retries of a main reasoning call

What every step of a call in the `reason` role keeps (`callStep_done`): the state knows the attempts of all tries, the
wait reported last and the retries used, every transport call is made for a candidate that may be called, and a model
that was excluded stays so.
-/

namespace Wrenyard.Calls

open Js Session Transition List

/-- What the rest of the call depends on of the run so far. -/
structure Tally where
  /-- The transport calls. -/
  requests : Nat
  /-- The upstream requests. -/
  issued : Nat
  /-- The attempts of all tries that have ended, in order. -/
  attempts : List ModelAttempt
  /-- The wait reported last. -/
  reported : Option Wait
  /-- The call is aborted. -/
  aborted : Bool

namespace Tally

def zero : Tally := ⟨0, 0, [], none, false⟩

def input (σ : Tally) : CallAction → Tally
  | .abort => { σ with aborted := true }
  | .issued => { σ with issued := σ.issued + 1 }
  | .settled (.ok result) _ => { σ with attempts := σ.attempts ++ result.metrics.attempts }
  | .settled (.error e) _ => { σ with attempts := σ.attempts ++ attemptsOf e.metrics }
  | _ => σ

def effect (σ : Tally) : Effect → Tally
  | .complete _ => { σ with requests := σ.requests + 1 }
  | .onWait state => { σ with reported := state }
  | _ => σ

def ofRun (tr : List (CallAction × List Effect)) : Tally :=
  tr.foldl (fun σ e => e.2.foldl effect (σ.input e.1)) zero

theorem ofRun_snoc (tr : List (CallAction × List Effect)) (e : CallAction × List Effect) :
    ofRun (tr ++ [e]) = e.2.foldl effect ((ofRun tr).input e.1) := by
  rw [ofRun, foldl_append]
  rfl

end Tally

theorem attemptsOf_mergedMetrics (base : Option ModelMetrics) (attempts : List ModelAttempt) :
    attemptsOf (mergedMetrics base attempts) = if attempts = [] then attemptsOf base else attempts := by
  unfold mergedMetrics
  split
  · rfl
  · rfl

variable {c : ModelCall} {s : CallState} {σ : Tally} {excluded : List JsString} {m : Move}

structure Loop (c : ModelCall) (σ : Tally) (r : Reasoning) : Prop where
  first : c.reason = some r.first
  own : r.first.automatic = false → r.candidates = [r.first]
  lastError : ∀ e, r.lastError = some e → σ.attempts = [] → attemptsOf e.metrics = []
  keys : ∀ candidate ∈ r.candidates, ∃ key, routeKeyOf candidate.provider candidate.model = .ok key

structure Callable (r : Reasoning) (t : Try) : Prop where
  model : routeKeyOf t.candidate.provider t.candidate.model = .ok t.model
  mem : t.candidate ∈ r.candidates
  fresh : t.model ∉ r.excludedModels

structure Known (σ : Tally) (s : CallState) : Prop where
  attempts : s.routeAttempts = σ.attempts
  reported : s.waiting = σ.reported
  issued : σ.issued ≤ σ.requests
  requests : σ.requests ≤ REASONING_MAX_RETRIES + 1
  aborted : s.aborted = σ.aborted

structure Quiet (s : CallState) : Prop where
  output : s.outputStarted = false
  stale : s.stale = false

section

variable (c : ModelCall) (σ : Tally)

def PhaseInv (s : CallState) : Prop :=
  match s.phase with
  | .loadingModels => σ.requests = 0 ∧ σ.attempts = [] ∧ Quiet s
  | .startingReasoning r t =>
    Loop c σ r ∧ Callable r t ∧ r.started = true ∧ r.retriesUsed = 0 ∧ σ.requests = 0 ∧ Quiet s
  | .calling r t issued => Loop c σ r ∧ Callable r t ∧ r.started = true ∧ σ.requests = r.retriesUsed + 1 ∧
      (issued = false → σ.issued < σ.requests ∧ s.outputStarted = false) ∧ s.stale = false
  | .loadingLadder r _ _ => Loop c σ r ∧ r.started = true ∧ r.retriesUsed < REASONING_MAX_RETRIES ∧
      r.first.automatic = true ∧ σ.requests = r.retriesUsed + 1 ∧ Quiet s
  | .waiting r t switchRoute => Loop c σ r ∧ r.started = true ∧ r.retriesUsed ≤ REASONING_MAX_RETRIES ∧
      σ.requests = r.retriesUsed ∧ (switchRoute = false → Callable r t) ∧ Quiet s
  | .failing _ _ => True
  | .finishing _ => s.waiting = none
  | .done _ => s.waiting = none
  | _ => False

def Excluded (model : JsString) (s : CallState) : Prop :=
  match s.phase with
  | .startingReasoning r _ => model ∈ r.excludedModels
  | .calling r _ _ => model ∈ r.excludedModels
  | .loadingLadder r _ _ => model ∈ r.excludedModels
  | .waiting r _ _ => model ∈ r.excludedModels
  | .failing _ _ => True
  | .finishing _ => True
  | .done _ => True
  | _ => False

private theorem metrics_of_finishedDraft {s s' : CallState} {status status' : SpanStatus}
    {fields fields' : FinishFields}
    (h : Effect.append (finishedDraft c s' status' fields') ∈ [Effect.append (finishedDraft c s status fields)]) :
    fields'.metrics = fields.metrics := by
  have hdraft := congrArg LedgerEventDraft.body (Effect.append.inj (mem_singleton.mp h))
  simp only [finishedDraft, EventBody.spanFinished.injEq, SpanFinishedEvent.mk.injEq, SpanFinishedKind.model.injEq,
    ModelSpanResult.mk.injEq] at hdraft
  exact hdraft.2.2.2.2.2.2.2

structure MoveDone (excluded : List JsString) (m : Move) : Prop where
  known : Known (m.2.foldl Tally.effect σ) m.1
  phase : PhaseInv c (m.2.foldl Tally.effect σ) m.1
  /-- A transport call is made for the candidate the call then waits for. -/
  calls : ∀ request, Effect.complete request ∈ m.2 → ∃ r t, m.1.phase = .calling r t false ∧ request.model = t.model
  /-- The models that were excluded stay so. -/
  excluded : ∀ model ∈ excluded, Excluded model m.1
  /-- A finish records the attempts of all tries. -/
  recorded : ∀ s' status fields, Effect.append (finishedDraft c s' status fields) ∈ m.2 →
    attemptsOf fields.metrics = σ.attempts

end

variable {state : Option Wait}

variable (hrole : c.role = .reason)
include hrole

variable (hknown : Known σ s)
include hknown

theorem MoveDone.report {next : CallState → Move}
    (h : ∀ σ', Known σ' { s with waiting := state } → σ'.requests = σ.requests → σ'.issued = σ.issued →
      σ'.attempts = σ.attempts → MoveDone c σ' excluded (next { s with waiting := state })) :
    MoveDone c σ excluded (Move.andThen (reportWait c s state) next) := by
  by_cases heq : s.waiting = state
  · have hreport : reportWait c s state = (s, []) := by
      unfold reportWait
      rw [if_pos (Or.inr heq)]
    have hs : { s with waiting := state } = s := by rw [← heq]
    rw [hreport]
    have := h σ (by rw [hs]; exact hknown) rfl rfl rfl
    rw [hs] at this
    exact this
  · have hreport : reportWait c s state = ({ s with waiting := state }, [.onWait state]) := by
      unfold reportWait
      rw [if_neg (by simp [hrole, heq])]
    rw [hreport]
    have hdone := h { σ with reported := state } ⟨hknown.attempts, rfl, hknown.issued, hknown.requests,
        hknown.aborted⟩ rfl rfl rfl
    refine ⟨hdone.known, hdone.phase, ?_, hdone.excluded, ?_⟩
    · intro request hmem
      rcases mem_cons.mp hmem with heq | hmem
      · cases heq
      · exact hdone.calls request hmem
    · intro s' status fields hmem
      rcases mem_cons.mp hmem with heq | hmem
      · cases heq
      · exact hdone.recorded s' status fields hmem

theorem conclude_done (outcome : Except CallFailure ModelCallOutput) :
    MoveDone c σ excluded (conclude c s outcome) := by
  refine MoveDone.report hrole hknown fun σ' hknown' _ _ _ => ?_
  exact ⟨⟨hknown'.attempts, hknown'.reported, hknown'.issued, hknown'.requests, hknown'.aborted⟩, rfl, by simp,
    fun _ _ => trivial, by simp⟩

theorem fail_done (inCatch : Bool) (message : JsString) {detail : FailDetail}
    (hdetail : attemptsOf detail.metrics = σ.attempts) : MoveDone c σ excluded (fail c s inCatch message detail) := by
  unfold fail
  split
  · exact conclude_done hrole hknown _
  refine ⟨⟨hknown.attempts, hknown.reported, hknown.issued, hknown.requests, hknown.aborted⟩, trivial, by simp,
    fun _ _ => trivial, ?_⟩
  intro s' status fields hmem
  rw [metrics_of_finishedDraft c hmem]
  exact hdetail

theorem caught_done {error : Thrown}
    (herror : σ.attempts = [] → attemptsOf error.metrics = []) : MoveDone c σ excluded (caught c s error) := by
  refine fail_done hrole hknown true _ ?_
  rw [attemptsOf_mergedMetrics, hknown.attempts]
  split
  · rename_i hnil
    rw [herror hnil, hnil]
  · rfl

theorem completed_done {result : ModelResult}
    (hresult : σ.attempts = [] → result.metrics.attempts = []) : MoveDone c σ excluded (completed c s result) := by
  refine MoveDone.report hrole hknown fun σ' hknown' _ _ hattempts => ?_
  split
  · exact ⟨⟨hknown'.attempts, hknown'.reported, hknown'.issued, hknown'.requests, hknown'.aborted⟩, rfl, by simp,
      fun _ _ => trivial,
      by simp⟩
  refine ⟨⟨hknown'.attempts, hknown'.reported, hknown'.issued, hknown'.requests, hknown'.aborted⟩, rfl, by simp,
    fun _ _ => trivial, ?_⟩
  intro s' status fields hmem
  rw [metrics_of_finishedDraft c hmem]
  have hmerged : attemptsOf (some ((mergedMetrics (some result.metrics) s.routeAttempts).getD result.metrics)) =
      attemptsOf (mergedMetrics (some result.metrics) s.routeAttempts) := by
    unfold mergedMetrics
    split <;> rfl
  rw [hmerged, attemptsOf_mergedMetrics, hknown.attempts, hattempts]
  split
  · rename_i hnil
    rw [hnil]
    exact hresult hnil
  · rfl

omit hknown

omit hrole

/-! ### The candidate loop -/

theorem metrics_of_routeKeyOf {provider model : JsString} {e : Thrown} (h : routeKeyOf provider model = .error e) :
    e.metrics = none := by
  unfold routeKeyOf at h
  dsimp only at h
  split at h
  · cases h
    rfl
  split at h
  · cases h
    rfl
  split at h <;> cases h
  rfl

theorem nextCandidate_spec (models : List GatewayModel) (excludedModels : List JsString)
    (rest : List ReasonSelection) :
    ∀ index,
      (∀ i t, nextCandidate c models excludedModels index rest = .found i t →
        index ≤ i ∧ t.candidate ∈ rest ∧ routeKeyOf t.candidate.provider t.candidate.model = .ok t.model ∧
          t.model ∉ excludedModels) ∧
      (∀ message, nextCandidate c models excludedModels index rest = .refused message → index = 0) ∧
      (∀ e, nextCandidate c models excludedModels index rest = .thrown e → attemptsOf e.metrics = []) := by
  induction rest with
  | nil =>
    intro index
    simp [nextCandidate]
  | cons candidate rest ih =>
    intro index
    obtain ⟨hfound, hrefused, hthrown⟩ := ih (index + 1)
    have hnext :
        (∀ i t, nextCandidate c models excludedModels (index + 1) rest = .found i t →
          index ≤ i ∧ t.candidate ∈ candidate :: rest ∧
            routeKeyOf t.candidate.provider t.candidate.model = .ok t.model ∧ t.model ∉ excludedModels) ∧
        (∀ message, nextCandidate c models excludedModels (index + 1) rest = .refused message → index = 0) ∧
        (∀ e, nextCandidate c models excludedModels (index + 1) rest = .thrown e → attemptsOf e.metrics = []) := by
      refine ⟨fun i t h => ?_, fun message h => ?_, hthrown⟩
      · obtain ⟨hle, hmem, hkey, hfresh⟩ := hfound i t h
        exact ⟨by omega, mem_cons_of_mem _ hmem, hkey, hfresh⟩
      · have := hrefused message h
        omega
    unfold nextCandidate
    cases hkey : routeKeyOf candidate.provider candidate.model with
    | error e =>
      refine ⟨by simp, by simp, ?_⟩
      intro e' he
      cases he
      rw [metrics_of_routeKeyOf hkey]
      rfl
    | ok model =>
      dsimp only
      split
      · exact hnext
      rename_i hfresh
      split
      · split
        · exact ⟨by simp, fun _ _ => by assumption, by simp⟩
        · exact hnext
      split
      · split
        · exact ⟨by simp, fun _ _ => by assumption, by simp⟩
        · exact hnext
      refine ⟨?_, by simp, by simp⟩
      intro i t h
      cases h
      exact ⟨Nat.le_refl _, mem_cons_self .., hkey, by simpa using hfresh⟩

variable {r : Reasoning}

theorem Loop.of_attempts {σ' : Tally} (h : Loop c σ r) (heq : σ'.attempts = σ.attempts) : Loop c σ' r :=
  ⟨h.first, h.own, by rw [heq]; exact h.lastError, h.keys⟩

variable {t : Try}

theorem callModel_done (hknown : Known σ s) (hloop : Loop c σ r) (hcallable : Callable r t)
    (hstarted : r.started = true) (hrequests : σ.requests = r.retriesUsed)
    (hbound : r.retriesUsed ≤ REASONING_MAX_RETRIES) (hquiet : Quiet s)
    (hexcluded : ∀ model ∈ excluded, model ∈ r.excludedModels) : MoveDone c σ excluded (callModel c s r t) := by
  have hissued := hknown.issued
  refine ⟨⟨hknown.attempts, hknown.reported, ?_, ?_, hknown.aborted⟩, ?_, ?_, hexcluded, ?_⟩
  · change σ.issued ≤ σ.requests + 1
    omega
  · change σ.requests + 1 ≤ REASONING_MAX_RETRIES + 1
    omega
  · refine ⟨⟨hloop.first, hloop.own, hloop.lastError, hloop.keys⟩, hcallable, hstarted, ?_,
      fun _ => ⟨?_, hquiet.output⟩, hquiet.stale⟩
    · change σ.requests + 1 = r.retriesUsed + 1
      omega
    · change σ.issued < σ.requests + 1
      omega
  · intro request hmem
    exact ⟨r, t, rfl, by rw [Effect.complete.inj (mem_singleton.mp hmem)]⟩
  · intro s' status fields hmem
    cases mem_singleton.mp hmem

theorem proceed_done (hrole : c.role = .reason) (hknown : Known σ s) (hloop : Loop c σ r)
    (hrequests : σ.requests = r.retriesUsed) (hbound : r.retriesUsed ≤ REASONING_MAX_RETRIES) (hquiet : Quiet s)
    (hindex : r.index = 0 → σ.attempts = []) (hstarted : r.started = false → r.retriesUsed = 0)
    (hexcluded : ∀ model ∈ excluded, model ∈ r.excludedModels ∧ r.started = true) :
    MoveDone c σ excluded (proceed c s r) := by
  obtain ⟨hfound, hrefused, hthrown⟩ :=
    nextCandidate_spec (c := c) s.models r.excludedModels (r.candidates.drop r.index) r.index
  unfold proceed
  cases hnext : nextCandidate c s.models r.excludedModels r.index (r.candidates.drop r.index) with
  | exhausted =>
    refine caught_done hrole hknown fun hnil => ?_
    cases hlast : r.lastError with
    | none => rfl
    | some e => exact hloop.lastError e hlast hnil
  | thrown e => exact caught_done hrole hknown fun _ => hthrown e hnext
  | refused message => exact fail_done hrole hknown false message (hindex (hrefused message hnext)).symm
  | found index t =>
    obtain ⟨-, hmem, hkey, hfresh⟩ := hfound index t hnext
    have hcallable : Callable { r with index := index } t := ⟨hkey, mem_of_mem_drop hmem, hfresh⟩
    have hloop' : Loop c σ { r with index := index } := ⟨hloop.first, hloop.own, hloop.lastError, hloop.keys⟩
    dsimp only
    split
    · rename_i hr
      refine callModel_done ?_ hloop' hcallable hr hrequests hbound ⟨hquiet.output, hquiet.stale⟩
        fun model hmodel => (hexcluded model hmodel).1
      exact ⟨hknown.attempts, hknown.reported, hknown.issued, hknown.requests, hknown.aborted⟩
    rename_i hr
    have hzero : r.retriesUsed = 0 := hstarted (by simpa using hr)
    refine ⟨⟨hknown.attempts, hknown.reported, hknown.issued, hknown.requests, hknown.aborted⟩, ?_, ?_, ?_, ?_⟩
    · exact ⟨⟨hloop.first, hloop.own, hloop.lastError, hloop.keys⟩, ⟨hkey, mem_of_mem_drop hmem, hfresh⟩, rfl, hzero,
        hrequests.trans hzero, ⟨hquiet.output, hquiet.stale⟩⟩
    · intro request hmem
      cases mem_singleton.mp hmem
    · intro model hmodel
      exact absurd (hexcluded model hmodel).2 hr
    · intro s' status fields hmem
      have := Effect.append.inj (mem_singleton.mp hmem)
      cases congrArg LedgerEventDraft.body this

theorem retry_done (hrole : c.role = .reason) (hknown : Known σ s) (hloop : Loop c σ r) (hstarted : r.started = true)
    (hrequests : σ.requests = r.retriesUsed + 1) (hbound : r.retriesUsed < REASONING_MAX_RETRIES) (hquiet : Quiet s)
    (capacity : Bool) {switchRoute : Bool} (hcallable : switchRoute = false → Callable r t) (clock : Clock)
    (hexcluded : ∀ model ∈ excluded, model ∈ r.excludedModels) :
    MoveDone c σ excluded (retry c s r t capacity switchRoute clock) := by
  unfold retry
  split
  · refine proceed_done hrole hknown ⟨hloop.first, hloop.own, hloop.lastError, hloop.keys⟩ hrequests
      (by exact hbound) hquiet ?_ ?_
      fun model hmodel => ⟨hexcluded model hmodel, hstarted⟩
    · exact nofun
    · intro hno
      change r.started = false at hno
      rw [hstarted] at hno
      cases hno
  · refine MoveDone.report hrole hknown fun σ' hknown' hreq _ hattempts => ?_
    split
    · exact MoveDone.report hrole hknown' fun σ'' hknown'' _ _ _ => caught_done hrole hknown'' fun _ => rfl
    refine ⟨⟨hknown'.attempts, hknown'.reported, hknown'.issued, hknown'.requests, hknown'.aborted⟩, ?_, ?_,
      hexcluded, ?_⟩
    · refine ⟨⟨hloop.first, hloop.own, ?_, hloop.keys⟩, hstarted, by exact hbound, by exact hreq.trans hrequests, ?_,
        hquiet.output, hquiet.stale⟩
      · change ∀ e, r.lastError = some e → σ'.attempts = [] → _
        rw [hattempts]
        exact hloop.lastError
      · intro hswitch
        have := hcallable hswitch
        exact ⟨this.model, this.mem, this.fresh⟩
    · intro request hmem
      cases mem_singleton.mp hmem
    · intro s' status fields hmem
      cases mem_singleton.mp hmem

theorem attemptFailed_done (hrole : c.role = .reason) {error : Thrown}
    (hknown : Known σ { s with routeAttempts := s.routeAttempts ++ attemptsOf error.metrics }) (hloop : Loop c σ r)
    (hcallable : Callable r t) (hstarted : r.started = true) (hrequests : σ.requests = r.retriesUsed + 1)
    (hstale : s.aborted = false → s.stale = false) (clock : Clock)
    (hexcluded : ∀ model ∈ excluded, model ∈ r.excludedModels) :
    MoveDone c σ excluded (attemptFailed c s r t error clock) := by
  have herror : σ.attempts = [] → attemptsOf error.metrics = [] := by
    intro hnil
    have hattempts := hknown.attempts
    rw [hnil] at hattempts
    exact (append_eq_nil_iff.mp hattempts).2
  unfold attemptFailed
  dsimp only
  split
  · exact caught_done hrole hknown herror
  rename_i hretry
  simp only [Bool.or_eq_true, decide_eq_true_eq, not_or, Bool.not_eq_true, Nat.not_le] at hretry
  obtain ⟨⟨⟨⟨⟨-, haborted⟩, houtput⟩, -⟩, hlt⟩, -⟩ := hretry
  have hquiet : Quiet { s with routeAttempts := s.routeAttempts ++ attemptsOf error.metrics } :=
    ⟨houtput, hstale haborted⟩
  have hlast : ∀ e, some error = some e → σ.attempts = [] → attemptsOf e.metrics = [] := by
    rintro e heq hnil
    rw [← Option.some.inj heq]
    exact herror hnil
  split
  · rename_i hswitch
    rw [Bool.and_eq_true] at hswitch
    have hadd : ∀ model ∈ excluded, model ∈ OSet.add r.excludedModels t.model := fun model hmodel =>
      OSet.mem_add.mpr (Or.inl (hexcluded model hmodel))
    split
    · refine retry_done hrole hknown ?_ ?_ ?_ ?_ hquiet _ ?_ clock ?_
      · exact ⟨hloop.first, hloop.own, hlast, hloop.keys⟩
      · exact hstarted
      · exact hrequests
      · exact hlt
      · exact nofun
      · exact hadd
    · refine ⟨⟨hknown.attempts, hknown.reported, hknown.issued, hknown.requests, hknown.aborted⟩, ?_, ?_, hadd, ?_⟩
      · exact ⟨⟨hloop.first, hloop.own, hlast, hloop.keys⟩, hstarted, hlt, hswitch.1, hrequests, hquiet.output,
          hquiet.stale⟩
      · intro request hmem
        cases mem_singleton.mp hmem
      · intro s' status fields hmem
        cases mem_singleton.mp hmem
  · refine retry_done hrole hknown ?_ ?_ ?_ ?_ hquiet _ ?_ clock ?_
    · exact ⟨hloop.first, hloop.own, hlast, hloop.keys⟩
    · exact hstarted
    · exact hrequests
    · exact hlt
    · exact fun _ => ⟨hcallable.model, hcallable.mem, hcallable.fresh⟩
    · exact hexcluded

theorem metrics_of_addCandidates {ladder : List ReasonSelection} :
    ∀ {candidates : List ReasonSelection} {e : Thrown}, addCandidates candidates ladder = .error e →
    e.metrics = none := by
  have hany (key : JsString) : ∀ {known : List ReasonSelection} {e : Thrown},
      (known.anyM fun known => return (← routeKeyOf known.provider known.model) == key) = .error e →
        e.metrics = none := by
    intro known
    induction known with
    | nil =>
      intro e h
      cases h
    | cons selection known ih =>
      intro e h
      rw [List.anyM] at h
      cases hkey : routeKeyOf selection.provider selection.model <;> rw [hkey] at h
      case error e' =>
        cases h
        exact metrics_of_routeKeyOf hkey
      case ok model =>
        cases heq : model == key <;> simp only [bind, Except.bind, pure, Except.pure, heq] at h
        case true => cases h
        case false => exact ih h
  induction ladder with
  | nil =>
    intro candidates e h
    cases h
  | cons candidate ladder ih =>
    intro candidates e h
    rw [addCandidates] at h
    cases hkey : routeKeyOf candidate.provider candidate.model <;> rw [hkey] at h
    case error e' =>
      cases h
      exact metrics_of_routeKeyOf hkey
    case ok key =>
      simp only [bind, Except.bind] at h
      split at h
      · rename_i e' hknown
        cases h
        exact hany key hknown
      · split at h
        · exact ih h
        · exact ih h

theorem keys_of_addCandidates {ladder : List ReasonSelection} :
    ∀ {candidates candidates' : List ReasonSelection}, addCandidates candidates ladder = .ok candidates' →
    (∀ candidate ∈ candidates, ∃ key, routeKeyOf candidate.provider candidate.model = .ok key) →
    ∀ candidate ∈ candidates', ∃ key, routeKeyOf candidate.provider candidate.model = .ok key := by
  induction ladder with
  | nil =>
    intro candidates candidates' h hkeys
    cases h
    exact hkeys
  | cons candidate ladder ih =>
    intro candidates candidates' h hkeys
    rw [addCandidates] at h
    cases hkey : routeKeyOf candidate.provider candidate.model <;> rw [hkey] at h
    case error e => cases h
    case ok key =>
      simp only [bind, Except.bind] at h
      split at h
      · cases h
      split at h
      · exact ih h hkeys
      refine ih h fun candidate' hmem => ?_
      rcases mem_append.mp hmem with hmem | hmem
      · exact hkeys candidate' hmem
      · rw [mem_singleton.mp hmem]
        exact ⟨key, hkey⟩

theorem ladderRead_done (hrole : c.role = .reason) (hknown : Known σ s) (hloop : Loop c σ r)
    (hautomatic : r.first.automatic = true) (hstarted : r.started = true)
    (hrequests : σ.requests = r.retriesUsed + 1) (hbound : r.retriesUsed < REASONING_MAX_RETRIES) (hquiet : Quiet s)
    (capacity : Bool) (ladder : Option (List ReasonSelection)) (clock : Clock)
    (hexcluded : ∀ model ∈ excluded, model ∈ r.excludedModels) :
    MoveDone c σ excluded (ladderRead c s r t capacity ladder clock) := by
  have hno : true = false → Callable r t := by
    intro hno
    cases hno
  unfold ladderRead
  split
  · split
    · exact caught_done hrole hknown fun _ => rfl
    · exact retry_done hrole hknown hloop hstarted hrequests hbound hquiet _ hno clock hexcluded
  split
  · rename_i e hadd
    refine caught_done hrole hknown fun _ => ?_
    rw [metrics_of_addCandidates hadd]
    rfl
  rename_i candidates hadd
  have hloop' : Loop c σ { r with candidates := candidates } := by
    refine ⟨hloop.first, ?_, hloop.lastError, keys_of_addCandidates hadd hloop.keys⟩
    intro hfalse
    change r.first.automatic = false at hfalse
    rw [hautomatic] at hfalse
    cases hfalse
  refine retry_done hrole hknown hloop' hstarted hrequests hbound hquiet _ ?_ clock hexcluded
  intro hno
  cases hno

/-! ### Steps -/

theorem start_done (hrole : c.role = .reason) (hknown : Known σ s) (hrequests : σ.requests = 0)
    (hattempts : σ.attempts = [])
    (hquiet : Quiet s) : MoveDone c σ [] (start c s) := by
  unfold start
  rw [hrole]
  dsimp only
  split
  · exact fail_done hrole hknown false _ hattempts.symm
  rename_i first hfirst
  split
  · rename_i e hkey
    refine caught_done hrole hknown fun _ => ?_
    rw [metrics_of_routeKeyOf hkey]
    rfl
  rename_i model hkey
  have hknown' : Known σ { s with model := model } :=
    ⟨hknown.attempts, hknown.reported, hknown.issued, hknown.requests, hknown.aborted⟩
  split
  · exact fail_done hrole hknown' false _ hattempts.symm
  refine proceed_done hrole hknown' ⟨hfirst, fun _ => rfl, ?_, ?_⟩ hrequests (Nat.zero_le _)
    ⟨hquiet.output, hquiet.stale⟩ (fun _ => hattempts) (fun _ => rfl) ?_
  · intro e he
    cases he
  · intro candidate hmem
    rw [mem_singleton.mp hmem]
    exact ⟨model, hkey⟩
  · intro model' hmem
    cases hmem

/-- The phases in which events are reported: a transport call that has sent its request, and the end of the call. -/
def Hears (s : CallState) (e : ModelEvent) : Prop :=
  (∃ r t, s.phase = .calling r t true) ∨ (s.stale = true ∧ e.fromAdapter = true)

variable {e : ModelEvent}

/-- An event leaves the phase and reports at most the end of the wait, unless the transport call goes on. -/
theorem PhaseInv.event {σ' : Tally} (hears : Hears s e) (h : PhaseInv c σ s)
    (hstate : e.fromAdapter = true → state = none) (hrequests : σ'.requests = σ.requests)
    (hattempts : σ'.attempts = σ.attempts) (output : Bool) (usage : Option Usage) :
    PhaseInv c σ' { s with waiting := state, outputStarted := output, partialUsage := usage } := by
  rcases hears with ⟨r, t, hphase⟩ | ⟨hstale, hadapter⟩
  · simp only [PhaseInv, hphase] at h ⊢
    obtain ⟨hloop, hcallable, hstarted, hreq, -, hstale⟩ := h
    refine ⟨hloop.of_attempts hattempts, hcallable, hstarted, by rw [hrequests]; exact hreq, ?_, hstale⟩
    intro hno
    cases hno
  · have hnone := hstate hadapter
    have hloud : ¬ Quiet s := by
      rintro ⟨-, hquiet⟩
      rw [hstale] at hquiet
      cases hquiet
    unfold PhaseInv at h ⊢
    dsimp only
    split at h
    · exact absurd h.2.2 hloud
    · exact absurd h.2.2.2.2.2 hloud
    · have hquiet := h.2.2.2.2.2
      rw [hstale] at hquiet
      cases hquiet
    · exact absurd h.2.2.2.2.2 hloud
    · exact absurd h.2.2.2.2.2 hloud
    · trivial
    · exact hnone
    · exact hnone
    · exact h.elim

theorem Excluded.of_phase {s' : CallState} {model : JsString} (h : Excluded model s) (hphase : s'.phase = s.phase) :
    Excluded model s' := by
  unfold Excluded at h ⊢
  rw [hphase]
  exact h

def Effect.isText : Effect → Bool
  | .onText _ => true
  | .onReasoning _ => true
  | .onToolCall _ => true
  | _ => false

theorem tally_of_isText {effects : List Effect} (h : ∀ x ∈ effects, x.isText = true) :
    effects.foldl Tally.effect σ = σ := by
  induction effects with
  | nil => rfl
  | cons x effects ih =>
    have hx : σ.effect x = σ := by
      have := h x (mem_cons_self ..)
      cases x with
      | onText => rfl
      | onReasoning => rfl
      | onToolCall => rfl
      | _ => cases this
    rw [foldl_cons, hx]
    exact ih fun x hx => h x (mem_cons_of_mem _ hx)

theorem event_done (hears : Hears s e) (h : PhaseInv c σ s)
    (hexcluded : ∀ model ∈ excluded, Excluded model s) {σ' : Tally} (hstate : e.fromAdapter = true → state = none)
    (hknown' : Known σ' { s with waiting := state }) (hrequests : σ'.requests = σ.requests)
    (hattempts : σ'.attempts = σ.attempts) (output : Bool) (usage : Option Usage) {effects : List Effect}
    (heffects : ∀ x ∈ effects, x.isText = true) :
    MoveDone c σ' excluded ({ s with waiting := state, outputStarted := output, partialUsage := usage },
      effects) := by
  have htally : effects.foldl Tally.effect σ' = σ' := tally_of_isText heffects
  refine ⟨?_, ?_, ?_, ?_, ?_⟩
  · rw [htally]
    exact ⟨hknown'.attempts, hknown'.reported, hknown'.issued, hknown'.requests, hknown'.aborted⟩
  · rw [htally]
    exact h.event hears hstate hrequests hattempts output usage
  · intro request hmem
    cases heffects _ hmem
  · exact fun model hmodel => (hexcluded model hmodel).of_phase rfl
  · intro s' status fields hmem
    cases heffects _ hmem

/-- A report that nothing follows. -/
theorem MoveDone.reported (hrole : c.role = .reason) (hknown : Known σ s)
    (h : ∀ σ', Known σ' { s with waiting := state } → σ'.requests = σ.requests → σ'.issued = σ.issued →
      σ'.attempts = σ.attempts → MoveDone c σ' excluded ({ s with waiting := state }, [])) :
    MoveDone c σ excluded (reportWait c s state) := by
  have hmove : MoveDone c σ excluded (Move.andThen (reportWait c s state) fun s => (s, [])) :=
    MoveDone.report hrole hknown h
  unfold Move.andThen at hmove
  rw [append_nil] at hmove
  exact hmove

theorem onEvent_done (hrole : c.role = .reason) (hknown : Known σ s) (h : PhaseInv c σ s)
    (hears : Hears s e) (hexcluded : ∀ model ∈ excluded, Excluded model s) :
    MoveDone c σ excluded (onEvent c s e) := by
  cases e with
  | text | reasoning | toolCall =>
    unfold onEvent
    refine MoveDone.report hrole hknown fun σ' hknown' hrequests _ hattempts => ?_
    exact event_done hears h hexcluded (fun _ => rfl) hknown' hrequests hattempts _ s.partialUsage
      (by simp [Effect.isText])
  | usage usage =>
    unfold onEvent
    refine MoveDone.report hrole hknown fun σ' hknown' hrequests _ hattempts => ?_
    exact event_done hears h hexcluded (fun _ => rfl) hknown' hrequests hattempts s.outputStarted _ (by simp)
  | activity | retry =>
    refine MoveDone.reported hrole hknown fun σ' hknown' hrequests _ hattempts => ?_
    exact event_done hears h hexcluded (fun _ => rfl) hknown' hrequests hattempts s.outputStarted s.partialUsage
      (by simp)
  | wait wait =>
    refine MoveDone.reported hrole hknown fun σ' hknown' hrequests _ hattempts => ?_
    refine event_done hears h hexcluded ?_ hknown' hrequests hattempts s.outputStarted s.partialUsage (by simp)
    intro hadapter
    cases hadapter

/-- The abort itself ends nothing. -/
theorem PhaseInv.abort (h : PhaseInv c σ s) : PhaseInv c { σ with aborted := true } { s with aborted := true } := by
  have hquiet : Quiet s → Quiet { s with aborted := true } := fun hq => ⟨hq.output, hq.stale⟩
  have hloop {r : Reasoning} : Loop c σ r → Loop c { σ with aborted := true } r := fun h => h.of_attempts rfl
  unfold PhaseInv at h ⊢
  dsimp only
  split at h
  · exact ⟨h.1, h.2.1, hquiet h.2.2⟩
  · exact ⟨hloop h.1, h.2.1, h.2.2.1, h.2.2.2.1, h.2.2.2.2.1, hquiet h.2.2.2.2.2⟩
  · exact ⟨hloop h.1, h.2⟩
  · exact ⟨hloop h.1, h.2.1, h.2.2.1, h.2.2.2.1, h.2.2.2.2.1, hquiet h.2.2.2.2.2⟩
  · exact ⟨hloop h.1, h.2.1, h.2.2.1, h.2.2.2.1, h.2.2.2.2.1, hquiet h.2.2.2.2.2⟩
  · trivial
  · exact h
  · exact h
  · exact h

variable (excluded) in
/-- Every step keeps what is known, and does what it may. -/
theorem callStep_done (hrole : c.role = .reason) (hknown : Known σ s) (h : PhaseInv c σ s) {a : CallAction}
    (hstep : callStep c s a = some m) (hexcluded : ∀ model ∈ excluded, Excluded model s) :
    MoveDone c (σ.input a) excluded m := by
  unfold callStep at hstep
  split at hstep
  · cases hstep
    refine ⟨⟨hknown.attempts, hknown.reported, hknown.issued, hknown.requests, rfl⟩, h.abort, by simp, ?_, by simp⟩
    exact fun model hmodel => (hexcluded model hmodel).of_phase rfl
  · rename_i models hphase
    cases hstep
    simp only [PhaseInv, hphase] at h
    have hmove := start_done (s := { s with models := models.getD [] }) hrole
      ⟨hknown.attempts, hknown.reported, hknown.issued, hknown.requests, hknown.aborted⟩ h.1 h.2.1 ⟨h.2.2.output,
        h.2.2.stale⟩
    refine ⟨hmove.known, hmove.phase, hmove.calls, ?_, hmove.recorded⟩
    intro model hmodel
    have := hexcluded model hmodel
    simp only [Excluded, hphase] at this
  · rename_i e hphase
    simp only [PhaseInv, hphase] at h
  · rename_i route hphase
    simp only [PhaseInv, hphase] at h
  · rename_i route budget hphase
    simp only [PhaseInv, hphase] at h
  · rename_i e route budget hphase
    simp only [PhaseInv, hphase] at h
  · rename_i r t hphase
    cases hstep
    simp only [PhaseInv, hphase] at h
    obtain ⟨hloop, hcallable, hstarted, hzero, hrequests, hquiet⟩ := h
    refine callModel_done hknown hloop hcallable hstarted (hrequests.trans hzero.symm) (by omega) hquiet ?_
    exact fun model hmodel => by simpa only [Excluded, hphase] using hexcluded model hmodel
  · cases hstep
    exact caught_done hrole hknown fun _ => rfl
  · rename_i route hphase
    simp only [PhaseInv, hphase] at h
  · rename_i r t hphase
    simp only [PhaseInv, hphase] at h
    obtain ⟨hloop, hcallable, hstarted, hrequests, hissued, hstale⟩ := h
    split at hstep <;> cases hstep
    have hlt : σ.issued < σ.requests := (hissued trivial).1
    refine ⟨⟨hknown.attempts, hknown.reported, ?_, hknown.requests, hknown.aborted⟩, ?_, by simp, ?_, by simp⟩
    · change σ.issued + 1 ≤ σ.requests
      omega
    · refine ⟨⟨hloop.first, hloop.own, hloop.lastError, hloop.keys⟩, hcallable, hstarted, hrequests, ?_, hstale⟩
      intro hno
      cases hno
    · exact fun model hmodel => by simpa only [Excluded, hphase] using hexcluded model hmodel
  · rename_i e route hphase
    simp only [PhaseInv, hphase] at h
  · rename_i e r t hphase
    cases hstep
    exact onEvent_done hrole hknown h (Or.inl ⟨r, t, hphase⟩) hexcluded
  · split at hstep
    · rename_i hstale
      rw [Bool.and_eq_true] at hstale
      cases hstep
      exact onEvent_done hrole hknown h (Or.inr hstale) hexcluded
    · cases hstep
  · rename_i result clock route hphase
    simp only [PhaseInv, hphase] at h
  · rename_i e clock route issued hphase
    simp only [PhaseInv, hphase] at h
  · rename_i result clock r t hphase
    cases hstep
    refine completed_done hrole ?_ ?_
    · refine ⟨?_, hknown.reported, hknown.issued, hknown.requests, hknown.aborted⟩
      change s.routeAttempts ++ result.metrics.attempts = σ.attempts ++ result.metrics.attempts
      rw [hknown.attempts]
    · intro hnil
      exact (append_eq_nil_iff.mp hnil).2
  · rename_i e clock r t issued hphase
    cases hstep
    simp only [PhaseInv, hphase] at h
    obtain ⟨hloop, hcallable, hstarted, hrequests, -, hstale⟩ := h
    have hknown' : Known { σ with attempts := σ.attempts ++ attemptsOf e.metrics }
        { s.abandon issued with routeAttempts := (s.abandon issued).routeAttempts ++ attemptsOf e.metrics } := by
      refine ⟨?_, hknown.reported, hknown.issued, hknown.requests, hknown.aborted⟩
      change s.routeAttempts ++ attemptsOf e.metrics = σ.attempts ++ attemptsOf e.metrics
      rw [hknown.attempts]
    refine attemptFailed_done hrole hknown' ?_ hcallable hstarted hrequests ?_ clock ?_
    · refine ⟨hloop.first, hloop.own, ?_, hloop.keys⟩
      intro e' he hnil
      exact hloop.lastError e' he (append_eq_nil_iff.mp hnil).1
    · intro haborted
      change s.aborted = false at haborted
      simp [CallState.abandon, hstale, haborted]
    · exact fun model hmodel => by simpa only [Excluded, hphase] using hexcluded model hmodel
  · rename_i ladder clock r t capacity hphase
    cases hstep
    simp only [PhaseInv, hphase] at h
    obtain ⟨hloop, hstarted, hbound, hautomatic, hrequests, hquiet⟩ := h
    refine ladderRead_done hrole hknown hloop hautomatic hstarted hrequests hbound hquiet capacity ladder clock ?_
    exact fun model hmodel => by simpa only [Excluded, hphase] using hexcluded model hmodel
  · rename_i r t switchRoute hphase
    cases hstep
    simp only [PhaseInv, hphase] at h
    obtain ⟨hloop, hstarted, hbound, hrequests, hcallable, hquiet⟩ := h
    have hkept : ∀ model ∈ excluded, model ∈ r.excludedModels := by
      exact fun model hmodel => by simpa only [Excluded, hphase] using hexcluded model hmodel
    refine MoveDone.report hrole hknown fun σ' hknown' hreq _ hattempts => ?_
    split
    · refine proceed_done hrole hknown' ?_ (hreq.trans hrequests) hbound ⟨hquiet.output, hquiet.stale⟩ ?_ ?_ ?_
      · exact ⟨hloop.first, hloop.own, (hloop.of_attempts hattempts).lastError, hloop.keys⟩
      · exact nofun
      · intro hno
        change r.started = false at hno
        rw [hstarted] at hno
        cases hno
      · exact fun model hmodel => ⟨hkept model hmodel, hstarted⟩
    · rename_i hswitch
      exact callModel_done hknown' (hloop.of_attempts hattempts) (hcallable (by simpa using hswitch)) hstarted
        (hreq.trans hrequests) hbound ⟨hquiet.output, hquiet.stale⟩ hkept
  · split at hstep <;> cases hstep
    exact MoveDone.report hrole hknown fun σ' hknown' _ _ _ => caught_done hrole hknown' fun _ => rfl
  · cases hstep
    exact conclude_done hrole hknown _
  · split at hstep
    · cases hstep
      exact conclude_done hrole hknown _
    · cases hstep
      exact caught_done hrole hknown fun _ => rfl
  · rename_i output hphase
    cases hstep
    simp only [PhaseInv, hphase] at h
    exact ⟨⟨hknown.attempts, hknown.reported, hknown.issued, hknown.requests, hknown.aborted⟩, h, by simp,
      fun _ _ => trivial, by simp⟩
  · rename_i e output hphase
    cases hstep
    simp only [PhaseInv, hphase] at h
    exact ⟨⟨hknown.attempts, hknown.reported, hknown.issued, hknown.requests, hknown.aborted⟩, h, by simp,
      fun _ _ => trivial, by simp⟩
  · cases hstep

end Wrenyard.Calls
