import Wrenyard.Turn.Counts

/-!
# Steered messages, segment by segment

A message that is steered into a turn is counted in the segment that queues its append, and the step loop reads the
count in the segment that queues its `step.started`.  What each segment does to the count, to the decision to end the
turn and to the events that matter here is said once (`SteerEffect`, `SteerAppend`), with what it leaves behind.
-/

namespace Wrenyard.Turn

open Js Session Async Transition List

def isSteered : EventBody → Bool
  | .turnSteered _ => true
  | _ => false

def isStepStarted : EventBody → Bool
  | .stepStarted _ => true
  | _ => false

def isCompletion : EventBody → Bool
  | .turnFinished e => decide (e.status = .completed)
  | _ => false

def Exit.mayClose : Exit → Bool
  | .next => false
  | _ => true

def Failure.mayClose : Failure → Bool
  | .thrown _ => true
  | .reason _ => false

def FlushOwner.mayClose : FlushOwner → Bool
  | .completed terminal _ => terminal
  | .failure f => f.mayClose
  | _ => false

def FlushOwner.decided : FlushOwner → Bool
  | .completed terminal _ => terminal
  | _ => false

def ReplyRequest.decided (request : ReplyRequest) : Bool := request.terminal && decide (request.status ≠ .failed)

namespace Pc

/-- The count of steers a step has begun with, from the reading of its request on. -/
def seen : Pc → Option Nat
  | prepared n => some n
  | invoking n _ => some n
  | thinking n _ _ => some n
  | parses n _ _ => some n
  | _ => none

def mayClose : Pc → Bool
  | completed terminal _ => terminal
  | flushTurn _ owner | flushed _ _ owner | flushEnd _ owner => owner.mayClose
  | reasoned (.ok terminal) => terminal
  | reasoned (.threw _) => true
  | replies _ exit | stepFinished exit => exit.mayClose
  | cancelWork failure | drainParses failure | drainActions failure => failure.mayClose
  | catchClosed => true
  | _ => false

def decided : Pc → Bool
  | completed terminal _ => terminal
  | flushTurn _ owner | flushed _ _ owner | flushEnd _ owner => owner.decided
  | replyTurn _ request | replyCall request _ | replyError request _ | replySent request _ => request.decided
  | _ => false

def ends : Pc → Option TerminalStatus
  | saveMemories status _ => some status
  | lastStepFinished status _ => some status
  | turnFinished status => some status
  | _ => none

end Pc

variable {c : TurnConfig} {t : TurnRuntime} {events : List LedgerEventDraft} {p : Spot} {y : Segment}

/-- What a segment changes of what the steers depend on. -/
inductive SteerEffect (c : TurnConfig) (t : TurnRuntime) (events : List LedgerEventDraft) (p : Spot)
    (t' : TurnRuntime) :
    Prop where
  | quiet : t'.steers = t.steers → t'.closing = t.closing → t'.step = t.step → t'.requestEvents = t.requestEvents →
      t'.status = t.status → t'.finished = t.finished → SteerEffect c t events p t'
  | iterate : p.k.tops = true → t'.steers = t.steers → t'.closing = t.closing → t'.status = t.status →
      t'.finished = t.finished → SteerEffect c t events p t'
  | read {event : LedgerEventDraft} {seen : Nat} : p = .settled event true (.stepStarted seen) →
      t' = { t with currentStepId := some (stepId c.turn t.step), requestEvents := events } →
        SteerEffect c t events p t'
  | complete {seen : Nat} {outcome : ReasonOutcome} {workerLines : List JsString} {terminal : Bool} :
      p = .waiting (.parses seen outcome workerLines) → (terminal = true → t.steers = seen) →
      t' = { t with closing := t.closing || terminal } → SteerEffect c t events p t'
  | finish : p.k.kind ≠ .loop → t.finished = false → t'.finished = true → t'.steers = t.steers →
    t'.closing = t.closing →
      t'.step = t.step → t'.requestEvents = t.requestEvents →
      (t'.status = some .completed → p.k.decided = true) → SteerEffect c t events p t'
  | steer : p.k.kind ≠ .loop → t.closing = false → t' = { t with steers := t.steers + 1 } →
    SteerEffect c t events p t'

private theorem decided_of_claim {request : ReplyRequest} {status : TerminalStatus}
    (hrequest : p.k.request = some request)
    (hterminal : request.terminal = true) (hstatus : status = request.status.terminal ∨ status = .failed)
    (hcompleted : some status.turn = some TurnStatus.completed) : p.k.decided = true := by
  have hne : request.status ≠ .failed := by
    intro hfailed
    rcases hstatus with rfl | rfl
    · rw [hfailed] at hcompleted
      cases hcompleted
    · cases hcompleted
  have hdecided : request.decided = true := by simp [ReplyRequest.decided, hterminal, hne]
  generalize p.k = k at hrequest ⊢
  cases k <;> first | (cases hrequest; exact hdecided) | cases hrequest

theorem does_steerEffect (h : Does c t events p y)
    (hfinal : p.k.final = true → ∀ request, p.k.request = some request → request.terminal = true) :
    SteerEffect c t events p y.shared := by
  have hreply : ∀ {request : ReplyRequest}, p.k.request = some request → p.k.kind ≠ .loop := by
    intro request hrequest
    rw [Pc.kind_of_request hrequest]
    simp
  cases h with
  | iterate htops => exact .iterate htops rfl rfl rfl rfl
  | stepStarted => exact .read rfl rfl
  | complete _ _ hterminal => exact .complete rfl (fun h => (hterminal h).1) rfl
  | claim hrequest hf hstatus hopen | claimStep hrequest hf hstatus hopen | claimTurn hrequest hf hstatus hopen =>
    exact .finish (hreply hrequest) hopen rfl rfl rfl rfl rfl fun h =>
      decided_of_claim hrequest (hfinal hf _ hrequest) hstatus h
  | interrupt hopen => exact .finish (by simp [Place.k, Pc.kind]) hopen rfl rfl rfl rfl rfl (by simp)
  | steer _ hclosing => exact .steer (by simp [Place.k, Pc.kind]) hclosing rfl
  | _ => exact .quiet rfl rfl rfl rfl rfl rfl

/-! ### What a segment leaves -/

variable {k : Pc}

private theorem goes_mayClose (h : Goes t p k) (hp : p.k.mayClose = true) : k.mayClose = true := by
  cases h with
  | stopped | thrown | threw => rfl
  | cancelled | parsed | reasonDone => exact hp
  | _ => cases hp

private theorem mayClose_of_flushes {owner : FlushOwner} (h : k.flushes = some owner) :
    k.mayClose = owner.mayClose := by
  cases k <;> first | (cases h; rfl) | cases h

private theorem mayClose_of_tops (h : k.tops = true) : k.mayClose = false := by
  cases k with
  | start => rfl
  | replies status exit | stepFinished exit => cases exit <;> first | rfl | cases h
  | _ => cases h

private theorem mayClose_of_fails {failure : Failure} (h : k.fails failure = true) (hk : k.mayClose = true) :
    failure.mayClose = true := by
  cases k with
  | invoking seen lines => cases hk
  | replies status exit | stepFinished exit => cases exit <;> cases failure <;> first | rfl | cases h
  | _ => cases h

theorem does_mayClose (h : Does c t events p y) (hp : t.closing = true → p.k.kind = .loop → p.k.mayClose = true) :
    y.shared.closing = true → ∀ x ∈ y.next, x.k.kind = .loop → x.k.mayClose = true := by
  intro hclosing x hx hloop
  have hkinds := does_kinds h
  have hploop : p.k.kind = .loop := by
    have hmem : Kind.loop ∈ y.next.map fun x => x.k.kind := mem_map.mpr ⟨x, hx, hloop⟩
    generalize (y.next.map fun x => x.k.kind) = kinds at hkinds hmem
    generalize y.shared.counts = n at hkinds
    generalize p.k.kind = kind at hkinds ⊢
    cases hkinds with
    | keep => exact (mem_singleton.mp hmem).symm
    | call => rfl
    | reply => rfl
    | _ => simp at hmem
  cases h <;> simp only [flushResults, Turn.settleFlush, mem_cons, not_mem_nil, or_false] at hx
  case complete =>
    have hno : t.closing = false := by
      by_contra hyes
      have := hp (by simpa using hyes) rfl
      cases this
    simp only [hno, Bool.false_or] at hclosing
    subst hx
    exact hclosing
  case goes hgoes =>
    subst hx
    exact goes_mayClose hgoes (hp hclosing hploop)
  case completed | drained | closeStep | defer =>
    subst hx
    exact hp hclosing hploop
  case requestReply =>
    rcases hx with rfl | rfl
    · cases hloop
    · exact hp hclosing hploop
  case close hk =>
    have hmay := hp hclosing hploop
    rcases hk with ⟨-, _, hk⟩ | hk <;> rw [hk] at hmay <;> cases hmay
  case closeThrown =>
    rcases hx with rfl | rfl
    · cases hloop
    · rfl
  case fail hfails =>
    subst hx
    exact mayClose_of_fails hfails (hp hclosing hploop)
  case take hflush _ | settleFlush hflush =>
    subst hx
    exact (mayClose_of_flushes hflush).symm.trans (hp hclosing hploop)
  case iterate htops =>
    have hmay := hp hclosing hploop
    rw [mayClose_of_tops htops] at hmay
    cases hmay
  case speak hk =>
    have hmay := hp hclosing hploop
    rcases hk with hk | hk <;> rw [hk] at hmay <;> cases hmay
  case suppress hrequest | say hrequest | claim hrequest _ | claimStep hrequest _ | claimTurn hrequest _ =>
    rw [Pc.kind_of_request hrequest] at hploop
    cases hploop
  case lastTurn hk => rcases hk with hk | hk <;> rw [hk] at hploop <;> cases hploop
  all_goals cases hp hclosing hploop

private theorem decided_of_flushes {owner : FlushOwner} (h : k.flushes = some owner) : k.decided = owner.decided := by
  cases k <;> first | (cases h; rfl) | cases h

private theorem decided_of_request {request : ReplyRequest} (h : k.request = some request) :
    k.decided = request.decided := by
  cases k <;> first | (cases h; rfl) | cases h

variable (h : Does c t events p y)
include h

theorem does_decided (hp : p.k.decided = true → t.closing = true) :
    ∀ x ∈ y.next, x.k.decided = true → y.shared.closing = true := by
  intro x hx hdecided
  cases h <;> simp only [flushResults, Turn.settleFlush, mem_cons, not_mem_nil, or_false] at hx
  case goes hgoes =>
    subst hx
    cases hgoes <;> cases hdecided
  case complete =>
    subst hx
    exact Bool.or_eq_true_iff.mpr (Or.inr hdecided)
  case requestReply =>
    rename_i terminal workerOutput
    rcases hx with rfl | rfl
    · cases terminal with
      | true => exact hp rfl
      | false => cases hdecided
    · cases hdecided
  case close | closeThrown | invalidCall | actionCall =>
    rcases hx with rfl | rfl <;> cases hdecided
  case completed | defer | converse | replyFails =>
    subst hx
    exact hp hdecided
  case take hflush _ | settleFlush hflush =>
    subst hx
    exact hp ((decided_of_flushes hflush).trans hdecided)
  case say hrequest =>
    subst hx
    exact hp ((decided_of_request hrequest).trans hdecided)
  all_goals
    subst hx
    cases hdecided

theorem does_replyError :
    ∀ x ∈ y.next, ∀ request failure, x.k = .replyError request failure → request.terminal = true := by
  intro x hx request failure hk
  cases h <;> simp only [flushResults, Turn.settleFlush, mem_cons, not_mem_nil, or_false] at hx
  case replyFails hterminal =>
    subst hx
    cases hk
    exact hterminal
  case goes hgoes =>
    subst hx
    cases hgoes <;> cases hk
  case invalidCall | actionCall | requestReply | close | closeThrown =>
    rcases hx with rfl | rfl <;> cases hk
  all_goals
    subst hx
    cases hk

theorem does_ends (hp : ∀ status, p.k.ends = some status → t.status = some status.turn ∧ t.finished = true) :
    ∀ x ∈ y.next, ∀ status, x.k.ends = some status → y.shared.status = some status.turn ∧ y.shared.finished =
    true := by
  intro x hx status hk
  cases h <;> simp only [flushResults, Turn.settleFlush, mem_cons, not_mem_nil, or_false] at hx
  case claim | claimStep | claimTurn =>
    subst hx
    cases hk
    exact ⟨rfl, rfl⟩
  case lastStep =>
    subst hx
    cases hk
    exact hp _ rfl
  case lastTurn hfrom =>
    subst hx
    cases hk
    rcases hfrom with hfrom | hfrom <;> exact hp _ (by rw [hfrom]; rfl)
  case goes hgoes =>
    subst hx
    cases hgoes <;> cases hk
  case invalidCall | actionCall | requestReply | close | closeThrown =>
    rcases hx with rfl | rfl <;> cases hk
  all_goals
    subst hx
    cases hk

theorem does_seen : ∀ x ∈ y.next, ∀ seen, x.k.seen = some seen →
    (p.k.seen = some seen ∧ y.shared.requestEvents = t.requestEvents) ∨
    (y.shared.requestEvents = events ∧ ∃ event, p = .settled event true (.stepStarted seen)) := by
  intro x hx seen hk
  cases h <;> simp only [flushResults, Turn.settleFlush, mem_cons, not_mem_nil, or_false] at hx
  case stepStarted =>
    subst hx
    cases hk
    exact Or.inr ⟨rfl, _, rfl⟩
  case goes hgoes =>
    subst hx
    cases hgoes <;> cases hk <;> exact Or.inl ⟨rfl, rfl⟩
  case ask | think =>
    subst hx
    exact Or.inl ⟨hk, rfl⟩
  case speak hfrom =>
    subst hx
    left
    rcases hfrom with hfrom | hfrom <;> rw [hfrom] <;> exact ⟨hk, rfl⟩
  case invalidCall | actionCall =>
    rcases hx with rfl | rfl
    · exact Or.inl ⟨hk, rfl⟩
    · cases hk
  case requestReply | close | closeThrown =>
    rcases hx with rfl | rfl <;> cases hk
  all_goals
    subst hx
    cases hk

omit h

/-- The appends of a segment: a `step.started`, a `turn.steered`, or another event. -/
inductive SteerAppend (c : TurnConfig) (t : TurnRuntime) (p : Spot) (y : Segment) : LedgerEventDraft → Pc → Prop where
  | other {entry : LedgerEventDraft} {k : Pc} : isSteered entry.body = false → isStepStarted entry.body = false →
      (isCompletion entry.body = true → y.shared.status = some .completed) → k ≠ .steered →
      (∀ seen, k ≠ .stepStarted seen) → SteerAppend c t p y entry k
  | step {lastInputTokens : Option Nat} : p = .waiting .reasoning →
      y = ⟨t, [.append (stepStartedDraft c t.step lastInputTokens) (.stepStarted t.steers)], none⟩ →
      SteerAppend c t p y (stepStartedDraft c t.step lastInputTokens) (.stepStarted t.steers)
  | steer {text : JsString} {sender : Option JsString} : p = .waiting (.steer text sender) → t.closing = false →
      y.shared = { t with steers := t.steers + 1 } → SteerAppend c t p y (turnSteeredDraft c text sender) .steered

private theorem isSteered_deferred (body : DeferredBody) :
    isSteered body.body = false ∧ isStepStarted body.body = false ∧ isCompletion body.body = false := by
  cases body <;> exact ⟨rfl, rfl, rfl⟩

private theorem isSteered_notice {body : EventBody} (h : isNotice body = true) :
    isSteered body = false ∧ isStepStarted body = false ∧ isCompletion body = false := by
  cases body <;> first | exact ⟨rfl, rfl, rfl⟩ | cases h

theorem does_appends (h : Does c t events p y)
    (hp : ∀ status, p.k.ends = some status → t.status = some status.turn ∧ t.finished = true) :
    ∀ entry k, .append entry k ∈ y.next → SteerAppend c t p y entry k := by
  intro entry k hx
  have hstatus : ∀ {status : TerminalStatus} {error : Option JsString},
      isCompletion (turnFinishedDraft c status.turn error).body = true →
        some status.turn = some TurnStatus.completed := by
    intro status error hcompleted
    have : status.turn = .completed := of_decide_eq_true hcompleted
    rw [this]
  cases h with
  | startStep =>
    simp only [mem_singleton, Suspended.append.injEq] at hx
    obtain ⟨rfl, rfl⟩ := hx
    exact .step rfl rfl
  | steer _ hclosing =>
    simp only [mem_singleton, Suspended.append.injEq] at hx
    obtain ⟨rfl, rfl⟩ := hx
    exact .steer rfl hclosing rfl
  | claimTurn =>
    simp only [mem_singleton, Suspended.append.injEq] at hx
    obtain ⟨rfl, rfl⟩ := hx
    exact .other rfl rfl hstatus (by simp) (by simp)
  | lastTurn hfrom =>
    simp only [mem_singleton, Suspended.append.injEq] at hx
    obtain ⟨rfl, rfl⟩ := hx
    refine .other rfl rfl (fun hcompleted => ?_) (by simp) (by simp)
    rw [← hstatus hcompleted]
    rcases hfrom with hfrom | hfrom <;> exact (hp _ (by rw [hfrom]; rfl)).1
  | defer =>
    rename_i body
    simp only [mem_singleton, Suspended.append.injEq] at hx
    obtain ⟨rfl, rfl⟩ := hx
    obtain ⟨h1, h2, h3⟩ := isSteered_deferred body
    refine .other h1 h2 (fun hcompleted => ?_) (by simp) (by simp)
    have hno : false = true := h3.symm.trans hcompleted
    cases hno
  | invalidCall _ hnotice =>
    simp only [mem_cons, not_mem_nil, or_false, reduceCtorEq, false_or, Suspended.append.injEq] at hx
    obtain ⟨rfl, rfl⟩ := hx
    obtain ⟨h1, h2, h3⟩ := isSteered_notice hnotice
    refine .other h1 h2 (fun hcompleted => ?_) (by simp) (by simp)
    rw [h3] at hcompleted
    cases hcompleted
  | actionCall =>
    simp only [mem_cons, not_mem_nil, or_false, reduceCtorEq, false_or, Suspended.append.injEq] at hx
    obtain ⟨rfl, rfl⟩ := hx
    exact .other rfl rfl (by simp [isCompletion, stepDraft]) (by simp) (by simp)
  | requestReply | close | closeThrown => simp at hx
  | halt | goes | settleReply | interruptDone | reported | queued | acted | steered => simp at hx
  | _ =>
    simp only [flushResults, Turn.settleFlush, mem_singleton, reduceCtorEq, Suspended.append.injEq] at hx
    try obtain ⟨rfl, rfl⟩ := hx
    try exact .other rfl rfl (fun hcompleted => by cases hcompleted) (by simp) (by simp)

end Wrenyard.Turn
