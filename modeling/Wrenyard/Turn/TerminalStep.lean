import Wrenyard.Turn.Steers

/-!
# No steered message is lost by a completing turn

While the count that a step began with is still the count of steered messages, every `turn.steered` is in the ledger
before the step's `step.started`, and none is on its way (`Clean`).  A step that ends the turn decides so with this
count and closes the turn to steers in the same segment, and only such a decision completes a turn.  So in a completed
turn every steered message stands before the `step.started` of the terminal step (`steered_before_terminal`).
-/

namespace Wrenyard.Turn

open Js Session Async Transition List

abbrev TurnView := View TurnRuntime LedgerEventDraft

variable {c : TurnConfig}

def Unsteered (entry : LedgerEventDraft) : Prop := isSteered entry.body = false ∧ isStepStarted entry.body = false

def Clean (c : TurnConfig) (v : TurnView) (before : List LedgerEventDraft) : Prop :=
  ∃ lastInputTokens after, v.log = before ++ stepStartedDraft c v.shared.step lastInputTokens :: after ∧
    ∀ e ∈ after ++ v.queued, Unsteered e

/-- The same, while the `step.started` waits in the queue. -/
def CleanQueue (c : TurnConfig) (v : TurnView) (entry : LedgerEventDraft) : Prop :=
  ∃ lastInputTokens front back, entry = stepStartedDraft c v.shared.step lastInputTokens ∧
    v.queued = front ++ entry :: back ∧ (∀ e ∈ front, isStepStarted e.body = false) ∧ ∀ e ∈ back, Unsteered e

/-- The step began with this count of steers, and unless there have been others since, this holds. -/
def Since (v : TurnView) (seen : Nat) (claim : Prop) : Prop :=
  seen ≤ v.shared.steers ∧ (v.shared.steers = seen → claim)

structure Decision (c : TurnConfig) (v : TurnView) : Prop where
  closing : v.shared.closing = true → ∃ before, Clean c v before ∧ before <+: v.shared.requestEvents
  completed : v.shared.status = some .completed → v.shared.closing = true ∧ v.shared.finished = true
  ended : ∀ e ∈ v.entries, isCompletion e.body = true → v.shared.status = some .completed

/-- What a continuation relies on. -/
structure Awaits (c : TurnConfig) (v : TurnView) (p : Spot) : Prop where
  phase : v.shared.closing = true → p.k.kind = .loop → p.k.mayClose = true
  decided : p.k.decided = true → v.shared.closing = true
  terminal : ∀ request failure, p.k = .replyError request failure → request.terminal = true
  ends : ∀ status, p.k.ends = some status → v.shared.status = some status.turn ∧ v.shared.finished = true
  starts : ∀ entry k, p = .queued entry k → isStepStarted entry.body = true → k.kind = .loop
  queued : ∀ entry seen, p = .queued entry (.stepStarted seen) → Since v seen (CleanQueue c v entry)
  settled : ∀ entry seen, p = .settled entry true (.stepStarted seen) → Since v seen (∃ before, Clean c v before)
  seen : ∀ seen, p.k.seen = some seen →
    Since v seen (∃ before, Clean c v before ∧ before <+: v.shared.requestEvents)
  steering : ∀ entry, p = .queued entry .steered → isSteered entry.body = true
  steered : ∀ entry, p = .settled entry true .steered → entry ∈ v.log ∧ isSteered entry.body = true

/-- The view after a segment that neither steers nor starts a step. -/
structure Quiet (v v' : TurnView) : Prop where
  log : v'.log = v.log
  queued : ∃ added, v'.queued = v.queued ++ added ∧ ∀ e ∈ added, Unsteered e
  step : v'.shared.step = v.shared.step

variable {v v' : TurnView}

theorem Clean.quiet {before : List LedgerEventDraft} (h : Clean c v before) (hq : Quiet v v') :
    Clean c v' before := by
  obtain ⟨l, after, hlog, hafter⟩ := h
  obtain ⟨added, hqueued, hadded⟩ := hq.queued
  refine ⟨l, after, by rw [hq.log, hq.step, hlog], fun e he => ?_⟩
  rw [hqueued, ← append_assoc, mem_append] at he
  rcases he with he | he
  · exact hafter e he
  · exact hadded e he

theorem CleanQueue.quiet {entry : LedgerEventDraft} (h : CleanQueue c v entry) (hq : Quiet v v') :
    CleanQueue c v' entry := by
  obtain ⟨l, front, back, hentry, hv, hfront, hback⟩ := h
  obtain ⟨added, hqueued, hadded⟩ := hq.queued
  refine ⟨l, front, back ++ added, by rw [hq.step, hentry], ?_, hfront, fun e he => ?_⟩
  · rw [hqueued, hv, append_assoc, cons_append]
  · rcases mem_append.mp he with he | he
    · exact hback e he
    · exact hadded e he

structure Grows (v v' : TurnView) : Prop where
  closing : v'.shared.closing = v.shared.closing
  steers : v.shared.steers < v'.shared.steers ∨
    v'.shared.steers = v.shared.steers ∧ Quiet v v' ∧ v'.shared.requestEvents = v.shared.requestEvents

theorem Since.grows {seen : Nat} {claim claim' : Prop} (h : Since v seen claim) (hg : Grows v v')
    (hclaim : Quiet v v' → v'.shared.requestEvents = v.shared.requestEvents → claim → claim') :
    Since v' seen claim' := by
  obtain ⟨hle, hsince⟩ := h
  rcases hg.steers with hlt | ⟨heq, hq, hr⟩
  · refine ⟨by omega, fun hsteers => ?_⟩
    omega
  · rw [Since, heq]
    exact ⟨hle, fun hsteers => hclaim hq hr (hsince hsteers)⟩

/-- A claim of another continuation is kept by a segment. -/
theorem Awaits.frame {p : Spot} (h : Awaits c v p) (hlog : v'.log = v.log)
    (hclosing : v.shared.closing = true → v'.shared.closing = true)
    (hends : v.shared.finished = true → v'.shared.status = v.shared.status ∧ v'.shared.finished = true)
    (hloop : p.k.kind = .loop → Grows v v') : Awaits c v' p where
  phase hc hk := h.phase ((hloop hk).closing ▸ hc) hk
  decided hd := hclosing (h.decided hd)
  terminal := h.terminal
  ends status hk := by
    obtain ⟨hstatus, hfinished⟩ := h.ends status hk
    obtain ⟨hstatus', hfinished'⟩ := hends hfinished
    exact ⟨hstatus'.trans hstatus, hfinished'⟩
  starts := h.starts
  queued entry seen hp := by
    have hk : p.k.kind = .loop := by rw [hp]; rfl
    exact (h.queued entry seen hp).grows (hloop hk) fun hq _ hclean => hclean.quiet hq
  settled entry seen hp := by
    have hk : p.k.kind = .loop := by rw [hp]; rfl
    refine (h.settled entry seen hp).grows (hloop hk) fun hq _ hclean => ?_
    obtain ⟨before, hclean⟩ := hclean
    exact ⟨before, hclean.quiet hq⟩
  seen seen hseen := by
    have hk : p.k.kind = .loop := by
      generalize p.k = k at hseen ⊢
      cases k <;> first | rfl | cases hseen
    refine (h.seen seen hseen).grows (hloop hk) fun hq hr hclean => ?_
    obtain ⟨before, hclean, hbefore⟩ := hclean
    exact ⟨before, hclean.quiet hq, hr ▸ hbefore⟩
  steering := h.steering
  steered entry hp := by
    rw [hlog]
    exact h.steered entry hp

/-! ### What a segment establishes -/

variable {v : TurnView} {p : Spot} {y : Segment}

theorem quiet_after {t' : TurnRuntime} {next : List (Suspended LedgerEventDraft Pc)} (hstep : t'.step = v.shared.step)
    (hnext : ∀ entry k, .append entry k ∈ next → Unsteered entry) : Quiet v (v.after t' next) where
  log := rfl
  queued := by
    refine ⟨next.filterMap Suspended.entry, rfl, fun e he => ?_⟩
    obtain ⟨x, hx, hentry⟩ := mem_filterMap.mp he
    cases x with
    | append entry k =>
      cases hentry
      exact hnext _ _ hx
    | wait k => cases hentry
  step := hstep

variable {k : Pc}

private theorem not_tops_of_mayClose (h : k.mayClose = true) : k.tops = false := by
  cases k with
  | replies status exit | stepFinished exit => cases exit <;> first | rfl | cases h
  | _ => first | rfl | cases h

theorem unsteered_of_append {entry : LedgerEventDraft} (h : SteerAppend c v.shared p y entry k)
    (hp : p ≠ .waiting .reasoning) (hsteers : y.shared.steers = v.shared.steers) : Unsteered entry := by
  cases h with
  | other h1 h2 => exact ⟨h1, h2⟩
  | step hreasoning => exact absurd hreasoning hp
  | steer _ _ hy =>
    rw [hy] at hsteers
    exact absurd hsteers (Nat.succ_ne_self _)

private theorem effect_of_does (h : Does c v.shared v.log p y) (hv : Awaits c v p) :
    SteerEffect c v.shared v.log p y.shared := by
  refine does_steerEffect h fun hfinal request hrequest => ?_
  have hterminal := hv.terminal
  generalize p.k = k at hfinal hrequest hterminal
  cases k with
  | replyError request' failure =>
    cases hrequest
    exact hterminal _ _ rfl
  | _ => first | (cases hrequest; exact hfinal) | cases hrequest

theorem grows_of_does (h : Does c v.shared v.log p y) (hv : Awaits c v p) (hp : p.k.kind ≠ .loop) :
    Grows v (v.after y.shared y.next) := by
  have happends := does_appends h hv.ends
  have hreasoning : p ≠ .waiting .reasoning := by
    rintro rfl
    exact hp rfl
  have hquiet : y.shared.steers = v.shared.steers → y.shared.step = v.shared.step →
      Quiet v (v.after y.shared y.next) := fun hsteers hstep =>
    quiet_after hstep fun entry k hx => unsteered_of_append (happends entry k hx) hreasoning hsteers
  cases effect_of_does h hv with
  | quiet hsteers hclosing hstep hrequest _ _ => exact ⟨hclosing, Or.inr ⟨hsteers, hquiet hsteers hstep, hrequest⟩⟩
  | iterate htops => exact absurd (Pc.kind_of_tops htops) hp
  | read hread | complete hread =>
    rw [hread] at hp
    exact absurd rfl hp
  | finish _ _ _ hsteers hclosing hstep hrequest _ =>
    exact ⟨hclosing, Or.inr ⟨hsteers, hquiet hsteers hstep, hrequest⟩⟩
  | steer _ _ hy =>
    refine ⟨by change y.shared.closing = _; rw [hy], Or.inl ?_⟩
    change v.shared.steers < y.shared.steers
    rw [hy]
    exact Nat.lt_succ_self _

variable {events : List LedgerEventDraft}

private theorem closing_of_effect {t t' : TurnRuntime} (h : SteerEffect c t events p t')
    (hclosing : t.closing = true) : t'.closing = true := by
  cases h with
  | quiet _ heq | iterate _ _ heq | finish _ _ _ _ heq => exact heq.trans hclosing
  | read _ hy => rw [hy]; exact hclosing
  | complete _ _ hy => rw [hy]; exact Bool.or_eq_true_iff.mpr (Or.inl hclosing)
  | steer _ hopen => rw [hclosing] at hopen; cases hopen

private theorem finished_of_effect {t t' : TurnRuntime} (h : SteerEffect c t events p t')
    (hfinished : t.finished = true) : t'.status = t.status ∧ t'.finished = true := by
  cases h with
  | quiet _ _ _ _ hstatus heq | iterate _ _ _ hstatus heq => exact ⟨hstatus, heq.trans hfinished⟩
  | finish _ hopen => rw [hfinished] at hopen; cases hopen
  | read _ hy | complete _ _ hy | steer _ _ hy => rw [hy]; exact ⟨rfl, hfinished⟩

/-- The decision is kept by a segment, or made by it. -/
theorem Decision.resume (hv : Decision c v) (hp : Awaits c v p) (h : Does c v.shared v.log p y) :
    Decision c (v.after y.shared y.next) := by
  have happends := does_appends h hp.ends
  have heffect := effect_of_does h hp
  -- what is decided stays decided, as no other segment starts a step then
  have hkeep : v.shared.closing = true → y.shared.steers = v.shared.steers → y.shared.step = v.shared.step →
      y.shared.requestEvents = v.shared.requestEvents →
      ∃ before, Clean c (v.after y.shared y.next) before ∧ before <+: y.shared.requestEvents := by
    intro hclosing hsteers hstep hrequest
    obtain ⟨before, hclean, hbefore⟩ := hv.closing hclosing
    have hreasoning : p ≠ .waiting .reasoning := by
      rintro rfl
      cases hp.phase hclosing rfl
    have hquiet : Quiet v (v.after y.shared y.next) := quiet_after hstep fun entry k hx =>
      unsteered_of_append (happends entry k hx) hreasoning hsteers
    exact ⟨before, hclean.quiet hquiet, hrequest ▸ hbefore⟩
  refine ⟨?_, ?_, ?_⟩
  · intro hclosing
    change y.shared.closing = true at hclosing
    cases heffect with
    | quiet hsteers heq hstep hrequest | finish _ _ _ hsteers heq hstep hrequest =>
      exact hkeep (heq ▸ hclosing) hsteers hstep hrequest
    | iterate htops hsteers heq =>
      have hmay := hp.phase (heq ▸ hclosing) (Pc.kind_of_tops htops)
      rw [not_tops_of_mayClose hmay] at htops
      cases htops
    | read hread hy =>
      rw [hy] at hclosing
      rw [hread] at hp
      cases hp.phase hclosing rfl
    | complete hcomplete hterminal hy =>
      rw [hy] at hclosing
      rcases Bool.or_eq_true_iff.mp hclosing with hbefore | hnow
      · rw [hcomplete] at hp
        cases hp.phase hbefore rfl
      have hseen := (hp.seen _ (by rw [hcomplete]; rfl)).2 (hterminal hnow)
      obtain ⟨before, hclean, hbefore⟩ := hseen
      have hquiet : Quiet v (v.after y.shared y.next) := quiet_after (by rw [hy]) fun entry k hx =>
        unsteered_of_append (happends entry k hx) (by rw [hcomplete]; simp) (by rw [hy])
      refine ⟨before, hclean.quiet hquiet, ?_⟩
      change before <+: y.shared.requestEvents
      rw [hy]
      exact hbefore
    | steer _ hopen hy =>
      rw [hy] at hclosing
      rw [hopen] at hclosing
      cases hclosing
  · intro hcompleted
    change y.shared.status = _ at hcompleted
    change y.shared.closing = true ∧ y.shared.finished = true
    cases heffect with
    | quiet _ hclosing _ _ hstatus hfinished | iterate _ _ hclosing hstatus hfinished =>
      rw [hclosing, hfinished]
      exact hv.completed (hstatus ▸ hcompleted)
    | read _ hy | steer _ _ hy =>
      rw [hy] at hcompleted ⊢
      exact hv.completed hcompleted
    | complete _ _ hy =>
      rw [hy] at hcompleted ⊢
      obtain ⟨hclosing, hfinished⟩ := hv.completed hcompleted
      exact ⟨Bool.or_eq_true_iff.mpr (Or.inl hclosing), hfinished⟩
    | finish _ _ hfinished _ hclosing _ _ hdecided =>
      rw [hclosing]
      exact ⟨hp.decided (hdecided hcompleted), hfinished⟩
  · intro e he hcompletion
    have hstatus : v.shared.status = some .completed → y.shared.status = some .completed := by
      intro hcompleted
      cases heffect with
      | quiet _ _ _ _ hstatus | iterate _ _ _ hstatus => exact hstatus.trans hcompleted
      | finish _ hopen =>
        rw [(hv.completed hcompleted).2] at hopen
        cases hopen
      | read _ hy | complete _ _ hy | steer _ _ hy => rw [hy]; exact hcompleted
    unfold View.entries View.after at he
    rw [← append_assoc, mem_append] at he
    rcases he with he | he
    · exact hstatus (hv.ended e he hcompletion)
    obtain ⟨x, hx, hentry⟩ := mem_filterMap.mp he
    cases x with
    | wait k => cases hentry
    | append entry k =>
      cases hentry
      cases happends _ _ hx with
      | other _ _ hcompleted => exact hcompleted hcompletion
      | step => cases hcompletion
      | steer => cases hcompletion

private theorem kind_of_seen {seen : Nat} (h : k.seen = some seen) : k.kind = .loop ∧ k.tops = false := by
  cases k <;> first | exact ⟨rfl, rfl⟩ | cases h

private theorem steers_of_loop (h : SteerEffect c v.shared v.log p y.shared) (hk : p.k.kind = .loop)
    (htops : p.k.tops = false) : y.shared.steers = v.shared.steers ∧ y.shared.step = v.shared.step := by
  cases h with
  | quiet hsteers _ hstep => exact ⟨hsteers, hstep⟩
  | iterate htops' => rw [htops] at htops'; cases htops'
  | read _ hy | complete _ _ hy => rw [hy]; exact ⟨rfl, rfl⟩
  | finish hk' | steer hk' => exact absurd hk hk'

/-- The claims of what a segment leaves. -/
theorem Awaits.next (hp : Awaits c v p) (h : Does c v.shared v.log p y)
    (hqueue : p.k.kind = .loop → ∀ e ∈ v.queued, isStepStarted e.body = false) :
    ∀ x ∈ y.next, Awaits c (v.after y.shared y.next) x.place := by
  have happends := does_appends h hp.ends
  have heffect := effect_of_does h hp
  intro x hx
  have hsteer : ∀ entry k, x.place = .queued entry k → SteerAppend c v.shared p y entry k := by
    intro entry k hxk
    cases x with
    | append entry' k' =>
      cases hxk
      exact happends _ _ hx
    | wait k' => cases hxk
  have hquiet : p ≠ .waiting .reasoning → p.k.kind = .loop → p.k.tops = false →
      Quiet v (v.after y.shared y.next) := by
    intro hreasoning hk htops
    obtain ⟨hsteers, hstep⟩ := steers_of_loop heffect hk htops
    exact quiet_after hstep fun entry k hx => unsteered_of_append (happends entry k hx) hreasoning hsteers
  refine ⟨?_, ?_, ?_, ?_, ?_, ?_, ?_, ?_, ?_, ?_⟩
  · rw [Suspended.k_place]
    exact fun hclosing => does_mayClose h hp.phase hclosing x hx
  · rw [Suspended.k_place]
    exact does_decided h hp.decided x hx
  · rw [Suspended.k_place]
    exact does_replyError h x hx
  · rw [Suspended.k_place]
    exact does_ends h hp.ends x hx
  · intro entry k hxk hstarts
    cases hsteer entry k hxk with
    | other _ hno => rw [hno] at hstarts; cases hstarts
    | step => rfl
    | steer => cases hstarts
  · intro entry seen hxk
    generalize hk : Pc.stepStarted seen = k at hxk
    cases hsteer entry k hxk with
    | other _ _ _ _ hno => exact absurd hk.symm (hno seen)
    | steer => cases hk
    | step hreasoning hy =>
      cases hk
      rw [hreasoning] at hqueue
      rw [hy]
      refine ⟨Nat.le_refl _, fun _ => ⟨_, v.queued, [], rfl, rfl, hqueue rfl, by simp⟩⟩
  · intro entry seen hxk
    cases x <;> cases hxk
  · rw [Suspended.k_place]
    intro seen hseen
    rcases does_seen h x hx seen hseen with ⟨hpseen, hrequest⟩ | ⟨hrequest, event, hread⟩
    · obtain ⟨hk, htops⟩ := kind_of_seen hpseen
      obtain ⟨hsteers, -⟩ := steers_of_loop heffect hk htops
      obtain ⟨hle, hsince⟩ := hp.seen seen hpseen
      refine ⟨hsteers.symm ▸ hle, fun heq => ?_⟩
      obtain ⟨before, hclean, hbefore⟩ := hsince (hsteers ▸ heq)
      have hreasoning : p ≠ .waiting .reasoning := by
        rintro rfl
        cases hpseen
      exact ⟨before, hclean.quiet (hquiet hreasoning hk htops), hrequest.symm ▸ hbefore⟩
    · have hk : p.k.kind = .loop := by rw [hread]; rfl
      have htops : p.k.tops = false := by rw [hread]; rfl
      obtain ⟨hsteers, -⟩ := steers_of_loop heffect hk htops
      obtain ⟨hle, hsince⟩ := hp.settled event seen hread
      refine ⟨hsteers.symm ▸ hle, fun heq => ?_⟩
      obtain ⟨before, hclean⟩ := hsince (hsteers ▸ heq)
      refine ⟨before, hclean.quiet (hquiet (by rw [hread]; simp) hk htops), ?_⟩
      obtain ⟨l, after, hlog, -⟩ := hclean
      exact ⟨_, hlog.symm.trans hrequest.symm⟩
  · intro entry hxk
    generalize hk : Pc.steered = k at hxk
    cases hsteer entry k hxk with
    | other _ _ _ hno => exact absurd hk.symm hno
    | steer => rfl
    | step => cases hk
  · intro entry hxk
    cases x <;> cases hxk

variable {v' : TurnView} {entry : LedgerEventDraft}

theorem Clean.settles {before : List LedgerEventDraft} (h : Clean c v before) (hs : Settles v v' entry) :
    Clean c v' before := by
  obtain ⟨l, after, hlog, hafter⟩ := h
  rw [hs.queued] at hafter
  rcases hs.log with hlog' | hlog'
  · refine ⟨l, after, by rw [hlog', hs.shared, hlog], fun e he => hafter e ?_⟩
    rcases mem_append.mp he with he | he
    · exact mem_append_left _ he
    · exact mem_append_right _ (mem_cons_of_mem _ he)
  · refine ⟨l, after ++ [entry], by rw [hlog', hs.shared, hlog, append_assoc, cons_append], fun e he => hafter e ?_⟩
    rwa [append_assoc, singleton_append] at he

theorem CleanQueue.settles {e : LedgerEventDraft} (h : CleanQueue c v e) (hs : Settles v v' entry)
    (hentry : isStepStarted entry.body = false) : CleanQueue c v' e := by
  obtain ⟨l, front, back, he, hqueue, hfront, hback⟩ := h
  rw [hs.queued] at hqueue
  cases front with
  | nil =>
    obtain ⟨rfl, -⟩ := List.cons.inj hqueue
    rw [he] at hentry
    cases hentry
  | cons head front =>
    obtain ⟨-, hqueue⟩ := List.cons.inj hqueue
    exact ⟨l, front, back, by rw [hs.shared, he], hqueue, fun e he => hfront e (mem_cons_of_mem _ he), hback⟩

/-- A `step.started` that settles first and is written leaves the ledger clean. -/
theorem CleanQueue.written (h : CleanQueue c v entry) (hs : Settles v v' entry) (hlog : v'.log = v.log ++ [entry]) :
    Clean c v' v.log := by
  obtain ⟨l, front, back, he, hqueue, hfront, hback⟩ := h
  rw [hs.queued] at hqueue
  have hnil : front = [] := by
    cases front with
    | nil => rfl
    | cons head front =>
      obtain ⟨rfl, -⟩ := List.cons.inj hqueue
      have := hfront entry (mem_cons_self ..)
      rw [he] at this
      cases this
  subst hnil
  obtain ⟨-, hqueue⟩ := List.cons.inj hqueue
  refine ⟨l, [], by rw [hlog, hs.shared, ← he], fun e he => hback e ?_⟩
  rwa [nil_append, hqueue] at he

theorem Decision.settles (h : Decision c v) (hs : Settles v v' entry) : Decision c v' where
  closing hclosing := by
    rw [hs.shared] at hclosing ⊢
    obtain ⟨before, hclean, hbefore⟩ := h.closing hclosing
    exact ⟨before, hclean.settles hs, hbefore⟩
  completed := by
    rw [hs.shared]
    exact h.completed
  ended := by
    intro e he hcompletion
    rw [hs.shared]
    refine h.ended e ?_ hcompletion
    unfold View.entries at he ⊢
    rw [hs.queued]
    rcases hs.log with hlog | hlog <;> rw [hlog] at he <;> simp only [mem_append, mem_cons] at he ⊢
    · tauto
    · tauto

/-- The claims of the other continuations. -/
theorem Awaits.settles (h : Awaits c v p) (hs : Settles v v' entry)
    (hentry : p.k.kind = .loop → isStepStarted entry.body = false) : Awaits c v' p where
  phase := by
    rw [hs.shared]
    exact h.phase
  decided := by
    rw [hs.shared]
    exact h.decided
  terminal := h.terminal
  ends := by
    rw [hs.shared]
    exact h.ends
  starts := h.starts
  queued e seen hp := by
    obtain ⟨hle, hsince⟩ := h.queued e seen hp
    rw [Since, hs.shared]
    exact ⟨hle, fun hseen => (hsince hseen).settles hs (hentry (by rw [hp]; rfl))⟩
  settled e seen hp := by
    obtain ⟨hle, hsince⟩ := h.settled e seen hp
    rw [Since, hs.shared]
    refine ⟨hle, fun hseen => ?_⟩
    obtain ⟨before, hclean⟩ := hsince hseen
    exact ⟨before, hclean.settles hs⟩
  seen seen hp := by
    obtain ⟨hle, hsince⟩ := h.seen seen hp
    rw [Since, hs.shared]
    refine ⟨hle, fun hseen => ?_⟩
    obtain ⟨before, hclean, hbefore⟩ := hsince hseen
    exact ⟨before, hclean.settles hs, hbefore⟩
  steering := h.steering
  steered e hp := by
    obtain ⟨hmem, hsteered⟩ := h.steered e hp
    refine ⟨?_, hsteered⟩
    rcases hs.log with hlog | hlog <;> rw [hlog]
    · exact hmem
    · exact mem_append_left _ hmem

theorem Awaits.settled_first {ok : Bool} (h : Awaits c v (.queued entry k)) (hs : Settles v v' entry)
    (hok : ok = true → v'.log = v.log ++ [entry]) : Awaits c v' (.settled entry ok k) where
  phase := by
    rw [hs.shared]
    exact h.phase
  decided := by
    rw [hs.shared]
    exact h.decided
  terminal := h.terminal
  ends := by
    rw [hs.shared]
    exact h.ends
  starts e k' hp := by cases hp
  queued e seen hp := by cases hp
  settled e seen hp := by
    cases hp
    obtain ⟨hle, hsince⟩ := h.queued _ seen rfl
    rw [Since, hs.shared]
    exact ⟨hle, fun hseen => ⟨_, (hsince hseen).written hs (hok rfl)⟩⟩
  seen seen hp := by
    obtain ⟨hle, hsince⟩ := h.seen seen hp
    rw [Since, hs.shared]
    refine ⟨hle, fun hseen => ?_⟩
    obtain ⟨before, hclean, hbefore⟩ := hsince hseen
    exact ⟨before, hclean.settles hs, hbefore⟩
  steering e hp := by cases hp
  steered e hp := by
    cases hp
    rw [hok rfl]
    exact ⟨mem_append_right _ (mem_singleton_self _), h.steering _ rfl⟩

/-! ### Runs -/

structure Steered (c : TurnConfig) (s : TurnState) : Prop where
  counted : Counted s
  holds : Holds (Decision c) (Awaits c) s

theorem Steered.initial (c : TurnConfig) (actionSeq : Nat) : Steered c (Turn.initial actionSeq) where
  counted := Counted.initial actionSeq
  holds := by
    refine ⟨⟨(by rintro ⟨⟩), (by rintro ⟨⟩), (by rintro _ ⟨⟩)⟩, fun p hp => ?_⟩
    have hstart : p = .waiting .start := by simpa [State.places, Turn.initial, Thread.place] using hp
    subst hstart
    exact ⟨(by rintro ⟨⟩), (by rintro ⟨⟩), (by rintro _ _ ⟨⟩), (by rintro _ ⟨⟩),
      (by rintro _ _ ⟨⟩), (by rintro _ _ ⟨⟩), (by rintro _ _ ⟨⟩), (by rintro _ ⟨⟩),
      (by rintro _ ⟨⟩), (by rintro _ ⟨⟩)⟩

variable {s s' : TurnState} {out : Option Out}

private theorem holds_call (hs : Steered c s) (input : Call) :
    Decision c (s.view.after (call s.shared input).shared (call s.shared input).next) ∧
      (∀ x ∈ (call s.shared input).next,
        Awaits c (s.view.after (call s.shared input).shared (call s.shared input).next) x.place) ∧
      ∀ p ∈ s.places, Awaits c s.view p →
        Awaits c (s.view.after (call s.shared input).shared (call s.shared input).next) p := by
  obtain ⟨aborted, -, hview⟩ := view_after_call s.view input
  rw [show s.shared = s.view.shared from rfl, hview]
  have hquiet : Quiet s.view ⟨{ s.view.shared with aborted }, s.view.log, s.view.queued⟩ :=
    ⟨rfl, ⟨[], (append_nil _).symm, by simp⟩, rfl⟩
  refine ⟨⟨fun hclosing => ?_, hs.holds.view.completed, hs.holds.view.ended⟩, fun x hx => ?_, fun p _ hp => ?_⟩
  · obtain ⟨before, hclean, hbefore⟩ := hs.holds.view.closing hclosing
    exact ⟨before, hclean.quiet hquiet, hbefore⟩
  · rcases call_next _ _ hx with ⟨reason, rfl⟩ | ⟨text, sender, rfl⟩
    all_goals
      exact ⟨(by rintro _ ⟨⟩), (by rintro ⟨⟩), (by rintro _ _ ⟨⟩), (by rintro _ ⟨⟩),
        (by rintro _ _ ⟨⟩), (by rintro _ _ ⟨⟩), (by rintro _ _ ⟨⟩), (by rintro _ ⟨⟩),
        (by rintro _ ⟨⟩), (by rintro _ ⟨⟩)⟩
  · exact hp.frame rfl id (fun hfinished => ⟨rfl, hfinished⟩) fun _ => ⟨rfl, Or.inr ⟨rfl, hquiet, rfl⟩⟩

variable (h : Stepped (program c) s s' out)
include h

theorem Steered.step (hs : Steered c s) : Steered c s' := by
  refine ⟨hs.counted.step h, holds_step h hs.holds ?_ ?_ ?_⟩
  · rintro input y rfl
    exact holds_call hs input
  · intro entry k queue written ok hqueue hok v hv hlocal
    have hsettles := settles_of_queue hqueue hv
    refine ⟨hs.holds.view.settles hsettles, hlocal.settled_first hsettles fun h => ?_, fun p hp hawaits => ?_⟩
    · rw [hv, hok h]
      rfl
    · refine hawaits.settles hsettles fun hk => ?_
      by_contra hstarts
      have hloop := hlocal.starts entry k rfl (by simpa using hstarts)
      exact hs.counted.only_loop_first hqueue hloop p hp hk
  · intro before thread after answer y hthreads hy hlocal
    have hdoes := does_of_resume hy
    have honly : thread.place.k.kind = .loop →
        ∀ p ∈ State.places { s with threads := before ++ after }, p.k.kind ≠ .loop :=
      fun hk => hs.counted.only_loop hthreads (thread.k_place ▸ hk)
    refine ⟨hs.holds.view.resume hlocal hdoes, hlocal.next hdoes fun hk e he => ?_, fun p hp hawaits => ?_⟩
    · by_contra hstarts
      obtain ⟨⟨e, k⟩, hmem, rfl⟩ := mem_map.mp he
      have hplace : Place.queued e k ∈ State.places { s with threads := before ++ after } :=
        mem_append_left _ (mem_map.mpr ⟨(e, k), hmem, rfl⟩)
      have hqueued : Place.queued e k ∈ s.places := mem_append_left _ (mem_map.mpr ⟨(e, k), hmem, rfl⟩)
      exact honly hk _ hplace ((hs.holds.places _ hqueued).starts e k rfl (by simpa using hstarts))
    · have heffect := effect_of_does hdoes hlocal
      refine hawaits.frame rfl ?_ ?_ fun hk => grows_of_does hdoes hlocal fun hloop => honly hloop p hp hk
      · intro hclosing
        exact closing_of_effect heffect hclosing
      · intro hfinished
        exact finished_of_effect heffect hfinished

theorem log_of_stepped : s.log <+: s'.log := by
  cases h with
  | call | resume => exact prefix_refl _
  | settle =>
    rename_i written _ _ _
    cases written with
    | true => exact prefix_append ..
    | false => exact prefix_refl _

theorem Steered.keeps (hs : Steered c s) (hclosing : s.shared.closing = true) :
    s'.shared.closing = true := by
  cases h with
  | call input =>
    change (call s.shared input).shared.closing = true
    unfold call
    split
    · exact hclosing
    · split <;> exact hclosing
    · exact hclosing
  | settle => exact hclosing
  | @resume before after thread answer y hthreads hy =>
    exact closing_of_effect (effect_of_does (v := s.view) (does_of_resume hy)
      (hs.holds.places _ (mem_places_of_threads hthreads))) hclosing

omit h

private theorem steered_of_out {t : TurnRuntime} {p : Spot} {y : Segment} {turn : Nat} {event : LedgerEventDraft}
    (h : Does c t events p y) (hout : y.out = some (.steered turn event)) :
    turn = c.turn ∧ p = .settled event true .steered := by
  cases h with
  | halt _ hno => exact absurd hout (hno turn event)
  | steered =>
    cases hout
    exact ⟨rfl, rfl⟩
  | _ => cases hout

/-- A steer that returns has its event in the ledger. -/
theorem Steered.mem_of_out {turn : Nat} {event : LedgerEventDraft} (hs : Steered c s)
    (h : Stepped (program c) s s' (some (.steered turn event))) :
    turn = c.turn ∧ event ∈ s'.log ∧ isSteered event.body = true := by
  generalize hout : some (Out.steered turn event) = out at h
  cases h with
  | call input =>
    have hnone : ∀ input, (call s.shared input).out = none := by
      intro input
      unfold call
      split
      · rfl
      · split <;> rfl
      · rfl
    have := hout.trans (hnone input)
    cases this
  | settle => cases hout
  | @resume before after thread answer y hthreads hy =>
    obtain ⟨hturn, hp⟩ := steered_of_out (does_of_resume hy) hout.symm
    exact ⟨hturn, (hs.holds.places _ (mem_places_of_threads hthreads)).steered event hp⟩

variable {actionSeq : Nat} {tr tr' : List (Action Call Answer × Option Out)}

theorem Steered.run (h : Run (StepOf (Turn.step c)) s tr s') (hs : Steered c s) :
    Steered c s' ∧ s.log <+: s'.log ∧ (s.shared.closing = true → s'.shared.closing = true) := by
  induction h with
  | nil s => exact ⟨hs, prefix_refl _, id⟩
  | cons hstep _ ih =>
    have hstepped := stepped_of_step hstep
    obtain ⟨hs', hlog, hclosing⟩ := ih (hs.step hstepped)
    exact ⟨hs', (log_of_stepped hstepped).trans hlog, fun h => hclosing (hs.keeps hstepped h)⟩

/-- If a steer returned and the turn is completed, the message stands before the `step.started` of the turn's last
step, as does every steered message, and the last request had all that stands there.  After the decision to end the
turn a steer is refused and changes nothing. -/
theorem steered_before_terminal (h : Run (StepOf (Turn.step c)) (Turn.initial actionSeq) tr s) :
    (∀ a turn event, (a, some (.steered turn event)) ∈ tr → (∃ e ∈ s.log, isCompletion e.body = true) →
      turn = c.turn ∧ ∃ before lastInputTokens after,
        s.log = before ++ stepStartedDraft c s.shared.step lastInputTokens :: after ∧ event ∈ before ∧
        (∀ e ∈ after, isSteered e.body = false ∧ isStepStarted e.body = false) ∧ before <+: s.shared.requestEvents) ∧
    (s.shared.closing = true → ∀ tr' s' index text sender answer s'' out, Run (StepOf (Turn.step c)) s tr' s' →
      s'.threads[index]? = some (.waiting (.steer text sender)) →
      Turn.step c s' (.resume index answer) = some (s'', out) →
      out = some .undefined ∧ s''.shared = s'.shared ∧ s''.log = s'.log ∧ s''.queue = s'.queue) := by
  have hs := (Steered.initial c actionSeq).run h
  refine ⟨fun a turn event hmem hcompleted => ?_,
    fun hclosing tr' s' index text sender answer s'' out hrun hthread hstep => ?_⟩
  · obtain ⟨tr₁, tr₂, rfl⟩ := List.append_of_mem hmem
    obtain ⟨s₁, s₂, hrun₁, hstep, hrun₂⟩ := h.split_at
    have hs₁ := ((Steered.initial c actionSeq).run hrun₁).1
    have hstepped := stepped_of_step hstep
    obtain ⟨hturn, hevent, hsteered⟩ := hs₁.mem_of_out hstepped
    have hevent' := ((hs₁.step hstepped).run hrun₂).2.1.subset hevent
    obtain ⟨e, he, hcompletion⟩ := hcompleted
    have hstatus := hs.1.holds.view.ended e (List.mem_append_left _ he) hcompletion
    obtain ⟨before, ⟨l, after, hlog, hafter⟩, hbefore⟩ :=
        hs.1.holds.view.closing (hs.1.holds.view.completed hstatus).1
    refine ⟨hturn, before, l, after, hlog, ?_, fun e he => hafter e (List.mem_append_left _ he), hbefore⟩
    have hmem' : event ∈ before ++ stepStartedDraft c s.shared.step l :: after := hlog ▸ hevent'
    rcases List.mem_append.mp hmem' with hin | hin
    · exact hin
    rcases List.mem_cons.mp hin with rfl | hin
    · cases hsteered
    · rw [(hafter event (List.mem_append_left _ hin)).1] at hsteered
      cases hsteered
  · have hclosing' := (hs.1.run hrun).2.2 hclosing
    simp only [Turn.step, Async.step, hthread, Option.map_eq_some_iff] at hstep
    obtain ⟨y, hy, heq⟩ := hstep
    cases heq
    cases answer with
    | ok =>
      have hrefused : steer c s'.shared text sender = ⟨s'.shared, [], some .undefined⟩ := by
        unfold steer
        rw [hclosing', Bool.or_true, if_pos rfl]
      cases hrefused.symm.trans (Option.some.inj hy)
      exact ⟨rfl, rfl, rfl, List.append_nil _⟩
    | _ => cases hy

private def onAgentTools : TurnConfig :=
  { turn := 1, publicId := js "m", contextWindow := none, agentTools := true, memory := false }

private def spoken : Answer := .reason (.ok ⟨js "s", js "t", none⟩)

/-- The message comes while the first step asks the model, so that the second step ends the turn. -/
private def steeredOnce : List (Action Call Answer) :=
  [.resume 0 .ok, .resume 0 .ok, .resume 0 (.context none), .settle true true, .resume 0 .ok,
    .resume 0 (.compaction (.ok ())), .call (.steer (js "b") none), .resume 1 .ok, .settle true true, .resume 1 .ok,
    .resume 0 spoken, .resume 0 .ok, .settle true true, .resume 0 .ok, .resume 0 .ok, .resume 0 .ok,
    .resume 0 .ok, .resume 1 (.reply ⟨false, js "r", .ok [], [], none⟩), .resume 0 .ok, .resume 0 .ok, .resume 0 .ok,
    .settle true true, .resume 0 .ok, .resume 0 .ok, .resume 0 (.context none), .settle true true, .resume 0 .ok,
    .resume 0 (.compaction (.ok ())), .resume 0 spoken, .resume 0 .ok, .settle true true, .resume 0 .ok,
      .resume 0 .ok,
    .resume 0 .ok, .resume 0 .ok, .settle true true, .resume 1 .ok, .settle true true, .resume 1 .ok,
      .settle true true,
    .resume 1 .ok]

private theorem steeredOnce_runs :
    ((exec (Turn.step onAgentTools) (Turn.initial 0) steeredOnce).any fun r =>
      decide (some (.steered 1 (turnSteeredDraft onAgentTools (js "b") none)) ∈ (steeredOnce.zip r.2).map Prod.snd) &&
        r.1.log.any fun e => isCompletion e.body) = true := by
  decide

theorem steered_before_terminal_once : ∃ s before lastInputTokens after, s.log =
    before ++ stepStartedDraft onAgentTools s.shared.step lastInputTokens :: after ∧
    turnSteeredDraft onAgentTools (js "b") none ∈ before ∧ before <+: s.shared.requestEvents ∧
    ∃ tr, Run (StepOf (Turn.step onAgentTools)) (Turn.initial 0) tr s := by
  obtain ⟨⟨s, outs⟩, hexec, hr⟩ := (Option.any_eq_true _ _).mp steeredOnce_runs
  rw [Bool.and_eq_true, decide_eq_true_eq, List.any_eq_true] at hr
  obtain ⟨⟨a, o⟩, hmem, rfl⟩ := List.mem_map.mp hr.1
  have hrun := run_of_exec hexec
  obtain ⟨-, before, l, after, hlog, hevent, -, hbefore⟩ :=
    (steered_before_terminal hrun).1 a 1 _ hmem hr.2
  exact ⟨s, before, l, after, hlog, hevent, hbefore, _, hrun⟩

/-- In every interleaving there is at most one step loop, the promises of the runtime are those of the tool calls and
actions under way, and the replies that are not settled are under way; the ledger only grows. -/
theorem promises_counted (h : Run (StepOf (Turn.step c)) (Turn.initial actionSeq) tr s) :
    contTokens (ofKind .loop) s ≤ 1 ∧ contTokens (ofKind .parse) s = s.shared.parsePromises ∧
    contTokens (ofKind .action) s = s.shared.actionPromises ∧
    contTokens (ofKind .reply) s + s.shared.repliesSettled = s.shared.repliesAdded ∧
    ∀ tr' s', Run (StepOf (Turn.step c)) s tr' s' → s.log <+: s'.log ∧
      (s.shared.closing = true → s'.shared.closing = true) := by
  have hs := ((Steered.initial c actionSeq).run h).1
  exact ⟨hs.counted.loop, hs.counted.parses, hs.counted.actions, hs.counted.replies, fun _ _ hrun => (hs.run hrun).2⟩

/-- The second reply is under way; the ledger grows until it has settled. -/
theorem promises_counted_steered : ∃ s tr s' tr', Run (StepOf (Turn.step onAgentTools)) (Turn.initial 0) tr s ∧
    Run (StepOf (Turn.step onAgentTools)) s tr' s' ∧ s.shared.repliesSettled < s.shared.repliesAdded ∧
    contTokens (ofKind .loop) s ≤ 1 ∧
    contTokens (ofKind .reply) s + s.shared.repliesSettled = s.shared.repliesAdded ∧ s.log <+: s'.log := by
  have hexec : (exec (Turn.step onAgentTools) (Turn.initial 0) (steeredOnce.take 34)).any (fun r =>
      decide (r.1.shared.repliesSettled < r.1.shared.repliesAdded) &&
        (exec (Turn.step onAgentTools) r.1 (steeredOnce.drop 34)).isSome) = true := by decide
  obtain ⟨⟨s, outs⟩, hrun, hs⟩ := (Option.any_eq_true _ _).mp hexec
  rw [Bool.and_eq_true, decide_eq_true_eq] at hs
  obtain ⟨⟨s', outs'⟩, hrun'⟩ := Option.isSome_iff_exists.mp hs.2
  obtain ⟨hloop, -, -, hreply, hgrows⟩ := promises_counted (run_of_exec hrun)
  exact ⟨s, _, s', _, run_of_exec hrun, run_of_exec hrun', hs.1, hloop, hreply, (hgrows _ _ (run_of_exec hrun')).1⟩

end Wrenyard.Turn
