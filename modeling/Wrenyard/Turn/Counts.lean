import Wrenyard.Turn.Segments

/-!
# The parts of a turn, counted

There is one step loop, and the promise sets and the chain of replies of the runtime count the tool calls, the actions
and the replies that are under way (`Counted`).
-/

namespace Wrenyard.Turn

open Js Session Async Transition List

/-- The part of the turn a continuation belongs to; a flush is part of the one who waits for it. -/
inductive Kind where
  | loop | parse | action | reply | interrupt | steer
deriving DecidableEq

def FlushOwner.kind : FlushOwner → Kind
  | completed _ _ => .loop
  | failure _ => .loop
  | interrupt => .interrupt
  | action => .action

def Pc.kind : Pc → Kind
  | flushTurn _ owner => owner.kind
  | flushed _ _ owner => owner.kind
  | flushEnd _ owner => owner.kind
  | replyTurn _ _ | replyCall _ _ | interruptionSent | replyError _ _ | replySent _ _ | saveMemories _ _
  | lastStepFinished _ _ | turnFinished _ | attention => .reply
  | interruptTurn _ | interrupted | interruptCancel | interruptFinished => .interrupt
  | reporting | starting _ _ _ => .parse
  | running _ _ _ => .action
  | steer _ _ | steered => .steer
  | _ => .loop

section

variable {k : Pc}

theorem Pc.kind_of_halts (h : k.halts = true) : k.kind = .loop ∨ k.kind = .interrupt ∨ k.kind = .steer := by
  cases k with
  | flushEnd ok owner => cases owner <;> simp [halts, kind, FlushOwner.kind] at h ⊢
  | _ => simp [halts, kind] at h ⊢

theorem Pc.kind_of_tops (h : k.tops = true) : k.kind = .loop := by
  cases k <;> first | rfl | cases h

theorem Pc.kind_of_throws (h : k.throws = true) : k.kind = .loop := by
  cases k with
  | flushEnd ok owner =>
    cases owner with
    | completed _ _ => rfl
    | failure _ => rfl
    | interrupt => cases ok <;> cases h
    | action => cases ok <;> cases h
  | _ => first | rfl | cases h

theorem Pc.kind_of_fails {failure : Failure} (h : k.fails failure = true) : k.kind = .loop := by
  cases k <;> first | rfl | cases h

theorem Pc.kind_of_flushes {owner : FlushOwner} (h : k.flushes = some owner) : k.kind = owner.kind := by
  cases k <;> first | (cases h; rfl) | cases h

theorem Pc.kind_of_isReply (h : k.isReply = true) : k.kind = .reply := by
  cases k <;> first | rfl | cases h

theorem Pc.kind_of_request {request : ReplyRequest} (h : k.request = some request) : k.kind = .reply := by
  cases k <;> first | rfl | cases h

end

structure Counts where
  parses : Nat
  actions : Nat
  added : Nat
  settled : Nat

def TurnRuntime.counts (t : TurnRuntime) : Counts :=
  ⟨t.parsePromises, t.actionPromises, t.repliesAdded, t.repliesSettled⟩

/-- What a segment of a part leaves to be resumed, and how it counts. -/
inductive Kinds (n : Counts) : Counts → Kind → List Kind → Prop where
  | keep {kind : Kind} : Kinds n n kind [kind]
  | halt {kind : Kind} : kind = .loop ∨ kind = .interrupt ∨ kind = .steer → Kinds n n kind []
  | call : Kinds n { n with parses := n.parses + 1 } .loop [.loop, .parse]
  | reply : Kinds n { n with added := n.added + 1 } .loop [.reply, .loop]
  | parsed : Kinds n { n with parses := n.parses - 1 } .parse []
  | started : Kinds n { n with parses := n.parses - 1, actions := n.actions + 1 } .parse [.action]
  | acted : Kinds n { n with actions := n.actions - 1 } .action []
  | replied : Kinds n { n with settled := n.settled + 1 } .reply []

variable {c : TurnConfig} {t : TurnRuntime} {events : List LedgerEventDraft} {p : Spot} {y : Segment}

private theorem goes_kind {k : Pc} (h : Goes t p k) : p.k.kind = .loop ∧ k.kind = .loop := by
  cases h with
  | threw hthrows => exact ⟨Pc.kind_of_throws hthrows, rfl⟩
  | stopped hk => rcases hk with rfl | ⟨_, rfl⟩ | rfl | rfl <;> exact ⟨rfl, rfl⟩
  | thrown hk => rcases hk with rfl | ⟨_, rfl⟩ | rfl <;> exact ⟨rfl, rfl⟩
  | _ => exact ⟨rfl, rfl⟩

theorem does_kinds (h : Does c t events p y) :
    Kinds t.counts y.shared.counts p.k.kind (y.next.map fun x => x.k.kind) := by
  have hkeep : ∀ {kind kind' : Kind}, kind = kind' → Kinds t.counts t.counts kind [kind'] := by
    rintro kind kind' rfl
    exact .keep
  cases h with
  | halt h => exact .halt (Pc.kind_of_halts h)
  | iterate h => exact hkeep (Pc.kind_of_tops h)
  | goes h => exact hkeep ((goes_kind h).1.trans (goes_kind h).2.symm)
  | invalidCall | actionCall => exact .call
  | speak hk | lastTurn hk => rcases hk with hk | hk <;> exact hkeep (by rw [hk]; rfl)
  | requestReply | closeThrown => exact .reply
  | close hk =>
    have hloop : p.k.kind = .loop := by
      rcases hk with ⟨-, _, hk⟩ | hk <;> rw [hk] <;> rfl
    rw [hloop]
    exact .reply
  | fail h => exact hkeep (Pc.kind_of_fails h)
  | take h | settleFlush h => exact hkeep (Pc.kind_of_flushes h)
  | suppress h | say h | claim h | claimStep h | claimTurn h => exact hkeep (Pc.kind_of_request h)
  | settleReply h =>
    rw [Pc.kind_of_isReply h]
    exact .replied
  | interruptDone | steered => exact .halt (by simp [Place.k, Pc.kind])
  | reported => exact .parsed
  | started => exact .started
  | queued | acted => exact .acted
  | _ => exact .keep

theorem call_next (t : TurnRuntime) (input : Call) {x : Suspended LedgerEventDraft Pc} (h : x ∈ (call t input).next) :
    (∃ reason, x = .wait (.interruptTurn reason)) ∨ ∃ text sender, x = .wait (.steer text sender) := by
  unfold call at h
  split at h
  · exact Or.inl ⟨_, mem_singleton.mp h⟩
  · split at h
    · cases h
    · exact Or.inl ⟨_, mem_singleton.mp h⟩
  · exact Or.inr ⟨_, _, mem_singleton.mp h⟩

theorem view_after_call (v : View TurnRuntime LedgerEventDraft) (input : Call) :
    ∃ aborted, (aborted = v.shared.aborted ∨ v.shared.finished = true ∧ aborted = true) ∧
      v.after (call v.shared input).shared (call v.shared input).next =
        ⟨{ v.shared with aborted }, v.log, v.queued⟩ := by
  have hnext : (call v.shared input).next.filterMap Suspended.entry = [] := by
    rw [filterMap_eq_nil_iff]
    intro x hx
    rcases call_next _ _ hx with ⟨reason, rfl⟩ | ⟨text, sender, rfl⟩ <;> rfl
  unfold View.after
  rw [hnext, append_nil]
  unfold call
  split
  · exact ⟨_, Or.inl rfl, rfl⟩
  · split
    · rename_i hfinished
      exact ⟨true, Or.inr ⟨hfinished, rfl⟩, rfl⟩
    · exact ⟨_, Or.inl rfl, rfl⟩
  · exact ⟨_, Or.inl rfl, rfl⟩

def ofKind (kind : Kind) (k : Pc) : Nat := if k.kind = kind then 1 else 0

structure Counted (s : TurnState) : Prop where
  loop : contTokens (ofKind .loop) s ≤ 1
  parses : contTokens (ofKind .parse) s + 0 = s.shared.parsePromises
  actions : contTokens (ofKind .action) s + 0 = s.shared.actionPromises
  replies : contTokens (ofKind .reply) s + s.shared.repliesSettled = s.shared.repliesAdded

private theorem suspendedTokens_ofKind (kind : Kind) (next : List (Suspended LedgerEventDraft Pc)) :
    suspendedTokens (fun _ => 0) (ofKind kind) next = (next.map fun x => x.k.kind).count kind := by
  induction next with
  | nil => rfl
  | cons x next ih =>
    unfold suspendedTokens at ih ⊢
    rw [map_cons, sum_cons, ih, map_cons, count_cons]
    unfold ofKind
    cases x.entry <;> simp [Nat.add_comm]

private theorem call_kinds (t : TurnRuntime) (input : Call) :
    ((call t input).next.map fun x => x.k.kind) = [] ∨ ((call t input).next.map fun x => x.k.kind) = [.interrupt] ∨
      ((call t input).next.map fun x => x.k.kind) = [.steer] := by
  cases input with
  | interrupt => exact Or.inr (Or.inl rfl)
  | shutdown =>
    unfold call
    simp only
    split
    · exact Or.inl rfl
    · exact Or.inr (Or.inl rfl)
  | steer text sender => exact Or.inr (Or.inr rfl)

private theorem call_counts (t : TurnRuntime) (input : Call) : (call t input).shared.counts = t.counts := by
  unfold call
  split
  · rfl
  · split <;> rfl
  · rfl

variable {s s' : TurnState} {out : Option Out}

theorem Counted.initial (actionSeq : Nat) : Counted (Turn.initial actionSeq) := ⟨Nat.le_refl 1, rfl, rfl, rfl⟩

private theorem counted_step {kind : Kind} (added settled : Counts → Nat) (h : Stepped (program c) s s' out)
    (hcount : contTokens (ofKind kind) s + settled s.shared.counts = added s.shared.counts)
    (hkind : kind = .parse ∨ kind = .action ∨ kind = .reply)
    (hsegment : ∀ n n' k next, Kinds n n' k next → (if k = kind then 1 else 0) + settled n ≤ added n →
      next.count kind + settled n' + added n = (if k = kind then 1 else 0) + settled n + added n') :
    contTokens (ofKind kind) s' + settled s'.shared.counts = added s'.shared.counts := by
  refine contTokens_step_eq (fun t => added t.counts) (fun t => settled t.counts) h hcount ?_ ?_
  · rintro input y rfl
    change suspendedTokens (fun _ => 0) (ofKind kind) (call s.shared input).next +
        settled (call s.shared input).shared.counts + _ =
      _ + added (call s.shared input).shared.counts
    rw [suspendedTokens_ofKind, call_counts]
    have hzero : ((call s.shared input).next.map fun x => x.k.kind).count kind = 0 := by
      rcases call_kinds s.shared input with h | h | h <;> rw [h] <;> rcases hkind with rfl | rfl | rfl <;> rfl
    omega
  · intro thread hthread answer y hy hle
    rw [suspendedTokens_ofKind]
    have hkinds := does_kinds (does_of_resume hy)
    rw [Thread.k_place] at hkinds
    exact hsegment _ _ _ _ hkinds hle

theorem Counted.step (h : Stepped (program c) s s' out) (hs : Counted s) : Counted s' := by
  refine ⟨?_, ?_, ?_, ?_⟩
  · -- no segment makes a second loop
    have htokens : tokens (fun _ => 0) (fun _ => 0) (ofKind .loop) s' ≤
        tokens (fun _ => 0) (fun _ => 0) (ofKind .loop) s := by
      refine tokens_step_le h (fun input => ?_) fun thread _ answer y hy => ?_
      · change 0 + suspendedTokens (fun _ => 0) (ofKind .loop) (call s.shared input).next ≤ 0
        rw [suspendedTokens_ofKind]
        rcases call_kinds s.shared input with h | h | h <;> rw [h] <;> simp
      · have hkinds := does_kinds (does_of_resume hy)
        rw [Thread.k_place] at hkinds
        rw [suspendedTokens_ofKind]
        unfold ofKind
        generalize (y.next.map fun x => x.k.kind) = kinds at hkinds ⊢
        generalize y.shared.counts = n at hkinds
        generalize thread.k.kind = kind at hkinds ⊢
        cases hkinds with
        | keep => simp [count_cons]
        | _ => simp
    rw [tokens_zero, tokens_zero] at htokens
    exact htokens.trans hs.loop
  · refine counted_step Counts.parses (fun _ => 0) h hs.parses (by simp) ?_
    intro n n' k next hkinds hle
    cases hkinds with
    | keep => simp [count_cons]
    | parsed | started => simp at hle ⊢; omega
    | halt hk => rcases hk with rfl | rfl | rfl <;> simp
    | _ => simp <;> omega
  · refine counted_step Counts.actions (fun _ => 0) h hs.actions (by simp) ?_
    intro n n' k next hkinds hle
    cases hkinds with
    | keep => simp [count_cons]
    | acted => simp at hle ⊢; omega
    | halt hk => rcases hk with rfl | rfl | rfl <;> simp
    | _ => simp <;> omega
  · refine counted_step Counts.added Counts.settled h hs.replies (by simp) ?_
    intro n n' k next hkinds hle
    cases hkinds with
    | keep => simp [count_cons]
    | replied => simp at hle ⊢; omega
    | halt hk => rcases hk with rfl | rfl | rfl <;> simp
    | _ => simp <;> omega

private theorem kind_ne_of_zero {kind : Kind} {k : Pc} (h : ofKind kind k = 0) : k.kind ≠ kind := by
  intro hk
  rw [ofKind, if_pos hk] at h
  cases h

theorem Counted.only_loop (hs : Counted s) {before after : List (Thread LedgerEventDraft Pc)}
    {thread : Thread LedgerEventDraft Pc} (hthreads : s.threads = before ++ thread :: after)
    (hk : thread.k.kind = .loop) : ∀ p ∈ State.places { s with threads := before ++ after }, p.k.kind ≠ .loop :=
  fun p hp => kind_ne_of_zero (eq_zero_of_only hthreads hs.loop (by rw [ofKind, if_pos hk]) p hp)

theorem Counted.only_loop_first (hs : Counted s) {entry : LedgerEventDraft} {k : Pc}
    {queue : List (LedgerEventDraft × Pc)} (hqueue : s.queue = (entry, k) :: queue) (hk : k.kind = .loop) :
    ∀ p ∈ State.places { s with queue }, p.k.kind ≠ .loop :=
  fun p hp => kind_ne_of_zero (eq_zero_of_only_first hqueue hs.loop (by rw [ofKind, if_pos hk]) p hp)

end Wrenyard.Turn
