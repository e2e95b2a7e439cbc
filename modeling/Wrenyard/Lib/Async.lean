import Mathlib.Algebra.BigOperators.Group.List.Basic
import Mathlib.Algebra.GroupWithZero.Nat
import Wrenyard.Lib.Transition

/-!
# Asynchronous segments over a serialized log

Asynchronous code in one thread runs in segments, each from one suspension to the next.  A segment changes the shared
state and leaves continuations behind: such that wait for an append to a log, and such that wait for anything else.
Appends are put into one queue and settle in its order; an append that fails may have written its entry or not.

The order of segments is arbitrary.  Two kinds of facts about all of them are provided: what the continuations, the
shared state and the log hold together never grows if no segment makes it grow (`tokens_step_le`), which bounds the
number of entries of a kind; and what every segment establishes for the shared state, the log and each continuation,
and leaves alone for the others, is an invariant (`holds_step`).
-/

namespace Async

open Transition

variable {σ δ κ ι α ω : Type}

/-- What a segment leaves to be resumed later. -/
inductive Suspended (δ κ : Type) where
  | append (entry : δ) (k : κ)
  | wait (k : κ)

/-- A continuation outside the queue: one that waits for something else, or one whose append has settled. -/
inductive Thread (δ κ : Type) where
  | waiting (k : κ)
  | settled (entry : δ) (ok : Bool) (k : κ)

structure State (σ δ κ : Type) where
  shared : σ
  log : List δ
  queue : List (δ × κ)
  threads : List (Thread δ κ)

/-- What a segment yields: the shared state, what it leaves to be resumed, and what it shows to the outside. -/
structure Yield (σ δ κ ω : Type) where
  shared : σ
  next : List (Suspended δ κ)
  out : Option ω

/-- The segments: those a call from outside begins with, and those a continuation goes on with, where it can. -/
structure Program (σ δ κ ι α ω : Type) where
  call : σ → ι → Yield σ δ κ ω
  resume : σ → List δ → Thread δ κ → α → Option (Yield σ δ κ ω)

/-- What happens next: a call from outside, the first append of the queue settles, or a continuation goes on. -/
inductive Action (ι α : Type) where
  | call (input : ι)
  | settle (written ok : Bool)
  | resume (index : Nat) (answer : α)

namespace Suspended

def k : Suspended δ κ → κ
  | append _ k => k
  | wait k => k

def entry : Suspended δ κ → Option δ
  | append entry _ => some entry
  | wait _ => none

def toQueue : Suspended δ κ → Option (δ × κ)
  | append entry k => some (entry, k)
  | wait _ => none

def toThread : Suspended δ κ → Option (Thread δ κ)
  | append _ _ => none
  | wait k => some (.waiting k)

end Suspended

def Thread.k : Thread δ κ → κ
  | waiting k => k
  | settled _ _ k => k

def State.suspend (s : State σ δ κ) (shared : σ) (next : List (Suspended δ κ)) : State σ δ κ where
  shared := shared
  log := s.log
  queue := s.queue ++ next.filterMap Suspended.toQueue
  threads := s.threads ++ next.filterMap Suspended.toThread

def State.settle (s : State σ δ κ) (written ok : Bool) : Option (State σ δ κ) :=
  match s.queue with
  | [] => none
  | (entry, k) :: queue =>
    if ok && !written then none
    else some { s with
      log := if written then s.log ++ [entry] else s.log
      queue
      threads := s.threads ++ [.settled entry ok k] }

variable (P : Program σ δ κ ι α ω)

def step (s : State σ δ κ) : Action ι α → Option (State σ δ κ × Option ω)
  | .call input =>
    let y := P.call s.shared input
    some (s.suspend y.shared y.next, y.out)
  | .settle written ok => (s.settle written ok).map fun s' => (s', none)
  | .resume index answer =>
    match s.threads[index]? with
    | none => none
    | some thread =>
      (P.resume s.shared s.log thread answer).map fun y =>
        (State.suspend { s with threads := s.threads.eraseIdx index } y.shared y.next, y.out)

variable {P}

inductive Stepped (P : Program σ δ κ ι α ω) (s : State σ δ κ) : State σ δ κ → Option ω → Prop where
  | call (input : ι) : Stepped P s (s.suspend (P.call s.shared input).shared (P.call s.shared input).next)
      (P.call s.shared input).out
  | settle {entry : δ} {k : κ} {queue : List (δ × κ)} {written ok : Bool} : s.queue = (entry, k) :: queue →
      (ok = true → written = true) →
      Stepped P s { s with
        log := if written then s.log ++ [entry] else s.log
        queue
        threads := s.threads ++ [.settled entry ok k] } none
  | resume {before after : List (Thread δ κ)} {thread : Thread δ κ} {answer : α} {y : Yield σ δ κ ω} :
      s.threads = before ++ thread :: after → P.resume s.shared s.log thread answer = some y →
      Stepped P s (State.suspend { s with threads := before ++ after } y.shared y.next) y.out

variable {s s' : State σ δ κ} {out : Option ω}

theorem stepped_of_step {a : Action ι α} (h : step P s a = some (s', out)) :
    Stepped P s s' out := by
  cases a with
  | call input =>
    cases h
    exact .call input
  | settle written ok =>
    simp only [step, State.settle, Option.map_eq_some_iff] at h
    obtain ⟨s₁, hs₁, heq⟩ := h
    cases heq
    split at hs₁
    · cases hs₁
    rename_i entry k queue hqueue
    split at hs₁ <;> cases hs₁
    rename_i hwritten
    refine .settle hqueue fun hok => ?_
    cases written with
    | true => rfl
    | false =>
      rw [hok] at hwritten
      exact absurd rfl hwritten
  | resume index answer =>
    simp only [step] at h
    split at h
    · cases h
    rename_i thread hthread
    obtain ⟨y, hy, heq⟩ := Option.map_eq_some_iff.mp h
    cases heq
    obtain ⟨hlt, hget⟩ := List.getElem?_eq_some_iff.mp hthread
    have hsplit : s.threads = s.threads.take index ++ thread :: s.threads.drop (index + 1) := by
      rw [← hget, ← List.drop_eq_getElem_cons hlt, List.take_append_drop]
    rw [List.eraseIdx_eq_take_drop_succ]
    exact .resume hsplit hy

section Tokens

variable (ofShared : σ → Nat) (ofEntry : δ → Nat) (ofCont : κ → Nat)

/-- What is left by a segment holds this many tokens. -/
def suspendedTokens (next : List (Suspended δ κ)) : Nat :=
  (next.map fun x => ofCont x.k + (x.entry.map ofEntry).getD 0).sum

def contTokens (s : State σ δ κ) : Nat :=
  (s.queue.map fun x => ofCont x.2).sum + (s.threads.map fun t => ofCont t.k).sum

def entryTokens (s : State σ δ κ) : Nat := (s.log.map ofEntry).sum + (s.queue.map fun x => ofEntry x.1).sum

def tokens (s : State σ δ κ) : Nat := ofShared s.shared + entryTokens ofEntry s + contTokens ofCont s

variable {ofShared ofEntry ofCont}

private theorem sum_zero {β : Type} (l : List β) : (l.map fun _ => 0).sum = 0 := by
  induction l with
  | nil => rfl
  | cons x l ih => rw [List.map_cons, List.sum_cons, ih]

private theorem sum_suspended (next : List (Suspended δ κ)) :
    suspendedTokens ofEntry ofCont next =
      ((next.filterMap Suspended.toQueue).map fun x => ofEntry x.1).sum +
        ((next.filterMap Suspended.toQueue).map fun x => ofCont x.2).sum +
        ((next.filterMap Suspended.toThread).map fun t => ofCont t.k).sum := by
  induction next with
  | nil => rfl
  | cons x next ih =>
    unfold suspendedTokens at ih ⊢
    rw [List.map_cons, List.sum_cons, ih]
    cases x with
    | append entry k =>
      simp only [Suspended.k, Suspended.entry, Option.map_some, Option.getD_some, List.filterMap_cons,
        Suspended.toQueue, Suspended.toThread, List.map_cons, List.sum_cons]
      omega
    | wait k =>
      simp only [Suspended.k, Suspended.entry, Option.map_none, Option.getD_none, List.filterMap_cons,
        Suspended.toQueue, Suspended.toThread, List.map_cons, List.sum_cons, Thread.k]
      omega

theorem tokens_suspend (s : State σ δ κ) (shared : σ) (next : List (Suspended δ κ)) :
    tokens ofShared ofEntry ofCont (s.suspend shared next) =
    ofShared shared + entryTokens ofEntry s + contTokens ofCont s + suspendedTokens ofEntry ofCont next := by
  rw [sum_suspended]
  unfold tokens entryTokens contTokens State.suspend
  simp only [List.map_append, List.sum_append]
  omega

variable {before after : List (Thread δ κ)} {thread : Thread δ κ} {s : State σ δ κ}

theorem contTokens_erase (ofCont : κ → Nat)
    (h : s.threads = before ++ thread :: after) :
    contTokens ofCont s = contTokens ofCont { s with threads := before ++ after } + ofCont thread.k := by
  unfold contTokens
  rw [h]
  simp only [List.map_append, List.map_cons, List.sum_append, List.sum_cons]
  omega

theorem tokens_zero (s : State σ δ κ) : tokens (fun _ => 0) (fun _ => 0) ofCont s = contTokens ofCont s := by
  unfold tokens entryTokens
  rw [sum_zero, sum_zero, Nat.zero_add]

theorem tokens_step_bound {n : Nat} (h : Stepped P s s' out)
    (hs : tokens ofShared ofEntry ofCont s ≤ n)
    (hcall : ∀ input, ofShared (P.call s.shared input).shared +
      suspendedTokens ofEntry ofCont (P.call s.shared input).next ≤ ofShared s.shared)
    (hresume : ∀ before thread after answer y, s.threads = before ++ thread :: after →
      P.resume s.shared s.log thread answer = some y →
      ofShared y.shared + suspendedTokens ofEntry ofCont y.next ≤ ofShared s.shared + ofCont thread.k ∨
        ofShared y.shared + suspendedTokens ofEntry ofCont y.next + entryTokens ofEntry s +
          contTokens ofCont { s with threads := before ++ after } ≤ n) :
    tokens ofShared ofEntry ofCont s' ≤ n := by
  cases h with
  | call input =>
    rw [tokens_suspend]
    have := hcall input
    unfold tokens at hs
    omega
  | @settle entry k queue written ok hqueue hok =>
    refine Nat.le_trans ?_ hs
    unfold tokens entryTokens contTokens
    rw [hqueue]
    simp only [List.map_append, List.map_cons, List.sum_append, List.sum_cons, List.map_nil, List.sum_nil, Thread.k]
    split
    · simp only [List.map_append, List.map_cons, List.sum_append, List.sum_cons, List.map_nil, List.sum_nil]
      omega
    · omega
  | @resume before after thread answer y hthreads hy =>
    rw [tokens_suspend]
    have herase := contTokens_erase ofCont hthreads
    have hentry : entryTokens ofEntry { s with threads := before ++ after } = entryTokens ofEntry s := rfl
    unfold tokens at hs
    rcases hresume before thread after answer y hthreads hy with hle | hle <;> omega

theorem tokens_step_le (h : Stepped P s s' out)
    (hcall : ∀ input, ofShared (P.call s.shared input).shared +
      suspendedTokens ofEntry ofCont (P.call s.shared input).next ≤ ofShared s.shared)
    (hresume : ∀ thread ∈ s.threads, ∀ answer y, P.resume s.shared s.log thread answer = some y →
      ofShared y.shared + suspendedTokens ofEntry ofCont y.next ≤ ofShared s.shared + ofCont thread.k) :
    tokens ofShared ofEntry ofCont s' ≤ tokens ofShared ofEntry ofCont s :=
  tokens_step_bound h (Nat.le_refl _) hcall fun _ thread _ answer y hthreads hy =>
    Or.inl (hresume thread (by rw [hthreads]; simp) answer y hy)

theorem contTokens_step_eq (added settled : σ → Nat) (h : Stepped P s s' out)
    (hcount : contTokens ofCont s + settled s.shared = added s.shared)
    (hcall : ∀ input y, P.call s.shared input = y → suspendedTokens (fun _ => 0) ofCont y.next + settled y.shared +
      added s.shared = settled s.shared + added y.shared)
    (hresume : ∀ thread ∈ s.threads, ∀ answer y, P.resume s.shared s.log thread answer = some y →
      ofCont thread.k + settled s.shared ≤ added s.shared →
      suspendedTokens (fun _ => 0) ofCont y.next + settled y.shared + added s.shared =
        ofCont thread.k + settled s.shared + added y.shared) :
    contTokens ofCont s' + settled s'.shared = added s'.shared := by
  have hsuspend : ∀ (s : State σ δ κ) (shared : σ) (next : List (Suspended δ κ)),
      contTokens ofCont (s.suspend shared next) =
        contTokens ofCont s + suspendedTokens (fun _ => 0) ofCont next := by
    intro s shared next
    rw [sum_suspended, sum_zero]
    unfold contTokens State.suspend
    simp only [List.map_append, List.sum_append]
    omega
  cases h with
  | call input =>
    have heq := hcall input _ rfl
    rw [hsuspend]
    have hshared : (s.suspend (P.call s.shared input).shared (P.call s.shared input).next).shared =
        (P.call s.shared input).shared := rfl
    rw [hshared]
    omega
  | @settle entry k queue written ok hqueue hok =>
    rw [← hcount]
    unfold contTokens
    rw [hqueue]
    simp only [List.map_append, List.map_cons, List.sum_append, List.sum_cons, List.map_nil, List.sum_nil, Thread.k]
    omega
  | @resume before after thread answer y hthreads hy =>
    have herase := contTokens_erase ofCont hthreads
    have heq := hresume thread (by rw [hthreads]; simp) answer y hy (by omega)
    rw [hsuspend]
    have hshared : (State.suspend { s with threads := before ++ after } y.shared y.next).shared = y.shared := rfl
    rw [hshared]
    omega

end Tokens

/-! ### Invariants -/

/-- Where a continuation is. -/
inductive Place (δ κ : Type) where
  | queued (entry : δ) (k : κ)
  | waiting (k : κ)
  | settled (entry : δ) (ok : Bool) (k : κ)

def Place.k : Place δ κ → κ
  | queued _ k => k
  | waiting k => k
  | settled _ _ k => k

def Thread.place : Thread δ κ → Place δ κ
  | waiting k => .waiting k
  | settled entry ok k => .settled entry ok k

def Suspended.place : Suspended δ κ → Place δ κ
  | append entry k => .queued entry k
  | wait k => .waiting k

@[simp] theorem Thread.k_place (t : Thread δ κ) : t.place.k = t.k := by cases t <;> rfl

@[simp] theorem Suspended.k_place (x : Suspended δ κ) : x.place.k = x.k := by cases x <;> rfl

structure View (σ δ : Type) where
  shared : σ
  log : List δ
  queued : List δ

def View.entries (v : View σ δ) : List δ := v.log ++ v.queued

namespace State

def view (s : State σ δ κ) : View σ δ := ⟨s.shared, s.log, s.queue.map Prod.fst⟩

def places (s : State σ δ κ) : List (Place δ κ) :=
  s.queue.map (fun x => .queued x.1 x.2) ++ s.threads.map Thread.place

end State

theorem mem_places_of_threads
    (h : s.threads = before ++ thread :: after) : thread.place ∈ s.places := by
  unfold State.places
  rw [h]
  simp

structure Settles (v v' : View σ δ) (entry : δ) : Prop where
  shared : v'.shared = v.shared
  queued : v.queued = entry :: v'.queued
  log : v'.log = v.log ∨ v'.log = v.log ++ [entry]

theorem settles_of_queue {entry : δ} {k : κ} {queue : List (δ × κ)} {written : Bool}
    (h : s.queue = (entry, k) :: queue) {v : View σ δ}
    (hv : v = ⟨s.shared, if written then s.log ++ [entry] else s.log, queue.map Prod.fst⟩) :
    Settles s.view v entry := by
  subst hv
  refine ⟨rfl, by unfold State.view; simp only [h, List.map_cons], ?_⟩
  cases written with
  | true => exact Or.inr rfl
  | false => exact Or.inl rfl

variable {ofCont : κ → Nat}

theorem contTokens_eq_zero (h : contTokens ofCont s = 0) :
    ∀ p ∈ s.places, ofCont p.k = 0 := by
  obtain ⟨hqueue, hthreads⟩ := Nat.add_eq_zero_iff.mp h
  intro p hp
  unfold State.places at hp
  rw [List.mem_append, List.mem_map, List.mem_map] at hp
  rcases hp with ⟨x, hx, rfl⟩ | ⟨thread, hthread, rfl⟩
  · exact List.sum_eq_zero_iff_forall_eq_nat.mp hqueue _ (List.mem_map_of_mem hx)
  · have hzero := List.sum_eq_zero_iff_forall_eq_nat.mp hthreads _ (List.mem_map_of_mem hthread)
    cases thread <;> exact hzero

theorem eq_zero_of_only
    (hthreads : s.threads = before ++ thread :: after) (hle : contTokens ofCont s ≤ 1) (hone : ofCont thread.k = 1) :
    ∀ p ∈ State.places { s with threads := before ++ after }, ofCont p.k = 0 := by
  have herase := contTokens_erase ofCont hthreads
  exact contTokens_eq_zero (by omega)

theorem eq_zero_of_only_first {entry : δ} {k : κ} {queue : List (δ × κ)}
    (hqueue : s.queue = (entry, k) :: queue) (hle : contTokens ofCont s ≤ 1) (hone : ofCont k = 1) :
    ∀ p ∈ State.places { s with queue }, ofCont p.k = 0 := by
  have herase : contTokens ofCont s = contTokens ofCont { s with queue } + ofCont k := by
    unfold contTokens
    rw [hqueue, List.map_cons, List.sum_cons]
    simp only
    omega
  exact contTokens_eq_zero (by omega)

def View.after (v : View σ δ) (shared : σ) (next : List (Suspended δ κ)) : View σ δ :=
  ⟨shared, v.log, v.queued ++ next.filterMap Suspended.entry⟩

theorem view_suspend (s : State σ δ κ) (shared : σ) (next : List (Suspended δ κ)) :
    (s.suspend shared next).view = s.view.after shared next := by
  unfold State.view State.suspend View.after
  simp only [List.map_append, List.map_filterMap, View.mk.injEq, List.append_cancel_left_eq, true_and]
  congr 1
  funext x
  cases x <;> rfl

theorem mem_places_suspend {shared : σ} {next : List (Suspended δ κ)} {p : Place δ κ} :
    p ∈ (s.suspend shared next).places ↔ p ∈ s.places ∨ ∃ x ∈ next, x.place = p := by
  have hqueue : ∀ next : List (Suspended δ κ), ∀ p : Place δ κ,
      (p ∈ (next.filterMap Suspended.toQueue).map (fun x => Place.queued x.1 x.2) ∨
        p ∈ (next.filterMap Suspended.toThread).map Thread.place) ↔ ∃ x ∈ next, x.place = p := by
    intro next p
    simp only [List.mem_map, List.mem_filterMap]
    constructor
    · rintro (⟨x, ⟨y, hy, hx⟩, rfl⟩ | ⟨x, ⟨y, hy, hx⟩, rfl⟩)
      · cases y with
        | append entry k =>
          cases hx
          exact ⟨_, hy, rfl⟩
        | wait k => cases hx
      · cases y with
        | append entry k => cases hx
        | wait k =>
          cases hx
          exact ⟨_, hy, rfl⟩
    · rintro ⟨y, hy, rfl⟩
      cases y with
      | append entry k => exact Or.inl ⟨(entry, k), ⟨_, hy, rfl⟩, rfl⟩
      | wait k => exact Or.inr ⟨.waiting k, ⟨_, hy, rfl⟩, rfl⟩
  rw [← hqueue]
  unfold State.places State.suspend
  simp only [List.map_append, List.mem_append]
  tauto

/-- A claim about the shared state, the log and the queue, and one about each continuation. -/
structure Holds (Global : View σ δ → Prop) (Local : View σ δ → Place δ κ → Prop) (s : State σ δ κ) : Prop where
  view : Global s.view
  places : ∀ p ∈ s.places, Local s.view p

theorem holds_step {Global : View σ δ → Prop} {Local : View σ δ → Place δ κ → Prop}
    (h : Stepped P s s' out) (hs : Holds Global Local s)
    (hcall : ∀ input y, P.call s.shared input = y →
      Global (s.view.after y.shared y.next) ∧ (∀ x ∈ y.next, Local (s.view.after y.shared y.next) x.place) ∧
        ∀ p ∈ s.places, Local s.view p → Local (s.view.after y.shared y.next) p)
    (hsettle : ∀ entry k queue written ok, s.queue = (entry, k) :: queue → (ok = true → written = true) →
      ∀ v, v = ⟨s.shared, if written then s.log ++ [entry] else s.log, queue.map Prod.fst⟩ →
      Local s.view (.queued entry k) → Global v ∧ Local v (.settled entry ok k) ∧
        ∀ p ∈ State.places { s with queue }, Local s.view p → Local v p)
    (hresume : ∀ before thread after answer y, s.threads = before ++ thread :: after →
      P.resume s.shared s.log thread answer = some y → Local s.view thread.place →
      Global (s.view.after y.shared y.next) ∧ (∀ x ∈ y.next, Local (s.view.after y.shared y.next) x.place) ∧
        ∀ p ∈ State.places { s with threads := before ++ after }, Local s.view p →
          Local (s.view.after y.shared y.next) p) :
    Holds Global Local s' := by
  cases h with
  | call input =>
    obtain ⟨hglobal, hnext, hothers⟩ := hcall input _ rfl
    refine ⟨by rw [view_suspend]; exact hglobal, fun p hp => ?_⟩
    rw [view_suspend]
    rcases mem_places_suspend.mp hp with hp | ⟨x, hx, rfl⟩
    · exact hothers p hp (hs.places p hp)
    · exact hnext x hx
  | @settle entry k queue written ok hqueue hok =>
    have hhead : Place.queued entry k ∈ s.places := by
      unfold State.places
      rw [hqueue]
      simp
    obtain ⟨hglobal, hsettled, hothers⟩ := hsettle entry k queue written ok hqueue hok _ rfl (hs.places _ hhead)
    refine ⟨hglobal, fun p hp => ?_⟩
    have hmem : p ∈ State.places { s with queue } ∨ p = .settled entry ok k := by
      unfold State.places at hp ⊢
      simp only [List.map_append, List.map_cons, List.map_nil, List.mem_append, List.mem_singleton,
        Thread.place] at hp ⊢
      tauto
    have hsub : ∀ p ∈ State.places { s with queue }, p ∈ s.places := by
      intro p hp
      unfold State.places at hp ⊢
      rw [hqueue]
      tauto
    rcases hmem with hmem | rfl
    · exact hothers p hmem (hs.places p (hsub p hmem))
    · exact hsettled
  | @resume before after thread answer y hthreads hy =>
    have hsub : ∀ p ∈ State.places { s with threads := before ++ after }, p ∈ s.places := by
      intro p hp
      unfold State.places at hp ⊢
      rw [hthreads]
      simp only [List.map_append, List.map_cons, List.mem_append, List.mem_cons] at hp ⊢
      tauto
    have hthread : thread.place ∈ s.places := mem_places_of_threads hthreads
    obtain ⟨hglobal, hnext, hothers⟩ := hresume before thread after answer y hthreads hy (hs.places _ hthread)
    have hview : (State.suspend { s with threads := before ++ after } y.shared y.next).view =
        s.view.after y.shared y.next := view_suspend ..
    refine ⟨by rw [hview]; exact hglobal, fun p hp => ?_⟩
    rw [hview]
    rcases mem_places_suspend.mp hp with hp | ⟨x, hx, rfl⟩
    · exact hothers p hp (hs.places p (hsub p hp))
    · exact hnext x hx

end Async
