import Mathlib.Data.List.Nodup

/-!
# First-in first-out matching

Openings and closings arrive one at a time, each under a key.  A closing takes the oldest opening that waits under its
key; a closing that finds none stays unmatched.  Matching is decided once and for all: the pairs only grow, and no
opening and no closing is in two of them (`Distinct`).
-/

namespace Fifo

open List

variable {κ α β : Type} [DecidableEq κ]

structure Matching (κ α β : Type) where
  waiting : κ → List α
  pairs : List (α × β)

namespace Matching

def empty : Matching κ α β := ⟨fun _ => [], []⟩

def opened (m : Matching κ α β) (k : κ) (a : α) : Matching κ α β :=
  { m with waiting := Function.update m.waiting k (m.waiting k ++ [a]) }

def closed (m : Matching κ α β) (k : κ) (b : β) : Matching κ α β :=
  match m.waiting k with
  | [] => m
  | a :: rest => ⟨Function.update m.waiting k rest, m.pairs ++ [(a, b)]⟩

def Holds (m : Matching κ α β) (a : α) : Prop := (∃ k, a ∈ m.waiting k) ∨ ∃ b, (a, b) ∈ m.pairs

@[simp] theorem opened_pairs (m : Matching κ α β) (k : κ) (a : α) : (m.opened k a).pairs = m.pairs := rfl

theorem closed_pairs (m : Matching κ α β) (k : κ) (b : β) :
    (m.closed k b).pairs = m.pairs ∨ ∃ a, m.Holds a ∧ (m.closed k b).pairs = m.pairs ++ [(a, b)] := by
  unfold closed
  cases h : m.waiting k with
  | nil => exact .inl rfl
  | cons a rest => exact .inr ⟨a, .inl ⟨k, by rw [h]; exact mem_cons_self ..⟩, rfl⟩

variable {m : Matching κ α β} {b : β}

theorem mem_closed_waiting {k k' : κ} {x : α} (h : x ∈ (m.closed k b).waiting k') :
    x ∈ m.waiting k' := by
  unfold closed at h
  cases hw : m.waiting k <;> rw [hw] at h
  case nil => exact h
  case cons a rest =>
    dsimp only at h
    by_cases hk : k' = k
    · subst hk
      rw [hw]
      rw [Function.update_self] at h
      exact mem_cons_of_mem a h
    · rwa [Function.update_of_ne hk] at h

variable {k : κ}

theorem mem_closed_pairs {p : α × β} (h : p ∈ (m.closed k b).pairs) :
    p ∈ m.pairs ∨ (p.1 ∈ m.waiting k ∧ p.2 = b) := by
  unfold closed at h
  cases hw : m.waiting k <;> rw [hw] at h
  case nil => exact .inl h
  case cons a rest =>
    rcases mem_append.mp h with h | h
    · exact .inl h
    · rw [mem_singleton.mp h]
      exact .inr ⟨mem_cons_self .., rfl⟩

omit [DecidableEq κ] in
theorem not_holds_empty (a : α) : ¬(empty : Matching κ α β).Holds a := by
  rintro (⟨k, hk⟩ | ⟨b, hb⟩)
  · cases hk
  · cases hb

theorem mem_opened {k k' : κ} {a x : α} :
    x ∈ (m.opened k a).waiting k' ↔ x ∈ m.waiting k' ∨ (k' = k ∧ x = a) := by
  by_cases hk : k' = k
  · subst hk
    simp [opened]
  · simp [opened, hk]

theorem holds_opened {a x : α} : (m.opened k a).Holds x ↔ m.Holds x ∨ x = a := by
  constructor
  · rintro (⟨k', hk'⟩ | hpair)
    · rcases mem_opened.1 hk' with hold | ⟨_, hnew⟩
      · exact .inl (.inl ⟨k', hold⟩)
      · exact .inr hnew
    · exact .inl (.inr hpair)
  · rintro ((⟨k', hk'⟩ | hpair) | rfl)
    · exact .inl ⟨k', mem_opened.2 (.inl hk')⟩
    · exact .inr hpair
    · exact .inl ⟨k, mem_opened.2 (.inr ⟨rfl, rfl⟩)⟩

theorem holds_closed {x : α} : (m.closed k b).Holds x ↔ m.Holds x := by
  unfold closed
  cases h : m.waiting k with
  | nil => rfl
  | cons a rest =>
    have hwait : ∀ k', x ∈ m.waiting k' ↔ x ∈ Function.update m.waiting k rest k' ∨ (k' = k ∧ x = a) := by
      intro k'
      by_cases hk : k' = k
      · subst hk
        rw [h, Function.update_self, mem_cons, or_comm]
        simp
      · simp [hk]
    simp only [Holds, hwait, mem_append, mem_singleton, Prod.mk.injEq, exists_or, exists_eq_left]
    constructor
    · rintro (hw | hp | ⟨_, hx, _⟩)
      · exact .inl (.inl hw)
      · exact .inr hp
      · exact .inl (.inr hx)
    · rintro ((hw | hx) | hp)
      · exact .inl hw
      · exact .inr (.inr ⟨b, hx, rfl⟩)
      · exact .inr (.inl hp)

structure Distinct (m : Matching κ α β) : Prop where
  opens : (m.pairs.map Prod.fst).Nodup
  closes : (m.pairs.map Prod.snd).Nodup
  waiting : ∀ k, (m.waiting k).Nodup
  key : ∀ k k' a, a ∈ m.waiting k → a ∈ m.waiting k' → k = k'
  unmatched : ∀ k a b, a ∈ m.waiting k → (a, b) ∉ m.pairs

omit [DecidableEq κ] in
theorem distinct_empty : (empty : Matching κ α β).Distinct where
  opens := List.nodup_nil
  closes := List.nodup_nil
  waiting _ := List.nodup_nil
  key _ _ _ h := by cases h
  unmatched _ _ _ h := by cases h

theorem Distinct.opened (h : m.Distinct) {a : α} (ha : ¬m.Holds a) :
    (m.opened k a).Distinct where
  opens := h.opens
  closes := h.closes
  waiting k' := by
    by_cases hk : k' = k
    · subst hk
      simp only [Matching.opened, Function.update_self]
      refine nodup_append.2 ⟨h.waiting k', nodup_singleton a, ?_⟩
      rintro x hx y hy rfl
      rw [mem_singleton] at hy
      exact ha (.inl ⟨k', hy ▸ hx⟩)
    · simp only [Matching.opened, Function.update_of_ne hk]
      exact h.waiting k'
  key k₁ k₂ x h₁ h₂ := by
    rcases mem_opened.1 h₁ with hw₁ | ⟨hk₁, hx₁⟩ <;> rcases mem_opened.1 h₂ with hw₂ | ⟨hk₂, hx₂⟩
    · exact h.key k₁ k₂ x hw₁ hw₂
    · exact absurd (.inl ⟨k₁, hx₂ ▸ hw₁⟩) ha
    · exact absurd (.inl ⟨k₂, hx₁ ▸ hw₂⟩) ha
    · exact hk₁.trans hk₂.symm
  unmatched k' x b hx := by
    rcases mem_opened.1 hx with hx | ⟨_, rfl⟩
    · exact h.unmatched k' x b hx
    · exact fun hp => ha (.inr ⟨b, hp⟩)

theorem Distinct.closed (h : m.Distinct) (hb : ∀ p ∈ m.pairs, p.2 ≠ b) :
    (m.closed k b).Distinct := by
  unfold Matching.closed
  cases hw : m.waiting k with
  | nil => exact h
  | cons a rest =>
    have hwait : ∀ k' x, x ∈ Function.update m.waiting k rest k' → x ∈ m.waiting k' := by
      intro k' x hx
      by_cases hk : k' = k
      · subst hk
        rw [Function.update_self] at hx
        rw [hw]
        exact mem_cons_of_mem _ hx
      · rwa [Function.update_of_ne hk] at hx
    have ha : a ∈ m.waiting k := by rw [hw]; exact mem_cons_self ..
    have hnodup := h.waiting k
    rw [hw, nodup_cons] at hnodup
    refine ⟨?_, ?_, ?_, ?_, ?_⟩
    · rw [map_append, nodup_append]
      refine ⟨h.opens, nodup_singleton _, ?_⟩
      rintro x hx y hy rfl
      rw [map_singleton, mem_singleton] at hy
      obtain ⟨p, hp, rfl⟩ := mem_map.1 hx
      change p.1 = a at hy
      exact h.unmatched k a p.2 ha (by rw [← hy]; exact hp)
    · rw [map_append, nodup_append]
      refine ⟨h.closes, nodup_singleton _, ?_⟩
      rintro x hx y hy rfl
      rw [map_singleton, mem_singleton] at hy
      obtain ⟨p, hp, rfl⟩ := mem_map.1 hx
      exact hb p hp hy
    · intro k'
      by_cases hk : k' = k
      · subst hk
        simp only [Function.update_self]
        exact hnodup.2
      · simp only [Function.update_of_ne hk]
        exact h.waiting k'
    · intro k₁ k₂ x h₁ h₂
      exact h.key k₁ k₂ x (hwait k₁ x h₁) (hwait k₂ x h₂)
    · intro k' x c hx hp
      rw [mem_append, mem_singleton] at hp
      rcases hp with hp | hp
      · exact h.unmatched k' x c (hwait k' x hx) hp
      have hxa : x = a := congrArg Prod.fst hp
      subst hxa
      have hk : k' = k := h.key k' k x (hwait k' x hx) ha
      subst hk
      simp only [Function.update_self] at hx
      exact hnodup.1 hx

end Matching

end Fifo
