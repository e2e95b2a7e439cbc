import Mathlib.Data.List.Sort

/-!
# Insertion-ordered sets

A JavaScript `Set`: the list of its elements in insertion order, without repetition.
-/

namespace Js

variable {α : Type} [DecidableEq α]

namespace OSet

/-- `set.add(a)`. -/
def add (s : List α) (a : α) : List α := if a ∈ s then s else s ++ [a]

/-- `new Set(as)`. -/
def ofList (as : List α) : List α := as.foldl add []

/-- `set.delete(a)`. -/
def delete (s : List α) (a : α) : List α := s.filter (· ≠ a)

variable {s : List α}

@[simp] theorem mem_add {a b : α} : b ∈ add s a ↔ b ∈ s ∨ b = a := by
  unfold add
  split
  · rename_i h
    constructor
    · exact Or.inl
    · rintro (hb | rfl)
      · exact hb
      · exact h
  · simp

@[simp] theorem mem_delete {a b : α} : b ∈ delete s a ↔ b ∈ s ∧ b ≠ a := by
  simp [delete]

theorem nodup_add (h : s.Nodup) (a : α) : (add s a).Nodup := by
  unfold add
  split
  · exact h
  rename_i ha
  rw [List.nodup_append]
  refine ⟨h, List.nodup_singleton a, ?_⟩
  intro b hb c hc
  rw [List.mem_singleton] at hc
  rintro rfl
  exact ha (hc ▸ hb)

theorem nodup_delete (h : s.Nodup) (a : α) : (delete s a).Nodup := h.filter _

private theorem foldl_add (as s : List α) :
    (∀ b, b ∈ as.foldl add s ↔ b ∈ s ∨ b ∈ as) ∧ (s.Nodup → (as.foldl add s).Nodup) := by
  induction as generalizing s with
  | nil => simp
  | cons a as ih =>
    obtain ⟨hmem, hnodup⟩ := ih (add s a)
    refine ⟨fun b => ?_, fun h => hnodup (nodup_add h a)⟩
    rw [List.foldl_cons, hmem, mem_add, List.mem_cons, or_assoc]

@[simp] theorem mem_ofList {as : List α} {b : α} : b ∈ ofList as ↔ b ∈ as := by
  simp [ofList, (foldl_add as []).1]

theorem nodup_ofList (as : List α) : (ofList as).Nodup := (foldl_add as []).2 List.nodup_nil

end OSet

/-- `numbers.sort((left, right) => left - right)`. -/
def sortAscending (ns : List Nat) : List Nat := ns.insertionSort (· ≤ ·)

@[simp] theorem mem_sortAscending {ns : List Nat} {n : Nat} : n ∈ sortAscending ns ↔
    n ∈ ns := List.mem_insertionSort _

theorem sortAscending_congr {ms ns : List Nat} (hm : ms.Nodup) (hn : ns.Nodup) (h : ∀ n, n ∈ ms ↔ n ∈ ns) :
    sortAscending ms = sortAscending ns := by
  have hp : (sortAscending ms).Perm (sortAscending ns) :=
    (List.perm_insertionSort _ ms).trans
      (((List.perm_ext_iff_of_nodup hm hn).mpr h).trans (List.perm_insertionSort _ ns).symm)
  exact hp.eq_of_pairwise' (List.pairwise_insertionSort _ ms) (List.pairwise_insertionSort _ ns)

end Js
