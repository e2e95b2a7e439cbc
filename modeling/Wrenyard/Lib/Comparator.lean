import Mathlib.Data.List.Sort
import Mathlib.Tactic.Linarith

/-!
# Comparison functions

A comparison function gives a number for two elements: not positive when the first may stand before the second.  A
lawful one orders its elements up to the pairs on which it is zero; `then_` tries a second one where the first is
zero.

Sorting by a lawful comparison function that is zero on no two elements of a list depends on the elements of the list
only (`sort_eq_of_perm`), and dropping elements before or after sorting comes to the same (`filter_sort`).
-/

namespace Comparator

variable {α : Type*}

/-- The laws a comparison function has to satisfy. -/
structure Lawful (c : α → α → ℚ) : Prop where
  swap : ∀ a b, c a b ≤ 0 ↔ 0 ≤ c b a
  trans : ∀ a b d, c a b ≤ 0 → c b d ≤ 0 → c a d ≤ 0

/-- The first comparison function, and where it is zero the second. -/
def then_ (c c' : α → α → ℚ) (a b : α) : ℚ := if c a b = 0 then c' a b else c a b

theorem then_eq_zero_iff {c c' : α → α → ℚ} {a b : α} : then_ c c' a b = 0 ↔ c a b = 0 ∧ c' a b = 0 := by
  unfold then_
  split
  · rename_i h
    exact ⟨fun h' => ⟨h, h'⟩, fun h' => h'.2⟩
  · rename_i h
    exact ⟨fun h' => absurd h' h, fun h' => absurd h'.1 h⟩

/-- Sort by a comparison function; elements on which it is zero keep their order. -/
def sort (c : α → α → ℚ) (l : List α) : List α := l.insertionSort fun a b => c a b ≤ 0

theorem lawful_sub (f : α → ℚ) : Lawful fun a b => f a - f b where
  swap a b := by rw [sub_nonpos, sub_nonneg]
  trans a b d hab hbd := by
    rw [sub_nonpos] at hab hbd ⊢
    exact hab.trans hbd

theorem Lawful.comap {β : Type*} {c : β → β → ℚ} (h : Lawful c) (f : α → β) : Lawful fun a b => c (f a) (f b) where
  swap a b := h.swap (f a) (f b)
  trans a b d := h.trans (f a) (f b) (f d)

namespace Lawful

variable {c c' : α → α → ℚ}

theorem eq_zero_comm (h : Lawful c) (a b : α) : c a b = 0 ↔ c b a = 0 := by
  have hab := h.swap a b
  have hba := h.swap b a
  constructor
  · intro h0
    exact le_antisymm (hba.mpr h0.symm.le) (hab.mp h0.le)
  · intro h0
    exact le_antisymm (hab.mpr h0.symm.le) (hba.mp h0.le)

theorem eq_zero_of_between (h : Lawful c) {a b d : α} (hab : c a b ≤ 0) (hbd : c b d ≤ 0) (had : c a d = 0) :
    c a b = 0 ∧ c b d = 0 := by
  have hda : c d a ≤ 0 := ((h.eq_zero_comm a d).mp had).le
  constructor
  · exact le_antisymm hab ((h.swap b a).mp (h.trans b d a hbd hda))
  · exact le_antisymm hbd ((h.swap d b).mp (h.trans d a b hda hab))

theorem then_ (h : Lawful c) (h' : Lawful c') : Lawful (Comparator.then_ c c') where
  swap a b := by
    unfold Comparator.then_
    split
    · rename_i h0
      rw [if_pos ((h.eq_zero_comm a b).mp h0)]
      exact h'.swap a b
    · rename_i h0
      rw [if_neg (fun h1 => h0 ((h.eq_zero_comm a b).mpr h1))]
      exact h.swap a b
  trans a b d hab hbd := by
    unfold Comparator.then_ at hab hbd ⊢
    have hab' : c a b ≤ 0 := by
      by_cases h0 : c a b = 0
      · exact h0.le
      · rwa [if_neg h0] at hab
    have hbd' : c b d ≤ 0 := by
      by_cases h0 : c b d = 0
      · exact h0.le
      · rwa [if_neg h0] at hbd
    by_cases had : c a d = 0
    · have h0 := h.eq_zero_of_between hab' hbd' had
      rw [if_pos h0.1] at hab
      rw [if_pos h0.2] at hbd
      rw [if_pos had]
      exact h'.trans a b d hab hbd
    · rw [if_neg had]
      exact h.trans a b d hab' hbd'

theorem total (h : Lawful c) (a b : α) : c a b ≤ 0 ∨ c b a ≤ 0 := by
  rcases le_total (c a b) 0 with hab | hab
  · exact Or.inl hab
  · exact Or.inr ((h.swap b a).mpr hab)

end Lawful

/-- A comparison function that tells the elements of a list apart. -/
def Separates (c : α → α → ℚ) (l : List α) : Prop := ∀ a ∈ l, ∀ b ∈ l, c a b = 0 → a = b

variable {c : α → α → ℚ}

theorem perm_sort (l : List α) : (sort c l).Perm l := List.perm_insertionSort _ l

variable {l : List α}

@[simp] theorem mem_sort {a : α} : a ∈ sort c l ↔ a ∈ l := (perm_sort l).mem_iff

theorem exists_head_sort (h : l ≠ []) : ∃ a ∈ l, (sort c l).head? = some a := by
  cases hl : sort c l with
  | nil =>
    have hperm := perm_sort (c := c) l
    rw [hl] at hperm
    exact absurd hperm.symm.eq_nil h
  | cons a l' => exact ⟨a, mem_sort.mp (by rw [hl]; exact List.mem_cons_self ..), rfl⟩

theorem pairwise_sort (h : Lawful c) (l : List α) : (sort c l).Pairwise fun a b => c a b ≤ 0 := by
  have : Std.Total fun a b => c a b ≤ 0 := ⟨h.total⟩
  have : IsTrans α fun a b => c a b ≤ 0 := ⟨h.trans⟩
  exact List.pairwise_insertionSort _ l

/-- Of two elements the one that compares as smaller stands before the other. -/
theorem sublist_sort_of_neg (h : Lawful c) {a b : α} (ha : a ∈ l) (hb : b ∈ l) (hab : c a b < 0) :
    List.Sublist [a, b] (sort c l) := by
  have hback : ¬ c b a ≤ 0 := fun hba => absurd ((h.swap b a).mp hba) (not_le.mpr hab)
  obtain ⟨before, after, hsplit⟩ := List.append_of_mem ((mem_sort (c := c)).mpr ha)
  have hsorted := pairwise_sort h l
  have hmem := (mem_sort (c := c)).mpr hb
  rw [hsplit] at hsorted hmem ⊢
  rcases List.mem_append.mp hmem with hbefore | hrest
  · exact absurd ((List.pairwise_append.mp hsorted).2.2 b hbefore a (List.mem_cons_self ..)) hback
  · rcases List.mem_cons.mp hrest with rfl | hafter
    · exact absurd hab.le hback
    · exact ((List.singleton_sublist.mpr hafter).cons_cons a).trans (List.sublist_append_right before _)

variable {l l' : List α}

theorem Separates.of_subset (hs : Separates c l) (h : ∀ a ∈ l', a ∈ l) : Separates c l' := by
  intro a ha b hb h0
  exact hs a (h a ha) b (h b hb) h0

theorem eq_of_sorted (h : Lawful c) (hs : Separates c l) (hp : l.Perm l')
    (hl : l.Pairwise fun a b => c a b ≤ 0) (hl' : l'.Pairwise fun a b => c a b ≤ 0) : l = l' := by
  refine hp.eq_of_pairwise ?_ hl hl'
  intro a b ha hb hab hba
  exact hs a ha b (hp.mem_iff.mpr hb) (le_antisymm hab ((h.swap b a).mp hba))

/-- Sorting a rearranged list gives the same list. -/
theorem sort_eq_of_perm (h : Lawful c) (hs : Separates c l) (hp : l.Perm l') :
    sort c l = sort c l' := by
  have hperm : (sort c l).Perm (sort c l') := ((perm_sort l).trans hp).trans (perm_sort l').symm
  refine eq_of_sorted h (hs.of_subset ?_) hperm (pairwise_sort h l) (pairwise_sort h l')
  intro a ha
  exact mem_sort.mp ha

theorem filter_sort (h : Lawful c) (hs : Separates c l) (p : α → Bool) :
    (sort c l).filter p = sort c (l.filter p) := by
  have hperm : ((sort c l).filter p).Perm (sort c (l.filter p)) :=
    ((perm_sort l).filter p).trans (perm_sort _).symm
  refine eq_of_sorted h (hs.of_subset ?_) hperm ((pairwise_sort h l).filter p) (pairwise_sort h _)
  intro a ha
  exact mem_sort.mp (List.mem_of_mem_filter ha)

end Comparator
