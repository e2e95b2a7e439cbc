import Mathlib.Algebra.GroupWithZero.Nat
import Mathlib.Data.List.Basic

/-!
# Insertion-ordered maps

A JavaScript `Map`, and the members of a plain object: the list of its entries in insertion order.  Setting a key
that is present keeps its place, setting a new key adds it at the end, and deleting keeps the order of the rest.
-/

namespace Js

open List

variable {κ α : Type} [DecidableEq κ]

/-- The entries of an insertion-ordered map. -/
abbrev OMap (κ α : Type) := List (κ × α)

namespace OMap

/-- `map.get(k)`. -/
def get (m : OMap κ α) (k : κ) : Option α := List.lookup k m

/-- `map.has(k)`. -/
def has (m : OMap κ α) (k : κ) : Bool := (m.get k).isSome

/-- `map.set(k, v)`. -/
def set : OMap κ α → κ → α → OMap κ α
  | [], k, v => [(k, v)]
  | (k', v') :: m, k, v => if k' = k then (k, v) :: m else (k', v') :: set m k v

/-- `map.delete(k)`. -/
def delete (m : OMap κ α) (k : κ) : OMap κ α := m.filter fun e => e.1 ≠ k

def keys (m : OMap κ α) : List κ := m.map Prod.fst

@[simp] theorem get_nil (k : κ) : get ([] : OMap κ α) k = none := rfl

@[simp] theorem get_cons (e : κ × α) (m : OMap κ α) (k : κ) :
    get (e :: m) k = if e.1 = k then some e.2 else get m k := by
  unfold get
  rw [lookup_cons]
  by_cases h : e.1 = k
  · subst h; simp
  · have : (k == e.1) = false := by simpa using Ne.symm h
    simp [h, this]

theorem get_set (m : OMap κ α) (k k' : κ) (v : α) :
    (m.set k v).get k' = if k = k' then some v else m.get k' := by
  induction m with
  | nil => simp [set]
  | cons e m ih =>
    unfold set
    split
    · split <;> simp_all
    rename_i h
    simp only [get_cons, ih]
    split
    · rename_i h1
      rw [if_neg (fun h2 => h (h1.trans h2.symm))]
    · rfl

theorem get_delete (m : OMap κ α) (k k' : κ) :
    (m.delete k).get k' = if k = k' then none else m.get k' := by
  induction m with
  | nil => simp [delete]
  | cons e m ih =>
    unfold delete at ih ⊢
    rw [filter_cons]
    split
    · rename_i h
      simp only [ne_eq, decide_eq_true_eq] at h
      simp only [get_cons, ih]
      by_cases h1 : e.1 = k'
      · rw [if_pos h1, if_pos h1, if_neg (fun h2 => h (h1.trans h2.symm))]
      · rw [if_neg h1, if_neg h1]
    · rename_i h
      simp only [ne_eq, decide_eq_true_eq, not_not] at h
      subst h
      rw [ih]
      by_cases h1 : e.1 = k' <;> simp [h1]

variable {m : OMap κ α} {k : κ} {v : α}

theorem set_of_get (h : m.get k = some v) : m.set k v = m := by
  induction m with
  | nil => simp at h
  | cons e m ih =>
    rw [get_cons] at h
    unfold set
    split at h
    · rename_i hk
      simp only [Option.some.injEq] at h
      subst hk h
      simp
    · rename_i hk
      rw [if_neg hk, ih h]

theorem mem_of_get (h : m.get k = some v) : (k, v) ∈ m := by
  induction m with
  | nil => simp at h
  | cons e m ih =>
    rw [get_cons] at h
    split at h
    · rename_i hk
      simp only [Option.some.injEq] at h
      subst hk h
      exact mem_cons_self ..
    · exact mem_cons_of_mem _ (ih h)

theorem get_eq_none_iff : m.get k = none ↔ k ∉ m.keys := by
  induction m with
  | nil => simp [keys]
  | cons e m ih =>
    simp only [get_cons, keys, map_cons, mem_cons, not_or] at ih ⊢
    by_cases h : e.1 = k
    · simp [h]
    · simp only [h, if_false, ih, Ne.symm h, not_false_eq_true, true_and]

theorem set_of_not_mem (h : k ∉ m.keys) (v : α) : m.set k v = m ++ [(k, v)] := by
  induction m with
  | nil => rfl
  | cons e m ih =>
    simp only [keys, map_cons, mem_cons, not_or] at h ih
    unfold set
    rw [if_neg (Ne.symm h.1), ih h.2, cons_append]

variable {e : κ × α}

theorem mem_set (h : e ∈ m.set k v) : e = (k, v) ∨ e ∈ m := by
  induction m with
  | nil => exact Or.inl (mem_singleton.mp h)
  | cons e' m ih =>
    unfold set at h
    split at h
    · rcases mem_cons.mp h with h | h
      · exact Or.inl h
      · exact Or.inr (mem_cons_of_mem _ h)
    rcases mem_cons.mp h with h | h
    · exact Or.inr (h ▸ mem_cons_self ..)
    · rcases ih h with h | h
      · exact Or.inl h
      · exact Or.inr (mem_cons_of_mem _ h)

theorem mem_of_mem_delete (h : e ∈ m.delete k) : e ∈ m ∧ e.1 ≠ k := by
  simpa [delete] using h

/-- In a map with distinct keys, an entry is what its key reads. -/
theorem get_of_mem (hn : m.keys.Nodup) (h : e ∈ m) : m.get e.1 = some e.2 := by
  induction m with
  | nil => cases h
  | cons e' m ih =>
    simp only [keys, map_cons, nodup_cons] at hn
    rw [get_cons]
    rcases mem_cons.mp h with rfl | h
    · exact if_pos rfl
    rw [if_neg]
    · exact ih hn.2 h
    · intro heq
      exact hn.1 (heq ▸ mem_map_of_mem h)

/-! ### Sums over the values -/

omit [DecidableEq κ] in
def weight (w : α → Nat) (m : OMap κ α) : Nat := (m.map fun e => w e.2).sum

theorem weight_set_of_get (h : m.get k = some v) (w : α → Nat) (v' : α) :
    (m.set k v').weight w + w v = m.weight w + w v' := by
  induction m with
  | nil => cases h
  | cons e m ih =>
    rw [get_cons] at h
    unfold set
    by_cases hk : e.1 = k
    · rw [if_pos hk] at h ⊢
      obtain rfl := Option.some.inj h
      simp only [weight, map_cons, sum_cons]
      omega
    rw [if_neg hk] at h ⊢
    have := ih h
    simp only [weight, map_cons, sum_cons] at this ⊢
    omega

theorem weight_set_of_none (h : m.get k = none) (w : α → Nat) (v : α) :
    (m.set k v).weight w = m.weight w + w v := by
  rw [set_of_not_mem (get_eq_none_iff.mp h)]
  simp [weight]

theorem delete_of_get_none (h : m.get k = none) : m.delete k = m := by
  unfold delete
  rw [filter_eq_self]
  intro e he
  have hne : k ∉ m.keys := get_eq_none_iff.mp h
  simp only [ne_eq, decide_not, Bool.not_eq_eq_eq_not, Bool.not_true, decide_eq_false_iff_not]
  rintro rfl
  exact hne (mem_map_of_mem he)

theorem weight_delete (hn : m.keys.Nodup) (h : m.get k = some v) (w : α → Nat) :
    (m.delete k).weight w + w v = m.weight w := by
  induction m with
  | nil => cases h
  | cons e m ih =>
    simp only [keys, map_cons, nodup_cons] at hn
    rw [get_cons] at h
    by_cases hk : e.1 = k
    · rw [if_pos hk] at h
      obtain rfl := Option.some.inj h
      have hnone : OMap.get m k = none := get_eq_none_iff.mpr (hk ▸ hn.1)
      have hdelete : delete (e :: m) k = delete m k := by simp [delete, hk]
      rw [hdelete, delete_of_get_none hnone]
      simp only [weight, map_cons, sum_cons]
      omega
    · rw [if_neg hk] at h
      have hdelete : delete (e :: m) k = e :: delete m k := by simp [delete, hk]
      have := ih hn.2 h
      rw [hdelete]
      simp only [weight, map_cons, sum_cons] at this ⊢
      omega

theorem get_filter_key (m : OMap κ α) (p : κ → Bool) (k : κ) :
    get (m.filter fun e => p e.1) k = if p k then m.get k else none := by
  induction m with
  | nil => simp
  | cons e m ih =>
    rw [filter_cons]
    by_cases hk : e.1 = k
    · subst hk
      by_cases hp : p e.1 = true
      · simp [hp]
      · simp [hp, ih]
    · split
      · rw [get_cons, get_cons, if_neg hk, if_neg hk, ih]
      · rw [get_cons, if_neg hk, ih]

theorem get_filter {m : OMap κ α} (hn : m.keys.Nodup) (q : κ × α → Bool) (k : κ) :
    get (m.filter q) k = (m.get k).filter fun v => q (k, v) := by
  induction m with
  | nil => rfl
  | cons e m ih =>
    rw [keys, map_cons, nodup_cons] at hn
    have hrest := ih hn.2
    rw [filter_cons, get_cons]
    by_cases hk : e.1 = k
    · have hnone : get m k = none := get_eq_none_iff.2 (hk ▸ hn.1)
      rw [hnone] at hrest
      subst hk
      split
      · rename_i hq
        rw [get_cons, if_pos rfl, if_pos rfl, Option.filter_some, if_pos hq]
      · rename_i hq
        rw [hrest, if_pos rfl, Option.filter_some, if_neg hq]
        rfl
    · by_cases hq : q e = true
      · rw [if_pos hq, get_cons, if_neg hk, if_neg hk, hrest]
      · rw [if_neg hq, if_neg hk, hrest]

theorem has_eq_true_iff : m.has k = true ↔ k ∈ m.keys := by
  rw [has, Option.isSome_iff_ne_none, ne_eq, get_eq_none_iff, not_not]

theorem has_set (m : OMap κ α) (k k' : κ) (v : α) : (m.set k v).has k' = (decide (k = k') || m.has k') := by
  unfold has
  rw [get_set]
  by_cases h : k = k' <;> simp [h]

theorem keys_set_of_mem (h : k ∈ m.keys) (v : α) : (m.set k v).keys = m.keys := by
  induction m with
  | nil => simp [keys] at h
  | cons e m ih =>
    unfold set
    split
    · rename_i hk
      simp [keys, hk]
    rename_i hk
    have hm : k ∈ keys m := by
      rcases mem_cons.mp h with h | h
      · exact absurd h.symm hk
      · exact h
    have := ih hm
    simp only [keys, map_cons] at this ⊢
    rw [this]

theorem nodup_keys_set (h : m.keys.Nodup) (k : κ) (v : α) : (m.set k v).keys.Nodup := by
  by_cases hk : k ∈ m.keys
  · rw [keys_set_of_mem hk]
    exact h
  rw [set_of_not_mem hk]
  simp only [keys, map_append, map_cons, map_nil] at h hk ⊢
  rw [nodup_append]
  refine ⟨h, by simp, ?_⟩
  intro a ha b hb
  rw [mem_singleton.mp hb]
  rintro rfl
  exact hk ha

theorem nodup_keys_delete (h : m.keys.Nodup) (k : κ) : (m.delete k).keys.Nodup :=
  h.sublist (List.filter_sublist.map Prod.fst)

theorem foldl_set {m acc : OMap κ α} (h : (acc ++ m).keys.Nodup) :
    m.foldl (fun acc e => acc.set e.1 e.2) acc = acc ++ m := by
  induction m generalizing acc with
  | nil => simp
  | cons e m ih =>
    have hk : e.1 ∉ keys acc := by
      intro hm
      rw [keys, map_append, nodup_append] at h
      exact h.2.2 _ hm e.1 (by simp) rfl
    rw [foldl_cons, set_of_not_mem hk, ih]
    · simp
    · simpa using h

theorem length_set (m : OMap κ α) (k : κ) (v : α) :
    (m.set k v).length = if k ∈ m.keys then m.length else m.length + 1 := by
  split
  · rename_i hk
    have := congrArg List.length (keys_set_of_mem hk v)
    simpa only [keys, length_map] using this
  · rename_i hk
    rw [set_of_not_mem hk, length_append]
    rfl

theorem length_foldl_set_le (m acc : OMap κ α) :
    (m.foldl (fun acc e => acc.set e.1 e.2) acc).length ≤ acc.length + m.length := by
  induction m generalizing acc with
  | nil => exact Nat.le_refl _
  | cons e m ih =>
    have h := ih (acc.set e.1 e.2)
    have hset := length_set acc e.1 e.2
    rw [foldl_cons, length_cons]
    split at hset <;> omega

theorem nodup_of_length_foldl_set {m acc : OMap κ α} (hacc : acc.keys.Nodup)
    (h : (m.foldl (fun acc e => acc.set e.1 e.2) acc).length = acc.length + m.length) : (acc ++ m).keys.Nodup := by
  induction m generalizing acc with
  | nil => simpa using hacc
  | cons e m ih =>
    have hle := length_foldl_set_le m (acc.set e.1 e.2)
    have hset := length_set acc e.1 e.2
    rw [foldl_cons, length_cons] at h
    split at hset
    · omega
    rename_i hk
    have := ih (nodup_keys_set hacc e.1 e.2) (by omega)
    rw [set_of_not_mem hk] at this
    simpa using this

omit [DecidableEq κ] in
@[simp] theorem keys_map (m : OMap κ α) {β : Type} (f : κ × α → β) :
    OMap.keys (m.map fun e => (e.1, f e) : OMap κ β) = m.keys := by
  simp [keys]

theorem get_map (m : OMap κ α) {β : Type} (f : κ × α → β) (k : κ) :
    OMap.get (m.map fun e => (e.1, f e) : OMap κ β) k = (m.get k).map fun v => f (k, v) := by
  induction m with
  | nil => rfl
  | cons e m ih =>
    rw [map_cons, get_cons, get_cons, ih]
    by_cases h : e.1 = k
    · subst h
      simp
    · simp [h]

theorem get_perm {m m' : OMap κ α} (h : m.Perm m') (hn : m.keys.Nodup) (k : κ) : m.get k = m'.get k := by
  induction h with
  | nil => rfl
  | cons e _ ih =>
    simp only [keys, map_cons, nodup_cons] at hn
    simp only [get_cons, ih hn.2]
  | swap e e' m =>
    simp only [keys, map_cons, nodup_cons, mem_cons, not_or] at hn
    simp only [get_cons]
    split
    · rename_i h1
      rw [if_neg fun h2 => hn.1.1 (h1.trans h2.symm)]
    · rfl
  | trans h1 _ ih1 ih2 =>
    rw [ih1 hn, ih2 ((h1.map Prod.fst).nodup_iff.mp hn)]

/-- The object literal with the given fields; an undefined one is left out. -/
def ofFields (fs : List (κ × Option α)) : OMap κ α := fs.filterMap fun f => f.2.map fun v => (f.1, v)

omit [DecidableEq κ] in
theorem keys_ofFields_sublist (fs : List (κ × Option α)) : (ofFields fs).keys.Sublist (fs.map Prod.fst) := by
  induction fs with
  | nil => simp [ofFields, keys]
  | cons f fs ih =>
    obtain ⟨k, _ | v⟩ := f
    · exact ih.trans (sublist_cons_self k _)
    · exact ih.cons_cons k

omit [DecidableEq κ] in
theorem mem_ofFields {fs : List (κ × Option α)} {e : κ × α} : e ∈ ofFields fs ↔ (e.1, some e.2) ∈ fs := by
  unfold ofFields
  rw [mem_filterMap]
  constructor
  · rintro ⟨⟨k, v⟩, hf, he⟩
    simp only [Option.map_eq_some_iff] at he
    obtain ⟨v', rfl, rfl⟩ := he
    exact hf
  · intro h
    exact ⟨_, h, rfl⟩

theorem get_ofFields {fs : List (κ × Option α)} (h : (fs.map Prod.fst).Nodup) (k : κ) :
    (ofFields fs).get k = (get fs k).join := by
  induction fs with
  | nil => rfl
  | cons f fs ih =>
    simp only [map_cons, nodup_cons] at h
    obtain ⟨k', _ | v⟩ := f
    · have hrest : ofFields ((k', none) :: fs) = ofFields fs := rfl
      rw [hrest, ih h.2, get_cons]
      split
      · rename_i hk
        subst hk
        rw [get_eq_none_iff.mpr h.1]
        rfl
      · rfl
    · have hrest : ofFields ((k', some v) :: fs) = (k', v) :: ofFields fs := rfl
      rw [hrest, get_cons, get_cons]
      split
      · rfl
      · exact ih h.2

end OMap

end Js
