import Mathlib.Algebra.BigOperators.Group.List.Basic
import Mathlib.Data.List.Nodup
import Wrenyard.Js.KeyedFold

/-!
# Sums by key

A table that adds each amount to the cell of its key.  What the cells of some keys sum to is what was added to them
(`total_addAt`), for any set of keys.
-/

namespace Js.OMap

open List

variable {κ M : Type} [DecidableEq κ] [AddCommMonoid M]

def addAt (m : OMap κ M) (k : κ) (amount : M) : OMap κ M := OMap.set m k ((OMap.get m k).getD 0 + amount)

def total (p : κ → Bool) (m : OMap κ M) : M := ((m.filter fun e => p e.1).map Prod.snd).sum

omit [DecidableEq κ] in
theorem total_cons (p : κ → Bool) (e : κ × M) (m : OMap κ M) :
    total p (e :: m) = (if p e.1 then e.2 else 0) + total p m := by
  unfold total
  rw [filter_cons]
  by_cases h : p e.1 = true
  · rw [if_pos h, if_pos h, map_cons, sum_cons]
  · rw [if_neg h, if_neg h, zero_add]

theorem total_addAt (p : κ → Bool) (m : OMap κ M) (k : κ) (amount : M) :
    total p (addAt m k amount) = total p m + if p k then amount else 0 := by
  induction m with
  | nil =>
    unfold addAt OMap.set
    rw [total_cons]
    simp [total]
  | cons e m ih =>
    unfold addAt at ih ⊢
    unfold OMap.set
    rw [get_cons]
    by_cases h : e.1 = k
    · rw [if_pos h, if_pos h, total_cons, total_cons, h, Option.getD_some]
      by_cases hp : p k = true
      · rw [if_pos hp, if_pos hp, if_pos hp, add_right_comm]
      · rw [if_neg hp, if_neg hp, if_neg hp, add_zero]
    · rw [if_neg h, if_neg h, total_cons, total_cons, ih, add_assoc]

theorem nodup_keys_addAt {m : OMap κ M} (hm : m.keys.Nodup) (k : κ) (amount : M) : (addAt m k amount).keys.Nodup :=
  nodup_keys_set hm k _

theorem total_foldl_addAt {ρ : Type} (p : κ → Bool) (key : ρ → κ) (amount : ρ → M) (rows : List ρ) (m : OMap κ M) :
    total p (rows.foldl (fun m row => addAt m (key row) (amount row)) m) =
      total p m + ((rows.filter fun row => p (key row)).map amount).sum := by
  induction rows generalizing m with
  | nil => simp
  | cons row rows ih =>
    rw [foldl_cons, ih, total_addAt, filter_cons, add_assoc]
    congr 1
    split
    · rw [map_cons, sum_cons]
    · rw [zero_add]

theorem nodup_keys_foldl_addAt {ρ : Type} (key : ρ → κ) (amount : ρ → M) (rows : List ρ) {m : OMap κ M}
    (hm : m.keys.Nodup) : (rows.foldl (fun m row => addAt m (key row) (amount row)) m).keys.Nodup := by
  induction rows generalizing m with
  | nil => exact hm
  | cons row rows ih => exact ih (nodup_keys_addAt hm _ _)

def collect {δ : Type} (entries : List (κ × δ)) : OMap κ (List δ) :=
  foldKeyed (fun values d => values.getD [] ++ [d]) [] entries

omit [AddCommMonoid M] in
theorem get_collect {δ : Type} (entries : List (κ × δ)) (k : κ) :
    (OMap.get (collect entries) k).getD [] = valuesAt k entries := by
  have hfold : ∀ (values acc : List δ), foldAt (fun values d => values.getD [] ++ [d]) (some acc) values =
      some (acc ++ values) := by
    intro values
    induction values with
    | nil =>
      intro acc
      rw [append_nil]
      rfl
    | cons d values ih =>
      intro acc
      refine (ih (acc ++ [d])).trans ?_
      rw [append_assoc, singleton_append]
  have hget : OMap.get (collect entries) k =
      foldAt (fun values d => values.getD [] ++ [d]) none (valuesAt k entries) :=
    get_foldKeyed [] entries k
  rw [hget]
  cases valuesAt k entries with
  | nil => rfl
  | cons d values => exact congrArg (Option.getD · []) (hfold values [d])

variable {α : Type}

/-- Sums over the elements of distinct keys. -/
theorem sum_by_key (key : α → κ) (f : α → M) {ks : List κ} (hks : ks.Nodup) (l : List α) :
    (ks.map fun k => ((l.filter fun a => key a = k).map f).sum).sum = ((l.filter fun a => key a ∈ ks).map f).sum := by
  induction l with
  | nil => simp
  | cons a l ih =>
    have hcons : ∀ k, (((a :: l).filter fun a => key a = k).map f).sum =
        (if key a = k then f a else 0) + ((l.filter fun a => key a = k).map f).sum := by
      intro k
      by_cases hk : key a = k <;> simp [hk]
    rw [map_congr_left fun k _ => hcons k, sum_map_add, ih, filter_cons]
    by_cases ha : key a ∈ ks
    · rw [sum_map_eq_nsmul_single (key a) _ fun k hk _ => if_neg hk.symm, count_eq_one_of_mem hks ha,
        one_nsmul, if_pos rfl, if_pos (decide_eq_true ha), map_cons, sum_cons]
    have hzero : (ks.map fun k => if key a = k then f a else 0) = ks.map fun _ => 0 :=
      map_congr_left fun k hk => if_neg fun (h : key a = k) => ha (h ▸ hk)
    rw [hzero, if_neg (by simpa using ha)]
    simp

theorem sum_set (f : κ → α → M) (m : OMap κ α) (k : κ) (v : α) (amount : M)
    (h : f k v = ((OMap.get m k).map (f k)).getD 0 + amount) :
    ((OMap.set m k v).map fun e => f e.1 e.2).sum = (m.map fun e => f e.1 e.2).sum + amount := by
  induction m with
  | nil =>
    unfold OMap.set
    rw [map_singleton, sum_singleton, h]
    simp
  | cons e m ih =>
    unfold OMap.set
    rw [get_cons] at h
    by_cases hk : e.1 = k
    · subst hk
      rw [if_pos rfl, Option.map_some, Option.getD_some] at h
      rw [if_pos rfl, map_cons, sum_cons, map_cons, sum_cons, h, add_right_comm]
    · rw [if_neg hk] at h
      rw [if_neg hk, map_cons, sum_cons, map_cons, sum_cons, ih h, add_assoc]

theorem sum_collect {δ : Type} (f : κ → δ → M) (entries : List (κ × δ)) :
    ((collect entries).map fun e => (e.2.map (f e.1)).sum).sum = (entries.map fun e => f e.1 e.2).sum := by
  have hstep : ∀ (entries : List (κ × δ)) (m : OMap κ (List δ)),
      ((foldKeyed (fun values d => values.getD [] ++ [d]) m entries).map fun e => (e.2.map (f e.1)).sum).sum =
        (m.map fun e => (e.2.map (f e.1)).sum).sum + (entries.map fun e => f e.1 e.2).sum := by
    intro entries
    induction entries with
    | nil =>
      intro m
      simp [foldKeyed]
    | cons e entries ih =>
      intro m
      have hset : ((setKeyed (fun values d => values.getD [] ++ [d]) m e).map fun e => (e.2.map (f e.1)).sum).sum =
          (m.map fun e => (e.2.map (f e.1)).sum).sum + f e.1 e.2 := by
        refine sum_set (fun k (values : List δ) => (values.map (f k)).sum) m e.1 _ _ ?_
        cases OMap.get m e.1 <;> simp
      unfold foldKeyed at ih ⊢
      rw [foldl_cons, ih, hset, map_cons, sum_cons, add_assoc]
  have := hstep entries []
  simpa [collect] using this

theorem sum_filterMap {β : Type} (f : α → Option β) (g : β → M) (l : List α) :
    ((l.filterMap f).map g).sum = (l.map fun a => ((f a).map g).getD 0).sum := by
  induction l with
  | nil => rfl
  | cons a l ih =>
    rw [map_cons, sum_cons, ← ih]
    cases hf : f a with
    | none => rw [filterMap_cons_none hf, Option.map_none, Option.getD_none, zero_add]
    | some b => rw [filterMap_cons_some hf, map_cons, sum_cons, Option.map_some, Option.getD_some]

theorem sum_filter {p : α → Bool} {f : α → M} {l : List α} (h : ∀ a ∈ l, p a = false → f a = 0) :
    ((l.filter p).map f).sum = (l.map f).sum := by
  induction l with
  | nil => rfl
  | cons a l ih =>
    rw [filter_cons, map_cons, sum_cons, ← ih fun b hb => h b (mem_cons_of_mem _ hb)]
    split
    · rw [map_cons, sum_cons]
    · rename_i hp
      rw [h a (mem_cons_self ..) (Bool.eq_false_iff.mpr hp), zero_add]

/-- A sum over some of the elements. -/
theorem sum_filter_ite (p : α → Bool) (f : α → M) (l : List α) :
    ((l.filter p).map f).sum = (l.map fun a => if p a then f a else 0).sum := by
  have hfilter : ((l.filter p).map fun a => if p a then f a else 0).sum = (l.map fun a => if p a then f a
      else 0).sum :=
    sum_filter fun a _ hp => by rw [hp, if_neg Bool.false_ne_true]
  rw [← hfilter]
  congr 1
  apply map_congr_left
  intro a ha
  rw [if_pos (mem_filter.mp ha).2]

end Js.OMap
