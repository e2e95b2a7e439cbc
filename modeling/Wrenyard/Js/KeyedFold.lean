import Wrenyard.Js.OrderedMap

/-!
# Folding values by key

A loop over pairs of a key and a value that keeps one accumulator for each key in a map.  What the map has at a key is
what the values of that key make of it, in their order (`get_foldKeyed`).
-/

namespace Js.OMap

open List

variable {κ α δ : Type} [DecidableEq κ] (step : Option α → δ → α)

/-- One pair. -/
def setKeyed (m : OMap κ α) (e : κ × δ) : OMap κ α := m.set e.1 (step (m.get e.1) e.2)

/-- A loop over pairs. -/
def foldKeyed (m : OMap κ α) (entries : List (κ × δ)) : OMap κ α := entries.foldl (setKeyed step) m

def foldAt (value : Option α) (values : List δ) : Option α := values.foldl (fun value d => some (step value d)) value

def valuesAt (k : κ) (entries : List (κ × δ)) : List δ :=
  entries.filterMap fun e => if e.1 = k then some e.2 else none

variable {step}

theorem get_setKeyed (m : OMap κ α) (e : κ × δ) (k : κ) :
    (setKeyed step m e).get k = if e.1 = k then some (step (m.get k) e.2) else m.get k := by
  unfold setKeyed
  rw [get_set]
  by_cases h : e.1 = k
  · simp [h]
  · simp [h]

theorem get_foldKeyed (m : OMap κ α) (entries : List (κ × δ)) (k : κ) :
    (foldKeyed step m entries).get k = foldAt step (m.get k) (valuesAt k entries) := by
  induction entries generalizing m with
  | nil => rfl
  | cons e entries ih =>
    have hstep := ih (setKeyed step m e)
    unfold foldKeyed valuesAt at hstep ⊢
    rw [foldl_cons, hstep, get_setKeyed, filterMap_cons]
    by_cases h : e.1 = k
    · simp [h, foldAt]
    · simp [h]

theorem nodup_keys_foldKeyed {m : OMap κ α} (hm : m.keys.Nodup) (entries : List (κ × δ)) :
    (foldKeyed step m entries).keys.Nodup := by
  induction entries generalizing m with
  | nil => exact hm
  | cons e entries ih =>
    exact ih (nodup_keys_set hm e.1 _)

theorem foldAt_isSome {value : Option α} {values : List δ} :
    (foldAt step value values).isSome ↔ value.isSome ∨ values ≠ [] := by
  induction values generalizing value with
  | nil => simp [foldAt]
  | cons d values ih =>
    have h : (foldAt step (some (step value d)) values).isSome ↔ _ := ih
    unfold foldAt at h ⊢
    rw [foldl_cons, h]
    simp

theorem mem_keys_foldKeyed {entries : List (κ × δ)} {k : κ} :
    k ∈ (foldKeyed step [] entries).keys ↔ k ∈ entries.map Prod.fst := by
  have hget : get (foldKeyed step [] entries) k = foldAt step none (valuesAt k entries) := get_foldKeyed [] entries k
  have hnone := get_eq_none_iff (m := foldKeyed step ([] : OMap κ α) entries) (k := k)
  rw [← not_iff_not, ← hnone, hget]
  have hsome : (foldAt step none (valuesAt k entries)).isSome ↔ _ ∨ valuesAt k entries ≠ [] := foldAt_isSome
  constructor
  · intro h hk
    obtain ⟨e, he, rfl⟩ := mem_map.mp hk
    have hne : valuesAt e.1 entries ≠ [] := by
      intro h0
      have hmem : e.2 ∈ valuesAt e.1 entries := mem_filterMap.mpr ⟨e, he, by simp⟩
      rw [h0] at hmem
      cases hmem
    have := hsome.mpr (Or.inr hne)
    rw [h] at this
    cases this
  · intro hk
    have h0 : valuesAt k entries = [] := by
      unfold valuesAt
      rw [filterMap_eq_nil_iff]
      intro e he
      rw [if_neg]
      rintro rfl
      exact hk (mem_map_of_mem he)
    rw [h0]
    rfl

theorem foldAt_last {value : Option α} {v : α} {values : List α} (h : ∀ d ∈ values, d = v) (hne : values ≠ []) :
    foldAt (fun _ d => d) value values = some v := by
  induction values generalizing value with
  | nil => exact absurd rfl hne
  | cons d values ih =>
    have hd : d = v := h d (mem_cons_self ..)
    subst hd
    by_cases hnil : values = []
    · rw [hnil]
      rfl
    · exact ih (fun d' hd' => h d' (mem_cons_of_mem _ hd')) hnil

/-- A map with a value for each of some keys. -/
theorem get_foldKeyed_map (f : κ → α) {ks : List κ} {k : κ} (hk : k ∈ ks) :
    get (foldKeyed (fun _ d => d) [] (ks.map fun k => (k, f k))) k = some (f k) := by
  have hget : get (foldKeyed (fun _ d => d) [] (ks.map fun k => (k, f k))) k =
      foldAt (fun _ d => d) none (valuesAt k (ks.map fun k => (k, f k))) := get_foldKeyed [] _ k
  rw [hget]
  apply foldAt_last
  · intro d hd
    obtain ⟨e, he, hsome⟩ := mem_filterMap.mp hd
    obtain ⟨k', -, rfl⟩ := mem_map.mp he
    by_cases h : k' = k
    · rw [if_pos h] at hsome
      cases hsome
      rw [h]
    · rw [if_neg h] at hsome
      cases hsome
  · intro h0
    have hmem : f k ∈ valuesAt k (ks.map fun k => (k, f k)) :=
      mem_filterMap.mpr ⟨(k, f k), mem_map_of_mem hk, if_pos rfl⟩
    rw [h0] at hmem
    cases hmem

/-- The values of a key among the pairs that some of the elements give. -/
theorem valuesAt_filterMap {β : Type} {f : β → Option (κ × δ)} {p : β → Bool} {g : β → δ} {k : κ} {l : List β}
    (h : ∀ b ∈ l, ((f b).bind fun e => if e.1 = k then some e.2 else none) = if p b then some (g b) else none) :
    valuesAt k (l.filterMap f) = (l.filter p).map g := by
  unfold valuesAt
  rw [filterMap_filterMap]
  induction l with
  | nil => rfl
  | cons b l ih =>
    have hb := h b (mem_cons_self ..)
    rw [filter_cons]
    by_cases hp : p b = true
    · rw [if_pos hp] at hb ⊢
      simp only [filterMap_cons, hb, map_cons, ih fun b' hb' => h b' (mem_cons_of_mem _ hb')]
    · rw [if_neg hp] at hb ⊢
      simp only [filterMap_cons, hb, ih fun b' hb' => h b' (mem_cons_of_mem _ hb')]

end Js.OMap
