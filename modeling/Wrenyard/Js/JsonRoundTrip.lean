import Wrenyard.Js.Json
import Mathlib.Data.List.TakeWhile
import Mathlib.Tactic.IntervalCases

/-!
# The text of a JSON value

`JSON.parse` inverts `JSON.stringify` (`parse_stringify`), and the text is one line of well-formed UTF-16
(`lf_not_mem_stringify`, `isWellFormed_stringify`).
-/

namespace Js

open List

namespace Json

open JsNumber (digitUnit digitOf stripZeros fractionText exponentText)

private theorem hexValue_hexDigit {n : Nat} (h : n < 16) : hexValue (hexDigit n) = some n := by
  interval_cases n <;> decide

private theorem hexUnit_hexEscape (u : UInt16) :
    hexUnit (hexDigit (u.toNat / 0x1000)) (hexDigit (u.toNat / 0x100 % 16)) (hexDigit (u.toNat / 16 % 16))
      (hexDigit (u.toNat % 16)) = some u := by
  have hu := u.toNat_lt
  unfold hexUnit
  rw [hexValue_hexDigit (by omega), hexValue_hexDigit (by omega), hexValue_hexDigit (by omega),
    hexValue_hexDigit (by omega)]
  have e : u.toNat / 0x1000 * 0x1000 + u.toNat / 0x100 % 16 * 0x100 + u.toNat / 16 % 16 * 16 + u.toNat % 16 =
      u.toNat := by omega
  simp only [Option.bind_eq_bind, Option.bind_some, e]
  simp

private theorem parseString_close (r : JsString) : parseString (34 :: r) = some ([], r) := by
  rw [parseString.eq_def]
  simp

variable {u : UInt16}

private theorem parseString_raw (h1 : u ≠ 34) (h2 : u ≠ 92) (h3 : ¬ u < 32) (t : JsString) :
    parseString (u :: t) = (parseString t).map fun p => (u :: p.1, p.2) := by
  rw [parseString.eq_def]
  simp only [h1, h2, h3, ↓reduceIte]
  cases parseString t <;> rfl

private theorem parseString_escape {e v : UInt16} (h1 : e ≠ 117) (h2 : unescape e = some v) (t : JsString) :
    parseString (92 :: e :: t) = (parseString t).map fun p => (v :: p.1, p.2) := by
  rw [parseString.eq_def]
  simp only [show (92 : UInt16) ≠ 34 by decide, h1, h2, ↓reduceIte]
  cases parseString t <;> rfl

private theorem parseString_hexEscape (u : UInt16) (t : JsString) :
    parseString (hexEscape u ++ t) = (parseString t).map fun p => (u :: p.1, p.2) := by
  unfold hexEscape
  simp only [cons_append, nil_append]
  rw [parseString.eq_def]
  simp only [show (92 : UInt16) ≠ 34 by decide, ↓reduceIte, hexUnit_hexEscape]
  cases parseString t <;> rfl

private theorem parseString_quoteUnit (u : UInt16) (t : JsString) :
    parseString (quoteUnit u ++ t) = (parseString t).map fun p => (u :: p.1, p.2) := by
  unfold quoteUnit
  iterate 7
    split
    · subst_vars; exact parseString_escape (by decide) (by decide) t
  split
  · exact parseString_hexEscape u t
  · rename_i h34 h92 h
    simp only [Bool.or_eq_true, decide_eq_true_eq, not_or] at h
    exact parseString_raw h34 h92 h.1.1 t

private theorem not_special_of_surrogate (h : isHigh u = true ∨ isLow u = true) : u ≠ 34 ∧ u ≠ 92 ∧ ¬ u < 32 := by
  have hu : 0xD800 ≤ u.toNat := by
    rcases h with h | h <;> simp [isHigh, isLow] at h <;> omega
  refine ⟨?_, ?_, ?_⟩
  · rintro rfl; simp at hu
  · rintro rfl; simp at hu
  · rw [UInt16.lt_iff_toNat_lt]
    simp only [UInt16.reduceToNat]
    omega

private theorem parseString_quoteBody (s r : JsString) : parseString (quoteBody s ++ 34 :: r) = some (s, r) := by
  induction s using quoteBody.induct with
  | case1 => rw [quoteBody, nil_append, parseString_close]
  | case2 u =>
    rw [quoteBody, parseString_quoteUnit, parseString_close]
    rfl
  | case3 u v s h ih =>
    rw [quoteBody, if_pos h]
    rw [Bool.and_eq_true] at h
    obtain ⟨a1, a2, a3⟩ := not_special_of_surrogate (Or.inl h.1)
    obtain ⟨b1, b2, b3⟩ := not_special_of_surrogate (Or.inr h.2)
    rw [cons_append, cons_append, parseString_raw a1 a2 a3, parseString_raw b1 b2 b3, ih]
    rfl
  | case4 u v s h ih =>
    rw [quoteBody, if_neg h, append_assoc, parseString_quoteUnit, ih]
    rfl

/-- What follows a number: nothing that could continue it. -/
def Delimited (r : JsString) : Prop :=
  ∀ u ∈ r.head?, isDigit u = false ∧ u ≠ 46 ∧ u ≠ 101 ∧ u ≠ 69

theorem delimited_nil : Delimited [] := by simp [Delimited]

private theorem delimited_cons (h : u = 44 ∨ u = 93 ∨ u = 125) (r : JsString) : Delimited (u :: r) := by
  intro v hv
  simp only [List.head?_cons, Option.mem_def, Option.some.injEq] at hv
  subst hv
  rcases h with rfl | rfl | rfl <;> decide

private theorem accept_ne {v : UInt16} (h : v ≠ u) (r : JsString) : accept u (v :: r) = none := by
  simp [accept, h]

variable {r : JsString}

private theorem accept_none_of_head? (h : ∀ v ∈ r.head?, v ≠ u) : accept u r = none := by
  cases r with
  | nil => rfl
  | cons v r => exact accept_ne (h v rfl) r

theorem isDigit_digitUnit (d : Fin 10) : isDigit (digitUnit d) = true := by
  revert d; decide

private theorem digitOf_digitUnit (d : Fin 10) : digitOf (digitUnit d) = d := by
  revert d; decide

private theorem parseDigits_append {ds : JsString} (hne : ds ≠ []) (hds : ∀ u ∈ ds, isDigit u = true)
    (hr : ∀ u ∈ r.head?, isDigit u = false) : parseDigits (ds ++ r) = some (ds, r) := by
  have hs : (ds ++ r).span isDigit = (ds, r) := by
    rw [span_eq_takeWhile_dropWhile, takeWhile_append_of_pos hds, dropWhile_append_of_pos hds]
    cases r with
    | nil => simp
    | cons u r => simp [hr u rfl]
  unfold parseDigits
  rw [hs]
  simp [hne]

private theorem parseExponent_none (h : Delimited r) : parseExponent r = some (0, r) := by
  unfold parseExponent
  rw [accept_none_of_head? (fun v hv => (h v hv).2.2.1), accept_none_of_head? (fun v hv => (h v hv).2.2.2)]
  rfl

private theorem parseExponent_text (exponent : Int) (h : Delimited r) :
    parseExponent (exponentText exponent ++ r) = some (exponent, r) := by
  have hdigits := parseDigits_append (natText_ne_nil exponent.natAbs) (fun u hu => isDigit_of_mem_natText hu)
    fun u hu => (h u hu).1
  unfold parseExponent
  rw [show (accept 101 (exponentText exponent ++ r)) =
    some ((if exponent < 0 then 45 else 43) :: (natText exponent.natAbs ++ r)) from rfl]
  dsimp only [Option.some_or]
  split
  · rename_i hneg
    rw [show parseSign (45 :: (natText exponent.natAbs ++ r)) = (-1, natText exponent.natAbs ++ r) from rfl, hdigits]
    simp only [Option.map_some, digitsValue_natText, Option.some.injEq, Prod.mk.injEq, and_true]
    omega
  · rename_i hpos
    rw [show parseSign (43 :: (natText exponent.natAbs ++ r)) = (1, natText exponent.natAbs ++ r) from rfl, hdigits]
    simp only [Option.map_some, digitsValue_natText, Option.some.injEq, Prod.mk.injEq, and_true]
    omega

private theorem isDigit_of_mem_units {ds : List (Fin 10)} (hu : u ∈ ds.map digitUnit) : isDigit u = true := by
  obtain ⟨d, -, rfl⟩ := mem_map.1 hu
  exact isDigit_digitUnit d

private theorem parseFraction_text (f : List (Fin 10)) (h : ∀ u ∈ r.head?, isDigit u = false ∧ u ≠ 46) :
    parseFraction (fractionText f ++ r) = some (f.map digitUnit, r) := by
  unfold parseFraction fractionText
  by_cases h0 : f = []
  · subst h0
    rw [if_pos rfl]
    rw [nil_append, accept_none_of_head? (fun v hv => (h v hv).2)]
    rfl
  rw [if_neg h0]
  exact parseDigits_append (by simpa using h0) (fun u hu => isDigit_of_mem_units hu) (fun u hu => (h u hu).1)

private theorem accept_sign (negative : Bool) {t : JsString} (ht : ∀ u ∈ t.head?, u ≠ 45) :
    (accept 45 ((if negative then [45] else []) ++ t)).isSome = negative ∧
      (accept 45 ((if negative then [45] else []) ++ t)).getD ((if negative then [45] else []) ++ t) = t := by
  cases negative with
  | false => simp [accept_none_of_head? ht]
  | true => simp [accept]

private theorem not_digit_fractionText (f : List (Fin 10)) (h : ∀ u ∈ r.head?, isDigit u = false ∧ u ≠ 46) :
    ∀ u ∈ (fractionText f ++ r).head?, isDigit u = false := by
  intro u hu
  rw [fractionText] at hu
  split at hu
  · exact (h u hu).1
  · simp only [cons_append, List.head?_cons, Option.mem_def, Option.some.injEq] at hu
    subst hu; decide

/-- A number is read from its sign, its digits and its exponent. -/
private theorem parseNumber_parts (negative : Bool) {whole : JsString} (f : List (Fin 10))
    {exponent : JsString} {e : Int}
    (hne : whole ≠ []) (hwhole : ∀ u ∈ whole, isDigit u = true) (hzero : whole.head? = some 48 → whole.length = 1)
    (hexponent : parseExponent exponent = some (e, r)) (h : ∀ u ∈ exponent.head?, isDigit u = false ∧ u ≠ 46) :
    parseNumber ((if negative then [45] else []) ++ (whole ++ (fractionText f ++ exponent))) =
      some (scaled negative whole (f.map digitUnit) e, r) := by
  obtain ⟨h1, h2⟩ := @accept_sign negative (whole ++ (fractionText f ++ exponent)) (by
    intro u hu
    rw [List.head?_append_of_ne_nil _ hne] at hu
    have := hwhole u (mem_of_mem_head? hu)
    rintro rfl
    revert this; decide)
  unfold parseNumber
  rw [h1, h2, parseDigits_append hne hwhole (not_digit_fractionText f h)]
  simp only [Option.bind_eq_bind, Option.bind_some]
  rw [if_neg (fun hc => hc.2 (hzero hc.1)), parseFraction_text f h]
  simp only [Option.bind_some, hexponent]
  rfl

variable (n : JsNumber)

private theorem digits_units (ds : List (Fin 10)) : (ds.map digitUnit).map digitOf = ds := by
  rw [map_map, show digitOf ∘ digitUnit = id from funext digitOf_digitUnit, map_id]

private theorem scaled_text :
    scaled n.negative (natText n.whole) (n.fraction.map digitUnit) 0 = n := by
  unfold scaled
  simp only [Int.add_zero, Int.natAbs_natCast]
  rw [if_neg (by omega), append_assoc, take_left, drop_left, digitsValue_natText, digits_units, JsNumber.ofParts_self]

private theorem units_digits_natText (k : Nat) : ((natText k).map digitOf).map digitUnit = natText k := by
  rw [map_map]
  refine (map_congr_left fun u hu => ?_).trans (map_id _)
  have hu := isDigit_of_mem_natText hu
  simp only [isDigit, Bool.and_eq_true, decide_eq_true_eq, UInt16.le_iff_toNat_le] at hu
  have h48 : 48 ≤ u.toNat := hu.1
  have h57 : u.toNat ≤ 57 := hu.2
  apply UInt16.toNat.inj
  simp only [Function.comp_apply, digitUnit, digitOf, Fin.ofNat, id_eq]
  rw [show 48 + (u.toNat - 48) % 10 = u.toNat by omega]
  exact congrArg UInt16.toNat (UInt16.ofNat_toNat)

private theorem takeWhile_zeros (ds : List (Fin 10)) :
    ds.takeWhile (· = 0) = replicate (ds.takeWhile (· = 0)).length 0 :=
  eq_replicate_of_mem fun d hd => by simpa using all_eq_true.mp all_takeWhile d hd

private theorem stripZeros_append (ds : List (Fin 10)) : ∃ k, ds = stripZeros ds ++ replicate k 0 := by
  refine ⟨(ds.reverse.takeWhile (· = 0)).length, ?_⟩
  have hsplit := congrArg reverse (takeWhile_append_dropWhile (p := fun d : Fin 10 => decide (d = 0))
      (l := ds.reverse))
  rw [reverse_append, reverse_reverse, takeWhile_zeros, reverse_replicate] at hsplit
  exact hsplit.symm

/-- The significant digits of a number and the place of the point. -/
private theorem scaled_large {d : Fin 10} {ds : List (Fin 10)}
    (h : stripZeros ((natText n.whole).map digitOf ++ n.fraction) = d :: ds) :
    scaled n.negative [digitUnit d] (ds.map digitUnit) ((natText n.whole).length - 1) = n := by
  have hpoint : (([digitUnit d] : JsString).length : Int) + ((natText n.whole).length - 1) =
      (natText n.whole).length := by
    rw [length_singleton]
    omega
  have hunits : [digitUnit d] ++ ds.map digitUnit = (d :: ds).map digitUnit := rfl
  unfold scaled
  rw [hpoint, hunits, ← h]
  simp only [Int.natAbs_natCast]
  rw [if_neg (by omega)]
  refine Eq.trans ?_ (JsNumber.ofParts_self n)
  by_cases hf : n.fraction = []
  · obtain ⟨k, hk⟩ := stripZeros_append ((natText n.whole).map digitOf)
    have hunits := units_digits_natText n.whole
    rw [hf, append_nil]
    rw [hk, map_append, map_replicate] at hunits
    have hlen := congrArg length hunits
    rw [length_append, length_replicate] at hlen
    rw [show (natText n.whole).length - ((stripZeros ((natText n.whole).map digitOf)).map digitUnit).length =
      k by omega,
      show (48 : UInt16) = digitUnit 0 from rfl, hunits, take_length, digitsValue_natText,
      drop_eq_nil_of_le (by omega)]
    rfl
  · have hlast : ((natText n.whole).map digitOf ++ n.fraction).getLast? ≠ some 0 := by
      rw [getLast?_append_of_ne_nil _ hf]
      exact n.canonical.1
    rw [JsNumber.stripZeros_of_canonical hlast, map_append, units_digits_natText, append_assoc, take_left, drop_left,
      digitsValue_natText, digits_units]

private theorem scaled_small {d : Fin 10} {ds : List (Fin 10)} (hw : n.whole = 0)
    (h6 : 6 ≤ (n.fraction.takeWhile (· = 0)).length)
    (h : n.fraction.dropWhile (· = 0) = d :: ds) :
    scaled n.negative [digitUnit d] (ds.map digitUnit) (-((n.fraction.takeWhile (· = 0)).length + 1)) = n := by
  have hfraction : replicate (n.fraction.takeWhile (· = 0)).length 0 ++ d :: ds = n.fraction := by
    rw [← takeWhile_zeros, ← h, takeWhile_append_dropWhile]
  generalize (n.fraction.takeWhile (· = 0)).length = k at *
  have hpoint : (([digitUnit d] : JsString).length : Int) + (-(k + 1)) = -k := by
    rw [length_singleton]
    omega
  unfold scaled
  rw [hpoint]
  simp only [Int.natAbs_neg, Int.natAbs_natCast]
  rw [if_pos (by omega), show [digitUnit d] ++ ds.map digitUnit = (d :: ds).map digitUnit from rfl, digits_units,
    hfraction, ← hw, JsNumber.ofParts_self]

private theorem natText_head {n : Nat} (h : (natText n).head? = some 48) : (natText n).length = 1 := by
  by_cases hn : n < 10
  · simp [natText, Nat.toDigits_of_lt_base hn]
  exfalso
  induction n using Nat.strong_induction_on with
  | _ n ih =>
    unfold natText at h
    rw [Nat.toDigits_of_base_le (by decide) (by omega), map_append, List.head?_append_of_ne_nil _
      (by simp [Nat.toDigits_ne_nil])] at h
    by_cases h2 : n / 10 < 10
    · have : 1 ≤ n / 10 := by omega
      generalize n / 10 = k at h h2 this
      revert h
      interval_cases k <;> decide
    · exact ih (n / 10) (by omega) h h2

private theorem parseNumber_scientific (negative : Bool) (d : Fin 10) (ds : List (Fin 10)) (exponent : Int)
    (h : Delimited r) : parseNumber ((if negative then [45] else []) ++
      (JsNumber.scientific (d :: ds) exponent ++ r)) =
      some (scaled negative [digitUnit d] (ds.map digitUnit) exponent, r) := by
  have hparts := parseNumber_parts negative ds (cons_ne_nil (digitUnit d) [])
    (fun u hu => by rw [mem_singleton.mp hu]; exact isDigit_digitUnit d) (fun _ => rfl)
      (parseExponent_text exponent h)
    (by
      intro u hu
      rw [exponentText, cons_append, List.head?_cons, Option.mem_def, Option.some.injEq] at hu
      subst hu
      decide)
  rw [← hparts, JsNumber.scientific]
  simp

private theorem significant_ne_nil (h : n.whole ≠ 0) :
    stripZeros ((natText n.whole).map digitOf ++ n.fraction) ≠ [] := by
  intro hnil
  obtain ⟨k, hk⟩ := stripZeros_append ((natText n.whole).map digitOf ++ n.fraction)
  rw [hnil, nil_append] at hk
  have hzero : ∀ u ∈ natText n.whole, u = 48 := by
    intro u hu
    rw [← units_digits_natText] at hu
    obtain ⟨d, hd, rfl⟩ := mem_map.mp hu
    have hd' := mem_append_left n.fraction hd
    rw [hk] at hd'
    rw [eq_of_mem_replicate hd']
    rfl
  rcases hw : natText n.whole with _ | ⟨u, us⟩
  · exact natText_ne_nil _ hw
  have hu := hzero u (by rw [hw]; exact mem_cons_self ..)
  have hlength := natText_head (n := n.whole) (by rw [hw, hu]; rfl)
  rw [hw, length_cons, Nat.add_eq_right, length_eq_zero_iff] at hlength
  apply h
  rw [← digitsValue_natText n.whole, hw, hu, hlength]
  rfl

private theorem dropWhile_ne_nil (h : n.fraction ≠ []) : n.fraction.dropWhile (· = 0) ≠ [] := by
  intro hnil
  apply n.canonical.1
  rw [getLast?_eq_some_getLast h, Option.some.injEq]
  simpa using dropWhile_eq_nil_iff.mp hnil _ (getLast_mem h)

/-- The text of a number has an exponent or is that of its digits. -/
private theorem unsignedText_cases :
    (∃ d ds e, n.unsignedText = JsNumber.scientific (d :: ds) e ∧
      scaled n.negative [digitUnit d] (ds.map digitUnit) e = n) ∨
    n.unsignedText = natText n.whole ++ fractionText n.fraction := by
  unfold JsNumber.unsignedText
  by_cases hlarge : 10 ^ 21 ≤ n.whole
  · rcases hds : stripZeros ((natText n.whole).map digitOf ++ n.fraction) with _ | ⟨d, ds⟩
    · exact absurd hds (significant_ne_nil n (by omega))
    · exact Or.inl ⟨d, ds, _, if_pos hlarge, scaled_large n hds⟩
  rw [if_neg hlarge]
  by_cases hsmall : n.whole = 0 ∧ 6 ≤ (n.fraction.takeWhile (· = 0)).length
  · rcases hds : n.fraction.dropWhile (· = 0) with _ | ⟨d, ds⟩
    · refine absurd hds (dropWhile_ne_nil n ?_)
      intro hnil
      simp [hnil] at hsmall
    · refine Or.inl ⟨d, ds, _, (if_pos hsmall).trans ?_, scaled_small n hsmall.1 hsmall.2 hds⟩
      exact congrArg (JsNumber.scientific · _) hds
  · exact Or.inr (if_neg hsmall)

/-- A number is read back from its text. -/
theorem parseNumber_text (h : Delimited r) : parseNumber (n.text ++ r) = some (n, r) := by
  rw [JsNumber.text, append_assoc]
  rcases unsignedText_cases n with ⟨d, ds, e, htext, hscaled⟩ | htext <;> rw [htext]
  · rw [parseNumber_scientific n.negative d ds e h, hscaled]
  · rw [append_assoc, parseNumber_parts n.negative n.fraction (natText_ne_nil _)
      (fun u hu => isDigit_of_mem_natText hu) natText_head (parseExponent_none h)
      (fun u hu => ⟨(h u hu).1, (h u hu).2.1⟩), scaled_text]

theorem text_inj {m n : JsNumber} (h : m.text = n.text) : m = n := by
  have hm := parseNumber_text m delimited_nil
  rw [h, parseNumber_text n delimited_nil] at hm
  cases hm
  rfl

theorem mem_text (hu : u ∈ n.text) : isDigit u = true ∨ u = 43 ∨ u = 45 ∨ u = 46 ∨ u = 101 := by
  have hfraction : ∀ {f : List (Fin 10)}, u ∈ fractionText f → isDigit u = true ∨ u = 46 := by
    intro f hf
    rw [fractionText] at hf
    split at hf
    · cases hf
    · exact (mem_cons.mp hf).symm.imp isDigit_of_mem_units id
  rw [JsNumber.text, mem_append] at hu
  rcases hu with hu | hu
  · split at hu
    · rw [mem_singleton.mp hu]; simp
    · cases hu
  rcases unsignedText_cases n with ⟨d, ds, e, htext, -⟩ | htext <;> rw [htext] at hu
  · rw [JsNumber.scientific, exponentText, mem_cons, mem_append, mem_cons, mem_cons] at hu
    rcases hu with rfl | hu | rfl | hu | hu
    · exact Or.inl (isDigit_digitUnit d)
    · rcases hfraction hu with h | h <;> simp [h]
    · simp
    · split at hu <;> simp [hu]
    · exact Or.inl (isDigit_of_mem_natText hu)
  · rw [mem_append] at hu
    rcases hu with hu | hu
    · exact Or.inl (isDigit_of_mem_natText hu)
    · rcases hfraction hu with h | h <;> simp [h]

/-! ### Values -/

mutual

/-- The fuel `parseValue` needs. -/
private def size : Json → Nat
  | .arr (x :: xs) => 1 + size x + sizeItems xs
  | .obj ((_, v) :: ms) => 2 + size v + sizeMembers ms
  | _ => 1

private def sizeItems : List Json → Nat
  | [] => 1
  | x :: xs => 1 + size x + sizeItems xs

private def sizeMembers : List (JsString × Json) → Nat
  | [] => 1
  | (_, v) :: ms => 2 + size v + sizeMembers ms

end

private theorem text_head : ∃ u r, n.text = u :: r ∧ (u = 45 ∨ isDigit u = true) := by
  unfold JsNumber.text
  cases n.negative with
  | true => exact ⟨45, _, rfl, Or.inl rfl⟩
  | false =>
    rcases unsignedText_cases n with ⟨d, ds, e, htext, -⟩ | htext <;> rw [htext]
    · exact ⟨digitUnit d, _, rfl, Or.inr (isDigit_digitUnit d)⟩
    rcases h : natText n.whole with _ | ⟨u, us⟩
    · exact absurd h (natText_ne_nil _)
    · exact ⟨u, _, rfl, Or.inr (isDigit_of_mem_natText (by rw [h]; exact mem_cons_self ..))⟩

private theorem head_of_number (h : u = 45 ∨ isDigit u = true) :
    isJsonSpace u = false ∧ u ≠ 93 ∧ u ≠ 34 ∧ u ≠ 91 ∧ u ≠ 123 ∧ u ≠ 110 ∧ u ≠ 116 ∧ u ≠ 102 := by
  rcases h with rfl | h
  · decide
  have hd : 48 ≤ u.toNat ∧ u.toNat ≤ 57 := by
    simpa [isDigit, UInt16.le_iff_toNat_le] using h
  have hne : ∀ v : UInt16, (v.toNat < 48 ∨ 57 < v.toNat) → u ≠ v := by
    rintro v hv rfl; omega
  refine ⟨?_, hne _ (by decide), hne _ (by decide), hne _ (by decide), hne _ (by decide), hne _ (by decide),
    hne _ (by decide), hne _ (by decide)⟩
  simp only [isJsonSpace, Bool.or_eq_false_iff, beq_eq_false_iff_ne, ne_eq]
  exact ⟨⟨⟨hne _ (by decide), hne _ (by decide)⟩, hne _ (by decide)⟩, hne _ (by decide)⟩

variable (v : Json)

private theorem stringify_head : ∃ u r, stringify v = u :: r ∧ isJsonSpace u = false ∧ u ≠ 93 := by
  cases v with
  | null => exact ⟨110, _, rfl, by decide, by decide⟩
  | bool b => cases b <;> exact ⟨_, _, rfl, by decide, by decide⟩
  | num n =>
    obtain ⟨u, r, h, hu⟩ := text_head n
    exact ⟨u, r, by rw [stringify, h], (head_of_number hu).1, (head_of_number hu).2.1⟩
  | str s => exact ⟨34, _, by rw [stringify, quote], by decide, by decide⟩
  | arr xs => cases xs <;> exact ⟨91, _, by rw [stringify], by decide, by decide⟩
  | obj ms => cases ms <;> exact ⟨123, _, by rw [stringify], by decide, by decide⟩

private theorem skipSpace_cons (h : isJsonSpace u = false) (r : JsString) : skipSpace (u :: r) = u :: r := by
  simp [skipSpace, h]

private theorem stringifyItems_delimited (xs : List Json) (r : JsString) : Delimited (stringifyItems xs ++ r) := by
  cases xs <;> rw [stringifyItems, cons_append] <;> exact delimited_cons (by simp) _

variable (ms : List (JsString × Json))

private theorem stringifyMembers_delimited (r : JsString) :
    Delimited (stringifyMembers ms ++ r) := by
  cases ms <;> rw [stringifyMembers, cons_append] <;> exact delimited_cons (by simp) _

private theorem ofMembers_of_nodup {ms : OMap JsString Json} (h : (ms.map Prod.fst).Nodup) :
    ofMembers ms = .obj ms := by
  rw [ofMembers, OMap.foldl_set (by simpa [OMap.keys] using h), nil_append]

mutual

/-- What is read back from the text of a value: the members of an object with the same key are merged. -/
def merged : Json → Json
  | .arr xs => .arr (mergedItems xs)
  | .obj ms => ofMembers (mergedMembers ms)
  | v => v

def mergedItems : List Json → List Json
  | [] => []
  | x :: xs => merged x :: mergedItems xs

def mergedMembers : List (JsString × Json) → List (JsString × Json)
  | [] => []
  | (k, v) :: ms => (k, merged v) :: mergedMembers ms

end

mutual

theorem merged_of_distinct : ∀ (v : Json), v.distinct = true → merged v = v
  | .null, _ | .bool _, _ | .num _, _ | .str _, _ => rfl
  | .arr xs, h => by
    rw [merged, mergedItems_of_distinct xs h]
  | .obj ms, h => by
    simp only [distinct, Bool.and_eq_true, decide_eq_true_eq] at h
    rw [merged, mergedMembers_of_distinct ms h.2, ofMembers_of_nodup h.1]

private theorem mergedItems_of_distinct : ∀ (xs : List Json), distinctItems xs = true → mergedItems xs = xs
  | [], _ => rfl
  | x :: xs, h => by
    simp only [distinctItems, Bool.and_eq_true] at h
    rw [mergedItems, merged_of_distinct x h.1, mergedItems_of_distinct xs h.2]

private theorem mergedMembers_of_distinct : ∀ (ms : List (JsString × Json)), distinctMembers ms = true →
    mergedMembers ms = ms
  | [], _ => rfl
  | (k, v) :: ms, h => by
    simp only [distinctMembers, Bool.and_eq_true] at h
    rw [mergedMembers, merged_of_distinct v h.1, mergedMembers_of_distinct ms h.2]

end

mutual

-- each value is read back from its text, given the fuel its size asks for
private theorem parseValue_stringify : ∀ (v : Json) (n : Nat) (r : JsString), size v ≤ n → Delimited r →
    parseValue n (stringify v ++ r) = some (merged v, r)
  | v, 0, r, h, _ => by cases v with
    | arr xs => cases xs <;> simp [size] at h
    | obj ms => cases ms <;> simp [size] at h
    | _ => simp [size] at h
  | .null, n + 1, r, _, _ => by simp [stringify, parseValue, js, unitsOf, skipSpace, isJsonSpace, parseKeyword,
      startsWith, merged]
  | .bool b, n + 1, r, _, _ => by cases b <;> simp [stringify, parseValue, js, unitsOf, skipSpace, isJsonSpace,
      parseKeyword, startsWith, merged]
  | .num m, n + 1, r, _, hr => by
    obtain ⟨u, t, ht, hu⟩ := text_head m
    obtain ⟨h0, -, h1, h2, h3, h4, h5, h6⟩ := head_of_number hu
    have hp := parseNumber_text m hr
    rw [ht, List.cons_append] at hp
    rw [stringify, ht, List.cons_append, parseValue, skipSpace_cons h0]
    simp only [h1, h2, h3, h4, h5, h6, ↓reduceIte, hp, Option.map_some, merged]
  | .str s, n + 1, r, _, _ => by
    rw [stringify, quote, List.cons_append, parseValue, skipSpace_cons (by decide)]
    simp only [↓reduceIte, List.append_assoc, List.cons_append, List.nil_append, parseString_quoteBody,
      Option.map_some,
      merged]
  | .arr [], n + 1, r, _, _ => by
    rw [stringify, List.cons_append, parseValue, skipSpace_cons (by decide)]
    simp [skipSpace, isJsonSpace, accept, merged, mergedItems]
  | .arr (x :: xs), n + 1, r, h, hr => by
    simp only [size] at h
    have hx := parseValue_stringify x n (stringifyItems xs ++ r) (by omega) (stringifyItems_delimited xs r)
    have hxs := parseItems_stringifyItems xs n r (by omega)
    obtain ⟨u, t, ht, hu, hu'⟩ := stringify_head x
    have ha : accept 93 (skipSpace (stringify x ++ (stringifyItems xs ++ r))) = none := by
      rw [ht, cons_append, skipSpace_cons hu]
      exact accept_ne hu' _
    rw [stringify, cons_append, parseValue, skipSpace_cons (by decide)]
    simp only [show (91 : UInt16) ≠ 34 by decide, ↓reduceIte, append_assoc, ha, hx, hxs, Option.bind_eq_bind,
      Option.bind_some]
    rfl
  | .obj [], n + 1, r, _, _ => by
    rw [stringify, cons_append, parseValue, skipSpace_cons (by decide)]
    simp [skipSpace, isJsonSpace, accept, merged, mergedMembers, ofMembers]
  | .obj ((k, v) :: ms), n + 1, r, h, hr => by
    simp only [size] at h
    have hm := parseMember_stringify k v n (stringifyMembers ms ++ r) (by omega)
      (stringifyMembers_delimited ms r)
    have hms := parseMembers_stringifyMembers ms n r (by omega)
    have ha : accept 125 (skipSpace (quote k ++ 58 :: (stringify v ++ (stringifyMembers ms ++ r)))) = none := by
      exact accept_ne (by decide) _
    rw [stringify, cons_append, parseValue, skipSpace_cons (by decide)]
    simp only [show (123 : UInt16) ≠ 34 by decide, show (123 : UInt16) ≠ 91 by decide, ↓reduceIte, append_assoc,
      cons_append, ha, hm, hms, Option.bind_eq_bind, Option.bind_some]
    rfl

private theorem parseItems_stringifyItems : ∀ (xs : List Json) (n : Nat) (r : JsString), sizeItems xs ≤ n →
    parseItems n (stringifyItems xs ++ r) = some (mergedItems xs, r)
  | xs, 0, r, h => by cases xs <;> simp [sizeItems] at h
  | [], n + 1, r, _ => by
    rw [stringifyItems, List.cons_append, parseItems, skipSpace_cons (by decide)]
    simp [accept, mergedItems]
  | x :: xs, n + 1, r, h => by
    simp only [sizeItems] at h
    have hx := parseValue_stringify x n (stringifyItems xs ++ r) (by omega) (stringifyItems_delimited xs r)
    have hxs := parseItems_stringifyItems xs n r (by omega)
    rw [stringifyItems, List.cons_append, parseItems, skipSpace_cons (by decide), accept_ne (by decide)]
    simp only [accept, ↓reduceIte, List.append_assoc, hx, hxs, Option.bind_eq_bind, Option.bind_some]
    rfl

private theorem parseMember_stringify : ∀ (k : JsString) (v : Json) (n : Nat) (r : JsString), 1 + size v ≤ n →
    Delimited r → parseMember n (quote k ++ 58 :: (stringify v ++ r)) = some ((k, merged v), r)
  | k, v, 0, r, h, _ => by omega
  | k, v, n + 1, r, h, hr => by
    have hv := parseValue_stringify v n r (by omega) hr
    rw [quote, List.cons_append, parseMember, skipSpace_cons (by decide)]
    simp only [accept, ↓reduceIte, List.append_assoc, List.cons_append, List.nil_append, parseString_quoteBody,
      Option.bind_eq_bind, Option.bind_some, skipSpace_cons (show isJsonSpace 58 = false by decide), hv]
    rfl

private theorem parseMembers_stringifyMembers : ∀ (ms : List (JsString × Json)) (n : Nat) (r : JsString),
    sizeMembers ms ≤ n → parseMembers n (stringifyMembers ms ++ r) = some (mergedMembers ms, r)
  | ms, 0, r, h => by cases ms <;> simp [sizeMembers] at h
  | [], n + 1, r, _ => by
    rw [stringifyMembers, List.cons_append, parseMembers, skipSpace_cons (by decide)]
    simp [accept, mergedMembers]
  | (k, v) :: ms, n + 1, r, h => by
    simp only [sizeMembers] at h
    have hm := parseMember_stringify k v n (stringifyMembers ms ++ r) (by omega)
      (stringifyMembers_delimited ms r)
    have hms := parseMembers_stringifyMembers ms n r (by omega)
    rw [stringifyMembers, List.cons_append, parseMembers, skipSpace_cons (by decide), accept_ne (by decide)]
    simp only [accept, ↓reduceIte, List.append_assoc, List.cons_append, hm, hms, Option.bind_eq_bind,
      Option.bind_some]
    rfl

end

mutual

private theorem size_le_length : ∀ v : Json, size v ≤ (stringify v).length
  | .null | .bool true | .bool false | .str s | .arr [] | .obj [] => by
    simp [size, stringify, js, quote, unitsOf]
  | .num n => by
    obtain ⟨u, r, h, -⟩ := text_head n
    simp [size, stringify, h]
  | .arr (x :: xs) => by
    have := size_le_length x
    have := sizeItems_le_length xs
    simp only [size, stringify, List.length_cons, List.length_append]
    omega
  | .obj ((k, v) :: ms) => by
    have := size_le_length v
    have := sizeMembers_le_length ms
    simp only [size, stringify, quote, List.length_cons, List.length_append]
    omega

private theorem sizeItems_le_length : ∀ xs : List Json, sizeItems xs ≤ (stringifyItems xs).length
  | [] => by simp [sizeItems, stringifyItems]
  | x :: xs => by
    have := size_le_length x
    have := sizeItems_le_length xs
    simp only [sizeItems, stringifyItems, List.length_cons, List.length_append]
    omega

private theorem sizeMembers_le_length : ∀ ms : List (JsString × Json), sizeMembers ms ≤ (stringifyMembers ms).length
  | [] => by simp [sizeMembers, stringifyMembers]
  | (k, v) :: ms => by
    have := size_le_length v
    have := sizeMembers_le_length ms
    simp only [sizeMembers, stringifyMembers, quote, List.length_cons, List.length_append]
    omega

end

theorem parse_stringify_merged : parse (stringify v) = some (merged v) := by
  have := parseValue_stringify v ((stringify v).length + 1) [] (by have := size_le_length v; omega) delimited_nil
  rw [append_nil] at this
  rw [parse, this]
  simp [skipSpace]

/-- A value with distinct keys is parsed back from its text. -/
theorem parse_stringify {v : Json} (h : v.distinct = true) : parse (stringify v) = some v := by
  rw [parse_stringify_merged, merged_of_distinct v h]

variable {s : JsString}

private theorem isSpace_digit (h : isDigit u = true) : isSpace u = false := by
  have hd : 48 ≤ u.toNat ∧ u.toNat ≤ 57 := by
    simpa [isDigit, UInt16.le_iff_toNat_le] using h
  have hne : ∀ v : UInt16, 57 < v.toNat ∨ v.toNat < 48 → (u == v) = false := by
    intro v hv
    rw [beq_eq_false_iff_ne]
    rintro rfl
    omega
  have h13 : (9 ≤ u && u ≤ 13) = false := by
    simp only [Bool.and_eq_false_iff, decide_eq_false_iff_not, UInt16.le_iff_toNat_le]
    exact .inr (by have : (13 : UInt16).toNat = 13 := rfl; omega)
  have h2000 : (0x2000 ≤ u && u ≤ 0x200A) = false := by
    simp only [Bool.and_eq_false_iff, decide_eq_false_iff_not, UInt16.le_iff_toNat_le]
    exact .inl (by have : (0x2000 : UInt16).toNat = 0x2000 := rfl; omega)
  unfold isSpace
  rw [h13, h2000, hne _ (by decide), hne _ (by decide), hne _ (by decide), hne _ (by decide), hne _ (by decide),
    hne _ (by decide), hne _ (by decide), hne _ (by decide), hne _ (by decide)]
  rfl

theorem exists_not_isSpace_stringify : ∃ u ∈ stringify v, isSpace u = false := by
  cases v with
  | null => exact ⟨110, by decide, by decide⟩
  | bool b => cases b <;> exact ⟨101, by decide, by decide⟩
  | num n =>
    obtain ⟨u, r, h, hu⟩ := text_head n
    refine ⟨u, by rw [stringify, h]; exact mem_cons_self .., ?_⟩
    rcases hu with rfl | hu
    · decide
    · exact isSpace_digit hu
  | str s => exact ⟨34, by rw [stringify, quote]; exact mem_cons_self .., by decide⟩
  | arr xs => cases xs <;> exact ⟨91, by rw [stringify]; exact mem_cons_self .., by decide⟩
  | obj ms => cases ms <;> exact ⟨123, by rw [stringify]; exact mem_cons_self .., by decide⟩

/-! ### One line of well-formed text -/

/-- The code units that neither end a line nor are surrogates. -/
private def Plain (s : JsString) : Prop := ∀ u ∈ s, u ≠ lf ∧ u ≠ cr ∧ (isHigh u || isLow u) = false

theorem isWellFormed_append {t : JsString} (hs : isWellFormed s = true) (ht : isWellFormed t = true) :
    isWellFormed (s ++ t) = true := by
  induction s using isWellFormed.induct with
  | case1 => simpa using ht
  | case2 u =>
    simp only [isWellFormed, Bool.not_eq_true', Bool.or_eq_false_iff] at hs
    cases t with
    | nil => simp [isWellFormed, hs]
    | cons v t => simp [isWellFormed, hs, ht]
  | case3 u v s h ih =>
    simp only [isWellFormed, h, ↓reduceIte] at hs
    simp only [cons_append, isWellFormed, h, ↓reduceIte, ih hs]
  | case4 u v s h ih =>
    simp only [isWellFormed, h, Bool.false_eq_true, ↓reduceIte, Bool.and_eq_true] at hs
    rw [cons_append] at ih
    simp only [cons_append, isWellFormed, h, Bool.false_eq_true, ↓reduceIte, hs.1, ih hs.2, Bool.and_self]

private theorem isWellFormed_of_plain (h : Plain s) : isWellFormed s = true := by
  induction s with
  | nil => rfl
  | cons u s ih =>
    have hu := (h u (mem_cons_self ..)).2.2
    have := isWellFormed_append (s := [u]) (by simp [isWellFormed, hu])
      (ih fun v hv => h v (mem_cons_of_mem _ hv))
    simpa using this

/-- The end of a line nowhere, a surrogate only in a pair. -/
private def OneLine (s : JsString) : Prop := lf ∉ s ∧ cr ∉ s ∧ isWellFormed s = true

private theorem OneLine.append {t : JsString} (hs : OneLine s) (ht : OneLine t) : OneLine (s ++ t) :=
  ⟨by simp [hs.1, ht.1], by simp [hs.2.1, ht.2.1], isWellFormed_append hs.2.2 ht.2.2⟩

private theorem oneLine_of_plain (h : Plain s) : OneLine s :=
  ⟨fun hm => (h lf hm).1 rfl, fun hm => (h cr hm).2.1 rfl, isWellFormed_of_plain h⟩

private theorem OneLine.cons {u : UInt16} (hu : u ≠ lf ∧ u ≠ cr ∧ (isHigh u || isLow u) = false) {s : JsString}
    (hs : OneLine s) : OneLine (u :: s) :=
  OneLine.append (s := [u]) (oneLine_of_plain (by simpa [Plain] using hu)) hs

private theorem plain_digit (h : isDigit u = true) : u ≠ lf ∧ u ≠ cr ∧ (isHigh u || isLow u) = false := by
  have hd : 48 ≤ u.toNat ∧ u.toNat ≤ 57 := by simpa [isDigit, UInt16.le_iff_toNat_le] using h
  refine ⟨?_, ?_, ?_⟩
  · rintro rfl; simp [lf] at hd
  · rintro rfl; simp [cr] at hd
  · simp [isHigh, isLow]; omega

private theorem plain_hexDigit {n : Nat} (h : n < 16) :
    hexDigit n ≠ lf ∧ hexDigit n ≠ cr ∧ (isHigh (hexDigit n) || isLow (hexDigit n)) = false := by
  interval_cases n <;> decide

private theorem oneLine_hexEscape (u : UInt16) : OneLine (hexEscape u) := by
  have hu := u.toNat_lt
  apply oneLine_of_plain
  intro v hv
  simp only [hexEscape, mem_cons, not_mem_nil, or_false] at hv
  rcases hv with rfl | rfl | rfl | rfl | rfl | rfl
  · decide
  · decide
  all_goals exact plain_hexDigit (by omega)

private theorem oneLine_quoteUnit (u : UInt16) : OneLine (quoteUnit u) := by
  unfold quoteUnit
  repeat' split
  all_goals first
    | exact oneLine_hexEscape u
    | exact ⟨by decide, by decide, by decide⟩
    | skip
  rename_i h10 _ h13 _ _ h
  simp only [Bool.or_eq_true, decide_eq_true_eq, not_or, Bool.not_eq_true] at h
  exact oneLine_of_plain (by simpa [Plain, lf, cr, h.1.2, h.2] using ⟨h10, h13⟩)

private theorem oneLine_quoteBody (s : JsString) : OneLine (quoteBody s) := by
  induction s using quoteBody.induct with
  | case1 => exact ⟨by simp [quoteBody], by simp [quoteBody], rfl⟩
  | case2 u => exact oneLine_quoteUnit u
  | case3 u v s h ih =>
    rw [quoteBody, if_pos h]
    refine OneLine.append (s := [u, v]) ⟨?_, ?_, by simp [isWellFormed, h]⟩ ih
    all_goals
      simp [isHigh, isLow] at h
      simp only [mem_cons, not_mem_nil, or_false, not_or]
      constructor <;> rintro rfl <;> simp [lf, cr] at h
  | case4 u v s h ih =>
    rw [quoteBody, if_neg h]
    exact (oneLine_quoteUnit u).append ih

private theorem oneLine_quote (s : JsString) : OneLine (quote s) :=
  OneLine.cons (by decide) ((oneLine_quoteBody s).append ⟨by decide, by decide, by decide⟩)

private theorem oneLine_text : OneLine n.text := by
  apply oneLine_of_plain
  intro u hu
  rcases mem_text n hu with hu | rfl | rfl | rfl | rfl
  · exact plain_digit hu
  all_goals decide

mutual

private theorem oneLine_stringify : ∀ v : Json, OneLine (stringify v)
  | .null | .bool true | .bool false | .arr [] | .obj [] => by
    rw [stringify]; exact ⟨by decide, by decide, by decide⟩
  | .num n => by rw [stringify]; exact oneLine_text n
  | .str s => by rw [stringify]; exact oneLine_quote s
  | .arr (x :: xs) => by
    rw [stringify]
    exact .cons (by decide) ((oneLine_stringify x).append (oneLine_stringifyItems xs))
  | .obj ((k, v) :: ms) => by
    rw [stringify]
    exact .cons (by decide) ((oneLine_quote k).append
      (.cons (by decide) ((oneLine_stringify v).append (oneLine_stringifyMembers ms))))

private theorem oneLine_stringifyItems : ∀ xs : List Json, OneLine (stringifyItems xs)
  | [] => by rw [stringifyItems]; exact ⟨by decide, by decide, by decide⟩
  | x :: xs => by
    rw [stringifyItems]
    exact .cons (by decide) ((oneLine_stringify x).append (oneLine_stringifyItems xs))

private theorem oneLine_stringifyMembers : ∀ ms : List (JsString × Json), OneLine (stringifyMembers ms)
  | [] => by rw [stringifyMembers]; exact ⟨by decide, by decide, by decide⟩
  | (k, v) :: ms => by
    rw [stringifyMembers]
    exact .cons (by decide) ((oneLine_quote k).append
      (.cons (by decide) ((oneLine_stringify v).append (oneLine_stringifyMembers ms))))

end

theorem lf_not_mem_stringify : lf ∉ stringify v := (oneLine_stringify v).1

theorem cr_not_mem_stringify : cr ∉ stringify v := (oneLine_stringify v).2.1

theorem isWellFormed_stringify : isWellFormed (stringify v) = true := (oneLine_stringify v).2.2

private theorem stringifyMembers_end : ∃ t, stringifyMembers ms = t ++ [125] := by
  induction ms with
  | nil => exact ⟨[], by rw [stringifyMembers]; rfl⟩
  | cons e ms ih =>
    obtain ⟨k, v⟩ := e
    obtain ⟨t, ht⟩ := ih
    exact ⟨44 :: (quote k ++ 58 :: (stringify v ++ t)), by rw [stringifyMembers, ht]; simp⟩

theorem stringify_obj_braces : ∃ t, stringify (.obj ms) = 123 :: (t ++ [125]) := by
  cases ms with
  | nil => exact ⟨[], by rw [stringify]; rfl⟩
  | cons e ms =>
    obtain ⟨k, v⟩ := e
    obtain ⟨t, ht⟩ := stringifyMembers_end ms
    exact ⟨quote k ++ 58 :: (stringify v ++ t), by rw [stringify, ht]; simp⟩

end Json

end Js
