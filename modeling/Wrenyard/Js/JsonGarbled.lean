import Wrenyard.Js.JsonRoundTrip
import Wrenyard.Js.Utf8Chunks

/-!
# Garbled JSON text

A character outside ASCII occurs in the text of a JSON value only inside a string.  So the text that is left after
some of these were lost is still the text of a value, with the same shape and with other strings
(`garbled_stringify`).  What is parsed from it is the value itself only if nothing was lost: neither a string nor the
number of members of an object is the same otherwise (`merged_eq_of_shape`).
-/

namespace Js

open List

namespace Json

mutual

def shape : Json → Json
  | .str _ => .str []
  | .arr xs => .arr (shapeItems xs)
  | .obj ms => .obj (shapeMembers ms)
  | v => v

def shapeItems : List Json → List Json
  | [] => []
  | x :: xs => shape x :: shapeItems xs

def shapeMembers : List (JsString × Json) → List (JsString × Json)
  | [] => []
  | (_, v) :: ms => ([], shape v) :: shapeMembers ms

end

private theorem length_shapeMembers (ms : List (JsString × Json)) : (shapeMembers ms).length = ms.length := by
  induction ms with
  | nil => rfl
  | cons m ms ih => rw [shapeMembers, length_cons, length_cons, ih]

private theorem length_mergedMembers (ms : List (JsString × Json)) : (mergedMembers ms).length = ms.length := by
  induction ms with
  | nil => rfl
  | cons m ms ih => rw [mergedMembers, length_cons, length_cons, ih]

private theorem ofMembers_of_length {ms ns : List (JsString × Json)} (h : ofMembers ms = .obj ns)
    (hlen : ns.length = ms.length) : ns = ms := by
  rw [ofMembers, Json.obj.injEq] at h
  subst h
  have hn : (OMap.keys (([] : List (JsString × Json)) ++ ms)).Nodup :=
    OMap.nodup_of_length_foldl_set nodup_nil (by simpa using hlen)
  exact OMap.foldl_set hn

mutual

-- a value of the same shape that is merged to the given one is that one
private theorem merged_of_shape : ∀ v : Json, shape v = shape (merged v) → merged v = v
  | .null, _ | .bool _, _ | .num _, _ | .str _, _ => rfl
  | .arr xs, h => by
    rw [merged, shape, shape, Json.arr.injEq] at h
    rw [merged, mergedItems_of_shape xs h]
  | .obj ms, h => by
    have hm : merged (.obj ms) = ofMembers (mergedMembers ms) := rfl
    obtain ⟨ns, hns⟩ : ∃ ns, ofMembers (mergedMembers ms) = .obj ns := ⟨_, rfl⟩
    rw [hm, hns, shape, shape, Json.obj.injEq] at h
    have hlen : ns.length = (mergedMembers ms).length := by
      rw [length_mergedMembers, ← length_shapeMembers ms, ← length_shapeMembers ns, h]
    have heq := ofMembers_of_length hns hlen
    rw [heq] at h
    rw [hm, hns, heq, mergedMembers_of_shape ms h]

private theorem mergedItems_of_shape : ∀ xs : List Json, shapeItems xs = shapeItems (mergedItems xs) →
    mergedItems xs = xs
  | [], _ => rfl
  | x :: xs, h => by
    rw [mergedItems, shapeItems, shapeItems, List.cons.injEq] at h
    rw [mergedItems, merged_of_shape x h.1, mergedItems_of_shape xs h.2]

private theorem mergedMembers_of_shape : ∀ ms : List (JsString × Json),
    shapeMembers ms = shapeMembers (mergedMembers ms) → mergedMembers ms = ms
  | [], _ => rfl
  | (k, v) :: ms, h => by
    rw [mergedMembers, shapeMembers, shapeMembers, List.cons.injEq, Prod.mk.injEq] at h
    rw [mergedMembers, merged_of_shape v h.1.2, mergedMembers_of_shape ms h.2]

end

theorem merged_eq_of_shape {v w : Json} (hs : shape w = shape v) (h : merged w = v) : w = v := by
  subst h
  exact (merged_of_shape w hs).symm

end Json

/-- A code unit of an ASCII character. -/
def IsAscii (u : UInt16) : Prop := u.toNat < 0x80

instance instDecidableIsAscii (u : UInt16) : Decidable (IsAscii u) := inferInstanceAs (Decidable (u.toNat < 0x80))

variable {s t : JsString} {u : UInt16}

private theorem garbled_cons (h : Garbled (u :: s) t) :
    (∃ t', t = u :: t' ∧ Garbled s t') ∨
    (¬ IsAscii u ∧ (isHigh u || isLow u) = false ∧
      ∃ n t', 2 ≤ n ∧ t = List.replicate n replacement ++ t' ∧ Garbled s t') ∨
    (¬ IsAscii u ∧ isHigh u = true ∧ ∃ v s', s = v :: s' ∧
      ∃ n t', 2 ≤ n ∧ t = List.replicate n replacement ++ t' ∧ Garbled s' t') := by
  generalize hs : u :: s = s₀ at h
  cases h with
  | nil => cases hs
  | keep w h =>
    obtain ⟨rfl, rfl⟩ := List.cons.inj hs
    exact .inl ⟨_, rfl, h⟩
  | @lost c n s₁ t₁ hc h80 hn h =>
    unfold IsScalar at hc
    unfold unitsOfPoint at hs
    split at hs
    · obtain ⟨rfl, rfl⟩ := List.cons.inj hs
      have hval : (UInt16.ofNat c).toNat = c := by
        exact Nat.mod_eq_of_lt (by omega)
      refine .inr (.inl ⟨?_, ?_, n, t₁, hn, rfl, h⟩)
      · unfold IsAscii
        omega
      · simp only [isHigh, isLow, hval, Bool.or_eq_false_iff, Bool.and_eq_false_iff, decide_eq_false_iff_not]
        omega
    · obtain ⟨rfl, rfl⟩ := List.cons.inj hs
      have hval : (UInt16.ofNat (0xD800 + (c - 0x10000) / 0x400)).toNat = 0xD800 + (c - 0x10000) / 0x400 := by
        rw [UInt16.toNat_ofNat']
        exact Nat.mod_eq_of_lt (by omega)
      refine .inr (.inr ⟨?_, ?_, _, _, rfl, n, t₁, hn, rfl, h⟩)
      · unfold IsAscii
        omega
      · simp only [isHigh, hval, Bool.and_eq_true, decide_eq_true_eq]
        omega

theorem garbled_ascii {a : JsString} (ha : ∀ u ∈ a, IsAscii u) (h : Garbled (a ++ s) t) :
    ∃ t', t = a ++ t' ∧ Garbled s t' := by
  induction a generalizing t with
  | nil => exact ⟨t, rfl, h⟩
  | cons u a ih =>
    rcases garbled_cons h with ⟨t', rfl, h'⟩ | ⟨hu, -⟩ | ⟨hu, -⟩
    · obtain ⟨t'', rfl, h''⟩ := ih (fun v hv => ha v (mem_cons_of_mem _ hv)) h'
      exact ⟨t'', rfl, h''⟩
    · exact absurd (ha u (mem_cons_self ..)) hu
    · exact absurd (ha u (mem_cons_self ..)) hu

theorem garbled_literal {a : JsString} (ha : (a.all fun u => u.toNat < 0x80) = true) (h : Garbled (a ++ s) t) :
    ∃ t', t = a ++ t' ∧ Garbled s t' :=
  garbled_ascii (fun u hu => of_decide_eq_true (List.all_eq_true.1 ha u hu)) h

private theorem garbled_unit (hu : IsAscii u) (h : Garbled (u :: s) t) :
    ∃ t', t = u :: t' ∧ Garbled s t' := garbled_ascii (a := [u]) (by simpa using hu) h

namespace Json

private theorem isAscii_hexDigit {n : Nat} (h : n < 16) : IsAscii (hexDigit n) := by
  unfold IsAscii hexDigit
  rw [UInt16.toNat_ofNat']
  split <;> omega

private theorem quoteUnit_cases (u : UInt16) :
    (∀ v ∈ quoteUnit u, IsAscii v) ∨ (quoteUnit u = [u] ∧ (isHigh u || isLow u) = false) := by
  have hu := u.toNat_lt
  unfold quoteUnit
  repeat' split
  all_goals first
    | (refine .inl ?_; simp [IsAscii]; done)
    | skip
  · refine .inl fun v hv => ?_
    simp only [hexEscape, mem_cons, not_mem_nil, or_false] at hv
    rcases hv with rfl | rfl | rfl | rfl | rfl | rfl
    · decide
    · decide
    all_goals exact isAscii_hexDigit (by omega)
  · rename_i h
    simp only [Bool.or_eq_true, decide_eq_true_eq, not_or, Bool.not_eq_true] at h
    exact .inr ⟨rfl, by simp [h.1.2, h.2]⟩

private theorem garbled_quoteUnit (h : Garbled (quoteUnit u ++ s) t) :
    (∃ t', t = quoteUnit u ++ t' ∧ Garbled s t') ∨ ∃ n t', 2 ≤ n ∧ t = List.replicate n replacement ++ t' ∧
    Garbled s t' := by
  rcases quoteUnit_cases u with hascii | ⟨heq, hu⟩
  · exact .inl (garbled_ascii hascii h)
  rw [heq] at h ⊢
  rcases garbled_cons h with hkeep | ⟨-, -, hlost⟩ | ⟨-, hhigh, -⟩
  · exact .inl hkeep
  · exact .inr hlost
  · rw [hhigh] at hu
    cases hu

private theorem quoteBody_replicate (n : Nat) (s : JsString) :
    quoteBody (List.replicate n replacement ++ s) = List.replicate n replacement ++ quoteBody s := by
  induction n with
  | zero => rfl
  | succ n ih =>
    rw [replicate_succ, cons_append, cons_append, ← ih]
    generalize List.replicate n replacement ++ s = r
    cases r with
    | nil => rfl
    | cons v r =>
      rfl

private theorem garbled_quoteBody {r : JsString} (h : Garbled (quoteBody s ++ r) t) :
    ∃ s' r', t = quoteBody s' ++ r' ∧ Garbled r r' ∧ ∀ w ∈ s'.head?, isLow w = true → w ∈ s.head? := by
  have hlow : ∀ n (s' : JsString) (s : JsString), 2 ≤ n →
      ∀ w ∈ (List.replicate n replacement ++ s').head?, isLow w = true → w ∈ s.head? := by
    intro n s' s hn w hw hlow
    obtain ⟨m, rfl⟩ : ∃ m, n = m + 1 := ⟨n - 1, by omega⟩
    rw [replicate_succ, cons_append, List.head?_cons, Option.mem_some_iff] at hw
    subst hw
    cases hlow
  induction s using quoteBody.induct generalizing t with
  | case1 => exact ⟨[], t, rfl, h, fun w hw => by cases hw⟩
  | case2 u =>
    rcases garbled_quoteUnit h with ⟨t', rfl, h'⟩ | ⟨n, t', hn, rfl, h'⟩
    · exact ⟨[u], t', rfl, h', fun w hw _ => hw⟩
    refine ⟨List.replicate n replacement, t', ?_, h', ?_⟩
    · have := quoteBody_replicate n []
      rw [append_nil] at this
      rw [this, quoteBody, append_nil]
    · have := hlow n [] [u] hn
      rwa [append_nil] at this
  | case3 u v s hp ih =>
    rw [quoteBody, if_pos hp, cons_append, cons_append] at h
    rw [Bool.and_eq_true] at hp
    have hpair : (isHigh u && isLow v) = true := by rw [hp.1, hp.2]; rfl
    have hnothigh : isHigh v = false := by
      have := hp.2
      simp [isHigh, isLow] at this ⊢
      omega
    rcases garbled_cons h with ⟨t', rfl, h'⟩ | ⟨-, hu, -⟩ | ⟨-, -, v', s', hs', n, t', hn, rfl, h'⟩
    · rcases garbled_cons h' with ⟨t'', rfl, h''⟩ | ⟨-, hv, -⟩ | ⟨-, hv, -⟩
      · obtain ⟨s', r', rfl, hr, -⟩ := ih h''
        refine ⟨u :: v :: s', r', ?_, hr, fun w hw _ => hw⟩
        rw [quoteBody, if_pos hpair, cons_append, cons_append]
      · rw [hp.2, Bool.or_true] at hv
        cases hv
      · rw [hnothigh] at hv
        cases hv
    · rw [hp.1] at hu
      cases hu
    · obtain ⟨rfl, rfl⟩ := List.cons.inj hs'
      obtain ⟨s', r', rfl, hr, -⟩ := ih h'
      refine ⟨List.replicate n replacement ++ s', r', ?_, hr, hlow n s' _ hn⟩
      rw [quoteBody_replicate, append_assoc]
  | case4 u v s hp ih =>
    rw [quoteBody, if_neg hp, append_assoc] at h
    rcases garbled_quoteUnit h with ⟨t', rfl, h'⟩ | ⟨n, t', hn, rfl, h'⟩
    · obtain ⟨s', r', rfl, hr, hhead⟩ := ih h'
      refine ⟨u :: s', r', ?_, hr, fun w hw _ => hw⟩
      cases s' with
      | nil => rw [quoteBody, quoteBody, nil_append]
      | cons w s' =>
        have hne : ¬ (isHigh u && isLow w) = true := by
          intro hboth
          rw [Bool.and_eq_true] at hboth
          have hv := hhead w rfl hboth.2
          rw [List.head?_cons, Option.mem_some_iff] at hv
          subst hv
          exact hp (by rw [hboth.1, hboth.2]; rfl)
        rw [quoteBody, if_neg hne, append_assoc]
    · obtain ⟨s', r', rfl, hr, -⟩ := ih h'
      refine ⟨List.replicate n replacement ++ s', r', ?_, hr, hlow n s' _ hn⟩
      rw [quoteBody_replicate, append_assoc]

private theorem garbled_quote {r : JsString} (h : Garbled (quote s ++ r) t) :
    ∃ s' r', t = quote s' ++ r' ∧ Garbled r r' := by
  rw [quote, cons_append, append_assoc] at h
  obtain ⟨t', rfl, h'⟩ := garbled_unit (by decide) h
  obtain ⟨s', r', rfl, hr, -⟩ := garbled_quoteBody h'
  obtain ⟨r'', rfl, hr'⟩ := garbled_unit (by decide) hr
  refine ⟨s', r'', ?_, hr'⟩
  rw [quote, cons_append, append_assoc]
  rfl

private theorem isAscii_text (n : JsNumber) : ∀ u ∈ n.text, IsAscii u := by
  have hdigit : ∀ u : UInt16, isDigit u = true → IsAscii u := by
    intro u hu
    simp only [isDigit, Bool.and_eq_true, decide_eq_true_eq, UInt16.le_iff_toNat_le] at hu
    have : u.toNat ≤ 57 := hu.2
    unfold IsAscii
    omega
  intro u hu
  rcases mem_text n hu with hu | rfl | rfl | rfl | rfl
  · exact hdigit u hu
  all_goals decide

mutual

theorem garbled_stringify : ∀ (v : Json) {r t : JsString}, Garbled (stringify v ++ r) t →
    ∃ w r', t = stringify w ++ r' ∧ Garbled r r' ∧ shape w = shape v
  | .null, r, t, h => by
    obtain ⟨t', rfl, h'⟩ := garbled_literal rfl h
    exact ⟨.null, t', rfl, h', rfl⟩
  | .bool true, r, t, h => by
    obtain ⟨t', rfl, h'⟩ := garbled_literal rfl h
    exact ⟨.bool true, t', rfl, h', rfl⟩
  | .bool false, r, t, h => by
    obtain ⟨t', rfl, h'⟩ := garbled_literal rfl h
    exact ⟨.bool false, t', rfl, h', rfl⟩
  | .num n, r, t, h => by
    obtain ⟨t', rfl, h'⟩ := garbled_ascii (isAscii_text n) h
    exact ⟨.num n, t', rfl, h', rfl⟩
  | .str s, r, t, h => by
    obtain ⟨s', r', rfl, h'⟩ := garbled_quote h
    exact ⟨.str s', r', rfl, h', rfl⟩
  | .arr [], r, t, h => by
    obtain ⟨t', rfl, h'⟩ := garbled_literal rfl h
    exact ⟨.arr [], t', rfl, h', rfl⟩
  | .arr (x :: xs), r, t, h => by
    rw [stringify, List.cons_append, List.append_assoc] at h
    obtain ⟨t₁, rfl, h₁⟩ := garbled_unit (by decide) h
    obtain ⟨y, t₂, rfl, h₂, hy⟩ := garbled_stringify x h₁
    obtain ⟨ys, r', rfl, h₃, hys⟩ := garbled_stringifyItems xs h₂
    refine ⟨.arr (y :: ys), r', ?_, h₃, ?_⟩
    · rw [stringify, List.cons_append, List.append_assoc]
    · rw [shape, shape, shapeItems, shapeItems, hy, hys]
  | .obj [], r, t, h => by
    obtain ⟨t', rfl, h'⟩ := garbled_literal rfl h
    exact ⟨.obj [], t', rfl, h', rfl⟩
  | .obj ((k, v) :: ms), r, t, h => by
    rw [stringify, List.cons_append, List.append_assoc, List.cons_append, List.append_assoc] at h
    obtain ⟨t₁, rfl, h₁⟩ := garbled_unit (by decide) h
    obtain ⟨l, t₂, rfl, h₂⟩ := garbled_quote h₁
    obtain ⟨t₃, rfl, h₃⟩ := garbled_unit (by decide) h₂
    obtain ⟨w, t₄, rfl, h₄, hw⟩ := garbled_stringify v h₃
    obtain ⟨ns, r', rfl, h₅, hns⟩ := garbled_stringifyMembers ms h₄
    refine ⟨.obj ((l, w) :: ns), r', ?_, h₅, ?_⟩
    · rw [stringify, List.cons_append, List.append_assoc, List.cons_append, List.append_assoc]
    · rw [shape, shape, shapeMembers, shapeMembers, hw, hns]

private theorem garbled_stringifyItems : ∀ (xs : List Json) {r t : JsString}, Garbled (stringifyItems xs ++ r) t →
    ∃ ys r', t = stringifyItems ys ++ r' ∧ Garbled r r' ∧ shapeItems ys = shapeItems xs
  | [], r, t, h => by
    obtain ⟨t', rfl, h'⟩ := garbled_literal rfl h
    exact ⟨[], t', rfl, h', rfl⟩
  | x :: xs, r, t, h => by
    rw [stringifyItems, List.cons_append, List.append_assoc] at h
    obtain ⟨t₁, rfl, h₁⟩ := garbled_unit (by decide) h
    obtain ⟨y, t₂, rfl, h₂, hy⟩ := garbled_stringify x h₁
    obtain ⟨ys, r', rfl, h₃, hys⟩ := garbled_stringifyItems xs h₂
    refine ⟨y :: ys, r', ?_, h₃, ?_⟩
    · rw [stringifyItems, List.cons_append, List.append_assoc]
    · rw [shapeItems, shapeItems, hy, hys]

private theorem garbled_stringifyMembers : ∀ (ms : List (JsString × Json)) {r t : JsString},
    Garbled (stringifyMembers ms ++ r) t →
    ∃ ns r', t = stringifyMembers ns ++ r' ∧ Garbled r r' ∧ shapeMembers ns = shapeMembers ms
  | [], r, t, h => by
    obtain ⟨t', rfl, h'⟩ := garbled_literal rfl h
    exact ⟨[], t', rfl, h', rfl⟩
  | (k, v) :: ms, r, t, h => by
    rw [stringifyMembers, List.cons_append, List.append_assoc, List.cons_append, List.append_assoc] at h
    obtain ⟨t₁, rfl, h₁⟩ := garbled_unit (by decide) h
    obtain ⟨l, t₂, rfl, h₂⟩ := garbled_quote h₁
    obtain ⟨t₃, rfl, h₃⟩ := garbled_unit (by decide) h₂
    obtain ⟨w, t₄, rfl, h₄, hw⟩ := garbled_stringify v h₃
    obtain ⟨ns, r', rfl, h₅, hns⟩ := garbled_stringifyMembers ms h₄
    refine ⟨(l, w) :: ns, r', ?_, h₅, ?_⟩
    · rw [stringifyMembers, List.cons_append, List.append_assoc, List.cons_append, List.append_assoc]
    · rw [shapeMembers, shapeMembers, hw, hns]

end

end Json

end Js
