import Wrenyard.Js.Text

/-!
# UTF-8

`Buffer.from(s, 'utf8')` and `buffer.toString('utf8')`.  Encoding replaces a lone surrogate by U+FFFD; decoding is
the byte-at-a-time decoder of the encoding standard, which replaces every maximal ill-formed run by U+FFFD.  A
well-formed string survives the round trip (`decodeUtf8_encodeUtf8`), and the byte `0x0A` occurs in the encoding
only for the code unit `\n` (`lf_not_mem_encodeUtf8`), so that lines may be cut at that byte before decoding.
-/

namespace Js

open List

/-- A leading surrogate. -/
def isHigh (u : UInt16) : Bool := 0xD800 ≤ u.toNat && u.toNat < 0xDC00

/-- A trailing surrogate. -/
def isLow (u : UInt16) : Bool := 0xDC00 ≤ u.toNat && u.toNat < 0xE000

def codePoints : JsString → List Nat
  | [] => []
  | [u] => [if isHigh u || isLow u then 0xFFFD else u.toNat]
  | u :: v :: s =>
    if isHigh u && isLow v then (0x10000 + (u.toNat - 0xD800) * 0x400 + (v.toNat - 0xDC00)) :: codePoints s
    else (if isHigh u || isLow u then 0xFFFD else u.toNat) :: codePoints (v :: s)

/-- `s.isWellFormed()`: every surrogate is part of a pair. -/
def isWellFormed : JsString → Bool
  | [] => true
  | [u] => !(isHigh u || isLow u)
  | u :: v :: s => if isHigh u && isLow v then isWellFormed s else !(isHigh u || isLow u) && isWellFormed (v :: s)

def unitsOfPoint (c : Nat) : JsString :=
  if c < 0x10000 then [UInt16.ofNat c]
  else [UInt16.ofNat (0xD800 + (c - 0x10000) / 0x400), UInt16.ofNat (0xDC00 + (c - 0x10000) % 0x400)]

def utf8Bytes (c : Nat) : List UInt8 :=
  if c < 0x80 then [UInt8.ofNat c]
  else if c < 0x800 then [UInt8.ofNat (0xC0 + c / 0x40), UInt8.ofNat (0x80 + c % 0x40)]
  else if c < 0x10000 then
    [UInt8.ofNat (0xE0 + c / 0x1000), UInt8.ofNat (0x80 + c / 0x40 % 0x40), UInt8.ofNat (0x80 + c % 0x40)]
  else
    [UInt8.ofNat (0xF0 + c / 0x40000), UInt8.ofNat (0x80 + c / 0x1000 % 0x40), UInt8.ofNat (0x80 + c / 0x40 % 0x40),
      UInt8.ofNat (0x80 + c % 0x40)]

/-- `Buffer.from(s, 'utf8')`. -/
def encodeUtf8 (s : JsString) : List UInt8 := (codePoints s).flatMap utf8Bytes

/-- The decoder between two bytes: the continuation bytes still owed, the bits read so far and the range allowed
for the next byte. -/
structure Utf8State where
  needed : Nat
  point : Nat
  lower : Nat
  upper : Nat
deriving DecidableEq, Repr

/-- Between two characters. -/
def Utf8State.idle : Utf8State := ⟨0, 0, 0x80, 0xBF⟩

/-- The first byte of a character: the code points it completes, and the state after it. -/
def utf8Lead (b : Nat) : List Nat × Utf8State :=
  if b < 0x80 then ([b], .idle)
  else if 0xC2 ≤ b && b ≤ 0xDF then ([], ⟨1, b - 0xC0, 0x80, 0xBF⟩)
  else if 0xE0 ≤ b && b ≤ 0xEF then
    ([], ⟨2, b - 0xE0, if b = 0xE0 then 0xA0 else 0x80, if b = 0xED then 0x9F else 0xBF⟩)
  else if 0xF0 ≤ b && b ≤ 0xF4 then
    ([], ⟨3, b - 0xF0, if b = 0xF0 then 0x90 else 0x80, if b = 0xF4 then 0x8F else 0xBF⟩)
  else ([0xFFFD], .idle)

/-- One byte.  A byte outside the allowed range ends the character with U+FFFD and is read again as a first byte. -/
def utf8Step (st : Utf8State) (b : Nat) : List Nat × Utf8State :=
  if st.needed = 0 then utf8Lead b
  else if st.lower ≤ b && b ≤ st.upper then
    if st.needed = 1 then ([st.point * 0x40 + (b - 0x80)], .idle)
    else ([], ⟨st.needed - 1, st.point * 0x40 + (b - 0x80), 0x80, 0xBF⟩)
  else (0xFFFD :: (utf8Lead b).1, (utf8Lead b).2)

/-- The code points of a byte sequence. -/
def utf8Points (st : Utf8State) : List UInt8 → List Nat
  | [] => if st.needed = 0 then [] else [0xFFFD]
  | b :: bs => (utf8Step st b.toNat).1 ++ utf8Points (utf8Step st b.toNat).2 bs

/-- `buffer.toString('utf8')`. -/
def decodeUtf8 (bs : List UInt8) : JsString := (utf8Points .idle bs).flatMap unitsOfPoint

def IsScalar (c : Nat) : Prop := c < 0xD800 ∨ (0xE000 ≤ c ∧ c < 0x110000)

theorem toNat_byte {n : Nat} (h : n < 256) : (UInt8.ofNat n).toNat = n := by
  exact Nat.mod_eq_of_lt h

private theorem utf8Step_last (c : Nat) : utf8Step ⟨1, c / 0x40, 0x80, 0xBF⟩ (0x80 + c % 0x40) = ([c], .idle) := by
  unfold utf8Step
  rw [if_neg (by simp), if_pos (by simp; omega), if_pos rfl]
  simp only [Prod.mk.injEq, List.cons.injEq, and_true]
  omega

/-! The first bytes of a character leave the decoder inside it. -/

variable {c : Nat}

theorem utf8Lead_two (h1 : 0x80 ≤ c) (h2 : c < 0x800) :
    utf8Lead (0xC0 + c / 0x40) = ([], ⟨1, c / 0x40, 0x80, 0xBF⟩) := by
  unfold utf8Lead
  rw [if_neg (by omega), if_pos (by simp; omega)]
  simp

theorem utf8Lead_three (h1 : 0x800 ≤ c) (h2 : c < 0x10000) :
    utf8Lead (0xE0 + c / 0x1000) = ([], ⟨2, c / 0x1000, if c / 0x1000 = 0 then 0xA0 else 0x80,
      if c / 0x1000 = 0xD then 0x9F else 0xBF⟩) := by
  unfold utf8Lead
  rw [if_neg (by omega), if_neg (by simp; omega), if_pos (by simp; omega)]
  simp only [Nat.add_sub_cancel_left, Prod.mk.injEq, Utf8State.mk.injEq, true_and]
  constructor <;> split <;> split <;> omega

theorem utf8Step_three (h1 : 0x800 ≤ c) (h2 : c < 0x10000) (hs : IsScalar c) :
    utf8Step ⟨2, c / 0x1000, if c / 0x1000 = 0 then 0xA0 else 0x80, if c / 0x1000 = 0xD then 0x9F else 0xBF⟩
      (0x80 + c / 0x40 % 0x40) = ([], ⟨1, c / 0x40, 0x80, 0xBF⟩) := by
  unfold utf8Step
  have hb : (if c / 0x1000 = 0 then 0xA0 else 0x80) ≤ 0x80 + c / 0x40 % 0x40 ∧
      0x80 + c / 0x40 % 0x40 ≤ (if c / 0x1000 = 0xD then 0x9F else 0xBF) := by
    unfold IsScalar at hs
    constructor <;> split <;> omega
  rw [if_neg (by simp), if_pos (by simpa using hb), if_neg (by simp)]
  simp only [Prod.mk.injEq, Utf8State.mk.injEq, true_and, and_true]
  omega

theorem utf8Lead_four (h1 : 0x10000 ≤ c) (h2 : c < 0x110000) :
    utf8Lead (0xF0 + c / 0x40000) = ([], ⟨3, c / 0x40000, if c / 0x40000 = 0 then 0x90 else 0x80,
      if c / 0x40000 = 4 then 0x8F else 0xBF⟩) := by
  unfold utf8Lead
  rw [if_neg (by omega), if_neg (by simp; omega), if_neg (by simp; omega), if_pos (by simp; omega)]
  simp only [Nat.add_sub_cancel_left, Prod.mk.injEq, Utf8State.mk.injEq, true_and]
  constructor <;> split <;> split <;> omega

theorem utf8Step_four (h1 : 0x10000 ≤ c) (h2 : c < 0x110000) :
    utf8Step ⟨3, c / 0x40000, if c / 0x40000 = 0 then 0x90 else 0x80, if c / 0x40000 = 4 then 0x8F else 0xBF⟩
      (0x80 + c / 0x1000 % 0x40) = ([], ⟨2, c / 0x1000, 0x80, 0xBF⟩) := by
  unfold utf8Step
  have hb : (if c / 0x40000 = 0 then 0x90 else 0x80) ≤ 0x80 + c / 0x1000 % 0x40 ∧
      0x80 + c / 0x1000 % 0x40 ≤ (if c / 0x40000 = 4 then 0x8F else 0xBF) := by
    constructor <;> split <;> omega
  rw [if_neg (by simp), if_pos (by simpa using hb), if_neg (by simp)]
  simp only [Prod.mk.injEq, Utf8State.mk.injEq, true_and, and_true]
  omega

theorem utf8Step_middle (c : Nat) :
    utf8Step ⟨2, c / 0x1000, 0x80, 0xBF⟩ (0x80 + c / 0x40 % 0x40) = ([], ⟨1, c / 0x40, 0x80, 0xBF⟩) := by
  unfold utf8Step
  rw [if_neg (by simp), if_pos (by simp; omega), if_neg (by simp)]
  simp only [Prod.mk.injEq, Utf8State.mk.injEq, true_and, and_true]
  omega

theorem utf8Step_idle (b : Nat) : utf8Step .idle b = utf8Lead b := rfl

private theorem utf8Points_two (h1 : 0x80 ≤ c) (h2 : c < 0x800) (bs : List UInt8) :
    utf8Points .idle (UInt8.ofNat (0xC0 + c / 0x40) :: UInt8.ofNat (0x80 + c % 0x40) :: bs) =
    c :: utf8Points .idle bs := by
  simp only [utf8Points, toNat_byte (show 0xC0 + c / 0x40 < 256 by omega),
    toNat_byte (show 0x80 + c % 0x40 < 256 by omega), utf8Step_idle, utf8Lead_two h1 h2, utf8Step_last,
    nil_append, cons_append]

private theorem utf8Points_three (h1 : 0x800 ≤ c) (h2 : c < 0x10000) (hs : IsScalar c) (bs : List UInt8) :
    utf8Points .idle (UInt8.ofNat (0xE0 + c / 0x1000) :: UInt8.ofNat (0x80 + c / 0x40 % 0x40) ::
      UInt8.ofNat (0x80 + c % 0x40) :: bs) = c :: utf8Points .idle bs := by
  simp only [utf8Points, toNat_byte (show 0xE0 + c / 0x1000 < 256 by omega),
    toNat_byte (show 0x80 + c / 0x40 % 0x40 < 256 by omega), toNat_byte (show 0x80 + c % 0x40 < 256 by omega),
    utf8Step_idle, utf8Lead_three h1 h2, utf8Step_three h1 h2 hs, utf8Step_last, nil_append, cons_append]

private theorem utf8Points_four (h1 : 0x10000 ≤ c) (h2 : c < 0x110000) (bs : List UInt8) :
    utf8Points .idle (UInt8.ofNat (0xF0 + c / 0x40000) :: UInt8.ofNat (0x80 + c / 0x1000 % 0x40) ::
      UInt8.ofNat (0x80 + c / 0x40 % 0x40) :: UInt8.ofNat (0x80 + c % 0x40) :: bs) = c :: utf8Points .idle bs := by
  simp only [utf8Points, toNat_byte (show 0xF0 + c / 0x40000 < 256 by omega),
    toNat_byte (show 0x80 + c / 0x1000 % 0x40 < 256 by omega),
    toNat_byte (show 0x80 + c / 0x40 % 0x40 < 256 by omega), toNat_byte (show 0x80 + c % 0x40 < 256 by omega),
    utf8Step_idle, utf8Lead_four h1 h2, utf8Step_four h1 h2, utf8Step_middle, utf8Step_last, nil_append,
    cons_append]

theorem utf8Points_utf8Bytes (hs : IsScalar c) (bs : List UInt8) :
    utf8Points .idle (utf8Bytes c ++ bs) = c :: utf8Points .idle bs := by
  unfold utf8Bytes
  split
  · rename_i h
    have e : utf8Step .idle c = ([c], .idle) := by
      show utf8Lead c = _
      rw [utf8Lead, if_pos h]
    simp only [cons_append, nil_append, utf8Points, toNat_byte (show c < 256 by omega), e]
  · split
    · exact utf8Points_two (by omega) (by omega) bs
    · split
      · exact utf8Points_three (by omega) (by omega) hs bs
      · exact utf8Points_four (by omega) (by unfold IsScalar at hs; omega) bs

theorem utf8Points_flatMap {cs : List Nat} (h : ∀ c ∈ cs, IsScalar c) :
    utf8Points .idle (cs.flatMap utf8Bytes) = cs := by
  induction cs with
  | nil => rfl
  | cons c cs ih =>
    rw [flatMap_cons, utf8Points_utf8Bytes (h c (mem_cons_self ..)),
      ih fun d hd => h d (mem_cons_of_mem _ hd)]

/-! ### Strings -/

variable {s : JsString}

theorem isScalar_of_mem_codePoints : ∀ c ∈ codePoints s, IsScalar c := by
  have hone : ∀ u : UInt16, IsScalar (if (isHigh u || isLow u) = true then 0xFFFD else u.toNat) := by
    intro u
    have := u.toNat_lt
    unfold IsScalar
    split
    · omega
    · rename_i h
      simp [isHigh, isLow] at h
      omega
  induction s using codePoints.induct with
  | case1 => simp [codePoints]
  | case2 u => simpa [codePoints] using hone u
  | case3 u v s h ih =>
    intro c hc
    simp only [codePoints, h, ↓reduceIte, mem_cons] at hc
    rcases hc with hc | hc
    · simp [isHigh, isLow] at h
      unfold IsScalar
      omega
    · exact ih c hc
  | case4 u v s h ih =>
    intro c hc
    simp only [codePoints, h, Bool.false_eq_true, ↓reduceIte, mem_cons] at hc
    rcases hc with rfl | hc
    · exact hone u
    · exact ih c hc

theorem unitsOfPoint_unit (u : UInt16) : unitsOfPoint u.toNat = [u] := by
  have := u.toNat_lt
  rw [unitsOfPoint, if_pos (by omega)]
  simp

private theorem unitsOfPoint_pair {u v : UInt16} (hu : isHigh u = true) (hv : isLow v = true) :
    unitsOfPoint (0x10000 + (u.toNat - 0xD800) * 0x400 + (v.toNat - 0xDC00)) = [u, v] := by
  simp [isHigh, isLow] at hu hv
  rw [unitsOfPoint, if_neg (by omega)]
  have e1 : 0xD800 + (0x10000 + (u.toNat - 0xD800) * 0x400 + (v.toNat - 0xDC00) - 0x10000) / 0x400 = u.toNat := by
    omega
  have e2 : 0xDC00 + (0x10000 + (u.toNat - 0xD800) * 0x400 + (v.toNat - 0xDC00) - 0x10000) % 0x400 = v.toNat := by
    omega
  rw [e1, e2]
  simp

theorem flatMap_codePoints (h : isWellFormed s = true) : (codePoints s).flatMap unitsOfPoint = s := by
  induction s using codePoints.induct with
  | case1 => rfl
  | case2 u =>
    simp only [isWellFormed, Bool.not_eq_true'] at h
    simp [codePoints, h, unitsOfPoint_unit]
  | case3 u v s hp ih =>
    simp only [isWellFormed, hp, ↓reduceIte] at h
    rw [Bool.and_eq_true] at hp
    simp only [codePoints, hp.1, hp.2, Bool.and_self, ↓reduceIte, flatMap_cons, unitsOfPoint_pair hp.1 hp.2,
      ih h, cons_append, nil_append]
  | case4 u v s hp ih =>
    simp only [isWellFormed, hp, Bool.false_eq_true, ↓reduceIte, Bool.and_eq_true, Bool.not_eq_true'] at h
    simp only [codePoints, hp, h.1, Bool.false_eq_true, ↓reduceIte, flatMap_cons, unitsOfPoint_unit, ih h.2,
      cons_append, nil_append]

theorem decodeUtf8_encodeUtf8 (h : isWellFormed s = true) : decodeUtf8 (encodeUtf8 s) = s := by
  unfold decodeUtf8 encodeUtf8
  rw [utf8Points_flatMap isScalar_of_mem_codePoints, flatMap_codePoints h]

variable {u : UInt16}

theorem codePoints_append (hu : (isHigh u || isLow u) = false) (s t : JsString) :
    codePoints (s ++ u :: t) = codePoints s ++ codePoints (u :: t) := by
  rw [Bool.or_eq_false_iff] at hu
  induction s using codePoints.induct with
  | case1 => rfl
  | case2 w => cases t <;> simp [codePoints, hu.1, hu.2]
  | case3 w v s h ih =>
    simp only [cons_append, codePoints, h, ↓reduceIte, ih]
  | case4 w v s h ih =>
    rw [cons_append] at ih
    simp only [cons_append, codePoints, h, Bool.false_eq_true, ↓reduceIte, ih]

theorem decodeUtf8_encodeUtf8_eq (s : JsString) :
    decodeUtf8 (encodeUtf8 s) = (codePoints s).flatMap unitsOfPoint := by
  unfold decodeUtf8 encodeUtf8
  rw [utf8Points_flatMap isScalar_of_mem_codePoints]

theorem codePoints_cons (hu : (isHigh u || isLow u) = false) (s : JsString) :
    codePoints (u :: s) = u.toNat :: codePoints s := by
  rw [Bool.or_eq_false_iff] at hu
  cases s with
  | nil | cons => simp [codePoints, hu.1, hu.2]

theorem decodeUtf8_encodeUtf8_append (hu : (isHigh u || isLow u) = false) (s t : JsString) :
    decodeUtf8 (encodeUtf8 (s ++ u :: t)) = decodeUtf8 (encodeUtf8 s) ++ u :: decodeUtf8 (encodeUtf8 t) := by
  simp only [decodeUtf8_encodeUtf8_eq]
  rw [codePoints_append hu, codePoints_cons hu, flatMap_append, flatMap_cons, unitsOfPoint_unit]
  rfl

private theorem unitsOfPoint_ne_nil (c : Nat) : unitsOfPoint c ≠ [] := by
  unfold unitsOfPoint
  split <;> exact cons_ne_nil _ _

private theorem getLast?_pair (u v : UInt16) :
    (unitsOfPoint (0x10000 + (u.toNat - 0xD800) * 0x400 + (v.toNat - 0xDC00))).getLast? ≠ some cr := by
  intro h
  rw [unitsOfPoint, if_neg (by omega), List.getLast?_cons_cons, List.getLast?_singleton, Option.some.injEq,
    ← UInt16.toNat_inj, UInt16.toNat_ofNat'] at h
  have hcr : cr.toNat = 13 := rfl
  omega

theorem getLast?_of_decodeUtf8 (h : (decodeUtf8 (encodeUtf8 s)).getLast? = some cr) : s.getLast? = some cr := by
  rw [decodeUtf8_encodeUtf8_eq] at h
  have hone : ∀ u : UInt16, (unitsOfPoint (if (isHigh u || isLow u) = true then 0xFFFD else u.toNat)).getLast? =
      some cr → u = cr := by
    intro u hu
    by_cases hs : (isHigh u || isLow u) = true
    · rw [if_pos hs] at hu
      cases hu
    · rw [if_neg hs, unitsOfPoint_unit] at hu
      exact Option.some.inj hu
  induction s using codePoints.induct with
  | case1 => cases h
  | case2 u =>
    simp only [codePoints, flatMap_cons, flatMap_nil, append_nil] at h
    rw [hone u h]
    rfl
  | case3 u v s hp ih =>
    simp only [codePoints, hp, ↓reduceIte, flatMap_cons, List.getLast?_append, Option.or_eq_some_iff] at h
    rcases h with h | ⟨-, h⟩
    · rw [List.getLast?_cons, List.getLast?_cons, ih h]
      rfl
    · exact absurd h (getLast?_pair u v)
  | case4 u v s hp ih =>
    simp only [codePoints, hp, Bool.false_eq_true, ↓reduceIte, flatMap_cons, List.getLast?_append,
      Option.or_eq_some_iff] at h
    rcases h with h | ⟨hnil, h⟩
    · rw [List.getLast?_cons, ih h]
      rfl
    have hne : (codePoints (v :: s)).flatMap unitsOfPoint ≠ [] := by
      have hpoints : codePoints (v :: s) ≠ [] := by
        cases s with
        | nil => exact cons_ne_nil _ _
        | cons w s =>
          rw [codePoints]
          split <;> exact cons_ne_nil _ _
      obtain ⟨c, cs, hcs⟩ := exists_cons_of_ne_nil hpoints
      rw [hcs, flatMap_cons]
      exact fun h => unitsOfPoint_ne_nil c (append_eq_nil_iff.1 h).1
    exact absurd (List.getLast?_eq_none_iff.1 hnil) hne

private theorem lf_not_mem_utf8Bytes (hs : IsScalar c) (h : c ≠ 10) : (10 : UInt8) ∉ utf8Bytes c := by
  have hne : ∀ n, n < 256 → n ≠ 10 → (10 : UInt8) ≠ UInt8.ofNat n := by
    intro n hn hne he
    have := congrArg UInt8.toNat he
    rw [toNat_byte hn] at this
    exact hne this.symm
  unfold IsScalar at hs
  unfold utf8Bytes
  split
  · simpa using hne c (by omega) h
  split
  · simp only [mem_cons, not_mem_nil, or_false, not_or]
    exact ⟨hne _ (by omega) (by omega), hne _ (by omega) (by omega)⟩
  split <;> simp only [mem_cons, not_mem_nil, or_false, not_or]
  · exact ⟨hne _ (by omega) (by omega), hne _ (by omega) (by omega), hne _ (by omega) (by omega)⟩
  · exact ⟨hne _ (by omega) (by omega), hne _ (by omega) (by omega), hne _ (by omega) (by omega),
      hne _ (by omega) (by omega)⟩

private theorem lf_not_mem_codePoints (h : lf ∉ s) : 10 ∉ codePoints s := by
  have hone : ∀ u : UInt16, u ≠ lf → 10 ≠ (if (isHigh u || isLow u) = true then 0xFFFD else u.toNat) := by
    intro u hu
    split
    · omega
    · exact fun he => hu (UInt16.toNat_inj.1 he.symm)
  induction s using codePoints.induct with
  | case1 => simp [codePoints]
  | case2 u =>
    simp only [mem_cons, not_mem_nil, or_false] at h
    simpa [codePoints] using hone u (Ne.symm h)
  | case3 u v s hp ih =>
    simp only [mem_cons, not_or] at h
    simp only [codePoints, hp, ↓reduceIte, mem_cons, not_or]
    exact ⟨by omega, ih h.2.2⟩
  | case4 u v s hp ih =>
    rw [mem_cons, not_or] at h
    simp only [codePoints, hp, Bool.false_eq_true, ↓reduceIte, mem_cons, not_or]
    exact ⟨hone u (Ne.symm h.1), ih h.2⟩

theorem lf_not_mem_encodeUtf8 (h : lf ∉ s) : (10 : UInt8) ∉ encodeUtf8 s := by
  unfold encodeUtf8
  rw [mem_flatMap]
  rintro ⟨c, hc, hm⟩
  exact lf_not_mem_utf8Bytes (isScalar_of_mem_codePoints c hc) (fun he => lf_not_mem_codePoints h (he ▸ hc)) hm

end Js
