import Mathlib.Algebra.Group.Nat.Defs
import Mathlib.Data.List.TakeDrop

/-!
# JavaScript strings

A JavaScript string is the list of its UTF-16 code units, so that `length`, `slice` and `split` are those of the
list and a lone surrogate is a value like any other.  Splitting and joining are `List.splitOn` and
`List.intercalate`; the facts added here are about decimal numerals (`natText`), which are how a number enters a
template string and leaves it again through a regular expression.
-/

namespace Js

open List

/-- A JavaScript string: its UTF-16 code units. -/
abbrev JsString := List UInt16

instance : LawfulBEq JsString := inferInstance

/-- The UTF-16 encoding of one character: one code unit, or a surrogate pair. -/
def unitsOf (c : Char) : JsString :=
  if c.toNat < 0x10000 then [UInt16.ofNat c.toNat]
  else [UInt16.ofNat (0xD800 + (c.toNat - 0x10000) / 0x400), UInt16.ofNat (0xDC00 + (c.toNat - 0x10000) % 0x400)]

/-- The JavaScript string of a literal. -/
def js (s : String) : JsString := s.toList.flatMap unitsOf

/-- The line feed `\n`. -/
def lf : UInt16 := 10

/-- The carriage return `\r`. -/
def cr : UInt16 := 13

/-- `line.replace(/\r$/, '')`. -/
def stripCr (line : JsString) : JsString := if line.getLast? = some cr then line.dropLast else line

/-- What `.` of a regular expression does not match. -/
def isLineTerminator (u : UInt16) : Bool := u == 10 || u == 13 || u == 0x2028 || u == 0x2029

/-- `s.startsWith(p)`. -/
def startsWith (s p : JsString) : Bool := p.isPrefixOf s

/-- `s.includes(p)`. -/
def includes (s p : JsString) : Bool := s.tails.any (startsWith · p)

/-- `s.indexOf(u)`, where there is one. -/
def indexOf (s : JsString) (u : UInt16) : Option Nat := s.findIdx? (· = u)

/-- `s.lastIndexOf(u)`, where there is one. -/
def lastIndexOf (s : JsString) (u : UInt16) : Option Nat := (indexOf s.reverse u).map fun i => s.length - 1 - i

/-- `s.split('\n')`. -/
def lines (s : JsString) : List JsString := s.splitOn lf

/-- `ls.join('\n')`. -/
def unlines (ls : List JsString) : JsString := [lf].intercalate ls

/-- The characters `String.prototype.trim` and the class `\s` take for white space. -/
def isSpace (u : UInt16) : Bool :=
  (9 ≤ u && u ≤ 13) || u == 0x20 || u == 0xA0 || u == 0x1680 || (0x2000 ≤ u && u ≤ 0x200A) ||
    u == 0x2028 || u == 0x2029 || u == 0x202F || u == 0x205F || u == 0x3000 || u == 0xFEFF

/-- `s.trim()`. -/
def trim (s : JsString) : JsString := ((s.dropWhile isSpace).reverse.dropWhile isSpace).reverse

/-- The ASCII digits, the class `\d`. -/
def isDigit (u : UInt16) : Bool := 48 ≤ u && u ≤ 57

/-- A natural number in a template string. -/
def natText (n : Nat) : JsString := (Nat.toDigits 10 n).map (fun c => UInt16.ofNat c.toNat)

/-- `Number(ds)` for a run of ASCII digits. -/
def digitsValue (ds : JsString) : Nat := ds.foldl (fun n u => 10 * n + (u.toNat - 48)) 0

theorem unlines_lines (s : JsString) : unlines (lines s) = s := List.intercalate_splitOn lf

theorem lines_unlines {ls : List JsString} (h : ∀ l ∈ ls, lf ∉ l) (hne : ls ≠ []) : lines (unlines ls) = ls :=
  List.splitOn_intercalate lf h hne

theorem lines_inj {s t : JsString} (h : lines s = lines t) : s = t := by
  rw [← unlines_lines s, h, unlines_lines]

/-- A text that is written line by line is read back so. -/
theorem lines_flatMap {α : Type} {f : α → JsString} (hf : ∀ a, lf ∉ f a) (as : List α) :
    lines (as.flatMap fun a => f a ++ [lf]) = as.map f ++ [[]] := by
  induction as with
  | nil => rfl
  | cons a as ih =>
    rw [lines] at ih ⊢
    rw [flatMap_cons, append_assoc, singleton_append, splitOn_append_cons_self_of_not_mem (hf a), ih]
    rfl

theorem lines_ne_nil (s : JsString) : lines s ≠ [] := List.splitOn_ne_nil lf s

theorem lf_not_mem_of_mem_lines {s l : JsString} (h : l ∈ lines s) : lf ∉ l := by
  induction s generalizing l with
  | nil => simp [lines] at h; simp [h]
  | cons u s ih =>
    unfold lines at h ih
    rw [splitOn_cons_eq_if_modifyHead] at h
    split at h
    · simp only [mem_cons] at h
      rcases h with rfl | h
      · simp
      · exact ih h
    rename_i hu
    rcases hs : s.splitOn lf with _ | ⟨a, r⟩
    · exact absurd hs (splitOn_ne_nil lf s)
    rw [hs] at h
    simp only [modifyHead_cons, mem_cons] at h
    rcases h with rfl | h
    · have := ih (l := a) (by rw [hs]; simp)
      simp only [mem_cons, not_or]
      exact ⟨fun he => hu (by rw [he]; simp), this⟩
    · exact ih (by rw [hs]; simp [h])

private theorem toNat_digit {c : Char} (h : c.isDigit) : 48 ≤ c.toNat ∧ c.toNat ≤ 57 := by
  simp only [Char.isDigit, ge_iff_le, Bool.and_eq_true, decide_eq_true_eq] at h
  obtain ⟨h1, h2⟩ := h
  exact ⟨h1, h2⟩

private theorem toNat_ofNat_digit {c : Char} (h : c.isDigit) : (UInt16.ofNat c.toNat).toNat = c.toNat := by
  have := toNat_digit h
  exact Nat.mod_eq_of_lt (by omega)

theorem isDigit_of_mem_natText {n : Nat} {u : UInt16} (h : u ∈ natText n) : isDigit u = true := by
  unfold natText at h
  rw [mem_map] at h
  obtain ⟨c, hc, rfl⟩ := h
  have hd := Nat.isDigit_of_mem_toDigits (by decide) (by decide) hc
  have h1 := toNat_digit hd
  have h2 := toNat_ofNat_digit hd
  simp only [isDigit, Bool.and_eq_true, decide_eq_true_eq, UInt16.le_iff_toNat_le, h2]
  exact ⟨h1.1, h1.2⟩

theorem natText_ne_nil (n : Nat) : natText n ≠ [] := by
  simp [natText, Nat.toDigits_ne_nil]

private theorem foldl_digits (cs : List Char) (hcs : ∀ c ∈ cs, c.isDigit) (n : Nat) :
    (cs.map fun c => UInt16.ofNat c.toNat).foldl (fun n u => 10 * n + (u.toNat - 48)) n =
      Nat.ofDigitChars 10 cs n := by
  induction cs generalizing n with
  | nil => simp
  | cons c cs ih =>
    rw [map_cons, foldl_cons, ih (fun d hd => hcs d (mem_cons_of_mem _ hd)),
      Nat.ofDigitChars_cons, toNat_ofNat_digit (hcs c (mem_cons_self ..))]
    rfl

theorem digitsValue_natText (n : Nat) : digitsValue (natText n) = n := by
  unfold digitsValue natText
  rw [foldl_digits _ fun c hc => Nat.isDigit_of_mem_toDigits (by decide) (by decide) hc]
  exact Nat.ofDigitChars_ten_toDigits

theorem natText_inj {m n : Nat} (h : natText m = natText n) : m = n := by
  rw [← digitsValue_natText m, h, digitsValue_natText]

theorem span_natText_append (n : Nat) (rest : JsString) (h : ∀ u ∈ rest.head?, isDigit u = false) :
    (natText n ++ rest).span isDigit = (natText n, rest) := by
  rw [span_eq_takeWhile_dropWhile]
  have hr : rest.takeWhile isDigit = [] ∧ rest.dropWhile isDigit = rest := by
    cases rest with
    | nil => simp
    | cons u rest => simp [h u rfl]
  rw [takeWhile_append_of_pos (fun u hu => isDigit_of_mem_natText hu),
    dropWhile_append_of_pos (fun u hu => isDigit_of_mem_natText hu), hr.1, hr.2, append_nil]

end Js
