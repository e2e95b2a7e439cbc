import Mathlib.Data.List.TakeWhile
import Wrenyard.Todos.Parsing

/-!
# Lines of a file

A text whose parts are each closed by a line feed is `closed`.  Replacing `\r\n` by `\n` takes one carriage return off
the end of every closed line (`crlfToLf_closed`), and so can be followed line by line.  The second half is about white
space at the ends of a text, and about the weight of a text: the number of its characters that are no white space.
-/

namespace Wrenyard.Todos

open Js List

def closed (parts : List JsString) : JsString := parts.flatMap (· ++ [lf])

@[simp] theorem closed_nil : closed [] = [] := rfl

@[simp] theorem closed_cons (l : JsString) (ls : List JsString) : closed (l :: ls) = l ++ lf :: closed ls := by
  unfold closed
  rw [flatMap_cons, append_assoc]
  rfl

@[simp] theorem closed_append (ls ls' : List JsString) : closed (ls ++ ls') = closed ls ++ closed ls' :=
  List.flatMap_append

theorem unlines_cons_cons (l l' : JsString) (ls : List JsString) :
    unlines (l :: l' :: ls) = l ++ lf :: unlines (l' :: ls) := by
  unfold unlines
  simp

theorem unlines_append_lf {parts : List JsString} (h : parts ≠ []) : unlines parts ++ [lf] = closed parts := by
  induction parts with
  | nil => exact absurd rfl h
  | cons part parts ih =>
    cases parts with
    | nil => simp [unlines]
    | cons part' parts =>
      have hrest := ih (cons_ne_nil _ _)
      rw [unlines_cons_cons, closed_cons, append_assoc, cons_append, hrest]

theorem closed_lines (s : JsString) : closed (lines s) = s ++ [lf] := by
  rw [← unlines_append_lf (lines_ne_nil s), unlines_lines]

theorem closed_flatMap_lines (parts : List JsString) : closed (parts.flatMap lines) = closed parts := by
  induction parts with
  | nil => rfl
  | cons part parts ih =>
    rw [flatMap_cons, closed_append, ih, closed_lines, closed_cons, append_assoc]
    rfl

variable {l : JsString}

theorem lines_of_not_mem (h : lf ∉ l) : lines l = [l] := by
  have hone : lines (unlines [l]) = [l] := by
    refine lines_unlines (fun l' hl' => ?_) (cons_ne_nil _ _)
    rw [mem_singleton.1 hl']
    exact h
  simpa only [unlines, intercalate_singleton] using hone

theorem lines_closed {ls : List JsString} (h : ∀ l ∈ ls, lf ∉ l) : lines (closed ls) = ls ++ [[]] := by
  induction ls with
  | nil => rfl
  | cons l ls ih =>
    have hl := lines_of_not_mem (h l mem_cons_self)
    rw [closed_cons, lines_append, hl, ih fun l' hl' => h l' (mem_cons_of_mem _ hl')]
    rfl

theorem lf_not_mem_stripCr (h : lf ∉ l) : lf ∉ stripCr l := by
  unfold stripCr
  split
  · exact fun hmem => h (dropLast_subset _ hmem)
  · exact h

theorem stripCr_cons_cons (u v : UInt16) (l : JsString) : stripCr (u :: v :: l) = u :: stripCr (v :: l) := by
  unfold stripCr
  rw [List.getLast?_cons_cons]
  split <;> rfl

theorem stripCr_eq (h : l.getLast? ≠ some cr) : stripCr l = l := if_neg h

theorem crlfToLf_line (h : lf ∉ l) (t : JsString) : crlfToLf (l ++ lf :: t) = stripCr l ++ lf :: crlfToLf t := by
  by_cases hlast : l.getLast? = some cr
  · induction l with
    | nil => cases hlast
    | cons u l ih =>
      cases l with
      | nil =>
        have hu : u = cr := Option.some.inj hlast
        subst hu
        show crlfToLf (cr :: lf :: t) = stripCr [cr] ++ lf :: crlfToLf t
        rfl
      | cons v l =>
        have hne : ¬(u = cr ∧ v = lf) := by
          rintro ⟨-, rfl⟩
          exact h (mem_cons_of_mem _ mem_cons_self)
        have hrest := ih (fun hmem => h (mem_cons_of_mem _ hmem)) hlast
        rw [cons_append] at hrest
        rw [stripCr_cons_cons, cons_append, cons_append, crlfToLf, if_neg hne, hrest]
        rfl
  · have hsame : crlfToLf l = l := by
      clear hlast
      induction l using crlfToLf.induct with
      | case1 | case2 => rfl
      | case3 u v s hcrlf _ =>
        have hmem : lf ∈ u :: v :: s := mem_cons_of_mem _ (hcrlf.2 ▸ mem_cons_self)
        exact absurd hmem h
      | case4 u v s hcrlf ih => rw [crlfToLf, if_neg hcrlf, ih fun hmem => h (mem_cons_of_mem _ hmem)]
    rw [crlfToLf_append hlast, stripCr_eq hlast, hsame]

theorem crlfToLf_closed {ls : List JsString} (h : ∀ l ∈ ls, lf ∉ l) :
    crlfToLf (closed ls) = closed (ls.map stripCr) := by
  induction ls with
  | nil => rfl
  | cons l ls ih =>
    rw [closed_cons, crlfToLf_line (h l mem_cons_self), ih fun l' hl' => h l' (mem_cons_of_mem _ hl'),
      map_cons, closed_cons]

variable {s : JsString}

theorem lines_crlfToLf (h : s.getLast? ≠ some cr) : lines (crlfToLf s) = (lines s).map stripCr := by
  have hno : ∀ l ∈ lines s, lf ∉ l := fun _ hl => lf_not_mem_of_mem_lines hl
  have hno' : ∀ l ∈ (lines s).map stripCr, lf ∉ l := by
    intro l hl
    obtain ⟨l', hl', rfl⟩ := mem_map.1 hl
    exact lf_not_mem_stripCr (hno l' hl')
  have hclosed : crlfToLf s ++ [lf] = closed ((lines s).map stripCr) := by
    have happend := @crlfToLf_append s [] h
    rw [← crlfToLf_closed hno, closed_lines, happend]
    rfl
  have hlines := congrArg lines hclosed
  rw [lines_closed hno', lines_append] at hlines
  exact append_cancel_right hlines

/-- No white space at either end. -/
def Trimmed (s : JsString) : Prop :=
  (∀ u ∈ s.head?, isSpace u = false) ∧ ∀ u ∈ s.getLast?, isSpace u = false

theorem dropWhile_space_append {a : JsString} (h : ∀ u ∈ a, isSpace u = true) (s : JsString) :
    (a ++ s).dropWhile isSpace = s.dropWhile isSpace := by
  rw [dropWhile_append_of_pos h]

theorem dropWhile_space_eq (h : ∀ u ∈ s.head?, isSpace u = false) : s.dropWhile isSpace = s := by
  cases s with
  | nil => rfl
  | cons u s =>
    have hu := h u rfl
    rw [dropWhile_cons_of_neg (by rw [hu]; exact Bool.false_ne_true)]

theorem trimEnd_append {c b : JsString} (hc : ∀ u ∈ c.getLast?, isSpace u = false) (hb : ∀ u ∈ b, isSpace u = true) :
    trimEnd (c ++ b) = c := by
  have hb' : ∀ u ∈ b.reverse, isSpace u = true := fun u hu => hb u (mem_reverse.1 hu)
  have hc' : ∀ u ∈ c.reverse.head?, isSpace u = false := by
    rw [List.head?_reverse]
    exact hc
  unfold trimEnd
  rw [reverse_append, dropWhile_space_append hb', dropWhile_space_eq hc', reverse_reverse]

theorem trim_append {a c b : JsString} (ha : ∀ u ∈ a, isSpace u = true) (hb : ∀ u ∈ b, isSpace u = true)
    (hc : Trimmed c) : trim (a ++ (c ++ b)) = c := by
  have htrim : trim (a ++ (c ++ b)) = trimEnd ((a ++ (c ++ b)).dropWhile isSpace) := rfl
  rw [htrim, dropWhile_space_append ha]
  cases c with
  | nil =>
    have hnil : (b.dropWhile isSpace) = [] := dropWhile_eq_nil_iff.2 hb
    rw [nil_append, hnil]
    rfl
  | cons u c =>
    have hu : isSpace u = false := hc.1 u rfl
    rw [cons_append, dropWhile_cons_of_neg (by rw [hu]; exact Bool.false_ne_true), ← cons_append]
    exact trimEnd_append hc.2 hb

theorem trimEnd_spec (s : JsString) : (∃ b, s = trimEnd s ++ b ∧ ∀ u ∈ b, isSpace u = true) ∧
    ∀ u ∈ (trimEnd s).getLast?, isSpace u = false := by
  refine ⟨⟨(s.reverse.takeWhile isSpace).reverse, ?_, fun u hu => ?_⟩, fun u hu => ?_⟩
  · unfold trimEnd
    rw [← reverse_append, takeWhile_append_dropWhile, reverse_reverse]
  · exact mem_takeWhile_imp (mem_reverse.1 hu)
  · unfold trimEnd at hu
    rw [List.getLast?_reverse] at hu
    have hspace := List.head?_dropWhile_not isSpace s.reverse
    rw [Option.mem_def.1 hu] at hspace
    exact hspace

theorem trim_spec (s : JsString) : Trimmed (trim s) ∧
    ∃ a b, trimEnd s = a ++ trim s ∧ s = trimEnd s ++ b ∧ (∀ u ∈ a, isSpace u = true) ∧
    ∀ u ∈ b, isSpace u = true := by
  obtain ⟨⟨b, hs, hb⟩, hlast⟩ := trimEnd_spec s
  have hsplit : trimEnd s = (trimEnd s).takeWhile isSpace ++ (trimEnd s).dropWhile isSpace :=
    takeWhile_append_dropWhile.symm
  have ha : ∀ u ∈ (trimEnd s).takeWhile isSpace, isSpace u = true := fun u hu => mem_takeWhile_imp hu
  have htrimmed : Trimmed ((trimEnd s).dropWhile isSpace) := by
    refine ⟨fun u hu => ?_, fun u hu => ?_⟩
    · have hspace := List.head?_dropWhile_not isSpace (trimEnd s)
      rw [Option.mem_def.1 hu] at hspace
      exact hspace
    · refine hlast u ?_
      rw [hsplit, List.getLast?_append, Option.mem_def.1 hu]
      rfl
  have htrim : trim s = (trimEnd s).dropWhile isSpace := by
    conv_lhs => rw [hs, hsplit, append_assoc]
    exact trim_append ha hb htrimmed
  rw [htrim]
  exact ⟨htrimmed, _, b, hsplit, hs, ha, hb⟩

theorem trim_of_trimmed (h : Trimmed s) : trim s = s := by
  have htrim := trim_append (fun u hu => by cases hu) (fun u hu => by cases hu) h (a := []) (b := [])
  simpa using htrim

theorem trimmed_of_trim (h : trim s = s) : Trimmed s := h ▸ (trim_spec s).1

/-- The number of characters that are no white space. -/
def weight (s : JsString) : Nat := s.countP fun u => !isSpace u

@[simp] theorem weight_append (s t : JsString) : weight (s ++ t) = weight s + weight t := List.countP_append

theorem weight_space (h : ∀ u ∈ s, isSpace u = true) : weight s = 0 := by
  unfold weight
  rw [countP_eq_zero]
  intro u hu
  rw [h u hu]
  exact Bool.false_ne_true

theorem weight_trimEnd (s : JsString) : weight (trimEnd s) = weight s := by
  obtain ⟨⟨b, hs, hb⟩, -⟩ := trimEnd_spec s
  conv_rhs => rw [hs, weight_append, weight_space hb]
  rfl

theorem weight_trim (s : JsString) : weight (trim s) = weight s := by
  obtain ⟨-, a, b, htrim, -, ha, -⟩ := trim_spec s
  rw [← weight_trimEnd s, htrim, weight_append, weight_space ha, Nat.zero_add]

def weights (ls : List JsString) : Nat := ls.foldr (fun l n => weight l + n) 0

@[simp] theorem weights_nil : weights [] = 0 := rfl

@[simp] theorem weights_cons (l : JsString) (ls : List JsString) : weights (l :: ls) = weight l + weights ls := rfl

@[simp] theorem weights_append (ls ls' : List JsString) : weights (ls ++ ls') = weights ls + weights ls' := by
  induction ls with
  | nil => simp
  | cons l ls ih =>
    rw [cons_append, weights_cons, weights_cons, ih]
    omega

variable (ls : List JsString)

theorem weight_closed : weight (closed ls) = weights ls := by
  induction ls with
  | nil => rfl
  | cons l ls ih =>
    have hlf : weight (lf :: closed ls) = weight (closed ls) := countP_cons_of_neg (by decide)
    rw [closed_cons, weight_append, hlf, ih, weights_cons]

theorem weight_unlines : weight (unlines ls) = weights ls := by
  by_cases h : ls = []
  · subst h
    rfl
  have hclosed := weight_closed ls
  have hlf : weight [lf] = 0 := by decide
  rw [← unlines_append_lf h, weight_append, hlf] at hclosed
  exact hclosed

theorem weight_stripCr (l : JsString) : weight (stripCr l) = weight l := by
  unfold stripCr
  split
  · rename_i hlast
    have hl : l = l.dropLast ++ [cr] := by
      have hne : l ≠ [] := by
        rintro rfl
        cases hlast
      have hget := dropLast_append_getLast hne
      rw [List.getLast?_eq_some_getLast hne] at hlast
      rw [Option.some.inj hlast] at hget
      exact hget.symm
    have hcr : weight [cr] = 0 := by decide
    conv_rhs => rw [hl, weight_append, hcr]
    rfl
  · rfl

theorem weights_stripCr : weights (ls.map stripCr) = weights ls := by
  induction ls with
  | nil => rfl
  | cons l ls ih => rw [map_cons, weights_cons, weights_cons, ih, weight_stripCr]

theorem weights_lines (s : JsString) : weights (lines s) = weight s := by
  rw [← weight_unlines, unlines_lines]

end Wrenyard.Todos
