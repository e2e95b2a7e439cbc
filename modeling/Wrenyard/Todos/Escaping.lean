import Mathlib.Data.List.Infix
import Wrenyard.Todos.Lines

/-!
# The escape of a comment's text

`escapeCommentText` puts a backslash before what looks like a comment heading, and `unescapeLine` takes it off again.
The two do not work on the same lines and do not accept the same texts: a line for the first ends at any of the four
terminators of a `m` expression, and there may be nothing between its separators.  `line_survives` says which lines of
a text come back.
-/

namespace Wrenyard.Todos

open Js List

variable {l : JsString} {t : UInt16}

theorem escapeLines_append (ht : isTerminator t = true) (a b : JsString) :
    escapeLines (a ++ t :: b) = ((escapeLines a).1, (escapeLines a).2 ++ t :: escapeCommentText b) := by
  induction a with
  | nil =>
    show escapeLines (t :: b) = ([], t :: escapeCommentText b)
    rw [escapeLines, if_pos ht]
    rfl
  | cons u a ih =>
    rw [cons_append, escapeLines, escapeLines, ih]
    by_cases hu : isTerminator u = true
    · rw [if_pos hu, if_pos hu]
      simp
    · rw [if_neg hu, if_neg hu]

theorem escapeCommentText_append (ht : isTerminator t = true) (a b : JsString) :
    escapeCommentText (a ++ t :: b) = escapeCommentText a ++ t :: escapeCommentText b := by
  have hsplit : ∀ s, escapeCommentText s = escapeLine (escapeLines s).1 ++ (escapeLines s).2 := fun _ => rfl
  rw [hsplit (a ++ t :: b), escapeLines_append ht, hsplit a, append_assoc]

theorem escapeCommentText_plain (h : l.any isTerminator = false) : escapeCommentText l = escapeLine l := by
  have hlines : escapeLines l = (l, []) := by
    induction l with
    | nil => rfl
    | cons u l ih =>
      rw [any_cons, Bool.or_eq_false_iff] at h
      rw [escapeLines, if_neg (by rw [h.1]; exact Bool.false_ne_true), ih h.2]
  show escapeLine (escapeLines l).1 ++ (escapeLines l).2 = _
  rw [hlines, append_nil]

theorem exists_segment (h : l.any isTerminator = true) :
    ∃ seg t rest, l = seg ++ t :: rest ∧ seg.any isTerminator = false ∧ isTerminator t = true := by
  induction l with
  | nil => cases h
  | cons u l ih =>
    by_cases hu : isTerminator u = true
    · exact ⟨[], u, l, rfl, rfl, hu⟩
    have hrest : l.any isTerminator = true := by
      rw [any_cons, Bool.or_eq_true] at h
      exact h.resolve_left hu
    obtain ⟨seg, t, rest, heq, hseg, ht⟩ := ih hrest
    refine ⟨u :: seg, t, rest, ?_, ?_, ht⟩
    · rw [heq, cons_append]
    · rw [any_cons, hseg, Bool.or_false]
      exact Bool.eq_false_iff.2 hu

theorem segment_induction {motive : JsString → Prop} (plain : ∀ l, l.any isTerminator = false → motive l)
    (step : ∀ seg t rest, seg.any isTerminator = false → isTerminator t = true → motive rest →
      motive (seg ++ t :: rest)) (l : JsString) : motive l := by
  induction hn : l.length using Nat.strong_induction_on generalizing l with
  | _ n ih =>
    by_cases hany : l.any isTerminator = true
    · obtain ⟨seg, t, rest, rfl, hseg, ht⟩ := exists_segment hany
      have hlt : rest.length < n := by
        rw [← hn, length_append, length_cons]
        omega
      exact step seg t rest hseg ht (ih rest.length hlt rest rfl)
    · exact plain l (Bool.eq_false_iff.2 hany)

def segments (l : JsString) : List JsString := l.splitOnP isTerminator

theorem segments_plain (h : l.any isTerminator = false) : segments l = [l] := by
  refine splitOnP_eq_singleton fun u hu => ?_
  exact Bool.eq_false_iff.2 (any_eq_false.1 h u hu)

variable {rest : JsString}

theorem segments_append {seg : JsString} (h : seg.any isTerminator = false)
    (ht : isTerminator t = true) : segments (seg ++ t :: rest) = seg :: segments rest := by
  have hseg := segments_plain h
  unfold segments at hseg ⊢
  rw [splitOnP_append_cons _ _ ht, hseg]
  rfl

theorem length_escapeLine (l : JsString) : l.length ≤ (escapeLine l).length := by
  unfold escapeLine
  split
  · exact Nat.le_succ _
  · exact le_refl _

theorem length_escapeCommentText (l : JsString) : l.length ≤ (escapeCommentText l).length := by
  induction l using segment_induction with
  | plain l h =>
    rw [escapeCommentText_plain h]
    exact length_escapeLine l
  | step seg t rest hseg ht ih =>
    have hfirst := length_escapeLine seg
    rw [escapeCommentText_append ht, escapeCommentText_plain hseg]
    simp only [length_append, length_cons]
    omega

theorem escapeLine_eq_iff : escapeLine l = l ↔ headingLike l = false := by
  unfold escapeLine
  cases headingLike l with
  | false => exact ⟨fun _ => rfl, fun _ => rfl⟩
  | true =>
    refine ⟨fun h => ?_, fun h => Bool.noConfusion h⟩
    have hlength := congrArg List.length h
    simp at hlength

theorem escapeCommentText_eq_iff (l : JsString) :
    escapeCommentText l = l ↔ ∀ seg ∈ segments l, headingLike seg = false := by
  induction l using segment_induction with
  | plain l h =>
    rw [escapeCommentText_plain h, segments_plain h, escapeLine_eq_iff]
    simp
  | step seg t rest hseg ht ih =>
    rw [escapeCommentText_append ht, escapeCommentText_plain hseg, segments_append hseg ht]
    simp only [forall_mem_cons]
    rw [← ih, ← escapeLine_eq_iff]
    constructor
    · intro h
      have hfirst := length_escapeLine seg
      have hrest := length_escapeCommentText rest
      have hlength := congrArg List.length h
      simp only [length_append, length_cons] at hlength
      have hsame : (escapeLine seg).length = seg.length := by omega
      obtain ⟨heq, htail⟩ := append_inj h hsame
      exact ⟨heq, (List.cons.inj htail).2⟩
    · rintro ⟨heq, hrest⟩
      rw [heq, hrest]

variable {u : UInt16}

theorem mem_escapeLine (hu : u ≠ 92) : u ∈ escapeLine l ↔ u ∈ l := by
  unfold escapeLine
  split
  · simp [hu]
  · exact Iff.rfl

theorem mem_escapeCommentText (hu : u ≠ 92) (l : JsString) : u ∈ escapeCommentText l ↔ u ∈ l := by
  induction l using segment_induction with
  | plain l h => rw [escapeCommentText_plain h, mem_escapeLine hu]
  | step seg t rest hseg ht ih =>
    rw [escapeCommentText_append ht, escapeCommentText_plain hseg]
    simp only [mem_append, mem_cons, mem_escapeLine hu, ih]

theorem any_escapeCommentText (l : JsString) : (escapeCommentText l).any isTerminator = l.any isTerminator := by
  have hne : ∀ u, isTerminator u = true → u ≠ 92 := by
    rintro u hu rfl
    exact absurd hu (by decide)
  rw [Bool.eq_iff_iff, any_eq_true, any_eq_true]
  constructor
  · rintro ⟨u, hmem, hu⟩
    exact ⟨u, (mem_escapeCommentText (hne u hu) l).1 hmem, hu⟩
  · rintro ⟨u, hmem, hu⟩
    exact ⟨u, (mem_escapeCommentText (hne u hu) l).2 hmem, hu⟩

theorem count_escapeCommentText (l : JsString) : (escapeCommentText l).count cr = l.count cr := by
  have hline : ∀ l, (escapeLine l).count cr = l.count cr := by
    intro l
    unfold escapeLine
    split
    · exact count_cons_of_ne (by decide)
    · rfl
  induction l using segment_induction with
  | plain l h => rw [escapeCommentText_plain h, hline]
  | step seg t rest hseg ht ih =>
    rw [escapeCommentText_append ht, escapeCommentText_plain hseg]
    simp only [count_append, count_cons, hline, ih]

theorem getLast?_escapeCommentText (l : JsString) :
    (escapeCommentText l).getLast? = some cr ↔ l.getLast? = some cr := by
  induction l using segment_induction with
  | plain l h =>
    rw [escapeCommentText_plain h]
    have hcr : cr ∉ l := fun hmem => absurd (any_eq_false.1 h cr hmem) (by decide)
    have hcr' : cr ∉ escapeLine l := fun hmem => hcr ((mem_escapeLine (by decide)).1 hmem)
    exact ⟨fun hlast => absurd (mem_of_getLast? hlast) hcr', fun hlast => absurd (mem_of_getLast? hlast) hcr⟩
  | step seg t rest hseg ht ih =>
    rw [escapeCommentText_append ht]
    cases rest with
    | nil =>
      have hnil : escapeCommentText [] = [] := rfl
      rw [hnil, List.getLast?_append, List.getLast?_append]
      rfl
    | cons u rest =>
      have hlength := length_escapeCommentText (u :: rest)
      cases hescape : escapeCommentText (u :: rest) with
      | nil =>
        rw [hescape] at hlength
        cases hlength
      | cons v rest' =>
        rw [hescape] at ih
        rw [List.getLast?_append_cons, List.getLast?_append_cons, List.getLast?_cons_cons, List.getLast?_cons_cons]
        exact ih

/-! ### Headings -/

theorem dropMatch_replicate {n : Nat} {test : UInt16 → Bool} {tests : List (UInt16 → Bool)} {s : JsString} :
    dropMatch (List.replicate n test ++ tests) s = some rest ↔ ∃ pre s', s = pre ++ s' ∧ pre.length = n ∧
    (∀ u ∈ pre, test u = true) ∧ dropMatch tests s' = some rest := by
  induction n generalizing s with
  | zero =>
    constructor
    · intro h
      exact ⟨[], s, rfl, rfl, forall_mem_nil _, h⟩
    · rintro ⟨pre, s', rfl, hlength, -, h⟩
      rw [length_eq_zero_iff.1 hlength]
      exact h
  | succ n ih =>
    rw [replicate_succ, cons_append]
    constructor
    · intro h
      cases s with
      | nil => cases h
      | cons u s =>
        unfold dropMatch at h
        by_cases hu : test u = true
        · rw [if_pos hu] at h
          obtain ⟨pre, s', rfl, hlength, hpre, h⟩ := ih.1 h
          refine ⟨u :: pre, s', rfl, congrArg Nat.succ hlength, fun v hv => ?_, h⟩
          rcases mem_cons.1 hv with rfl | hv
          · exact hu
          · exact hpre v hv
        · rw [if_neg hu] at h
          cases h
    · rintro ⟨pre, s', rfl, hlength, hpre, h⟩
      cases pre with
      | nil => cases hlength
      | cons u pre =>
        rw [cons_append, dropMatch, if_pos (hpre u mem_cons_self)]
        exact ih.2 ⟨pre, s', rfl, Nat.succ.inj hlength, fun v hv => hpre v (mem_cons_of_mem _ hv), h⟩

theorem dropMatch_units {us s rest : JsString} :
    dropMatch (us.map fun v u => u == v) s = some rest ↔ s = us ++ rest := by
  induction us generalizing s with
  | nil => exact Option.some_inj
  | cons v us ih =>
    cases s with
    | nil => exact ⟨(fun h => by cases h), fun h => by cases h⟩
    | cons u s =>
      rw [map_cons, dropMatch, cons_append, List.cons.injEq, ← ih]
      by_cases hu : u = v
      · simp [hu]
      · simp [hu]

theorem not_isTerminator {test : UInt16 → Bool} (h10 : test 10 = false) (h13 : test 13 = false)
    (h2028 : test 0x2028 = false) (h2029 : test 0x2029 = false) (hu : test u = true) :
    isTerminator u = false := by
  rw [Bool.eq_false_iff]
  intro hterm
  unfold isTerminator at hterm
  simp only [Bool.or_eq_true, beq_iff_eq] at hterm
  rcases hterm with ((rfl | rfl) | rfl) | rfl <;> simp_all

theorem afterMark_some (h : afterMark l = some rest) :
    ∃ id, l = js "### " ++ (id ++ (dotSeparator ++ rest)) ∧ id.length = 6 ∧ ∀ u ∈ id, isHex u = true := by
  unfold afterMark at h
  split at h
  · rename_i hstart
    obtain ⟨s, rfl⟩ := isPrefixOf_iff_prefix.1 hstart
    obtain ⟨id, s', rfl, hlength, hunits, hdot⟩ := dropMatch_replicate.1 h
    have hrest : s' = dotSeparator ++ rest := dropMatch_units.1 hdot
    exact ⟨id, by rw [hrest], hlength, hunits⟩
  · cases h

theorem afterMark_mark {id : JsString} (hlength : id.length = 6) (hunits : ∀ u ∈ id, isHex u = true)
    (rest : JsString) : afterMark (js "### " ++ (id ++ (dotSeparator ++ rest))) = some rest := by
  have hdot : dropMatch (dotSeparator.map fun v u => u == v) (dotSeparator ++ rest) = some rest :=
    dropMatch_units.2 rfl
  exact dropMatch_replicate.2 ⟨id, _, rfl, hlength, hunits, hdot⟩

theorem afterMark_plain (h : afterMark l = some rest) :
    l.any isTerminator = rest.any isTerminator ∧ l.head? = some 35 := by
  obtain ⟨id, rfl, -, hunits⟩ := afterMark_some h
  have hhash : (js "### ").any isTerminator = false := by decide
  have hdot : dotSeparator.any isTerminator = false := by decide
  have hid : id.any isTerminator = false := by
    rw [any_eq_false]
    intro u hu
    rw [not_isTerminator (by decide) (by decide) (by decide) (by decide) (hunits u hu)]
    exact Bool.false_ne_true
  refine ⟨?_, ?_⟩
  · simp only [any_append, hhash, hdot, hid, Bool.false_or]
  · rfl

theorem dropWhile_backslash {s : JsString} (h : l.head? = some 35) (hs : ∀ u ∈ s, u = 92) :
    (s ++ l).dropWhile (· == 92) = l := by
  rw [dropWhile_append_of_pos (by simpa using hs)]
  cases l with
  | nil => cases h
  | cons u l =>
    cases h
    rfl

theorem any_dropWhile_backslash (l : JsString) : (l.dropWhile (· == 92)).any isTerminator = l.any isTerminator := by
  induction l with
  | nil => rfl
  | cons u l ih =>
    by_cases hu : u = 92
    · subst hu
      have hterm : isTerminator 92 = false := by decide
      rw [dropWhile_cons_of_pos (by decide), ih, any_cons, hterm, Bool.false_or]
    · rw [dropWhile_cons_of_neg (by simpa using hu)]

theorem hasSeparator_iff : hasSeparator rest = true ↔ ∃ a b, rest = a ++ (dotSeparator ++ b) ∧ b ≠ [] := by
  have hlength : dotSeparator.length = 3 := by decide
  unfold hasSeparator
  simp only [any_eq_true, mem_tails, Bool.and_eq_true, decide_eq_true_eq]
  constructor
  · rintro ⟨t, ⟨a, rfl⟩, hstart, hmore⟩
    obtain ⟨b, rfl⟩ := isPrefixOf_iff_prefix.1 hstart
    refine ⟨a, b, rfl, ?_⟩
    rintro rfl
    rw [append_nil, hlength] at hmore
    omega
  · rintro ⟨a, b, rfl, hb⟩
    refine ⟨dotSeparator ++ b, suffix_append _ _, isPrefixOf_iff_prefix.2 (prefix_append _ _), ?_⟩
    have hpos := length_pos_of_ne_nil hb
    rw [length_append, hlength]
    omega

theorem hasSeparator_of_tail (h : hasSeparator rest.tail = true) : hasSeparator rest = true := by
  obtain ⟨a, b, heq, hb⟩ := hasSeparator_iff.1 h
  cases rest with
  | nil =>
    exact h
  | cons u rest =>
    rw [tail_cons] at heq
    exact hasSeparator_iff.2 ⟨u :: a, b, by rw [heq, cons_append], hb⟩

/-- A line that looks like a comment heading has something between its separators. -/
def hasAuthor (l : JsString) : Bool := (afterMark (l.dropWhile (· == 92))).any fun rest => hasSeparator rest.tail

theorem any_of_escapedHeading (h : escapedHeading l = true) : l.any isTerminator = false := by
  unfold escapedHeading at h
  rw [Bool.and_eq_true, Option.any_eq_true] at h
  obtain ⟨-, rest, hrest, hplain⟩ := h
  have hmark := (afterMark_plain hrest).1
  rw [Bool.and_eq_true, Bool.not_eq_true'] at hplain
  rw [← any_dropWhile_backslash, hmark, hplain.1]

theorem headingLike_of_escapedHeading (h : escapedHeading l = true) : headingLike l = true := by
  unfold escapedHeading at h
  rw [Bool.and_eq_true, Option.any_eq_true] at h
  obtain ⟨-, rest, hrest, hplain⟩ := h
  rw [Bool.and_eq_true] at hplain
  unfold headingLike
  rw [hrest, Option.any_some, Bool.and_eq_true]
  exact ⟨hplain.1, hasSeparator_of_tail hplain.2⟩

theorem escapedHeading_cons (h : headingLike l = true) : escapedHeading (92 :: l) = hasAuthor l := by
  have hstart : startsWith (92 :: l) [92] = true := rfl
  have hdrop : (92 :: l).dropWhile (· == 92) = l.dropWhile (· == 92) := dropWhile_cons_of_pos (by decide)
  unfold headingLike at h
  rw [Option.any_eq_true] at h
  obtain ⟨rest, hrest, hplain⟩ := h
  rw [Bool.and_eq_true] at hplain
  unfold escapedHeading hasAuthor
  rw [hstart, hdrop, hrest, Option.any_some, Option.any_some, hplain.1]
  rfl

/-! ### Comment headings -/

theorem commentHeading_some {heading : JsString × JsString × JsString} (h : commentHeading l = some heading) :
    ∃ rest, afterMark l = some rest ∧ rest = heading.2.1 ++ (dotSeparator ++ heading.2.2) ∧ heading.1 =
    (l.drop 4).take 6 ∧ heading.2.1 ≠ [] ∧ 0xB7 ∉ heading.2.1 ∧ cr ∉ heading.2.1 ∧ lf ∉ heading.2.1 ∧
    heading.2.2 ≠ [] ∧ heading.2.2.any isTerminator = false := by
  unfold commentHeading at h
  by_cases hstart : startsWith l (js "### ") = true
  · rw [if_pos hstart] at h
    split at h
    · cases h
    rename_i rest hrest
    by_cases hauthor : (rest.takeWhile (· ≠ 0xB7)).length < 2 ∨ (rest.takeWhile (· ≠ 0xB7)).getLast? ≠ some 32 ∨
        (rest.takeWhile (· ≠ 0xB7)).any (fun u => u == cr || u == lf) = true
    · rw [if_pos hauthor] at h
      cases h
    rw [if_neg hauthor] at h
    simp only [not_or, Decidable.not_not] at hauthor
    obtain ⟨hlength, hlast, hplain⟩ := hauthor
    split at h
    · cases h
    rename_i time htime
    by_cases hbad : time = [] ∨ time.any isTerminator = true
    · rw [if_pos hbad] at h
      cases h
    rw [if_neg hbad] at h
    cases h
    have hsplit : rest.takeWhile (· ≠ 0xB7) = (rest.takeWhile (· ≠ 0xB7)).dropLast ++ [32] :=
      (dropLast_append_getLast? 32 hlast).symm
    have hdrop : rest.dropWhile (· ≠ 0xB7) = [0xB7, 32] ++ time :=
      (@dropMatch_units [0xB7, 32] _ _).1 htime
    have hsub : ∀ u ∈ (rest.takeWhile (· ≠ 0xB7)).dropLast, u ∈ rest.takeWhile (· ≠ 0xB7) :=
      fun u hu => dropLast_subset _ hu
    refine ⟨rest, ?_, ?_, rfl, ?_, ?_, ?_, ?_, fun hnil => hbad (.inl hnil), ?_⟩
    · unfold afterMark
      rw [if_pos hstart, hrest]
    · have hdot : dotSeparator = [32, 0xB7, 32] := by decide
      calc rest = rest.takeWhile (· ≠ 0xB7) ++ rest.dropWhile (· ≠ 0xB7) :=
            takeWhile_append_dropWhile.symm
        _ = ((rest.takeWhile (· ≠ 0xB7)).dropLast ++ [32]) ++ ([0xB7, 32] ++ time) := by rw [← hsplit, hdrop]
        _ = (rest.takeWhile (· ≠ 0xB7)).dropLast ++ (dotSeparator ++ time) := by
            rw [hdot, append_assoc]
            rfl
    · intro hnil
      have hempty : (rest.takeWhile (· ≠ 0xB7)).dropLast = [] := hnil
      rw [hsplit, hempty] at hlength
      exact hlength (by decide)
    · intro hmem
      have hne := mem_takeWhile_imp (hsub _ hmem)
      exact absurd hne (by decide)
    · intro hmem
      exact hplain (any_eq_true.2 ⟨cr, hsub _ hmem, by decide⟩)
    · intro hmem
      exact hplain (any_eq_true.2 ⟨lf, hsub _ hmem, by decide⟩)
    · exact Bool.eq_false_iff.2 fun hterm => hbad (.inr hterm)
  · rw [if_neg hstart] at h
    cases h

theorem commentHeading_written {comment : TodoComment} (hlength : comment.id.length = 6)
    (hunits : ∀ u ∈ comment.id, isHex u = true) (hauthor : comment.author ≠ []) (hdot : 0xB7 ∉ comment.author)
    (hcr : cr ∉ comment.author) (hlf : lf ∉ comment.author) (htime : comment.at_ ≠ [])
    (hplain : comment.at_.any isTerminator = false) :
    commentHeading (commentLine comment) = some (comment.id, comment.author, comment.at_) := by
  have hline : commentLine comment =
      js "### " ++ (comment.id ++ (dotSeparator ++ (comment.author ++ (dotSeparator ++ comment.at_)))) := by
    unfold commentLine
    simp only [append_assoc]
  have hstart : startsWith (commentLine comment) (js "### ") = true := by
    exact isPrefixOf_iff_prefix.2 (prefix_append _ _)
  have hmark := afterMark_mark hlength hunits (comment.author ++ (dotSeparator ++ comment.at_))
  rw [← hline] at hmark
  unfold afterMark at hmark
  rw [if_pos hstart] at hmark
  have hsep : dotSeparator = [32] ++ [0xB7, 32] := by decide
  have hrest : comment.author ++ (dotSeparator ++ comment.at_) =
      (comment.author ++ [32]) ++ (0xB7 :: 32 :: comment.at_) := by
    rw [hsep]
    simp
  have hall : ∀ u ∈ comment.author ++ [32], decide (u ≠ 0xB7) = true := by
    intro u hu
    rw [decide_eq_true_eq]
    rintro rfl
    rcases mem_append.1 hu with hu | hu
    · exact hdot hu
    · exact absurd hu (by decide)
  have htake : (comment.author ++ (dotSeparator ++ comment.at_)).takeWhile (· ≠ 0xB7) = comment.author ++ [32] := by
    rw [hrest, takeWhile_append_of_pos hall]
    simp
  have hdrop : (comment.author ++ (dotSeparator ++ comment.at_)).dropWhile (· ≠ 0xB7) =
      0xB7 :: 32 :: comment.at_ := by
    rw [hrest, dropWhile_append_of_pos hall]
    simp
  have hbad : ¬((comment.author ++ [32]).length < 2 ∨ (comment.author ++ [32]).getLast? ≠ some 32 ∨
      (comment.author ++ [32]).any (fun u => u == cr || u == lf) = true) := by
    have hpos := length_pos_of_ne_nil hauthor
    rintro (hshort | hlast | hany)
    · rw [length_append, length_singleton] at hshort
      omega
    · exact hlast List.getLast?_concat
    · obtain ⟨u, hu, heq⟩ := any_eq_true.1 hany
      rw [Bool.or_eq_true, beq_iff_eq, beq_iff_eq] at heq
      rcases mem_append.1 hu with hu | hu
      · rcases heq with rfl | rfl
        · exact hcr hu
        · exact hlf hu
      · rw [mem_singleton.1 hu] at heq
        exact absurd heq (by decide)
  have hend : dropMatch [(· == 0xB7), (· == 32)] (0xB7 :: 32 :: comment.at_) = some comment.at_ := rfl
  have hok : ¬(comment.at_ = [] ∨ comment.at_.any isTerminator = true) := by
    rintro (hnil | hterm)
    · exact htime hnil
    · rw [hplain] at hterm
      cases hterm
  have hid : ((commentLine comment).drop 4).take 6 = comment.id := by
    have hfour : (commentLine comment).drop 4 =
        comment.id ++ (dotSeparator ++ (comment.author ++ (dotSeparator ++ comment.at_))) := by
      rw [hline]
      exact drop_left' (by decide)
    rw [hfour, ← hlength, take_left]
  unfold commentHeading
  rw [if_pos hstart, hmark]
  simp only [htake, hdrop]
  rw [if_neg hbad, hend]
  simp only
  rw [if_neg hok, hid, dropLast_concat]

theorem headingLike_of_commentHeading {heading : JsString × JsString × JsString} (h : commentHeading l = some heading)
    (hplain : l.any isTerminator = false) : headingLike l = true := by
  obtain ⟨rest, hmark, hrest, -, -, -, -, -, htime, -⟩ := commentHeading_some h
  obtain ⟨hany, hhead⟩ := afterMark_plain hmark
  have hsame : l.dropWhile (· == 92) = l := dropWhile_backslash (s := []) hhead (forall_mem_nil _)
  unfold headingLike
  rw [hsame, hmark, Option.any_some, Bool.and_eq_true, Bool.not_eq_true']
  exact ⟨hany.symm.trans hplain, hasSeparator_iff.2 ⟨heading.2.1, heading.2.2, hrest, htime⟩⟩

def commentStart (p : Platform) (l : JsString) : Option (JsString × JsString × JsString) :=
  (commentHeading l).filter fun heading => isValidCommentTime p heading.2.2

theorem commentStart_of_heading {p : Platform} (h : commentHeading l = none) : commentStart p l = none := by
  unfold commentStart
  rw [h]
  rfl

theorem commentHeading_backslash (l : JsString) : commentHeading (92 :: l) = none := by
  cases h : commentHeading (92 :: l) with
  | none => rfl
  | some heading =>
    obtain ⟨rest, hmark, -⟩ := commentHeading_some h
    have hhead := (afterMark_plain hmark).2
    cases hhead

/-- A line of a comment's text that comes back: behind a terminator inside the line nothing is escaped or taken for a
heading, and what looks like a heading on a single line has something between its separators. -/
def LineSurvives (p : Platform) (l : JsString) : Prop :=
  if l.any isTerminator = true then (∀ seg ∈ segments l, headingLike seg = false) ∧ commentStart p l = none
  else headingLike l = true → hasAuthor l = true

theorem line_survives (p : Platform) (l : JsString) :
    unescapeLine (escapeCommentText l) = l ∧ commentStart p (escapeCommentText l) = none ↔ LineSurvives p l := by
  unfold LineSurvives
  split
  · rename_i hany
    have hkept : unescapeLine (escapeCommentText l) = escapeCommentText l := by
      refine if_neg fun hescaped => ?_
      have hplain := any_of_escapedHeading hescaped
      rw [any_escapeCommentText, hany] at hplain
      cases hplain
    rw [hkept, escapeCommentText_eq_iff]
    refine and_congr_right fun hsegments => ?_
    rw [(escapeCommentText_eq_iff l).2 hsegments]
  · rename_i hany
    have hplain : l.any isTerminator = false := Bool.eq_false_iff.2 hany
    rw [escapeCommentText_plain hplain]
    by_cases hlike : headingLike l = true
    · have hescape : escapeLine l = 92 :: l := if_pos hlike
      have hstart := commentStart_of_heading (p := p) (commentHeading_backslash l)
      rw [hescape]
      unfold unescapeLine
      rw [escapedHeading_cons hlike]
      refine ⟨fun h _ => ?_, fun h => ⟨if_pos (h hlike), hstart⟩⟩
      by_contra hauthor
      have hlength := congrArg List.length h.1
      rw [if_neg hauthor, length_cons] at hlength
      omega
    · have hescape : escapeLine l = l := if_neg hlike
      have hkept : unescapeLine l = l := if_neg fun hescaped => hlike (headingLike_of_escapedHeading hescaped)
      have hstart : commentStart p l = none := by
        cases hheading : commentHeading l with
        | none => exact commentStart_of_heading hheading
        | some heading => exact absurd (headingLike_of_commentHeading hheading hplain) hlike
      rw [hescape, hkept]
      exact ⟨fun _ h => absurd h hlike, fun _ => ⟨rfl, hstart⟩⟩

theorem lf_not_mem_escape (h : lf ∉ l) : lf ∉ escapeCommentText l :=
  fun hmem => h ((mem_escapeCommentText (by decide) l).1 hmem)

theorem escape_unlines {ls : List JsString} (h : ls ≠ []) :
    escapeCommentText (unlines ls) = unlines (ls.map escapeCommentText) := by
  induction ls with
  | nil => exact absurd rfl h
  | cons l ls ih =>
    cases ls with
    | nil => simp [unlines]
    | cons l' ls =>
      have hrest := ih (cons_ne_nil _ _)
      rw [unlines_cons_cons, escapeCommentText_append (by decide), hrest, map_cons, map_cons, map_cons,
        unlines_cons_cons]

theorem lines_escapeCommentText (text : JsString) :
    lines (escapeCommentText text) = (lines text).map escapeCommentText := by
  have hescape := escape_unlines (lines_ne_nil text)
  rw [unlines_lines] at hescape
  rw [hescape]
  refine lines_unlines (fun l hl => ?_) (by simpa using lines_ne_nil text)
  obtain ⟨l', hl', rfl⟩ := mem_map.1 hl
  exact lf_not_mem_escape (lf_not_mem_of_mem_lines hl')

theorem strip_survives (p : Platform) {l : JsString} : unescapeLine (stripCr (stripCr (escapeCommentText l))) = l ∧
    commentStart p (stripCr (stripCr (escapeCommentText l))) = none ↔ l.getLast? ≠ some cr ∧ LineSurvives p l := by
  by_cases hlast : l.getLast? = some cr
  · refine ⟨fun h => ?_, fun h => absurd hlast h.1⟩
    have hescape := (getLast?_escapeCommentText l).2 hlast
    have hstrip : (stripCr (escapeCommentText l)).count cr + 1 = l.count cr := by
      have hstripped : stripCr (escapeCommentText l) = (escapeCommentText l).dropLast := if_pos hescape
      have hcount := count_escapeCommentText l
      rw [← dropLast_append_getLast? cr hescape, count_append] at hcount
      rw [hstripped]
      exact hcount
    have hle : ∀ s : JsString, (stripCr s).count cr ≤ s.count cr := by
      intro s
      unfold stripCr
      split
      · exact (dropLast_sublist s).count_le cr
      · exact le_refl _
    have hunescape : ∀ s : JsString, (unescapeLine s).count cr ≤ s.count cr := by
      intro s
      unfold unescapeLine
      split
      · exact (drop_sublist 1 s).count_le cr
      · exact le_refl _
    have h1 := hle (stripCr (escapeCommentText l))
    have h2 := hunescape (stripCr (stripCr (escapeCommentText l)))
    rw [h.1] at h2
    omega
  · have hescape : (escapeCommentText l).getLast? ≠ some cr := fun h => hlast ((getLast?_escapeCommentText l).1 h)
    rw [stripCr_eq hescape, stripCr_eq hescape, line_survives]
    exact ⟨fun h => ⟨hlast, h⟩, fun h => h.2⟩

end Wrenyard.Todos
