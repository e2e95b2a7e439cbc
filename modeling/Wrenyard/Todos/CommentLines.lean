import Wrenyard.Todos.Escaping
import Wrenyard.Todos.Sections

/-!
# The comments of a body

`parseComments` looks for the line `## Comments` and then for headings of comments.  Every comment begins where a line
is taken for a heading, so that the number of comments that are read is the number of such lines (`length_flush`);
with the written headings among them, no other line is one.  `comments_read` says which comments come back.
-/

namespace Wrenyard.Todos

open Js List

variable {p : Platform} {todo : Todo}

def isTimeUnit (u : UInt16) : Bool :=
  isDigit u || u == 45 || u == 84 || u == 58 || u == 46 || u == 90 || u == 43

theorem dropMatch_all {P : UInt16 → Prop} {tests : List (UInt16 → Bool)}
    (h : ∀ test ∈ tests, ∀ u, test u = true → P u)
    {s rest : JsString} (hmatch : dropMatch tests s = some rest) :
    ∃ pre, s = pre ++ rest ∧ pre.length = tests.length ∧ ∀ u ∈ pre, P u := by
  induction tests generalizing s with
  | nil =>
    cases hmatch
    exact ⟨[], rfl, rfl, forall_mem_nil _⟩
  | cons test tests ih =>
    cases s with
    | nil => cases hmatch
    | cons u s =>
      unfold dropMatch at hmatch
      by_cases hu : test u = true
      · rw [if_pos hu] at hmatch
        obtain ⟨pre, rfl, hlength, hpre⟩ := ih (fun t ht => h t (mem_cons_of_mem _ ht)) hmatch
        refine ⟨u :: pre, rfl, congrArg Nat.succ hlength, fun v hv => ?_⟩
        rcases mem_cons.1 hv with rfl | hv
        · exact h test mem_cons_self v hu
        · exact hpre v hv
      · rw [if_neg hu] at hmatch
        cases hmatch

theorem zoneRe_units {s : JsString} (h : zoneRe s = true) : ∀ u ∈ s, isTimeUnit u = true := by
  unfold zoneRe at h
  rw [Bool.or_eq_true, beq_iff_eq, beq_iff_eq] at h
  rcases h with rfl | h
  · intro u hu
    rw [mem_singleton.1 hu]
    decide
  have htests : ∀ test ∈ [fun u => u == 43 || u == 45, isDigit, isDigit, (· == 58), isDigit, isDigit],
      ∀ u : UInt16, test u = true → isTimeUnit u = true := by
    intro test htest u hu
    unfold isTimeUnit
    simp only [mem_cons, not_mem_nil, or_false] at htest
    rcases htest with rfl | rfl | rfl | rfl | rfl | rfl <;> simp_all
    rcases hu with rfl | rfl <;> simp
  obtain ⟨pre, rfl, -, hpre⟩ := dropMatch_all htests h
  rw [append_nil]
  exact hpre

theorem isoTimestampRe_units {value : JsString} (h : isoTimestampRe value = true) :
    value ≠ [] ∧ ∀ u ∈ value, isTimeUnit u = true := by
  unfold isoTimestampRe at h
  rw [Option.any_eq_true] at h
  obtain ⟨rest, hrest, hfraction⟩ := h
  have htests : ∀ test ∈ dateTests, ∀ u : UInt16, test u = true → isTimeUnit u = true := by
    have hdate : ∀ test ∈ dateTests, test = isDigit ∨ ∃ v : UInt16, isTimeUnit v = true ∧ test = (· == v) := by
      intro test htest
      unfold dateTests at htest
      simp only [mem_cons, not_mem_nil, or_false] at htest
      have hdash : ∃ v : UInt16, isTimeUnit v = true ∧ (fun u : UInt16 => u == 45) = (· == v) := ⟨45, by decide, rfl⟩
      have ht : ∃ v : UInt16, isTimeUnit v = true ∧ (fun u : UInt16 => u == 84) = (· == v) := ⟨84, by decide, rfl⟩
      have hcolon : ∃ v : UInt16, isTimeUnit v = true ∧ (fun u : UInt16 => u == 58) = (· == v) := ⟨58, by decide, rfl⟩
      rcases htest with h | h | h | h | h | h | h | h | h | h | h | h | h | h | h | h | h | h | h <;> subst h
      all_goals first | exact .inl rfl | exact .inr hdash | exact .inr ht | exact .inr hcolon
    intro test htest u hu
    rcases hdate test htest with rfl | ⟨v, hv, rfl⟩
    · unfold isTimeUnit
      rw [hu]
      rfl
    · rw [beq_iff_eq.1 hu]
      exact hv
  obtain ⟨pre, rfl, hlength, hpre⟩ := dropMatch_all htests hrest
  have hne : pre ≠ [] := by
    rintro rfl
    cases hlength
  have hunits : ∀ u ∈ rest, isTimeUnit u = true := by
    unfold fractionRe at hfraction
    split at hfraction
    · rename_i s
      rw [Bool.and_eq_true] at hfraction
      intro u hu
      rcases mem_cons.1 hu with rfl | hu
      · decide
      rw [← takeWhile_append_dropWhile (p := isDigit) (l := s)] at hu
      rcases mem_append.1 hu with hu | hu
      · unfold isTimeUnit
        rw [mem_takeWhile_imp hu]
        rfl
      · exact zoneRe_units hfraction.2 u hu
    · exact zoneRe_units hfraction
  refine ⟨fun hnil => hne (append_eq_nil_iff.1 hnil).1, fun u hu => ?_⟩
  rcases mem_append.1 hu with hu | hu
  · exact hpre u hu
  · exact hunits u hu

/-- A comment as the service checks it, or as it was read from a file. -/
structure HeldComment (p : Platform) (comment : TodoComment) : Prop where
  idLength : comment.id.length = 6
  idUnits : ∀ u ∈ comment.id, isHex u = true
  author : comment.author ≠ []
  authorCr : cr ∉ comment.author
  authorLf : lf ∉ comment.author
  time : isValidCommentTime p comment.at_ = true

variable {comment : TodoComment}

variable (h : HeldComment p comment)
include h

theorem HeldComment.timeUnits :
    comment.at_ ≠ [] ∧ ∀ u ∈ comment.at_, isTimeUnit u = true := by
  have htime := h.time
  unfold isValidCommentTime at htime
  rw [Bool.and_eq_true] at htime
  exact isoTimestampRe_units htime.1

theorem HeldComment.commentStart (hdot : 0xB7 ∉ comment.author) :
    commentStart p (commentLine comment) = some (comment.id, comment.author, comment.at_) := by
  obtain ⟨hne, hunits⟩ := h.timeUnits
  have hplain : comment.at_.any isTerminator = false := by
    rw [any_eq_false]
    intro u hu
    rw [not_isTerminator (by decide) (by decide) (by decide) (by decide) (hunits u hu)]
    exact Bool.false_ne_true
  unfold Todos.commentStart
  rw [commentHeading_written h.idLength h.idUnits h.author hdot h.authorCr h.authorLf hne hplain, Option.filter_some,
    if_pos h.time]

theorem HeldComment.line :
    lines (commentLine comment) = [commentLine comment] ∧ stripCr (commentLine comment) = commentLine comment := by
  obtain ⟨hne, hunits⟩ := h.timeUnits
  have hlf : lf ∉ commentLine comment := by
    unfold commentLine
    simp only [mem_append, not_or]
    refine ⟨⟨⟨⟨⟨by decide, fun hmem => ?_⟩, by decide⟩, h.authorLf⟩, by decide⟩, fun hmem => ?_⟩
    · exact absurd (h.idUnits lf hmem) (by decide)
    · exact absurd (hunits lf hmem) (by decide)
  have hcr : (commentLine comment).getLast? ≠ some cr := by
    intro hlast
    unfold commentLine at hlast
    rw [List.getLast?_append_of_ne_nil _ hne] at hlast
    exact absurd (hunits cr (mem_of_getLast? hlast)) (by decide)
  exact ⟨lines_of_not_mem hlf, stripCr_eq hcr⟩

omit h

def readText (comment : TodoComment) : List JsString :=
  (lines comment.text).map fun l => stripCr (stripCr (escapeCommentText l))

def readLines (comment : TodoComment) : List JsString := [] :: commentLine comment :: [] :: readText comment

theorem stripCr_commentBlock (h : ∀ comment ∈ todo.comments, HeldComment p comment) :
    (commentBlock todo).map stripCr = todo.comments.flatMap readLines := by
  unfold commentBlock
  generalize todo.comments = comments at h
  induction comments with
  | nil => rfl
  | cons comment comments ih =>
    have hrest := ih fun c hc => h c (mem_cons_of_mem _ hc)
    obtain ⟨hline, hstrip⟩ := (h comment mem_cons_self).line
    rw [flatMap_cons, partLines_append, map_append, hrest, flatMap_cons]
    congr 1
    have hblank : lines [] = [[]] := rfl
    have hnil : stripCr [] = [] := rfl
    unfold partLines readLines readText
    simp only [flatMap_cons, flatMap_nil, hblank, hline, lines_escapeCommentText, map_append,
      map_cons, map_nil, hnil, hstrip, map_map, append_nil]
    rfl

variable {l : JsString}

theorem ne_comments_of_noHeading (h : sectionHeading l = none) : stripCr l ≠ js "## Comments" := by
  intro hstrip
  unfold stripCr at hstrip
  split at hstrip
  · rename_i hlast
    have hl : l = js "## Comments" ++ [cr] := by
      rw [← hstrip]
      exact (dropLast_append_getLast? cr hlast).symm
    rw [hl] at h
    exact absurd h (by decide)
  · rw [hstrip] at h
    exact absurd h (by decide)

/-- The body of a file, once `\r\n` is replaced. -/
def readBody (todo : Todo) : JsString := closed (partLines (bodyParts todo))

theorem lines_readBody (todo : Todo) : lines (readBody todo) = bodyLines todo := lines_closed lf_not_mem_partLines

theorem commentLines_readBody (hrequest : NoHeadings todo.request) (hacceptance : NoHeadings todo.acceptance)
    (hpaths : PlainPaths todo) (hcomments : todo.comments ≠ [])
    (hheld : ∀ comment ∈ todo.comments, HeldComment p comment) :
    commentLines (readBody todo) = todo.comments.flatMap readLines ++ [[]] := by
  have hlf : ∀ l ∈ (partLines (bodyParts todo)).map stripCr, lf ∉ l := by
    intro l hl
    obtain ⟨l', hl', rfl⟩ := mem_map.1 hl
    exact lf_not_mem_stripCr (lf_not_mem_partLines l' hl')
  have hblank : [] ≠ js "## Comments" := by decide
  have hsection : ∀ s, NoHeadings s → ∀ l ∈ (textLines s).map stripCr, l ≠ js "## Comments" := by
    intro s hs l hl
    obtain ⟨l', hl', rfl⟩ := mem_map.1 hl
    exact ne_comments_of_noHeading (hs l' hl')
  have hattachments : ∀ l ∈ (partLines (attachmentParts todo)).map stripCr, l ≠ js "## Comments" := by
    rw [attachmentParts_lines hpaths]
    intro l hl
    by_cases hnil : todo.attachments = []
    · rw [if_pos hnil] at hl
      cases hl
    rw [if_neg hnil, map_cons, map_cons, map_cons] at hl
    rcases mem_cons.1 hl with rfl | hl
    · exact hblank
    rcases mem_cons.1 hl with rfl | hl
    · decide
    rcases mem_cons.1 hl with rfl | hl
    · exact hblank
    · obtain ⟨l', hl', rfl⟩ := mem_map.1 hl
      obtain ⟨path, -, rfl⟩ := mem_map.1 hl'
      exact ne_comments_of_noHeading (sectionHeading_entry path)
  have hbody : (partLines (bodyParts todo)).map stripCr =
      ([] :: js "## Request" :: [] :: ((textLines todo.request).map stripCr ++
        [] :: js "## Acceptance criteria" :: [] ::
        ((textLines todo.acceptance).map stripCr ++ ((partLines (attachmentParts todo)).map stripCr ++ [[]])))) ++
      js "## Comments" :: todo.comments.flatMap readLines := by
    have hnil : stripCr [] = [] := rfl
    have hr : stripCr (js "## Request") = js "## Request" := by decide
    have ha : stripCr (js "## Acceptance criteria") = js "## Acceptance criteria" := by decide
    have hc : stripCr (js "## Comments") = js "## Comments" := by decide
    rw [partLines_bodyParts, commentParts_lines, if_neg hcomments]
    simp only [map_cons, map_append, hnil, hr, ha, hc, stripCr_commentBlock hheld, cons_append,
      append_assoc, nil_append]
  unfold commentLines readBody
  rw [crlfToLf_closed lf_not_mem_partLines, lines_closed hlf, hbody, append_assoc,
    dropWhile_append_of_pos, cons_append, dropWhile_cons_of_neg (by simp)]
  · rfl
  · intro l hl
    rw [decide_eq_true_eq]
    simp only [mem_cons, mem_append, not_mem_nil, or_false] at hl
    rcases hl with rfl | rfl | rfl | hl | rfl | rfl | rfl | hl | hl | rfl
    any_goals exact hblank
    · decide
    · exact hsection _ hrequest l hl
    · decide
    · exact hsection _ hacceptance l hl
    · exact hattachments l hl

theorem commentLine_some {scan : CommentScan} {heading : JsString × JsString × JsString}
    (h : commentStart p l = some heading) : scan.line p l = ⟨scan.flush, some heading, []⟩ := by
  unfold CommentScan.line
  unfold commentStart at h
  rw [h]

theorem commentLine_none {scan : CommentScan} (h : commentStart p l = none) :
    scan.line p l = if scan.current.isSome then { scan with rawBodyLines := scan.rawBodyLines ++ [l] } else scan := by
  unfold CommentScan.line
  unfold commentStart at h
  rw [h]

theorem foldl_text {ls : List JsString} (h : ∀ l ∈ ls, commentStart p l = none) (comments : List TodoComment)
    (heading : JsString × JsString × JsString) (raw : List JsString) :
    ls.foldl (CommentScan.line p) ⟨comments, some heading, raw⟩ = ⟨comments, some heading, raw ++ ls⟩ := by
  induction ls generalizing raw with
  | nil => rw [append_nil]; rfl
  | cons l ls ih =>
    rw [foldl_cons, commentLine_none (h l mem_cons_self)]
    show ls.foldl (CommentScan.line p) ⟨comments, some heading, raw ++ [l]⟩ = _
    rw [ih (fun l' hl' => h l' (mem_cons_of_mem _ hl')), append_assoc]
    rfl

variable (ls : List JsString)

theorem commentText_around : commentText ([] :: (ls ++ [[]])) = unlines (ls.map unescapeLine) := by
  have hlast : ([] :: (ls ++ [[]]) : List JsString).getLast? = some [] := by
    rw [← cons_append, List.getLast?_concat]
  have hdrop : ([] :: (ls ++ [[]]) : List JsString).dropLast = [] :: ls := by
    rw [← cons_append, dropLast_concat]
  unfold commentText
  rw [if_pos hlast, hdrop]
  rfl

theorem commentStart_nil : commentStart p [] = none := rfl

variable {comments : List TodoComment}

theorem flush_readLines (hstart : ∀ c ∈ comments, commentStart p (commentLine c) = some (c.id, c.author, c.at_))
    (htext : ∀ c ∈ comments, ∀ l ∈ readText c, commentStart p l = none) (scan : CommentScan) :
    ((comments.flatMap readLines ++ [[]]).foldl (CommentScan.line p) scan).flush =
      (scan.line p []).flush ++ comments.map fun c =>
        ⟨c.id, c.author, c.at_, unlines ((readText c).map unescapeLine)⟩ := by
  induction comments generalizing scan with
  | nil => simp
  | cons c comments ih =>
    have hrest := ih (fun c' hc' => hstart c' (mem_cons_of_mem _ hc'))
      (fun c' hc' => htext c' (mem_cons_of_mem _ hc'))
    have hblock : (readLines c).foldl (CommentScan.line p) scan =
        ⟨(scan.line p []).flush, some (c.id, c.author, c.at_), [] :: readText c⟩ := by
      have hblank : ∀ l ∈ [] :: readText c, commentStart p l = none := by
        intro l hl
        rcases mem_cons.1 hl with rfl | hl
        · exact commentStart_nil
        · exact htext c mem_cons_self l hl
      unfold readLines
      rw [foldl_cons, foldl_cons, commentLine_some (hstart c mem_cons_self), foldl_text hblank]
      rfl
    rw [flatMap_cons, append_assoc, foldl_append, hblock, hrest, commentLine_none commentStart_nil]
    show (scan.line p []).flush ++ [⟨c.id, c.author, c.at_, commentText ([] :: (readText c ++ [[]]))⟩] ++ _ = _
    rw [commentText_around, append_assoc]
    rfl

theorem length_flush (scan : CommentScan) : (ls.foldl (CommentScan.line p) scan).flush.length =
    scan.flush.length + ls.countP fun l => (commentStart p l).isSome := by
  have hlength : ∀ scan : CommentScan, scan.flush.length = scan.comments.length + if scan.current.isSome then 1
      else 0 := by
    intro scan
    unfold CommentScan.flush
    cases scan.current with
    | none => rfl
    | some heading => exact length_append
  induction ls generalizing scan with
  | nil => rfl
  | cons l ls ih =>
    rw [foldl_cons, ih, countP_cons]
    cases hl : commentStart p l with
    | none =>
      rw [commentLine_none hl]
      split
      · rw [hlength, hlength]
        simp
      · simp
    | some heading =>
      rw [commentLine_some hl, hlength]
      simp
      omega

theorem author_flush (scan : CommentScan) (h : ∀ author ∈ scan.flush.map (·.author), 0xB7 ∉ author) :
    ∀ author ∈ (ls.foldl (CommentScan.line p) scan).flush.map (·.author), 0xB7 ∉ author := by
  induction ls generalizing scan with
  | nil => exact h
  | cons l ls ih =>
    refine ih _ ?_
    cases hl : commentStart p l with
    | none =>
      rw [commentLine_none hl]
      split
      · obtain ⟨comments, current, raw⟩ := scan
        cases current with
        | none => exact h
        | some heading => simpa [CommentScan.flush] using h
      · exact h
    | some heading =>
      have hheading : commentHeading l = some heading := by
        exact (Option.filter_eq_some_iff.1 hl).1
      obtain ⟨_, _, _, _, _, hdot, _⟩ := commentHeading_some hheading
      rw [commentLine_some hl]
      intro author hauthor
      simp only [CommentScan.flush, map_append, map_cons, map_nil, mem_append,
        mem_singleton] at hauthor
      rcases hauthor with hauthor | rfl
      · exact h author hauthor
      · exact hdot

structure CommentSurvives (p : Platform) (comment : TodoComment) : Prop where
  /-- The author has no `·`. -/
  author : 0xB7 ∉ comment.author
  /-- No carriage return ends a line. -/
  returns : ∀ l ∈ lines comment.text, l.getLast? ≠ some cr
  lines : ∀ l ∈ lines comment.text, LineSurvives p l

theorem lf_not_mem_readText (h : l ∈ readText comment) : lf ∉ l := by
  obtain ⟨l', hl', rfl⟩ := mem_map.1 h
  exact lf_not_mem_stripCr (lf_not_mem_stripCr (lf_not_mem_escape (lf_not_mem_of_mem_lines hl')))

theorem lf_not_mem_unescapeLine (h : lf ∉ l) : lf ∉ unescapeLine l := by
  unfold unescapeLine
  split
  · exact fun hmem => h (drop_subset _ _ hmem)
  · exact h

theorem readText_eq_iff (comment : TodoComment) : unlines ((readText comment).map unescapeLine) = comment.text ∧
    (∀ l ∈ readText comment, commentStart p l = none) ↔ ∀ l ∈ lines comment.text, l.getLast? ≠ some cr ∧
    LineSurvives p l := by
  have hmap : (readText comment).map unescapeLine =
      (lines comment.text).map fun l => unescapeLine (stripCr (stripCr (escapeCommentText l))) := by
    unfold readText
    rw [map_map]
    rfl
  have hlf : ∀ l ∈ (readText comment).map unescapeLine, lf ∉ l := by
    intro l hl
    obtain ⟨l', hl', rfl⟩ := mem_map.1 hl
    exact lf_not_mem_unescapeLine (lf_not_mem_readText hl')
  have hne : (readText comment).map unescapeLine ≠ [] := by
    rw [hmap]
    simpa using lines_ne_nil comment.text
  constructor
  · rintro ⟨htext, hnone⟩ l hl
    have hlines := congrArg lines htext
    rw [lines_unlines hlf hne, hmap] at hlines
    have hall := map_inj_left.1 (hlines.trans (map_id _).symm)
    refine (strip_survives p).1 ⟨hall l hl, hnone _ ?_⟩
    exact mem_map.2 ⟨l, hl, rfl⟩
  · intro h
    refine ⟨?_, fun l hl => ?_⟩
    · have hall : (readText comment).map unescapeLine = lines comment.text := by
        rw [hmap]
        conv_rhs => rw [← map_id (lines comment.text)]
        exact map_congr_left fun l hl => ((strip_survives p).2 (h l hl)).1
      rw [hall, unlines_lines]
    · obtain ⟨l', hl', rfl⟩ := mem_map.1 hl
      exact ((strip_survives p).2 (h l' hl')).2

theorem countP_readLines (h : ∀ c ∈ comments, commentStart p (commentLine c) = some (c.id, c.author, c.at_)) :
    (comments.flatMap readLines).countP (fun l => (commentStart p l).isSome) =
      comments.length + (comments.flatMap readText).countP fun l => (commentStart p l).isSome := by
  induction comments with
  | nil => rfl
  | cons c comments ih =>
    have hrest := ih fun c' hc' => h c' (mem_cons_of_mem _ hc')
    have hblank : (commentStart p []).isSome = false := rfl
    have hhead : (readLines c).countP (fun l => (commentStart p l).isSome) =
        1 + (readText c).countP fun l => (commentStart p l).isSome := by
      unfold readLines
      rw [countP_cons_of_neg (by rw [hblank]; exact Bool.false_ne_true),
        countP_cons_of_pos (by rw [h c mem_cons_self]; rfl),
        countP_cons_of_neg (by rw [hblank]; exact Bool.false_ne_true), Nat.add_comm]
    rw [flatMap_cons, countP_append, flatMap_cons, countP_append, hhead, hrest, length_cons]
    omega

theorem comments_read (hheld : ∀ c ∈ comments, HeldComment p c) :
    ((comments.flatMap readLines ++ [[]]).foldl (CommentScan.line p) CommentScan.start).flush = comments ↔
    ∀ c ∈ comments, CommentSurvives p c := by
  constructor
  · intro hflush
    have hauthor := author_flush (p := p) (comments.flatMap readLines ++ [[]]) CommentScan.start (forall_mem_nil _)
    rw [hflush] at hauthor
    have hdot : ∀ c ∈ comments, 0xB7 ∉ c.author := fun c hc => hauthor _ (mem_map.2 ⟨c, hc, rfl⟩)
    have hstart : ∀ c ∈ comments, commentStart p (commentLine c) = some (c.id, c.author, c.at_) :=
      fun c hc => (hheld c hc).commentStart (hdot c hc)
    -- the written headings are as many as the comments, so that no other line is a heading
    have htext : ∀ c ∈ comments, ∀ l ∈ readText c, commentStart p l = none := by
      have hcount := length_flush (p := p) (comments.flatMap readLines ++ [[]]) CommentScan.start
      have hlast : ([[]] : List JsString).countP (fun l => (commentStart p l).isSome) = 0 := rfl
      have hzero : CommentScan.start.flush.length = 0 := rfl
      rw [hflush, countP_append, countP_readLines hstart, hlast, hzero] at hcount
      have hnone : (comments.flatMap readText).countP (fun l => (commentStart p l).isSome) = 0 := by omega
      rw [countP_eq_zero] at hnone
      intro c hc l hl
      have hsome := hnone l (mem_flatMap.2 ⟨c, hc, hl⟩)
      exact Option.not_isSome_iff_eq_none.1 hsome
    have hread := flush_readLines hstart htext CommentScan.start
    rw [hflush] at hread
    have hall := map_inj_left.1 ((map_id comments).trans hread)
    intro c hc
    have hsame : c.text = unlines ((readText c).map unescapeLine) := congrArg TodoComment.text (hall c hc)
    have hlines := (readText_eq_iff c).1 ⟨hsame.symm, htext c hc⟩
    exact ⟨hdot c hc, fun l hl => (hlines l hl).1, fun l hl => (hlines l hl).2⟩
  · intro h
    have hboth : ∀ c ∈ comments, unlines ((readText c).map unescapeLine) = c.text ∧
        ∀ l ∈ readText c, commentStart p l = none :=
      fun c hc => (readText_eq_iff c).2 fun l hl => ⟨(h c hc).returns l hl, (h c hc).lines l hl⟩
    have hread := flush_readLines (fun c hc => (hheld c hc).commentStart (h c hc).author)
      (fun c hc => (hboth c hc).2) CommentScan.start
    rw [hread]
    show comments.map _ = comments
    conv_rhs => rw [← map_id comments]
    refine map_congr_left fun c hc => ?_
    rw [(hboth c hc).1]
    rfl

end Wrenyard.Todos
