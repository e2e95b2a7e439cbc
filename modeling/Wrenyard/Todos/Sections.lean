import Wrenyard.Todos.Lines

/-!
# Sections of a body

What `parseBodySections` reads from the lines of a written body.  Where no line of a section is a heading, the
sections are the written ones (`sections_written`).  The weight of the request and the acceptance criteria that are
read never exceeds the weight of the lines that are no headings (`weight_read`), so that a line which is taken for a
heading is missing from them (`noHeadings_of_weight`).
-/

namespace Wrenyard.Todos

open Js List

variable (sections : OMap JsString JsString)

theorem line_comments (ls : List JsString) (l : JsString) :
    SectionScan.line ⟨sections, some (js "Comments"), ls⟩ l = ⟨sections, some (js "Comments"), ls ++ [l]⟩ := by
  rfl

variable {l : JsString} {scan : SectionScan}

theorem line_none (h : sectionHeading l = none) :
    scan.line l = if scan.heading.isSome then { scan with openLines := scan.openLines ++ [l] } else scan := by
  unfold SectionScan.line
  split
  · rename_i heading hsome
    split at hsome
    · cases hsome
    · rw [h] at hsome
      cases hsome
  · rfl

variable {name : JsString}

theorem line_some (h : sectionHeading l = some name)
    (hne : scan.heading ≠ some (js "Comments")) : scan.line l = ⟨scan.flush, some name, []⟩ := by
  unfold SectionScan.line
  rw [if_neg hne, h]

theorem foldl_comments (ls block : List JsString) :
    block.foldl SectionScan.line ⟨sections, some (js "Comments"), ls⟩ =
    ⟨sections, some (js "Comments"), ls ++ block⟩ := by
  induction block generalizing ls with
  | nil => rw [append_nil]; rfl
  | cons l block ih => rw [foldl_cons, line_comments, ih, append_assoc]; rfl

theorem foldl_block {block : List JsString} (h : ∀ l ∈ block, sectionHeading l = none)
    (sections : OMap JsString JsString) (name : JsString) (ls : List JsString) :
    block.foldl SectionScan.line ⟨sections, some name, ls⟩ = ⟨sections, some name, ls ++ block⟩ := by
  induction block generalizing ls with
  | nil => rw [append_nil]; rfl
  | cons l block ih =>
    rw [foldl_cons, line_none (h l mem_cons_self)]
    show block.foldl SectionScan.line ⟨sections, some name, ls ++ [l]⟩ = _
    rw [ih (fun l' hl' => h l' (mem_cons_of_mem _ hl')), append_assoc]
    rfl

theorem foldl_section {block : List JsString} (h : ∀ l ∈ block, sectionHeading l = none) {next : JsString}
    (hnext : sectionHeading l = some next) (hname : name ≠ js "Comments") (sections : OMap JsString JsString)
    (rest : List JsString) : (block ++ l :: rest).foldl SectionScan.line ⟨sections, some name, []⟩ =
    rest.foldl SectionScan.line ⟨sections.set name (trim (unlines block)), some next, []⟩ := by
  have hne : (some name : Option JsString) ≠ some (js "Comments") := fun heq => hname (Option.some.inj heq)
  rw [foldl_append, foldl_block h, foldl_cons, nil_append]
  have hline : SectionScan.line ⟨sections, some name, block⟩ l =
      ⟨sections.set name (trim (unlines block)), some next, []⟩ := line_some hnext hne
  rw [hline]

theorem trim_section (ls : List JsString) : trim (unlines ([] :: (ls ++ [[]]))) = trim (unlines ls) := by
  have hspace : ∀ u ∈ [lf], isSpace u = true := by
    intro u hu
    rw [mem_singleton.1 hu]
    decide
  cases ls with
  | nil => rfl
  | cons l ls =>
    obtain ⟨htrimmed, a, b, htrim, hs, ha, hb⟩ := trim_spec (unlines (l :: ls))
    have hunlines : unlines ([] :: (l :: ls ++ [[]])) = lf :: (unlines (l :: ls) ++ [lf]) := by
      rw [cons_append, unlines_cons_cons, nil_append]
      congr 1
      have hclosed : unlines (l :: (ls ++ [[]])) ++ [lf] = closed (l :: ls) ++ [lf] := by
        rw [unlines_append_lf (cons_ne_nil _ _), closed_cons, closed_append, closed_cons]
        simp
      rw [unlines_append_lf (cons_ne_nil _ _)]
      exact append_cancel_right hclosed
    have hall : lf :: (unlines (l :: ls) ++ [lf]) = (lf :: a) ++ (trim (unlines (l :: ls)) ++ (b ++ [lf])) := by
      conv_lhs => rw [hs, htrim]
      simp
    rw [hunlines, hall]
    refine trim_append (fun u hu => ?_) (fun u hu => ?_) htrimmed
    · rcases mem_cons.1 hu with rfl | hu
      · decide
      · exact ha u hu
    · rcases mem_append.1 hu with hu | hu
      · exact hb u hu
      · exact hspace u hu

/-- The lines of parts, once `\r\n` is replaced. -/
def partLines (parts : List JsString) : List JsString := (parts.flatMap lines).map stripCr

def textLines (s : JsString) : List JsString := (lines (trimEnd s)).map stripCr

theorem lf_not_mem_partLines {parts : List JsString} : ∀ l ∈ partLines parts, lf ∉ l := by
  intro l hl
  obtain ⟨l', hl', rfl⟩ := mem_map.1 hl
  obtain ⟨part, -, hpart⟩ := mem_flatMap.1 hl'
  exact lf_not_mem_stripCr (lf_not_mem_of_mem_lines hpart)

theorem partLines_append (ps qs : List JsString) : partLines (ps ++ qs) = partLines ps ++ partLines qs := by
  unfold partLines
  rw [flatMap_append, map_append]

theorem crlfToLf_parts {parts : List JsString} (h : parts ≠ []) :
    crlfToLf (unlines parts ++ [lf]) = closed (partLines parts) := by
  have hno : ∀ l ∈ parts.flatMap lines, lf ∉ l := by
    intro l hl
    obtain ⟨part, -, hpart⟩ := mem_flatMap.1 hl
    exact lf_not_mem_of_mem_lines hpart
  rw [unlines_append_lf h, ← closed_flatMap_lines, crlfToLf_closed hno]
  rfl

theorem partLines_bodyParts (todo : Todo) : partLines (bodyParts todo) =
    [] :: js "## Request" :: [] :: (textLines todo.request ++ [] :: js "## Acceptance criteria" :: [] ::
      (textLines todo.acceptance ++ (partLines (attachmentParts todo) ++ partLines (commentParts todo)))) := by
  have hblank : (lines []).map stripCr = [[]] := by decide
  have hrequest : (lines (js "## Request")).map stripCr = [js "## Request"] := by decide
  have hacceptance : (lines (js "## Acceptance criteria")).map stripCr = [js "## Acceptance criteria"] := by
    decide
  unfold bodyParts
  rw [partLines_append, partLines_append, append_assoc]
  unfold partLines textLines
  simp only [flatMap_cons, flatMap_nil, map_append, hblank, hrequest, hacceptance, append_nil]
  simp

def commentBlock (todo : Todo) : List JsString :=
  partLines (todo.comments.flatMap fun comment => [[], commentLine comment, [], escapeCommentText comment.text])

theorem commentParts_lines (todo : Todo) : partLines (commentParts todo) =
    if todo.comments = [] then [] else [] :: js "## Comments" :: commentBlock todo := by
  unfold commentParts
  by_cases h : todo.comments = []
  · rw [if_pos h, if_pos h]
    rfl
  · have hhead : partLines [[], js "## Comments"] = [[], js "## Comments"] := by decide
    rw [if_neg h, if_neg h, partLines_append, hhead]
    rfl

theorem partLines_entries {paths : List JsString} (h : ∀ path ∈ paths, path.any isTerminator = false) :
    partLines (paths.map (js "- " ++ ·)) = paths.map (js "- " ++ ·) := by
  induction paths with
  | nil => rfl
  | cons path paths ih =>
    have hpath := h path mem_cons_self
    have hlf : lf ∉ js "- " ++ path := by
      intro hmem
      rcases mem_append.1 hmem with hmem | hmem
      · exact absurd hmem (by decide)
      · exact absurd (any_eq_false.1 hpath lf hmem) (by decide)
    have hcr : (js "- " ++ path).getLast? ≠ some cr := by
      intro hlast
      rcases mem_append.1 (mem_of_getLast? hlast) with hmem | hmem
      · exact absurd hmem (by decide)
      · exact absurd (any_eq_false.1 hpath cr hmem) (by decide)
    have hrest := ih fun path' hpath' => h path' (mem_cons_of_mem _ hpath')
    unfold partLines at hrest ⊢
    rw [map_cons, flatMap_cons, map_append, hrest, lines_of_not_mem hlf, map_singleton,
      stripCr_eq hcr]
    rfl

variable {todo : Todo}

theorem attachmentParts_lines (h : ∀ path ∈ todo.attachments, path.any isTerminator = false) :
    partLines (attachmentParts todo) =
      if todo.attachments = [] then [] else [] :: js "## Attachments" :: [] ::
      todo.attachments.map (js "- " ++ ·) := by
  unfold attachmentParts
  by_cases hnil : todo.attachments = []
  · rw [if_pos hnil, if_pos hnil]
    rfl
  · have hhead : partLines [[], js "## Attachments", []] = [[], js "## Attachments", []] := by decide
    rw [if_neg hnil, if_neg hnil, partLines_append, hhead, partLines_entries h]
    rfl

theorem sectionHeading_entry (path : JsString) : sectionHeading (js "- " ++ path) = none := by
  rfl

def bodyLines (todo : Todo) : List JsString := partLines (bodyParts todo) ++ [[]]

def NoHeadings (s : JsString) : Prop := ∀ l ∈ textLines s, sectionHeading l = none

def PlainPaths (todo : Todo) : Prop := ∀ path ∈ todo.attachments, path.any isTerminator = false

theorem sectionHeading_nil : sectionHeading [] = none := rfl

theorem sectionHeading_request : sectionHeading (js "## Request") = some (js "Request") := by decide

theorem sectionHeading_acceptance : sectionHeading (js "## Acceptance criteria") =
    some (js "Acceptance criteria") := by
  decide

theorem sectionHeading_attachments : sectionHeading (js "## Attachments") = some (js "Attachments") := by
  decide

theorem sectionHeading_comments : sectionHeading (js "## Comments") = some (js "Comments") := by decide

variable {ls : List JsString}

variable (h : ∀ l ∈ ls, sectionHeading l = none)
include h

theorem noHeadings_around : ∀ l ∈ [] :: (ls ++ [[]]), sectionHeading l = none := by
  intro l hl
  rcases mem_cons.1 hl with rfl | hl
  · rfl
  rcases mem_append.1 hl with hl | hl
  · exact h l hl
  · rw [mem_singleton.1 hl]
    rfl

theorem foldl_around {next : JsString} (hnext : sectionHeading l = some next) (hname : name ≠ js "Comments")
    (sections : OMap JsString JsString) (rest : List JsString) :
    ([] :: (ls ++ [] :: l :: rest)).foldl SectionScan.line ⟨sections, some name, []⟩ =
    rest.foldl SectionScan.line ⟨sections.set name (trim (unlines ls)), some next, []⟩ := by
  have hblock := foldl_section (noHeadings_around h) hnext hname sections rest
  rw [trim_section] at hblock
  rw [← hblock]
  simp

theorem flush_around (sections : OMap JsString JsString) (name : JsString) :
    (([] :: (ls ++ [[]])).foldl SectionScan.line ⟨sections, some name, []⟩).flush =
    sections.set name (trim (unlines ls)) := by
  rw [foldl_block (noHeadings_around h), ← trim_section]
  rfl

omit h

theorem flush_comments (block : List JsString) :
    (block.foldl SectionScan.line ⟨sections, some (js "Comments"), []⟩).flush =
    sections.set (js "Comments") (trim (unlines block)) := by
  rw [foldl_comments]
  rfl

theorem foldl_request (h : NoHeadings todo.request) (rest : List JsString) :
    ([] :: js "## Request" :: [] :: (textLines todo.request ++ [] :: js "## Acceptance criteria" :: rest)).foldl
        SectionScan.line SectionScan.start =
      rest.foldl SectionScan.line
        ⟨[(js "Request", trim (unlines (textLines todo.request)))], some (js "Acceptance criteria"), []⟩ := by
  have hne : js "Request" ≠ js "Comments" := by decide
  have hblank : SectionScan.start.line [] = SectionScan.start := line_none sectionHeading_nil
  have hstart : SectionScan.start.line (js "## Request") = ⟨[], some (js "Request"), []⟩ :=
    line_some sectionHeading_request (by rintro ⟨⟩)
  rw [foldl_cons, hblank, foldl_cons, hstart, foldl_around h sectionHeading_acceptance hne]
  rfl

theorem sections_written (hrequest : NoHeadings todo.request) (hacceptance : NoHeadings todo.acceptance)
    (hpaths : PlainPaths todo) :
    ((bodyLines todo).foldl SectionScan.line SectionScan.start).flush =
      [(js "Request", trim (unlines (textLines todo.request))),
        (js "Acceptance criteria", trim (unlines (textLines todo.acceptance)))] ++
      ((if todo.attachments = [] then []
        else [(js "Attachments", trim (unlines (todo.attachments.map (js "- " ++ ·))))]) ++
      (if todo.comments = [] then [] else [(js "Comments", trim (unlines (commentBlock todo ++ [[]])))])) := by
  have hacc : js "Acceptance criteria" ≠ js "Comments" := by decide
  have hatt : js "Attachments" ≠ js "Comments" := by decide
  have hentries : ∀ l ∈ todo.attachments.map (js "- " ++ ·), sectionHeading l = none := by
    intro l hl
    obtain ⟨path, -, rfl⟩ := mem_map.1 hl
    exact sectionHeading_entry path
  unfold bodyLines
  rw [partLines_bodyParts, attachmentParts_lines hpaths, commentParts_lines]
  simp only [cons_append, append_assoc]
  rw [foldl_request hrequest]
  by_cases ha : todo.attachments = []
  · by_cases hc : todo.comments = []
    · rw [if_pos ha, if_pos hc, if_pos ha, if_pos hc, nil_append, nil_append, flush_around hacceptance]
      rfl
    · rw [if_pos ha, if_neg hc, if_pos ha, if_neg hc, nil_append, cons_append, cons_append,
        foldl_around hacceptance sectionHeading_comments hacc, flush_comments]
      rfl
  · by_cases hc : todo.comments = []
    · rw [if_neg ha, if_pos hc, if_neg ha, if_pos hc, cons_append, cons_append, cons_append,
        foldl_around hacceptance sectionHeading_attachments hacc, nil_append, flush_around hentries]
      rfl
    rw [if_neg ha, if_neg hc, if_neg ha, if_neg hc, cons_append, cons_append, cons_append,
      foldl_around hacceptance sectionHeading_attachments hacc, cons_append, cons_append,
      foldl_around hentries sectionHeading_comments hatt, flush_comments]
    rfl

/-! ### Weight -/

def readWeight (sections : OMap JsString JsString) : Nat :=
  weight ((sections.get (js "Request")).getD []) + weight ((sections.get (js "Acceptance criteria")).getD [])

def textWeight (ls : List JsString) : Nat := weights (ls.filter fun l => sectionHeading l = none)

theorem readWeight_set (name text : JsString) :
    readWeight (sections.set name text) =
      (if name = js "Request" then weight text else weight ((sections.get (js "Request")).getD [])) +
      if name = js "Acceptance criteria" then weight text
      else weight ((sections.get (js "Acceptance criteria")).getD []) := by
  unfold readWeight
  simp only [OMap.get_set]
  split_ifs <;> rfl

theorem readWeight_line (scan : SectionScan) (l : JsString) :
    readWeight (scan.line l).flush ≤ readWeight scan.flush + textWeight [l] := by
  have hclosed : ∀ sections : OMap JsString JsString, ∀ name,
      readWeight (sections.set name (trim (unlines []))) ≤ readWeight sections := by
    intro sections name
    have hnil : weight (trim (unlines [])) = 0 := rfl
    rw [readWeight_set, hnil]
    unfold readWeight
    split_ifs <;> omega
  obtain ⟨sections, heading, ls⟩ := scan
  by_cases hcomments : heading = some (js "Comments")
  · subst hcomments
    have hr : js "Comments" ≠ js "Request" := by decide
    have ha : js "Comments" ≠ js "Acceptance criteria" := by decide
    show readWeight (sections.set (js "Comments") _) ≤ readWeight (sections.set (js "Comments") _) + _
    rw [readWeight_set, readWeight_set, if_neg hr, if_neg ha, if_neg hr, if_neg ha]
    omega
  · cases hname : sectionHeading l with
    | some name =>
      rw [line_some hname hcomments]
      exact le_trans (hclosed _ _) (Nat.le_add_right _ _)
    | none =>
      have hweight : textWeight [l] = weight l := by
        simp [textWeight, hname]
      rw [line_none hname, hweight]
      cases heading with
      | none => exact Nat.le_add_right _ _
      | some name =>
        show readWeight (sections.set name (trim (unlines (ls ++ [l])))) ≤
          readWeight (sections.set name (trim (unlines ls))) + weight l
        rw [readWeight_set, readWeight_set]
        simp only [weight_trim, weight_unlines, weights_append, weights_cons, weights_nil]
        have hdistinct : js "Request" ≠ js "Acceptance criteria" := by decide
        split_ifs with hr ha
        · exact absurd (hr.symm.trans ha) hdistinct
        all_goals omega

theorem readWeight_foldl (scan : SectionScan) (ls : List JsString) :
    readWeight (ls.foldl SectionScan.line scan).flush ≤ readWeight scan.flush + textWeight ls := by
  induction ls generalizing scan with
  | nil => exact Nat.le_add_right _ _
  | cons l ls ih =>
    have hline := readWeight_line scan l
    have hrest := ih (scan.line l)
    have hsplit : textWeight (l :: ls) = textWeight [l] + textWeight ls := by
      unfold textWeight
      rw [← weights_append, ← filter_append]
      rfl
    rw [foldl_cons]
    omega

theorem readWeight_elsewhere (hheading : scan.heading = some name) (hr : name ≠ js "Request")
    (ha : name ≠ js "Acceptance criteria") (h : name = js "Comments" ∨ ∀ l ∈ ls, sectionHeading l = none) :
    readWeight (ls.foldl SectionScan.line scan).flush = readWeight scan.flush ∧
    (ls.foldl SectionScan.line scan).heading = some name := by
  obtain ⟨sections, heading, openLines⟩ := scan
  cases hheading
  have hfold : ls.foldl SectionScan.line ⟨sections, some name, openLines⟩ =
      ⟨sections, some name, openLines ++ ls⟩ := by
    rcases h with rfl | h
    · exact foldl_comments _ _ _
    · exact foldl_block h _ _ _
  rw [hfold]
  refine ⟨?_, rfl⟩
  show readWeight (sections.set name _) = readWeight (sections.set name _)
  rw [readWeight_set, readWeight_set, if_neg hr, if_neg ha, if_neg hr, if_neg ha]

theorem readWeight_tail (hpaths : PlainPaths todo) (scan : SectionScan) :
    readWeight ((partLines (attachmentParts todo) ++ (partLines (commentParts todo) ++ [[]])).foldl
      SectionScan.line scan).flush ≤ readWeight scan.flush := by
  have hblank : ∀ scan : SectionScan, readWeight (scan.line []).flush ≤ readWeight scan.flush := by
    intro scan
    have hline := readWeight_line scan []
    have hzero : textWeight [[]] = 0 := by decide
    omega
  have hrc : js "Comments" ≠ js "Request" := by decide
  have hac : js "Comments" ≠ js "Acceptance criteria" := by decide
  have hra : js "Attachments" ≠ js "Request" := by decide
  have haa : js "Attachments" ≠ js "Acceptance criteria" := by decide
  -- from the heading of the comments on
  have hcomments : ∀ scan : SectionScan, readWeight ((partLines (commentParts todo) ++ [[]]).foldl
      SectionScan.line scan).flush ≤ readWeight scan.flush := by
    intro scan
    rw [commentParts_lines]
    split
    · exact hblank scan
    rw [cons_append, cons_append, foldl_cons, foldl_cons]
    have hheading : ((scan.line []).line (js "## Comments")).heading = some (js "Comments") := by
      by_cases hopen : (scan.line []).heading = some (js "Comments")
      · generalize scan.line [] = scan' at hopen
        obtain ⟨sections, heading, openLines⟩ := scan'
        cases hopen
        rw [line_comments]
      · rw [line_some sectionHeading_comments hopen]
    have hrest : readWeight ((commentBlock todo ++ [[]]).foldl SectionScan.line
        ((scan.line []).line (js "## Comments"))).flush =
          readWeight ((scan.line []).line (js "## Comments")).flush :=
      (readWeight_elsewhere hheading hrc hac (.inl rfl)).1
    have hline := readWeight_line (scan.line []) (js "## Comments")
    have hzero : textWeight [js "## Comments"] = 0 := by decide
    have hfirst := hblank scan
    omega
  rw [foldl_append]
  refine le_trans (hcomments _) ?_
  rw [attachmentParts_lines hpaths]
  split
  · exact le_refl _
  have hentries : ∀ l ∈ [] :: todo.attachments.map (js "- " ++ ·), sectionHeading l = none := by
    intro l hl
    rcases mem_cons.1 hl with rfl | hl
    · rfl
    · obtain ⟨path, -, rfl⟩ := mem_map.1 hl
      exact sectionHeading_entry path
  have hline := readWeight_line (scan.line []) (js "## Attachments")
  have hzero : textWeight [js "## Attachments"] = 0 := by decide
  have hfirst := hblank scan
  have hrest : readWeight (([] :: todo.attachments.map (js "- " ++ ·)).foldl SectionScan.line
      ((scan.line []).line (js "## Attachments"))).flush =
        readWeight ((scan.line []).line (js "## Attachments")).flush := by
    by_cases hopen : (scan.line []).heading = some (js "Comments")
    · generalize scan.line [] = scan' at hopen
      obtain ⟨sections, heading, openLines⟩ := scan'
      cases hopen
      exact (readWeight_elsewhere rfl hrc hac (.inl rfl)).1
    · rw [line_some sectionHeading_attachments hopen]
      exact (readWeight_elsewhere rfl hra haa (.inr hentries)).1
  refine le_trans (le_of_eq hrest) ?_
  omega

theorem textWeight_append (ls ls' : List JsString) : textWeight (ls ++ ls') = textWeight ls + textWeight ls' := by
  unfold textWeight
  rw [filter_append, weights_append]

theorem textWeight_cons_nil (ls : List JsString) : textWeight ([] :: ls) = textWeight ls := by
  have hsplit := textWeight_append [[]] ls
  have hzero : textWeight [[]] = 0 := by decide
  rw [hzero, Nat.zero_add] at hsplit
  exact hsplit

theorem weight_read (hpaths : PlainPaths todo) :
    readWeight ((bodyLines todo).foldl SectionScan.line SectionScan.start).flush ≤
    textWeight (textLines todo.request) + textWeight (textLines todo.acceptance) := by
  have hbody : bodyLines todo =
      ([] :: js "## Request" :: [] :: (textLines todo.request ++ [] :: js "## Acceptance criteria" :: [] ::
        textLines todo.acceptance)) ++ (partLines (attachmentParts todo) ++
          (partLines (commentParts todo) ++ [[]])) := by
    unfold bodyLines
    rw [partLines_bodyParts]
    simp
  have hfold := readWeight_foldl SectionScan.start ([] :: js "## Request" :: [] :: (textLines todo.request ++
    [] :: js "## Acceptance criteria" :: [] :: textLines todo.acceptance))
  have hheading : ∀ ls, textWeight (js "## Request" :: ls) = textWeight ls := by
    intro ls
    unfold textWeight
    rw [filter_cons_of_neg]
    decide
  have hheading' : ∀ ls, textWeight (js "## Acceptance criteria" :: ls) = textWeight ls := by
    intro ls
    unfold textWeight
    rw [filter_cons_of_neg]
    decide
  have hstart : readWeight SectionScan.start.flush = 0 := rfl
  rw [textWeight_cons_nil, hheading, textWeight_cons_nil, textWeight_append, textWeight_cons_nil, hheading',
    textWeight_cons_nil, hstart, Nat.zero_add] at hfold
  rw [hbody, foldl_append]
  exact le_trans (readWeight_tail hpaths _) hfold

theorem weight_heading (h : sectionHeading l = some name) : 0 < weight l := by
  have hstart : startsWith l (js "##") = true := by
    unfold sectionHeading at h
    split at h
    · assumption
    · cases h
  obtain ⟨rest, rfl⟩ := isPrefixOf_iff_prefix.1 hstart
  have hmark : weight (js "##") = 2 := by decide
  rw [weight_append, hmark]
  omega

theorem noHeadings_of_weight (hpaths : PlainPaths todo)
    (h : readWeight ((bodyLines todo).foldl SectionScan.line SectionScan.start).flush =
      weight todo.request + weight todo.acceptance) :
    NoHeadings todo.request ∧ NoHeadings todo.acceptance := by
  have hread := weight_read hpaths
  have htext : ∀ s, weights (textLines s) = weight s := by
    intro s
    unfold textLines
    rw [weights_stripCr, weights_lines, weight_trimEnd]
  have hle : ∀ ls, textWeight ls ≤ weights ls := by
    intro ls
    induction ls with
    | nil => exact le_refl _
    | cons l ls ih =>
      have hsplit := textWeight_append [l] ls
      have hone : textWeight [l] ≤ weight l := by
        by_cases hl : sectionHeading l = none
        all_goals simp [textWeight, hl]
      rw [singleton_append] at hsplit
      rw [hsplit, weights_cons]
      omega
  -- a heading among the lines would be missing
  have hnone : ∀ ls, textWeight ls = weights ls → ∀ l ∈ ls, sectionHeading l = none := by
    intro ls heq l hl
    cases hname : sectionHeading l with
    | none => rfl
    | some name =>
      obtain ⟨before, after, rfl⟩ := append_of_mem hl
      have hpos := weight_heading hname
      have hbefore := hle before
      have hafter := hle after
      have hcons : textWeight (l :: after) = textWeight after := by
        simp [textWeight, hname]
      rw [textWeight_append, hcons, weights_append, weights_cons] at heq
      omega
  have hrequest := hle (textLines todo.request)
  have hacceptance := hle (textLines todo.acceptance)
  rw [htext] at hrequest hacceptance
  refine ⟨hnone _ ?_, hnone _ ?_⟩ <;> rw [htext]
  · omega
  · omega

end Wrenyard.Todos
