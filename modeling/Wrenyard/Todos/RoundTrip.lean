import Wrenyard.Todos.CommentLines
import Wrenyard.Todos.Dependencies

/-!
# The round trip of a todo

A todo that is written and read again is itself, up to the white space around its two sections, exactly where
`Survives` holds: the codec escapes what looks like a comment heading inside a comment, and nothing else.
-/

namespace Wrenyard.Todos

open Js List

variable {p : Platform} {todo : Todo}

theorem crlfToLf_append_ne (s : JsString) {t : JsString} (h : ∀ v ∈ t.head?, v ≠ lf) :
    crlfToLf (s ++ t) = crlfToLf s ++ crlfToLf t := by
  induction s using crlfToLf.induct with
  | case1 => rfl
  | case2 u =>
    cases t with
    | nil => rfl
    | cons v t =>
      have hne : ¬(u = cr ∧ v = lf) := fun heq => h v rfl heq.2
      show crlfToLf (u :: v :: t) = u :: crlfToLf (v :: t)
      rw [crlfToLf, if_neg hne]
  | case3 u v s hcrlf ih => simp only [cons_append, crlfToLf, if_pos hcrlf, ih]
  | case4 u v s hcrlf ih =>
    rw [cons_append] at ih
    simp only [cons_append, crlfToLf, if_neg hcrlf, ih]

variable {s : JsString}

theorem mem_of_mem_crlfToLf {u : UInt16} (h : u ∈ crlfToLf s) : u ∈ s := by
  induction s using crlfToLf.induct with
  | case1 | case2 => exact h
  | case3 v w s hcrlf ih =>
    rw [crlfToLf, if_pos hcrlf] at h
    rcases mem_cons.1 h with rfl | h
    · exact mem_cons_of_mem _ (hcrlf.2 ▸ mem_cons_self)
    · exact mem_cons_of_mem _ (mem_cons_of_mem _ (ih h))
  | case4 v w s hcrlf ih =>
    rw [crlfToLf, if_neg hcrlf] at h
    rcases mem_cons.1 h with rfl | h
    · exact mem_cons_self
    · exact mem_cons_of_mem _ (ih h)

theorem crlfToLf_eq_iff (s : JsString) : crlfToLf s = s ↔ ¬[cr, lf] <:+: s := by
  induction s using crlfToLf.induct with
  | case1 => simp [crlfToLf]
  | case2 u =>
    refine ⟨fun _ h => ?_, fun _ => rfl⟩
    have hlength := h.length_le
    simp at hlength
  | case3 u v s hcrlf ih =>
    obtain ⟨rfl, rfl⟩ := hcrlf
    refine ⟨fun h => ?_, fun h => ?_⟩
    · exact absurd (List.cons.inj h).1 (by decide)
    · exact absurd (prefix_append [cr, lf] s).isInfix h
  | case4 u v s hcrlf ih =>
    have hhead : ¬[cr, lf] <+: u :: v :: s := by
      rintro ⟨t, ht⟩
      obtain ⟨hu, ht⟩ := List.cons.inj ht
      exact hcrlf ⟨hu.symm, (List.cons.inj ht).1.symm⟩
    rw [crlfToLf, if_neg hcrlf, cons_inj_right, ih]
    constructor <;> intro h hin
    · rcases infix_cons_iff.1 hin with hin | hin
      · exact hhead hin
      · exact h hin
    · exact h (infix_cons_iff.2 (.inr hin))

theorem trimmed_crlfToLf (h : Trimmed s) : Trimmed (crlfToLf s) := by
  refine ⟨fun u hu => ?_, fun u hu => ?_⟩
  · cases s with
    | nil => cases hu
    | cons v s =>
      have hv := h.1 v rfl
      cases s with
      | nil =>
        cases hu
        exact hv
      | cons w s =>
        have hne : ¬(v = cr ∧ w = lf) := by
          rintro ⟨rfl, -⟩
          exact absurd hv (by decide)
        rw [crlfToLf, if_neg hne] at hu
        cases hu
        exact hv
  · cases hlast : s.getLast? with
    | none =>
      rw [List.getLast?_eq_none_iff.1 hlast] at hu
      cases hu
    | some w =>
      have hw := h.2 w hlast
      have hne : ∀ v ∈ [w].head?, v ≠ lf := by
        rintro v ⟨⟩ rfl
        cases hw
      rw [← dropLast_append_getLast? w hlast, crlfToLf_append_ne _ hne] at hu
      have hone : crlfToLf [w] = [w] := rfl
      rw [hone, List.getLast?_concat] at hu
      cases hu
      exact hw

theorem trim_textLines (s : JsString) : trim (unlines (textLines s)) = crlfToLf (trim s) := by
  obtain ⟨htrimmed, a, b, htrim, -, ha, -⟩ := trim_spec s
  have hhead : ∀ v ∈ (trim s).head?, v ≠ lf := by
    intro v hv
    have hspace := htrimmed.1 v hv
    rintro rfl
    exact absurd hspace (by decide)
  have hspace : ∀ u ∈ crlfToLf a, isSpace u = true := fun u hu => ha u (mem_of_mem_crlfToLf hu)
  have hwhole := trim_append (b := []) hspace (forall_mem_nil _) (trimmed_crlfToLf htrimmed)
  unfold textLines
  rw [← lines_crlfToLf (getLast?_trimEnd s), unlines_lines, htrim, crlfToLf_append_ne a hhead]
  rw [append_nil] at hwhole
  exact hwhole

/-! ### Attachments -/

theorem requireRelativePath_ok {value : Option Json} {id path : JsString}
    (h : requireRelativePath value id = .ok path) :
    ∃ entry, value = some (.str entry) ∧ path = trim entry ∧ trim entry ≠ [] := by
  unfold requireRelativePath at h
  split at h
  · rename_i entry
    split at h
    · cases h
    rename_i hne
    split at h
    · cases h
    split at h <;> cases h
    exact ⟨entry, rfl, rfl, hne⟩
  · cases h

theorem any_trim (h : s.any isTerminator = false) : (trim s).any isTerminator = false := by
  obtain ⟨-, a, b, htrim, hs, -, -⟩ := trim_spec s
  rw [hs, htrim] at h
  simp only [any_append, Bool.or_eq_false_iff] at h
  exact h.1.2

theorem spacedText_plain {rest text : JsString} (h : spacedText rest = some text) :
    text.any isTerminator = false := by
  unfold spacedText at h
  split at h
  · cases h
  split at h
  · obtain ⟨u, hu, rfl⟩ := Option.map_eq_some_iff.1 h
    have hplain := List.find?_some hu
    simpa using hplain
  · split at h <;> cases h
    rename_i hplain
    exact Bool.eq_false_iff.2 hplain

theorem parseAttachments_plain {text id : JsString} {paths : List JsString}
    (h : parseAttachments text id = .ok paths) :
    ∀ path ∈ paths, path.any isTerminator = false := by
  intro path hpath
  obtain ⟨entry, hentry, hcheck⟩ := Checks.exists_of_mem_mapM h hpath
  obtain ⟨l, -, hl⟩ := mem_filterMap.1 hentry
  obtain ⟨entry', heq, rfl, -⟩ := requireRelativePath_ok hcheck
  have hplain : entry.any isTerminator = false := by
    unfold attachmentEntry at hl
    split at hl
    · split at hl
      · exact spacedText_plain hl
      · cases hl
    · cases hl
  rw [← Json.str.inj (Option.some.inj heq)]
  exact any_trim hplain

theorem attachmentEntry_written {path : JsString} (hplain : path.any isTerminator = false) (htrim : trim path = path)
    (hne : path ≠ []) : attachmentEntry (js "- " ++ path) = some path := by
  have htrimmed := trimmed_of_trim htrim
  have hdrop : (32 :: path).dropWhile isSpace = path := by
    rw [dropWhile_cons_of_pos (by decide), dropWhile_space_eq htrimmed.1]
  have htake : (32 :: path).takeWhile isSpace ≠ [] := by
    exact cons_ne_nil _ _
  have hend : trimEnd path = path := by
    have happend := trimEnd_append htrimmed.2 (forall_mem_nil (isSpace · = true))
    rw [append_nil] at happend
    exact happend
  have hentry : attachmentEntry (45 :: 32 :: path) = spacedText (32 :: path) := rfl
  show attachmentEntry (45 :: 32 :: path) = some path
  rw [hentry]
  unfold spacedText
  rw [if_neg htake, hdrop, if_neg hne, hend, if_neg (by rw [hplain]; exact Bool.false_ne_true)]

theorem getLast?_unlines {ls : List JsString} {l : JsString} (hlast : ls.getLast? = some l) (hl : l ≠ []) :
    (unlines ls).getLast? = l.getLast? := by
  induction ls with
  | nil => cases hlast
  | cons l' ls ih =>
    cases ls with
    | nil =>
      cases hlast
      simp [unlines]
    | cons l'' ls =>
      have hrest := ih hlast
      rw [unlines_cons_cons, List.getLast?_append, List.getLast?_cons, hrest]
      cases hget : l.getLast? with
      | none => exact absurd (List.getLast?_eq_none_iff.1 hget) hl
      | some u => rfl

theorem parseAttachments_written {id : JsString} {paths : List JsString}
    (haccepted : requireAttachments (some (.arr (paths.map .str))) id = .ok paths)
    (hplain : ∀ path ∈ paths, path.any isTerminator = false) (hne : paths ≠ []) :
    parseAttachments (trim (unlines (paths.map (js "- " ++ ·)))) id = .ok paths := by
  have hmapM : paths.mapM (fun path => requireRelativePath (some (.str path)) id) = .ok paths := by
    have hall : (paths.map Json.str).mapM (fun entry => requireRelativePath (some entry) id) = .ok paths := haccepted
    rw [mapM_map] at hall
    exact hall
  have hpath : ∀ path ∈ paths, trim path = path ∧ path ≠ [] := by
    intro path hpath
    obtain ⟨path', -, hcheck⟩ := Checks.exists_of_mem_mapM hmapM hpath
    obtain ⟨entry, -, rfl, hentry⟩ := requireRelativePath_ok hcheck
    exact ⟨trim_of_trimmed (trim_spec entry).1, hentry⟩
  have hjs : js "- " = [45, 32] := by decide
  have hlf : ∀ l ∈ paths.map (js "- " ++ ·), lf ∉ l := by
    intro l hl hmem
    obtain ⟨path, hp, rfl⟩ := mem_map.1 hl
    rcases mem_append.1 hmem with hmem | hmem
    · exact absurd hmem (by decide)
    · exact absurd (any_eq_false.1 (hplain path hp) lf hmem) (by decide)
  have hnil : paths.map (js "- " ++ ·) ≠ [] := by simpa using hne
  have htrimmed : Trimmed (unlines (paths.map (js "- " ++ ·))) := by
    refine ⟨fun u hu => ?_, fun u hu => ?_⟩
    · cases paths with
      | nil => exact absurd rfl hne
      | cons path rest =>
        have hcons : ∃ more, unlines ((path :: rest).map (js "- " ++ ·)) = 45 :: more := by
          cases rest with
          | nil =>
            refine ⟨32 :: path, ?_⟩
            simp [unlines, hjs]
          | cons path' rest =>
            refine ⟨32 :: (path ++ lf :: unlines ((path' :: rest).map (js "- " ++ ·))), ?_⟩
            rfl
        obtain ⟨more, hmore⟩ := hcons
        rw [hmore] at hu
        cases hu
        decide
    · cases hlast : paths.getLast? with
      | none => exact absurd (List.getLast?_eq_none_iff.1 hlast) hne
      | some path =>
        have hmap : (paths.map (js "- " ++ ·)).getLast? = some (js "- " ++ path) := by
          rw [List.getLast?_map, hlast]
          rfl
        obtain ⟨htrim, hpne⟩ := hpath path (mem_of_getLast? hlast)
        rw [getLast?_unlines hmap (by simp [hjs]), List.getLast?_append_of_ne_nil _ hpne] at hu
        exact (trimmed_of_trim htrim).2 u hu
  have hentries : (paths.map (js "- " ++ ·)).filterMap attachmentEntry = paths := by
    clear hmapM haccepted hne hlf hnil htrimmed
    induction paths with
    | nil => rfl
    | cons path rest ih =>
      obtain ⟨htrim, hpne⟩ := hpath path mem_cons_self
      have hentry := attachmentEntry_written (hplain path mem_cons_self) htrim hpne
      have hrest := ih (fun q hq => hplain q (mem_cons_of_mem _ hq)) fun q hq => hpath q (mem_cons_of_mem _ hq)
      rw [map_cons, filterMap_cons_some (b := path) hentry, hrest]
  unfold parseAttachments
  rw [trim_of_trimmed htrimmed, lines_unlines hlf hnil, hentries]
  exact hmapM

def readSections (todo : Todo) : OMap JsString JsString := parseBodySections (readBody todo)

theorem readSections_eq (todo : Todo) :
    readSections todo = ((bodyLines todo).foldl SectionScan.line SectionScan.start).flush := by
  unfold readSections parseBodySections
  rw [lines_readBody]

theorem get_readSections (hrequest : NoHeadings todo.request) (hacceptance : NoHeadings todo.acceptance)
    (hpaths : PlainPaths todo) :
    (readSections todo).get (js "Request") = some (crlfToLf (trim todo.request)) ∧
      (readSections todo).get (js "Acceptance criteria") = some (crlfToLf (trim todo.acceptance)) ∧
      (readSections todo).get (js "Attachments") = (if todo.attachments = [] then none
        else some (trim (unlines (todo.attachments.map (js "- " ++ ·))))) ∧
      (readSections todo).has (js "Comments") = !decide (todo.comments = []) ∧
      (todo.comments = [] → (readSections todo).get (js "Result summary") = none) := by
  have hkeys : [js "Request", js "Acceptance criteria", js "Attachments", js "Comments",
      js "Result summary"].Nodup := by
    decide
  simp only [nodup_cons, mem_cons, not_mem_nil, or_false, not_or] at hkeys
  obtain ⟨⟨hra, hrt, hrc, hrs⟩, ⟨hat, hac, has⟩, ⟨htc, hts⟩, hcs, -⟩ := hkeys
  rw [readSections_eq, sections_written hrequest hacceptance hpaths, trim_textLines, trim_textLines]
  unfold OMap.has
  by_cases hatt : todo.attachments = [] <;> by_cases hcom : todo.comments = [] <;>
    simp [hatt, hcom, hra, hrt, hrc, hrs, hat, hac, has, htc, hts, hcs, Ne.symm htc]

structure Survives (p : Platform) (todo : Todo) : Prop where
  /-- No `\r\n` inside a section. -/
  returns : ¬[cr, lf] <:+: trim todo.request ∧ ¬[cr, lf] <:+: trim todo.acceptance
  /-- No line of a section looks like the heading of one. -/
  headings : NoHeadings todo.request ∧ NoHeadings todo.acceptance
  /-- No attachment has a line terminator. -/
  attachments : PlainPaths todo
  comments : ∀ comment ∈ todo.comments, CommentSurvives p comment

/-- A todo that the service can hold: every field passes its check. -/
structure Accepted (p : Platform) (todo : Todo) : Prop where
  id : idRe todo.id = true
  title : requireTitle (some (.str todo.title)) todo.id = .ok todo.title
  project : ∀ project ∈ todo.project, requireProject (some (.str project)) todo.id = .ok project
  depends_on : requireDependencies (some (.arr (todo.depends_on.map .str))) todo.id = .ok todo.depends_on
  created : isValidCommentTime p todo.created = true
  updated : isValidCommentTime p todo.updated = true
  attachments : requireAttachments (some (.arr (todo.attachments.map .str))) todo.id = .ok todo.attachments
  tags : requireTags (some (.arr (todo.tags.map .str))) todo.id = .ok todo.tags
  comments : ∀ comment ∈ todo.comments, HeldComment p comment
  commentIds : (todo.comments.map (·.id)).Nodup

def writtenFront (p : Platform) (todo : Todo) : JsString := crlfToLf (trimEnd (p.stringifyYaml (frontMatter todo)))

/-- What is relied on of the YAML package: it writes no line `---`, and reads its own text again. -/
structure ReadsFront (p : Platform) (todo : Todo) : Prop where
  fence : js "---" ∉ lines (writtenFront p todo)
  reads : p.parseYaml (writtenFront p todo) = some (.obj (frontMatter todo))
  readsFailsafe : p.parseFailsafe (writtenFront p todo) = some (.obj (frontMatter todo))

def Todo.trimmed (todo : Todo) : Todo :=
  { todo with request := trim todo.request, acceptance := trim todo.acceptance }

structure BodyReads (p : Platform) (todo : Todo) : Prop where
  request : trim todo.request = ((readSections todo).get (js "Request")).getD []
  acceptance : trim todo.acceptance = ((readSections todo).get (js "Acceptance criteria")).getD []
  attachments : parseAttachments (((readSections todo).get (js "Attachments")).getD []) todo.id = .ok todo.attachments
  comments : parseComments p (readBody todo) todo.updated todo.id = .ok todo.comments

theorem parseComments_readBody (haccepted : Accepted p todo) (hrequest : NoHeadings todo.request)
    (hacceptance : NoHeadings todo.acceptance) (hpaths : PlainPaths todo) :
    parseComments p (readBody todo) todo.updated todo.id = .ok todo.comments ↔
    ∀ comment ∈ todo.comments, CommentSurvives p comment := by
  obtain ⟨-, -, -, hhas, hlegacy⟩ := get_readSections hrequest hacceptance hpaths
  unfold readSections at hhas hlegacy
  unfold parseComments
  by_cases hnil : todo.comments = []
  · simp only [hhas, hlegacy hnil, hnil, decide_true, Bool.not_true, Bool.false_eq_true, if_false]
    exact ⟨fun _ => forall_mem_nil _, fun _ => trivial⟩
  have hsome : (parseBodySections (readBody todo)).has (js "Comments") = true := by
    rw [hhas]
    simpa using hnil
  rw [← comments_read haccepted.comments,
    ← commentLines_readBody hrequest hacceptance hpaths hnil haccepted.comments]
  simp only [hsome, if_true]
  constructor <;> intro h
  · split at h
    · cases h
    · exact Except.ok.inj h
  · rw [h, if_neg (not_not_intro haccepted.commentIds)]

theorem bodyReads_iff (haccepted : Accepted p todo) : BodyReads p todo ↔ Survives p todo := by
  constructor
  · intro h
    have hpaths : PlainPaths todo := parseAttachments_plain h.attachments
    -- the whole weight of both sections is read, so that no line of them was taken for a heading
    have hweight : readWeight ((bodyLines todo).foldl SectionScan.line SectionScan.start).flush =
        weight todo.request + weight todo.acceptance := by
      unfold readWeight
      rw [← readSections_eq, ← h.request, ← h.acceptance, weight_trim, weight_trim]
    obtain ⟨hrequest, hacceptance⟩ := noHeadings_of_weight hpaths hweight
    obtain ⟨hgetRequest, hgetAcceptance, -⟩ := get_readSections hrequest hacceptance hpaths
    have hreturns := h.request
    have hreturns' := h.acceptance
    rw [hgetRequest, Option.getD_some] at hreturns
    rw [hgetAcceptance, Option.getD_some] at hreturns'
    exact ⟨⟨(crlfToLf_eq_iff _).1 hreturns.symm, (crlfToLf_eq_iff _).1 hreturns'.symm⟩,
      ⟨hrequest, hacceptance⟩, hpaths,
      (parseComments_readBody haccepted hrequest hacceptance hpaths).1 h.comments⟩
  · intro h
    obtain ⟨hrequest, hacceptance⟩ := h.headings
    obtain ⟨hgetRequest, hgetAcceptance, hgetAttachments, -⟩ := get_readSections hrequest hacceptance h.attachments
    refine ⟨?_, ?_, ?_, (parseComments_readBody haccepted hrequest hacceptance h.attachments).2 h.comments⟩
    · rw [hgetRequest, Option.getD_some, (crlfToLf_eq_iff _).2 h.returns.1]
    · rw [hgetAcceptance, Option.getD_some, (crlfToLf_eq_iff _).2 h.returns.2]
    · rw [hgetAttachments]
      split
      · rename_i hnil
        rw [hnil]
        rfl
      · rename_i hnil
        exact parseAttachments_written haccepted.attachments h.attachments hnil

theorem get_frontMatter (todo : Todo) :
    (frontMatter todo).get (js "id") = some (.str todo.id) ∧
      (frontMatter todo).get (js "title") = some (.str todo.title) ∧
      (frontMatter todo).get (js "status") = some (.str todo.status.text) ∧
      (frontMatter todo).get (js "project") = todo.project.map .str ∧
      (frontMatter todo).get (js "tags") = (if todo.tags = [] then none else some (.arr (todo.tags.map .str))) ∧
      (frontMatter todo).get (js "created") = some (.str todo.created) ∧
      (frontMatter todo).get (js "updated") = some (.str todo.updated) := by
  refine ⟨?_, ?_, ?_, ?_, ?_, ?_, ?_⟩
  all_goals
    refine (OMap.get_ofFields ?_ _).trans ?_
    · exact nodup_frontMatter
    · rfl

theorem checkFields_frontMatter (todo : Todo) (id : JsString) : checkFields (frontMatter todo) id = .ok () := by
  have hsub : ∀ k ∈ OMap.keys (frontMatter todo), k ∈ FRONT_MATTER_KEYS := by
    intro k hk
    have hmem := (OMap.keys_ofFields_sublist _).subset hk
    have hall : ∀ key ∈ [js "id", js "title", js "status", js "project", js "depends_on", js "tags", js "created",
        js "updated"], key ∈ FRONT_MATTER_KEYS := by decide
    exact hall k hmem
  have hnone : (OMap.keys (frontMatter todo)).find? (· ∉ FRONT_MATTER_KEYS) = none := by
    rw [List.find?_eq_none]
    intro k hk
    simpa using hsub k hk
  unfold checkFields
  rw [hnone]

theorem scalarTexts_self (value : Option Json) : scalarTexts value value = value := by
  unfold scalarTexts
  split
  · exact if_pos rfl
  · rfl

/-- A written file parses to the todo where its body reads back: the front matter always does. -/
theorem parse_written (haccepted : Accepted p todo) (hfront : ReadsFront p todo) :
    parseTodoFile p todo.id (serializeTodo p todo) = .ok todo.trimmed ↔ BodyReads p todo := by
  obtain ⟨hid, htitle, hstatus, hproject, htags, hcreated, hupdated⟩ := get_frontMatter todo
  have hdepends : (frontMatter todo).get (js "depends_on") =
      if todo.depends_on = [] then none else some (.arr (todo.depends_on.map .str)) := get_dependsOn todo
  have hsplit : splitFrontMatter (serializeTodo p todo) todo.id = .ok (writtenFront p todo, readBody todo) := by
    have hne : bodyParts todo ≠ [] := cons_ne_nil _ _
    rw [serializeTodo_eq, splitFrontMatter_fenced (getLast?_trimEnd _) hfront.fence, crlfToLf_parts hne]
    rfl
  rw [parseTodoFile_eq_ok]
  constructor
  · rintro ⟨front, body, record, decoded, hsplit', h⟩
    rw [hsplit] at hsplit'
    cases hsplit'
    exact ⟨h.request, h.acceptance, h.attachments, h.comments⟩
  · intro h
    refine ⟨_, _, frontMatter todo, .obj (frontMatter todo), hsplit, ?_⟩
    refine ⟨?_, ?_, checkFields_frontMatter todo todo.id, rfl, ?_, ?_, ?_, ?_, ?_, ?_, ?_, ?_, h.request,
      h.acceptance,
      h.attachments, h.comments⟩
    · unfold decodeFront
      rw [hfront.reads]
    · unfold decodeFailsafe
      rw [hfront.readsFailsafe]
    · refine ⟨_, todo.id, congrArg Except.ok hid, ?_, ?_⟩
      · show (if idRe todo.id = true then Except.ok todo.id else _) = .ok todo.id
        exact if_pos haccepted.id
      · exact if_pos rfl
    · exact haccepted.title
    · have hall : ∀ status : TodoStatus, TODO_STATUSES.find? (·.text = status.text) = some status := by
        intro status
        cases status <;> decide
      rw [hstatus]
      unfold requireStatus
      simp only [hall todo.status]
      rfl
    · rw [hproject]
      cases hp : todo.project with
      | none =>
        show Except.ok none = Except.ok todo.project
        rw [hp]
      | some project =>
        show (some <$> requireProject (some (.str project)) todo.id) = .ok todo.project
        rw [haccepted.project project hp, hp]
        rfl
    · refine ⟨_, congrArg Except.ok hdepends, ?_⟩
      rw [hdepends, scalarTexts_self]
      split
      · rename_i hnil
        show Except.ok [] = Except.ok todo.depends_on
        rw [hnil]
      · exact haccepted.depends_on
    · refine ⟨_, congrArg Except.ok htags, ?_⟩
      rw [htags, scalarTexts_self]
      split
      · rename_i hnil
        show Except.ok [] = Except.ok todo.tags
        rw [hnil]
      · exact haccepted.tags
    · rw [hcreated]
      show (if isValidCommentTime p todo.created = true then Except.ok todo.created else _) = .ok todo.created
      exact if_pos haccepted.created
    · rw [hupdated]
      show (if isValidCommentTime p todo.updated = true then Except.ok todo.updated else _) = .ok todo.updated
      exact if_pos haccepted.updated

/-- A todo that is written and read again is itself, up to the white space around its sections, exactly where no
section has a line like a heading or a `\r\n`, no attachment a line terminator and no author the separator, and every
line of a comment comes back. -/
theorem round_trip_iff (haccepted : Accepted p todo) (hfront : ReadsFront p todo) :
    parseTodoFile p todo.id (serializeTodo p todo) = .ok todo.trimmed ↔ Survives p todo :=
  (parse_written haccepted hfront).trans (bodyReads_iff haccepted)

/-- A comment whose second line looks like a heading. -/
def sampleComment : TodoComment :=
  ⟨js "0a1b2c", js "ann", sampleTime, js "see\n### 0a1b2c · bob · 2026-01-02T03:04:05.000Z"⟩

def commentedTodo : Todo :=
  { sampleTodo with
    request := js "Do it\n---\n- well\n"
    acceptance := js "It is done"
    attachments := [js "docs/a.md"]
    comments := [sampleComment] }

theorem accepted_commentedTodo : Accepted samplePlatform.toPlatform commentedTodo where
  id := by decide
  title := by decide
  project := by rintro project ⟨⟩
  depends_on := by decide
  created := by decide
  updated := by decide
  attachments := by decide
  tags := by decide
  comments := by
    intro comment hcomment
    rw [mem_singleton.1 hcomment]
    have hunits : sampleComment.id.all isHex = true := by decide
    exact ⟨by decide, all_eq_true.1 hunits, by decide, by decide, by decide,
      by decide⟩
  commentIds := nodup_singleton _

theorem readsFront_sample {todo : Todo} (h : frontMatter todo = frontMatter sampleTodo) :
    ReadsFront samplePlatform.toPlatform todo := by
  have hfront : writtenFront samplePlatform.toPlatform todo = sampleFront := by
    unfold writtenFront
    rw [h]
    decide
  refine ⟨?_, ?_, ?_⟩
  · rw [hfront]
    decide
  · rw [hfront, h, parseYaml_sample, if_pos rfl]
  · rw [hfront, h]
    exact (parseYaml_sample sampleFront).trans (if_pos rfl)

theorem round_trip_iff_sample :
    parseTodoFile samplePlatform.toPlatform (js "a1") (serializeTodo samplePlatform.toPlatform commentedTodo) =
    .ok commentedTodo.trimmed ↔ Survives samplePlatform.toPlatform commentedTodo :=
  round_trip_iff accepted_commentedTodo (readsFront_sample rfl)

/-- A request with a line like the heading of another section. -/
def splitTodo : Todo := { sampleTodo with request := js "a\n## Acceptance criteria\nb" }

theorem accepted_splitTodo : Accepted samplePlatform.toPlatform splitTodo where
  id := by decide
  title := by decide
  project := by rintro project ⟨⟩
  depends_on := by decide
  created := by decide
  updated := by decide
  attachments := by decide
  tags := by decide
  comments := by rintro comment ⟨⟩
  commentIds := List.nodup_nil

/-- The second part of the request is read as acceptance criteria, and lost to the empty ones that are written
below. -/
theorem splitTodo_lost : Accepted samplePlatform.toPlatform splitTodo ∧
    ReadsFront samplePlatform.toPlatform splitTodo ∧
    parseTodoFile samplePlatform.toPlatform (js "a1") (serializeTodo samplePlatform.toPlatform splitTodo) =
      .ok { splitTodo with request := js "a" } ∧
    parseTodoFile samplePlatform.toPlatform splitTodo.id (serializeTodo samplePlatform.toPlatform splitTodo) ≠
      .ok splitTodo.trimmed := by
  have hread : parseTodoFile samplePlatform.toPlatform (js "a1") (serializeTodo samplePlatform.toPlatform splitTodo) =
      .ok { splitTodo with request := js "a" } := by decide
  refine ⟨accepted_splitTodo, readsFront_sample rfl, hread, ?_⟩
  decide

end Wrenyard.Todos
