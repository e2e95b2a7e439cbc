import Wrenyard.Lib.Checks
import Wrenyard.Todos.Markdown

/-!
# What a parsed file says

`parseTodoFile` is a row of checks; `ParsedAs` has the result of each.
-/

namespace Wrenyard.Todos

open Js

variable {p : Platform} {id content : JsString} {todo : Todo}

structure ParsedAs (p : Platform) (id : JsString) (todo : Todo) (front body : JsString) (record : OMap JsString Json)
    (decoded : Json) : Prop where
  record_eq : decodeFront p front id = .ok record
  decoded_eq : decodeFailsafe p front id = .ok decoded
  fields : checkFields record id = .ok ()
  id_eq : todo.id = id
  declared : ∃ value declaredId, failsafeMember decoded (js "id") id = .ok value ∧
    requireTodoId value (js "Todo " ++ id) = .ok declaredId ∧ checkDeclaredId declaredId id = .ok ()
  title : requireTitle (record.get (js "title")) id = .ok todo.title
  status : requireStatus (record.get (js "status")) id = .ok todo.status
  project : readProject (record.get (js "project")) id = .ok todo.project
  dependsOn : ∃ value, failsafeMember decoded (js "depends_on") id = .ok value ∧
    requireDependencies (scalarTexts (record.get (js "depends_on")) value) id = .ok todo.depends_on
  tags : ∃ value, failsafeMember decoded (js "tags") id = .ok value ∧
    requireTags (scalarTexts (record.get (js "tags")) value) id = .ok todo.tags
  created : requireTimestamp p (record.get (js "created")) id (js "created") = .ok todo.created
  updated : requireTimestamp p (record.get (js "updated")) id (js "updated") = .ok todo.updated
  request : todo.request = ((parseBodySections body).get (js "Request")).getD []
  acceptance : todo.acceptance = ((parseBodySections body).get (js "Acceptance criteria")).getD []
  attachments : parseAttachments (((parseBodySections body).get (js "Attachments")).getD []) id = .ok todo.attachments
  comments : parseComments p body todo.updated id = .ok todo.comments

theorem parseTodoFile_eq_ok : parseTodoFile p id content = .ok todo ↔
    ∃ front body record decoded, splitFrontMatter content id = .ok (front, body) ∧
    ParsedAs p id todo front body record decoded := by
  constructor
  · intro h
    obtain ⟨⟨front, body⟩, hsplit, h⟩ := Checks.bind_eq_ok.1 h
    obtain ⟨record, hrecord, h⟩ := Checks.bind_eq_ok.1 h
    obtain ⟨decoded, hdecoded, h⟩ := Checks.bind_eq_ok.1 h
    obtain ⟨_, hfields, h⟩ := Checks.bind_eq_ok.1 h
    obtain ⟨value, hvalue, h⟩ := Checks.bind_eq_ok.1 h
    obtain ⟨declaredId, hdeclared, h⟩ := Checks.bind_eq_ok.1 h
    obtain ⟨_, hcheck, h⟩ := Checks.bind_eq_ok.1 h
    obtain ⟨title, htitle, h⟩ := Checks.bind_eq_ok.1 h
    obtain ⟨status, hstatus, h⟩ := Checks.bind_eq_ok.1 h
    obtain ⟨project, hproject, h⟩ := Checks.bind_eq_ok.1 h
    obtain ⟨dependsOnValue, hdependsOnValue, h⟩ := Checks.bind_eq_ok.1 h
    obtain ⟨tagsValue, htagsValue, h⟩ := Checks.bind_eq_ok.1 h
    obtain ⟨dependsOn, hdependsOn, h⟩ := Checks.bind_eq_ok.1 h
    obtain ⟨created, hcreated, h⟩ := Checks.bind_eq_ok.1 h
    obtain ⟨updated, hupdated, h⟩ := Checks.bind_eq_ok.1 h
    obtain ⟨attachments, hattachments, h⟩ := Checks.bind_eq_ok.1 h
    obtain ⟨tags, htags, h⟩ := Checks.bind_eq_ok.1 h
    obtain ⟨comments, hcomments, h⟩ := Checks.bind_eq_ok.1 h
    cases h
    exact ⟨front, body, record, decoded, hsplit, hrecord, hdecoded, hfields, rfl,
      ⟨value, declaredId, hvalue, hdeclared, hcheck⟩, htitle, hstatus, hproject, ⟨_, hdependsOnValue, hdependsOn⟩,
      ⟨_, htagsValue, htags⟩, hcreated, hupdated, rfl, rfl, hattachments, hcomments⟩
  · rintro ⟨front, body, record, decoded, hsplit, h⟩
    obtain ⟨value, declaredId, hvalue, hdeclared, hcheck⟩ := h.declared
    obtain ⟨dependsOnValue, hdependsOnValue, hdependsOn⟩ := h.dependsOn
    obtain ⟨tagsValue, htagsValue, htags⟩ := h.tags
    refine Checks.bind_eq_ok.2 ⟨_, hsplit, ?_⟩
    refine Checks.bind_eq_ok.2 ⟨_, h.record_eq, ?_⟩
    refine Checks.bind_eq_ok.2 ⟨_, h.decoded_eq, ?_⟩
    refine Checks.bind_eq_ok.2 ⟨_, h.fields, ?_⟩
    refine Checks.bind_eq_ok.2 ⟨_, hvalue, ?_⟩
    refine Checks.bind_eq_ok.2 ⟨_, hdeclared, ?_⟩
    refine Checks.bind_eq_ok.2 ⟨_, hcheck, ?_⟩
    refine Checks.bind_eq_ok.2 ⟨_, h.title, ?_⟩
    refine Checks.bind_eq_ok.2 ⟨_, h.status, ?_⟩
    refine Checks.bind_eq_ok.2 ⟨_, h.project, ?_⟩
    refine Checks.bind_eq_ok.2 ⟨_, hdependsOnValue, ?_⟩
    refine Checks.bind_eq_ok.2 ⟨_, htagsValue, ?_⟩
    refine Checks.bind_eq_ok.2 ⟨_, hdependsOn, ?_⟩
    refine Checks.bind_eq_ok.2 ⟨_, h.created, ?_⟩
    refine Checks.bind_eq_ok.2 ⟨_, h.updated, ?_⟩
    refine Checks.bind_eq_ok.2 ⟨_, h.attachments, ?_⟩
    refine Checks.bind_eq_ok.2 ⟨_, htags, ?_⟩
    refine Checks.bind_eq_ok.2 ⟨_, h.comments, ?_⟩
    have heta : todo = { todo with id, request := todo.request } := by rw [← h.id_eq]
    rw [heta, h.request, h.acceptance]

theorem requireTodoId_ok {value : Option Json} {context id : JsString} (h : requireTodoId value context = .ok id) :
    value = some (.str id) ∧ idRe id = true := by
  unfold requireTodoId at h
  split at h
  · split at h <;> cases h
    rename_i hid
    exact ⟨rfl, hid⟩
  · cases h

theorem ParsedAs.wellFormed {front body : JsString} {record : OMap JsString Json} {decoded : Json}
    (h : ParsedAs p id todo front body record decoded) : idRe id = true := by
  obtain ⟨value, declaredId, -, hdeclared, hcheck⟩ := h.declared
  unfold checkDeclaredId at hcheck
  split at hcheck
  · rename_i heq
    exact heq ▸ (requireTodoId_ok hdeclared).2
  · cases hcheck

theorem parseTodoFile_id (h : parseTodoFile p id content = .ok todo) : todo.id = id ∧ idRe id = true := by
  obtain ⟨front, body, record, decoded, -, hparsed⟩ := parseTodoFile_eq_ok.1 h
  exact ⟨hparsed.id_eq, hparsed.wellFormed⟩

theorem crlfToLf_append {s t : JsString} (h : s.getLast? ≠ some cr) :
    crlfToLf (s ++ lf :: t) = crlfToLf s ++ lf :: crlfToLf t := by
  have hlf : ∀ t, crlfToLf (lf :: t) = lf :: crlfToLf t := by
    intro t
    cases t with
    | nil => rfl
    | cons v t =>
      have hne : ¬(lf = cr ∧ v = lf) := fun heq => absurd heq.1 (by decide)
      rw [crlfToLf, if_neg hne]
  induction s using crlfToLf.induct with
  | case1 => exact hlf t
  | case2 u =>
    have hu : ¬(u = cr ∧ lf = lf) := fun heq => h (congrArg some heq.1)
    show crlfToLf (u :: lf :: t) = u :: lf :: crlfToLf t
    rw [crlfToLf, if_neg hu, hlf]
  | case3 u v s hcrlf ih =>
    have hs : s.getLast? ≠ some cr := by
      intro hlast
      rw [List.getLast?_cons, List.getLast?_cons, hlast] at h
      exact h rfl
    simp only [List.cons_append, crlfToLf, if_pos hcrlf, ih hs]
  | case4 u v s hcrlf ih =>
    have hs : (v :: s).getLast? ≠ some cr := by
      exact h
    have hrest := ih hs
    rw [List.cons_append] at hrest
    simp only [List.cons_append, crlfToLf, if_neg hcrlf, hrest]

theorem lines_append (s t : JsString) : lines (s ++ lf :: t) = lines s ++ lines t := by
  exact List.splitOnP_append_cons _ _ (by decide)

theorem untilFence_append {front : List JsString} (h : js "---" ∉ front) (rest : List JsString) :
    untilFence (front ++ js "---" :: rest) = some (front, rest) := by
  induction front with
  | nil => rfl
  | cons l front ih =>
    have hl : l ≠ js "---" := fun heq => h (heq ▸ List.mem_cons_self)
    rw [List.cons_append, untilFence, if_neg hl, ih fun hmem => h (List.mem_cons_of_mem _ hmem)]
    rfl

theorem splitFrontMatter_fenced {front : JsString} (hcr : front.getLast? ≠ some cr)
    (hfence : js "---" ∉ lines (crlfToLf front)) (body id : JsString) :
    splitFrontMatter (js "---" ++ lf :: (front ++ lf :: (js "---" ++ lf :: body))) id =
      .ok (crlfToLf front, crlfToLf body) := by
  have hrule : (js "---").getLast? ≠ some cr := by decide
  have hlines : lines (js "---") = [js "---"] := by decide
  unfold splitFrontMatter
  rw [crlfToLf_append hrule, crlfToLf_append hcr, crlfToLf_append hrule]
  have hsame : crlfToLf (js "---") = js "---" := by decide
  rw [hsame, lines_append, lines_append, lines_append, hlines]
  cases hfront : lines (crlfToLf front) with
  | nil => exact absurd hfront (lines_ne_nil _)
  | cons second more =>
    rw [hfront] at hfence
    have huntil := untilFence_append (fun hmem => hfence (List.mem_cons_of_mem _ hmem)) (lines (crlfToLf body))
    simp only [List.cons_append, List.nil_append, if_true, huntil, unlines_lines]
    rw [← hfront, unlines_lines]

theorem serializeTodo_eq (p : Platform) (todo : Todo) :
    serializeTodo p todo = js "---" ++ lf :: (trimEnd (p.stringifyYaml (frontMatter todo)) ++
      lf :: (js "---" ++ lf :: (unlines (bodyParts todo) ++ [lf]))) := by
  have hcons : ∀ (l l' : JsString) (ls : List JsString), unlines (l :: l' :: ls) = l ++ lf :: unlines (l' :: ls) := by
    intro l l' ls
    unfold unlines
    simp
  have hparts : ∃ part parts, bodyParts todo = part :: parts := ⟨_, _, rfl⟩
  obtain ⟨part, parts, hparts⟩ := hparts
  unfold serializeTodo
  rw [hparts]
  show unlines (js "---" :: trimEnd (p.stringifyYaml (frontMatter todo)) :: js "---" :: part :: parts) ++ [lf] = _
  rw [hcons, hcons, hcons]
  simp

end Wrenyard.Todos
