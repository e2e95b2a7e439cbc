import Wrenyard.Js.JsonRoundTrip
import Wrenyard.Todos.Reconciling

/-!
# Dependencies

The recorded dependencies are those of the todos that parse, between todos that parse.  A write adds a todo that was
checked against the others, or writes the dependencies of a todo again; what it writes reads back with the same
dependencies or does not parse at all.  A removal takes edges away.  So a graph without cycles stays one
(`acyclic_step`).
-/

namespace Wrenyard.Todos

open Js Stateful Transition List

variable {p : ServicePlatform} {stamps : Stamps} {h : Host}

/-! ### The graph of a list of todos -/

/-- `other` is a dependency that `todo` records on a todo there is. -/
def Depends (todos : List Todo) (id other : JsString) : Prop :=
  ∃ todo ∈ todos, todo.id = id ∧ other ∈ todo.depends_on ∧ ∃ todo' ∈ todos, todo'.id = other

def AcyclicTodos (todos : List Todo) : Prop := ∀ id, ¬Relation.TransGen (Depends todos) id id

variable {todos : List Todo}

/-- Todos that are among others, up to what is no dependency, have no cycle where the others have none. -/
theorem AcyclicTodos.mono {todos' : List Todo} (h : AcyclicTodos todos)
    (hsub : ∀ todo' ∈ todos', ∃ todo ∈ todos, todo.id = todo'.id ∧ todo.depends_on = todo'.depends_on) :
    AcyclicTodos todos' := by
  have hedge : ∀ id other, Depends todos' id other → Depends todos id other := by
    rintro _ _ ⟨todo', htodo', rfl, hmem, other', hother', rfl⟩
    obtain ⟨todo, htodo, hid, hdeps⟩ := hsub todo' htodo'
    obtain ⟨other, hother, hotherId, -⟩ := hsub other' hother'
    exact ⟨todo, htodo, hid, hdeps ▸ hmem, other, hother, hotherId⟩
  exact fun id hcycle => h id (Relation.TransGen.mono hedge id id hcycle)

def withTodo (todos : List Todo) (next : Todo) : List Todo := todos.filter (·.id ≠ next.id) ++ [next]

theorem get_dependencyGraph_foldl (todos : List Todo) (next : Todo) (graph : OMap JsString (List JsString))
    (hn : (todos.map Todo.id).Nodup) (hfresh : ∀ todo ∈ todos, todo.id ∉ graph.keys) :
    todos.foldl (fun graph other => if other.id = next.id then graph else graph.set other.id other.depends_on)
      graph = graph ++ (todos.filter (·.id ≠ next.id)).map fun todo => (todo.id, todo.depends_on) := by
  induction todos generalizing graph with
  | nil => simp
  | cons todo todos ih =>
    rw [map_cons, nodup_cons] at hn
    rw [foldl_cons]
    by_cases hid : todo.id = next.id
    · rw [if_pos hid, ih graph hn.2 fun other ho => hfresh other (mem_cons_of_mem _ ho)]
      simp [hid]
    have hset := OMap.set_of_not_mem (hfresh todo mem_cons_self) todo.depends_on
    rw [if_neg hid, hset, ih _ hn.2 ?_]
    · simp [hid]
    · intro other ho hmem
      unfold OMap.keys at hmem
      rw [map_append, mem_append] at hmem
      rcases hmem with hmem | hmem
      · exact hfresh other (mem_cons_of_mem _ ho) hmem
      · rw [map_singleton, mem_singleton] at hmem
        have heq : other.id = todo.id := hmem
        exact hn.1 (heq ▸ mem_map_of_mem ho)

theorem dependencyGraph_eq (hn : (todos.map Todo.id).Nodup) (next : Todo) :
    dependencyGraph todos next = (withTodo todos next).map fun todo => (todo.id, todo.depends_on) := by
  unfold dependencyGraph withTodo
  rw [get_dependencyGraph_foldl todos next [] hn fun _ _ hmem => by cases hmem]
  rw [nil_append, OMap.set_of_not_mem, map_append]
  · rfl
  · intro hmem
    unfold OMap.keys at hmem
    rw [map_map, mem_map] at hmem
    obtain ⟨todo, htodo, heq⟩ := hmem
    have hne := (mem_filter.1 htodo).2
    exact of_decide_eq_true hne heq

theorem nodup_withTodo (hn : (todos.map Todo.id).Nodup) (next : Todo) :
    ((withTodo todos next).map Todo.id).Nodup := by
  unfold withTodo
  rw [map_append, nodup_append]
  refine ⟨hn.sublist (filter_sublist.map _), nodup_singleton _, fun id hid id' hid' heq => ?_⟩
  obtain ⟨todo, htodo, rfl⟩ := mem_map.1 hid
  have hne := (mem_filter.1 htodo).2
  rw [map_singleton, mem_singleton] at hid'
  exact of_decide_eq_true hne (heq.trans hid')

variable {id : JsString}

theorem mem_knownDependencies (hn : (todos.map Todo.id).Nodup) {other : JsString} :
    other ∈ knownDependencies (todos.map fun todo => (todo.id, todo.depends_on)) id ↔ Depends todos id other := by
  have hkeys : OMap.keys (todos.map fun todo => (todo.id, todo.depends_on)) = todos.map Todo.id := by
    unfold OMap.keys
    rw [map_map]
    rfl
  have hnodup : (OMap.keys (todos.map fun todo => (todo.id, todo.depends_on))).Nodup := by
    rw [hkeys]
    exact hn
  unfold knownDependencies
  rw [mem_filter, OMap.has_eq_true_iff, hkeys, mem_map]
  constructor
  · rintro ⟨hmem, hknown⟩
    cases hget : OMap.get (todos.map fun todo => (todo.id, todo.depends_on)) id <;> rw [hget] at hmem
    case none => cases hmem
    case some deps =>
      obtain ⟨todo, htodo, heq⟩ := mem_map.1 (OMap.mem_of_get hget)
      cases heq
      exact ⟨todo, htodo, rfl, hmem, hknown⟩
  · rintro ⟨todo, htodo, rfl, hmem, hknown⟩
    have hget := OMap.get_of_mem hnodup (mem_map_of_mem (f := fun todo : Todo => (todo.id, todo.depends_on)) htodo)
    rw [hget]
    exact ⟨hmem, hknown⟩

theorem assertAcyclic_iff (hn : (todos.map Todo.id).Nodup) (id : JsString) :
    assertAcyclic id (todos.map fun todo => (todo.id, todo.depends_on)) = .ok () ↔ AcyclicTodos todos := by
  have hkeys : OMap.keys (todos.map fun todo => (todo.id, todo.depends_on)) = todos.map Todo.id := by
    unfold OMap.keys
    rw [map_map]
    rfl
  have hedge : (fun x y => y ∈ knownDependencies (todos.map fun todo => (todo.id, todo.depends_on)) x) =
      Depends todos := by
    funext x y
    exact propext (mem_knownDependencies hn)
  have hwalk : (∃ done, DepthFirst.visitAll (knownDependencies (todos.map fun todo => (todo.id, todo.depends_on)))
      ((OMap.keys (todos.map fun todo => (todo.id, todo.depends_on))).length + 1)
      (OMap.keys (todos.map fun todo => (todo.id, todo.depends_on))) = .ok done) ↔
      DepthFirst.Acyclic (knownDependencies (todos.map fun todo => (todo.id, todo.depends_on))) := by
    refine DepthFirst.visitAll_ok_iff (fun a _ b hb => ?_) fun a ha => ?_
    · obtain ⟨_, _, _, _, todo', htodo', rfl⟩ := (mem_knownDependencies hn).1 hb
      rw [hkeys]
      exact mem_map_of_mem htodo'
    · obtain ⟨b, hb⟩ := exists_mem_of_ne_nil _ ha
      obtain ⟨todo, htodo, rfl, _⟩ := (mem_knownDependencies hn).1 hb
      rw [hkeys]
      exact mem_map_of_mem htodo
  have hacyclic : DepthFirst.Acyclic (knownDependencies (todos.map fun todo => (todo.id, todo.depends_on))) ↔
      AcyclicTodos todos := by
    unfold DepthFirst.Acyclic AcyclicTodos
    rw [hedge]
  rw [← hacyclic, ← hwalk]
  unfold assertAcyclic
  cases DepthFirst.visitAll (knownDependencies (todos.map fun todo => (todo.id, todo.depends_on)))
      ((OMap.keys (todos.map fun todo => (todo.id, todo.depends_on))).length + 1)
      (OMap.keys (todos.map fun todo => (todo.id, todo.depends_on))) with
  | ok done => exact ⟨fun _ => ⟨done, rfl⟩, fun _ => rfl⟩
  | error e =>
    constructor
    · exact nofun
    · rintro ⟨done, hdone⟩
      cases hdone

def KnownDependencies (todos : List Todo) (next : Todo) : Prop :=
  ∀ dependency ∈ next.depends_on, ∃ todo ∈ withTodo todos next, todo.id = dependency

theorem assertKnown_iff (hn : (todos.map Todo.id).Nodup) (next : Todo) :
    assertKnown next (dependencyGraph todos next) = .ok () ↔ KnownDependencies todos next := by
  have hhas : ∀ dependency, (dependencyGraph todos next).has dependency = true ↔
      ∃ todo ∈ withTodo todos next, todo.id = dependency := by
    intro dependency
    rw [dependencyGraph_eq hn, OMap.has_eq_true_iff, OMap.keys, map_map, mem_map]
    rfl
  unfold assertKnown KnownDependencies
  cases hfind : next.depends_on.find? fun dependency => !(dependencyGraph todos next).has dependency with
  | none =>
    refine ⟨fun _ dependency hmem => ?_, fun _ => rfl⟩
    have hno := List.find?_eq_none.1 hfind dependency hmem
    rw [← hhas]
    simpa using hno
  | some dependency =>
    constructor
    · intro hok
      cases hok
    · intro hall
      have hno := List.find?_some hfind
      have hyes := (hhas dependency).2 (hall dependency (mem_of_find?_eq_some hfind))
      rw [hyes] at hno
      cases hno

/-- The dependency check passes exactly what names known todos and closes no cycle. -/
theorem checkDependencies_iff (hn : (todos.map Todo.id).Nodup) (next : Todo) :
    checkDependencies todos next = .ok () ↔ KnownDependencies todos next ∧ AcyclicTodos (withTodo todos next) := by
  unfold checkDependencies
  rw [Checks.bind_eq_ok, ← assertKnown_iff hn, ← assertAcyclic_iff (nodup_withTodo hn next) next.id,
    ← dependencyGraph_eq hn]
  constructor
  · rintro ⟨_, hknown, hacyclic⟩
    exact ⟨hknown, hacyclic⟩
  · rintro ⟨hknown, hacyclic⟩
    exact ⟨(), hknown, hacyclic⟩

variable {next : Todo}

/-- What it does not pass it rejects with one of two codes. -/
theorem checkDependencies_error (h : checkDependencies todos next ≠ .ok ()) :
    ∃ e, checkDependencies todos next = .error e ∧ (e.code = .unknownDependency ∨ e.code = .dependencyCycle) := by
  unfold checkDependencies at h ⊢
  cases hknown : assertKnown next (dependencyGraph todos next) with
  | error e =>
    refine ⟨e, rfl, .inl ?_⟩
    unfold assertKnown at hknown
    split at hknown <;> cases hknown
    rfl
  | ok _ =>
    rw [hknown] at h
    cases hacyclic : assertAcyclic next.id (dependencyGraph todos next) with
    | ok _ => exact absurd hacyclic h
    | error e =>
      refine ⟨e, rfl, .inr ?_⟩
      unfold assertAcyclic at hacyclic
      split at hacyclic <;> cases hacyclic
      rfl

def frontText (p : ServicePlatform) (todo : Todo) : JsString :=
  crlfToLf (decodeUtf8 (encodeUtf8 (trimEnd (p.stringifyYaml (frontMatter todo)))))

def GoodIds (todo : Todo) : Prop := idRe todo.id = true ∧ ∀ dependency ∈ todo.depends_on, idRe dependency = true

/-- What is relied on of the YAML package: it writes no line `---`, and where it reads its own text again, under
either schema, the list of dependencies is the one written. -/
structure ServicePlatform.KeepsDependencies (p : ServicePlatform) : Prop where
  fence : ∀ todo, GoodIds todo → js "---" ∉ lines (frontText p todo)
  reads : ∀ todo (record : OMap JsString Json), GoodIds todo → p.parseYaml (frontText p todo) = some (.obj record) →
    record.get (js "depends_on") = (frontMatter todo).get (js "depends_on")
  readsFailsafe : ∀ todo (record : OMap JsString Json), GoodIds todo →
    p.parseFailsafe (frontText p todo) = some (.obj record) →
    record.get (js "depends_on") = (frontMatter todo).get (js "depends_on")

theorem nodup_frontMatter : [js "id", js "title", js "status", js "project", js "depends_on", js "tags", js "created",
    js "updated"].Nodup := by
  decide

theorem get_dependsOn (todo : Todo) : (frontMatter todo).get (js "depends_on") =
    if todo.depends_on = [] then none else some (jsonTexts todo.depends_on) := by
  refine (OMap.get_ofFields ?_ (js "depends_on")).trans ?_
  · exact nodup_frontMatter
  · rfl

theorem getLast?_trimEnd (s : JsString) : (trimEnd s).getLast? ≠ some cr := by
  intro h
  unfold trimEnd at h
  rw [List.getLast?_reverse] at h
  have hspace := List.head?_dropWhile_not isSpace s.reverse
  rw [h] at hspace
  cases hspace

theorem requireDependencies_ok {dependencies : List JsString} {result : List JsString}
    (h : requireDependencies (some (jsonTexts dependencies)) id = .ok result) : result = dependencies := by
  have h' : ((dependencies.map Json.str).mapM fun entry => requireTodoId (some entry) (js "Todo " ++ id ++
      js ": dependency")) >>= (fun deps => if ¬deps.Nodup then
        .error (todoError .badDependency id (js "depends_on must not contain duplicates"))
      else if id ∈ deps then .error (todoError .dependencySelf id (js "a todo cannot depend on itself"))
      else .ok deps) = .ok result := h
  obtain ⟨deps, hdeps, hchecks⟩ := Checks.bind_eq_ok.1 h'
  have heq : deps = dependencies := by
    have hall := Checks.mapM_eq_ok.1 hdeps
    rw [forall₂_map_left_iff] at hall
    have hsame : List.Forall₂ (· = ·) dependencies deps :=
      hall.imp fun a b hab => Json.str.inj (Option.some.inj (requireTodoId_ok hab).1)
    rw [forall₂_eq_eq_eq] at hsame
    exact hsame.symm
  subst heq
  split at hchecks
  · cases hchecks
  split at hchecks <;> cases hchecks
  rfl

theorem decodeFront_ok {p : Platform} {front : JsString} {record : OMap JsString Json}
    (h : decodeFront p front id = .ok record) : p.parseYaml front = some (.obj record) := by
  unfold decodeFront at h
  split at h
  · cases h
  · rename_i hparse
    cases h
    exact hparse
  · cases h

theorem decodeFailsafe_ok {p : Platform} {front : JsString} {decoded : Json}
    (h : decodeFailsafe p front id = .ok decoded) : p.parseFailsafe front = some decoded := by
  unfold decodeFailsafe at h
  split at h <;> cases h
  rename_i hparse
  exact hparse

theorem decode_serializeTodo (p : ServicePlatform) (todo : Todo) :
    ∃ body, decodeUtf8 (encodeUtf8 (serializeTodo p.toPlatform todo)) = js "---" ++
      lf :: (decodeUtf8 (encodeUtf8 (trimEnd (p.stringifyYaml (frontMatter todo)))) ++
        lf :: (js "---" ++ lf :: body)) := by
  have hlf : (isHigh lf || isLow lf) = false := by decide
  have hrule : decodeUtf8 (encodeUtf8 (js "---")) = js "---" := by decide
  rw [serializeTodo_eq, decodeUtf8_encodeUtf8_append hlf, decodeUtf8_encodeUtf8_append hlf,
    decodeUtf8_encodeUtf8_append hlf, hrule]
  exact ⟨_, rfl⟩

variable {todo : Todo} {name : JsString}

theorem dependsOn_written (hyaml : p.KeepsDependencies) {todo' : Todo} (hg : GoodIds todo)
    (hparse : parseFile p name (encodeUtf8 (serializeTodo p.toPlatform todo)) = .ok todo') :
    todo'.depends_on = todo.depends_on := by
  obtain ⟨front, body, record, decoded, hsplit, hparsed⟩ := parseTodoFile_eq_ok.1 hparse
  obtain ⟨body', hcontent⟩ := decode_serializeTodo p todo
  have hcr : (decodeUtf8 (encodeUtf8 (trimEnd (p.stringifyYaml (frontMatter todo))))).getLast? ≠ some cr :=
    fun h => getLast?_trimEnd _ (getLast?_of_decodeUtf8 h)
  rw [hcontent, splitFrontMatter_fenced hcr (hyaml.fence todo hg)] at hsplit
  have hfront : front = frontText p todo := by
    cases hsplit
    rfl
  subst hfront
  have hrecord := hyaml.reads todo record hg (decodeFront_ok hparsed.record_eq)
  have hdecoded := decodeFailsafe_ok hparsed.decoded_eq
  obtain ⟨value, hvalue, hdeps⟩ := hparsed.dependsOn
  have htexts : scalarTexts (record.get (js "depends_on")) value = record.get (js "depends_on") := by
    unfold failsafeMember at hvalue
    split at hvalue
    · cases hvalue
    · rename_i members
      cases hvalue
      have hmembers := hyaml.readsFailsafe todo members hg hdecoded
      rw [hmembers, hrecord]
      unfold scalarTexts
      split
      · rename_i items texts hitems htexts
        rw [hitems] at htexts
        cases htexts
        rw [if_pos rfl, hitems]
      · rfl
    · cases hvalue
      cases record.get (js "depends_on") with
      | none => rfl
      | some v => cases v <;> rfl
  rw [htexts, hrecord, get_dependsOn] at hdeps
  by_cases hnil : todo.depends_on = []
  · rw [if_pos hnil] at hdeps
    exact (Except.ok.inj hdeps).symm.trans hnil.symm
  · rw [if_neg hnil] at hdeps
    exact requireDependencies_ok hdeps

variable {disk : Disk}

theorem mem_set_of_nodup (hn : disk.keys.Nodup) {file : File} {entry : JsString × File}
    (h : entry ∈ disk.set name file) : entry = (name, file) ∨ (entry ∈ disk ∧ entry.1 ≠ name) := by
  rcases OMap.mem_set h with heq | hmem
  · exact .inl heq
  by_cases hname : entry.1 = name
  · have hget := OMap.get_of_mem (OMap.nodup_keys_set hn name file) h
    rw [hname, OMap.get_set, if_pos rfl] at hget
    exact .inl (Prod.ext hname (Option.some.inj hget).symm)
  · exact .inr ⟨hmem, hname⟩

theorem mem_parsedTodos_set (hn : disk.keys.Nodup) {file : File}
    (h : todo ∈ parsedTodos p (disk.set (fileName id) file)) : (todo ∈ parsedTodos p disk ∧ todo.id ≠ id) ∨
    (todo.id = id ∧ parseFile p (fileName id) file.bytes = .ok todo) := by
  obtain ⟨entry, hentry, hparse⟩ := mem_parsedTodos.1 h
  obtain ⟨hmem, hregular, hends⟩ := mem_todoFiles hentry
  obtain ⟨hname, hre⟩ := parseFile_ok hends hparse
  rcases mem_set_of_nodup hn hmem with rfl | ⟨hold, hne⟩
  · have hid : todo.id = id := (append_cancel_right hname).symm
    exact .inr ⟨hid, hparse⟩
  · refine .inl ⟨mem_parsedTodos.2 ⟨entry, ?_, hparse⟩, fun heq => hne (heq ▸ hname)⟩
    exact mem_filter.2 ⟨hold, by rw [hregular, hends]; rfl⟩

theorem mem_of_readTodoFile {current : Todo} (h : readTodoFile p disk (fileName id) id = .ok current) :
    current ∈ parsedTodos p disk := by
  unfold readTodoFile at h
  split at h
  · cases h
  rename_i file hget
  split at h
  · rename_i hregular
    refine mem_parsedTodos.2 ⟨_, mem_filter.2 ⟨OMap.mem_of_get hget, ?_⟩, h⟩
    have hends : endsWith (fileName id) TODO_EXT = true := endsWith_iff.2 (suffix_append _ _)
    rw [hregular, hends]
    rfl
  · cases h

theorem goodIds_of_parsed (h : todo ∈ parsedTodos p disk) : GoodIds todo := by
  obtain ⟨entry, -, hparse⟩ := mem_parsedTodos.1 h
  obtain ⟨front, body, record, decoded, -, hparsed⟩ := parseTodoFile_eq_ok.1 hparse
  refine ⟨by rw [hparsed.id_eq]; exact hparsed.wellFormed, fun dependency hmem => ?_⟩
  obtain ⟨value, -, hdeps⟩ := hparsed.dependsOn
  unfold requireDependencies at hdeps
  split at hdeps
  · rw [← Except.ok.inj hdeps] at hmem
    cases hmem
  · rw [← Except.ok.inj hdeps] at hmem
    cases hmem
  · obtain ⟨deps, hall, hchecks⟩ := Checks.bind_eq_ok.1 hdeps
    have heq : todo.depends_on = deps := by
      split at hchecks
      · cases hchecks
      split at hchecks <;> cases hchecks
      rfl
    rw [heq] at hmem
    obtain ⟨entry', -, hentry'⟩ := Checks.exists_of_mem_mapM hall hmem
    exact (requireTodoId_ok hentry').2
  · cases hdeps

theorem acyclic_change (hyaml : p.KeepsDependencies) {disk' : Disk} (hn : disk.keys.Nodup)
    (hc : Change p h disk disk') (hac : AcyclicTodos (parsedTodos p disk)) : AcyclicTodos (parsedTodos p disk') := by
  cases hc with
  | same => exact hac
  | @checked next hid hcheck =>
    obtain ⟨hknown, hnext⟩ := (checkDependencies_iff (nodup_ids hn) next).1 hcheck
    have hgood : GoodIds next := by
      refine ⟨hid, fun dependency hmem => ?_⟩
      obtain ⟨todo, htodo, rfl⟩ := hknown dependency hmem
      rcases mem_append.1 htodo with hold | hself
      · exact (goodIds_of_parsed (mem_of_mem_filter hold)).1
      · rw [mem_singleton.1 hself]
        exact hid
    refine hnext.mono fun todo htodo => ?_
    rcases mem_parsedTodos_set hn htodo with ⟨hold, hne⟩ | ⟨hsame, hparse⟩
    · exact ⟨todo, mem_append_left _ (mem_filter.2 ⟨hold, decide_eq_true hne⟩), rfl, rfl⟩
    · exact ⟨next, mem_append_right _ (mem_singleton_self _), hsame.symm,
        (dependsOn_written hyaml hgood hparse).symm⟩
  | @kept id current next hre hread hid hdeps =>
    have hcurrent := mem_of_readTodoFile hread
    have hgood : GoodIds next := by
      unfold GoodIds
      rw [hid, hdeps]
      exact goodIds_of_parsed hcurrent
    refine hac.mono fun todo htodo => ?_
    rcases mem_parsedTodos_set hn htodo with ⟨hold, -⟩ | ⟨hsame, hparse⟩
    · exact ⟨todo, hold, rfl, rfl⟩
    · refine ⟨current, hcurrent, (readTodoFile_ok hre hread).trans hsame.symm, ?_⟩
      rw [dependsOn_written hyaml hgood hparse, hdeps]

theorem acyclic_remove (hac : AcyclicTodos (parsedTodos p disk)) :
    AcyclicTodos (parsedTodos p (disk.delete name)) := by
  refine hac.mono fun todo htodo => ⟨todo, ?_, rfl, rfl⟩
  obtain ⟨entry, hentry, hparse⟩ := mem_parsedTodos.1 htodo
  obtain ⟨hmem, hkeep⟩ := mem_filter.1 hentry
  exact mem_parsedTodos.2 ⟨entry, mem_filter.2 ⟨(OMap.mem_of_mem_delete hmem).1, hkeep⟩, hparse⟩

/-- A step that leaves the files to the service, but for removals. -/
def Label.Managed : Label → Prop
  | files _ => False
  | _ => True

theorem acyclic_step (hp : p.Stores) (hyaml : p.KeepsDependencies) {w w' : World} {l : Label}
    (hstep : Step p stamps w l w') (hl : l.Managed) (hw : w.Sound p stamps)
    (hac : AcyclicTodos (parsedTodos p w.disk)) : AcyclicTodos (parsedTodos p w'.disk) := by
  cases hstep with
  | operate hi hop _ _ => exact acyclic_change hyaml hw.nodup (operated hp hw (mem_of_getElem? hi) hop).change hac
  | new | index => exact hac
  | remove => exact acyclic_remove hac
  | files => exact hl.elim

/-- A managed run keeps the dependencies acyclic. -/
theorem acyclic_run (hp : p.Stores) (hyaml : p.KeepsDependencies) {w₀ w : World} {tr : List Label}
    (hrun : Run (Step p stamps) w₀ tr w) (htr : ∀ l ∈ tr, l.Managed) (h₀ : w₀.Starts p stamps)
    (hac : AcyclicTodos (parsedTodos p w₀.disk)) : AcyclicTodos (parsedTodos p w.disk) := by
  have hmanaged := hrun.restrict Label.Managed htr
  have hinv := hmanaged.invariant (fun w => w.Sound p stamps ∧ AcyclicTodos (parsedTodos p w.disk))
    (fun _ _ _ hw hstep => ⟨sound_step hp hstep.1 hw.1, acyclic_step hp hyaml hstep.1 hstep.2 hw.1 hw.2⟩)
    ⟨h₀.sound, hac⟩
  exact hinv.2

def Operation.Proposes (p : ServicePlatform) (h : Host) (disk : Disk) : Operation → Todo → Prop
  | create input, next => ∃ id, nextId h disk = .ok id ∧ createdTodo h input id = .ok next
  | update input _, next => ∃ current, idRe input.id = true ∧
      readTodoFile p disk (fileName input.id) input.id = .ok current ∧ updatedTodo h input current = .ok next
  | _, _ => False

/-- The end of an operation whose dependency check fails. -/
def Rejected (p : ServicePlatform) (stamps : Stamps) (w₀ : Workspace) (e : TodoError) (f : Failure) (w : Workspace) :
    Prop :=
  (f = .host ∨ f = .todo e) ∧ Reading p stamps w₀ w

variable {w₀ : Workspace} {e : TodoError}

theorem require_of_ok {α : Type} {r : Except TodoError α} {a : α} (hr : r = .ok a) {P : Workspace → Prop}
    {E : Failure → Workspace → Prop} : Holds P (require r) (fun b w => b = a ∧ P w) E := by
  subst hr
  exact fun w hw => ⟨rfl, hw⟩

theorem dependencies_rejected (hbad : checkDependencies (parsedTodos p w₀.disk) next = .error e) :
    Holds (Reading p stamps w₀) (assertDependenciesKnownLocked p h next) (fun _ _ => False)
      (Rejected p stamps w₀ e) := by
  refine Holds.bind (Q := fun todos w => todos = parsedTodos p w₀.disk ∧ Reading p stamps w₀ w)
    (scanLocked_spec (fun _ hw => hw.scan) fun _ hw => ⟨.inl rfl, hw⟩) fun todos => holds_of_fact ?_
  rintro rfl
  rw [hbad]
  exact fun w hw => ⟨.inr rfl, hw⟩

theorem createTodo_rejected {input : TodoCreateInput} (hid : nextId h w₀.disk = .ok id)
    (hnext : createdTodo h input id = .ok next) (hbad : checkDependencies (parsedTodos p w₀.disk) next = .error e) :
    Holds (Reading p stamps w₀) (createTodo p h input) (fun _ _ => False) (Rejected p stamps w₀ e) := by
  refine Holds.get_bind fun w hw => ?_
  rw [hw.disk, hid]
  refine Holds.bind (P := (· = w)) (Q := fun id' s => id' = id ∧ Reading p stamps w₀ s) ?_ fun id' =>
    holds_of_fact ?_
  · rintro s rfl
    exact ⟨rfl, hw⟩
  rintro rfl
  refine Holds.bind (require_of_ok hnext) fun todo => holds_of_fact ?_
  rintro rfl
  exact Holds.bind (dependencies_rejected hbad) fun _ w hw => hw.elim

theorem updateTodo_rejected {input : TodoUpdateInput} {author : JsString} {current : Todo}
    (hid : idRe input.id = true) (hread : readTodoFile p w₀.disk (fileName input.id) input.id = .ok current)
    (hnext : updatedTodo h input current = .ok next)
    (hbad : checkDependencies (parsedTodos p w₀.disk) next = .error e) :
    Holds (Reading p stamps w₀) (updateTodo p h input author) (fun _ _ => False) (Rejected p stamps w₀ e) := by
  have hpath : todoPath input.id = .ok (fileName input.id) := by
    unfold todoPath requireTodoId
    simp only [hid, if_true]
    rfl
  have hcurrent : Holds (Reading p stamps w₀) (currentTodo p h input.id)
      (fun r w => r = (fileName input.id, current) ∧ Reading p stamps w₀ w) (Rejected p stamps w₀ e) := by
    refine Holds.bind (require_of_ok hpath) fun name => holds_of_fact ?_
    rintro rfl
    refine Holds.bind (access_spec fun _ hw => ⟨.inl rfl, hw⟩) fun _ => Holds.get_bind fun w hw => ?_
    rw [hw.disk]
    refine Holds.bind (require_of_ok hread) fun todo => holds_of_fact ?_
    rintro rfl
    refine Holds.pure ?_
    rintro s rfl
    exact ⟨rfl, hw⟩
  refine Holds.bind hcurrent fun r => holds_of_fact ?_
  rintro rfl
  refine Holds.bind (require_of_ok hnext) fun todo => holds_of_fact ?_
  rintro rfl
  exact Holds.bind (dependencies_rejected hbad) fun _ w hw => hw.elim

theorem proposal_rejected {op : Operation} (hprop : op.Proposes p h w₀.disk next)
    (hbad : checkDependencies (parsedTodos p w₀.disk) next = .error e) :
    Holds (Reading p stamps w₀) (op.perform p h) (fun _ _ => False) (Rejected p stamps w₀ e) := by
  cases op with
  | create input =>
    obtain ⟨id, hid, hnext⟩ := hprop
    exact createTodo_rejected hid hnext hbad
  | update input author =>
    obtain ⟨current, hid, hread, hnext⟩ := hprop
    exact updateTodo_rejected hid hread hnext hbad
  | _ => exact hprop.elim

/-- From files whose todos have no cycle, whatever instances do and whatever files are removed, the todos have no
cycle.  An operation that is rejected leaves every file and the index as they were, and one that would write a
dependency on an unknown todo or close a cycle is rejected for it. -/
theorem dependencies_acyclic (hp : p.Stores) (hyaml : p.KeepsDependencies) {w₀ w : World} {tr : List Label}
    (h₀ : w₀.Starts p stamps) (hac : AcyclicTodos (parsedTodos p w₀.disk)) (hrun : Run (Step p stamps) w₀ tr w)
    (htr : ∀ l ∈ tr, l.Managed) : AcyclicTodos (parsedTodos p w.disk) ∧
    ∀ i h op r w', Step p stamps w (.operate i h op r) w' →
    (∀ e, r = .error (.todo e) → w'.disk = w.disk ∧ w'.index = w.index) ∧ ∀ next, op.Proposes p h w.disk next →
    ¬(KnownDependencies (parsedTodos p w.disk) next ∧ AcyclicTodos (withTodo (parsedTodos p w.disk) next)) → w'.disk =
    w.disk ∧ w'.index = w.index ∧
    (r = .error .host ∨ ∃ e, r = .error (.todo e) ∧ (e.code = .unknownDependency ∨ e.code = .dependencyCycle)) := by
  refine ⟨acyclic_run hp hyaml hrun htr h₀ hac, fun i h op r w' hstep => ?_⟩
  have hw := sound_run hp hrun h₀
  cases hstep with
  | @operate _ _ _ _ service after hi hop hfiles hindex =>
    have hbegins := Reading.refl (hw.begins (List.mem_of_getElem? hi))
    refine ⟨?_, fun next hprop hbad => ?_⟩
    · rintro e rfl
      exact ((perform_spec hp op).failure hbegins hop).unchanged e rfl
    · rw [← checkDependencies_iff (nodup_ids hw.nodup) next] at hbad
      obtain ⟨e, herror, hcode⟩ := checkDependencies_error hbad
      have hspec : Holds (Reading p stamps ⟨w.disk, w.index, service⟩) (op.perform p h) (fun _ _ => False)
          (Rejected p stamps ⟨w.disk, w.index, service⟩ e) := proposal_rejected hprop herror
      cases r with
      | ok reply => exact (hspec.value hbegins hop).elim
      | error f =>
        obtain ⟨hf, hreading⟩ := hspec.failure hbegins hop
        refine ⟨hreading.disk, hreading.index, ?_⟩
        rcases hf with rfl | rfl
        · exact .inl rfl
        · exact .inr ⟨e, rfl, hcode⟩

/-! ### A second todo that depends on the first -/

theorem crlfToLf_of_not_mem {s : JsString} (h : cr ∉ s) : crlfToLf s = s := by
  induction s using crlfToLf.induct with
  | case1 => rfl
  | case2 u => rfl
  | case3 u v s hcrlf _ => exact absurd (hcrlf.1 ▸ mem_cons_self) h
  | case4 u v s hcrlf ih => rw [crlfToLf, if_neg hcrlf, ih fun hmem => h (mem_cons_of_mem _ hmem)]

theorem distinct_frontMatter (todo : Todo) : (Json.obj (frontMatter todo)).distinct = true := by
  have hstrings : ∀ texts : List JsString, (Json.arr (texts.map .str)).distinct = true := by
    intro texts
    rw [Json.distinct, Json.distinctItems_iff]
    intro item hitem
    obtain ⟨text, -, rfl⟩ := mem_map.1 hitem
    rfl
  refine Json.distinct_obj.2 ⟨(OMap.keys_ofFields_sublist _).nodup nodup_frontMatter, fun entry hentry => ?_⟩
  have hmem := OMap.mem_ofFields.1 hentry
  simp only [mem_cons, not_mem_nil, or_false, Prod.mk.injEq, Option.some.injEq] at hmem
  rcases hmem with ⟨-, h⟩ | ⟨-, h⟩ | ⟨-, h⟩ | ⟨-, h⟩ | ⟨-, h⟩ | ⟨-, h⟩ | ⟨-, h⟩ | ⟨-, h⟩
  any_goals rw [h]; rfl
  · obtain ⟨project, -, hproject⟩ := Option.map_eq_some_iff.1 h.symm
    rw [← hproject]
    rfl
  · by_cases hnil : todo.depends_on = []
    · rw [if_pos hnil] at h
      cases h
    · rw [if_neg hnil] at h
      rw [Option.some.inj h]
      exact hstrings _
  · by_cases hnil : todo.tags = []
    · rw [if_pos hnil] at h
      cases h
    · rw [if_neg hnil] at h
      rw [Option.some.inj h]
      exact hstrings _

theorem frontText_sample (h : frontMatter todo ≠ frontMatter sampleTodo) :
    frontText samplePlatform todo = Json.stringify (.obj (frontMatter todo)) := by
  obtain ⟨body, hbody⟩ := Json.stringify_obj_braces (frontMatter todo)
  have htrim : trimEnd (Json.stringify (.obj (frontMatter todo))) = Json.stringify (.obj (frontMatter todo)) := by
    unfold trimEnd
    rw [hbody, reverse_cons, reverse_append, reverse_singleton, singleton_append, cons_append,
      dropWhile_cons_of_neg (by decide)]
    simp
  have hyaml : samplePlatform.stringifyYaml (frontMatter todo) = Json.stringify (.obj (frontMatter todo)) := if_neg h
  unfold frontText
  rw [hyaml, htrim, decodeUtf8_encodeUtf8 (Json.isWellFormed_stringify _),
    crlfToLf_of_not_mem (Json.cr_not_mem_stringify _)]

theorem frontText_sampleTodo (h : frontMatter todo = frontMatter sampleTodo) :
    frontText samplePlatform todo = sampleFront := by
  unfold frontText
  rw [h]
  decide

theorem stringify_ne_sampleFront (members : List (JsString × Json)) :
    Json.stringify (.obj members) ≠ sampleFront := by
  obtain ⟨body, hbody⟩ := Json.stringify_obj_braces members
  have hfront : sampleFront = 105 :: sampleFront.tail := by decide
  rw [hbody, hfront]
  intro heq
  exact absurd (List.cons.inj heq).1 (by decide)

theorem parseYaml_sample (text : JsString) : samplePlatform.parseYaml text =
    if text = sampleFront then some (.obj (frontMatter sampleTodo)) else Json.parse text := rfl

theorem parse_frontText_sample (todo : Todo) : samplePlatform.parseYaml (frontText samplePlatform todo) =
    some (.obj (frontMatter todo)) := by
  by_cases h : frontMatter todo = frontMatter sampleTodo
  · rw [frontText_sampleTodo h, h, parseYaml_sample, if_pos rfl]
  · rw [frontText_sample h, parseYaml_sample, if_neg (stringify_ne_sampleFront _),
      Json.parse_stringify (distinct_frontMatter todo)]

theorem keepsDependencies_sample : samplePlatform.KeepsDependencies where
  fence todo _ := by
    by_cases h : frontMatter todo = frontMatter sampleTodo
    · rw [frontText_sampleTodo h]
      decide
    obtain ⟨body, hbody⟩ := Json.stringify_obj_braces (frontMatter todo)
    have hlines : lines (Json.stringify (.obj (frontMatter todo))) = [Json.stringify (.obj (frontMatter todo))] := by
      have hone : lines (unlines [Json.stringify (.obj (frontMatter todo))]) =
          [Json.stringify (.obj (frontMatter todo))] := by
        refine lines_unlines (fun l hl => ?_) (cons_ne_nil _ _)
        rw [mem_singleton.1 hl]
        exact Json.lf_not_mem_stringify _
      simpa only [unlines, intercalate_singleton] using hone
    rw [frontText_sample h, hlines, mem_singleton, hbody]
    intro heq
    exact absurd (List.cons.inj heq).1 (by decide)
  reads todo record _ hparse := by
    rw [parse_frontText_sample] at hparse
    cases hparse
    rfl
  readsFailsafe todo record _ hparse := by
    have hsame : samplePlatform.parseFailsafe (frontText samplePlatform todo) = some (.obj (frontMatter todo)) :=
      parse_frontText_sample todo
    rw [hsame] at hparse
    cases hparse
    rfl

def sampleInput : TodoCreateInput := ⟨js "Second", none, none, some [js "a1"], none, none, none⟩

/-- The first instance creates the second todo; the first drawn id is taken. -/
@[irreducible] def sampleCreated : Except Failure Reply × Workspace :=
  Operation.perform samplePlatform sampleHost (.create sampleInput) ⟨sampleWorld.disk, sampleWorld.index, .new false⟩

/-- Signatures that stand for what the run leaves. -/
def sampleContent : Stamps :=
  ⟨fun name _ => ((OMap.get sampleCreated.2.disk name).map File.bytes).getD [], fun _ => sampleCreated.2.index.rows⟩

theorem dependencies_acyclic_sample : (parsedTodos samplePlatform sampleCreated.2.disk).map Todo.depends_on =
    [[], [js "a1"]] ∧ AcyclicTodos (parsedTodos samplePlatform sampleCreated.2.disk) := by
  obtain ⟨hok, hkeys, hdisk, hdeps⟩ : sampleCreated.1.isOk = true ∧
      (OMap.keys sampleCreated.2.disk).Nodup ∧
      sampleWorld.disk.all (· ∈ sampleCreated.2.disk) = true ∧
      (parsedTodos samplePlatform sampleCreated.2.disk).map Todo.depends_on = [[], [js "a1"]] := by decide +kernel
  have hsigns : sampleContent.SignsFiles sampleCreated.2.disk := by
    intro entry hentry
    have hget := OMap.get_of_mem hkeys hentry
    simp only [sampleContent, hget, Option.map_some, Option.getD_some]
  have hstarts : sampleWorld.Starts samplePlatform sampleContent := by
    refine ⟨rfl, starts_sample.nodup, fun entry hentry => hsigns entry ?_, starts_sample.index, fun h => absurd rfl h⟩
    exact of_decide_eq_true (List.all_eq_true.1 hdisk entry hentry)
  have hempty : AcyclicTodos (parsedTodos samplePlatform sampleWorld.disk) := by
    have htodos : parsedTodos samplePlatform sampleWorld.disk = [sampleTodo] := by decide +kernel
    rw [htodos]
    have hnone : ∀ id other, ¬Depends [sampleTodo] id other := by
      rintro id other ⟨todo, htodo, -, hmem, -⟩
      rw [List.mem_singleton.1 htodo] at hmem
      cases hmem
    intro id hcycle
    obtain ⟨other, hedge, -⟩ := Relation.TransGen.head'_iff.1 hcycle
    exact hnone id other hedge
  have hop : Operation.perform samplePlatform sampleHost (.create sampleInput)
      ⟨sampleWorld.disk, sampleWorld.index, .new false⟩ = (sampleCreated.1, sampleCreated.2) := by
    unfold sampleCreated
    exact Prod.mk.eta.symm
  have hrows : sampleContent.SignsIndex sampleCreated.2.index := by
    intro _
    simp only [sampleContent]
  have hrun : Run (Step samplePlatform sampleContent) sampleWorld
      [.new false, .operate 0 sampleHost (.create sampleInput) sampleCreated.1]
      ⟨sampleCreated.2.disk, sampleCreated.2.index, [sampleCreated.2.service]⟩ :=
    .cons (.new sampleWorld false) (.single (.operate rfl hop hsigns hrows))
  have hmanaged : ∀ l ∈ [Label.new false, .operate 0 sampleHost (.create sampleInput) sampleCreated.1],
      l.Managed := by
    intro l hl
    rcases List.mem_cons.1 hl with rfl | hl
    · trivial
    · rw [List.mem_singleton.1 hl]
      trivial
  exact ⟨hdeps, (dependencies_acyclic (fun _ => rfl) keepsDependencies_sample hstarts hempty hrun hmanaged).1⟩

end Wrenyard.Todos
