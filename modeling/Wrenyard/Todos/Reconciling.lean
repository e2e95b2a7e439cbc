import Wrenyard.Todos.Operations

/-!
# The index is a function of the files

In every world that is reached, whatever instances wrote and whatever was added, edited or removed from outside, every
cached parse and every trusted snapshot is one of what its signature stands for (`World.Sound`).  So a scan by any
instance reads the todos that parsing every file reads, an operation that reconciles leaves the index with the records
of these todos, and a second reconcile changes nothing.
-/

namespace Wrenyard.Todos

open Js Stateful Transition List

variable {p : ServicePlatform} {stamps : Stamps}

structure World.Sound (p : ServicePlatform) (stamps : Stamps) (w : World) : Prop where
  nodup : w.disk.keys.Nodup
  files : stamps.SignsFiles w.disk
  valid : w.index.Valid p
  rows : stamps.SignsIndex w.index
  caches : ∀ service ∈ w.services, CacheSound p stamps service.parseCache
  snapshots : ∀ service ∈ w.services, IndexSound p stamps service

variable {w : World}

theorem World.Starts.sound (h : w.Starts p stamps) : w.Sound p stamps := by
  refine ⟨h.nodup, h.files, h.index, h.rows, fun service hs => ?_, fun service hs => ?_⟩
  all_goals
    rw [h.services] at hs
    cases hs

theorem World.Sound.begins (h : w.Sound p stamps) {service : WorkspaceTodoService} (hs : service ∈ w.services) :
    Begins p stamps ⟨w.disk, w.index, service⟩ :=
  ⟨h.files, h.caches service hs, h.valid, h.rows, h.snapshots service hs⟩

theorem operated (hp : p.Stores) (hw : w.Sound p stamps) {service : WorkspaceTodoService}
    (hs : service ∈ w.services) {h : Host} {op : Operation} {r : Except Failure Reply} {after : Workspace}
    (hop : op.perform p h ⟨w.disk, w.index, service⟩ = (r, after)) :
    Outcome p stamps h ⟨w.disk, w.index, service⟩ after := by
  have hspec := perform_spec (h := h) hp op ⟨w.disk, w.index, service⟩ (Reading.refl (hw.begins hs))
  rw [hop] at hspec
  cases r with
  | ok reply => exact hspec.1
  | error f => exact hspec.outcome

theorem Change.nodup {h : Host} {disk disk' : Disk} (hc : Change p h disk disk') (hn : disk.keys.Nodup) :
    disk'.keys.Nodup := by
  cases hc with
  | same => exact hn
  | checked | kept => exact OMap.nodup_keys_set hn _ _

theorem sound_step (hp : p.Stores) {w' : World} {l : Label} (hstep : Step p stamps w l w') (hw : w.Sound p stamps) :
    w'.Sound p stamps := by
  cases hstep with
  | @operate i h op r service after hi hop hfiles hindex =>
    have hout := operated hp hw (mem_of_getElem? hi) hop
    refine ⟨hout.change.nodup hw.nodup, hfiles, hout.left.valid, hindex, fun other hother => ?_,
      fun other hother => ?_⟩
    · rcases mem_or_eq_of_mem_set hother with hmem | rfl
      · exact hw.caches other hmem
      · exact hout.cache hfiles
    · rcases mem_or_eq_of_mem_set hother with hmem | rfl
      · exact hw.snapshots other hmem
      · exact hout.left.sound hindex
  | new usesIndex =>
    refine ⟨hw.nodup, hw.files, hw.valid, hw.rows, fun other hother => ?_, fun other hother => ?_⟩
    · rcases mem_append.1 hother with hmem | hmem
      · exact hw.caches other hmem
      · rw [mem_singleton.1 hmem]
        exact fun entry hentry => by cases hentry
    · rcases mem_append.1 hother with hmem | hmem
      · exact hw.snapshots other hmem
      · rw [mem_singleton.1 hmem]
        intro snapshot signature hsnapshot
        cases hsnapshot
  | remove name =>
    exact ⟨OMap.nodup_keys_delete hw.nodup name,
      fun entry he => hw.files entry (OMap.mem_of_mem_delete he).1, hw.valid,
      hw.rows, hw.caches, hw.snapshots⟩
  | files hnodup hsigns => exact ⟨hnodup, hsigns, hw.valid, hw.rows, hw.caches, hw.snapshots⟩
  | index hvalid hsigns => exact ⟨hw.nodup, hw.files, hvalid, hsigns, hw.caches, hw.snapshots⟩

/-- A run keeps the caches and the index sound. -/
theorem sound_run (hp : p.Stores) {w₀ : World} {tr : List Label} (hrun : Run (Step p stamps) w₀ tr w)
    (h₀ : w₀.Starts p stamps) : w.Sound p stamps :=
  hrun.invariant (World.Sound p stamps) (fun _ _ _ hw hstep => sound_step hp hstep hw) h₀.sound

variable {disk : Disk}

theorem mem_todoFiles {entry : JsString × File} (h : entry ∈ todoFiles disk) :
    entry ∈ disk ∧ entry.2.regular = true ∧ endsWith entry.1 TODO_EXT = true := by
  obtain ⟨hmem, hkeep⟩ := mem_filter.1 h
  rw [Bool.and_eq_true] at hkeep
  exact ⟨hmem, hkeep.1, hkeep.2⟩

theorem mem_parsedTodos {todo : Todo} :
    todo ∈ parsedTodos p disk ↔ ∃ entry ∈ todoFiles disk, parseFile p entry.1 entry.2.bytes = .ok todo := by
  unfold parsedTodos sortTodos
  rw [Comparator.mem_sort, mem_filterMap]
  refine exists_congr fun entry => and_congr_right fun _ => ?_
  cases parseFile p entry.1 entry.2.bytes with
  | error e => exact ⟨fun h => (by cases h), fun h => (by cases h)⟩
  | ok todo' => exact ⟨fun h => congrArg _ (Option.some.inj h), fun h => congrArg some (Except.ok.inj h)⟩

/-- The ids of the todos differ, since the names of their files do. -/
theorem nodup_ids (h : disk.keys.Nodup) : ((parsedTodos p disk).map Todo.id).Nodup := by
  have hperm : (parsedTodos p disk).Perm
      ((todoFiles disk).filterMap fun entry => (parseFile p entry.1 entry.2.bytes).toOption) := Comparator.perm_sort _
  refine (hperm.map Todo.id).nodup_iff.2 ?_
  have hfiles : (todoFiles disk).Pairwise fun a b => a.1 ≠ b.1 := by
    have hkeys : (OMap.keys (todoFiles disk)).Nodup := h.sublist (filter_sublist.map Prod.fst)
    exact pairwise_map.1 hkeys
  rw [List.Nodup, pairwise_map, pairwise_filterMap]
  refine hfiles.imp_of_mem fun {a b} ha hb hne todo htodo todo' htodo' heq => ?_
  have hok : ∀ {entry : JsString × File} {todo : Todo}, entry ∈ todoFiles disk →
      (parseFile p entry.1 entry.2.bytes).toOption = some todo → entry.1 = fileName todo.id := by
    intro entry todo hentry hparse
    cases hfile : parseFile p entry.1 entry.2.bytes <;> rw [hfile] at hparse
    case error e => cases hparse
    case ok todo' =>
      cases hparse
      exact (parseFile_ok (mem_todoFiles hentry).2.2 hfile).1
  rw [hok ha htodo, hok hb htodo', heq] at hne
  exact hne rfl

/-- The records of todos with distinct ids. -/
theorem indexRows_eq {todos : List Todo} (h : (todos.map Todo.id).Nodup) :
    indexRows todos = todos.map fun todo => (todo.id, toIndexRecord todo) := by
  have hnodup : (OMap.keys (todos.map fun todo => (todo.id, toIndexRecord todo))).Nodup := by
    unfold OMap.keys
    rw [map_map]
    exact h
  have hset : (todos.map fun todo => (todo.id, toIndexRecord todo)).foldl (fun acc e => OMap.set acc e.1 e.2) [] =
      [] ++ todos.map fun todo => (todo.id, toIndexRecord todo) := OMap.foldl_set hnodup
  rw [foldl_map] at hset
  unfold indexRows recordMap
  rw [foldl_map]
  exact hset

/-- Rows that mirror records are these records, as they are stored. -/
theorem perm_of_mirrors {rows records : OMap JsString TodoIndexRecord} (hrows : rows.keys.Nodup)
    (hrecords : records.keys.Nodup) (hm : Mirrors p rows records) :
    rows.Perm (records.map fun entry => (entry.1, storedRecord p entry.2)) := by
  have hstored : (OMap.keys (records.map fun entry => (entry.1, storedRecord p entry.2))).Nodup := by
    rw [OMap.keys_map]
    exact hrecords
  refine (perm_ext_iff_of_nodup (List.Nodup.of_map _ hrows) (List.Nodup.of_map _ hstored)).2 fun entry => ?_
  have hget : rows.get entry.1 = OMap.get (records.map fun entry => (entry.1, storedRecord p entry.2)) entry.1 := by
    rw [hm entry.1, OMap.get_map]
  constructor <;> intro hmem
  · have hsome := OMap.get_of_mem hrows hmem
    rw [hget] at hsome
    exact OMap.mem_of_get hsome
  · have hsome := OMap.get_of_mem hstored hmem
    rw [← hget] at hsome
    exact OMap.mem_of_get hsome

theorem indexChanges_self {rows : OMap JsString TodoIndexRecord} (h : rows.keys.Nodup) :
    indexChanges rows rows = [] := by
  unfold indexChanges
  have hremoved : (rows.keys.filter fun id => !rows.has id) = [] := by
    refine filter_eq_nil_iff.2 fun id hid => ?_
    rw [OMap.has_eq_true_iff.2 hid]
    exact Bool.false_ne_true
  have hchanged : (rows.filter fun entry => !(rows.get entry.1).any (sameIndexRecord · entry.2)) = [] := by
    refine filter_eq_nil_iff.2 fun entry hentry => ?_
    rw [OMap.get_of_mem h hentry, Option.any_some, sameIndexRecord_iff.2 rfl]
    exact Bool.false_ne_true
  rw [hremoved, hchanged]
  rfl

/-- A reconcile in step with the files changes nothing. -/
theorem refresh_fresh {h : Host} {w : Workspace} (hfiles : stamps.SignsFiles w.disk)
    (hcache : CacheSound p stamps w.service.parseCache) (hfresh : Fresh p w) (hfails : h.scanFails = false) :
    refreshIndexLocked p h w = (.ok (), w) := by
  unfold refreshIndexLocked
  rw [bind_of_ok (get_apply w)]
  cases huses : w.service.usesIndex with
  | false => rfl
  | true =>
    have hscan : scan p w.disk w.service = (w.service, parsedTodos p w.disk) := by
      rw [scan_eq hfiles hcache, ← hfresh.cache, ← hfresh.skipped]
    have hscanned : scanLocked p h.scanFails w = (.ok (parsedTodos p w.disk), w) := by
      unfold scanLocked
      rw [hfails]
      have haccess : access false w = (.ok (), w) := rfl
      rw [bind_of_ok haccess, bind_of_ok (get_apply w), bind_of_ok (modify_apply _ w), hscan]
      rfl
    obtain ⟨hrows, hdb, hsnapshot, hsignature⟩ := hfresh.reconciled
    have htrusts : trustsSnapshot w = true := by
      unfold trustsSnapshot
      rw [hsnapshot, hsignature, Option.isSome_iff_ne_none.2 hdb]
      simp
    have hbaseline : baseline h.index w = (.ok (indexRows (parsedTodos p w.disk)), w) := by
      unfold baseline
      rw [bind_of_ok (get_apply w), htrusts, hsnapshot]
      rfl
    have hsame : indexChanges (indexRows (parsedTodos p w.disk)) (indexRows (parsedTodos p w.disk)) = [] :=
      indexChanges_self (keyed_recordMap _).nodup
    show (scanLocked p h.scanFails >>= fun todos => reconcileIndexLocked p h.index todos) w = _
    rw [bind_of_ok hscanned]
    unfold reconcileIndexLocked
    rw [bind_of_ok (get_apply w), huses]
    show (baseline h.index >>= fun current => _) w = _
    rw [bind_of_ok hbaseline]
    unfold Stateful.when
    rw [hsame, if_neg fun hne => hne rfl, bind_of_ok (pure_apply () w), modify_apply, ← hsnapshot, ← hsignature]

/-- Whatever instances and the outside did, a scan by any instance reads the todos that parsing every file from
scratch reads, and skips the files that do not parse; an operation that answers with todos answers with these; and one
that reconciles leaves the index with exactly their records, so that reconciling again changes neither the index nor
the instance. -/
theorem index_function_of_files (hp : p.Stores) {w₀ w : World} {tr : List Label} (h₀ : w₀.Starts p stamps)
    (hrun : Run (Step p stamps) w₀ tr w) :
    (∀ service ∈ w.services, (scan p w.disk service).2 = parsedTodos p w.disk ∧
      (scan p w.disk service).1.skippedFiles = skippedFiles p w.disk) ∧
    ∀ i h op reply w', Step p stamps w (.operate i h op (.ok reply)) w' →
      op.Answers (parsedTodos p w.disk) reply ∧
      (op.reconciles = true → ∀ service, w'.services[i]? = some service → service.usesIndex = true →
        w'.index.rows.Perm
          ((parsedTodos p w'.disk).map fun todo => (todo.id, storedRecord p (toIndexRecord todo))) ∧
        ∀ h', h'.scanFails = false →
          refreshIndexLocked p h' ⟨w'.disk, w'.index, service⟩ = (.ok (), ⟨w'.disk, w'.index, service⟩)) := by
  have hw := sound_run hp hrun h₀
  refine ⟨fun service hs => ?_, fun i h op reply w' hstep => ?_⟩
  · rw [scan_eq hw.files (hw.caches service hs)]
    exact ⟨rfl, rfl⟩
  · have hw' := sound_step hp hstep hw
    cases hstep with
    | @operate _ _ _ _ service after hi hop hfiles hindex =>
      have hs := List.mem_of_getElem? hi
      obtain ⟨hout, hfresh, hanswers⟩ :=
        (perform_spec (h := h) hp op).value (Reading.refl (hw.begins hs)) hop
      refine ⟨hanswers, fun hrec service' hi' huses => ?_⟩
      have hlt : i < w.services.length := (List.getElem?_eq_some_iff.1 hi).1
      have heq : service' = after.service := by
        rw [List.getElem?_set_self hlt] at hi'
        exact (Option.some.inj hi').symm
      subst heq
      have hafter : Fresh p after := hfresh hrec hfiles (hout.usesIndex.symm.trans huses)
      refine ⟨?_, fun h' hfails => ?_⟩
      · have hids : ((parsedTodos p after.disk).map Todo.id).Nodup := nodup_ids hw'.nodup
        have hperm : after.index.rows.Perm ((indexRows (parsedTodos p after.disk)).map fun entry =>
            (entry.1, storedRecord p entry.2)) :=
          perm_of_mirrors hw'.valid.nodup (keyed_recordMap _).nodup hafter.reconciled.rows
        rw [indexRows_eq hids, List.map_map] at hperm
        exact hperm
      · exact refresh_fresh hfiles (hout.cache hfiles) hafter hfails

def sampleTime : JsString := js "2026-01-02T03:04:05.000Z"

def sampleTodo : Todo where
  id := js "a1"
  title := js "First"
  status := .open_
  project := none
  depends_on := []
  created := sampleTime
  updated := sampleTime
  request := js "Do it"
  acceptance := []
  attachments := []
  tags := []
  comments := []

/-- The front matter of the todo as the YAML package writes it. -/
def sampleFront : JsString :=
  js "id: a1\ntitle: First\nstatus: open\ncreated: 2026-01-02T03:04:05.000Z\nupdated: 2026-01-02T03:04:05.000Z"

def samplePlatform : ServicePlatform where
  stringifyYaml front := if front = frontMatter sampleTodo then sampleFront ++ [lf] else Json.stringify (.obj front)
  parseYaml text := if text = sampleFront then some (.obj (frontMatter sampleTodo)) else Json.parse text
  parseFailsafe text := if text = sampleFront then some (.obj (frontMatter sampleTodo)) else Json.parse text
  dateParses _ := true
  shortHash _ := js "000000"
  localeCompare a b := if a = b then 0 else if a < b then -1 else 1
  columnText s := s

def sampleSignature : FileSignature := ⟨1, 1, 200, 7⟩

def sampleFile : File := ⟨true, sampleSignature, encodeUtf8 (serializeTodo samplePlatform.toPlatform sampleTodo)⟩

def sampleWorld : World := ⟨[(js "a1.md", sampleFile)], ⟨[], ⟨none, none⟩⟩, []⟩

def sampleHost : Host where
  now := js "2026-01-02T04:00:00.000Z"
  draws := [js "a1", js "b2"]
  signature := ⟨2, 2, 300, 8⟩
  readFails := false
  checkFails := false
  writeFails := false
  scanFails := false
  index := ⟨false, ⟨3, 3, 4096, 9⟩, none, none, ⟨4, 4, 8192, 9⟩, none⟩

/-- The first instance lists the todos. -/
@[irreducible] def sampleListed : Except Failure Reply × Workspace :=
  Operation.perform samplePlatform sampleHost (.list ⟨true, none, none, none⟩)
    ⟨sampleWorld.disk, sampleWorld.index, .new true⟩

def sampleStamps : Stamps := ⟨fun _ _ => sampleFile.bytes, fun _ => sampleListed.2.index.rows⟩

theorem starts_sample : sampleWorld.Starts samplePlatform sampleStamps := by
  refine ⟨rfl, by decide, fun entry hentry => ?_, ⟨nodup_nil, ?_, ?_⟩, fun h => absurd rfl h⟩
  · rw [mem_singleton.1 hentry]
    rfl
  · intro entry hentry
    cases hentry
  · intro entry hentry
    cases hentry

/-- The index holds the record of the one todo, and reconciling again changes nothing. -/
theorem index_function_of_files_sample : sampleListed.2.index.rows.Perm [(js "a1", toIndexRecord sampleTodo)] ∧
    refreshIndexLocked samplePlatform sampleHost sampleListed.2 = (.ok (), sampleListed.2) := by
  have hrun : Run (Step samplePlatform sampleStamps) sampleWorld [.new true]
      { sampleWorld with services := [.new true] } := Run.single (.new sampleWorld true)
  obtain ⟨hreply, hdisk, huses⟩ : sampleListed.1 = .ok (.todos [sampleTodo]) ∧
      sampleListed.2.disk = sampleWorld.disk ∧ sampleListed.2.service.usesIndex = true := by decide +kernel
  have hop : Operation.perform samplePlatform sampleHost (.list ⟨true, none, none, none⟩)
      ⟨sampleWorld.disk, sampleWorld.index, .new true⟩ = (.ok (.todos [sampleTodo]), sampleListed.2) := by
    have hpair : sampleListed = (sampleListed.1, sampleListed.2) := Prod.mk.eta.symm
    rw [hreply] at hpair
    rw [← hpair]
    unfold sampleListed
    rfl
  have hsigns : sampleStamps.SignsFiles sampleListed.2.disk := by
    rw [hdisk]
    exact starts_sample.files
  have hrowsSigned : sampleStamps.SignsIndex sampleListed.2.index := by
    intro _
    simp only [sampleStamps]
  have hstep : Step samplePlatform sampleStamps { sampleWorld with services := [.new true] }
      (.operate 0 sampleHost (.list ⟨true, none, none, none⟩) (.ok (.todos [sampleTodo])))
      ⟨sampleListed.2.disk, sampleListed.2.index, [sampleListed.2.service]⟩ :=
    .operate rfl hop hsigns hrowsSigned
  have hanswer := (index_function_of_files (fun _ => rfl) starts_sample hrun).2 _ _ _ _ _ hstep
  have hrows := hanswer.2 rfl sampleListed.2.service rfl huses
  have htodos : parsedTodos samplePlatform sampleListed.2.disk = [sampleTodo] := by
    decide +kernel
  have hperm := hrows.1
  rw [htodos] at hperm
  exact ⟨hperm, hrows.2 sampleHost rfl⟩

end Wrenyard.Todos
