import Wrenyard.Todos.IndexMirror

/-!
# What one operation does

An operation first reads, scans and checks; up to there files and index are as they were (`Reading`).  It then writes
at most one file, and reconciles the index with a scan of the files it has left.  So every operation changes the files
by one of the three ways of `Change`, an error of the service means that nothing was changed, and an operation that
reconciles and succeeds leaves the index in step with the files (`Fresh`).
-/

namespace Wrenyard.Todos

open Js Stateful

variable {p : ServicePlatform} {stamps : Stamps} {h : Host} {w₀ : Workspace}

def writtenFile (p : ServicePlatform) (h : Host) (todo : Todo) : File :=
  ⟨true, h.signature, encodeUtf8 (serializeTodo p.toPlatform todo)⟩

/-- How an operation changes the files: not at all, by a todo whose dependencies it checked against the others, or by
a todo with the id and the dependencies it had. -/
inductive Change (p : ServicePlatform) (h : Host) (disk : Disk) : Disk → Prop where
  | same : Change p h disk disk
  | checked {next : Todo} : idRe next.id = true → checkDependencies (parsedTodos p disk) next = .ok () →
      Change p h disk (disk.set (fileName next.id) (writtenFile p h next))
  | kept {id : JsString} {current next : Todo} : idRe id = true →
      readTodoFile p disk (fileName id) id = .ok current → next.id = current.id →
      next.depends_on = current.depends_on → Change p h disk (disk.set (fileName id) (writtenFile p h next))

/-- What the world gives an operation. -/
structure Begins (p : ServicePlatform) (stamps : Stamps) (w : Workspace) : Prop where
  files : stamps.SignsFiles w.disk
  cache : CacheSound p stamps w.service.parseCache
  ready : Ready p stamps w

structure Reading (p : ServicePlatform) (stamps : Stamps) (w₀ w : Workspace) : Prop where
  begins : Begins p stamps w
  disk : w.disk = w₀.disk
  index : w.index = w₀.index
  usesIndex : w.service.usesIndex = w₀.service.usesIndex

structure Fresh (p : ServicePlatform) (w : Workspace) : Prop where
  reconciled : Reconciled p (parsedTodos p w.disk) w
  cache : w.service.parseCache = scannedCache p [] (todoFiles w.disk)
  skipped : w.service.skippedFiles = skippedFiles p w.disk

/-- The end of an operation, whether or not it fails. -/
structure Outcome (p : ServicePlatform) (stamps : Stamps) (h : Host) (w₀ w : Workspace) : Prop where
  change : Change p h w₀.disk w.disk
  cache : stamps.SignsFiles w.disk → CacheSound p stamps w.service.parseCache
  left : Left p stamps w
  usesIndex : w.service.usesIndex = w₀.service.usesIndex

structure Failed (p : ServicePlatform) (stamps : Stamps) (h : Host) (w₀ : Workspace) (f : Failure) (w : Workspace) :
    Prop where
  outcome : Outcome p stamps h w₀ w
  unchanged : ∀ e, f = .todo e → w.disk = w₀.disk ∧ w.index = w₀.index

theorem Reading.refl (h₀ : Begins p stamps w₀) : Reading p stamps w₀ w₀ := ⟨h₀, rfl, rfl, rfl⟩

variable {w : Workspace}

variable (hr : Reading p stamps w₀ w)
include hr

theorem Reading.outcome : Outcome p stamps h w₀ w :=
  ⟨hr.disk ▸ .same, fun _ => hr.begins.cache, hr.begins.ready.left, hr.usesIndex⟩

theorem Reading.failed (f : Failure) : Failed p stamps h w₀ f w :=
  ⟨hr.outcome, fun _ _ => ⟨hr.disk, hr.index⟩⟩

/-- A scan while nothing is written reads the todos that parsing from scratch reads. -/
theorem Reading.scan :
    (scan p w.disk w.service).2 = parsedTodos p w₀.disk ∧
      Reading p stamps w₀ { w with service := (Todos.scan p w.disk w.service).1 } := by
  rw [scan_eq hr.begins.files hr.begins.cache]
  have hfiles := hr.begins.files
  have hready := hr.begins.ready
  refine ⟨congrArg (parsedTodos p) hr.disk, ⟨⟨hfiles, cacheSound_scanned hfiles.todoFiles, ?_⟩, hr.disk, hr.index,
    hr.usesIndex⟩⟩
  exact ⟨hready.valid, hready.signs, hready.sound⟩

omit hr

variable {fails : Bool}

theorem scanLocked_reading :
    Holds (Reading p stamps w₀) (scanLocked p fails)
      (fun todos w => todos = parsedTodos p w₀.disk ∧ Reading p stamps w₀ w) (Failed p stamps h w₀) :=
  scanLocked_spec (fun _ hw => hw.scan) fun _ hw => hw.failed .host

theorem reconcile_scanned (hp : p.Stores) (hready : Ready p stamps w)
    (hcache : w.service.parseCache = scannedCache p [] (todoFiles w.disk))
    (hskipped : w.service.skippedFiles = skippedFiles p w.disk) :
    Holds (· = w) (reconcileIndexLocked p h.index (parsedTodos p w.disk))
      (fun _ w' => SameFiles w w' ∧ Left p stamps w' ∧ (w.service.usesIndex = true → Fresh p w'))
      (fun e w' => e = .host ∧ SameFiles w w' ∧ Left p stamps w') := by
  refine (reconcile_spec hp hready).conseq (fun _ h => h) ?_ fun _ _ h => h
  rintro _ w' ⟨hsame, hleft, hreconciled⟩
  refine ⟨hsame, hleft, fun huses => ⟨?_, ?_, ?_⟩⟩
  · rw [hsame.disk]
    exact hreconciled huses
  · rw [hsame.cache, hsame.disk]
    exact hcache
  · rw [hsame.skipped, hsame.disk]
    exact hskipped

theorem refresh_spec (hp : p.Stores) (hcache : CacheSound p stamps w.service.parseCache) (hready : Ready p stamps w) :
    Holds (· = w) (refreshIndexLocked p h)
      (fun _ w' => w'.disk = w.disk ∧ w'.service.usesIndex = w.service.usesIndex ∧ Left p stamps w' ∧
        (stamps.SignsFiles w.disk → CacheSound p stamps w'.service.parseCache ∧
          (w.service.usesIndex = true → Fresh p w')))
      (fun e w' => e = .host ∧ w'.disk = w.disk ∧ w'.service.usesIndex = w.service.usesIndex ∧ Left p stamps w' ∧
        (stamps.SignsFiles w.disk → CacheSound p stamps w'.service.parseCache)) := by
  refine Holds.get_bind ?_
  rintro w rfl
  cases huses : w.service.usesIndex with
  | false =>
    refine Holds.pure ?_
    rintro w rfl
    exact ⟨rfl, huses, hready.left, fun _ => ⟨hcache, fun h => by cases h⟩⟩
  | true =>
    refine Holds.bind (Q := fun todos s => todos = (scan p w.disk w.service).2 ∧
      s = { w with service := (scan p w.disk w.service).1 }) (scanLocked_spec ?_ ?_) fun todos => ?_
    · rintro w rfl
      exact ⟨rfl, rfl⟩
    · rintro w rfl
      exact ⟨rfl, rfl, huses, hready.left, fun _ => hcache⟩
    rintro s ⟨rfl, rfl⟩
    have hready' : Ready p stamps { w with service := (scan p w.disk w.service).1 } :=
      ⟨hready.valid, hready.signs, hready.sound⟩
    by_cases hfiles : stamps.SignsFiles w.disk
    · rw [scan_eq hfiles hcache] at hready' ⊢
      refine (reconcile_scanned hp hready' rfl rfl).conseq (fun _ h => h) ?_ ?_ _ rfl
      · rintro _ w' ⟨hsame, hleft, hfresh⟩
        refine ⟨hsame.disk, hsame.usesIndex.trans huses, hleft, fun _ => ⟨?_, fun _ => hfresh huses⟩⟩
        rw [hsame.cache]
        exact cacheSound_scanned hfiles.todoFiles
      · rintro e w' ⟨rfl, hsame, hleft⟩
        refine ⟨rfl, hsame.disk, hsame.usesIndex.trans huses, hleft, fun _ => ?_⟩
        rw [hsame.cache]
        exact cacheSound_scanned hfiles.todoFiles
    · refine (reconcile_spec hp hready').conseq (fun _ h => h) ?_ ?_ _ rfl
      · rintro _ w' ⟨hsame, hleft, _⟩
        exact ⟨hsame.disk, hsame.usesIndex.trans huses, hleft, fun h => absurd h hfiles⟩
      · rintro e w' ⟨rfl, hsame, hleft⟩
        exact ⟨rfl, hsame.disk, hsame.usesIndex.trans huses, hleft, fun h => absurd h hfiles⟩

theorem access_reading :
    Holds (Reading p stamps w₀) (access fails) (fun _ => Reading p stamps w₀) (Failed p stamps h w₀) :=
  access_spec fun _ hw => hw.failed .host

theorem require_reading {α : Type} {r : Except TodoError α} :
    Holds (Reading p stamps w₀) (require r) (fun a w => r = .ok a ∧ Reading p stamps w₀ w) (Failed p stamps h w₀) :=
  require_spec (fun _ _ hr hw => ⟨hr, hw⟩) fun e _ _ hw => hw.failed (.todo e)

theorem check_reading {α : Type} {r : Except Failure α} :
    Holds (Reading p stamps w₀) (Stateful.check r) (fun a w => r = .ok a ∧ Reading p stamps w₀ w)
      (Failed p stamps h w₀) :=
  Holds.check (fun _ _ hr hw => ⟨hr, hw⟩) fun f _ _ hw => hw.failed f

theorem holds_of_fact {α : Type} {c : Prop} {P : Workspace → Prop} {m : Operating α} {Q : α → Workspace → Prop}
    {E : Failure → Workspace → Prop} (hm : c → Holds P m Q E) : Holds (fun w => c ∧ P w) m Q E :=
  fun w hw => hm hw.1 w hw.2

variable {id : JsString} {name : JsString}

theorem todoPath_ok (hpath : todoPath id = .ok name) : idRe id = true ∧ name = fileName id := by
  unfold todoPath requireTodoId at hpath
  by_cases hid : idRe id = true
  · simp only [hid, if_true] at hpath
    cases hpath
    exact ⟨hid, rfl⟩
  · simp only [hid, Bool.false_eq_true, if_false] at hpath
    cases hpath

structure Current (p : ServicePlatform) (disk : Disk) (id : JsString) (r : JsString × Todo) : Prop where
  path : idRe id = true
  name : r.1 = fileName id
  read : readTodoFile p disk (fileName id) id = .ok r.2

theorem currentTodo_reading :
    Holds (Reading p stamps w₀) (currentTodo p h id)
      (fun r w => Current p w₀.disk id r ∧ Reading p stamps w₀ w) (Failed p stamps h w₀) := by
  refine Holds.bind require_reading fun name => holds_of_fact fun hpath => ?_
  obtain ⟨hid, rfl⟩ := todoPath_ok hpath
  refine Holds.bind access_reading fun _ => Holds.get_bind fun w hw => ?_
  refine Holds.bind (Q := fun todo s => Current p w₀.disk id (fileName id, todo) ∧ Reading p stamps w₀ s)
    (require_spec ?_ ?_) fun todo => Holds.pure fun _ hs => hs
  · rintro todo s hread rfl
    rw [hw.disk] at hread
    exact ⟨⟨hid, rfl, hread⟩, hw⟩
  · rintro e s _ rfl
    exact hw.failed (.todo e)

variable {reply : Reply}

theorem finish_spec (hp : p.Stores) (w₀ : Workspace) (hchange : Change p h w₀.disk w.disk)
    (hcache : CacheSound p stamps w.service.parseCache) (hready : Ready p stamps w)
    (huses : w.service.usesIndex = w₀.service.usesIndex) :
    Holds (· = w) (refreshIndexLocked p h >>= fun _ => pure reply)
      (fun a w' => a = reply ∧ w'.disk = w.disk ∧ Outcome p stamps h w₀ w' ∧
        (stamps.SignsFiles w'.disk → w₀.service.usesIndex = true → Fresh p w'))
      (Failed p stamps h w₀) := by
  refine Holds.bind (Q := fun _ w' => w'.disk = w.disk ∧ Outcome p stamps h w₀ w' ∧
    (stamps.SignsFiles w'.disk → w₀.service.usesIndex = true → Fresh p w')) ?_ fun _ =>
    Holds.pure fun w' hw' => ⟨rfl, hw'⟩
  refine (refresh_spec hp hcache hready).conseq (fun _ h => h) ?_ ?_
  · rintro _ w' ⟨hdisk, huses', hleft, hsigned⟩
    refine ⟨hdisk, ⟨hdisk ▸ hchange, fun hs => (hsigned (hdisk ▸ hs)).1, hleft, huses'.trans huses⟩, fun hs h => ?_⟩
    exact (hsigned (hdisk ▸ hs)).2 (huses.trans h)
  · rintro e w' ⟨rfl, hdisk, huses', hleft, hsigned⟩
    exact ⟨⟨hdisk ▸ hchange, fun hs => hsigned (hdisk ▸ hs), hleft, huses'.trans huses⟩, fun e h => by cases h⟩

/-- How an operation that answers ends. -/
def Answered (p : ServicePlatform) (stamps : Stamps) (h : Host) (w₀ : Workspace) (reply : Reply) (a : Reply)
    (w : Workspace) : Prop :=
  a = reply ∧ Outcome p stamps h w₀ w ∧ (stamps.SignsFiles w.disk → w₀.service.usesIndex = true → Fresh p w)

theorem answer_reading (hp : p.Stores) :
    Holds (Reading p stamps w₀) (refreshIndexLocked p h >>= fun _ => pure reply)
      (Answered p stamps h w₀ reply) (Failed p stamps h w₀) := by
  intro w hw
  exact ((finish_spec hp w₀ (hw.disk ▸ .same) hw.begins.cache hw.begins.ready hw.usesIndex) w rfl).mono
    (fun _ _ ha => ⟨ha.1, ha.2.2⟩) fun _ _ he => he

variable {next : Todo}

theorem write_reading (hp : p.Stores)
    (hchange : Change p h w₀.disk (w₀.disk.set name (writtenFile p h next))) :
    Holds (Reading p stamps w₀) (writeTodo p h name next >>= fun _ => refreshIndexLocked p h >>= fun _ => pure reply)
      (Answered p stamps h w₀ reply) (Failed p stamps h w₀) := by
  intro w hw
  refine Holds.bind (P := (· = w)) (Q := fun _ s => s = { w with disk := w.disk.set name (writtenFile p h next) })
    ?_ (fun _ => ?_) w rfl
  · refine Holds.bind (access_spec ?_) fun _ => Holds.modify ?_
    · rintro s rfl
      exact hw.failed .host
    · rintro s rfl
      rfl
  · have hready := hw.begins.ready
    have hset : Change p h w₀.disk (w.disk.set name (writtenFile p h next)) := by
      rw [hw.disk]
      exact hchange
    refine (finish_spec hp w₀ (w := { w with disk := w.disk.set name (writtenFile p h next) })
      hset hw.begins.cache ⟨hready.valid, hready.signs, hready.sound⟩ hw.usesIndex).conseq
      (fun _ h => h) ?_ fun _ _ he => he
    exact fun _ _ ha => ⟨ha.1, ha.2.2⟩

theorem writeWhen_reading (hp : p.Stores) {c : Prop} [Decidable c]
    (hchange : Change p h w₀.disk (w₀.disk.set name (writtenFile p h next))) :
    Holds (Reading p stamps w₀)
      (Stateful.when c (writeTodo p h name next) >>= fun _ => refreshIndexLocked p h >>= fun _ => pure reply)
      (Answered p stamps h w₀ reply) (Failed p stamps h w₀) := by
  by_cases hc : c <;> unfold Stateful.when
  · rw [if_pos hc]
    exact write_reading hp hchange
  · rw [if_neg hc]
    exact Holds.bind (Holds.pure fun _ hw => hw) fun _ => answer_reading hp

/-! ### Operations -/

theorem readTodoFile_ok {disk : Disk} {current : Todo} (hid : idRe id = true)
    (hread : readTodoFile p disk (fileName id) id = .ok current) : current.id = id := by
  unfold readTodoFile at hread
  split at hread
  · cases hread
  split at hread
  · have hstem := (parseTodoFile_id hread).1
    rw [hstem, stem_fileName (ne_nil_of_idRe hid)]
  · cases hread

theorem updatedTodo_id {input : TodoUpdateInput} {current : Todo} (hnext : updatedTodo h input current = .ok next) :
    next.id = current.id := by
  obtain ⟨_, -, hnext⟩ := Checks.bind_eq_ok.1 hnext
  obtain ⟨_, -, hnext⟩ := Checks.bind_eq_ok.1 hnext
  obtain ⟨_, -, hnext⟩ := Checks.bind_eq_ok.1 hnext
  obtain ⟨title, -, hnext⟩ := Checks.bind_eq_ok.1 hnext
  obtain ⟨status, -, hnext⟩ := Checks.bind_eq_ok.1 hnext
  obtain ⟨depends_on, -, hnext⟩ := Checks.bind_eq_ok.1 hnext
  obtain ⟨attachments, -, hnext⟩ := Checks.bind_eq_ok.1 hnext
  obtain ⟨project, -, hnext⟩ := Checks.bind_eq_ok.1 hnext
  cases hnext
  rfl

theorem createdTodo_id {input : TodoCreateInput} {todo : Todo} (htodo : createdTodo h input id = .ok todo) :
    todo.id = id := by
  obtain ⟨project, -, htodo⟩ := Checks.bind_eq_ok.1 htodo
  obtain ⟨title, -, htodo⟩ := Checks.bind_eq_ok.1 htodo
  obtain ⟨status, -, htodo⟩ := Checks.bind_eq_ok.1 htodo
  obtain ⟨depends_on, -, htodo⟩ := Checks.bind_eq_ok.1 htodo
  obtain ⟨attachments, -, htodo⟩ := Checks.bind_eq_ok.1 htodo
  cases htodo
  rfl

theorem dependencies_reading :
    Holds (Reading p stamps w₀) (assertDependenciesKnownLocked p h next)
      (fun _ w => checkDependencies (parsedTodos p w₀.disk) next = .ok () ∧ Reading p stamps w₀ w)
      (Failed p stamps h w₀) := by
  refine Holds.bind scanLocked_reading fun todos => holds_of_fact ?_
  rintro rfl
  exact require_reading

/-- An operation whose result is an outcome of the workspace. -/
def Changes (p : ServicePlatform) (stamps : Stamps) (h : Host) (w₀ : Workspace) {α : Type} (m : Operating α) : Prop :=
  Holds (Reading p stamps w₀) m
    (fun _ w => Outcome p stamps h w₀ w ∧ (stamps.SignsFiles w.disk → w₀.service.usesIndex = true → Fresh p w))
    (Failed p stamps h w₀)

theorem createTodo_reading (hp : p.Stores) {input : TodoCreateInput} :
    Changes p stamps h w₀ (createTodo p h input) := by
  refine Holds.get_bind fun w hw => ?_
  refine Holds.bind (P := (· = w)) (Q := fun id s => Reading p stamps w₀ s) ?_ fun id => ?_
  · refine Holds.check ?_ ?_
    · rintro id s - rfl
      exact hw
    · rintro f s - rfl
      exact hw.failed f
  refine Holds.bind require_reading fun todo => holds_of_fact fun htodo => ?_
  refine Holds.bind dependencies_reading fun _ => holds_of_fact fun hchecked => ?_
  refine Holds.bind require_reading fun name => holds_of_fact fun hpath => ?_
  obtain ⟨hid, rfl⟩ := todoPath_ok hpath
  refine Holds.get_bind fun w' hw' => ?_
  refine Holds.bind (P := (· = w')) (Q := fun _ => Reading p stamps w₀) (Holds.when (fun _ => Holds.fail ?_) ?_)
    fun _ => ?_
  · rintro s rfl
    exact hw'.failed _
  · rintro - s rfl
    exact hw'
  · have heq := createdTodo_id htodo
    subst heq
    exact (write_reading hp (.checked hid hchecked)).conseq (fun _ h => h) (fun _ _ ha => ha.2) fun _ _ he => he

variable {author : JsString}

theorem updateTodo_reading (hp : p.Stores) {input : TodoUpdateInput} :
    Changes p stamps h w₀ (updateTodo p h input author) := by
  refine Holds.bind currentTodo_reading fun current => holds_of_fact fun hcurrent => ?_
  refine Holds.bind require_reading fun next => holds_of_fact fun hnext => ?_
  refine Holds.bind dependencies_reading fun _ => holds_of_fact fun hchecked => ?_
  have hid : next.id = input.id := (updatedTodo_id hnext).trans (readTodoFile_ok hcurrent.path hcurrent.read)
  have hname : current.1 = fileName next.id := by rw [hid, hcurrent.name]
  rw [hname]
  exact (write_reading hp (.checked (hid ▸ hcurrent.path) hchecked)).conseq (fun _ h => h) (fun _ _ ha => ha.2)
    fun _ _ he => he

theorem Current.change {disk : Disk} {current : JsString × Todo} (hcurrent : Current p disk id current)
    (hid : next.id = current.2.id) (hdeps : next.depends_on = current.2.depends_on) :
    Change p h disk (disk.set current.1 (writtenFile p h next)) := by
  rw [hcurrent.name]
  exact .kept hcurrent.path hcurrent.read hid hdeps

theorem addTodoTags_reading (hp : p.Stores) {tags : List JsString} :
    Changes p stamps h w₀ (addTodoTags p h id tags author) := by
  refine Holds.bind currentTodo_reading fun current => holds_of_fact fun hcurrent => ?_
  refine Holds.bind require_reading fun additions => holds_of_fact fun _ => ?_
  exact (writeWhen_reading hp (by exact hcurrent.change rfl rfl)).conseq (fun _ h => h) (fun _ _ ha => ha.2)
    fun _ _ he => he

theorem removeTodoTag_reading (hp : p.Stores) {tag : JsString} :
    Changes p stamps h w₀ (removeTodoTag p h id tag author) := by
  refine Holds.bind currentTodo_reading fun current => holds_of_fact fun hcurrent => ?_
  refine Holds.bind require_reading fun target => holds_of_fact fun _ => ?_
  exact (writeWhen_reading hp (by exact hcurrent.change rfl rfl)).conseq (fun _ h => h) (fun _ _ ha => ha.2)
    fun _ _ he => he

theorem appendTodoComment_reading (hp : p.Stores) {text : JsString} :
    Changes p stamps h w₀ (appendTodoComment p h id author text) := by
  refine Holds.bind currentTodo_reading fun current => holds_of_fact fun hcurrent => ?_
  refine Holds.bind check_reading fun commentId => holds_of_fact fun _ => ?_
  refine Holds.bind require_reading fun author => holds_of_fact fun _ => ?_
  exact (write_reading hp (by exact hcurrent.change rfl rfl)).conseq (fun _ h => h) (fun _ _ ha => ha.2)
    fun _ _ he => he

theorem deleteTodoComment_reading (hp : p.Stores) {commentId : JsString} :
    Changes p stamps h w₀ (deleteTodoComment p h id commentId author) := by
  refine Holds.bind currentTodo_reading fun current => holds_of_fact fun hcurrent => ?_
  refine Holds.bind require_reading fun author => holds_of_fact fun _ => ?_
  refine Holds.bind require_reading fun comments => holds_of_fact fun _ => ?_
  exact (write_reading hp (by exact hcurrent.change rfl rfl)).conseq (fun _ h => h) (fun _ _ ha => ha.2)
    fun _ _ he => he

theorem scan_fresh :
    Holds (Reading p stamps w₀) (scanLocked p fails)
      (fun todos w => todos = parsedTodos p w₀.disk ∧ Reading p stamps w₀ w ∧
        w.service.parseCache = scannedCache p [] (todoFiles w.disk) ∧
        w.service.skippedFiles = skippedFiles p w.disk) (Failed p stamps h w₀) := by
  refine scanLocked_spec (fun w hw => ?_) fun w hw => hw.failed .host
  obtain ⟨htodos, hreading⟩ := hw.scan
  rw [scan_eq hw.begins.files hw.begins.cache] at htodos hreading ⊢
  exact ⟨htodos, hreading, rfl, rfl⟩

theorem reconcile_reading (hp : p.Stores) (hw : Reading p stamps w₀ w)
    (hcache : w.service.parseCache = scannedCache p [] (todoFiles w.disk))
    (hskipped : w.service.skippedFiles = skippedFiles p w.disk) :
    Holds (· = w) (reconcileIndexLocked p h.index (parsedTodos p w₀.disk) >>= fun _ => pure reply)
      (Answered p stamps h w₀ reply) (Failed p stamps h w₀) := by
  rw [← hw.disk]
  refine Holds.bind (Q := fun _ w' => Outcome p stamps h w₀ w' ∧
    (stamps.SignsFiles w'.disk → w₀.service.usesIndex = true → Fresh p w')) ?_ fun _ =>
    Holds.pure fun w' hw' => ⟨rfl, hw'⟩
  have houtcome : ∀ w', SameFiles w w' → Left p stamps w' → Outcome p stamps h w₀ w' := by
    intro w' hsame hleft
    refine ⟨?_, fun _ => ?_, hleft, hsame.usesIndex.trans hw.usesIndex⟩
    · rw [hsame.disk, hw.disk]
      exact .same
    · rw [hsame.cache]
      exact hw.begins.cache
  refine (reconcile_scanned hp hw.begins.ready hcache hskipped).conseq (fun _ h => h) ?_ ?_
  · rintro _ w' ⟨hsame, hleft, hfresh⟩
    exact ⟨houtcome w' hsame hleft, fun _ huses => hfresh (hw.usesIndex.trans huses)⟩
  · rintro e w' ⟨rfl, hsame, hleft⟩
    exact ⟨houtcome w' hsame hleft, fun e h => by cases h⟩

theorem listTodos_reading (hp : p.Stores) {params : TodoListParams} :
    Holds (Reading p stamps w₀) (listTodos p h params)
      (Answered p stamps h w₀ (listed params (parsedTodos p w₀.disk))) (Failed p stamps h w₀) := by
  refine Holds.bind scan_fresh fun todos => holds_of_fact ?_
  rintro rfl w ⟨hw, hcache, hskipped⟩
  exact reconcile_reading hp hw hcache hskipped w rfl

theorem rebuildIndex_reading (hp : p.Stores) :
    Holds (Reading p stamps w₀) (rebuildIndex p h)
      (Answered p stamps h w₀ (.records ((parsedTodos p w₀.disk).map toIndexRecord))) (Failed p stamps h w₀) := by
  refine Holds.bind scan_fresh fun todos => holds_of_fact ?_
  rintro rfl w ⟨hw, hcache, hskipped⟩
  refine Holds.bind (P := (· = w)) (Q := fun _ s =>
    s = { w with service := { w.service with indexSnapshot := none } }) (Holds.modify ?_) (fun _ => ?_) w rfl
  · rintro s rfl
    rfl
  have hready := hw.begins.ready
  have hsound : IndexSound p stamps { w.service with indexSnapshot := none } := by
    intro snapshot signature hsnapshot
    cases hsnapshot
  exact reconcile_reading hp ⟨⟨hw.begins.files, hw.begins.cache, ⟨hready.valid, hready.signs, hsound⟩⟩, hw.disk,
    hw.index, hw.usesIndex⟩ hcache hskipped

theorem readIndex_reading :
    Holds (Reading p stamps w₀) (readIndex p h) (fun _ w => Outcome p stamps h w₀ w) (Failed p stamps h w₀) := by
  refine Holds.get_bind fun w hw => ?_
  cases huses : w.service.usesIndex with
  | false =>
    refine Holds.bind (P := (· = w)) (Q := fun _ => Reading p stamps w₀) ?_ fun todos =>
      Holds.pure fun s hs => hs.outcome
    refine scanLocked_reading.conseq ?_ (fun _ _ ha => ha.2) fun _ _ he => he
    rintro s rfl
    exact hw
  | true =>
    refine Holds.bind (P := (· = w)) (Q := fun _ s => s = w) (access_spec ?_) fun _ =>
      Holds.bind (Q := fun _ s => s = { w with index := ⟨openIndex w.index, ⟨some h.index.readDb, h.index.readWal⟩⟩ })
        (Holds.modify ?_) fun _ => Holds.pure ?_
    · rintro s rfl
      exact hw.failed .host
    · rintro s rfl
      rfl
    · rintro s rfl
      obtain ⟨hkeyed, hstored⟩ := valid_openIndex hw.begins.ready.valid
      exact ⟨hw.disk ▸ .same, fun _ => hw.begins.cache,
        ⟨⟨hkeyed.nodup, hkeyed.keyed, hstored⟩, fun _ => hw.begins.ready.sound⟩, hw.usesIndex⟩

def Operation.reconciles : Operation → Bool
  | read _ => false
  | readIndex => false
  | _ => true

def Operation.Answers (todos : List Todo) : Operation → Reply → Prop
  | list params, reply => reply = listed params todos
  | rebuild, reply => reply = .records (todos.map toIndexRecord)
  | _, _ => True

theorem perform_spec (hp : p.Stores) (op : Operation) :
    Holds (Reading p stamps w₀) (op.perform p h)
      (fun reply w => Outcome p stamps h w₀ w ∧
        (op.reconciles = true → stamps.SignsFiles w.disk → w₀.service.usesIndex = true → Fresh p w) ∧
        op.Answers (parsedTodos p w₀.disk) reply)
      (Failed p stamps h w₀) := by
  cases op with
  | list params =>
    exact (listTodos_reading hp).conseq (fun _ h => h) (fun _ _ ha => ⟨ha.2.1, fun _ => ha.2.2, ha.1⟩)
      fun _ _ he => he
  | read id =>
    refine Holds.bind currentTodo_reading fun current => Holds.pure fun w hw => ?_
    exact ⟨hw.2.outcome, fun hr => (by cases hr), trivial⟩
  | refresh =>
    exact (answer_reading hp).conseq (fun _ h => h) (fun _ _ ha => ⟨ha.2.1, fun _ => ha.2.2, trivial⟩)
      fun _ _ he => he
  | create input =>
    exact (createTodo_reading hp).conseq (fun _ h => h) (fun _ _ ha => ⟨ha.1, fun _ => ha.2, trivial⟩)
      fun _ _ he => he
  | update input author =>
    exact (updateTodo_reading hp).conseq (fun _ h => h) (fun _ _ ha => ⟨ha.1, fun _ => ha.2, trivial⟩)
      fun _ _ he => he
  | addTags id tags author =>
    exact (addTodoTags_reading hp).conseq (fun _ h => h) (fun _ _ ha => ⟨ha.1, fun _ => ha.2, trivial⟩)
      fun _ _ he => he
  | removeTag id tag author =>
    exact (removeTodoTag_reading hp).conseq (fun _ h => h) (fun _ _ ha => ⟨ha.1, fun _ => ha.2, trivial⟩)
      fun _ _ he => he
  | comment id author text =>
    exact (appendTodoComment_reading hp).conseq (fun _ h => h) (fun _ _ ha => ⟨ha.1, fun _ => ha.2, trivial⟩)
      fun _ _ he => he
  | deleteComment id commentId author =>
    exact (deleteTodoComment_reading hp).conseq (fun _ h => h) (fun _ _ ha => ⟨ha.1, fun _ => ha.2, trivial⟩)
      fun _ _ he => he
  | rebuild =>
    exact (rebuildIndex_reading hp).conseq (fun _ h => h) (fun _ _ ha => ⟨ha.2.1, fun _ => ha.2.2, ha.1⟩)
      fun _ _ he => he
  | readIndex =>
    exact readIndex_reading.conseq (fun _ h => h) (fun _ _ ha => ⟨ha, fun hr => (by cases hr), trivial⟩)
      fun _ _ he => he

end Wrenyard.Todos
