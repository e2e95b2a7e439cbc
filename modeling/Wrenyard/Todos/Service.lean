import Wrenyard.Lib.Comparator
import Wrenyard.Lib.DepthFirst
import Wrenyard.Lib.Stateful
import Wrenyard.Todos.Markdown

/-!
# The todo service

A service instance reads and writes the todo files of one workspace and mirrors their front matter into an index
database.  Every operation runs under the lock of the workspace, from its beginning to its end, so that an operation
is one step; only `getTodo` and `readIndex` read without the lock, and they change neither files nor rows.

What the host answers during an operation is given with it (`Host`): the clock, the drawn ids, the signatures `stat`
reports of what was written, and which accesses fail.
-/

namespace Wrenyard.Todos

open Js

/-- The filesystem facts that decide whether a cached parse is still valid. -/
structure FileSignature where
  mtimeMs : ℚ
  ctimeMs : ℚ
  size : Nat
  ino : Nat
deriving DecidableEq

structure File where
  regular : Bool
  signature : FileSignature
  bytes : List UInt8
deriving DecidableEq

/-- The todos directory by file name, in the order `readdir` lists it. -/
abbrev Disk := OMap JsString File

/-- The parsed front-matter fields mirrored into the index. -/
structure TodoIndexRecord where
  id : JsString
  title : JsString
  status : TodoStatus
  project : Option JsString
  depends_on : List JsString
  created : JsString
  updated : JsString
deriving DecidableEq

/-- The index database and its WAL sidecar; a missing file is `none`. -/
structure IndexFileSignature where
  db : Option FileSignature
  wal : Option FileSignature
deriving DecidableEq

structure IndexFile where
  rows : OMap JsString TodoIndexRecord
  signature : IndexFileSignature

structure CachedTodo where
  signature : FileSignature
  todo : Todo

/-- One file skipped during a scan because it could not be parsed. -/
structure SkippedTodoFile where
  file : JsString
  reason : JsString

structure WorkspaceTodoService where
  usesIndex : Bool
  parseCache : OMap JsString CachedTodo
  indexSnapshot : Option (OMap JsString TodoIndexRecord)
  indexSignature : Option IndexFileSignature
  skippedFiles : List SkippedTodoFile

def WorkspaceTodoService.new (usesIndex : Bool) : WorkspaceTodoService := ⟨usesIndex, [], none, none, []⟩

structure ServicePlatform extends Platform where
  localeCompare : JsString → JsString → ℚ
  columnText : JsString → JsString

/-- The answers of the index database: its signature behind a read and behind a write, and whether they fail.  A write
that fails has applied the given number of batches. -/
structure IndexHost where
  readFails : Bool
  readDb : FileSignature
  readWal : Option FileSignature
  writeFailsAt : Option Nat
  writtenDb : FileSignature
  writtenWal : Option FileSignature

structure Host where
  /-- `new Date().toISOString()`. -/
  now : JsString
  /-- The hexadecimal ids drawn, in order. -/
  draws : List JsString
  /-- The signature of the file the operation writes. -/
  signature : FileSignature
  /-- Whether the accesses to files fail other than for absence: the read of one todo, the scan of a dependency check,
  the write, and the scan of a reconcile. -/
  readFails : Bool
  checkFails : Bool
  writeFails : Bool
  scanFails : Bool
  index : IndexHost

inductive Failure where
  | todo (error : TodoError)
  | host
  | unfinished
deriving DecidableEq

structure Workspace where
  disk : Disk
  index : IndexFile
  service : WorkspaceTodoService

abbrev Operating := Stateful Workspace Failure

def require {α : Type} (r : Except TodoError α) : Operating α :=
  Stateful.check (match r with
    | .ok a => .ok a
    | .error e => .error (.todo e))

def access (fails : Bool) : Operating Unit := Stateful.when fails (Stateful.fail .host)

/-- Every todo is one Markdown file named by its id. -/
def TODO_EXT : JsString := js ".md"

def endsWith (s suffix : JsString) : Bool := suffix.isSuffixOf s

/-- `basename(filePath, TODO_EXT)`. -/
def stem (name : JsString) : JsString :=
  if endsWith name TODO_EXT && name != TODO_EXT then name.take (name.length - 3) else name

def fileName (id : JsString) : JsString := id ++ TODO_EXT

def parseFile (p : ServicePlatform) (name : JsString) (bytes : List UInt8) : Except TodoError Todo :=
  parseTodoFile p.toPlatform (stem name) (decodeUtf8 bytes)

def scanFile (p : ServicePlatform) (cache : OMap JsString CachedTodo) (name : JsString) (file : File) :
    Except TodoError Todo :=
  match cache.get name with
  | some cached => if cached.signature = file.signature then .ok cached.todo else parseFile p name file.bytes
  | none => parseFile p name file.bytes

def todoFiles (disk : Disk) : Disk := disk.filter fun entry => entry.2.regular && endsWith entry.1 TODO_EXT

def scannedCache (p : ServicePlatform) (cache : OMap JsString CachedTodo) (files : Disk) : OMap JsString CachedTodo :=
  files.filterMap fun entry =>
    match scanFile p cache entry.1 entry.2 with
    | .ok todo => some (entry.1, ⟨entry.2.signature, todo⟩)
    | .error _ => none

def scannedSkips (p : ServicePlatform) (cache : OMap JsString CachedTodo) (files : Disk) : List SkippedTodoFile :=
  files.filterMap fun entry =>
    match scanFile p cache entry.1 entry.2 with
    | .ok _ => none
    | .error error => some ⟨entry.1, error.message⟩

/-- `todos.sort((a, b) => a.id.localeCompare(b.id))`. -/
def sortTodos (p : ServicePlatform) (todos : List Todo) : List Todo :=
  Comparator.sort (fun a b => p.localeCompare a.id b.id) todos

def scan (p : ServicePlatform) (disk : Disk) (service : WorkspaceTodoService) : WorkspaceTodoService × List Todo :=
  let next := scannedCache p service.parseCache (todoFiles disk)
  ({ service with
      parseCache := next, skippedFiles := scannedSkips p service.parseCache (todoFiles disk) },
    sortTodos p (next.map (·.2.todo)))

/-- Scan every todo file, reusing cached parses while a file's signature holds.  Every file that is there can be
read. -/
def scanLocked (p : ServicePlatform) (fails : Bool) : Operating (List Todo) := do
  access fails
  let w ← Stateful.get
  Stateful.modify fun w => { w with service := (scan p w.disk w.service).1 }
  pure (scan p w.disk w.service).2

def toIndexRecord (todo : Todo) : TodoIndexRecord where
  id := todo.id
  title := todo.title
  status := todo.status
  project := todo.project
  depends_on := todo.depends_on
  created := todo.created
  updated := todo.updated

def sameIndexRecord (a b : TodoIndexRecord) : Bool :=
  a.id = b.id && a.title = b.title && a.status = b.status && a.project = b.project && a.created = b.created &&
    a.updated = b.updated && a.depends_on = b.depends_on

/-- A record as its row gives it back.  An id, a time and the JSON text of the dependencies are ASCII. -/
def storedRecord (p : ServicePlatform) (r : TodoIndexRecord) : TodoIndexRecord :=
  { r with title := p.columnText r.title, project := r.project.map p.columnText }

inductive Statement where
  | remove (id : JsString)
  | upsert (row : TodoIndexRecord)

def Statement.run (p : ServicePlatform) (rows : OMap JsString TodoIndexRecord) :
    Statement → OMap JsString TodoIndexRecord
  | remove id => rows.delete id
  | upsert row => rows.set row.id (storedRecord p row)

/-- Index rows applied per transaction. -/
def INDEX_WRITE_BATCH : Nat := 500

/-- Open the database: a missing file is recreated with an empty table. -/
def openIndex (index : IndexFile) : OMap JsString TodoIndexRecord :=
  if index.signature.db = none then [] else index.rows

def readIndexRows (rows : OMap JsString TodoIndexRecord) : List TodoIndexRecord :=
  (rows.insertionSort fun a b => encodeUtf8 a.1 ≤ encodeUtf8 b.1).map Prod.snd

/-- `new Map(records.map((record) => [record.id, record]))`. -/
def recordMap (records : List TodoIndexRecord) : OMap JsString TodoIndexRecord :=
  records.foldl (fun rows record => OMap.set rows record.id record) []

def readIndexSnapshot (h : IndexHost) : Operating (OMap JsString TodoIndexRecord) := do
  access h.readFails
  let w ← Stateful.get
  Stateful.modify fun w => { w with index := ⟨openIndex w.index, ⟨some h.readDb, h.readWal⟩⟩ }
  pure (recordMap (readIndexRows (openIndex w.index)))

def appliedStatements (h : IndexHost) (statements : List Statement) : List Statement :=
  match h.writeFailsAt with
  | none => statements
  | some batches => statements.take (INDEX_WRITE_BATCH * batches)

/-- Delete and upsert the given rows in bounded transactions. -/
def writeIndexChanges (p : ServicePlatform) (h : IndexHost) (statements : List Statement) : Operating Unit := do
  Stateful.modify fun w =>
    { w with index :=
      ⟨(appliedStatements h statements).foldl (Statement.run p) (openIndex w.index),
        ⟨some h.writtenDb, h.writtenWal⟩⟩ }
  access h.writeFailsAt.isSome

/-- A failed batch may have applied partially, so neither the rows nor the signature can be trusted. -/
def distrustIndex : Operating Unit :=
  Stateful.modify fun w => { w with service := { w.service with indexSnapshot := none, indexSignature := none } }

def trustsSnapshot (w : Workspace) : Bool :=
  w.service.indexSnapshot.isSome && w.index.signature.db.isSome &&
    w.service.indexSignature == some w.index.signature

def baseline (h : IndexHost) : Operating (OMap JsString TodoIndexRecord) := do
  let w ← Stateful.get
  if trustsSnapshot w then pure (w.service.indexSnapshot.getD []) else readIndexSnapshot h

def indexChanges (current next : OMap JsString TodoIndexRecord) : List Statement :=
  ((current.keys.filter fun id => !next.has id).map .remove) ++
    ((next.filter fun entry => !(current.get entry.1).any (sameIndexRecord · entry.2)).map (.upsert ·.2))

def indexRows (todos : List Todo) : OMap JsString TodoIndexRecord := recordMap (todos.map toIndexRecord)

def reconcileIndexLocked (p : ServicePlatform) (h : IndexHost) (todos : List Todo) : Operating Unit := do
  let w ← Stateful.get
  if !w.service.usesIndex then pure ()
  else
    let current ← baseline h
    Stateful.when (indexChanges current (indexRows todos) ≠ [])
      (Stateful.onFailure (writeIndexChanges p h (indexChanges current (indexRows todos))) distrustIndex)
    Stateful.modify fun w =>
      { w with service :=
        { w.service with indexSnapshot := some (indexRows todos), indexSignature := some w.index.signature } }

def refreshIndexLocked (p : ServicePlatform) (h : Host) : Operating Unit := do
  let w ← Stateful.get
  if !w.service.usesIndex then pure ()
  else
    let todos ← scanLocked p h.scanFails
    reconcileIndexLocked p h.index todos

def todoPath (id : JsString) : Except TodoError JsString := fileName <$> requireTodoId (some (.str id)) (js "Todo")

def readTodoFile (p : ServicePlatform) (disk : Disk) (name id : JsString) : Except TodoError Todo :=
  match disk.get name with
  | none => .error ⟨.missing, js "Todo not found: " ++ id⟩
  | some file =>
    if file.regular then parseFile p name file.bytes
    else .error ⟨.notAFile, js "Todo is not a regular file: " ++ id⟩

def currentTodo (p : ServicePlatform) (h : Host) (id : JsString) : Operating (JsString × Todo) := do
  let name ← require (todoPath id)
  access h.readFails
  let w ← Stateful.get
  let todo ← require (readTodoFile p w.disk name id)
  pure (name, todo)

def writeTodo (p : ServicePlatform) (h : Host) (name : JsString) (todo : Todo) : Operating Unit := do
  access h.writeFails
  Stateful.modify fun w =>
    { w with disk := w.disk.set name ⟨true, h.signature, encodeUtf8 (serializeTodo p.toPlatform todo)⟩ }

def dependencyGraph (todos : List Todo) (todo : Todo) : OMap JsString (List JsString) :=
  (todos.foldl (fun graph other => if other.id = todo.id then graph else OMap.set graph other.id other.depends_on)
    []).set todo.id todo.depends_on

def knownDependencies (graph : OMap JsString (List JsString)) (node : JsString) : List JsString :=
  ((graph.get node).getD []).filter fun dependency => graph.has dependency

def assertAcyclic (id : JsString) (graph : OMap JsString (List JsString)) : Except TodoError Unit :=
  match DepthFirst.visitAll (knownDependencies graph) (graph.keys.length + 1) graph.keys with
  | .ok _ => .ok ()
  | .error _ => .error (todoError .dependencyCycle id (js "dependency cycle detected"))

def assertKnown (todo : Todo) (graph : OMap JsString (List JsString)) : Except TodoError Unit :=
  match todo.depends_on.find? fun dependency => !graph.has dependency with
  | some dependency =>
    .error (todoError .unknownDependency todo.id (js "depends on unknown todo: " ++ dependency))
  | none => .ok ()

def checkDependencies (todos : List Todo) (todo : Todo) : Except TodoError Unit := do
  assertKnown todo (dependencyGraph todos todo)
  assertAcyclic todo.id (dependencyGraph todos todo)

def assertDependenciesKnownLocked (p : ServicePlatform) (h : Host) (todo : Todo) : Operating Unit := do
  let todos ← scanLocked p h.checkFails
  require (checkDependencies todos todo)

/-! ### Operations -/

structure TodoListParams where
  full : Bool
  status : Option TodoStatus
  project : Option JsString
  tag : Option JsString

structure TodoCreateInput where
  title : JsString
  status : Option JsString
  project : Option JsString
  depends_on : Option (List JsString)
  request : Option JsString
  acceptance : Option JsString
  attachments : Option (List JsString)

structure TodoUpdateInput where
  id : JsString
  title : Option JsString
  status : Option JsString
  project : Option JsString
  depends_on : Option (List JsString)
  request : Option JsString
  acceptance : Option JsString
  attachments : Option (List JsString)
  oldTitle : Option JsString
  oldRequest : Option JsString
  oldAcceptance : Option JsString

structure TodoChange where
  todoId : JsString
  event : JsString
  author : JsString
deriving DecidableEq

structure TodoCompact where
  id : JsString
  title : JsString
  status : TodoStatus
  project : Option JsString
  depends_on : List JsString
  updated : JsString
  tags : List JsString
deriving DecidableEq

def toCompactTodo (todo : Todo) : TodoCompact where
  id := todo.id
  title := todo.title
  status := todo.status
  project := todo.project
  depends_on := todo.depends_on
  updated := todo.updated
  tags := todo.tags

/-- What an operation answers, with the changes its observers are told. -/
inductive Reply where
  | todos (todos : List Todo)
  | compact (todos : List TodoCompact)
  | todo (todo : Todo) (changes : List TodoChange)
  | tags (tags : List JsString) (changed : Bool) (changes : List TodoChange)
  | comments (comments : List TodoComment) (changed : Bool) (changes : List TodoChange)
  | records (records : List TodoIndexRecord)
  | done
deriving DecidableEq

def jsonTexts (texts : List JsString) : Json := .arr (texts.map .str)

def listed (params : TodoListParams) (todos : List Todo) : Reply :=
  let filtered := todos.filter fun todo =>
    params.status.all (todo.status = ·) && params.project.all (todo.project = some ·) &&
      params.tag.all (· ∈ todo.tags)
  if params.full then .todos filtered else .compact (filtered.map toCompactTodo)

/-- Every todo currently on disk, ordered by id. -/
def listTodos (p : ServicePlatform) (h : Host) (params : TodoListParams) : Operating Reply := do
  let todos ← scanLocked p h.scanFails
  reconcileIndexLocked p h.index todos
  pure (listed params todos)

/-- One todo by id, read without the lock; `refreshIndex` follows as a step of its own. -/
def getTodo (p : ServicePlatform) (h : Host) (id : JsString) : Operating Reply := do
  let current ← currentTodo p h id
  pure (.todo current.2 [])

def refreshIndex (p : ServicePlatform) (h : Host) : Operating Reply := do
  refreshIndexLocked p h
  pure .done

def nextId (h : Host) (disk : Disk) : Except Failure JsString :=
  match h.draws.find? fun id => !disk.has (fileName id) with
  | some id => .ok id
  | none => .error .unfinished

/-- The present value, or the given one in its place when it passes. -/
def replaced {α β : Type} (input : Option α) (current : β) (check : α → Except TodoError β) : Except TodoError β :=
  match input with
  | none => .ok current
  | some value => check value

/-- The todo that a creation is about to write. -/
def createdTodo (h : Host) (input : TodoCreateInput) (id : JsString) : Except TodoError Todo := do
  let project ← readProject (input.project.map .str) id
  let title ← requireTitle (some (.str input.title)) id
  let status ← replaced input.status .open_ fun status => requireStatus (some (.str status)) id
  let depends_on ← requireDependencies (input.depends_on.map jsonTexts) id
  let attachments ← requireAttachments (input.attachments.map jsonTexts) id
  pure {
    id, title, status, project, depends_on
    created := h.now
    updated := h.now
    request := input.request.getD []
    acceptance := input.acceptance.getD []
    attachments
    tags := []
    comments := [] }

def createTodo (p : ServicePlatform) (h : Host) (input : TodoCreateInput) : Operating Reply := do
  let w ← Stateful.get
  let id ← Stateful.check (nextId h w.disk)
  let todo ← require (createdTodo h input id)
  assertDependenciesKnownLocked p h todo
  let name ← require (todoPath id)
  let w ← Stateful.get
  Stateful.when (w.disk.has name) (Stateful.fail (.todo ⟨.exists_, js "Todo already exists: " ++ id⟩))
  writeTodo p h name todo
  refreshIndexLocked p h
  pure (.todo todo [])

def updatedTodo (h : Host) (input : TodoUpdateInput) (current : Todo) : Except TodoError Todo := do
  assertDescriptionCurrent input.title input.oldTitle current.title (js "title") current.id
  assertDescriptionCurrent input.request input.oldRequest current.request (js "request") current.id
  assertDescriptionCurrent input.acceptance input.oldAcceptance current.acceptance (js "acceptance") current.id
  let title ← replaced input.title current.title fun title => requireTitle (some (.str title)) current.id
  let status ← replaced input.status current.status fun status => requireStatus (some (.str status)) current.id
  let depends_on ← replaced input.depends_on current.depends_on fun entries =>
    requireDependencies (some (jsonTexts entries)) current.id
  let attachments ← replaced input.attachments current.attachments fun entries =>
    requireAttachments (some (jsonTexts entries)) current.id
  let project ← replaced input.project current.project fun project =>
    some <$> requireProject (some (.str project)) current.id
  pure { current with
    title, status, project, depends_on
    request := input.request.getD current.request
    acceptance := input.acceptance.getD current.acceptance
    attachments
    updated := h.now }

def statusChanges (current next : Todo) (author : JsString) : List TodoChange :=
  if current.status = next.status then [] else [⟨next.id, js "status:" ++ next.status.text, author⟩]

def updateTodo (p : ServicePlatform) (h : Host) (input : TodoUpdateInput) (author : JsString) : Operating Reply := do
  let current ← currentTodo p h input.id
  let next ← require (updatedTodo h input current.2)
  assertDependenciesKnownLocked p h next
  writeTodo p h current.1 next
  refreshIndexLocked p h
  pure (.todo next (statusChanges current.2 next author))

def addTodoTags (p : ServicePlatform) (h : Host) (id : JsString) (tags : List JsString) (author : JsString) :
    Operating Reply := do
  let current ← currentTodo p h id
  let additions ← require (requireTags (some (jsonTexts tags)) id)
  let nextTags := additions.foldl OSet.add current.2.tags
  let changed := nextTags.length != current.2.tags.length
  Stateful.when changed (writeTodo p h current.1 { current.2 with tags := nextTags, updated := h.now })
  refreshIndexLocked p h
  pure (.tags nextTags changed
    ((additions.filter (· ∉ current.2.tags)).map fun tag => ⟨id, 43 :: tag, author⟩))

def removeTodoTag (p : ServicePlatform) (h : Host) (id tag author : JsString) : Operating Reply := do
  let current ← currentTodo p h id
  let target ← require (requireTag (some (.str tag)) id)
  let tags := current.2.tags.filter (· ≠ target)
  let changed := tags.length != current.2.tags.length
  Stateful.when changed (writeTodo p h current.1 { current.2 with tags, updated := h.now })
  refreshIndexLocked p h
  pure (.tags tags changed (if changed then [⟨id, 45 :: target, author⟩] else []))

def nextCommentId (h : Host) (comments : List TodoComment) : Except Failure JsString :=
  match h.draws.find? fun id => !comments.any fun comment => comment.id == id with
  | some id => .ok id
  | none => .error .unfinished

def appendTodoComment (p : ServicePlatform) (h : Host) (id author text : JsString) : Operating Reply := do
  let current ← currentTodo p h id
  let commentId ← Stateful.check (nextCommentId h current.2.comments)
  let author ← require (requireCommentAuthor (some (.str author)) id)
  let comments := current.2.comments ++ [⟨commentId, author, h.now, text⟩]
  writeTodo p h current.1 { current.2 with comments, updated := h.now }
  refreshIndexLocked p h
  pure (.comments comments true [⟨id, js "comment", author⟩])

def withoutComment (comments : List TodoComment) (id commentId author : JsString) :
    Except TodoError (List TodoComment) :=
  match comments.find? (·.id = commentId) with
  | none => .error (todoError .missingComment id (js "comment not found: " ++ commentId))
  | some existing =>
    if existing.author ≠ author then
      .error (todoError .commentForbidden id (js "cannot delete another author's comment"))
    else .ok (comments.filter (·.id ≠ commentId))

def deleteTodoComment (p : ServicePlatform) (h : Host) (id commentId author : JsString) : Operating Reply := do
  let current ← currentTodo p h id
  let trustedAuthor ← require (requireCommentAuthor (some (.str author)) id)
  let comments ← require (withoutComment current.2.comments id commentId trustedAuthor)
  writeTodo p h current.1 { current.2 with comments, updated := h.now }
  refreshIndexLocked p h
  pure (.comments comments true [])

def rebuildIndex (p : ServicePlatform) (h : Host) : Operating Reply := do
  let todos ← scanLocked p h.scanFails
  Stateful.modify fun w => { w with service := { w.service with indexSnapshot := none } }
  reconcileIndexLocked p h.index todos
  pure (.records (todos.map toIndexRecord))

def readIndex (p : ServicePlatform) (h : Host) : Operating Reply := do
  let w ← Stateful.get
  if !w.service.usesIndex then
    let todos ← scanLocked p h.scanFails
    pure (.records (todos.map toIndexRecord))
  else
    access h.index.readFails
    Stateful.modify fun w => { w with index := ⟨openIndex w.index, ⟨some h.index.readDb, h.index.readWal⟩⟩ }
    pure (.records (readIndexRows (openIndex w.index)))

inductive Operation where
  | list (params : TodoListParams)
  | read (id : JsString)
  | refresh
  | create (input : TodoCreateInput)
  | update (input : TodoUpdateInput) (author : JsString)
  | addTags (id : JsString) (tags : List JsString) (author : JsString)
  | removeTag (id tag author : JsString)
  | comment (id author text : JsString)
  | deleteComment (id commentId author : JsString)
  | rebuild
  | readIndex

def Operation.perform (p : ServicePlatform) (h : Host) : Operation → Operating Reply
  | list params => listTodos p h params
  | read id => getTodo p h id
  | refresh => refreshIndex p h
  | create input => createTodo p h input
  | update input author => updateTodo p h input author
  | addTags id tags author => addTodoTags p h id tags author
  | removeTag id tag author => removeTodoTag p h id tag author
  | comment id author text => appendTodoComment p h id author text
  | deleteComment id commentId author => deleteTodoComment p h id commentId author
  | rebuild => rebuildIndex p h
  | readIndex => Todos.readIndex p h

end Wrenyard.Todos
