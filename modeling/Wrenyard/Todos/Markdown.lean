import Wrenyard.Js.Json
import Wrenyard.Js.OrderedSet

/-!
# Todos as Markdown files

A todo is one file: YAML front matter with the structured fields, then a Markdown body with the request, the
acceptance criteria, the attachments and the comments.  `serializeTodo` writes it and `parseTodoFile` reads it back;
the two are separate passes over the lines of the body.

The YAML package, the platform's dates and its hash are parameters (`Platform`).  A regular expression of the source
is the function that follows its single match; all of them match at one place only.
-/

namespace Wrenyard.Todos

open Js

inductive TodoStatus where
  | open_
  | inProgress
  | ready
  | blocked
  | done
  | cancelled
deriving DecidableEq

def TODO_STATUSES : List TodoStatus := [.open_, .inProgress, .ready, .blocked, .done, .cancelled]

def TodoStatus.text : TodoStatus → JsString
  | open_ => js "open"
  | inProgress => js "in_progress"
  | ready => js "ready"
  | blocked => js "blocked"
  | done => js "done"
  | cancelled => js "cancelled"

structure TodoComment where
  id : JsString
  author : JsString
  at_ : JsString
  text : JsString
deriving DecidableEq

/-- A workspace todo as stored in its Markdown file. -/
structure Todo where
  id : JsString
  title : JsString
  status : TodoStatus
  project : Option JsString
  depends_on : List JsString
  created : JsString
  updated : JsString
  request : JsString
  acceptance : JsString
  attachments : List JsString
  tags : List JsString
  comments : List TodoComment
deriving DecidableEq

/-- The code of a `WorkspaceTodoError`; `thrown` is an error of another class. -/
inductive ErrorCode where
  | badId
  | badTitle
  | badStatus
  | badProject
  | badTimestamp
  | badDependency
  | dependencySelf
  | dependencyCycle
  | unknownDependency
  | badAttachment
  | badTag
  | badComment
  | missingComment
  | commentForbidden
  | staleDescription
  | malformed
  | unknownField
  | exists_
  | missing
  | notAFile
  | thrown
deriving DecidableEq

structure TodoError where
  code : ErrorCode
  message : JsString
deriving DecidableEq

structure Platform where
  /-- `stringify` of the YAML package. -/
  stringifyYaml : OMap JsString Json → JsString
  /-- `parse` of the YAML package, where it does not throw. -/
  parseYaml : JsString → Option Json
  /-- `parse` under the failsafe schema. -/
  parseFailsafe : JsString → Option Json
  /-- `!Number.isNaN(Date.parse(value))`. -/
  dateParses : JsString → Bool
  /-- The first six hexadecimal digits of the SHA-256 hash. -/
  shortHash : JsString → JsString

/-- `s.trimEnd()`. -/
def trimEnd (s : JsString) : JsString := (s.reverse.dropWhile isSpace).reverse

/-- `s.replace(/\r\n/gu, '\n')`. -/
def crlfToLf : JsString → JsString
  | [] => []
  | [u] => [u]
  | u :: v :: s => if u = cr ∧ v = lf then lf :: crlfToLf s else u :: crlfToLf (v :: s)

/-- The characters `.` does not match. -/
def isTerminator (u : UInt16) : Bool := u == 10 || u == 13 || u == 0x2028 || u == 0x2029

/-- `\p{Cc}`. -/
def isControl (u : UInt16) : Bool := u ≤ 0x1F || (0x7F ≤ u && u ≤ 0x9F)

/-- `[0-9a-f]`. -/
def isHex (u : UInt16) : Bool := isDigit u || (97 ≤ u && u ≤ 102)

/-- `[a-z0-9]`. -/
def isIdUnit (u : UInt16) : Bool := isDigit u || (97 ≤ u && u ≤ 122)

/-- What is left when every test accepts the unit at its place. -/
def dropMatch : List (UInt16 → Bool) → JsString → Option JsString
  | [], s => some s
  | _ :: _, [] => none
  | test :: tests, u :: s => if test u then dropMatch tests s else none

/-- The match of `\s+(.+?)\s*$` on a whole text: the group. -/
def spacedText (rest : JsString) : Option JsString :=
  if rest.takeWhile isSpace = [] then none
  else if rest.dropWhile isSpace = [] then
    -- only white space: the group is its last character that `.` matches, behind the first
    ((rest.tail.reverse.find? (!isTerminator ·)).map ([·]))
  else if (trimEnd (rest.dropWhile isSpace)).any isTerminator then none
  else some (trimEnd (rest.dropWhile isSpace))

/-- `ID_RE`. -/
def idRe : JsString → Bool
  | [] => false
  | u :: s => isIdUnit u && s.all fun v => isIdUnit v || v == 45

/-- The separator ` · ` of a comment heading. -/
def dotSeparator : JsString := js " · "

/-- `\d{4}-\d{2}-\d{2}T\d{2}:\d{2}:\d{2}`. -/
def dateTests : List (UInt16 → Bool) :=
  [isDigit, isDigit, isDigit, isDigit, (· == 45), isDigit, isDigit, (· == 45), isDigit, isDigit, (· == 84),
    isDigit, isDigit, (· == 58), isDigit, isDigit, (· == 58), isDigit, isDigit]

/-- `(?:Z|[+-]\d{2}:\d{2})$`. -/
def zoneRe (s : JsString) : Bool :=
  s == [90] || dropMatch [fun u => u == 43 || u == 45, isDigit, isDigit, (· == 58), isDigit, isDigit] s == some []

/-- `(?:\.\d+)?(?:Z|[+-]\d{2}:\d{2})$`. -/
def fractionRe : JsString → Bool
  | 46 :: s => s.takeWhile isDigit != [] && zoneRe (s.dropWhile isDigit)
  | s => zoneRe s

/-- `ISO_TIMESTAMP_RE`. -/
def isoTimestampRe (value : JsString) : Bool := (dropMatch dateTests value).any fractionRe

/-- `Todo ${id}: ${text}`. -/
def todoError (code : ErrorCode) (id : JsString) (text : JsString) : TodoError :=
  ⟨code, js "Todo " ++ id ++ js ": " ++ text⟩

variable (value : Option Json)

def requireTodoId (context : JsString) : Except TodoError JsString :=
  match value with
  | some (.str id) =>
    if idRe id then .ok id else .error ⟨.badId, context ++ js ": id must be a short lowercase identifier"⟩
  | _ => .error ⟨.badId, context ++ js ": id must be a short lowercase identifier"⟩

def requireTitle (id : JsString) : Except TodoError JsString :=
  match value with
  | some (.str title) =>
    if trim title = [] then .error (todoError .badTitle id (js "title must be a nonempty string")) else .ok title
  | _ => .error (todoError .badTitle id (js "title must be a nonempty string"))

def requireStatus (id : JsString) : Except TodoError TodoStatus :=
  match value with
  | some (.str text) =>
    match TODO_STATUSES.find? (·.text = text) with
    | some status => .ok status
    | none =>
      .error (todoError .badStatus id (js "status must be one of open, in_progress, ready, blocked, done, cancelled"))
  | _ => .error
    (todoError .badStatus id (js "status must be one of open, in_progress, ready, blocked, done, cancelled"))

def requireProject (id : JsString) : Except TodoError JsString :=
  match value with
  | some (.str project) =>
    if trim project = [] ∨ 0 ∈ project then
      .error (todoError .badProject id (js "project must be a nonempty string"))
    else .ok project
  | _ => .error (todoError .badProject id (js "project must be a nonempty string"))

/-- `isValidCommentTime`, and the test of `requireTimestamp`. -/
def isValidCommentTime (p : Platform) (value : JsString) : Bool := isoTimestampRe value && p.dateParses value

def requireTimestamp (p : Platform) (value : Option Json) (id label : JsString) : Except TodoError JsString :=
  match value with
  | some (.str time) =>
    if isValidCommentTime p time then .ok time
    else .error (todoError .badTimestamp id (label ++ js " must be an ISO 8601 timestamp"))
  | _ => .error (todoError .badTimestamp id (label ++ js " must be an ISO 8601 timestamp"))

def requireDependencies (id : JsString) : Except TodoError (List JsString) :=
  match value with
  | none => .ok []
  | some .null => .ok []
  | some (.arr entries) => do
    let dependencies ← entries.mapM fun entry =>
      requireTodoId (some entry) (js "Todo " ++ id ++ js ": dependency")
    if ¬dependencies.Nodup then
      .error (todoError .badDependency id (js "depends_on must not contain duplicates"))
    else if id ∈ dependencies then
      .error (todoError .dependencySelf id (js "a todo cannot depend on itself"))
    else .ok dependencies
  | some _ => .error (todoError .badDependency id (js "depends_on must be a list of todo ids"))

/-- `/^[A-Za-z]:[\\/]/u`. -/
def drivePath (path : JsString) : Bool :=
  (dropMatch [fun u => (65 ≤ u && u ≤ 90) || (97 ≤ u && u ≤ 122), (· == 58), fun u => u == 92 || u == 47] path).isSome

def requireRelativePath (id : JsString) : Except TodoError JsString :=
  match value with
  | some (.str entry) =>
    if trim entry = [] then
      .error (todoError .badAttachment id (js "attachment must be a nonempty relative path"))
    else if startsWith (trim entry) (js "/") || startsWith (trim entry) [92] || drivePath (trim entry) ||
        decide (0 ∈ trim entry) then
      .error (todoError .badAttachment id (js "attachment must be relative: " ++ trim entry))
    else if ((trim entry).splitOnP fun u => u == 92 || u == 47).any fun segment =>
        segment == [] || segment == js ".." then
      .error (todoError .badAttachment id (js "attachment must not escape the workspace: " ++ trim entry))
    else .ok (trim entry)
  | _ => .error (todoError .badAttachment id (js "attachment must be a nonempty relative path"))

def requireAttachments (id : JsString) : Except TodoError (List JsString) :=
  match value with
  | none => .ok []
  | some .null => .ok []
  | some (.arr entries) => entries.mapM fun entry => requireRelativePath (some entry) id
  | some _ => .error (todoError .badAttachment id (js "attachments must be a list of relative paths"))

def requireTag (id : JsString) : Except TodoError JsString :=
  match value with
  | some (.str tag) =>
    if tag = [] ∨ tag.any (fun u => isSpace u || isControl u) then
      .error (todoError .badTag id (js "tags must be nonempty and contain no whitespace or control characters"))
    else .ok tag
  | _ => .error (todoError .badTag id (js "tags must be nonempty and contain no whitespace or control characters"))

def requireTags (id : JsString) : Except TodoError (List JsString) :=
  match value with
  | none => .ok []
  | some .null => .ok []
  | some (.arr entries) => OSet.ofList <$> entries.mapM fun tag => requireTag (some tag) id
  | some _ => .error (todoError .badTag id (js "tags must be a list"))

def requireCommentAuthor (id : JsString) : Except TodoError JsString :=
  match value with
  | some (.str author) =>
    if trim author = [] ∨ author.any isControl then
      .error (todoError .badComment id (js "comment author must be a nonempty single-line string"))
    else .ok author
  | _ => .error (todoError .badComment id (js "comment author must be a nonempty single-line string"))

/-- The description a caller replaces must be the one it read. -/
def assertDescriptionCurrent (next old : Option JsString) (current field id : JsString) : Except TodoError Unit :=
  if next = none ∨ old = some current then .ok ()
  else .error (todoError .staleDescription id (js "stale " ++ field ++ js "; current text follows:\n" ++ current))

/-- The lines up to the first line `---`, and those after it. -/
def untilFence : List JsString → Option (List JsString × List JsString)
  | [] => none
  | l :: rest => if l = js "---" then some ([], rest) else (untilFence rest).map fun r => (l :: r.1, r.2)

/-- Split a todo file into its YAML front matter and Markdown body: `/^---\n([\s\S]*?)\n---(?:\n|$)/u`, whose group is
nonempty in lines, so that a fence directly below the first is no end. -/
def splitFrontMatter (content id : JsString) : Except TodoError (JsString × JsString) :=
  match lines (crlfToLf content) with
  | first :: second :: rest =>
    if first = js "---" then
      match untilFence rest with
      | some (front, body) => .ok (unlines (second :: front), unlines body)
      | none => .error (todoError .malformed id (js "file must start with a YAML front matter block"))
    else .error (todoError .malformed id (js "file must start with a YAML front matter block"))
  | _ => .error (todoError .malformed id (js "file must start with a YAML front matter block"))

/-- The heading of a section: `/^##\s+(.+?)\s*$/u`. -/
def sectionHeading (l : JsString) : Option JsString :=
  if startsWith l (js "##") then spacedText (l.drop 2) else none

structure SectionScan where
  sections : OMap JsString JsString
  heading : Option JsString
  openLines : List JsString

namespace SectionScan

def start : SectionScan := ⟨[], none, []⟩

def flush (scan : SectionScan) : OMap JsString JsString :=
  match scan.heading with
  | none => scan.sections
  | some heading => scan.sections.set heading (trim (unlines scan.openLines))

def line (scan : SectionScan) (l : JsString) : SectionScan :=
  -- no heading is looked for behind that of the comments
  match if scan.heading = some (js "Comments") then none else sectionHeading l with
  | some heading => ⟨scan.flush, some heading, []⟩
  | none => if scan.heading.isSome then { scan with openLines := scan.openLines ++ [l] } else scan

end SectionScan

/-- Index a Markdown body's `## Heading` sections by heading text. -/
def parseBodySections (body : JsString) : OMap JsString JsString :=
  ((lines body).foldl SectionScan.line SectionScan.start).flush

/-- The heading of a comment, `/^### ([0-9a-f]{6}) · ([^·\r\n]+?) · (.+)$/u`: id, author and time. -/
def commentHeading (l : JsString) : Option (JsString × JsString × JsString) :=
  if startsWith l (js "### ") then
    match dropMatch (List.replicate 6 isHex ++ [(· == 32), (· == 0xB7), (· == 32)]) (l.drop 4) with
    | none => none
    | some rest =>
      if (rest.takeWhile (· ≠ 0xB7)).length < 2 ∨ (rest.takeWhile (· ≠ 0xB7)).getLast? ≠ some 32 ∨
          (rest.takeWhile (· ≠ 0xB7)).any (fun u => u == cr || u == lf) then none
      else
        match dropMatch [(· == 0xB7), (· == 32)] (rest.dropWhile (· ≠ 0xB7)) with
        | none => none
        | some time =>
          if time = [] ∨ time.any isTerminator then none
          else some ((l.drop 4).take 6, (rest.takeWhile (· ≠ 0xB7)).dropLast, time)
  else none

/-- What follows `### [0-9a-f]{6} · ` in a text. -/
def afterMark (l : JsString) : Option JsString :=
  if startsWith l (js "### ") then
    dropMatch (List.replicate 6 isHex ++ [(· == 32), (· == 0xB7), (· == 32)]) (l.drop 4)
  else none

def hasSeparator (rest : JsString) : Bool :=
  rest.tails.any fun t => startsWith t dotSeparator && decide (t.length > 3)

/-- `/^\\+### [0-9a-f]{6} · .+ · .+$/u`. -/
def escapedHeading (l : JsString) : Bool :=
  startsWith l [92] &&
    (afterMark (l.dropWhile (· == 92))).any fun rest => !rest.any isTerminator && hasSeparator rest.tail

/-- `/^\\*### [0-9a-f]{6} · .* · .+$/u`. -/
def headingLike (l : JsString) : Bool :=
  (afterMark (l.dropWhile (· == 92))).any fun rest => !rest.any isTerminator && hasSeparator rest

def unescapeLine (l : JsString) : JsString := if escapedHeading l then l.drop 1 else l

def commentText (rawBodyLines : List JsString) : JsString :=
  let withoutSeparator := if rawBodyLines.getLast? = some [] then rawBodyLines.dropLast else rawBodyLines
  let bodyLines := if withoutSeparator.head? = some [] then withoutSeparator.drop 1 else withoutSeparator
  unlines (bodyLines.map unescapeLine)

structure CommentScan where
  comments : List TodoComment
  current : Option (JsString × JsString × JsString)
  rawBodyLines : List JsString

namespace CommentScan

def start : CommentScan := ⟨[], none, []⟩

def flush (scan : CommentScan) : List TodoComment :=
  match scan.current with
  | none => scan.comments
  | some (id, author, time) => scan.comments ++ [⟨id, author, time, commentText scan.rawBodyLines⟩]

def line (p : Platform) (scan : CommentScan) (l : JsString) : CommentScan :=
  match (commentHeading l).filter fun heading => isValidCommentTime p heading.2.2 with
  | some heading => ⟨scan.flush, some heading, []⟩
  | none => if scan.current.isSome then { scan with rawBodyLines := scan.rawBodyLines ++ [l] } else scan

end CommentScan

/-- The lines behind the line `## Comments`. -/
def commentLines (body : JsString) : List JsString :=
  ((lines (crlfToLf body)).dropWhile (· ≠ js "## Comments")).drop 1

def parseComments (p : Platform) (body updated todoId : JsString) : Except TodoError (List TodoComment) :=
  let sections := parseBodySections body
  if sections.has (js "Comments") then
    let comments := ((commentLines body).foldl (CommentScan.line p) CommentScan.start).flush
    if ¬(comments.map TodoComment.id).Nodup then .error (todoError .malformed todoId (js "duplicate comment id"))
    else .ok comments
  else
    match sections.get (js "Result summary") with
    | none => .ok []
    | some legacy =>
      .ok [⟨p.shortHash (todoId ++ [0] ++ updated ++ [0] ++ legacy), js "legacy", updated, legacy⟩]

def escapeLine (l : JsString) : JsString := if headingLike l then 92 :: l else l

def escapeLines : JsString → JsString × JsString
  | [] => ([], [])
  | u :: s =>
    if isTerminator u then ([], u :: (escapeLine (escapeLines s).1 ++ (escapeLines s).2))
    else (u :: (escapeLines s).1, (escapeLines s).2)

/-- `text.replace(/^(\\*### [0-9a-f]{6} · .* · .+)$/gmu, '\\$1')`: a line ends at each of the four terminators. -/
def escapeCommentText (text : JsString) : JsString := escapeLine (escapeLines text).1 ++ (escapeLines text).2

/-- The path of an attachment entry: `/^\s*[-*]\s+(.+?)\s*$/u`. -/
def attachmentEntry (l : JsString) : Option JsString :=
  match l.dropWhile isSpace with
  | u :: rest => if u = 45 ∨ u = 42 then spacedText rest else none
  | [] => none

def parseAttachments (text id : JsString) : Except TodoError (List JsString) :=
  ((lines text).filterMap attachmentEntry).mapM fun path => requireRelativePath (some (.str path)) id

def FRONT_MATTER_KEYS : List JsString :=
  [js "id", js "title", js "status", js "project", js "depends_on", js "created", js "updated", js "tags"]

/-- Read a member of the failsafe document; `null` has none and throws. -/
def failsafeMember (decoded : Json) (key id : JsString) : Except TodoError (Option Json) :=
  match decoded with
  | .null => .error (todoError .thrown id (js "Cannot read properties of null"))
  | .obj members => .ok (OMap.get members key)
  | _ => .ok none

def scalarTexts (decoded failsafe : Option Json) : Option Json :=
  match decoded, failsafe with
  | some (.arr items), some (.arr texts) => if texts.length = items.length then some (.arr texts) else decoded
  | _, _ => decoded

def decodeFront (p : Platform) (front id : JsString) : Except TodoError (OMap JsString Json) :=
  match p.parseYaml front with
  | none => .error (todoError .malformed id (js "front matter is not valid YAML"))
  | some (.obj members) => .ok members
  | some _ => .error (todoError .malformed id (js "front matter must be a mapping"))

def decodeFailsafe (p : Platform) (front id : JsString) : Except TodoError Json :=
  match p.parseFailsafe front with
  | none => .error (todoError .thrown id (js "front matter is not valid under the failsafe schema"))
  | some decoded => .ok decoded

def checkFields (record : OMap JsString Json) (id : JsString) : Except TodoError Unit :=
  match record.keys.find? (· ∉ FRONT_MATTER_KEYS) with
  | some key => .error (todoError .unknownField id (js "unknown front matter field: " ++ key))
  | none => .ok ()

def checkDeclaredId (declaredId id : JsString) : Except TodoError Unit :=
  if declaredId = id then .ok ()
  else .error (todoError .badId id (js "front matter id \"" ++ declaredId ++ js "\" does not match the file name"))

/-- `requireProject`, where the field is declared. -/
def readProject (id : JsString) : Except TodoError (Option JsString) :=
  match value with
  | none => .ok none
  | some project => some <$> requireProject (some project) id

def parseTodoFile (p : Platform) (id content : JsString) : Except TodoError Todo := do
  let (front, body) ← splitFrontMatter content id
  let record ← decodeFront p front id
  let failsafeDecoded ← decodeFailsafe p front id
  checkFields record id
  let declaredId ← requireTodoId (← failsafeMember failsafeDecoded (js "id") id) (js "Todo " ++ id)
  checkDeclaredId declaredId id
  let title ← requireTitle (record.get (js "title")) id
  let status ← requireStatus (record.get (js "status")) id
  let project ← readProject (record.get (js "project")) id
  let failsafeDependsOn ← failsafeMember failsafeDecoded (js "depends_on") id
  let failsafeTags ← failsafeMember failsafeDecoded (js "tags") id
  let depends_on ← requireDependencies (scalarTexts (record.get (js "depends_on")) failsafeDependsOn) id
  let created ← requireTimestamp p (record.get (js "created")) id (js "created")
  let updated ← requireTimestamp p (record.get (js "updated")) id (js "updated")
  let sections := parseBodySections body
  let attachments ← parseAttachments ((sections.get (js "Attachments")).getD []) id
  let tags ← requireTags (scalarTexts (record.get (js "tags")) failsafeTags) id
  let comments ← parseComments p body updated id
  .ok {
    id, title, status, project, depends_on, created, updated
    request := (sections.get (js "Request")).getD []
    acceptance := (sections.get (js "Acceptance criteria")).getD []
    attachments, tags, comments }

def frontMatter (todo : Todo) : OMap JsString Json :=
  OMap.ofFields [
    (js "id", some (.str todo.id)),
    (js "title", some (.str todo.title)),
    (js "status", some (.str todo.status.text)),
    (js "project", todo.project.map .str),
    (js "depends_on", if todo.depends_on = [] then none else some (.arr (todo.depends_on.map .str))),
    (js "tags", if todo.tags = [] then none else some (.arr (todo.tags.map .str))),
    (js "created", some (.str todo.created)),
    (js "updated", some (.str todo.updated))]

def commentLine (comment : TodoComment) : JsString :=
  js "### " ++ comment.id ++ dotSeparator ++ comment.author ++ dotSeparator ++ comment.at_

/-- The parts below the acceptance criteria. -/
def attachmentParts (todo : Todo) : List JsString :=
  if todo.attachments = [] then []
  else [[], js "## Attachments", []] ++ todo.attachments.map (js "- " ++ ·)

def commentParts (todo : Todo) : List JsString :=
  if todo.comments = [] then []
  else [[], js "## Comments"] ++
    todo.comments.flatMap fun comment => [[], commentLine comment, [], escapeCommentText comment.text]

def bodyParts (todo : Todo) : List JsString :=
  [[], js "## Request", [], trimEnd todo.request, [], js "## Acceptance criteria", [], trimEnd todo.acceptance] ++
    attachmentParts todo ++ commentParts todo

def serializeTodo (p : Platform) (todo : Todo) : JsString :=
  unlines ([js "---", trimEnd (p.stringifyYaml (frontMatter todo)), js "---"] ++ bodyParts todo) ++ [lf]

end Wrenyard.Todos
