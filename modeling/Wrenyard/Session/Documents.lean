import Wrenyard.Session.Render

/-!
# Documents in the ledger

`documents.ts`: the unified diff a later snapshot of a document is stored as, its strict decoder, and the
reconstruction of a document from the events that recorded it.

Two things come from outside: `LineDiff` is jsdiff's `diffArrays`, of which only the two sides of its result are
known, and `contentVersion` the eight hexadecimal digits of the SHA-256 of a text.
-/

namespace Wrenyard.Session

open Js

/-- One run of lines in the result of `diffArrays`. -/
inductive DiffPart where
  | same (value : List JsString)
  | removed (value : List JsString)
  | added (value : List JsString)

namespace DiffPart

/-- The lines of the old text in the run. -/
def oldSide : DiffPart → List JsString
  | .same value | .removed value => value
  | .added _ => []

/-- The lines of the new text in the run. -/
def newSide : DiffPart → List JsString
  | .same value | .added value => value
  | .removed _ => []

end DiffPart

structure LineDiff where
  diffArrays : List JsString → List JsString → List DiffPart
  oldSide : ∀ old new, (diffArrays old new).flatMap DiffPart.oldSide = old
  newSide : ∀ old new, (diffArrays old new).flatMap DiffPart.newSide = new

/-- Ranges and rendered body for an aligned edit or a complete unified hunk. -/
structure DiffHunk where
  oldStart : Nat
  oldCount : Nat
  newStart : Nat
  newCount : Nat
  body : List JsString

def DiffHunk.oldEnd (h : DiffHunk) : Nat := h.oldStart + h.oldCount

def DiffHunk.newEnd (h : DiffHunk) : Nat := h.newStart + h.newCount

def editRuns (oldPos newPos : Nat) : List DiffPart → List DiffHunk
  | [] => []
  | .added value :: parts =>
    ⟨oldPos, 0, newPos, value.length, value.map (js "+" ++ ·)⟩ :: editRuns oldPos (newPos + value.length) parts
  | .removed value :: parts =>
    ⟨oldPos, value.length, newPos, 0, value.map (js "-" ++ ·)⟩ :: editRuns (oldPos + value.length) newPos parts
  | .same value :: parts => editRuns (oldPos + value.length) (newPos + value.length) parts

def alignEdits (diff : LineDiff) (oldLines newLines : List JsString) : List DiffHunk :=
  editRuns 0 0 (diff.diffArrays oldLines newLines)

/-- How much unchanged context surrounds each changed run of a diff hunk. -/
def CONTEXT_LINES : Nat := 3

def groupRuns : List DiffHunk → List (DiffHunk × List DiffHunk)
  | [] => []
  | run :: runs =>
    match groupRuns runs with
    | [] => [(run, [])]
    | (next, rest) :: groups =>
      if next.oldStart - run.oldEnd > 2 * CONTEXT_LINES then (run, []) :: (next, rest) :: groups
      else (run, next :: rest) :: groups

/-- The old lines from `start` to `stop`, as context. -/
def contextLines (oldLines : List JsString) (start stop : Nat) : List JsString :=
  (List.range' start (stop - start)).map fun index => js " " ++ (oldLines[index]?).getD []

def groupBody (oldLines : List JsString) (oldCursor : Nat) : List DiffHunk → List JsString
  | [] => []
  | edit :: edits =>
    contextLines oldLines oldCursor edit.oldStart ++ edit.body ++ groupBody oldLines edit.oldEnd edits

def buildHunk (oldLines : List JsString) (newLength : Nat) (previous : Option DiffHunk) (first : DiffHunk)
    (rest : List DiffHunk) (next : Option DiffHunk) : DiffHunk :=
  let last := (first :: rest).getLast (List.cons_ne_nil _ _)
  let previousOldEnd := (previous.map (·.oldEnd)).getD 0
  let previousNewEnd := (previous.map (·.newEnd)).getD 0
  let nextOldStart := (next.map (·.oldStart)).getD oldLines.length
  let nextNewStart := (next.map (·.newStart)).getD newLength
  let contextBefore := min CONTEXT_LINES (min (first.oldStart - previousOldEnd) (first.newStart - previousNewEnd))
  let contextAfter := min CONTEXT_LINES (min (nextOldStart - last.oldEnd) (nextNewStart - last.newEnd))
  { oldStart := first.oldStart - contextBefore
    newStart := first.newStart - contextBefore
    oldCount := contextBefore + (last.oldEnd - first.oldStart) + contextAfter
    newCount := contextBefore + (last.newEnd - first.newStart) + contextAfter
    body := contextLines oldLines (first.oldStart - contextBefore) first.oldStart ++
      groupBody oldLines first.oldStart (first :: rest) ++
      contextLines oldLines last.oldEnd (last.oldEnd + contextAfter) }

/-- The hunks of the groups after `previous`, the last run before them. -/
def buildHunksFrom (oldLines : List JsString) (newLength : Nat) (previous : Option DiffHunk) :
    List (DiffHunk × List DiffHunk) → List DiffHunk
  | [] => []
  | (first, rest) :: groups =>
    buildHunk oldLines newLength previous first rest (groups.head?.map Prod.fst) ::
      buildHunksFrom oldLines newLength (some ((first :: rest).getLast (List.cons_ne_nil _ _))) groups

def buildHunks (runs : List DiffHunk) (oldLines : List JsString) (newLength : Nat) : List DiffHunk :=
  buildHunksFrom oldLines newLength none (groupRuns runs)

/-- Unified-diff line numbers are 1-based, except an empty range uses 0. -/
def rangeStart (start count : Nat) : Nat := if count = 0 then start else start + 1

def hunkHeader (hunk : DiffHunk) : JsString :=
  js "@@ -" ++ natText (rangeStart hunk.oldStart hunk.oldCount) ++ js "," ++ natText hunk.oldCount ++ js " +" ++
    natText (rangeStart hunk.newStart hunk.newCount) ++ js "," ++ natText hunk.newCount ++ js " @@"

def unifiedDiff (diff : LineDiff) (path before after : JsString) : JsString :=
  let oldLines := lines before
  let newLines := lines after
  let hunks := buildHunks (alignEdits diff oldLines newLines) oldLines newLines.length
  unlines ([js "--- a/" ++ path, js "+++ b/" ++ path] ++ hunks.flatMap fun hunk => hunkHeader hunk :: hunk.body)

/-- A literal off the front. -/
def stripPrefix (p s : JsString) : Option JsString := if startsWith s p then some (s.drop p.length) else none

/-- `\d+` off the front. -/
def takeDigits (s : JsString) : Option (Nat × JsString) :=
  if (s.span isDigit).1 = [] then none else some (digitsValue (s.span isDigit).1, (s.span isDigit).2)

/-- `(?:,(\d+))?` off the front; an absent count is 1. -/
def takeCount (s : JsString) : Nat × JsString :=
  match (stripPrefix (js ",") s).bind takeDigits with
  | some (n, rest) => (n, rest)
  | none => (1, s)

/-- `/^@@ -(\d+)(?:,(\d+))? \+(\d+)(?:,(\d+))? @@(?: .*)?$/`: the old start and count and the new start and count. -/
def parseHeader (line : JsString) : Option (Nat × Nat × Nat × Nat) := do
  let s ← stripPrefix (js "@@ -") line
  let (oldStart, s) ← takeDigits s
  let (oldCount, s) := takeCount s
  let s ← stripPrefix (js " +") s
  let (newStart, s) ← takeDigits s
  let (newCount, s) := takeCount s
  let s ← stripPrefix (js " @@") s
  match stripPrefix (js " ") s with
  | some comment => if comment.any isLineTerminator then none else some (oldStart, oldCount, newStart, newCount)
  | none => if s = [] then some (oldStart, oldCount, newStart, newCount) else none

structure OpenHunk where
  baseIndex : Nat
  oldCount : Nat
  newCount : Nat
  consumed : Nat
  produced : Nat

def openHunk (baseLines : List JsString) (baseCursor : Nat) (result : List JsString) (headerLine : JsString) :
    Except JsString (OpenHunk × List JsString) :=
  match parseHeader headerLine with
  | none => .error (js "document diff has an invalid hunk header")
  | some (oldStart, oldCount, newStart, newCount) =>
    let baseIndex : Int := if oldCount = 0 then oldStart else oldStart - 1
    if baseIndex < baseCursor then .error (js "document diff hunks overlap or are out of order")
    else if baseIndex + oldCount > baseLines.length then .error (js "document diff does not fit the base content")
    else
      let result := result ++ (baseLines.take baseIndex.toNat).drop baseCursor
      let newIndex : Int := if newCount = 0 then newStart else newStart - 1
      if (result.length : Int) ≠ newIndex then
        .error (js "document diff hunk start does not match its output position")
      else .ok (⟨baseIndex.toNat, oldCount, newCount, 0, 0⟩, result)

def applyBodyLine (baseLines : List JsString) (h : OpenHunk) (result : List JsString) (marker : UInt16)
    (text : JsString) : Except JsString (OpenHunk × List JsString) :=
  if marker = 32 then
    if baseLines[h.baseIndex + h.consumed]? ≠ some text then
      .error (js "document diff context does not match the base")
    else .ok ({ h with consumed := h.consumed + 1, produced := h.produced + 1 }, result ++ [text])
  else if marker = 45 then
    if baseLines[h.baseIndex + h.consumed]? ≠ some text then
      .error (js "document diff removal does not match the base")
    else .ok ({ h with consumed := h.consumed + 1 }, result)
  else if marker = 43 then .ok ({ h with produced := h.produced + 1 }, result ++ [text])
  else .error (js "document diff has an invalid line marker")

def closeHunk (h : OpenHunk) : Except JsString Nat :=
  if h.consumed ≠ h.oldCount ∨ h.produced ≠ h.newCount then
    .error (js "document diff body does not match its hunk header")
  else .ok (h.baseIndex + h.consumed)

/-- The body lines of the hunk `h`, and the hunks after it. -/
def applyHunkLines (baseLines : List JsString) (h : OpenHunk) (result : List JsString) :
    List JsString → Except JsString (List JsString)
  | [] => do
    let baseCursor ← closeHunk h
    return result ++ baseLines.drop baseCursor
  | line :: rest =>
    if startsWith line (js "@@") then do
      let baseCursor ← closeHunk h
      let (h, result) ← openHunk baseLines baseCursor result line
      applyHunkLines baseLines h result rest
    else
      match line with
      | [] =>
        -- only the last line of the diff may be empty
        if rest = [] then applyHunkLines baseLines h result rest else .error (js "document diff has an invalid line")
      | marker :: text => do
        let (h, result) ← applyBodyLine baseLines h result marker text
        applyHunkLines baseLines h result rest

/-- The file header is absent, or exactly the two lines `--- ` and `+++ `. -/
def validFileHeader (header : List JsString) : Bool :=
  match header with
  | [] => true
  | [old, new] => startsWith old (js "--- ") && startsWith new (js "+++ ")
  | _ => false

/-- Apply a unified diff of one or more hunks to `base`; an error is a thrown exception. -/
def applyDocumentDiff (base diff : JsString) : Except JsString JsString :=
  let header := (lines diff).takeWhile fun line => !startsWith line (js "@@")
  match (lines diff).dropWhile fun line => !startsWith line (js "@@") with
  | [] => .error (js "document diff has no hunk header")
  | headerLine :: rest =>
    if !validFileHeader header then .error (js "document diff has an invalid file header")
    else do
      let (h, result) ← openHunk (lines base) 0 [] headerLine
      let result ← applyHunkLines (lines base) h result rest
      return unlines result

section

variable (diff : LineDiff) (contentVersion : JsString → JsString) (encodeLength : JsString → Nat)

structure DocumentView where
  content : JsString
  version : JsString

structure DocumentChange where
  content : JsString
  format : DocFormat
  base : Option JsString
  version : JsString

/-- The change from `before` to `after`: nothing, a first full text, or a diff. -/
def documentChange (path : JsString) (before : Option JsString) (after : JsString) : Option DocumentChange :=
  match before with
  | none => some ⟨after, .full, none, contentVersion after⟩
  | some before =>
    if contentVersion before = contentVersion after then none
    else some ⟨unifiedDiff diff path before after, .diff, some (contentVersion before), contentVersion after⟩

/-- A `document.content` event of the document. -/
def applyContentEvent (view : Option DocumentView) (d : DocumentContentEvent) :
    Except JsString (Option DocumentView) :=
  match d.format with
  | .full =>
    if contentVersion d.content ≠ d.version then
      .error (js "document full content for " ++ d.path ++ js " has an inconsistent version")
    else .ok (some ⟨d.content, d.version⟩)
  | .diff =>
    match view with
    | none => .error (js "document diff for " ++ d.path ++ js " has no base content in the ledger")
    | some view =>
      if d.base.any (· ≠ view.version) then
        .error (js "document diff for " ++ d.path ++ js " does not apply to version " ++ view.version)
      else do
        let content ← applyDocumentDiff view.content d.content
        if contentVersion content ≠ d.version then
          .error (js "document diff for " ++ d.path ++ js " produced an inconsistent version")
        else .ok (some ⟨content, d.version⟩)

/-- One event in the reconstruction of the document at `path`; a deletion receipt resets it. -/
def currentDocumentStep (path : JsString) (view : Option DocumentView) (event : LedgerEvent) :
    Except JsString (Option DocumentView) :=
  match event.body with
  | .workspaceChanged w =>
    .ok (if w.scope = .document ∧ w.change = .deleted ∧ w.target = path then none else view)
  | .documentContent d => if d.path ≠ path then .ok view else applyContentEvent contentVersion view d
  | _ => .ok view

def currentDocument (events : List LedgerEvent) (path : JsString) : Except JsString (Option DocumentView) :=
  events.foldlM (currentDocumentStep contentVersion path) none

/-- A unit of a text and the unit of a label it may stand for when case is ignored. -/
def sameLetter (u label : UInt16) : Bool := u == label || (65 ≤ u && u ≤ 90 && u + 32 == label)

/-- `/^label\s*[:：]\s*(.*)$/iu`, trimmed. -/
def labelled (label text : JsString) : Option JsString :=
  if label.length ≤ text.length && (text.zip label).all (fun (u, l) => sameLetter u l) then
    match (text.drop label.length).dropWhile isSpace with
    | [] => none
    | u :: rest => if u = 58 ∨ u = 0xFF1A then some (trim rest) else none
  else none

/-- `/^\s*>\s*(.+)$/u`, trimmed. -/
def quoted (line : JsString) : Option JsString :=
  match line.dropWhile isSpace with
  | [] => none
  | u :: rest => if u = 62 ∧ (rest.dropWhile isSpace).any isLineTerminator = false then some (trim rest) else none

/-- Read a `更新`/`updated` value from a `>` header block of a Markdown file. -/
def headerField (content : JsString) (labels : List JsString) : JsString :=
  (((lines content).filterMap quoted).findSome? fun text => labels.findSome? (labelled · text)).getD []

/-- Capture the full text observed by a read or durable write; unchanged content needs no new snapshot. -/
def makeDocumentDraft (path title content : JsString) (events : List LedgerEvent) (turn step : Option Nat)
    (parent : Option JsString) (source : DocSource) : Except JsString (Option LedgerEventDraft) := do
  let version := contentVersion content
  let current ← currentDocument contentVersion events path
  if current.map (·.version) = some version then return none
  return some ⟨turn, step, .documentContent
    { path, title, version, content, source, parent
      updated := headerField content [js "更新", js "更新时间", js "updated", js "update"]
      tokens := estimateTokens encodeLength content
      format := .full
      base := none }⟩

end

end Wrenyard.Session
