import Wrenyard.Session.Documents
import Wrenyard.Session.Reload

/-!
# Recording documents

The part of `Ledger.appendNow` that concerns documents, and `document-commit.ts`: a document enters a timeline as a
snapshot somebody read, through `append`, or by a commit that changes the file and then records what it did.  Both
run in the ledger's queue, one at a time, so a step of the system is one whole operation.

Input and output fail where a fault says so.  Whether the canonical location of a key is another one (through a
symbolic link) is a fact of the workspace.
-/

namespace Wrenyard.Session

open Js

/-- What an operation throws: an `Error`, an `Error` with a code, or an error of the file system. -/
inductive LedgerError where
  | error (message : JsString)
  | conflict (code message : JsString)
  | io (code : Option JsString)
deriving DecidableEq

namespace LedgerError

def code : LedgerError → Option JsString
  | .error _ => none
  | .conflict code _ => some code
  | .io code => code

/-- Coarse parent-facing error category: a code of the form `/^E[A-Z0-9]+$/`, or `io_error`. -/
def errorCategory (e : LedgerError) : JsString :=
  match e.code with
  | some (u :: rest) =>
    if u = 69 ∧ rest ≠ [] ∧ rest.all (fun v => (65 ≤ v && v ≤ 90) || isDigit v) then u :: rest else js "io_error"
  | _ => js "io_error"

end LedgerError

/-- A result of the pure document functions, whose errors are plain. -/
def liftError {α : Type} : Except JsString α → Except LedgerError α
  | .ok a => .ok a
  | .error message => .error (.error message)

inductive Entry where
  | absent
  | other
  | file (bytes : List UInt8)

/-- The documents by key, and the keys whose canonical location is another. -/
structure Workspace where
  entry : JsString → Entry
  escapes : JsString → Bool

/-- `/^projects\/(?:[^/]+\/)+(?:AGENTS\.md|docs\/(?:specs|reports|handoff)\/[^/]+\.md)$/u` on the parts of a key. -/
def isMutationTarget (parts : List JsString) : Bool :=
  match parts with
  | [] => false
  | root :: parts =>
    root == js "projects" &&
      match parts.reverse with
      | name :: kind :: docs :: _ :: _ =>
        name == js "AGENTS.md" ||
          (docs == js "docs" && [js "specs", js "reports", js "handoff"].contains kind &&
            (js ".md").isSuffixOf name && decide (3 < name.length))
      | name :: _ :: _ => name == js "AGENTS.md"
      | _ => false

namespace Workspace

def target (w : Workspace) (key : JsString) (mutation : Bool) : Except LedgerError JsString :=
  let parts := key.splitOn 47
  if key.contains 0 || key.contains 92 || key.contains 58 ||
      parts.any (fun part => part == js "." || part == js ".." || part == []) ||
      !(js ".md").isSuffixOf key || (mutation && !isMutationTarget parts) then
    .error (.error (js "Invalid document commit target"))
  else if w.escapes key then .error (.error (js "Document commit target escapes its canonical location"))
  else .ok key

/-- The text of a document, `none` when there is no file. -/
def content (w : Workspace) (file : JsString) : Except LedgerError (Option JsString) :=
  match w.entry file with
  | .absent => .ok none
  | .other => .error (.conflict (js "not_a_file") (js "Document target is not a regular file"))
  | .file bytes => .ok (some (decodeUtf8 bytes))

def write (w : Workspace) (file : JsString) : Option JsString → Except LedgerError Workspace
  | none =>
    match w.entry file with
    | .file _ => .ok { w with entry := Function.update w.entry file .absent }
    | _ => .error (.io (some (js "ENOENT")))
  | some content => .ok { w with entry := Function.update w.entry file (.file (encodeUtf8 content)) }

end Workspace

/-- `/^[A-Za-z0-9._-]+$/`. -/
def isSessionId (sessionId : JsString) : Bool :=
  sessionId != [] && sessionId.all fun u =>
    (65 ≤ u && u ≤ 90) || (97 ≤ u && u ≤ 122) || isDigit u || u == 46 || u == 95 || u == 45

def assertSessionId (sessionId : JsString) : Except LedgerError Unit :=
  if isSessionId sessionId then .ok () else .error (.error (js "invalid session id: " ++ sessionId))

section

variable (diff : LineDiff) (contentVersion : JsString → JsString) (encodeLength : JsString → Nat)

/-- A delayed read must not replace the current view with an obsolete snapshot. -/
def validateSnapshot (w : Workspace) (path version : JsString) : Except LedgerError Unit := do
  let file ← w.target path false
  let content ← w.content file
  if content.map contentVersion = some version then return ()
  throw (.conflict (js "conflict") (js "Document changed before its read was recorded; read it again"))

inductive Accepted where
  | existing (event : Option LedgerEvent)
  | store (draft : LedgerEventDraft)

/-- The event records the content of `path` at `version`. -/
def isContentOf (path version : JsString) (event : LedgerEvent) : Bool :=
  match event.body with
  | .documentContent d => d.path == path && d.version == version
  | _ => false

def checkSnapshot (w : Workspace) (d : DocumentContentEvent) (documentCommit : Bool) : Except LedgerError Unit := do
  if !documentCommit then validateSnapshot contentVersion w d.path d.version
  if d.source = .write && !documentCommit then throw (.error (js "Document writes must use commitDocument"))
  if d.format ≠ .full ∨ d.base.isSome ∨ contentVersion d.content ≠ d.version then
    throw (.error (js "Document append requires a verified full snapshot"))

def changedDraft (draft : LedgerEventDraft) (d : DocumentContentEvent) (change : DocumentChange) : LedgerEventDraft :=
  { draft with
    body := .documentContent { d with
      content := change.content, format := change.format, base := change.base.or d.base, version := change.version } }

def acceptDocument (w : Workspace) (events : List LedgerEvent) (draft : LedgerEventDraft) (d : DocumentContentEvent)
    (documentCommit : Bool) : Except LedgerError Accepted := do
  checkSnapshot contentVersion w d documentCommit
  let current ← liftError (currentDocument contentVersion events d.path)
  match documentChange diff contentVersion d.path (current.map (·.content)) d.content with
  | none => return .existing (events.reverse.find? (isContentOf d.path d.version))
  | some change =>
    let draft := changedDraft draft d change
    let _ ← liftError (currentDocument contentVersion (events ++ [⟨draft, 0, []⟩]) d.path)
    return .store draft

theorem acceptDocument_current {w : Workspace} {events : List LedgerEvent} {draft : LedgerEventDraft}
    {d : DocumentContentEvent} {documentCommit : Bool} {current : Option DocumentView}
    (hcheck : checkSnapshot contentVersion w d documentCommit = .ok ())
    (hcurrent : liftError (currentDocument contentVersion events d.path) = .ok current) :
    acceptDocument diff contentVersion w events draft d documentCommit =
      (documentChange diff contentVersion d.path (current.map (·.content)) d.content).elim
        (.ok (.existing (events.reverse.find? (isContentOf d.path d.version)))) fun change =>
          liftError (currentDocument contentVersion (events ++ [⟨changedDraft draft d change, 0, []⟩]) d.path) >>=
          fun _ =>
            .ok (.store (changedDraft draft d change)) := by
  unfold acceptDocument
  rw [hcheck, hcurrent]
  dsimp only [bind, Except.bind]
  cases documentChange diff contentVersion d.path (current.map (·.content)) d.content <;> rfl

/-- The checks of `appendNow`. -/
def acceptDraft (w : Workspace) (events : List LedgerEvent) (draft : LedgerEventDraft) (documentCommit : Bool) :
    Except LedgerError Accepted :=
  match draft.body with
  | .workspaceChanged c =>
    if c.scope = .document && !documentCommit then .error (.error (js "Document changes must use commitDocument"))
    else .ok (.store draft)
  | .documentContent d => acceptDocument diff contentVersion w events draft d documentCommit
  | _ => .ok (.store draft)

/-- The sequence number of the newest event. -/
def lastSeq (events : List LedgerEvent) : Nat := (events.getLast?.map (·.seq)).getD 0

def stampDraft (events : List LedgerEvent) (draft : LedgerEventDraft) (time : JsString) : LedgerEvent :=
  ⟨draft, lastSeq events + 1, time⟩

/-- An append that fails while it writes: with its line in the file, or without it. -/
structure WriteFault where
  kept : Bool
  code : Option JsString

inductive AppendResult where
  | returned (event : Option LedgerEvent)
  | rejected (error : LedgerError)
  | failed (fault : WriteFault)

/-- `appendNow`, with the stored timeline it leaves. -/
def appendNow (w : Workspace) (sessionId : JsString) (events : List LedgerEvent) (draft : LedgerEventDraft)
    (documentCommit : Bool) (time : JsString) (fault : Option WriteFault) : AppendResult × List LedgerEvent :=
  match (do assertSessionId sessionId; acceptDraft diff contentVersion w events draft documentCommit) with
  | .error e => (.rejected e, events)
  | .ok (.existing event) => (.returned event, events)
  | .ok (.store draft) =>
    let event := stampDraft events draft time
    match fault with
    | none => (.returned (some event), events ++ [event])
    | some fault => (.failed fault, if fault.kept then events ++ [event] else events)

structure DocumentCommitContext where
  sessionId : JsString
  turn : Nat
  step : Nat
  parent : JsString

structure DocumentCommit where
  path : JsString
  title : JsString
  /-- Exact content read by the service; `none` means the file must not exist. -/
  before : Option JsString
  /-- `none` deletes the document. -/
  content : Option JsString
  context : Option DocumentCommitContext

/-- Where the input or output of a commit fails. -/
inductive CommitFault where
  | mutation (code : Option JsString)
  | durability (code : Option JsString)
  | content (fault : WriteFault)
  | receipt (fault : WriteFault)
  | sync (code : Option JsString)

/-- The documents on disk and the stored timeline of each session. -/
structure LedgerState where
  workspace : Workspace
  timelines : JsString → List LedgerEvent

def MAX_SAFE_INTEGER : Nat := 2 ^ 53 - 1

def DocumentCommitContext.valid (c : DocumentCommitContext) : Bool :=
  c.sessionId != [] && c.parent != [] && decide (1 ≤ c.turn ∧ c.turn ≤ MAX_SAFE_INTEGER) &&
    decide (1 ≤ c.step ∧ c.step ≤ MAX_SAFE_INTEGER)

def checkCommit (s : LedgerState) (input : DocumentCommit) : Except LedgerError (JsString × List LedgerEvent) := do
  if input.context.any (!·.valid) then throw (.error (js "Invalid document commit provenance"))
  let file ← s.workspace.target input.path true
  let content ← s.workspace.content file
  if content ≠ input.before then
    throw (.conflict (js "conflict") (js "Document changed before commit; read it again"))
  match input.context with
  | none => return (file, [])
  | some context =>
    assertSessionId context.sessionId
    let events := s.timelines context.sessionId
    if !events.any isSessionCreated then
      throw (.conflict (js "missing_session") (js "Document commit requires an existing session"))
    let _ ← liftError (currentDocument contentVersion events input.path)
    return (file, events)

/-- The snapshot a commit records; a deletion has none. -/
def commitDraft (context : DocumentCommitContext) (input : DocumentCommit) (events : List LedgerEvent) :
    Except JsString (Option LedgerEventDraft) :=
  match input.content with
  | none => .ok none
  | some content =>
    makeDocumentDraft contentVersion encodeLength input.path input.title content events (some context.turn)
      (some context.step) (some context.parent) .write

/-- The `workspace.changed` receipt of a commit. -/
def commitReceipt (context : DocumentCommitContext) (input : DocumentCommit) : LedgerEventDraft where
  turn := some context.turn
  step := some context.step
  body := .workspaceChanged
    { transactionId := none
      parent := context.parent
      scope := .document
      target := input.path
      change := if input.content = none then .deleted else if input.before = none then .created else .updated
      worktreeId := none
      version := some (contentVersion ((input.content.or input.before).getD []))
      hash := none
      files := none }

/-- What `await append(..)` throws. -/
def AppendResult.error? : AppendResult → Option LedgerError
  | .returned _ => none
  | .rejected e => some e
  | .failed fault => some (.io fault.code)

def CommitFault.contentFault : CommitFault → Option WriteFault
  | .content fault => some fault
  | _ => none

def CommitFault.receiptFault : CommitFault → Option WriteFault
  | .receipt fault => some fault
  | _ => none

/-- The receipt, after the snapshot, and the final `sync`. -/
def recordReceipt (w : Workspace) (context : DocumentCommitContext) (input : DocumentCommit)
    (events : List LedgerEvent) (receiptAt : JsString) (fault : Option CommitFault) :
    Except LedgerError Unit × List LedgerEvent :=
  let (result, events) := appendNow diff contentVersion w context.sessionId events
    (commitReceipt contentVersion context input) true receiptAt (fault.bind (·.receiptFault))
  match result.error?, fault with
  | some e, _ => (.error e, events)
  | none, some (.sync code) => (.error (.io code), events)
  | none, _ => (.ok (), events)

def recordCommit (w : Workspace) (context : DocumentCommitContext) (input : DocumentCommit)
    (events : List LedgerEvent) (contentAt receiptAt : JsString) (fault : Option CommitFault) :
    Except LedgerError Unit × List LedgerEvent :=
  match commitDraft contentVersion encodeLength context input events with
  | .error message => (.error (.error message), events)
  | .ok none => recordReceipt diff contentVersion w context input events receiptAt fault
  | .ok (some draft) =>
    let (result, events) := appendNow diff contentVersion w context.sessionId events draft true contentAt
      (fault.bind (·.contentFault))
    match result.error? with
    | some e => (.error e, events)
    | none => recordReceipt diff contentVersion w context input events receiptAt fault

def historyFailed (e : LedgerError) : LedgerError :=
  .conflict (js "history_failed")
    (js "Document was already changed but its session history could not be recorded; " ++
      js "read it again instead of retrying the write: " ++ e.errorCategory)

def durabilityFailed (e : LedgerError) : LedgerError :=
  .conflict (js "durability_failed")
    (js "Document was already changed but durability confirmation failed; " ++
      js "read it again instead of retrying the write: " ++ e.errorCategory)

/-- The mutation completes at the replacement of the file; the session history follows it. -/
def commit (s : LedgerState) (input : DocumentCommit) (contentAt receiptAt : JsString) (fault : Option CommitFault) :
    Except LedgerError Unit × LedgerState :=
  match checkCommit contentVersion s input with
  | .error e => (.error e, s)
  | .ok (file, events) =>
    match fault, s.workspace.write file input.content with
    | some (.mutation code), _ => (.error (.io code), s)
    | _, .error e => (.error e, s)
    | some (.durability code), .ok workspace => (.error (durabilityFailed (.io code)), { s with workspace })
    | fault, .ok workspace =>
      match input.context with
      | none => (.ok (), { s with workspace })
      | some context =>
        let (result, events) :=
          recordCommit diff contentVersion encodeLength workspace context input events contentAt receiptAt fault
        (result.mapError historyFailed,
          { workspace, timelines := Function.update s.timelines context.sessionId events })

end

end Wrenyard.Session
