import Wrenyard.Session.EventJson

/-!
# Rendering events

`context/render.ts`: escaping, the tag builder and the text of each event in the model context, in full and in the
reduced form a `context.reduced` event asks for.  `encodeLength` is the token count of the tokenizer package.
-/

namespace Wrenyard.Session

open Js

def closingNames : List JsString :=
  [js "message", js "thinking", js "memory-recall", js "doc-search", js "doc-content", js "files", js "action-result",
    js "reply", js "ws-update", js "interrupt", js "error"]

/-- The class `[A-Za-z0-9-]`. -/
def isNameUnit (u : UInt16) : Bool := (65 ≤ u && u ≤ 90) || (97 ≤ u && u ≤ 122) || (48 ≤ u && u ≤ 57) || u == 45

/-- The name of the record whose closing tag the text starts with, `BODY_CLOSING` at this place.  No name contains
`>`, so the name is what stands before the first one. -/
def closingName (s : JsString) : Option JsString :=
  if startsWith s (js "</") then
    let name := (s.drop 2).takeWhile (· ≠ 62)
    let isName := name ∈ closingNames ∨
      startsWith name (js "wy-") ∧ (name.drop 3).all isNameUnit ∧ name.drop 3 ≠ []
    if isName ∧ (s.drop 2).length ≠ name.length then some name else none
  else none

/-- Replace every closing tag; `skip` counts what is left of the last match. -/
def escapeBodyFrom : Nat → JsString → JsString
  | _, [] => []
  | skip + 1, _ :: s => escapeBodyFrom skip s
  | 0, u :: s =>
    match closingName (u :: s) with
    | some name => js "&lt;/" ++ name ++ js "&gt;" ++ escapeBodyFrom (name.length + 2) s
    | none => u :: escapeBodyFrom 0 s

def escapeBody (text : JsString) : JsString := escapeBodyFrom 0 text

/-- `text.replace(/u/gu, by)` for one character. -/
def replaceUnit (u : UInt16) (by_ : JsString) (text : JsString) : JsString :=
  text.flatMap fun v => if v = u then by_ else [v]

def escapeAttr (value : JsString) : JsString :=
  replaceUnit 34 (js "&quot;") (replaceUnit 62 (js "&gt;") (replaceUnit 60 (js "&lt;")
    (replaceUnit 38 (js "&amp;") value)))

abbrev Attribute := String × Option JsString

def renderAttribute : Attribute → JsString
  | (key, some value) => js " " ++ js key ++ js "=\"" ++ escapeAttr value ++ js "\""
  | (_, none) => []

def tag (name : String) (attributes : List Attribute) (body : Option JsString) : JsString :=
  let start := js "<" ++ js name ++ attributes.flatMap renderAttribute
  match body with
  | none => start ++ js "/>"
  | some body => start ++ js ">" ++ body ++ js "</" ++ js name ++ js ">"

/-- One metadata-only descriptor line; never file bytes or data URLs. -/
def formatFile (file : SessionFile) : JsString :=
  let dimensions := match file.kind, file.width, file.height with
    | .image, some width, some height => js " " ++ natText width ++ js "x" ++ natText height
    | _, _, _ => []
  let role := (file.role.map (js " role=" ++ ·)).getD []
  let run := (file.taskRunId.map (js " run=" ++ ·)).getD []
  let tokens := (file.tokens.map (js " tokens=" ++ natText ·)).getD []
  let truncated := if file.truncated = some true then js " truncated=true" else []
  js "[file path=" ++ file.path ++ js " name=" ++ file.name ++ js " kind=" ++ file.kind.text ++
    js " mime=" ++ file.mime
    ++ js " bytes=" ++ natText file.bytes ++ js " source=" ++ file.source.text ++ role ++ run ++ dimensions ++ tokens
    ++ truncated ++ js "] " ++ file.description

/-- The `turn` and `cycle` attributes of a record. -/
def indexAttributes (e : LedgerEvent) : List Attribute :=
  [("turn", e.turn.map natText), ("cycle", e.step.map natText)]

/-- The `<files>` record around the given lines. -/
def filesRecord (e : LedgerEvent) (f : FilesAttachedEvent) (body : List JsString) : JsString :=
  unlines ([tag "files" (indexAttributes e ++ [("source", some f.source.text)]) none] ++
    (if f.files = [] then [js "(none)"] else body) ++ [js "</files>"])

def renderFiles (e : LedgerEvent) (f : FilesAttachedEvent) : JsString :=
  filesRecord e f (f.files.flatMap fun file =>
    escapeBody (formatFile file) :: match file.text with
      | some text => if text = [] then [] else [escapeBody text]
      | none => [])

/-- The `<doc-content>` record with the given body. -/
def docContentRecord (e : LedgerEvent) (d : DocumentContentEvent) (body : JsString) : JsString :=
  tag "doc-content"
    (indexAttributes e ++ [("path", some d.path), ("title", some d.title), ("updated", some d.updated),
      ("version", some d.version), ("tokens", some (natText d.tokens)), ("format", some d.format.text),
        ("base", d.base),
      ("source", some d.source.text)])
    (some (escapeBody body))

def renderDocContent (e : LedgerEvent) (d : DocumentContentEvent) : JsString := docContentRecord e d d.content

def renderDocSearch (e : LedgerEvent) (d : DocumentFoundEvent) : JsString :=
  unlines ([tag "doc-search" (indexAttributes e ++ [("id", some d.parent)]) none, escapeBody d.understanding] ++
    d.picks.map (fun pick => escapeBody (js "- pick " ++ pick.path ++ js ": " ++ pick.reason)) ++
    d.near.map (fun near => escapeBody (js "- near " ++ near.path ++ js ": " ++ near.reason)) ++
    d.notes.map (fun note => escapeBody (js "- note " ++ note)) ++ [js "</doc-search>"])

def REDUCED_TEXT_LIMIT : Nat := 1500
def REDUCED_TEXT_HEAD : Nat := 1200
def REDUCED_TEXT_TAIL : Nat := 200
def REDUCED_REPLY_LIMIT : Nat := 2000
def REDUCED_RESULT_LIMIT : Nat := 1500
def REDUCED_RESULT_HEAD : Nat := 1000
def REDUCED_RESULT_TAIL : Nat := 300
def REDUCED_ARGUMENT_LIMIT : Nat := 500
def REDUCED_ARGUMENT_HEAD : Nat := 400
def REDUCED_ARGUMENT_TAIL : Nat := 100

def firstLine (text : JsString) : JsString := text.takeWhile (· ≠ lf)

def cutReleasedChars (text : JsString) (limit head tail : Nat) : JsString :=
  if text.length ≤ limit then text
  else
    text.take head ++ js "…[省略 " ++ natText (text.length - head - tail) ++ js " 字]" ++ text.drop (text.length - tail)

section

variable (encodeLength : JsString → Nat)

def estimateTokens (text : JsString) : Nat := if text = [] then 0 else encodeLength text

def cutReleasedTokens (text : JsString) (limit head tail : Nat) : JsString :=
  if text.length ≤ limit then text
  else
    let released := estimateTokens encodeLength ((text.take (text.length - tail)).drop head)
    text.take head ++ js "…[省略约 " ++ natText released ++ js " tokens]" ++ text.drop (text.length - tail)

def renderDocContentStub (e : LedgerEvent) (d : DocumentContentEvent) : JsString :=
  docContentRecord e d (js "[文档 " ++ d.path ++ js " 约 " ++ natText d.tokens ++ js " tokens 已释放，需要时重新读取]")

def renderDocSearchStub (e : LedgerEvent) (d : DocumentFoundEvent) : JsString :=
  unlines ([tag "doc-search" (indexAttributes e ++ [("id", some d.parent)]) none] ++
    d.picks.map (fun pick => escapeBody (js "- pick " ++ pick.path ++ js ": " ++ pick.title)) ++
    d.near.map (fun near => escapeBody (js "- near " ++ near.path ++ js ": " ++ near.title)) ++ [js "</doc-search>"])

def renderFilesStub (e : LedgerEvent) (f : FilesAttachedEvent) : JsString :=
  filesRecord e f (f.files.map fun file =>
    escapeBody (js "[file name=" ++ file.name ++ js " kind=" ++ file.kind.text ++ js "]"))

def renderUserMessage (e : LedgerEvent) (text : JsString) : JsString :=
  tag "message" [("turn", e.turn.map natText), ("role", some (js "user")), ("at", some e.at)] (some (escapeBody text))

/-- Render one context event as text; `none` for an observational event and for a result after an interrupt.
The event types without a case are those outside `CONTEXT_EVENT_TYPES`, and `context.compacted`, which is rendered
by its own block. -/
def renderEventText (reduced : Bool) (e : LedgerEvent) : Option JsString :=
  match e.body with
  | .turnStarted m => some (renderUserMessage e m.text)
  | .turnSteered m => some (renderUserMessage e m.text)
  | .stepStarted s =>
    some (tag "wy-info"
      (indexAttributes e ++ [("at", some e.at), ("model", some s.model),
        ("context-window", s.contextWindow.map natText),
        ("last-input-tokens", s.lastInputTokens.map natText)])
      none)
  | .reasoningThinking r => some (tag "thinking" (indexAttributes e) (some (escapeBody r.text)))
  | .reasoningCompleted r =>
    some (tag "message" (indexAttributes e ++ [("role", some (js "assistant"))])
      (some (escapeBody
        (if reduced then cutReleasedChars r.text REDUCED_TEXT_LIMIT REDUCED_TEXT_HEAD REDUCED_TEXT_TAIL
          else r.text))))
  | .memoryRecalled m =>
    some (tag "memory-recall" (indexAttributes e ++ [("path", some m.path), ("source", some m.source.text)])
      (some (if reduced then [] else escapeBody m.content)))
  | .documentFound d => some (if reduced then renderDocSearchStub e d else renderDocSearch e d)
  | .documentContent d => some (if reduced then renderDocContentStub e d else renderDocContent e d)
  | .filesAttached f => some (if reduced then renderFilesStub e f else renderFiles e f)
  | .actionStarted a =>
    some (tag "action" [("id", some a.id), ("type", some a.type.text)] (some (escapeBody a.prompt)))
  | .actionFinished a =>
    if a.afterInterrupt = some true then none
    else
      some (tag "action-result"
        (indexAttributes e ++ [("id", some a.id), ("kind", some a.type.text), ("status", some a.status.text),
          ("task", a.task), ("run", a.taskRunId)])
        (some (escapeBody
          (if reduced then
            cutReleasedTokens encodeLength a.result REDUCED_RESULT_LIMIT REDUCED_RESULT_HEAD REDUCED_RESULT_TAIL
          else a.result))))
  | .workspaceChanged w =>
    some (tag "wy-info"
      [("type", some (js "ws.updated")), ("action", some w.parent), ("scope", some w.scope.text),
        ("target", some w.target), ("change", some w.change.text), ("worktreeId", w.worktreeId),
          ("version", w.version),
        ("hash", w.hash), ("files", w.files.map (js ",").intercalate)]
      none)
  | .turnInterrupted i => some (tag "interrupt" [("turn", e.turn.map natText), ("reason", some i.reason.text)] none)
  | .replySent r =>
    some (tag "reply" [("turn", e.turn.map natText)]
      (some (escapeBody
        (if reduced then cutReleasedChars r.text REDUCED_REPLY_LIMIT REDUCED_TEXT_HEAD REDUCED_TEXT_TAIL
          else r.text))))
  | .systemNotice n =>
    match n.level with
    | .error =>
      some (tag "error" [("turn", e.turn.map natText), ("stage", some n.code)]
        (some (escapeBody (if reduced then firstLine n.message else n.message))))
    | .warning | .info =>
      if reduced then none
      else
        some (tag "wy-info"
          [("type", some e.body.type), ("turn", e.turn.map natText), ("source", some n.source.text),
            ("code", some n.code)]
          (some (escapeBody n.message)))
  | _ => none

end

def ACTION_RUNNING : JsString := js "Running. The result arrives later as an <action-result> record."

end Wrenyard.Session
