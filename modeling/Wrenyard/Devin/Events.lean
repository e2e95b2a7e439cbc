import Wrenyard.Devin.Wire
import Wrenyard.Js.Utf8Chunks
import Wrenyard.TaskGraph.SchemaTools

/-!
# The event stream of the Devin transport

`decodeEvents` cuts Connect frames out of a growing buffer and yields what their fields say.  Decompression is a
parameter, and so are the identifiers that are drawn for tool calls without one.  A stream is decoded the same however
it is cut into chunks (`decodeEvents_flatten`), as long as the buffer stays within its limit and nothing follows the
trailer; bytes behind the trailer are an error in one chunk and dropped in a later one.
-/

namespace Wrenyard.Devin

open Js

structure Failure where
  status : Nat
  message : Json
  code : Json
  upstreamStatus : Option Nat
deriving DecidableEq

def member (value : Json) (key : JsString) : Option Json :=
  match value with
  | .obj members => OMap.get members key
  | _ => none

/-- A member that is neither missing nor null. -/
def present (value : Option Json) : Option Json :=
  match value with
  | some .null => none
  | v => v

/-- `decoder.decode(bytes)`, of a decoder that is fatal and drops a byte order mark. -/
def decodeText (bytes : Bytes) : Except JsString JsString :=
  if isUtf8 bytes then
    match decodeUtf8 bytes with
    | 0xFEFF :: text => .ok text
    | text => .ok text
  else .error (js "The encoded data was not valid for encoding utf-8")

def statusOfCode (code : JsString) : Option Nat :=
  OMap.get [(js "unauthenticated", 401), (js "permission_denied", 403), (js "resource_exhausted", 429),
    (js "invalid_argument", 400), (js "unavailable", 503), (js "deadline_exceeded", 504)] code

/-- What is read of the error, of `connectError` where the data is parsed or the status is a failure. -/
def failureOf (error : Option Json) (httpStatus : Nat) : Failure :=
  let code := (present (error.bind (member · (js "code")))).getD (.str (js "upstream_http_error"))
  let message := (error.bind (member · (js "message"))).getD .null
  { status := (statusOfCode (TaskGraph.valueText code)).getD (if httpStatus ≥ 300 then httpStatus else 502)
    code
    upstreamStatus := some httpStatus
    message := if message.truthy then message else .str (js "Devin upstream request failed") }

def connectError (data : Bytes) (httpStatus : Nat) : Option Failure :=
  match (decodeText data).toOption.bind Json.parse with
  | none | some .null =>
    if httpStatus < 300 then
      some ⟨502, .str (js "Invalid Devin Connect trailer"), .str (js "invalid_stream"), none⟩
    else some (failureOf none httpStatus)
  | some parsed =>
    let code := (member parsed (js "code")).getD .null
    let error := (present (member parsed (js "error"))).orElse fun _ => if code.truthy then some parsed else none
    if !(error.getD .null).truthy && decide (httpStatus < 300) then none else some (failureOf error httpStatus)

structure Usage where
  promptTokens : Option Nat
  completionTokens : Option Nat
  cachedTokens : Option Nat
deriving DecidableEq, Repr

inductive Event where
  | text (part : JsString)
  | reasoning (part : JsString)
  | tool (index : Nat) (id name : JsString)
  | args (index : Nat) (text : JsString)
  | stop (reason : JsString) (usage : Option Usage)
  | error (failure : Failure)
deriving DecidableEq

/-- What the decoder knows of the frames so far. -/
structure Decoder where
  /-- `toolIndex + 1` -/
  tools : Nat
  stop : Nat
  toolIds : OMap JsString Nat
  inputTokens : Option Nat
  outputTokens : Option Nat
  cachedInputTokens : Option Nat
deriving DecidableEq, Repr

def Decoder.start : Decoder := ⟨0, 0, [], none, none, none⟩

structure ToolFields where
  id : JsString
  name : JsString
  args : JsString
deriving DecidableEq, Repr

def toolFields (t : ToolFields) : List Field → Except JsString ToolFields
  | [] => .ok t
  | ⟨num, wire, _, some data⟩ :: fields =>
    if wire = 2 then
      if num = 1 then do
        let id ← decodeText data
        toolFields { t with id } fields
      else if num = 2 then do
        let name ← decodeText data
        toolFields { t with name } fields
      else if num = 3 then do
        let args ← decodeText data
        toolFields { t with args := t.args ++ args } fields
      else toolFields t fields
    else toolFields t fields
  | ⟨_, _, _, none⟩ :: fields => toolFields t fields

def usageField (d : Decoder) (f : Field) : Decoder :=
  match f.wire, f.n with
  | 0, some n =>
    if f.num = 2 then { d with inputTokens := some n }
    else if f.num = 3 then { d with outputTokens := some n }
    else if f.num = 5 then { d with cachedInputTokens := some n }
    else d
  | _, _ => d

/-- The events of a step, and its result unless it throws. -/
abbrev Yields (α : Type) := List Event × Except JsString α

section

variable (gunzip : Bytes → Except JsString Bytes) (randomId : Nat → JsString) (status : Nat)

def onTool (d : Decoder) (t : ToolFields) : Yields Decoder :=
  let known := if t.id ≠ [] then OMap.get d.toolIds t.id else none
  if known = none ∧ t.name ≠ [] then
    let index := d.tools
    let id := if t.id = [] then randomId index else t.id
    let d := { d with tools := index + 1, toolIds := OMap.set d.toolIds id index }
    (.tool index id t.name :: if t.args = [] then [] else [.args index t.args], .ok d)
  else if t.args = [] then ([], .ok d)
  else
    let latest := if t.id ≠ [] ∨ d.tools = 0 then none else some (d.tools - 1)
    match known.orElse fun _ => latest with
    | none => ([], .error (js "Tool arguments have no matching call"))
    | some index => ([.args index t.args], .ok d)

def onField (d : Decoder) (f : Field) : Yields Decoder :=
  let data := f.data.getD []
  if (f.num = 3 ∨ f.num = 9) ∧ f.wire = 2 ∧ data ≠ [] then
    match decodeText data with
    | .error e => ([], .error e)
    | .ok part => ([if f.num = 3 then .text part else .reasoning part], .ok d)
  else if f.num = 6 ∧ f.wire = 2 ∧ f.data ≠ none then
    match parseFields data >>= toolFields ⟨[], [], []⟩ with
    | .error e => ([], .error e)
    | .ok t => onTool randomId d t
  else if f.num = 5 ∧ f.wire = 0 then ([], .ok { d with stop := f.n.getD 0 })
  else if f.num = 7 ∧ f.wire = 2 ∧ f.data ≠ none
    then ([], (parseFields data).map fun fields => fields.foldl usageField d)
  else ([], .ok d)

def onFields (d : Decoder) : List Field → Yields Decoder
  | [] => ([], .ok d)
  | f :: fields =>
    match onField randomId d f with
    | (es, .error e) => (es, .error e)
    | (es, .ok d) => (es ++ (onFields d fields).1, (onFields d fields).2)

/-- What stands at the start of the buffer. -/
inductive Cut where
  | short
  | oversized
  | frame (flags : Nat) (data rest : Bytes)
deriving DecidableEq, Repr

/-- `getUint32` -/
def uint32 (a b c d : UInt8) : Nat := ((a.toNat * 256 + b.toNat) * 256 + c.toNat) * 256 + d.toNat

def cutFrame : Bytes → Cut
  | flags :: a :: b :: c :: d :: rest =>
    let size := uint32 a b c d
    if size > maxFrame then .oversized
    else if rest.length < size then .short
    else .frame flags.toNat (rest.take size) (rest.drop size)
  | _ => .short

inductive FrameEnd where
  | fields (d : Decoder)
  | trailer
  | failed (message : JsString)
  | returned

def onFrame (d : Decoder) (flags : Nat) (data : Bytes) : List Event × FrameEnd :=
  if flags &&& 252 ≠ 0 then ([], .failed (js "Invalid Connect frame flags"))
  else
    match if flags &&& 1 ≠ 0 then gunzip data else .ok data with
    | .error e => ([], .failed e)
    | .ok data =>
      if flags &&& 2 ≠ 0 then
        match connectError data 200 with
        | some failure => ([.error failure], .returned)
        | none => ([], .trailer)
      else
        match parseFields data with
        | .error e => ([], .failed e)
        | .ok fields =>
          match onFields randomId d fields with
          | (es, .error e) => (es, .failed e)
          | (es, .ok d) => (es, .fields d)

inductive Progress where
  | reading (d : Decoder) (buffer : Bytes)
  | ended (d : Decoder)
  | failed (message : JsString)
  | returned
deriving DecidableEq

def drain : Nat → Decoder → Bytes → List Event × Progress
  | 0, d, buffer => ([], .reading d buffer)
  | fuel + 1, d, buffer =>
    match cutFrame buffer with
    | .short => ([], .reading d buffer)
    | .oversized => ([], .failed (js "Devin response frame exceeds 16 MiB"))
    | .frame flags data rest =>
      match onFrame gunzip randomId d flags data with
      | (es, .fields d) => (es ++ (drain fuel d rest).1, (drain fuel d rest).2)
      | (es, .trailer) => if rest = [] then (es, .ended d) else (es, .failed (js "Data follows Connect trailer"))
      | (es, .failed e) => (es, .failed e)
      | (es, .returned) => (es, .returned)

def addSafe (m n : Nat) : Nat :=
  let sum := m + n
  if sum ≤ 2 ^ 53 ∨ sum % 2 = 0 then sum else if sum / 2 % 2 = 0 then sum - 1 else sum + 1

def usageOf (d : Decoder) : Option Usage :=
  if d.inputTokens = none ∧ d.outputTokens = none ∧ d.cachedInputTokens = none then none
  else some
    { promptTokens := if d.inputTokens ≠ none ∨ d.cachedInputTokens ≠ none then
        some (addSafe (d.inputTokens.getD 0) (d.cachedInputTokens.getD 0)) else none
      completionTokens := d.outputTokens
      cachedTokens := d.cachedInputTokens }

def stopEvent (d : Decoder) : Event :=
  .stop (if d.tools > 0 ∨ d.stop = 10 then js "tool_calls" else if d.stop = 3 then js "length"
    else js "stop") (usageOf d)

/-- What the generator yields for an exception. -/
def streamFailure (message : JsString) : Event :=
  .error ⟨502, .str message, .str (js "invalid_stream"), some status⟩

/-- The events where the loop stops and what `next` reads from there. -/
def settle (next : Decoder → Bytes → List Event) : Progress → List Event
  | .reading d buffer => next d buffer
  | .ended d => [stopEvent d]
  | .failed message => [streamFailure status message]
  | .returned => []

def endOfBody (_ : Decoder) (buffer : Bytes) : List Event :=
  [streamFailure status (if buffer ≠ [] then js "Truncated Devin Connect frame"
    else js "Missing Devin Connect trailer")]

def readFrom (d : Decoder) (buffer : Bytes) : List Bytes → List Event
  | [] => endOfBody status d buffer
  | chunk :: chunks =>
    if buffer.length + chunk.length > maxFrame * 2 then
      [streamFailure status (js "Devin stream buffer exceeds limit")]
    else
      let r := drain gunzip randomId (buffer ++ chunk).length d (buffer ++ chunk)
      r.1 ++ settle status (fun d buffer => readFrom d buffer chunks) r.2

def decodeEvents (chunks : List Bytes) : List Event := readFrom gunzip randomId status .start [] chunks

end

end Wrenyard.Devin
