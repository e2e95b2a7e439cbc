import Wrenyard.Devin.Events

/-!
# The two answers of the Devin transport

`executeDevin` answers with one completion or with a stream of chat chunks, by two separate paths over the same
events.  A client that folds the chunks is to get what the completion says, and the one to fail where the other does
(`Agree`).  An event without a chunk, an empty text, leaves the stream to stall.
-/

namespace Wrenyard.Devin

open Js

/-- `s.replaceAll(pattern, replacement)`, with fuel for the length of the text and its end. -/
def replaceFrom (pattern replacement : JsString) : Nat → JsString → JsString
  | 0, s => s
  | fuel + 1, s =>
    if startsWith s pattern then
      if pattern = [] then replacement ++ s.take 1 ++ (if s = [] then []
        else replaceFrom pattern replacement fuel (s.drop 1))
      else replacement ++ replaceFrom pattern replacement fuel (s.drop pattern.length)
    else s.take 1 ++ replaceFrom pattern replacement fuel (s.drop 1)

def replaceAll (s pattern replacement : JsString) : JsString := replaceFrom pattern replacement (s.length + 1) s

/-- What every chunk and every completion begins with. -/
structure Heading where
  id : JsString
  model : JsString
  created : Nat

/-- The body of `jsonError`. -/
def errorBody (message : JsString) (code : Json) : Json :=
  .obj [(js "error", .obj [(js "message", .str message), (js "type", .str (js "devin_error")), (js "code", code)])]

/-- `failureResponse`; a message that is no string has no `replaceAll`. -/
def failureResponse (key : JsString) (failure : Failure) : Option (Nat × Json) :=
  match failure.message with
  | .str message => some (failure.status, errorBody (replaceAll message key (js "[redacted]")) failure.code)
  | _ => none

def usageJson (usage : Usage) : Json :=
  .obj (OMap.ofFields [(js "prompt_tokens", usage.promptTokens.map .ofNat),
    (js "completion_tokens", usage.completionTokens.map .ofNat),
    (js "prompt_tokens_details", usage.cachedTokens.map fun n => .obj [(js "cached_tokens", .ofNat n)])])

structure ToolCall where
  id : JsString
  name : JsString
  arguments : JsString

/-- `array[index] = value` -/
def assign {α : Type} (array : List (Option α)) (index : Nat) (value : α) : List (Option α) :=
  if index < array.length then array.set index (some value)
  else array ++ List.replicate (index - array.length) none ++ [some value]

structure Collected where
  content : List JsString
  reasoning : List JsString
  calls : List (Option ToolCall)
  finish : JsString
  usage : Option Usage

def Collected.start : Collected := ⟨[], [], [], js "stop", none⟩

def collect (c : Collected) : Event → Option Collected
  | .text part => some (if part ≠ [] then { c with content := c.content ++ [part] } else c)
  | .reasoning part => some (if part ≠ [] then { c with reasoning := c.reasoning ++ [part] } else c)
  | .tool index id name => some { c with calls := assign c.calls index ⟨id, name, []⟩ }
  | .args index text =>
    match (c.calls[index]?).join with
    | none => none
    | some call => some { c with calls := c.calls.set index (some { call with arguments := call.arguments ++ text }) }
  | .stop reason usage => some (if reason ≠ [] then { c with finish := reason, usage } else c)
  | .error _ => some c

def callJson : Option ToolCall → Json
  | none => .null
  | some call =>
    .obj [(js "id", .str call.id), (js "type", .str (js "function")),
      (js "function", .obj [(js "name", .str call.name), (js "arguments", .str call.arguments)])]

def completionBody (heading : Heading) (c : Collected) : Json :=
  .obj (OMap.ofFields [(js "id", some (.str heading.id)), (js "object", some (.str (js "chat.completion"))),
    (js "created", some (.ofNat heading.created)), (js "model", some (.str heading.model)),
    (js "choices", some (.arr [.obj [(js "index", .ofNat 0),
      (js "message", .obj (OMap.ofFields [(js "role", some (.str (js "assistant"))),
        (js "content", some (.str c.content.flatten)),
        (js "reasoning_content", if c.reasoning ≠ [] then some (.str c.reasoning.flatten) else none),
        (js "tool_calls", if c.calls ≠ [] then some (.arr (c.calls.map callJson)) else none)])),
      (js "finish_reason", .str c.finish)]])),
    (js "usage", c.usage.map usageJson)])

/-- How a call of `executeDevin` ends. -/
inductive Answer where
  | completion (body : Json)
  /-- A stream that ends with `[DONE]`. -/
  | streamed (chunks : List Json)
  /-- A stream that ends with an error record. -/
  | cutOff (chunks : List Json) (error : Json)
  /-- A stream that breaks. -/
  | broken (chunks : List Json)
  /-- A stream in which a pull has ended without a chunk: nothing answers the read that waits for one, unless a
  further read asks for another pull. -/
  | stalled (chunks : List Json)
  | failure (status : Nat) (body : Json)
  | thrown

def failed (response : Option (Nat × Json)) : Answer :=
  match response with
  | some r => .failure r.1 r.2
  | none => .thrown

section

variable (key : JsString) (heading : Heading) (aborted : Bool)

def complete (c : Collected) : List Event → Answer
  | [] => if aborted then .thrown else .completion (completionBody heading c)
  | .error failure :: _ => failed (failureResponse key failure)
  | e :: es =>
    match collect c e with
    | none => .thrown
    | some c => complete c es

def chunk (delta : List (JsString × Json)) (finish : Option JsString) (usage : Option Usage) : Json :=
  .obj (OMap.ofFields [(js "id", some (.str heading.id)), (js "object", some (.str (js "chat.completion.chunk"))),
    (js "created", some (.ofNat heading.created)), (js "model", some (.str heading.model)),
    (js "choices", some (.arr [.obj [(js "index", .ofNat 0), (js "delta", .obj delta),
      (js "finish_reason", (finish.map .str).getD .null)]])),
    (js "usage", usage.map usageJson)])

/-- The chunk that a pull enqueues for an event. -/
def chunkOf : Event → Option Json
  | .text part => if part ≠ [] then some (chunk heading [(js "content", .str part)] none none) else none
  | .reasoning part =>
    if part ≠ [] then some (chunk heading [(js "reasoning_content", .str part)] none none) else none
  | .tool index id name =>
    some (chunk heading [(js "tool_calls", .arr [.obj [(js "index", .ofNat index), (js "id", .str id),
      (js "type", .str (js "function")),
      (js "function", .obj [(js "name", .str name), (js "arguments", .str [])])]])] none none)
  | .args index text =>
    some (chunk heading [(js "tool_calls", .arr [.obj [(js "index", .ofNat index),
      (js "function", .obj [(js "arguments", .str text)])]])] none none)
  | .stop reason usage => if reason ≠ [] then some (chunk heading [] (some reason) usage) else none
  | .error _ => none

def stream (sent : List Json) : List Event → Answer
  | [] => if aborted then .broken sent else .streamed sent
  | .error failure :: _ =>
    match failureResponse key failure with
    | some r => .cutOff sent r.2
    | none => .broken sent
  | e :: es =>
    match chunkOf heading e with
    | some chunk => stream (sent ++ [chunk]) es
    | none => .stalled sent

/-- `executeDevin`, from the events of an upstream body on. -/
def executeDevin (streaming : Bool) (events : List Event) : Answer :=
  match events with
  | [] => if aborted then .thrown else .failure 502 (errorBody (js "Empty Devin response") (.str (js "devin_error")))
  | .error failure :: _ => failed (failureResponse key failure)
  | e :: es =>
    if streaming then stream key heading aborted
      [chunk heading [(js "role", .str (js "assistant"))] none none] (e :: es)
    else complete key heading aborted .start (e :: es)

end

structure Completion where
  content : JsString
  reasoning : Option JsString
  calls : List (Option ToolCall)
  finish : Option JsString
  usage : Option Json

def textOf : Option Json → JsString
  | some (.str s) => s
  | _ => []

def itemsOf : Option Json → List Json
  | some (.arr items) => items
  | _ => []

def natOf : Option Json → Nat
  | some (.num n) => n.whole
  | _ => 0

/-- `value?.choices[0]` -/
def choice (value : Json) : Json := ((itemsOf (member value (js "choices")))[0]?).getD .null

def optionalText : Option Json → Option JsString
  | some (.str s) => some s
  | _ => none

def foldCall (calls : List (Option ToolCall)) (delta : Json) : List (Option ToolCall) :=
  let index := natOf (member delta (js "index"))
  let function := (member delta (js "function")).getD .null
  let arguments := textOf (member function (js "arguments"))
  match member delta (js "id") with
  | some (.str id) => assign calls index ⟨id, textOf (member function (js "name")), arguments⟩
  | _ => calls.modify index fun call => call.map fun call => { call with arguments := call.arguments ++ arguments }

def foldChunk (c : Completion) (chunk : Json) : Completion :=
  let delta := (member (choice chunk) (js "delta")).getD .null
  { content := c.content ++ textOf (member delta (js "content"))
    reasoning := match optionalText (member delta (js "reasoning_content")) with
      | some part => some (c.reasoning.getD [] ++ part)
      | none => c.reasoning
    calls := (itemsOf (member delta (js "tool_calls"))).foldl foldCall c.calls
    finish := (optionalText (member (choice chunk) (js "finish_reason"))).orElse fun _ => c.finish
    usage := (member chunk (js "usage")).orElse fun _ => c.usage }

def foldChunks (chunks : List Json) : Completion := chunks.foldl foldChunk ⟨[], none, [], none, none⟩

def readCall (call : Json) : Option ToolCall :=
  match member call (js "id") with
  | some (.str id) =>
    let function := (member call (js "function")).getD .null
    some ⟨id, textOf (member function (js "name")), textOf (member function (js "arguments"))⟩
  | _ => none

def readCompletion (body : Json) : Completion :=
  let message := (member (choice body) (js "message")).getD .null
  { content := textOf (member message (js "content"))
    reasoning := optionalText (member message (js "reasoning_content"))
    calls := (itemsOf (member message (js "tool_calls"))).map readCall
    finish := optionalText (member (choice body) (js "finish_reason"))
    usage := member body (js "usage") }

/-- A text or a reasoning with something in it, or any other event. -/
def Event.visible : Event → Bool
  | .text part | .reasoning part => !part.isEmpty
  | _ => true

inductive Agree : Answer → Answer → Prop where
  | message {body : Json} {chunks : List Json} : foldChunks chunks = readCompletion body →
      Agree (.completion body) (.streamed chunks)
  | failure (status : Nat) (body : Json) : Agree (.failure status body) (.failure status body)
  | cutOff (status : Nat) (body : Json) (chunks : List Json) : Agree (.failure status body) (.cutOff chunks body)
  | thrown : Agree .thrown .thrown
  | broken (chunks : List Json) : Agree .thrown (.broken chunks)

end Wrenyard.Devin
