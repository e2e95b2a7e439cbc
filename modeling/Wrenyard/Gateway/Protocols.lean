import Wrenyard.Gateway.ResponseUsage

/-!
# The three protocol modules

What the Chat, Responses and Messages modules say about the records of a response: what completes it, what is a
failure, where its model and its usage stand.  The addition of token counts is that of floating-point numbers and
stays a parameter.
-/

namespace Wrenyard.Gateway

open Js

def zero : JsNumber := .ofNat 0

/-- `{ ...row, ...members }`. -/
def withMembers (row : Row) (members : List (JsString × Json)) : Row :=
  members.foldl (fun row m => OMap.set row m.1 m.2) row

/-- The `{type, code}` strings of an official error object, if any. -/
def errorIdentityOf (source : Option Json) : Option ErrorIdentity :=
  match source.bind object with
  | none => none
  | some row =>
    if textMember row (js "type") = none ∧ textMember row (js "code") = none then none
    else some ⟨textMember row (js "type"), textMember row (js "code")⟩

def identityOrEmpty (source : Option Json) : ErrorIdentity := (errorIdentityOf source).getD ⟨none, none⟩

def completeUsage (plus : JsNumber → JsNumber → JsNumber) (raw : Row) (input output : Option JsNumber) : Row :=
  let promptTokens := input.getD zero
  let completionTokens := output.getD zero
  let reported := (count raw (js "total_tokens")).getD zero
  let totalTokens := if isPositive reported then reported else plus promptTokens completionTokens
  withMembers raw
    [(js "prompt_tokens", .num promptTokens), (js "completion_tokens", .num completionTokens),
      (js "total_tokens", .num totalTokens)]

/-- Rewrite the `model` field of one object. -/
def mapModel (toPublic : JsString → JsString) (row : Row) : Row :=
  match textMember row (js "model") with
  | none => row
  | some model => OMap.set row (js "model") (.str (toPublic model))

/-- Rewrite the object at `key`, where there is one. -/
def mapChild (key : JsString) (f : Row → Row) (row : Row) : Row :=
  match child row key with
  | none => row
  | some nested => OMap.set row key (.obj (f nested))

def mapRoot (f : Row → Row) (payload : Json) : Json :=
  match object payload with
  | none => payload
  | some root => .obj (f root)

/-- What the relay asks of an entry protocol. -/
structure GatewayProtocolModule where
  isOfficialStreamError : Json → Bool
  normalizeResponseModel : (JsString → JsString) → Json → Json
  normalizeResponseUsage : Row → Row
  /-- The adapter of the observers it creates. -/
  adapter : UsageAdapter

variable (plus : JsNumber → JsNumber → JsNumber)

/-- The items of the array at `key`. -/
def itemsOf (row : Row) (key : JsString) : List Json :=
  match row.get key with
  | some (.arr items) => items
  | _ => []

def firstNonemptyString (source : Row) (fields : List JsString) : Option JsString :=
  fields.findSome? fun field => (textMember source field).filter (· ≠ [])

def hasChatOutput (delta : Row) : Bool :=
  (firstNonemptyString delta [js "content"]).isSome ||
    (firstNonemptyString delta [js "reasoning_content", js "reasoning", js "reasoning_text"]).isSome ||
    (itemsOf delta (js "tool_calls")).any fun call =>
      (((object call).bind fun item => child item (js "function")).bind fun f =>
        firstNonemptyString f [js "arguments"]).isSome

def isChatFailure (row : Row) : Bool :=
  present row (js "error") ||
    (itemsOf row (js "choices")).any fun choice =>
      let reason := (object choice).bind fun c => textMember c (js "finish_reason")
      reason == some (js "error") || reason == some (js "content_filter")

namespace Chat

def adapter : UsageAdapter where
  input raw := count raw (js "prompt_tokens")
  output raw := count raw (js "completion_tokens")
  cachedInput raw := (child raw (js "prompt_tokens_details")).bind fun d => count d (js "cached_tokens")
  reasoning raw := (child raw (js "completion_tokens_details")).bind fun d => count d (js "reasoning_tokens")
  usage row := child row (js "usage")
  terminal _ := false
  sentinel payload := payload == js "[DONE]"
  failure row := isChatFailure row
  errorIdentity row := if present row (js "error") then some (identityOrEmpty (row.get (js "error"))) else none
  emitted := some fun row =>
    (itemsOf row (js "choices")).any fun choice =>
      ((object choice).bind fun c => child c (js "delta")).any hasChatOutput

def isOfficialStreamError (event : Json) : Bool :=
  (((object event).bind fun row => child row (js "error")).bind fun e => textMember e (js "message")).isSome

def normalizeResponseModel (toPublic : JsString → JsString) (payload : Json) : Json :=
  mapRoot (mapModel toPublic) payload

def isFinal (choices : List Json) : Bool :=
  choices.isEmpty || choices.any fun choice => (object choice).any fun row => present row (js "finish_reason")

def normalizeResponseUsage (payload : Row) : Row :=
  match child payload (js "usage") with
  | some usage =>
    OMap.set payload (js "usage")
      (.obj (completeUsage plus usage (count usage (js "prompt_tokens")) (count usage (js "completion_tokens"))))
  | none =>
    match payload.get (js "choices") with
    | some (.arr choices) =>
      if isFinal choices then OMap.set payload (js "usage") (.obj (completeUsage plus [] none none)) else payload
    | _ => payload

end Chat

def chatProtocol : GatewayProtocolModule where
  isOfficialStreamError := Chat.isOfficialStreamError
  normalizeResponseModel := Chat.normalizeResponseModel
  normalizeResponseUsage := Chat.normalizeResponseUsage plus
  adapter := Chat.adapter

/-- The official in-stream error types. -/
def hasErrorType (row : Row) : Bool :=
  let type := textMember row (js "type")
  type == some (js "error") || type == some (js "response.failed") || type == some (js "response.incomplete")

def isResponsesFailure (row : Row) : Bool :=
  present row (js "error") || hasErrorType row ||
    (child row (js "response")).any fun response =>
      present response (js "error") || textMember response (js "status") == some (js "failed") ||
        textMember response (js "status") == some (js "incomplete")

namespace Responses

def adapter : UsageAdapter where
  input raw := count raw (js "input_tokens")
  output raw := count raw (js "output_tokens")
  cachedInput raw := (child raw (js "input_tokens_details")).bind fun d => count d (js "cached_tokens")
  reasoning raw := (child raw (js "output_tokens_details")).bind fun d => count d (js "reasoning_tokens")
  usage row := (child row (js "usage")).or ((child row (js "response")).bind fun r => child r (js "usage"))
  terminal row :=
    textMember row (js "type") == some (js "response.completed") ||
      (child row (js "response")).any fun r => textMember r (js "status") == some (js "completed")
  sentinel _ := false
  failure row := isResponsesFailure row
  errorIdentity row :=
    if present row (js "error") then some (identityOrEmpty (row.get (js "error")))
    else if (child row (js "response")).any (present · (js "error")) then
      some (identityOrEmpty ((child row (js "response")).bind fun r => r.get (js "error")))
    else if hasErrorType row then some (identityOrEmpty (some (.obj row)))
    else none
  emitted := none

def isOfficialStreamError (event : Json) : Bool :=
  (object event).any fun row =>
    hasErrorType row || ((child row (js "response")).bind fun r => child r (js "error")).isSome ||
      (child row (js "error")).isSome

def normalizeResponseModel (toPublic : JsString → JsString) (payload : Json) : Json :=
  mapRoot (fun root => mapChild (js "response") (mapModel toPublic) (mapModel toPublic root)) payload

def applyUsage (parent : Row) : Row :=
  match child parent (js "usage") with
  | none => parent
  | some usage =>
    let completed := completeUsage plus usage (count usage (js "input_tokens")) (count usage (js "output_tokens"))
    let normalizedUsage := OMap.delete (OMap.delete completed (js "prompt_tokens")) (js "completion_tokens")
    OMap.set parent (js "usage") (.obj (withMembers normalizedUsage
      [(js "input_tokens", (completed.get (js "prompt_tokens")).getD .null),
        (js "output_tokens", (completed.get (js "completion_tokens")).getD .null),
        (js "total_tokens", (completed.get (js "total_tokens")).getD .null)]))

def normalizeResponseUsage (payload : Row) : Row :=
  mapChild (js "response") (applyUsage plus) (applyUsage plus payload)

end Responses

def responsesProtocol : GatewayProtocolModule where
  isOfficialStreamError := Responses.isOfficialStreamError
  normalizeResponseModel := Responses.normalizeResponseModel
  normalizeResponseUsage := Responses.normalizeResponseUsage plus
  adapter := Responses.adapter

def isMessagesFailure (row : Row) : Bool :=
  textMember row (js "type") == some (js "error") || present row (js "error")

namespace Messages

def totalInput (raw : Row) : Option JsNumber :=
  let inputTokens := count raw (js "input_tokens")
  let read := count raw (js "cache_read_input_tokens")
  let created := count raw (js "cache_creation_input_tokens")
  if inputTokens = none ∧ read = none ∧ created = none then none
  else some (plus (plus (inputTokens.getD zero) (read.getD zero)) (created.getD zero))

def officialError (row : Row) : Option Row :=
  if textMember row (js "type") = some (js "error") then
    (child row (js "error")).filter fun e =>
      (textMember e (js "type")).isSome && (textMember e (js "message")).isSome
  else none

def adapter : UsageAdapter where
  input raw := totalInput plus raw
  output raw := count raw (js "output_tokens")
  cachedInput raw := count raw (js "cache_read_input_tokens")
  reasoning raw := (child raw (js "output_tokens_details")).bind fun d => count d (js "reasoning_tokens")
  usage row := (child row (js "usage")).or ((child row (js "message")).bind fun m => child m (js "usage"))
  terminal row := textMember row (js "type") == some (js "message_stop")
  sentinel _ := false
  failure row := isMessagesFailure row
  errorIdentity row := (officialError row).map fun e => identityOrEmpty (some (.obj e))
  emitted := none

def isOfficialStreamError (event : Json) : Bool := (object event).any fun row => (officialError row).isSome

def normalizeResponseModel (toPublic : JsString → JsString) (payload : Json) : Json :=
  mapRoot (fun root => mapChild (js "message") (mapModel toPublic) (mapModel toPublic root)) payload

def applyUsage (parent : Row) : Row :=
  match child parent (js "usage") with
  | none => parent
  | some usage =>
    OMap.set parent (js "usage") (.obj (withMembers usage
      [(js "input_tokens", .num ((count usage (js "input_tokens")).getD zero)),
        (js "output_tokens", .num ((count usage (js "output_tokens")).getD zero))]))

def normalizeResponseUsage (payload : Row) : Row := mapChild (js "message") applyUsage (applyUsage payload)

end Messages

def messagesProtocol : GatewayProtocolModule where
  isOfficialStreamError := Messages.isOfficialStreamError
  normalizeResponseModel := Messages.normalizeResponseModel
  normalizeResponseUsage := Messages.normalizeResponseUsage
  adapter := Messages.adapter plus

inductive GatewayProtocol where
  | openaiChat
  | openaiResponses
  | anthropicMessages
deriving DecidableEq

def protocolModule : GatewayProtocol → GatewayProtocolModule
  | .openaiChat => chatProtocol plus
  | .openaiResponses => responsesProtocol plus
  | .anthropicMessages => messagesProtocol plus

end Wrenyard.Gateway
