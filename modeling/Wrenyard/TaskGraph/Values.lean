import Wrenyard.TaskGraph.Runner

/-!
# Values at run time

How a running graph reads values: source expressions, and references in the parameters of an action.
-/

namespace Wrenyard.TaskGraph

open Js

inductive ProjectionSegment where
  | field (value : JsString)
  | index (value : Nat)

/-- The class `[A-Za-z_]`. -/
def isLetter (u : UInt16) : Bool := (65 ≤ u && u ≤ 90) || u == 95 || (97 ≤ u && u ≤ 122)

/-- The class `\w`. -/
def isWord (u : UInt16) : Bool := isLetter u || isDigit u

/-- `[A-Za-z_]\w*` at the beginning, and what follows it. -/
def takeIdentifier : JsString → Option (JsString × JsString)
  | [] => none
  | u :: rest => if isLetter u then some (u :: rest.takeWhile isWord, rest.dropWhile isWord) else none

/-- `\d+`. -/
def anyNumeral (digits : JsString) : Bool := !digits.isEmpty

/-- `0|[1-9][0-9]*`. -/
def plainNumeral (digits : JsString) : Bool := digits = [48] || (!digits.isEmpty && digits.head? ≠ some 48)

/-- A projection at the beginning, `.field` or `[index]`, and what follows it. -/
def takeSegment (numeral : JsString → Bool) : JsString → Option (ProjectionSegment × JsString)
  | [] => none
  | u :: rest =>
    if u = 46 then (takeIdentifier rest).map fun r => (.field r.1, r.2)
    else if u = 91 then
      match rest.dropWhile isDigit with
      | v :: after =>
        if v = 93 ∧ numeral (rest.takeWhile isDigit) = true then
          some (.index (digitsValue (rest.takeWhile isDigit)), after)
        else none
      | [] => none
    else none

/-- The projections a suffix consists of; `none` where something else is left.  Each takes a unit at least. -/
def takeSegments (numeral : JsString → Bool) : Nat → JsString → Option (List ProjectionSegment)
  | _, [] => some []
  | 0, _ :: _ => none
  | fuel + 1, u :: rest =>
    match takeSegment numeral (u :: rest) with
    | none => none
    | some (segment, after) => (takeSegments numeral fuel after).map (segment :: ·)

def parseProjection (numeral : JsString → Bool) (suffix : JsString) : Option (List ProjectionSegment) :=
  takeSegments numeral suffix.length suffix

structure ParsedSourceExpr where
  nodeId : NodeId
  projection : List ProjectionSegment

def beginsWith (expr nodeId : JsString) : Bool :=
  startsWith expr nodeId &&
    match expr.drop nodeId.length with
    | [] => true
    | u :: _ => u = 46 || u = 91

def longestNodeId (expr : JsString) (nodeIds : List NodeId) : Option NodeId :=
  nodeIds.foldl (fun best nodeId =>
    if nodeId.length ≤ (best.map List.length).getD 0 then best
    else if beginsWith expr nodeId then some nodeId
    else best) none

def parseSourceExpr (expr : JsString) (nodeIds : List NodeId) : Option ParsedSourceExpr :=
  let best := longestNodeId expr nodeIds <|>
    if trim expr ≠ [] ∧ trim expr ≠ expr then longestNodeId (trim expr) nodeIds else none
  best.bind fun nodeId =>
    let effective := if startsWith expr nodeId then expr else trim expr
    (parseProjection anyNumeral (effective.drop nodeId.length)).map fun projection => ⟨nodeId, projection⟩

/-- `projectValue`: `none` where a segment is not found. -/
def projectValue : Json → List ProjectionSegment → Option Json
  | root, [] => some root
  | .obj members, .field name :: rest =>
    match OMap.get members name with
    | some value => projectValue value rest
    | none => none
  | .arr items, .index i :: rest =>
    match items[i]? with
    | some value => projectValue value rest
    | none => none
  | _, _ :: _ => none

def inputResolveFailed (message : JsString) : ExecutionError := ⟨js "INPUT_RESOLVE_FAILED", message, none⟩

structure InputsRef where
  slot : JsString
  projection : List ProjectionSegment

/-- What follows `inputs.`, with a dollar sign before it or without. -/
def afterInputs (value : JsString) : Option JsString :=
  if startsWith value (js "$inputs.") then some (value.drop 8)
  else if startsWith value (js "inputs.") then some (value.drop 7)
  else none

def parseInputsValueRef (value : JsString) : Option InputsRef :=
  (afterInputs value).bind fun rest =>
    (takeIdentifier rest).bind fun r =>
      if r.2.any isLineTerminator then none
      else (parseProjection plainNumeral r.2).map fun projection => ⟨r.1, projection⟩

def slotAbsent (slot : JsString) : ExecutionError :=
  inputResolveFailed (js "input slot \"" ++ slot ++ js "\" is absent")

def referenceAbsent (value : JsString) : ExecutionError :=
  inputResolveFailed (js "input reference \"" ++ value ++ js "\" is absent")

def resolveString (inputs : JsonObject) (value : JsString) : Except ExecutionError Json :=
  match parseInputsValueRef value with
  | none => .ok (.str value)
  | some ref =>
    match OMap.get inputs ref.slot with
    | none => .error (slotAbsent ref.slot)
    | some root =>
      match projectValue root ref.projection with
      | none => .error (referenceAbsent value)
      | some projected => .ok projected

/-- The value of an object with the one key `const`, which is a literal. -/
def soleConst : List (JsString × Json) → Option Json
  | [(key, value)] => if key = js "const" then some value else none
  | _ => none

mutual

def resolveActionTemplate (inputs : JsonObject) : Json → Except ExecutionError Json
  | .str value => resolveString inputs value
  | .arr items =>
    match resolveTemplateItems inputs items with
    | .error error => .error error
    | .ok items' => .ok (.arr items')
  | .obj members =>
    match soleConst members with
    | some value => .ok value
    | none =>
      match resolveTemplateMembers inputs members with
      | .error error => .error error
      | .ok members' => .ok (.obj members')
  | value => .ok value

def resolveTemplateItems (inputs : JsonObject) : List Json → Except ExecutionError (List Json)
  | [] => .ok []
  | item :: rest =>
    match resolveActionTemplate inputs item with
    | .error error => .error error
    | .ok item' =>
      match resolveTemplateItems inputs rest with
      | .error error => .error error
      | .ok rest' => .ok (item' :: rest')

def resolveTemplateMembers (inputs : JsonObject) : List (JsString × Json) →
    Except ExecutionError (List (JsString × Json))
  | [] => .ok []
  | (key, value) :: rest =>
    match resolveActionTemplate inputs value with
    | .error error => .error error
    | .ok value' =>
      match resolveTemplateMembers inputs rest with
      | .error error => .error error
      | .ok rest' => .ok ((key, value') :: rest')

end

end Wrenyard.TaskGraph
