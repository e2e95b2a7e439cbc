import Wrenyard.TaskGraph.Values

/-!
# Schema tools

A schema is a JSON object.  `schemaAt` walks a schema along the projection of a source expression; it proves of a path
that it leads to a schema with a type, or says why it does not.
-/

namespace Wrenyard.TaskGraph

open Js

mutual

/-- `String(value)`. -/
def valueText : Json → JsString
  | .null => js "null"
  | .bool b => js (if b then "true" else "false")
  | .num n => n.text
  | .str s => s
  | .arr items => itemTexts items
  | .obj _ => js "[object Object]"

/-- `items.join()`, in which a null is empty. -/
def itemTexts : List Json → JsString
  | [] => []
  | [item] => itemText item
  | item :: rest => itemText item ++ 44 :: itemTexts rest

def itemText : Json → JsString
  | .null => []
  | value => valueText value

end

/-- `String(value)` of a value that may be absent. -/
def optionText (value : Option Json) : JsString := (value.map valueText).getD (js "undefined")

def ProjectionSegment.text : ProjectionSegment → JsString
  | field value => value
  | index i => natText i

def schemaType (schema : JsonObject) : Option JsString :=
  match schema.get (js "type") with
  | some (.str type) => if type = [] then none else some type
  | _ => none

def objectMember (schema : JsonObject) (key : JsString) : Option JsonObject :=
  match schema.get key with
  | some (.obj members) => some members
  | _ => none

def schemaStep (current : JsonObject) (segment : ProjectionSegment) : Except JsString JsonObject :=
  match schemaType current with
  | none => .error (js "schema at segment \"" ++ segment.text ++ js "\" has no valid type")
  | some type =>
    match segment with
    | .field name =>
      if type ≠ js "object" then
        .error (js "schema at segment \"" ++ name ++ js "\" must have type \"object\" for field traversal, got \"" ++
          type ++ js "\"")
      else
        match objectMember current (js "properties") with
        | none => .error (js "no properties at segment \"" ++ name ++ js "\"")
        | some properties =>
          match properties.get name with
          | none => .error (js "property \"" ++ name ++ js "\" not found")
          | some (.obj subschema) => .ok subschema
          | some _ => .error (js "property \"" ++ name ++ js "\" is not a valid schema")
    | .index i =>
      if type ≠ js "array" then .error (js "cannot index into non-array at [" ++ natText i ++ js "]")
      else
        match objectMember current (js "items") with
        | none => .error (js "array items schema missing or not a single schema at [" ++ natText i ++ js "]")
        | some items => .ok items

def schemaWalk : JsonObject → List ProjectionSegment → Except JsString JsonObject
  | current, [] =>
    match schemaType current with
    | none => .error (js "final projected schema has no valid type")
    | some _ => .ok current
  | current, segment :: rest =>
    match schemaStep current segment with
    | .error reason => .error reason
    | .ok subschema => schemaWalk subschema rest

def rootReason (schema : JsonObject) : List ProjectionSegment → Option JsString
  | .field _ :: _ =>
    if schema.get (js "type") = some (.str (js "object")) then none
    else
      some (js "root schema must have type \"object\" for field traversal, got \"" ++
        optionText (schema.get (js "type")) ++ js "\"")
  | .index _ :: _ =>
    if schema.get (js "type") = some (.str (js "array")) then none
    else
      some (js "root schema must have type \"array\" for index traversal, got \"" ++
        optionText (schema.get (js "type")) ++ js "\"")
  | [] => none

def schemaAt (schema : JsonObject) (projection : List ProjectionSegment) : Except JsString JsonObject :=
  match rootReason schema projection with
  | some reason => .error reason
  | none => schemaWalk schema projection

end Wrenyard.TaskGraph
