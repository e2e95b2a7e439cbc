import Wrenyard.TaskGraph.Model

/-!
# Schemas of literals

`inferSchemaFromLiteral` reads a schema off a literal: an array has the schema of its first element for its items, and
an object has its own keys and no others.  Validation is that of JSON Schema for the keywords it writes.  The schema
accepts the values of the shape of the literal (`accepts_inferSchemaFromLiteral`).
-/

namespace Wrenyard.TaskGraph

open Js

mutual

def inferSchemaFromLiteral : Json → Json
  | .null => .obj [(js "type", .str (js "null"))]
  | .str _ => .obj [(js "type", .str (js "string"))]
  | .num _ => .obj [(js "type", .str (js "number"))]
  | .bool _ => .obj [(js "type", .str (js "boolean"))]
  | .arr [] => .obj [(js "type", .str (js "array"))]
  | .arr (first :: _) => .obj [(js "type", .str (js "array")), (js "items", inferSchemaFromLiteral first)]
  | .obj members =>
    .obj [(js "type", .str (js "object")), (js "properties", .obj (inferProperties members)),
      (js "required", .arr (members.map fun entry => .str entry.1)), (js "additionalProperties", .bool false)]

def inferProperties : List (JsString × Json) → List (JsString × Json)
  | [] => []
  | (key, value) :: rest => (key, inferSchemaFromLiteral value) :: inferProperties rest

end

def typeName : Json → JsString
  | .null => js "null"
  | .bool _ => js "boolean"
  | .num _ => js "number"
  | .str _ => js "string"
  | .arr _ => js "array"
  | .obj _ => js "object"

def itemsOf : Json → List Json
  | .arr items => items
  | _ => []

def membersOf : Json → JsonObject
  | .obj members => members
  | _ => []

/-- `required`, a condition on objects alone. -/
def hasRequired : Json → Json → Bool
  | .arr names, .obj members => names.all fun name => members.any fun entry => .str entry.1 = name
  | _, _ => true

/-- The keys that `properties` declares. -/
def declaredKeys (keywords : JsonObject) : List JsString :=
  match OMap.get keywords (js "properties") with
  | some (.obj properties) => OMap.keys properties
  | _ => []

mutual

/-- Whether a schema accepts a value; `true` and `false` are schemas. -/
def accepts : Json → Json → Bool
  | .obj keywords, value => acceptsKeywords (declaredKeys keywords) keywords value
  | .bool b, _ => b
  | _, _ => false

def acceptsKeywords (declared : List JsString) : List (JsString × Json) → Json → Bool
  | [], _ => true
  | (keyword, schema) :: rest, value =>
    acceptsKeyword declared keyword schema value && acceptsKeywords declared rest value

def acceptsKeyword (declared : List JsString) (keyword : JsString) (schema value : Json) : Bool :=
  if keyword = js "type" then schema = .str (typeName value)
  else if keyword = js "required" then hasRequired schema value
  else if keyword = js "items" then (itemsOf value).all (accepts schema)
  else if keyword = js "properties" then acceptsProperties schema (membersOf value)
  else if keyword = js "additionalProperties" then
    (membersOf value).all fun entry => entry.1 ∈ declared || accepts schema entry.2
  else true

def acceptsProperties : Json → JsonObject → Bool
  | .obj properties, members => acceptsEntries properties members
  | _, _ => true

def acceptsEntries : List (JsString × Json) → JsonObject → Bool
  | [], _ => true
  | (key, schema) :: rest, members => (OMap.get members key).all (accepts schema) && acceptsEntries rest members

end

mutual

/-- A value has the shape of a literal: its kind, its keys, and in an array only elements of the shape of the
first. -/
def fits : Json → Json → Bool
  | .null, .null => true
  | .bool _, .bool _ => true
  | .num _, .num _ => true
  | .str _, .str _ => true
  | .arr [], .arr _ => true
  | .arr (first :: _), .arr items => items.all (fits first)
  | .obj members, .obj members' =>
    fitsMembers members members' && members'.all fun entry => decide (entry.1 ∈ OMap.keys members)
  | _, _ => false

def fitsMembers : List (JsString × Json) → JsonObject → Bool
  | [], _ => true
  | (key, value) :: rest, members => (OMap.get members key).any (fits value) && fitsMembers rest members

end

theorem keys_inferProperties (members : List (JsString × Json)) :
    OMap.keys (inferProperties members) = OMap.keys members := by
  induction members with
  | nil => rfl
  | cons entry members ih => exact congrArg (entry.1 :: ·) ih

theorem any_key (members : JsonObject) (key : JsString) :
    (members.any fun entry => decide (entry.1 = key)) = members.has key := by
  induction members with
  | nil => rfl
  | cons entry members ih =>
    rw [List.any_cons, ih, OMap.has, OMap.has, OMap.get_cons]
    by_cases h : entry.1 = key <;> simp [h]

theorem keywords_distinct : [js "additionalProperties", js "properties", js "items", js "required",
    js "type"].Nodup := by
  decide +kernel

theorem accepts_fits : (∀ literal value, accepts (inferSchemaFromLiteral literal) value = fits literal value) ∧
    ∀ members value, (acceptsEntries (inferProperties members) value && members.all fun entry => value.has entry.1) =
    fitsMembers members value := by
  have hkind : ∀ (name : JsString) (value : Json), accepts (.obj [(js "type", .str name)]) value =
      decide (name = typeName value) := by
    intro name value
    simp [accepts, acceptsKeywords, acceptsKeyword]
  have hkeys := keywords_distinct
  simp only [List.nodup_cons, List.mem_cons, not_or] at hkeys
  refine inferSchemaFromLiteral.mutual_induct _ _ ?_ ?_ ?_ ?_ ?_ ?_ ?_ ?_ ?_
  iterate 4
    intros
    rename_i value
    rw [inferSchemaFromLiteral, hkind]
    cases value <;> rfl
  · intro value
    rw [inferSchemaFromLiteral, hkind]
    cases value <;> rfl
  · intro first rest ih value
    have harray : accepts (inferSchemaFromLiteral (.arr (first :: rest))) value =
        (decide (js "array" = typeName value) && (itemsOf value).all (fits first)) := by
      simp [inferSchemaFromLiteral, accepts, acceptsKeywords, acceptsKeyword, hkeys, funext ih]
    rw [harray]
    cases value with
    | arr items => simp [typeName, itemsOf, fits]
    | _ => rfl
  · intro members ih value
    have hdeclared : ∀ schema schema', declaredKeys [(js "type", schema),
        (js "properties", .obj (inferProperties members)),
        (js "required", schema'), (js "additionalProperties", .bool false)] = OMap.keys members := fun _ _ =>
      keys_inferProperties members
    have hobject : accepts (inferSchemaFromLiteral (.obj members)) value = (decide (js "object" = typeName value) &&
        (acceptsEntries (inferProperties members) (membersOf value) &&
          (hasRequired (.arr (members.map fun entry => .str entry.1)) value &&
            (membersOf value).all fun entry => entry.1 ∈ OMap.keys members))) := by
      simp [inferSchemaFromLiteral, accepts, acceptsKeywords, acceptsKeyword, hkeys, hdeclared, acceptsProperties]
    rw [hobject]
    cases value with
    | obj members' =>
      rw [fits, ← ih members']
      simp [typeName, membersOf, hasRequired, Bool.and_assoc, Function.comp_def, any_key]
    | _ => rfl
  · intro value
    simp [inferProperties, acceptsEntries, fitsMembers]
  · intro key literal rest ih ihrest value
    rw [inferProperties, acceptsEntries, fitsMembers, ← ihrest, List.all_cons, ← funext ih]
    cases hget : value.get key <;> simp [hget, OMap.has, Bool.and_assoc]

/-- The schema of a literal accepts the values of its shape: a literal, where every array in it has only elements of
the shape of its first one. -/
theorem accepts_inferSchemaFromLiteral (literal value : Json) :
    accepts (inferSchemaFromLiteral literal) value = true ↔ fits literal value = true := by
  rw [accepts_fits.1]

/-- An array whose elements are of two kinds. -/
theorem not_accepts_literal : ¬ ∀ literal, accepts (inferSchemaFromLiteral literal) literal = true := by
  intro h
  have hmixed := h (.arr [.bool true, .null])
  rw [accepts_fits.1] at hmixed
  exact absurd hmixed (by decide)

end Wrenyard.TaskGraph
