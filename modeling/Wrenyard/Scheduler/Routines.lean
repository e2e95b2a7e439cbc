import Wrenyard.Js.JsonRoundTrip
import Wrenyard.Todos.Markdown

/-!
# Routines and their store

A routine belongs to a bot: when it becomes due it wakes its owning bot agent.  The store is one JSON file for all
workspaces, with the workspace of each routine beside the records.  `statePayload` writes it and `readState` reads it
back; a record with an interval and without an event comes back as it was (`readRecord_encode`).
-/

namespace Wrenyard.Scheduler

open Js

inductive RoutineState where
  | active
  | paused
deriving DecidableEq

def RoutineState.text : RoutineState → JsString
  | active => js "active"
  | paused => js "paused"

structure RoutineRecord where
  id : JsString
  botId : JsString
  name : Option JsString
  prompt : JsString
  intervalMinutes : Option JsNumber
  on : Option JsString
  match_ : Option (List JsString)
  state : RoutineState
  createdAt : JsString
  nextRunAt : Option JsString
  lastRunAt : Option JsString
  lastError : Option JsString
  runCount : JsNumber
deriving DecidableEq

structure RoutineDefinition where
  id : JsString
  name : Option JsString
  intervalMinutes : Option JsNumber
  on : Option JsString
  match_ : Option (List JsString)
  state : RoutineState
  prompt : JsString

def MIN_INTERVAL_MINUTES : Nat := 1

def MAX_INTERVAL_MINUTES : Nat := 10080

def MAX_PROMPT_LENGTH : Nat := 4000

def MAX_NAME_LENGTH : Nat := 64

/-- `ROUTINE_ID_PATTERN`. -/
def routineIdPattern (id : JsString) : Bool := id.length == 8 && id.all Todos.isHex

/-- `Number.isInteger(n) && n >= MIN_INTERVAL_MINUTES && n <= MAX_INTERVAL_MINUTES`. -/
def validInterval (n : JsNumber) : Bool :=
  n.fraction == [] && !n.negative && decide (MIN_INTERVAL_MINUTES ≤ n.whole) &&
    decide (n.whole ≤ MAX_INTERVAL_MINUTES)

/-- `/^[+-]([^\s\p{Cc}*]+)(\*)?$/u`. -/
def tagRule : JsString → Bool
  | [] => false
  | u :: rest =>
    let body := if rest.getLast? = some 42 then rest.dropLast else rest
    (u == 43 || u == 45) && body != [] && body.all fun v => !(isSpace v || Todos.isControl v || v == 42)

def validateMatch (value : JsString) : Except JsString JsString :=
  if value = js "comment" then .ok value
  else if startsWith value (js "status:") && Todos.TODO_STATUSES.any (·.text = value.drop 7) then .ok value
  else if tagRule value then .ok value
  else .error (js "invalid routine match: " ++ value)

def intervalError : JsString := js "intervalMinutes must be an integer between 1 and 10080"

def validateTrigger (definition : RoutineDefinition) : Except JsString (Option (List JsString)) :=
  match definition.on with
  | none =>
    if definition.match_.isSome ∨ definition.intervalMinutes.any validInterval = false then .error intervalError
    else .ok none
  | some on =>
    if on ≠ js "todo" then .error (js "only on: todo is supported")
    else if definition.intervalMinutes.isSome then
      .error (js "on/match and intervalMinutes are mutually exclusive")
    else
      match definition.match_ with
      | some (rule :: rules) => some <$> (rule :: rules).mapM validateMatch
      | _ => .error (js "event routines require a non-empty match array")

def validateRoutine (definition : RoutineDefinition) : Except JsString RoutineDefinition := do
  if ¬routineIdPattern definition.id then .error (js "routine id must be 8 lowercase hex characters")
  else if trim definition.prompt = [] then .error (js "routine prompt must not be empty")
  else if (trim definition.prompt).length > MAX_PROMPT_LENGTH then
    .error (js "routine prompt must be at most 4000 characters")
  else
    let rules ← validateTrigger definition
    let name := definition.name.map trim
    if name.any (fun n => decide (n = [] ∨ n.length > MAX_NAME_LENGTH ∨ lf ∈ n)) then
      .error (js "routine name must be one line of at most 64 characters")
    else .ok { definition with name, match_ := rules, prompt := trim definition.prompt }

/-- An event matches a rule, or the tag before the `*` of one. -/
def ruleMatches (rule event : JsString) : Bool :=
  rule == event ||
    (startsWith rule [43] || startsWith rule [45]) && rule.getLast? == some 42 &&
      decide (2 < rule.length) && !rule.dropLast.contains 42 && startsWith event rule.dropLast

/-- `n + 1`. -/
def increment (n : JsNumber) : JsNumber :=
  if n.negative then
    if n.whole = 0 then
      -- one minus the digits after the point
      JsNumber.ofParts false 0
        (n.fraction.dropLast.map (fun d => Fin.ofNat 10 (9 - d.val)) ++
          (n.fraction.getLast?.map fun d => Fin.ofNat 10 (10 - d.val)).toList)
    else JsNumber.ofParts true (n.whole - 1) n.fraction
  else JsNumber.ofParts false (n.whole + 1) n.fraction

/-- `n * 60_000`, rounded down to whole milliseconds. -/
def minutesMs (n : JsNumber) : Int :=
  let digits := n.fraction.foldl (fun acc d => 10 * acc + d.val) n.whole
  let sign : Int := if n.negative then -1 else 1
  (sign * digits * 60000).fdiv (10 ^ n.fraction.length)

/-- The members of a persisted record: `on` and `match` are deleted. -/
def encodeRecord (record : RoutineRecord) : Json :=
  .obj (OMap.ofFields [
    (js "id", some (.str record.id)),
    (js "botId", some (.str record.botId)),
    (js "name", record.name.map .str),
    (js "prompt", some (.str record.prompt)),
    (js "intervalMinutes", record.intervalMinutes.map .num),
    (js "state", some (.str record.state.text)),
    (js "createdAt", some (.str record.createdAt)),
    (js "nextRunAt", record.nextRunAt.map .str),
    (js "lastRunAt", record.lastRunAt.map .str),
    (js "lastError", record.lastError.map .str),
    (js "runCount", some (.num record.runCount))])

/-- `workspaces[id] = root`: the setter of `__proto__` ignores a string. -/
def setWorkspace (workspaces : OMap JsString Json) (entry : JsString × JsString) : OMap JsString Json :=
  if entry.1 = js "__proto__" then workspaces else OMap.set workspaces entry.1 (.str entry.2)

def knownWorkspaces (persisted : List RoutineRecord) (associations : OMap JsString JsString) : OMap JsString Json :=
  (associations.filter fun entry => decide (entry.1 ∈ persisted.map (·.id))).foldl setWorkspace []

/-- The text of the state file: event routines live in their files only. -/
def statePayload (records : List RoutineRecord) (associations : OMap JsString JsString) : JsString :=
  let persisted := records.filter (·.intervalMinutes.isSome)
  Json.stringify (.obj [
    (js "version", .num (JsNumber.ofNat 1)),
    (js "routines", .arr (persisted.map encodeRecord)),
    (js "workspaces", .obj (knownWorkspaces persisted associations))])

def stringMember (members : OMap JsString Json) (key : JsString) : Option JsString :=
  match members.get key with
  | some (.str text) => some text
  | _ => none

/-- A member that may be missing, and is of the given kind where it is there. -/
def optional {α : Type} (read : Json → Option α) (value : Option Json) : Option (Option α) :=
  match value with
  | none => some none
  | some v => (read v).map some

def readString : Json → Option JsString
  | .str text => some text
  | _ => none

def readNumber : Json → Option JsNumber
  | .num n => some n
  | _ => none

def readStrings : Json → Option (List JsString)
  | .arr items => items.mapM readString
  | _ => none

/-- `state` of a record: a routine an older store ended comes back paused. -/
def stateMember (value : Option Json) : Option RoutineState :=
  match value with
  | some (.str text) =>
    if text = js "active" then some .active
    else if text = js "paused" ∨ text = js "finished" ∨ text = js "failed" then some .paused
    else none
  | _ => none

def readMembers (members : OMap JsString Json) : Option RoutineRecord := do
  let id ← stringMember members (js "id")
  let botId ← stringMember members (js "botId")
  let prompt ← stringMember members (js "prompt")
  let intervalMinutes ← optional readNumber (OMap.get members (js "intervalMinutes"))
  let on ← optional (fun value => (readString value).filter (· = js "todo")) (OMap.get members (js "on"))
  let match_ ← optional readStrings (OMap.get members (js "match"))
  let createdAt ← stringMember members (js "createdAt")
  let runCount ← (OMap.get members (js "runCount")).bind readNumber
  let state ← stateMember (OMap.get members (js "state"))
  let name ← optional readString (OMap.get members (js "name"))
  some {
    id, botId, prompt, intervalMinutes, on, state, createdAt, name, runCount
    match_ := if on.isSome then match_ else none
    nextRunAt := stringMember members (js "nextRunAt")
    lastRunAt := stringMember members (js "lastRunAt")
    lastError := stringMember members (js "lastError") }

/-- A structurally valid persisted record, or nothing for anything malformed. -/
def readRecord : Json → Option RoutineRecord
  | .obj members => readMembers members
  | _ => none

def rootOf : Json → Option JsString
  | .str root => if root = [] then none else some root
  | _ => none

def storeWorkspace (map : OMap JsString JsString) (entry : JsString × Json) : OMap JsString JsString :=
  match rootOf entry.2 with
  | some root => OMap.set map entry.1 root
  | none => map

def readWorkspaces : Option Json → OMap JsString JsString
  | some (.obj members) => members.foldl storeWorkspace []
  | _ => []

def readState (raw : JsString) : Option (List RoutineRecord × OMap JsString JsString) :=
  match Json.parse raw with
  | some (.obj members) =>
    match OMap.get members (js "routines") with
    | some (.arr entries) => some (entries.filterMap readRecord, readWorkspaces (OMap.get members (js "workspaces")))
    | _ => none
  | _ => none

end Wrenyard.Scheduler
