import Wrenyard.Lib.Comparator
import Wrenyard.Scheduler.Routines

/-!
# The scheduler of one workspace

The scheduler keeps the routines in memory, persists every mutation through one serialized write chain, and a timer
wakes each due routine's owning bot agent.  A routine is an object that the list of routines, a tick and a notice of
changed todos share, so that objects have addresses here.  What runs between two awaits is one function of the state.
-/

namespace Wrenyard.Scheduler

open Js

/-- What the code takes from the platform: dates and the order of texts. -/
structure Platform where
  toISOString : Int → JsString
  /-- `Date.parse`, where the result is a number. -/
  dateParse : JsString → Option Int
  localeCompare : JsString → JsString → ℚ

/-- What the code between two awaits sees of its surroundings: the readings of the clock, one after the other, and the
two gates. -/
structure Env where
  time : Nat → Int
  canRun : Bool
  busy : RoutineRecord → Bool

structure PendingWake where
  now : Int
  /-- The due ids that are left. -/
  rest : List JsString
  id : JsString
  /-- The object that was woken; the tick looks it up again by its id. -/
  ref : Nat
  fireAt : Int
  changed : Bool

structure TodoChange where
  todoId : JsString
  event : JsString
  author : JsString

/-- A notice of changed todos that awaits a wake: the candidates that are left. -/
structure PendingTodo where
  changes : List TodoChange
  rest : List Nat

inductive ReadOutcome where
  | missing
  | failed
  | text (raw : JsString)

structure State where
  objects : Nat → RoutineRecord
  /-- No object has this address or a higher one. -/
  fresh : Nat
  routines : List Nat
  routineWorkspaces : OMap JsString JsString
  definitions : OMap JsString (Option (List RoutineDefinition))
  associationDirty : Bool
  stopped : Bool
  ticking : Bool
  prepared : Bool
  /-- The loads of the store that are in flight, with what they have read. -/
  loads : List (Option ReadOutcome)
  wake : Option PendingWake
  todos : List PendingTodo
  /-- The write chain. -/
  writes : List JsString

/-- What the scheduler does to its surroundings. -/
inductive Effect where
  | wake (ref : Nat) (record : RoutineRecord) (text : Option JsString)
  | saveFile (botId : JsString) (definition : RoutineDefinition)
  | removeFile (botId id : JsString)

namespace State

def emptyRecord : RoutineRecord :=
  ⟨[], [], none, [], none, none, none, .paused, [], none, none, none, JsNumber.ofNat 0⟩

/-- A scheduler before its store is loaded. -/
def initial : State :=
  ⟨fun _ => emptyRecord, 0, [], [], [], false, false, false, false, [], none, [], []⟩

variable (p : Platform) (workspaceRoot : JsString) (s : State)

def records : List RoutineRecord := s.routines.map s.objects

def modify (r : Nat) (f : RoutineRecord → RoutineRecord) : State :=
  { s with objects := Function.update s.objects r (f (s.objects r)) }

/-- A new object at the end of the list. -/
def push (record : RoutineRecord) : State :=
  { s with
    objects := Function.update s.objects s.fresh record
    fresh := s.fresh + 1
    routines := s.routines ++ [s.fresh] }

/-- `routines.find(candidate => candidate.id === id)`. -/
def find (id : JsString) : Option Nat := s.routines.find? fun r => (s.objects r).id = id

def recordWorkspace (id : JsString) : JsString := (s.routineWorkspaces.get id).getD workspaceRoot

def persist : State := { s with writes := s.writes ++ [statePayload s.records s.routineWorkspaces] }

def findRecord (id : JsString) : Except JsString Nat :=
  match s.find id with
  | some r =>
    if s.recordWorkspace workspaceRoot (s.objects r).id = workspaceRoot then .ok r
    else .error (js "unknown routine: " ++ id)
  | none => .error (js "unknown routine: " ++ id)

/-- The text of the time `minutes` after another. -/
def after (time : Int) (minutes : JsNumber) : JsString := p.toISOString (time + minutesMs minutes)

def dueAt (record : RoutineRecord) : Option Int := record.nextRunAt.bind p.dateParse

def dueIds (now : Int) : List JsString :=
  (s.routines.filter fun r =>
    decide (s.recordWorkspace workspaceRoot (s.objects r).id = workspaceRoot) &&
      (s.objects r).intervalMinutes.isSome && decide ((s.objects r).state = .active) &&
      (dueAt p (s.objects r)).any (· ≤ now)).map fun r => (s.objects r).id

/-- A record that is not woken after all: paused, or rescheduled. -/
def skipped (record : RoutineRecord) (now : Int) : Bool :=
  decide (record.state ≠ .active) || record.nextRunAt.isNone || (dueAt p record).any (· > now)

def endTick (changed : Bool) : State :=
  { (if changed then s.persist else s) with ticking := false, wake := none }

/-- The due ids one after the other, up to the next wake. -/
def tickLoop (env : Env) (now fireAt : Int) (changed : Bool) : List JsString → State → State × List Effect
  | [], s => (s.endTick changed, [])
  | id :: rest, s =>
    if s.stopped then (s.endTick changed, [])
    else match s.find id with
      | none => tickLoop env now fireAt changed rest s
      | some r =>
        if skipped p (s.objects r) now then tickLoop env now fireAt changed rest s
        else if env.busy (s.objects r) then tickLoop env now fireAt changed rest s
        else if ¬env.canRun then (s.endTick changed, [])
        else ({ s with wake := some ⟨now, rest, id, r, fireAt, changed⟩ }, [.wake r (s.objects r) none])

/-- One polling pass, up to its first wake; `i` readings of the clock came before it. -/
def tick (env : Env) (i : Nat) : State × List Effect :=
  if s.stopped || s.ticking || !env.canRun then (s, [])
  else tickLoop p env (env.time i) (env.time (i + 1)) false (s.dueIds p workspaceRoot (env.time i))
    { s with ticking := true }

def settled (fireAt : Int) (error : Option JsString) (record : RoutineRecord) : RoutineRecord :=
  let nextRunAt := match record.intervalMinutes with
    | some minutes => some (after p fireAt minutes)
    | none => record.nextRunAt
  match error with
  | some message => { record with lastError := some message, nextRunAt }
  | none =>
    { record with
      runCount := increment record.runCount
      lastRunAt := some (p.toISOString fireAt)
      lastError := none
      nextRunAt }

def settleWake (env : Env) (error : Option JsString) : Option (State × List Effect) :=
  s.wake.map fun w =>
    -- a stop during the awaited wake aborts the tick without persisting anything
    if s.stopped then ({ s with ticking := false, wake := none }, [])
    else match s.find w.id with
      | none => tickLoop p env w.now (env.time 0) w.changed w.rest { s with wake := none }
      | some r =>
        tickLoop p env w.now (env.time 0) true w.rest { s.modify r (settled p w.fireAt error) with wake := none }

def savedFile (record : RoutineRecord) : Effect :=
  .saveFile record.botId
    ⟨record.id, record.name, record.intervalMinutes, record.on, if record.on.isSome then record.match_ else none,
      record.state, record.prompt⟩

def createdFrom (now : Int) (botId : JsString) (file : RoutineDefinition) : RoutineRecord where
  id := file.id
  botId := botId
  name := file.name
  prompt := file.prompt
  intervalMinutes := file.intervalMinutes
  on := file.on
  match_ := if file.on.isSome then file.match_ else none
  state := file.state
  createdAt := p.toISOString now
  nextRunAt := if file.state = .active then file.intervalMinutes.map (after p now) else none
  lastRunAt := none
  lastError := none
  runCount := JsNumber.ofNat 0

def rescheduled (now : Int) (file : RoutineDefinition) (record : RoutineRecord) : Option JsString :=
  match file.intervalMinutes with
  | none => none
  | some minutes =>
    if record.intervalMinutes ≠ some minutes ∧ record.nextRunAt.isSome ∧
        (dueAt p record).any (fun due => (p.dateParse (after p now minutes)).any (due > ·)) then
      some (after p now minutes)
    else record.nextRunAt

def adopted (now : Int) (file : RoutineDefinition) (record : RoutineRecord) : RoutineRecord :=
  let next := file.intervalMinutes.map (after p now)
  let nextRunAt := rescheduled p now file record
  let base := { record with
    prompt := file.prompt
    intervalMinutes := file.intervalMinutes
    on := file.on
    match_ := if file.on.isSome then file.match_ else none
    name := file.name
    nextRunAt }
  if file.state = .paused then { base with state := .paused }
  else if record.state ≠ .active then
    { base with
      state := .active
      nextRunAt :=
        if next.isSome ∧ (nextRunAt.isNone ∨ (nextRunAt.bind p.dateParse).any (· ≤ now)) then next else nextRunAt }
  else if nextRunAt.isNone then { base with nextRunAt := next }
  else base

def adoptFile (now : Int) (botId : JsString) (acc : State × Bool) (file : RoutineDefinition) : State × Bool :=
  match acc.1.find file.id with
  | some r =>
    if (acc.1.objects r).botId ≠ botId then acc
    else (acc.1.modify r (adopted p now file), acc.2 ||
      decide (adopted p now file (acc.1.objects r) ≠ acc.1.objects r))
  | none =>
    ({ acc.1.push (createdFrom p now botId file) with
      routineWorkspaces := acc.1.routineWorkspaces.set file.id workspaceRoot }, true)

def owned (botId : JsString) : List Nat :=
  s.routines.filter fun r =>
    decide ((s.objects r).botId = botId) && decide (s.recordWorkspace workspaceRoot (s.objects r).id = workspaceRoot)

def unwanted (botId : JsString) (files : List RoutineDefinition) : List Nat :=
  (s.owned workspaceRoot botId).filter fun r => decide ((s.objects r).id ∉ files.map (·.id))

/-- Take records out of the store. -/
def drop (refs : List Nat) : State :=
  { s with
    routines := s.routines.filter (· ∉ refs)
    routineWorkspaces := (refs.map fun r => (s.objects r).id).foldl OMap.delete s.routineWorkspaces }

def applyDefinitions (now : Int) (botId : JsString) (files : Option (List RoutineDefinition)) : State × List Effect :=
  match files with
  | none => (s, (s.owned workspaceRoot botId).map fun r => savedFile (s.objects r))
  | some files =>
    let unwanted := s.unwanted workspaceRoot botId files
    let after := files.foldl (adoptFile p workspaceRoot now botId) (s.drop unwanted, decide (unwanted ≠ []))
    (if after.2 then after.1.persist else after.1, [])

def associate (associations : OMap JsString JsString) (record : RoutineRecord) : OMap JsString JsString :=
  associations.set record.id ((associations.get record.id).getD workspaceRoot)

def loadRecords (records : List RoutineRecord) (stored : OMap JsString JsString) : State :=
  { records.foldl push { s with routines := [] } with
    routineWorkspaces := records.foldl (associate workspaceRoot) stored
    associationDirty := s.associationDirty || records.any fun record => !(OMap.has stored record.id) }

def loadStore (outcome : ReadOutcome) : State :=
  match outcome with
  | .missing | .failed => { s with routines := [] }
  | .text raw =>
    match readState raw with
    | some (records, stored) => s.loadRecords workspaceRoot records stored
    | none => { s with routines := [] }

/-- The files of one bot that were read before the store was. -/
def replay (env : Env) (acc : State × List Effect) (entry : JsString × Option (List RoutineDefinition)) :
    State × List Effect :=
  let next := acc.1.applyDefinitions p workspaceRoot (env.time 0) entry.1 entry.2
  (next.1, acc.2 ++ next.2)

/-- All of them. -/
def replayed (env : Env) : State × List Effect := s.definitions.foldl (replay p workspaceRoot env) (s, [])

/-- The end of `prepareStore`: the loaded routines, the files that were read meanwhile and the association. -/
def finishLoad (env : Env) (outcome : ReadOutcome) : State × List Effect :=
  let after := replayed p workspaceRoot { s.loadStore workspaceRoot outcome with prepared := true } env
  if after.1.associationDirty then ({ after.1 with associationDirty := false }.persist, after.2) else after

/-! ### Operations -/

structure CreateParams where
  botId : JsString
  prompt : JsString
  intervalMinutes : Option JsNumber
  on : Option JsString
  match_ : Option (List JsString)
  name : Option JsString

structure UpdateParams where
  name : Option JsString
  intervalMinutes : Option JsNumber
  on : Option JsString
  match_ : Option (List JsString)
  state : Option RoutineState
  prompt : Option JsString

def MAX_PER_BOT : Nat := 50

def counted (botId : JsString) : List Nat := s.routines.filter fun r => decide ((s.objects r).botId = botId)

def validated (id : JsString) (input : CreateParams) : Except JsString RoutineDefinition :=
  if trim input.prompt = [] then .error (js "prompt must not be empty")
  else if (trim input.prompt).length > MAX_PROMPT_LENGTH then .error (js "prompt must be at most 4000 characters")
  else validateRoutine ⟨id, input.name, input.intervalMinutes, input.on, input.match_, .active, trim input.prompt⟩

def create (env : Env) (id : JsString) (input : CreateParams) : Except JsString (State × List Effect) := do
  let valid ← validated id input
  if MAX_PER_BOT ≤ (s.counted input.botId).length then .error (js "routine limit reached (50 per bot)")
  else
    let now := env.time 0
    let record : RoutineRecord := {
      id := valid.id
      botId := input.botId
      name := (input.name.map trim).filter (· ≠ [])
      prompt := trim input.prompt
      intervalMinutes := valid.intervalMinutes
      on := valid.on
      match_ := if valid.on.isSome then valid.match_ else none
      state := .active
      createdAt := p.toISOString now
      nextRunAt := valid.intervalMinutes.map (after p now)
      lastRunAt := none
      lastError := none
      runCount := JsNumber.ofNat 0 }
    let pushed := { s.push record with routineWorkspaces := s.routineWorkspaces.set record.id workspaceRoot }
    .ok (pushed.persist, [savedFile record])

def patched (patch : UpdateParams) (record : RoutineRecord) : RoutineDefinition where
  id := record.id
  name := (patch.name <|> record.name).filter (· ≠ [])
  intervalMinutes :=
    if patch.intervalMinutes.isSome then patch.intervalMinutes
    else if patch.on.isSome ∨ record.on.isSome then none
    else record.intervalMinutes
  on := if patch.intervalMinutes.isSome then none else patch.on <|> record.on
  match_ :=
    if patch.intervalMinutes.isSome then none
    else if patch.on.isSome then patch.match_ <|> (if patch.on = record.on then record.match_ else none)
    else if record.on.isSome then patch.match_ <|> record.match_
    else none
  state := patch.state.getD record.state
  prompt := patch.prompt.getD record.prompt

def updated (env : Env) (patch : UpdateParams) (definition : RoutineDefinition) (record : RoutineRecord) :
    RoutineRecord :=
  let nextRunAt := if definition.intervalMinutes.isSome then record.nextRunAt else none
  let base := { record with
    prompt := definition.prompt
    name := definition.name
    intervalMinutes := definition.intervalMinutes
    on := definition.on
    match_ := if definition.on.isSome then definition.match_ else none
    nextRunAt }
  if patch.state.getD record.state = .paused then { base with state := .paused }
  else
    { base with
      state := .active
      nextRunAt :=
        if nextRunAt.isNone ∨ (nextRunAt.bind p.dateParse).any (· ≤ env.time 0) then
          match definition.intervalMinutes with
          | some minutes => some (after p (env.time 1) minutes)
          | none => nextRunAt
        else nextRunAt }

def update (env : Env) (id : JsString) (patch : UpdateParams) : Except JsString (State × List Effect) := do
  let r ← s.findRecord workspaceRoot id
  let record := s.objects r
  if patch.intervalMinutes.isSome ∧ (patch.on.isSome ∨ patch.match_.isSome) then
    .error (js "on/match and intervalMinutes are mutually exclusive")
  else if patch.match_.isSome ∧ patch.on.isNone ∧ record.on.isNone then
    .error (js "match requires an event routine")
  else
    let definition ← validateRoutine (patched patch record)
    let changed := s.modify r (updated p env patch definition)
    .ok (changed.persist, [savedFile (changed.objects r)])

/-- The record that is due right away. -/
def requested (now : Int) (record : RoutineRecord) : RoutineRecord :=
  { record with state := .active, lastError := none, nextRunAt := some (p.toISOString now) }

def run (env : Env) (id : JsString) : Except JsString (State × List Effect) := do
  let r ← s.findRecord workspaceRoot id
  if (s.objects r).intervalMinutes.isNone then .error (js "event routines cannot be run by timer")
  else .ok (((s.modify r (requested p (env.time 0))).persist).tick p workspaceRoot env 1)

def remove (id : JsString) : Except JsString (State × List Effect) := do
  let r ← s.findRecord workspaceRoot id
  let removed := { s with
    routines := s.routines.filter fun r' => decide ((s.objects r').id ≠ (s.objects r).id)
    routineWorkspaces := s.routineWorkspaces.delete (s.objects r).id }
  .ok (removed.persist, [.removeFile (s.objects r).botId (s.objects r).id])

def sync (env : Env) (botId : JsString) (files : Option (List RoutineDefinition)) : State × List Effect :=
  let s := { s with definitions := s.definitions.set botId files }
  if s.prepared && !s.stopped then s.applyDefinitions p workspaceRoot (env.time 0) botId files else (s, [])

def selectChange (changes : List TodoChange) (record : RoutineRecord) (rules : List JsString) :
    Option (TodoChange × JsString) :=
  rules.findSome? fun rule =>
    (changes.find? fun change => decide (change.author ≠ record.botId) && ruleMatches rule change.event).map (·, rule)

def todoText (record : RoutineRecord) (selected : TodoChange × JsString) : JsString :=
  js "[wake:todo " ++ selected.1.todoId ++ js " " ++ selected.2 ++ js " by " ++ selected.1.author ++ js "] " ++
    record.prompt

def todoLoop (env : Env) (changes : List TodoChange) : List Nat → State × List Effect
  | [] => (s, [])
  | r :: rest =>
    match (s.objects r).match_ with
    | none => (s, [])
    | some rules =>
      match selectChange changes (s.objects r) rules with
      | some selected =>
        if s.stopped || !env.canRun then todoLoop env changes rest
        else ({ s with todos := s.todos ++ [⟨changes, rest⟩] },
          [.wake r (s.objects r) (some (todoText (s.objects r) selected))])
      | none => todoLoop env changes rest

def candidates : List Nat :=
  s.routines.filter fun r =>
    decide (s.recordWorkspace workspaceRoot (s.objects r).id = workspaceRoot) &&
      decide ((s.objects r).state = .active) && decide ((s.objects r).on = some (js "todo")) &&
      (s.objects r).match_.isSome

def todoChanged (env : Env) (changes : List TodoChange) : State × List Effect :=
  if s.stopped || !env.canRun then (s, []) else s.todoLoop env changes (s.candidates workspaceRoot)

/-- A wake of a notice settles, and the notice goes on; a failure is logged only. -/
def settleTodo (env : Env) (i : Nat) : Option (State × List Effect) :=
  s.todos[i]?.map fun pending => { s with todos := s.todos.eraseIdx i }.todoLoop env pending.changes pending.rest

def list (botId : Option JsString) : List RoutineRecord :=
  Comparator.sort (fun a b => p.localeCompare b.createdAt a.createdAt)
    ((s.routines.filter fun r =>
      decide (s.recordWorkspace workspaceRoot (s.objects r).id = workspaceRoot) &&
        botId.all fun b => decide ((s.objects r).botId = b)).map s.objects)

def addLastRun (botId : JsString) (runs : OMap JsString JsString) (record : RoutineRecord) : OMap JsString JsString :=
  if record.botId = botId then
    match record.lastRunAt with
    | some time => OMap.set runs record.id time
    | none => runs
  else runs

def lastRunAt (botId : JsString) : OMap JsString JsString := s.records.foldl (addLastRun botId) []

end State

theorem mem_of_find {s : State} {id : JsString} {r : Nat} (h : s.find id = some r) :
    r ∈ s.routines ∧ (s.objects r).id = id := by
  refine ⟨List.mem_of_find?_eq_some h, ?_⟩
  have hid := List.find?_some h
  simpa using hid

/-- `findRecord` gives a routine that a scheduler of the workspace may change. -/
theorem findRecord_ok {s : State} {workspaceRoot id : JsString} {r : Nat}
    (h : s.findRecord workspaceRoot id = .ok r) :
    r ∈ s.routines ∧ s.recordWorkspace workspaceRoot (s.objects r).id = workspaceRoot := by
  unfold State.findRecord at h
  split at h
  · rename_i r' hfind
    split at h <;> cases h
    rename_i hown
    exact ⟨(mem_of_find hfind).1, hown⟩
  · cases h

end Wrenyard.Scheduler
