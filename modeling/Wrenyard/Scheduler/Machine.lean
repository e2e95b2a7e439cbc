import Wrenyard.Lib.Transition
import Wrenyard.Scheduler.Service

/-!
# Runs of a scheduler

The scheduler of one workspace beside its state file.  Every step is the code between two awaits: a call, the settling
of a wake, of a read or of a write, and a restart, which keeps the file only.
-/

namespace Wrenyard.Scheduler

open Js

structure World where
  disk : Option JsString
  state : State

inductive Op where
  | prepare
  /-- The `i`-th load reads the file. -/
  | read (i : Nat) (fails : Bool)
  /-- The `i`-th load goes on. -/
  | load (i : Nat)
  | tick
  | settle (error : Option JsString)
  | sync (botId : JsString) (files : Option (List RoutineDefinition))
  | create (id : JsString) (input : State.CreateParams)
  | update (id : JsString) (patch : State.UpdateParams)
  | run (id : JsString)
  | remove (id : JsString)
  | todoChanged (changes : List TodoChange)
  | settleTodo (i : Nat)
  | list (botId : Option JsString)
  | lastRunAt (botId : JsString)
  | stop
  /-- The first pending write ends; it succeeds or fails. -/
  | written (ok : Bool)
  | restart

namespace World

variable (p : Platform) (workspaceRoot : JsString) (w : World)

def returned (result : State × List Effect) : World × List Effect := ({ w with state := result.1 }, result.2)

def answered (result : Except JsString (State × List Effect)) : World × List Effect :=
  match result with
  | .ok result => w.returned result
  | .error _ => (w, [])

def perform (env : Env) : Op → Option (World × List Effect)
  | .prepare =>
    some (w.returned (if w.state.stopped || w.state.prepared then (w.state, [])
      else ({ w.state with loads := w.state.loads ++ [none] }, [])))
  | .read i fails =>
    match w.state.loads[i]? with
    | some none =>
      let outcome := if fails then .failed else match w.disk with
        | some raw => .text raw
        | none => .missing
      some (w.returned ({ w.state with loads := w.state.loads.set i (some outcome) }, []))
    | _ => none
  | .load i =>
    match w.state.loads[i]? with
    | some (some outcome) =>
      some (w.returned ({ w.state with loads := w.state.loads.eraseIdx i }.finishLoad p workspaceRoot env outcome))
    | _ => none
  | .tick => some (w.returned (w.state.tick p workspaceRoot env 0))
  | .settle error => (w.state.settleWake p env error).map w.returned
  | .sync botId files => some (w.returned (w.state.sync p workspaceRoot env botId files))
  | .create id input =>
    -- eight hexadecimal digits that no stored routine has
    if routineIdPattern id ∧ w.state.find id = none then
      some (w.answered (w.state.create p workspaceRoot env id input))
    else none
  | .update id patch => some (w.answered (w.state.update p workspaceRoot env id patch))
  | .run id => some (w.answered (w.state.run p workspaceRoot env id))
  | .remove id => some (w.answered (w.state.remove workspaceRoot id))
  | .todoChanged changes => some (w.returned (w.state.todoChanged workspaceRoot env changes))
  | .settleTodo i => (w.state.settleTodo env i).map w.returned
  | .list _ | .lastRunAt _ => some (w, [])
  | .stop => some (w.returned ({ w.state with stopped := true }, []))
  | .written ok =>
    match w.state.writes with
    | [] => none
    | text :: rest => some (⟨if ok then some text else w.disk, { w.state with writes := rest }⟩, [])
  | .restart => some (⟨w.disk, State.initial⟩, [])

def reported (op : Op) (effects : List Effect) : List JsString :=
  effects.flatMap (fun
    | .wake _ record _ => [record.id]
    | _ => []) ++
  match op with
  | .create id input =>
    match State.validated id input with
    | .ok _ => (w.state.counted input.botId).map fun r => (w.state.objects r).id
    | .error _ => []
  | .list botId => (w.state.list p workspaceRoot botId).map (·.id)
  | .lastRunAt botId => OMap.keys (w.state.lastRunAt botId)
  | _ => []

end World

/-- One step: an operation with what it sees of its surroundings. -/
def World.step (p : Platform) (workspaceRoot : JsString) (w : World) (a : Op × Env) : Option (World × List Effect) :=
  w.perform p workspaceRoot a.2 a.1

abbrev Step (p : Platform) (workspaceRoot : JsString) : World → (Op × Env) × List Effect → World → Prop :=
  Transition.StepOf (World.step p workspaceRoot)

end Wrenyard.Scheduler
