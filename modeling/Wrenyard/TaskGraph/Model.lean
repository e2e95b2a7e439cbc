import Wrenyard.Js.Json
import Wrenyard.Js.KeyOrder
import Wrenyard.Lib.Digraph

/-!
# Task graphs

A task graph is a map of nodes; a node has an action, the nodes it depends on and the slots its input is read from.
The node states of a run and its cause of failure are modelled in `Wrenyard.TaskGraph.Store`.

An instant is a number: the time stamps of the store are written in one format, in which the order of the texts is the
order of the instants.
-/

namespace Wrenyard.TaskGraph

open Js

abbrev NodeId := JsString

/-- An instant of the runner's clock. -/
abbrev Time := Nat

abbrev JsonObject := OMap JsString Json

structure TaskRunId where
  text : JsString
  nonempty : text ≠ []
deriving DecidableEq

inductive ActionType where
  | start
  | end_
  | condition
  | convert
  | join
  | checkpoint
  | task
  | shell
deriving DecidableEq

/-- The action's name in messages. -/
def ActionType.text : ActionType → JsString
  | start => js "start"
  | end_ => js "end"
  | condition => js "condition"
  | convert => js "convert"
  | join => js "join"
  | checkpoint => js "checkpoint"
  | task => js "task"
  | shell => js "shell"

structure Action where
  type : ActionType
  params : JsonObject
deriving DecidableEq

structure NodeInput where
  name : JsString
  source : JsString
  optional : Bool
deriving DecidableEq

structure Node where
  id : NodeId
  action : Action
  deps : List NodeId
  input : List NodeInput
  inputSchema : JsonObject
  outputSchema : JsonObject
deriving DecidableEq

structure Graph where
  revision : Nat
  nodes : OMap NodeId Node
deriving DecidableEq

namespace Graph

def deps (g : Graph) (nodeId : NodeId) : List NodeId := ((g.nodes.get nodeId).map Node.deps).getD []

/-- The identifiers of the end nodes, in `sort()` order. -/
def endIds (g : Graph) : List NodeId :=
  sortStrings ((g.nodes.filter fun entry => entry.2.action.type = .end_).map fun entry => entry.2.id)

/-- `schedulingOrder`: dependencies before their consumers, from the end nodes first. -/
def schedulingOrder (g : Graph) : List NodeId :=
  Digraph.visitAll g.deps g.nodes.has (g.nodes.keys.length + 1) (g.endIds ++ sortStrings g.nodes.keys)

theorem mem_schedulingOrder {g : Graph} {nodeId : NodeId} (h : nodeId ∈ g.nodes.keys) :
    nodeId ∈ g.schedulingOrder := by
  refine Digraph.mem_visitAll (fun _ => OMap.has_eq_true_iff.mp) ?_ (OMap.has_eq_true_iff.mpr h)
  exact List.mem_append_right _ (mem_sortStrings.mpr h)

end Graph

inductive PatchOperation where
  | addNode (node : Node)
  | removeNode (id : NodeId)
  | replaceNode (node : Node)
deriving DecidableEq

namespace PatchOperation

def target : PatchOperation → NodeId
  | addNode node => node.id
  | removeNode id => id
  | replaceNode node => node.id

def creates : PatchOperation → Bool
  | addNode _ => true
  | removeNode _ => false
  | replaceNode _ => true

end PatchOperation

structure Patch where
  baseRevision : Nat
  ops : List PatchOperation
deriving DecidableEq

inductive GraphState where
  | created
  | running
  | paused
  | done
  | cancelled
deriving DecidableEq

/-- Whether a run has ended. -/
def GraphState.finished : GraphState → Bool
  | done => true
  | cancelled => true
  | _ => false

inductive NodeRunState where
  | planned
  | running
  | waiting
  | done
  | failed
  | interrupted
  | cancelled
deriving DecidableEq

/-- The state's name in messages. -/
def NodeRunState.text : NodeRunState → JsString
  | planned => js "planned"
  | running => js "running"
  | waiting => js "waiting"
  | done => js "done"
  | failed => js "failed"
  | interrupted => js "interrupted"
  | cancelled => js "cancelled"

inductive OnNodeFailurePolicy where
  | pause
  | cancel
deriving DecidableEq

structure ExecutionError where
  code : JsString
  message : JsString
  details : Option JsonObject
deriving DecidableEq

end Wrenyard.TaskGraph
