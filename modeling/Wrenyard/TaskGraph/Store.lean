import Wrenyard.TaskGraph.Model

/-!
# The store of a task graph run

The rows the database keeps for one run: the run, its graph, the state of each node, the patches and the journal.
Each function below is one statement or one transaction of the store, so that a crash falls between two of them.
-/

namespace Wrenyard.TaskGraph

open Js

inductive FailureCauseKind where
  | nodeFailed
  | recoveryFailed
deriving DecidableEq

/-- The evidence of why a run was cancelled. -/
structure FailureCause where
  kind : FailureCauseKind
  nodeId : NodeId
  taskRunId : Option TaskRunId
  error : ExecutionError
  eventId : Option JsString
deriving DecidableEq

structure Run where
  state : GraphState
  cancelRequested : Bool
  onNodeFailure : OnNodeFailurePolicy
  failureCause : Option FailureCause
  endedAt : Option Time

structure NodeState where
  state : NodeRunState
  error : Option ExecutionError
  output : Option JsonObject
  taskRunId : Option TaskRunId
  updatedAt : Time

inductive EventType where
  | created
  | signalReceived
  | signalIgnored
  | started
  | paused
  | resumed
  | done
  | cancelled
  | patchApplied
  | checkpointEntered
  | checkpointResumed
  | nodeStarted
  | nodeCompleted
  | nodeFailed
  | nodeInterrupted
  | nodeCancelled
deriving DecidableEq

/-- What a journal row refers to. -/
structure EventRefs where
  nodeId : Option NodeId
  taskRunId : Option TaskRunId
  patchId : Option JsString

structure JournalRow where
  eventId : JsString
  type : EventType
  refs : EventRefs

inductive PatchStatus where
  | pending
  | applied
  | rejected
deriving DecidableEq

structure StoredPatch where
  id : JsString
  baseRevision : Nat
  status : PatchStatus
  patch : Patch
  postGraph : Graph

structure Store where
  run : Run
  graph : Graph
  nodeStates : OMap NodeId NodeState
  patches : List StoredPatch
  journal : List JournalRow

namespace Store

def stateOf (s : Store) (nodeId : NodeId) : Option NodeRunState := (s.nodeStates.get nodeId).map NodeState.state

def projected (s : Store) : List (NodeId × NodeState) :=
  (ownKeys (orderBinary s.nodeStates.keys)).filterMap fun nodeId =>
    (s.nodeStates.get nodeId).map fun row => (nodeId, row)

def someNode (s : Store) (p : NodeState → Bool) : Bool := s.projected.any fun entry => p entry.2

def readPatch (s : Store) (patchId : JsString) : Option StoredPatch := s.patches.find? fun p => p.id = patchId

/-- `createProjection`: every node planned. -/
def createProjection (graph : Graph) (onNodeFailure : OnNodeFailurePolicy) (at_ : Time) : Store where
  run := ⟨.created, false, onNodeFailure, none, none⟩
  graph := graph
  nodeStates := graph.nodes.map fun entry => (entry.1, ⟨.planned, none, none, none, at_⟩)
  patches := []
  journal := []

def updateRun (s : Store) (f : Run → Run) : Store := { s with run := f s.run }

def putNodeState (s : Store) (nodeId : NodeId) (row : NodeState) : Store :=
  { s with nodeStates := s.nodeStates.set nodeId row }

def deleteNodeState (s : Store) (nodeId : NodeId) : Store := { s with nodeStates := s.nodeStates.delete nodeId }

def replaceGraph (s : Store) (graph : Graph) : Store := { s with graph := graph }

def appendJournal (s : Store) (row : JournalRow) : Store := { s with journal := s.journal ++ [row] }

def storePendingPatch (s : Store) (patch : StoredPatch) : Store := { s with patches := s.patches ++ [patch] }

/-- `consumePatch`: only a pending patch is consumed. -/
def consumePatch (s : Store) (patchId : JsString) (status : PatchStatus) : Store :=
  { s with
    patches := s.patches.map fun p =>
      if p.id = patchId ∧ p.status = .pending then { p with status := status } else p }

def failedRow (error : ExecutionError) (taskRunId : Option TaskRunId) (at_ : Time) : NodeState :=
  ⟨.failed, some error, none, taskRunId, at_⟩

/-- `failNodeForCancellation`: the failed node, its journal row, the first cause and the intent, at once. -/
def failNodeForCancellation (s : Store) (nodeId : NodeId) (error : ExecutionError) (taskRunId : Option TaskRunId)
    (kind : FailureCauseKind) (eventId : JsString) (at_ : Time) : Store :=
  let failed := (s.putNodeState nodeId (failedRow error taskRunId at_)).appendJournal
    ⟨eventId, .nodeFailed, ⟨some nodeId, taskRunId, none⟩⟩
  let firstCause : FailureCause := ⟨kind, nodeId, taskRunId, error, some eventId⟩
  failed.updateRun fun run =>
    { run with cancelRequested := true, failureCause := run.failureCause <|> some firstCause }

def failedNodes (s : Store) : List (NodeId × NodeState) := s.projected.filter fun entry => entry.2.state = .failed

def firstFailedRow (s : Store) : Option JournalRow :=
  s.journal.find? fun row =>
    decide (row.type = .nodeFailed) && row.refs.nodeId.any fun nodeId => s.failedNodes.any fun entry =>
      entry.1 = nodeId

def earliestFailure (s : Store) : Option (NodeId × NodeState) :=
  ((s.firstFailedRow.bind fun row => row.refs.nodeId).bind fun nodeId =>
      s.failedNodes.find? fun entry => entry.1 = nodeId) <|>
    (s.failedNodes.insertionSort fun a b => a.2.updatedAt ≤ b.2.updatedAt).head?

def repairedCause (s : Store) (failure : NodeId × NodeState) : FailureCause where
  kind := .nodeFailed
  nodeId := failure.1
  taskRunId := failure.2.taskRunId
  error := failure.2.error.getD
    ⟨js "TASK_RUN_FAILED", js "taskgraph node '" ++ failure.1 ++ js "' failed without persisted evidence", none⟩
  eventId := s.firstFailedRow.map JournalRow.eventId

/-- `repairCancelPolicyFailure`: the intent and the cause a failed node of a cancel-policy run lacks.
`none` where nothing is written. -/
def repairCancelPolicyFailure (s : Store) : Option Store :=
  if s.run.onNodeFailure ≠ .cancel then none
  else if s.run.cancelRequested && s.run.failureCause.isSome then none
  else
    s.earliestFailure.map fun failure =>
      s.updateRun fun run =>
        { run with cancelRequested := true, failureCause := run.failureCause <|> some (s.repairedCause failure) }

def applyOperation (at_ : Time) (s : Store) : PatchOperation → Store
  | .addNode node => s.putNodeState node.id ⟨.planned, none, none, none, at_⟩
  | .removeNode id => s.deleteNodeState id
  | .replaceNode node => s.putNodeState node.id ⟨.planned, none, none, none, at_⟩

def applyPatch (s : Store) (stored : StoredPatch) (graph : Graph) (eventId : JsString) (at_ : Time) : Store :=
  ((stored.patch.ops.foldl (applyOperation at_) (s.replaceGraph graph)).consumePatch stored.id .applied).appendJournal
    ⟨eventId, .patchApplied, ⟨none, none, some stored.id⟩⟩

end Store

end Wrenyard.TaskGraph
