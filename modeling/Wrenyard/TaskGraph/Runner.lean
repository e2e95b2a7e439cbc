import Wrenyard.TaskGraph.Store
import Wrenyard.TaskGraph.Validator
import Wrenyard.Lib.Logged
import Wrenyard.Lib.Transition

/-!
# The runner of a task graph

A runner handles one event of its queue at a time.  Its handlers read the store, write to it statement by statement
and call the task bridge; a handler is modelled as the list of these effects in order, each write with the store it
leaves, so that a crash cuts the list at any point.  What the runner only passes values to (reading inputs, checking
them against a schema, evaluating a condition, assembling an output, filling a template) is part of the environment of
an event, as are the clock, fresh identifiers and the outcomes of the bridge.

A new runner handles its recover event before any other.
-/

namespace Wrenyard.TaskGraph

open Js

/-- The functions on values that the runner calls.  `evaluateCondition` is `none` where it throws. -/
structure Values where
  resolveNodeInputs : Graph → Node → OMap NodeId NodeState → Except ExecutionError JsonObject
  validateJsonObject : JsonObject → JsonObject → JsString → Except ExecutionError Unit
  evaluateCondition : JsonObject → JsonObject → Option (NodeId × Option Nat)
  assembleNodeOutput : Option Json → JsonObject → Except ExecutionError JsonObject
  resolveActionTemplate : JsonObject → JsonObject → Except ExecutionError Json

/-- What one event meets: the task definitions, the project the graph is confined to, the clock and the fresh
identifiers by the number of effects before, the outcome of starting the task of a node and of reattaching to a task
run. -/
structure Env extends Values where
  contracts : Contracts
  allowedProject : Option JsString
  now : Nat → Time
  eventId : Nat → JsString
  patchId : JsString
  start : NodeId → Option TaskRunId
  reattach : TaskRunId → Except JsString Unit

structure TaskRequest where
  nodeId : NodeId
  name : JsString
  project : JsString
  worktree : Option JsString
  input : Json

/-- An effect of a handler.  A write carries the store it leaves; the writes that make a node running and that apply a
patch are told apart. -/
inductive Effect where
  | write (store : Store)
  | activate (nodeId : NodeId) (store : Store)
  | applyPatch (ops : List PatchOperation) (store : Store)
  | startTask (request : TaskRequest)
  | cancelTask (taskRunId : TaskRunId)

def Effect.after (store : Store) : Effect → Store
  | write store' => store'
  | activate _ store' => store'
  | applyPatch _ store' => store'
  | startTask _ => store
  | cancelTask _ => store

abbrev Exec := Logged.Exec Store Effect

namespace Exec

def push (e : Exec) (effect : Effect) : Exec := Logged.push Effect.after e effect

def write (e : Exec) (store : Store) : Exec := push e (.write store)

end Exec

section Handlers

variable (env : Env)

def clock (e : Exec) : Time := env.now e.log.length

def emit (e : Exec) (type : EventType) (refs : EventRefs) : Exec :=
  e.write (e.store.appendJournal ⟨env.eventId e.log.length, type, refs⟩)

def nodeRefs (nodeId : NodeId) (taskRunId : Option TaskRunId) : EventRefs := ⟨some nodeId, taskRunId, none⟩

def runRefs : EventRefs := ⟨none, none, none⟩

def finishDone (e : Exec) (endNodeId : NodeId) : Exec :=
  if e.store.run.state = .done then e
  else
    emit env (e.write (e.store.updateRun fun run =>
        { run with state := .done, cancelRequested := false, endedAt := some (clock env e) }))
      .done (nodeRefs endNodeId none)

def finishCancelled (e : Exec) : Exec :=
  if e.store.run.state = .cancelled then e
  else
    emit env (e.write (e.store.updateRun fun run =>
        { run with state := .cancelled, cancelRequested := false, endedAt := some (clock env e) }))
      .cancelled runRefs

def convergeCancellation (e : Exec) : Exec :=
  if e.store.run.cancelRequested = false then e
  else if e.store.someNode fun row => row.state = .running then e
  else finishCancelled env e

/-- One node of the projection in `beginCancellation`. -/
def cancelNode (at_ : Time) (snapshot : OMap NodeId NodeState) (e : Exec) (nodeId : NodeId) : Exec :=
  match snapshot.get nodeId with
  | none => e
  | some row =>
    if row.state = .planned ∨ row.state = .waiting then
      emit env (e.write (e.store.putNodeState nodeId ⟨.cancelled, none, none, none, at_⟩)) .nodeCancelled
        (nodeRefs nodeId none)
    else if row.state = .running then
      match row.taskRunId with
      | some taskRunId => e.push (.cancelTask taskRunId)
      | none =>
        emit env (e.write (e.store.putNodeState nodeId ⟨.interrupted, none, none, none, at_⟩)) .nodeInterrupted
          (nodeRefs nodeId none)
    else e

def beginCancellation (e : Exec) : Exec :=
  let at_ := clock env e
  let requested := e.write (e.store.updateRun fun run => { run with cancelRequested := true })
  let snapshot := requested.store.nodeStates
  convergeCancellation env ((sortStrings snapshot.keys).foldl (cancelNode env at_ snapshot) requested)

def failNode (e : Exec) (nodeId : NodeId) (error : ExecutionError) (taskRunId : Option TaskRunId)
    (kind : FailureCauseKind) : Exec :=
  if e.store.run.onNodeFailure = .cancel then
    beginCancellation env (e.write (e.store.failNodeForCancellation nodeId error taskRunId kind
      (env.eventId e.log.length) (clock env e)))
  else
    let failed := emit env (e.write (e.store.putNodeState nodeId (Store.failedRow error taskRunId (clock env e))))
      .nodeFailed (nodeRefs nodeId taskRunId)
    if e.store.run.state = .paused then failed
    else
      emit env (failed.write (failed.store.updateRun fun run => { run with state := .paused })) .paused
        (nodeRefs nodeId none)

inductive DependencyStatus where
  | satisfied
  | waiting
  | impossible
deriving DecidableEq

def dependencyOf (s : Store) (consumer : Node) (depId : NodeId) : DependencyStatus :=
  match s.graph.nodes.get depId, s.nodeStates.get depId with
  | some dep, some row =>
    if row.state = .done then
      if dep.action.type = .condition ∧
          (row.output.bind fun output => output.get (js "branch")) ≠ some (.str consumer.id) then .impossible
      else .satisfied
    else if row.state = .planned ∨ row.state = .running ∨ row.state = .waiting then .waiting
    else .impossible
  | _, _ => .impossible

def dependencyStatus (s : Store) (consumer : Node) : DependencyStatus :=
  let deps := consumer.deps.map (dependencyOf s consumer)
  if .impossible ∈ deps then .impossible
  else if .waiting ∈ deps then .waiting
  else .satisfied

def completeControlNode (node : Node) (output : JsonObject) (e : Exec) : Exec :=
  match env.validateJsonObject node.outputSchema output (js "OUTPUT_SCHEMA_MISMATCH") with
  | .error error => failNode env e node.id error none .nodeFailed
  | .ok _ =>
    emit env (e.write (e.store.putNodeState node.id ⟨.done, none, some output, none, clock env e⟩)) .nodeCompleted
      (nodeRefs node.id none)

def stringMember (params : JsonObject) (key : JsString) : Option JsString :=
  match params.get key with
  | some (.str text) => some text
  | _ => none

/-- The identifier a dispatch that failed is bound to. -/
def dispatchRun (nodeId : NodeId) : TaskRunId := ⟨js "dispatch:" ++ nodeId, by simp [js, unitsOf]⟩

def startTask (request : TaskRequest) (e : Exec) : Exec :=
  let called := e.push (.startTask request)
  match env.start request.nodeId with
  | some taskRunId =>
    called.write (called.store.putNodeState request.nodeId
      ⟨.running, none, none, some taskRunId, clock env called⟩)
  | none =>
    match called.store.nodeStates.get request.nodeId with
    | some row =>
      if row.state = .running ∧ row.taskRunId = none then
        called.write (called.store.putNodeState request.nodeId
          ⟨.running, none, none, some (dispatchRun request.nodeId), clock env called⟩)
      else called
    | none => called

/-- `none` where it throws. -/
def isProjectInScope (candidate root : JsString) : Option Bool :=
  if candidate = [] ∨ root = [] then none
  else some (decide (candidate = root) || startsWith candidate (root ++ js "/"))

/-- The project the graph is confined to; an empty one confines nothing. -/
def confinedTo : Option JsString := env.allowedProject.filter fun allowed => decide (allowed ≠ [])

def dispatchTask (node : Node) (inputs : JsonObject) (e : Exec) : Except Exec Exec :=
  match env.resolveActionTemplate node.action.params inputs with
  | .error error => .ok (failNode env e node.id error none .nodeFailed)
  | .ok (.obj params) =>
    match stringMember params (js "name"), stringMember params (js "project") with
    | some name, some project =>
      let request : TaskRequest := ⟨node.id, name, project, stringMember params (js "worktree"),
        (OMap.get params (js "input")).getD (.obj inputs)⟩
      match confinedTo env with
      | none => .ok (startTask env request e)
      | some allowed =>
        match isProjectInScope project allowed with
        | none => .error e
        | some true => .ok (startTask env request e)
        | some false =>
          .ok (failNode env e node.id ⟨js "PROJECT_OUT_OF_SCOPE",
            js "task project '" ++ project ++ js "' is outside graph allowed project '" ++ allowed ++ js "'", none⟩
            none .nodeFailed)
    | _, _ =>
      .ok (failNode env e node.id ⟨js "TASK_PARAMS_INVALID",
        js "task action params require string name and project fields", none⟩ none .nodeFailed)
  | .ok _ =>
    .ok (failNode env e node.id ⟨js "TASK_PARAMS_INVALID", js "task action params must resolve to an object", none⟩
      none .nodeFailed)

def performAction (node : Node) (inputs : JsonObject) (e : Exec) : Except Exec Exec :=
  match node.action.type with
  | .condition =>
    match env.evaluateCondition node.action.params inputs with
    | none => .error e
    | some evaluation => .ok (completeControlNode env node [(js "branch", .str evaluation.1)] e)
  | .convert | .join =>
    match env.assembleNodeOutput (node.action.params.get (js "assemble")) inputs with
    | .error error => .ok (failNode env e node.id error none .nodeFailed)
    | .ok output => .ok (completeControlNode env node output e)
  | .end_ => .ok (completeControlNode env node inputs e)
  | .task => dispatchTask env node inputs e
  | type =>
    .ok (failNode env e node.id ⟨js "ACTION_NOT_IMPLEMENTED",
      js "TaskGraph action \"" ++ type.text ++ js "\" is not implemented by the MVP runner", none⟩ none .nodeFailed)

def activateNode (node : Node) (e : Exec) : Except Exec Exec :=
  match env.resolveNodeInputs e.store.graph node e.store.nodeStates with
  | .error error => .ok (failNode env e node.id error none .nodeFailed)
  | .ok inputs =>
    match env.validateJsonObject node.inputSchema inputs (js "INPUT_SCHEMA_MISMATCH") with
    | .error error => .ok (failNode env e node.id error none .nodeFailed)
    | .ok _ =>
      if node.action.type = .checkpoint then
        .ok (emit env (e.write (e.store.putNodeState node.id ⟨.waiting, none, none, none, clock env e⟩))
          .checkpointEntered (nodeRefs node.id none))
      else
        let activated := e.push (.activate node.id
          (e.store.putNodeState node.id ⟨.running, none, none, none, clock env e⟩))
        performAction env node inputs (emit env activated .nodeStarted (nodeRefs node.id none))

def findCompletedEnd (s : Store) : Option NodeId :=
  s.graph.endIds.find? fun nodeId => decide (s.stateOf nodeId = some .done)

def schedulable (s : Store) : Bool := decide (s.run.state = .running) && !s.run.cancelRequested

/-- How a pass over the nodes ends: it left the tick, or it saw every node. -/
inductive Pass where
  | left (e : Exec)
  | completed (e : Exec) (changed : Bool)

def pass : List NodeId → Bool → Exec → Pass
  | [], changed, e => .completed e changed
  | nodeId :: rest, changed, e =>
    if schedulable e.store = false then .left e
    else
      match e.store.nodeStates.get nodeId, e.store.graph.nodes.get nodeId with
      | some row, some node =>
        if row.state ≠ .planned ∨ node.action.type = .start then pass rest changed e
        else
          match dependencyStatus e.store node with
          | .impossible =>
            pass rest true (emit env
              (e.write (e.store.putNodeState nodeId ⟨.cancelled, none, none, none, clock env e⟩)) .nodeCancelled
              (nodeRefs nodeId none))
          | .satisfied =>
            match activateNode env node e with
            | .ok e' => pass rest true e'
            | .error e' => .left e'
          | .waiting => pass rest changed e
      | _, _ => pass rest changed e

/-- The loop of `tick`; `none` when the fuel runs out. -/
def tickLoop : Nat → Exec → Option Exec
  | 0, _ => none
  | fuel + 1, e =>
    if schedulable e.store = false then some e
    else
      match findCompletedEnd e.store with
      | some endNodeId => some (finishDone env e endNodeId)
      | none =>
        match pass env e.store.graph.schedulingOrder false e with
        | .left e' => some e'
        | .completed e' changed =>
          if schedulable e'.store = false then some e'
          else
            match findCompletedEnd e'.store with
            | some endNodeId => some (finishDone env e' endNodeId)
            | none =>
              if changed then tickLoop fuel e'
              else if (e'.store.someNode fun row => row.state = .running || row.state = .waiting) = false ∧
                  (e'.store.someNode fun row => row.state = .planned) = false then
                some (finishCancelled env e')
              else some e'

/-- The number of nodes still planned. -/
def plannedCount (s : Store) : Nat := (s.nodeStates.filter fun entry => entry.2.state = .planned).length

def tick (e : Exec) : Option Exec := tickLoop env (plannedCount e.store + 1) e

/-- One node of the projection in `handleRecover`, with whether a failure was recovered. -/
def recoverNode (acc : Exec × Bool) (entry : NodeId × NodeState) : Exec × Bool :=
  if entry.2.state ≠ .running then acc
  else
    match entry.2.taskRunId with
    | none =>
      (failNode env acc.1 entry.1 ⟨js "TASK_RUN_UNBOUND",
        js "node '" ++ entry.1 ++ js "' was running at restart with no task run binding", none⟩ none
        .recoveryFailed, true)
    | some taskRunId =>
      match env.reattach taskRunId with
      | .ok _ => acc
      | .error message =>
        (failNode env acc.1 entry.1 ⟨js "TASK_RUN_REATTACH_FAILED",
          js "cannot reattach task run '" ++ taskRunId.text ++ js "': " ++ message, none⟩ (some taskRunId)
          .recoveryFailed, true)

def repair (s : Store) : Exec :=
  match s.repairCancelPolicyFailure with
  | some s' => Exec.write ⟨s, []⟩ s'
  | none => ⟨s, []⟩

def handleRecover (s : Store) : Option Exec :=
  let acc := s.projected.foldl (recoverNode env) (repair s, false)
  if acc.2 then some acc.1
  else if acc.1.store.run.cancelRequested then some (beginCancellation env acc.1)
  else if acc.1.store.run.state = .running then tick env acc.1
  else some acc.1

inductive Signal where
  | startGraph (input : JsonObject)
  | pauseGraph
  | resumeGraph
  | cancelGraph
  | resumeCheckpoint (nodeId : NodeId) (output : JsonObject)
deriving DecidableEq

inductive IgnoredReason where
  | graphAlreadyStarted
  | startInputSchemaMismatch
  | graphAlreadyCancelled
  | graphNotPaused
  | checkpointNotWaiting
  | checkpointOutputSchemaMismatch

inductive SignalDecision where
  | start (input : JsonObject) (startNodeId : NodeId)
  | pause
  | resume
  | cancel
  | resumeCheckpoint (nodeId : NodeId) (output : JsonObject)
  | ignore (reason : IgnoredReason)

def startNode (g : Graph) : Option (NodeId × Node) := g.nodes.find? fun entry => entry.2.action.type = .start

def conforms (schema value : JsonObject) (code : JsString) : Bool :=
  match env.validateJsonObject schema value code with
  | .ok _ => true
  | .error _ => false

def decideTaskGraphSignal (s : Store) : Signal → SignalDecision
  | .startGraph input =>
    if s.run.state ≠ .created then .ignore .graphAlreadyStarted
    else
      match startNode s.graph with
      | none => .ignore .startInputSchemaMismatch
      | some entry =>
        if conforms env entry.2.outputSchema input (js "START_INPUT_SCHEMA_MISMATCH") then .start input entry.2.id
        else .ignore .startInputSchemaMismatch
  | .pauseGraph =>
    if s.run.state = .running then .pause
    else .ignore (if s.run.state = .cancelled then .graphAlreadyCancelled else .graphNotPaused)
  | .resumeGraph =>
    if s.run.state = .paused then .resume
    else .ignore (if s.run.state = .cancelled then .graphAlreadyCancelled else .graphNotPaused)
  | .cancelGraph => if s.run.state.finished then .ignore .graphAlreadyCancelled else .cancel
  | .resumeCheckpoint nodeId output =>
    match s.graph.nodes.get nodeId with
    | none => .ignore .checkpointNotWaiting
    | some node =>
      if node.action.type ≠ .checkpoint ∨ s.stateOf nodeId ≠ some .waiting then .ignore .checkpointNotWaiting
      else if conforms env node.outputSchema output (js "CHECKPOINT_OUTPUT_SCHEMA_MISMATCH") then
        .resumeCheckpoint nodeId output
      else .ignore .checkpointOutputSchemaMismatch

def handleSignal (signal : Signal) (s : Store) : Option Exec :=
  let received := emit env ⟨s, []⟩ .signalReceived runRefs
  match decideTaskGraphSignal env received.store signal with
  | .ignore _ => some (emit env received .signalIgnored runRefs)
  | .start input startNodeId =>
    let at_ := clock env received
    let done := received.write (received.store.putNodeState startNodeId ⟨.done, none, some input, none, at_⟩)
    let running := done.write (done.store.updateRun fun run =>
      { run with state := .running, cancelRequested := false })
    tick env (emit env running .started (nodeRefs startNodeId none))
  | .pause =>
    some (emit env (received.write (received.store.updateRun fun run =>
      { run with state := .paused })) .paused runRefs)
  | .resume =>
    tick env (emit env (received.write (received.store.updateRun fun run => { run with state := .running })) .resumed
      runRefs)
  | .cancel => some (beginCancellation env received)
  | .resumeCheckpoint nodeId output =>
    let resumed := emit env (received.write (received.store.putNodeState nodeId
      ⟨.done, none, some output, none, clock env received⟩)) .checkpointResumed (nodeRefs nodeId none)
    if resumed.store.run.state = .running then tick env resumed else some resumed

inductive TerminalStatus where
  | done
  | failed
  | cancelled
  | interrupted
deriving DecidableEq

/-- The status's name in messages. -/
def TerminalStatus.text : TerminalStatus → JsString
  | done => js "done"
  | failed => js "failed"
  | cancelled => js "cancelled"
  | interrupted => js "interrupted"

structure TaskTerminal where
  status : TerminalStatus
  output : Option JsonObject
  error : Option JsString
deriving DecidableEq

def completeTask (nodeId : NodeId) (taskRunId : TaskRunId) (terminal : TaskTerminal) (s : Store) : Option Exec :=
  match terminal.status, terminal.output, s.graph.nodes.get nodeId with
  | .done, some output, some node =>
    match env.validateJsonObject node.outputSchema output (js "OUTPUT_SCHEMA_MISMATCH") with
    | .error error => some (failNode env ⟨s, []⟩ nodeId error (some taskRunId) .nodeFailed)
    | .ok _ =>
      let completed := emit env (Exec.write ⟨s, []⟩ (s.putNodeState nodeId
        ⟨.done, none, some output, some taskRunId, clock env ⟨s, []⟩⟩)) .nodeCompleted
        (nodeRefs nodeId (some taskRunId))
      if completed.store.run.state = .running then tick env completed else some completed
  -- reading the schema of a missing node throws before anything is written
  | .done, some _, none => some ⟨s, []⟩
  | status, _, _ =>
    some (failNode env ⟨s, []⟩ nodeId ⟨js "TASK_RUN_FAILED",
      terminal.error.getD (js "Task run '" ++ taskRunId.text ++ js "' ended as " ++ status.text), none⟩
      (some taskRunId) .nodeFailed)

def handleTaskTerminal (nodeId : NodeId) (taskRunId : TaskRunId) (terminal : TaskTerminal) (s : Store) :
    Option Exec :=
  match s.nodeStates.get nodeId with
  | none => some ⟨s, []⟩
  | some row =>
    if row.state ≠ .running ∨ row.taskRunId ≠ some taskRunId then some ⟨s, []⟩
    else if s.run.state.finished then some ⟨s, []⟩
    else if s.run.cancelRequested then
      some (convergeCancellation env (emit env (Exec.write ⟨s, []⟩ (s.putNodeState nodeId
        ⟨.interrupted, none, none, some taskRunId, clock env ⟨s, []⟩⟩)) .nodeInterrupted
        (nodeRefs nodeId (some taskRunId))))
    else completeTask env nodeId taskRunId terminal s

inductive PatchError where
  | issue (issue : Issue)
  | staleBase (baseRevision currentRevision : Nat) (patchId : Option JsString)
  | patchNotFound (patchId : JsString)

/-- The answer to a request. -/
inductive Reply where
  | nothing
  | threw
  | created (graph : Graph)
  | invalid (issues : List Issue)
  | preview (patchId : JsString) (graph : Graph)
  | applied (revision : Nat)
  | rejected (errors : List PatchError)
  | consumed (done : Bool)

def handlePatchRequest (patch : Patch) (s : Store) : Exec × Reply :=
  if patch.baseRevision ≠ s.graph.revision then
    (⟨s, []⟩, .rejected [.staleBase patch.baseRevision s.graph.revision none])
  else
    match validateTaskGraphPostImage env.contracts s.graph patch.ops s.stateOf with
    | .error issues => (⟨s, []⟩, .rejected (issues.map .issue))
    | .ok image =>
      let postGraph := { image with revision := s.graph.revision + 1 }
      -- the identifier is the table's primary key
      if (s.readPatch env.patchId).isSome then (⟨s, []⟩, .threw)
      else
        (Exec.write ⟨s, []⟩ (s.storePendingPatch ⟨env.patchId, patch.baseRevision, .pending, patch, postGraph⟩),
          .preview env.patchId postGraph)

def handlePatchConfirm (patchId : JsString) (s : Store) : Exec × Reply :=
  match (s.readPatch patchId).filter fun stored => stored.status = .pending with
  | none => (⟨s, []⟩, .rejected [.patchNotFound patchId])
  | some stored =>
    if stored.baseRevision ≠ s.graph.revision then
      (Exec.write ⟨s, []⟩ (s.consumePatch patchId .rejected),
        .rejected [.staleBase stored.baseRevision s.graph.revision (some patchId)])
    else
      match validateTaskGraphPostImage env.contracts s.graph stored.patch.ops s.stateOf with
      | .error issues => (Exec.write ⟨s, []⟩ (s.consumePatch patchId .rejected), .rejected (issues.map .issue))
      | .ok image =>
        let graph := { image with revision := s.graph.revision + 1 }
        (Exec.push ⟨s, []⟩ (.applyPatch stored.patch.ops
          (s.applyPatch stored graph (env.eventId 0) (clock env ⟨s, []⟩))), .applied graph.revision)

def handlePatchReject (patchId : JsString) (s : Store) : Exec × Reply :=
  match (s.readPatch patchId).filter fun stored => stored.status = .pending with
  | none => (⟨s, []⟩, .consumed false)
  | some _ => (Exec.write ⟨s, []⟩ (s.consumePatch patchId .rejected), .consumed true)

/-- `handleCreate`: the effects that create the run, `none` where the graph is refused. -/
def handleCreate (graph : Graph) (onNodeFailure : Option OnNodeFailurePolicy) : Option Exec × Reply :=
  let ops := graph.nodes.map fun entry => PatchOperation.addNode entry.2
  match validateTaskGraphPostImage env.contracts ⟨graph.revision, []⟩ ops fun _ => none with
  | .error issues => (none, .invalid issues)
  | .ok image =>
    let validated := { image with revision := graph.revision }
    let s := Store.createProjection validated (onNodeFailure.getD .pause) (env.now 0)
    (some (emit env ⟨s, [.write s]⟩ .created runRefs), .created validated)

inductive GraphEvent where
  | recover
  | create (graph : Graph) (onNodeFailure : Option OnNodeFailurePolicy)
  | signal (signal : Signal)
  | patchRequest (patch : Patch)
  | patchConfirm (patchId : JsString)
  | patchReject (patchId : JsString)
  | taskTerminal (nodeId : NodeId) (taskRunId : TaskRunId) (terminal : TaskTerminal)
deriving DecidableEq

/-- The effects of an event on a run, and the answer; `none` where the handler does not return. -/
def handle (s : Store) : GraphEvent → Option (Exec × Reply)
  | .recover => (handleRecover env s).map fun e => (e, .nothing)
  -- a second creation throws
  | .create _ _ => some (⟨s, []⟩, .threw)
  | .signal signal => (handleSignal env signal s).map fun e => (e, .nothing)
  | .patchRequest patch => some (handlePatchRequest env patch s)
  | .patchConfirm patchId => some (handlePatchConfirm env patchId s)
  | .patchReject patchId => some (handlePatchReject patchId s)
  | .taskTerminal nodeId taskRunId terminal =>
    (handleTaskTerminal env nodeId taskRunId terminal s).map fun e => (e, .nothing)

end Handlers

structure Machine where
  store : Option Store
  recovered : Bool

def Machine.initial : Machine := ⟨none, false⟩

/-- What happens next: an event is handled to its end, or the process ends after some effects of it, or a new runner
takes over while none is handled. -/
inductive Input where
  | handle (env : Env) (event : GraphEvent)
  | crash (env : Env) (event : GraphEvent) (effects : Nat)
  | restart

def storeAfter (store : Option Store) (log : List Effect) : Option Store :=
  log.foldl (fun store effect =>
    match effect with
    | .write store' => some store'
    | .activate _ store' => some store'
    | .applyPatch _ store' => some store'
    | .startTask _ => store
    | .cancelTask _ => store) store

/-- The effects of an event on a machine; `none` where the handler does not return. -/
def effectsOf (env : Env) (event : GraphEvent) : Option Store → Option (List Effect)
  | some s => (handle env s event).map fun result => result.1.log
  | none =>
    match event with
    | .create graph onNodeFailure => some (((handleCreate env graph onNodeFailure).1.map fun e => e.log).getD [])
    -- every other event finds no run
    | _ => some []

def step (m : Machine) : Input → Option (Machine × List Effect)
  | .handle env event =>
    if decide (event = .recover) = m.recovered then none
    else (effectsOf env event m.store).map fun log => (⟨storeAfter m.store log, true⟩, log)
  | .crash env event effects =>
    if decide (event = .recover) = m.recovered then none
    else
      (effectsOf env event m.store).map fun log =>
        (⟨storeAfter m.store (log.take effects), false⟩, log.take effects)
  | .restart => some (⟨m.store, false⟩, [])

end Wrenyard.TaskGraph
