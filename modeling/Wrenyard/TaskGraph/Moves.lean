import Wrenyard.TaskGraph.Runner

/-!
# What a write of the runner may do

Every effect of a handler other than the application of a patch is a `Move`: a write leaves the graph and the set of
nodes alone, makes no node planned, leaves a done node done, and takes a planned node to running or waiting only when
its dependencies are satisfied; the bridge starts a task only for the node made running last.  `Wf` is what all stores
of a run have in common, those left by a crash between two writes included.
-/

namespace Wrenyard.TaskGraph

open Js

variable {nodeId : NodeId}

namespace Store

theorem stateOf_putNodeState (s : Store) (nodeId : NodeId) (row : NodeState) (id : NodeId) :
    (s.putNodeState nodeId row).stateOf id = if nodeId = id then some row.state else s.stateOf id := by
  unfold stateOf putNodeState
  rw [OMap.get_set]
  split <;> rfl

variable {s : Store}

theorem stateOf_of_get {row : NodeState} (h : s.nodeStates.get nodeId = some row) :
    s.stateOf nodeId = some row.state := by
  unfold stateOf
  rw [h]
  rfl

theorem exists_get_of_stateOf {state : NodeRunState} (h : s.stateOf nodeId = some state) :
    ∃ row, s.nodeStates.get nodeId = some row ∧ row.state = state :=
  Option.map_eq_some_iff.mp h

theorem mem_keys_of_stateOf {state : NodeRunState} (h : s.stateOf nodeId = some state) :
    nodeId ∈ s.nodeStates.keys := by
  obtain ⟨row, hget, -⟩ := exists_get_of_stateOf h
  rw [← OMap.has_eq_true_iff, OMap.has, hget]
  rfl

theorem exists_stateOf_of_mem_keys (h : nodeId ∈ s.nodeStates.keys) :
    ∃ row, s.nodeStates.get nodeId = some row := by
  rw [← OMap.has_eq_true_iff, OMap.has] at h
  exact Option.isSome_iff_exists.mp h

theorem mem_projected {entry : NodeId × NodeState} :
    entry ∈ s.projected ↔ s.nodeStates.get entry.1 = some entry.2 := by
  unfold projected
  rw [List.mem_filterMap]
  constructor
  · rintro ⟨id, -, h⟩
    obtain ⟨row, hget, rfl⟩ := Option.map_eq_some_iff.mp h
    exact hget
  · intro h
    refine ⟨entry.1, ?_, by rw [h]; rfl⟩
    rw [mem_ownKeys, mem_orderBinary, ← OMap.has_eq_true_iff, OMap.has, h]
    rfl

theorem nodup_projected (h : s.nodeStates.keys.Nodup) : (s.projected.map Prod.fst).Nodup := by
  unfold projected
  rw [List.map_filterMap]
  refine List.Nodup.filterMap ?_ (nodup_ownKeys (nodup_orderBinary h))
  intro a a' b hb hb'
  simp only [Option.mem_def, Option.map_map, Option.map_eq_some_iff, Function.comp_apply] at hb hb'
  obtain ⟨_, -, rfl⟩ := hb
  obtain ⟨_, -, h'⟩ := hb'
  exact h'.symm

theorem someNode_eq_true {p : NodeState → Bool} :
    s.someNode p = true ↔ ∃ id row, s.nodeStates.get id = some row ∧ p row = true := by
  unfold someNode
  rw [List.any_eq_true]
  constructor
  · rintro ⟨⟨id, row⟩, hmem, hp⟩
    exact ⟨id, row, mem_projected.mp hmem, hp⟩
  · rintro ⟨id, row, hget, hp⟩
    exact ⟨(id, row), mem_projected.mpr hget, hp⟩

end Store

def NodeRunState.begun : NodeRunState → Bool
  | running => true
  | waiting => true
  | failed => true
  | interrupted => true
  | _ => false

def GraphState.begun : GraphState → Bool
  | running => true
  | paused => true
  | done => true
  | _ => false

def Started (s : Store) : Prop :=
  ∀ id node, s.graph.nodes.get id = some node → node.action.type = .start → s.stateOf id = some .done

structure Wf (s : Store) : Prop where
  graph : s.graph.WellFormed
  keys : ∀ id, id ∈ s.nodeStates.keys ↔ id ∈ s.graph.nodes.keys
  nodup : s.nodeStates.keys.Nodup
  node : ∀ id state, s.stateOf id = some state → state.begun = true → Started s
  run : s.run.state.begun = true → Started s

/-! ### Moves -/

/-- What a write may change. -/
structure SafeStep (s s' : Store) : Prop where
  graph : s'.graph = s.graph
  policy : s'.run.onNodeFailure = s.run.onNodeFailure
  keys : s'.nodeStates.keys = s.nodeStates.keys
  dispatched : ∀ id node, s.stateOf id = some .planned →
    s'.stateOf id = some .running ∨ s'.stateOf id = some .waiting → s.graph.nodes.get id = some node →
    dependencyStatus s node = .satisfied
  planned : ∀ id, s'.stateOf id = some .planned → s.stateOf id = some .planned
  done : ∀ id, s.stateOf id = some .done → s'.stateOf id = some .done
  node : ∀ id state, s'.stateOf id = some state → state.begun = true →
    (∃ state', s.stateOf id = some state' ∧ state'.begun = true) ∨ Started s
  run : s'.run.state.begun = true → s.run.state.begun = true ∨ Started s

namespace SafeStep

variable {s s' s'' : Store}

theorem started (h : SafeStep s s') (hs : Started s) : Started s' := by
  intro id node hget htype
  rw [h.graph] at hget
  exact h.done id (hs id node hget htype)

theorem wf (h : SafeStep s s') (hs : Wf s) : Wf s' := by
  refine ⟨?_, ?_, ?_, ?_, ?_⟩
  · rw [h.graph]
    exact hs.graph
  · rw [h.graph, h.keys]
    exact hs.keys
  · rw [h.keys]
    exact hs.nodup
  · intro id state hstate hbegun
    rcases h.node id state hstate hbegun with ⟨state', hstate', hbegun'⟩ | hstarted
    · exact h.started (hs.node id state' hstate' hbegun')
    · exact h.started hstarted
  · intro hbegun
    rcases h.run hbegun with hrun | hstarted
    · exact h.started (hs.run hrun)
    · exact h.started hstarted

/-- A write that keeps graph and nodes, and changes the run as allowed. -/
theorem ofRun (hgraph : s'.graph = s.graph) (hnodes : s'.nodeStates = s.nodeStates)
    (hpolicy : s'.run.onNodeFailure = s.run.onNodeFailure)
    (hrun : s'.run.state.begun = true → s.run.state.begun = true ∨ Started s) : SafeStep s s' := by
  have hstate : ∀ id, s'.stateOf id = s.stateOf id := by
    intro id
    unfold Store.stateOf
    rw [hnodes]
  refine ⟨hgraph, hpolicy, by rw [hnodes], ?_, ?_, ?_, ?_, hrun⟩
  · intro id node hplanned hto
    rw [hstate, hplanned] at hto
    rcases hto with hto | hto <;> cases hto
  · intro id hplanned
    rwa [hstate] at hplanned
  · intro id hdone
    rwa [hstate]
  · intro id state hto hbegun
    rw [hstate] at hto
    exact Or.inl ⟨state, hto, hbegun⟩

theorem ofNode {old row : NodeState} (hget : s.nodeStates.get nodeId = some old) (hplanned : row.state ≠ .planned)
    (hdone : old.state = .done → row.state = .done)
    (hdispatched : old.state = .planned → row.state = .running ∨ row.state = .waiting →
      ∀ node, s.graph.nodes.get nodeId = some node → dependencyStatus s node = .satisfied)
    (hbegun : row.state.begun = true → old.state.begun = true ∨ Started s) :
    SafeStep s (s.putNodeState nodeId row) := by
  have hold := Store.stateOf_of_get hget
  refine ⟨rfl, rfl, ?_, ?_, ?_, ?_, ?_, Or.inl⟩
  · exact OMap.keys_set_of_mem (Store.mem_keys_of_stateOf hold) row
  · intro id node hfrom hto hnode
    rw [Store.stateOf_putNodeState] at hto
    split at hto
    · rename_i heq
      subst heq
      rw [hold] at hfrom
      exact hdispatched (Option.some.inj hfrom) (hto.imp Option.some.inj Option.some.inj) node hnode
    · rw [hfrom] at hto
      rcases hto with hto | hto <;> cases hto
  · intro id hto
    rw [Store.stateOf_putNodeState] at hto
    split at hto
    · exact absurd (Option.some.inj hto) hplanned
    · exact hto
  · intro id hfrom
    rw [Store.stateOf_putNodeState]
    split
    · rename_i heq
      subst heq
      rw [hold] at hfrom
      rw [hdone (Option.some.inj hfrom)]
    · exact hfrom
  · intro id state hto hb
    rw [Store.stateOf_putNodeState] at hto
    split at hto
    · rename_i heq
      subst heq
      cases hto
      exact (hbegun hb).imp_left fun hb' => ⟨old.state, hold, hb'⟩
    · exact Or.inl ⟨state, hto, hb⟩

/-- More of the journal, or of the run, in the same write. -/
theorem congr (h : SafeStep s s') (hgraph : s''.graph = s'.graph) (hnodes : s''.nodeStates = s'.nodeStates)
    (hpolicy : s''.run.onNodeFailure = s'.run.onNodeFailure) (hrun : s''.run.state = s'.run.state) :
    SafeStep s s'' := by
  have hstate : ∀ id, s''.stateOf id = s'.stateOf id := by
    intro id
    unfold Store.stateOf
    rw [hnodes]
  refine ⟨hgraph.trans h.graph, hpolicy.trans h.policy, by rw [hnodes, h.keys], ?_, ?_, ?_, ?_, ?_⟩
  · intro id
    rw [hstate]
    exact h.dispatched id
  · intro id
    rw [hstate]
    exact h.planned id
  · intro id
    rw [hstate]
    exact h.done id
  · intro id
    rw [hstate]
    exact h.node id
  · rw [hrun]
    exact h.run

end SafeStep

def pending (log : List Effect) : Option NodeId :=
  log.foldl (fun last effect =>
    match effect with
    | .activate nodeId _ => some nodeId
    | .startTask _ => none
    | _ => last) none

/-- An effect of a handler that applies no patch. -/
inductive Move (e : Exec) : Effect → Prop where
  | write {store : Store} : SafeStep e.store store → Move e (.write store)
  | activate {nodeId : NodeId} {store : Store} : SafeStep e.store store → schedulable e.store = true →
      e.store.stateOf nodeId = some .planned → Move e (.activate nodeId store)
  | startTask {request : TaskRequest} : pending e.log = some request.nodeId →
      e.store.stateOf request.nodeId = some .running → schedulable e.store = true → Move e (.startTask request)
  | cancelTask {taskRunId : TaskRunId} : Move e (.cancelTask taskRunId)

abbrev Evolves : Exec → Exec → Prop := Logged.Evolves Effect.after Move

theorem SafeStep.refl (s : Store) : SafeStep s s := SafeStep.ofRun rfl rfl rfl Or.inl

theorem Move.safe {e : Exec} {effect : Effect} (h : Move e effect) : SafeStep e.store (effect.after e.store) := by
  cases h with
  | write h => exact h
  | activate h => exact h
  | startTask | cancelTask => exact .refl _

namespace Evolves

variable {e e' : Exec}

theorem refl (e : Exec) : Evolves e e := Logged.Evolves.refl

theorem wf (h : Evolves e e') (he : Wf e.store) : Wf e'.store :=
  h.invariant Wf (fun _ _ hmove hwf => hmove.safe.wf hwf) he

structure Frame (s s' : Store) : Prop where
  graph : s'.graph = s.graph
  policy : s'.run.onNodeFailure = s.run.onNodeFailure
  keys : s'.nodeStates.keys = s.nodeStates.keys
  planned : ∀ id, s'.stateOf id = some .planned → s.stateOf id = some .planned
  done : ∀ id, s.stateOf id = some .done → s'.stateOf id = some .done

theorem frame (h : Evolves e e') : Frame e.store e'.store := by
  refine h.related (fun _ => True) Frame ?_ ?_ ?_ trivial
  · exact fun s => ⟨rfl, rfl, rfl, fun _ => id, fun _ => id⟩
  · intro s s' s'' h1 h2
    exact ⟨h2.graph.trans h1.graph, h2.policy.trans h1.policy, h2.keys.trans h1.keys,
      fun id hp => h1.planned id (h2.planned id hp), fun id hd => h2.done id (h1.done id hd)⟩
  · intro e x hmove _
    have hsafe := hmove.safe
    exact ⟨trivial, hsafe.graph, hsafe.policy, hsafe.keys, hsafe.planned, hsafe.done⟩

theorem write {store : Store} (h : Evolves e e') (hsafe : SafeStep e'.store store) :
    Evolves e (Exec.write e' store) :=
  Logged.Evolves.push h (.write hsafe)

theorem emit (env : Env) {type : EventType} {refs : EventRefs} (h : Evolves e e') :
    Evolves e (TaskGraph.emit env e' type refs) :=
  h.write (SafeStep.ofRun rfl rfl rfl Or.inl)

end Evolves

end Wrenyard.TaskGraph
