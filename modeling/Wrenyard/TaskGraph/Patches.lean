import Wrenyard.TaskGraph.Events

/-!
# Patches and whole runs

An applied patch writes a new graph and, operation by operation, the rows of the nodes it creates or removes.  It
leaves every node alone that is not planned or failed (`Patched`), so that the invariant of the store survives.  Every
handler, patches included, thus keeps the invariant at each of its effects, and so does a run with crashes in it.
-/

namespace Wrenyard.TaskGraph

open Js

variable {env : Env} {e : Exec} {s s' : Store}

/-! ### An applied patch -/

structure Patched (s : Store) (ops : List PatchOperation) (s' : Store) : Prop where
  run : s'.run = s.run
  kept : ∀ id row, s.nodeStates.get id = some row → row.state ≠ .planned → row.state ≠ .failed →
    s'.nodeStates.get id = some row
  rows : ∀ id row, s'.nodeStates.get id = some row → s.nodeStates.get id = some row ∨
    (row.state = .planned ∧ ∃ op ∈ ops, op.creates = true ∧ op.target = id)
  wf : Wf s'

variable {at_ : Time} {id : NodeId}

private theorem get_applyOperation_of_ne {op : PatchOperation} (h : op.target ≠ id) :
    (s.applyOperation at_ op).nodeStates.get id = s.nodeStates.get id := by
  cases op with
  | addNode | replaceNode => exact (OMap.get_set ..).trans (if_neg h)
  | removeNode id' => exact (OMap.get_delete ..).trans (if_neg h)

private theorem get_applyOperation_self (s : Store) (at_ : Time) (op : PatchOperation) :
    (s.applyOperation at_ op).nodeStates.get op.target =
      if op.creates then some ⟨.planned, none, none, none, at_⟩ else none := by
  cases op with
  | addNode | replaceNode => exact (OMap.get_set ..).trans (if_pos rfl)
  | removeNode id' => exact (OMap.get_delete ..).trans (if_pos rfl)

private theorem has_applyToImage_self (nodes : OMap NodeId Node) (op : PatchOperation) :
    (applyToImage nodes op).has op.target = op.creates := by
  cases op with
  | addNode | replaceNode =>
    unfold applyToImage
    rw [OMap.has_set]
    simp [PatchOperation.target, PatchOperation.creates]
  | removeNode id' =>
    unfold applyToImage OMap.has
    rw [OMap.get_delete]
    simp [PatchOperation.target, PatchOperation.creates]

variable (ops : List PatchOperation)

private theorem get_foldl_applyOperation (s : Store) (h : ∀ op ∈ ops, op.target ≠ id) :
    (ops.foldl (Store.applyOperation at_) s).nodeStates.get id = s.nodeStates.get id := by
  induction ops generalizing s with
  | nil => rfl
  | cons op ops ih =>
    rw [List.foldl_cons, ih _ fun op' hop' => h op' (List.mem_cons_of_mem _ hop')]
    exact get_applyOperation_of_ne (h op (List.mem_cons_self ..))

theorem foldl_applyOperation_kept (at_ : Time) (ops : List PatchOperation) (s : Store) :
    (ops.foldl (Store.applyOperation at_) s).run = s.run ∧ (ops.foldl (Store.applyOperation at_) s).graph = s.graph ∧
    (ops.foldl (Store.applyOperation at_) s).patches = s.patches ∧ (ops.foldl (Store.applyOperation at_) s).journal =
    s.journal := by
  induction ops generalizing s with
  | nil => exact ⟨rfl, rfl, rfl, rfl⟩
  | cons op ops ih =>
    rw [List.foldl_cons]
    obtain ⟨hrun, hgraph, hpatches, hjournal⟩ := ih (s.applyOperation at_ op)
    rw [hrun, hgraph, hpatches, hjournal]
    cases op <;> exact ⟨rfl, rfl, rfl, rfl⟩

theorem foldl_applyOperation_rows (s : Store) {row : NodeState}
    (h : (ops.foldl (Store.applyOperation at_) s).nodeStates.get id = some row) :
    s.nodeStates.get id = some row ∨ (row.state = .planned ∧ ∃ op ∈ ops, op.creates = true ∧ op.target = id) := by
  induction ops generalizing s with
  | nil => exact Or.inl h
  | cons op ops ih =>
    rcases ih (s.applyOperation at_ op) h with hrow | ⟨hplanned, op', hop', hcreates⟩
    · by_cases htarget : op.target = id
      · subst htarget
        rw [get_applyOperation_self] at hrow
        split at hrow <;> cases hrow
        rename_i hcreates
        exact Or.inr ⟨rfl, op, List.mem_cons_self .., hcreates, rfl⟩
      · rw [get_applyOperation_of_ne htarget] at hrow
        exact Or.inl hrow
    · exact Or.inr ⟨hplanned, op', List.mem_cons_of_mem _ hop', hcreates⟩

private theorem foldl_applyOperation_keys (s : Store) (nodes : OMap NodeId Node)
    (h : ∀ id, s.nodeStates.has id = nodes.has id) :
    ∀ id, (ops.foldl (Store.applyOperation at_) s).nodeStates.has id = (ops.foldl applyToImage nodes).has id := by
  induction ops generalizing s nodes with
  | nil => exact h
  | cons op ops ih =>
    refine ih (s.applyOperation at_ op) (applyToImage nodes op) fun id => ?_
    by_cases htarget : op.target = id
    · subst htarget
      rw [has_applyToImage_self, OMap.has, get_applyOperation_self]
      cases op.creates <;> rfl
    · rw [OMap.has, OMap.has, get_applyOperation_of_ne htarget, get_applyToImage_of_ne htarget]
      exact h id

private theorem nodup_foldl_applyOperation (s : Store) (h : s.nodeStates.keys.Nodup) :
    (ops.foldl (Store.applyOperation at_) s).nodeStates.keys.Nodup := by
  induction ops generalizing s with
  | nil => exact h
  | cons op ops ih =>
    refine ih (s.applyOperation at_ op) ?_
    cases op with
    | addNode node => exact OMap.nodup_keys_set h _ _
    | removeNode id => exact OMap.nodup_keys_delete h _
    | replaceNode node => exact OMap.nodup_keys_set h _ _

theorem Graph.WellFormed.withRevision {g : Graph} (h : g.WellFormed) (revision : Nat) :
    Graph.WellFormed { g with revision := revision } :=
  ⟨h.nodup, h.ids, h.start, h.deps, h.acyclic⟩

theorem get_foldl_applyToImage (nodes : OMap NodeId Node)
    (h : ∀ op ∈ ops, op.target ≠ id) : (ops.foldl applyToImage nodes).get id = nodes.get id := by
  induction ops generalizing nodes with
  | nil => rfl
  | cons op ops ih =>
    rw [List.foldl_cons, ih _ fun op' hop' => h op' (List.mem_cons_of_mem _ hop')]
    exact get_applyToImage_of_ne (h op (List.mem_cons_self ..))

variable {contracts : Contracts}

theorem exists_get_of_validate {current g : Graph} {ops : List PatchOperation}
    {states : NodeId → Option NodeRunState} (h : validateTaskGraphPostImage contracts current ops states = .ok g)
    {node : Node} (htarget : ∀ op ∈ ops, op.target ≠ id) (hget : current.nodes.get id = some node) :
    ∃ node', g.nodes.get id = some node' ∧ node'.action.type = node.action.type := by
  obtain ⟨rfl, -⟩ := validate_ok h
  have himage : (⟨current.revision, imageNodes current ops⟩ : Graph).nodes.get id = some node.clone := by
    unfold imageNodes deepCloneNodes
    rw [get_foldl_applyToImage ops _ htarget, OMap.get_map, hget]
    rfl
  obtain ⟨node', hnode', haction⟩ := exists_get_materialize contracts himage
  exact ⟨node', hnode', by rw [haction]; rfl⟩

theorem target_ne_of_validate {g : Graph} {ops : List PatchOperation} (hwf : Wf s)
    (h : validateTaskGraphPostImage contracts s.graph ops s.stateOf = .ok g) {row : NodeState}
    (hget : s.nodeStates.get id = some row) (hplanned : row.state ≠ .planned) (hfailed : row.state ≠ .failed) :
    ∀ op ∈ ops, op.target ≠ id := by
  rintro op hop rfl
  have hnone := (validate_ok h).2.1 op hop
  have hstate := Store.stateOf_of_get hget
  have hhas : s.graph.nodes.has op.target = true := by
    rw [OMap.has_eq_true_iff, ← hwf.keys]
    exact Store.mem_keys_of_stateOf hstate
  unfold frozenState at hnone
  rw [hstate, if_pos ⟨hhas, hplanned, hfailed⟩] at hnone
  cases hnone

theorem patched_applyPatch {image : Graph} {stored : StoredPatch} (eventId : JsString) (at_ : Time) (hwf : Wf s)
    (h : validateTaskGraphPostImage contracts s.graph stored.patch.ops s.stateOf = .ok image) :
    Patched s stored.patch.ops
      (s.applyPatch stored { image with revision := s.graph.revision + 1 } eventId at_) := by
  have hg : image.WellFormed := wellFormed_of_validate hwf.graph.nodup hwf.graph.ids h
  obtain ⟨himage, -⟩ := validate_ok h
  have hpost := foldl_applyOperation_kept at_ stored.patch.ops
    (s.replaceGraph { image with revision := s.graph.revision + 1 })
  generalize hs' : s.applyPatch stored { image with revision := s.graph.revision + 1 } eventId at_ = s'
  have hrun : s'.run = s.run := by
    subst hs'
    exact hpost.1
  have hgraph : s'.graph = { image with revision := s.graph.revision + 1 } := by
    subst hs'
    exact hpost.2.1
  have hnodes : s'.nodeStates = (stored.patch.ops.foldl (Store.applyOperation at_)
      (s.replaceGraph { image with revision := s.graph.revision + 1 })).nodeStates := by
    subst hs'
    rfl
  have htarget : ∀ id row, s.nodeStates.get id = some row → row.state ≠ .planned → row.state ≠ .failed →
      ∀ op ∈ stored.patch.ops, op.target ≠ id := fun id row => target_ne_of_validate hwf h
  have hkept : ∀ id row, s.nodeStates.get id = some row → row.state ≠ .planned → row.state ≠ .failed →
      s'.nodeStates.get id = some row := by
    intro id row hget hplanned hfailed
    rw [hnodes, get_foldl_applyOperation _ _ (htarget id row hget hplanned hfailed)]
    exact hget
  have hrows : ∀ id row, s'.nodeStates.get id = some row → s.nodeStates.get id = some row ∨
      (row.state = .planned ∧ ∃ op ∈ stored.patch.ops, op.creates = true ∧ op.target = id) := by
    intro id row hget
    rw [hnodes] at hget
    have hold := foldl_applyOperation_rows stored.patch.ops _ hget
    exact hold
  have hstarted : Started s → Started s' := by
    intro hs
    obtain ⟨startId, node, hget, htype, -⟩ := hwf.graph.start
    obtain ⟨row, hrow, hdone⟩ := Store.exists_get_of_stateOf (hs startId node hget htype)
    have hne : ∀ op ∈ stored.patch.ops, op.target ≠ startId :=
      htarget startId row hrow (by rw [hdone]; simp) (by rw [hdone]; simp)
    obtain ⟨node', hget', htype'⟩ := exists_get_of_validate h hne hget
    refine started_of_start (by rw [hgraph]; exact hg.withRevision _) (by rw [hgraph]; exact hget')
      (htype'.trans htype) ?_
    rw [Store.stateOf_of_get (hkept startId row hrow (by rw [hdone]; simp) (by rw [hdone]; simp)), hdone]
  refine ⟨hrun, hkept, hrows, ?_, ?_, ?_, ?_, ?_⟩
  · rw [hgraph]
    exact hg.withRevision _
  · intro id
    rw [hgraph, hnodes]
    show id ∈ OMap.keys _ ↔ id ∈ image.nodes.keys
    rw [himage, keys_materialize]
    have hkeys : ∀ id, (s.replaceGraph { image with revision := s.graph.revision + 1 }).nodeStates.has id =
        (deepCloneNodes s.graph.nodes).has id := by
      intro id
      rw [Bool.eq_iff_iff, OMap.has_eq_true_iff, OMap.has_eq_true_iff, deepCloneNodes, OMap.keys_map]
      exact hwf.keys id
    rw [← OMap.has_eq_true_iff, ← OMap.has_eq_true_iff, ← himage]
    exact Bool.eq_iff_iff.mp (foldl_applyOperation_keys stored.patch.ops _ _ hkeys id)
  · rw [hnodes]
    exact nodup_foldl_applyOperation _ _ hwf.nodup
  · intro id state hstate hbegun
    obtain ⟨row, hget, rfl⟩ := Store.exists_get_of_stateOf hstate
    rcases hrows id row hget with hold | ⟨hplanned, -⟩
    · exact hstarted (hwf.node id row.state (Store.stateOf_of_get hold) hbegun)
    · rw [hplanned] at hbegun
      cases hbegun
  · rw [hrun]
    exact fun hbegun => hstarted (hwf.run hbegun)

end Wrenyard.TaskGraph
