import Wrenyard.TaskGraph.Handlers

/-!
# The scheduling loop

A pass over the nodes either leaves the store alone, and then every planned node waits for a dependency, or it takes
a node out of the planned ones; the loop ends because their number decreases.  A loop that stops with the run still to
be scheduled has a node that runs or waits: if there were none, the planned nodes would have one without a planned
dependency, and the pass would have dealt with it.
-/

namespace Wrenyard.TaskGraph

open Js

variable {env : Env} {e : Exec}

/-- A run that is to be scheduled has a node that some event will move on. -/
def Progressing (s : Store) : Prop :=
  schedulable s = true → ∃ id, s.stateOf id = some .running ∨ s.stateOf id = some .waiting

private theorem plannedCount_eq {s : Store} (hnodup : s.nodeStates.keys.Nodup) :
    plannedCount s = (s.nodeStates.keys.filter fun id => decide (s.stateOf id = some .planned)).length := by
  unfold plannedCount OMap.keys
  rw [List.filter_map, List.length_map]
  refine congrArg List.length (List.filter_congr fun entry hentry => ?_)
  have hget := OMap.get_of_mem hnodup hentry
  simp only [Function.comp_apply, Store.stateOf_of_get hget, Option.some.injEq]

variable {id : NodeId}

theorem plannedCount_lt {e' : Exec} (hwf : Wf e.store) (h : Evolves e e')
    (hplanned : e.store.stateOf id = some .planned) (hleft : e'.store.stateOf id ≠ some .planned) :
    plannedCount e'.store < plannedCount e.store := by
  rw [plannedCount_eq hwf.nodup, plannedCount_eq (h.wf hwf).nodup, h.frame.keys]
  refine Digraph.length_filter_lt (fun id' _ hid' => ?_) (Store.mem_keys_of_stateOf hplanned)
    (decide_eq_true hplanned) (decide_eq_false hleft)
  exact decide_eq_true (h.frame.planned id' (of_decide_eq_true hid'))

theorem exists_waiting_dep {s : Store} {node : Node} (h : dependencyStatus s node = .waiting) :
    ∃ dep ∈ node.deps, ∃ row, s.nodeStates.get dep = some row ∧
    (row.state = .planned ∨ row.state = .running ∨ row.state = .waiting) := by
  unfold dependencyStatus at h
  simp only at h
  split at h
  · cases h
  split at h
  · rename_i hmem
    obtain ⟨dep, hdep, hstatus⟩ := List.mem_map.mp hmem
    refine ⟨dep, hdep, ?_⟩
    unfold dependencyOf at hstatus
    split at hstatus
    · rename_i row _ hrow
      refine ⟨row, hrow, ?_⟩
      split at hstatus
      · split at hstatus <;> cases hstatus
      · split at hstatus
        · assumption
        · cases hstatus
    · cases hstatus
  · cases h

def AllWaiting (s : Store) (ids : List NodeId) : Prop :=
  ∀ id ∈ ids, ∀ node, s.stateOf id = some .planned → s.graph.nodes.get id = some node →
    node.action.type ≠ .start → dependencyStatus s node = .waiting

theorem exists_active_of_allWaiting {s : Store} (hwf : Wf s) (hstarted : Started s)
    (hwaiting : AllWaiting s s.graph.schedulingOrder) (hplanned : s.stateOf id = some .planned) :
    ∃ id, s.stateOf id = some .running ∨ s.stateOf id = some .waiting := by
  have hkeys : ∀ id, s.stateOf id = some .planned → id ∈ s.graph.nodes.keys :=
    fun id h => (hwf.keys id).mp (Store.mem_keys_of_stateOf h)
  obtain ⟨id', hplanned', hdeps⟩ := hwf.graph.exists_no_dep hkeys hplanned
  obtain ⟨node, hnode⟩ : ∃ node, s.graph.nodes.get id' = some node := by
    have := hkeys id' hplanned'
    rw [← OMap.has_eq_true_iff, OMap.has] at this
    exact Option.isSome_iff_exists.mp this
  have hstart : node.action.type ≠ .start := by
    intro htype
    have := hstarted id' node hnode htype
    rw [hplanned'] at this
    cases this
  have hstatus := hwaiting id' (Graph.mem_schedulingOrder (hkeys id' hplanned')) node hplanned' hnode hstart
  obtain ⟨dep, hdep, row, hrow, hstate⟩ := exists_waiting_dep hstatus
  have hdepState := Store.stateOf_of_get hrow
  rcases hstate with hstate | hstate | hstate
  · refine absurd ?_ (hdeps dep ?_)
    · rw [hdepState, hstate]
    · unfold Graph.deps
      rw [hnode]
      exact hdep
  · exact ⟨dep, Or.inl (by rw [hdepState, hstate])⟩
  · exact ⟨dep, Or.inr (by rw [hdepState, hstate])⟩

def Passed (e : Exec) (ids : List NodeId) (changed : Bool) : Pass → Prop
  | .left e' => Evolves e e' ∧ Orderly e'.store ∧ Progressing e'.store
  | .completed e' changed' => Evolves e e' ∧ Orderly e'.store ∧
      (changed' = false → changed = false ∧ e' = e ∧ AllWaiting e.store ids) ∧
      (changed' = true → changed = true ∨
        ∃ id, e.store.stateOf id = some .planned ∧ e'.store.stateOf id ≠ some .planned)

private theorem Passed.skip {ids : List NodeId} {changed : Bool} {p : Pass} (h : Passed e ids changed p)
    (hid : ∀ node, e.store.stateOf id = some .planned → e.store.graph.nodes.get id = some node →
      node.action.type ≠ .start → dependencyStatus e.store node = .waiting) : Passed e (id :: ids) changed p := by
  cases p with
  | left e' => exact h
  | completed e' changed' =>
    obtain ⟨hevolves, horderly, hsame, hchanged⟩ := h
    refine ⟨hevolves, horderly, fun hfalse => ?_, hchanged⟩
    obtain ⟨hc, he, hall⟩ := hsame hfalse
    refine ⟨hc, he, fun id' hid' => ?_⟩
    rcases List.mem_cons.mp hid' with rfl | hid'
    · exact hid
    · exact hall id' hid'

/-- A pass over the rest of the nodes, after a node that left the planned ones. -/
private theorem Passed.step {ids : List NodeId} {changed : Bool} {p : Pass} {e' : Exec}
    (hevolves : Evolves e e') (hplanned : e.store.stateOf id = some .planned)
    (hleft : e'.store.stateOf id ≠ some .planned) (h : Passed e' ids true p) : Passed e (id :: ids) changed p := by
  cases p with
  | left e'' => exact ⟨hevolves.trans h.1, h.2⟩
  | completed e'' changed' =>
    obtain ⟨hevolves', horderly, hsame, -⟩ := h
    refine ⟨hevolves.trans hevolves', horderly, fun hfalse => ?_, fun _ => Or.inr ⟨id, hplanned, fun hp => ?_⟩⟩
    · cases (hsame hfalse).1
    · exact hleft (hevolves'.frame.planned id hp)

theorem pass_spec (env : Env) (ids : List NodeId) (changed : Bool) (e : Exec) (hwf : Wf e.store)
    (horderly : Orderly e.store) : Passed e ids changed (pass env ids changed e) := by
  induction ids generalizing changed e with
  | nil => exact ⟨.refl e, horderly, fun h => ⟨h, rfl, by simp [AllWaiting]⟩, fun h => Or.inl h⟩
  | cons id ids ih =>
    unfold pass
    split
    · rename_i hnot
      refine ⟨.refl e, horderly, fun h => ?_⟩
      rw [hnot] at h
      cases h
    rename_i hschedulable
    have hschedulable' : schedulable e.store = true := by simpa using hschedulable
    split
    · rename_i row node hrow hnode
      have hstate := Store.stateOf_of_get hrow
      split
      · rename_i hskip
        refine (ih changed e hwf horderly).skip fun node' hplanned hnode' htype => ?_
        rw [hnode] at hnode'
        cases hnode'
        rw [hstate] at hplanned
        rcases hskip with hskip | hskip
        · exact absurd (Option.some.inj hplanned) hskip
        · exact absurd hskip htype
      · rename_i hplan
        rw [not_or, not_not] at hplan
        have hplanned : e.store.stateOf id = some .planned := by rw [hstate, hplan.1]
        have hid := hwf.graph.ids id node hnode
        subst hid
        split
        · -- a node whose dependencies cannot be satisfied is cancelled
          have hsafe : SafeStep e.store (e.store.putNodeState node.id ⟨.cancelled, none, none, none,
              clock env e⟩) := by
            refine SafeStep.ofNode hrow (by simp) ?_ ?_ ?_
            · intro hdone
              rw [hplan.1] at hdone
              cases hdone
            · intro _ hto
              rcases hto with hto | hto <;> cases hto
            · exact nofun
          have hevolves : Evolves e (emit env (Exec.write e (e.store.putNodeState node.id
              ⟨.cancelled, none, none, none, clock env e⟩)) .nodeCancelled (nodeRefs node.id none)) :=
            Evolves.emit env (Evolves.write (.refl e) hsafe)
          refine Passed.step hevolves hplanned ?_ (ih true _ (hevolves.wf hwf) ?_)
          · rw [emit_stateOf, Exec.write_store, Store.stateOf_putNodeState, if_pos rfl]
            simp
          · exact Or.inl (schedulable_iff.mp hschedulable').2
        · rename_i hstatus
          have hactivated := activateNode_spec env hwf hschedulable' hnode hrow hplan.1 hstatus
          cases hresult : activateNode env node e <;> rw [hresult] at hactivated
          case ok e' =>
            obtain ⟨hevolves, horderly', hleft⟩ := hactivated
            exact Passed.step hevolves hplanned hleft (ih true e' (hevolves.wf hwf) horderly')
          case error e' =>
            obtain ⟨hevolves, horderly', hrunning⟩ := hactivated
            exact ⟨hevolves, horderly', fun _ => ⟨node.id, Or.inl hrunning⟩⟩
        · rename_i hstatus
          refine (ih changed e hwf horderly).skip fun node' _ hnode' _ => ?_
          rw [hnode] at hnode'
          cases hnode'
          exact hstatus
    · rename_i hnone
      refine (ih changed e hwf horderly).skip fun node' hplanned hnode' _ => ?_
      obtain ⟨row, hrow, -⟩ := Store.exists_get_of_stateOf hplanned
      exact absurd hnode' (hnone row node' hrow)

theorem finishDone_evolves {endNodeId : NodeId} (h : schedulable e.store = true) :
    Evolves e (finishDone env e endNodeId) := by
  unfold finishDone
  split
  · exact .refl e
  · refine Evolves.emit env (Evolves.write (.refl e) (SafeStep.ofRun rfl rfl rfl fun _ => Or.inl ?_))
    rw [(schedulable_iff.mp h).1]
    rfl

theorem finishDone_state (env : Env) (endNodeId : NodeId) (h : schedulable e.store = true) :
    (finishDone env e endNodeId).store.run.state = .done ∧ (finishDone env e endNodeId).store.run.cancelRequested =
    false := by
  unfold finishDone
  split
  · rename_i hdone
    exact ⟨hdone, (schedulable_iff.mp h).2⟩
  · exact ⟨rfl, rfl⟩

structure Ticked (e e' : Exec) : Prop where
  evolves : Evolves e e'
  orderly : Orderly e'.store
  progressing : Progressing e'.store

private theorem Ticked.ofDone {endNodeId : NodeId} (h : schedulable e.store = true) :
    Ticked e (finishDone env e endNodeId) := by
  obtain ⟨hstate, hflag⟩ := finishDone_state env endNodeId h
  refine ⟨finishDone_evolves h, Or.inl hflag, fun hs => ?_⟩
  rw [schedulable_iff, hstate] at hs
  cases hs.1

private theorem Ticked.ofCancelled : Ticked e (finishCancelled env e) := by
  refine ⟨finishCancelled_evolves, Or.inr (Or.inl finishCancelled_state), fun hs => ?_⟩
  rw [schedulable_iff, finishCancelled_state] at hs
  cases hs.1

private theorem Ticked.trans {e' e'' : Exec} (h : Evolves e e') (h' : Ticked e' e'') : Ticked e e'' :=
  ⟨h.trans h'.evolves, h'.orderly, h'.progressing⟩

private theorem Ticked.ofIdle (horderly : Orderly e.store) (h : schedulable e.store = false) : Ticked e e := by
  refine ⟨.refl e, horderly, fun hs => ?_⟩
  rw [h] at hs
  cases hs

theorem tickLoop_spec (env : Env) (fuel : Nat) (e : Exec) (hwf : Wf e.store) (horderly : Orderly e.store)
    (hfuel : plannedCount e.store < fuel) : ∃ e', tickLoop env fuel e = some e' ∧ Ticked e e' := by
  induction fuel generalizing e with
  | zero => omega
  | succ fuel ih =>
    unfold tickLoop
    split
    · rename_i hnot
      exact ⟨e, rfl, .ofIdle horderly hnot⟩
    rename_i hschedulable
    have hschedulable' : schedulable e.store = true := by simpa using hschedulable
    split
    · exact ⟨_, rfl, .ofDone hschedulable'⟩
    have hpass := pass_spec env e.store.graph.schedulingOrder false e hwf horderly
    cases hresult : pass env e.store.graph.schedulingOrder false e <;> rw [hresult] at hpass
    case left e' => exact ⟨e', rfl, hpass.1, hpass.2.1, hpass.2.2⟩
    case completed e' changed =>
      obtain ⟨hevolves, horderly', hsame, hchanged⟩ := hpass
      simp only
      split
      · rename_i hnot
        exact ⟨e', rfl, .trans hevolves (.ofIdle horderly' hnot)⟩
      rename_i hschedulable₁
      have hschedulable₁' : schedulable e'.store = true := by simpa using hschedulable₁
      split
      · exact ⟨_, rfl, .trans hevolves (.ofDone hschedulable₁')⟩
      cases changed with
      | true =>
        obtain ⟨id, hplanned, hleft⟩ := (hchanged rfl).resolve_left (by simp)
        have hlt := plannedCount_lt hwf hevolves hplanned hleft
        obtain ⟨e'', hloop, hticked⟩ := ih e' (hevolves.wf hwf) horderly' (by omega)
        exact ⟨e'', hloop, .trans hevolves hticked⟩
      | false =>
        obtain ⟨-, rfl, hwaiting⟩ := hsame rfl
        simp only [Bool.false_eq_true, if_false]
        split
        · exact ⟨_, rfl, .ofCancelled⟩
        rename_i hsome
        refine ⟨e', rfl, .refl e', horderly', fun _ => ?_⟩
        rw [not_and_or, Bool.not_eq_false, Bool.not_eq_false, Store.someNode_eq_true,
          Store.someNode_eq_true] at hsome
        rcases hsome with ⟨id, row, hget, hrow⟩ | ⟨id, row, hget, hrow⟩
        · refine ⟨id, ?_⟩
          rw [Store.stateOf_of_get hget]
          simpa using hrow
        have hstarted : Started e'.store :=
          hwf.run (by rw [(schedulable_iff.mp hschedulable').1]; rfl)
        have hplanned : e'.store.stateOf id = some .planned := by
          rw [Store.stateOf_of_get hget, of_decide_eq_true hrow]
        exact exists_active_of_allWaiting hwf hstarted hwaiting hplanned

/-- Every tick ends.  One of a run that is not to be scheduled does nothing. -/
theorem tick_spec (env : Env) (hwf : Wf e.store) :
    ∃ e', tick env e = some e' ∧ Evolves e e' ∧ Progressing e'.store ∧ (Orderly e'.store ∨ e' = e) := by
  cases hschedulable : schedulable e.store with
  | true =>
    have horderly : Orderly e.store := Or.inl (schedulable_iff.mp hschedulable).2
    obtain ⟨e', htick, hticked⟩ := tickLoop_spec env _ e hwf horderly (Nat.lt_succ_self _)
    exact ⟨e', htick, hticked.evolves, hticked.progressing, Or.inl hticked.orderly⟩
  | false =>
    refine ⟨e, ?_, .refl e, fun hs => ?_, Or.inr rfl⟩
    · unfold tick tickLoop
      rw [if_pos hschedulable]
    · rw [hschedulable] at hs
      cases hs

end Wrenyard.TaskGraph
