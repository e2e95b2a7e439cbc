import Wrenyard.TaskGraph.Moves

/-!
# What the handlers do

One lemma for each part of a handler: its effects are moves, and what the store it leaves is like.  Cancellation ends
with the run cancelled or with every remaining node running under a task run (`Cancelling`); the failure of a node
ends so under the cancel policy, and with the run paused under the pause policy.
-/

namespace Wrenyard.TaskGraph

open Js

@[simp] theorem Exec.write_store (e : Exec) (s : Store) : (Exec.write e s).store = s := rfl

section

variable (env : Env) (e : Exec) (type : EventType) (refs : EventRefs)

@[simp] theorem emit_run : (emit env e type refs).store.run = e.store.run := rfl

@[simp] theorem emit_graph : (emit env e type refs).store.graph = e.store.graph := rfl

@[simp] theorem emit_nodeStates : (emit env e type refs).store.nodeStates = e.store.nodeStates := rfl

@[simp] theorem emit_stateOf (id : NodeId) : (emit env e type refs).store.stateOf id = e.store.stateOf id := rfl

end

variable {env : Env} {e : Exec}

/-! ### Cancellation -/

structure Drained (s : Store) : Prop where
  settled : ∀ id, s.stateOf id ≠ some .planned ∧ s.stateOf id ≠ some .waiting
  bound : ∀ id row, s.nodeStates.get id = some row → row.state = .running → row.taskRunId ≠ none
  running : ∃ id, s.stateOf id = some .running

def Cancelling (s : Store) : Prop := s.run.state = .cancelled ∨ (s.run.cancelRequested = true ∧ Drained s)

theorem finishCancelled_evolves : Evolves e (finishCancelled env e) := by
  unfold finishCancelled
  split
  · exact .refl e
  · refine Evolves.emit env (Evolves.write (.refl e) (SafeStep.ofRun rfl rfl rfl ?_))
    intro h
    cases h

theorem finishCancelled_state : (finishCancelled env e).store.run.state = .cancelled := by
  unfold finishCancelled
  split
  · rename_i h
    exact h
  · rfl

@[simp] theorem finishCancelled_nodeStates : (finishCancelled env e).store.nodeStates = e.store.nodeStates := by
  unfold finishCancelled
  split <;> rfl

theorem convergeCancellation_evolves : Evolves e (convergeCancellation env e) := by
  unfold convergeCancellation
  split
  · exact .refl e
  · split
    · exact .refl e
    · exact finishCancelled_evolves

@[simp] theorem convergeCancellation_nodeStates :
    (convergeCancellation env e).store.nodeStates = e.store.nodeStates := by
  unfold convergeCancellation
  split
  · rfl
  · split
    · rfl
    · exact finishCancelled_nodeStates

theorem convergeCancellation_cancelling (hflag : e.store.run.cancelRequested = true)
    (hsettled : ∀ id, e.store.stateOf id ≠ some .planned ∧ e.store.stateOf id ≠ some .waiting)
    (hbound : ∀ id row, e.store.nodeStates.get id = some row → row.state = .running → row.taskRunId ≠ none) :
    Cancelling (convergeCancellation env e).store := by
  unfold convergeCancellation
  rw [if_neg (by rw [hflag]; simp)]
  split
  · rename_i hrunning
    obtain ⟨id, row, hget, hrow⟩ := Store.someNode_eq_true.mp hrunning
    have hstate : e.store.stateOf id = some .running := by
      rw [Store.stateOf_of_get hget, of_decide_eq_true hrow]
    exact Or.inr ⟨hflag, hsettled, hbound, id, hstate⟩
  · exact Or.inl finishCancelled_state

/-- The row of a node after `beginCancellation`. -/
def cancelledRow (at_ : Time) (row : NodeState) : NodeState :=
  if row.state = .planned ∨ row.state = .waiting then ⟨.cancelled, none, none, none, at_⟩
  else if row.state = .running ∧ row.taskRunId = none then ⟨.interrupted, none, none, none, at_⟩
  else row

variable {nodeId : NodeId}

theorem cancelNode_spec (env : Env) (at_ : Time) {snapshot : OMap NodeId NodeState}
    (hget : e.store.nodeStates.get nodeId = snapshot.get nodeId) :
    Evolves e (cancelNode env at_ snapshot e nodeId) ∧
      (cancelNode env at_ snapshot e nodeId).store.run = e.store.run ∧
      ∀ id, (cancelNode env at_ snapshot e nodeId).store.nodeStates.get id =
        if nodeId = id then (e.store.nodeStates.get id).map (cancelledRow at_) else e.store.nodeStates.get id := by
  unfold cancelNode
  cases hrow : snapshot.get nodeId <;> rw [hrow] at hget
  case none =>
    refine ⟨.refl e, rfl, fun id => ?_⟩
    by_cases heq : nodeId = id
    · subst heq
      rw [if_pos rfl, hget]
      rfl
    · rw [if_neg heq]
  case some row =>
    -- a row that is kept reads the same after the map
    have hkept : cancelledRow at_ row = row → ∀ id, e.store.nodeStates.get id =
        if nodeId = id then (e.store.nodeStates.get id).map (cancelledRow at_) else e.store.nodeStates.get id := by
      intro hsame id
      split
      · rename_i heq
        subst heq
        rw [hget, Option.map_some, hsame]
      · rfl
    have hput : ∀ id, (e.store.putNodeState nodeId (cancelledRow at_ row)).nodeStates.get id =
        if nodeId = id then (e.store.nodeStates.get id).map (cancelledRow at_) else e.store.nodeStates.get id := by
      intro id
      unfold Store.putNodeState
      rw [OMap.get_set]
      split
      · rename_i heq
        subst heq
        rw [hget]
        rfl
      · rfl
    simp only
    split
    · rename_i hstate
      have hcancelled : cancelledRow at_ row = ⟨.cancelled, none, none, none, at_⟩ := if_pos hstate
      refine ⟨((Evolves.refl e).write (SafeStep.ofNode hget (by simp) ?_ ?_ ?_)).emit env, rfl, ?_⟩
      · intro hdone
        rw [hdone] at hstate
        rcases hstate with h | h <;> cases h
      · intro _ hto
        rcases hto with hto | hto <;> cases hto
      · exact nofun
      · rw [emit_nodeStates, Exec.write_store, ← hcancelled]
        exact hput
    · rename_i hstate
      split
      · rename_i hrunning
        split
        · rename_i taskRunId hbound
          refine ⟨.single .cancelTask, rfl, hkept ?_⟩
          unfold cancelledRow
          rw [if_neg hstate, if_neg (by rw [hbound]; simp)]
        rename_i hunbound
        have hinterrupted : cancelledRow at_ row = ⟨.interrupted, none, none, none, at_⟩ := by
          unfold cancelledRow
          rw [if_neg hstate, if_pos ⟨hrunning, hunbound⟩]
        refine ⟨((Evolves.refl e).write (SafeStep.ofNode hget (by simp) ?_ ?_ ?_)).emit env, rfl, ?_⟩
        · intro hdone
          rw [hrunning] at hdone
          cases hdone
        · intro hplanned
          rw [hrunning] at hplanned
          cases hplanned
        · intro _
          rw [hrunning]
          exact Or.inl rfl
        · rw [emit_nodeStates, Exec.write_store, ← hinterrupted]
          exact hput
      · rename_i hrunning
        refine ⟨.refl e, rfl, hkept ?_⟩
        unfold cancelledRow
        rw [if_neg hstate, if_neg fun h => hrunning h.1]

private theorem foldl_cancelNode (env : Env) (at_ : Time) {snapshot : OMap NodeId NodeState} (ids : List NodeId)
    (hnodup : ids.Nodup) (e : Exec) (hget : ∀ id ∈ ids, e.store.nodeStates.get id = snapshot.get id) :
    Evolves e (ids.foldl (cancelNode env at_ snapshot) e) ∧
      (ids.foldl (cancelNode env at_ snapshot) e).store.run = e.store.run ∧
      ∀ id, (ids.foldl (cancelNode env at_ snapshot) e).store.nodeStates.get id =
        if id ∈ ids then (e.store.nodeStates.get id).map (cancelledRow at_) else e.store.nodeStates.get id := by
  induction ids generalizing e with
  | nil => exact ⟨.refl e, rfl, fun id => by simp⟩
  | cons nodeId ids ih =>
    rw [List.nodup_cons] at hnodup
    obtain ⟨hevolves, hrun, hrow⟩ := cancelNode_spec env at_ (hget nodeId (List.mem_cons_self ..))
    obtain ⟨hevolves', hrun', hrow'⟩ := ih hnodup.2 (cancelNode env at_ snapshot e nodeId) (by
      intro id hid
      have hne : nodeId ≠ id := by
        rintro rfl
        exact hnodup.1 hid
      rw [hrow, if_neg hne]
      exact hget id (List.mem_cons_of_mem _ hid))
    refine ⟨hevolves.trans hevolves', hrun'.trans hrun, fun id => ?_⟩
    rw [List.foldl_cons, hrow', hrow]
    by_cases heq : nodeId = id
    · subst heq
      rw [if_neg hnodup.1, if_pos rfl, if_pos (List.mem_cons_self ..)]
    have hiff : id ∈ nodeId :: ids ↔ id ∈ ids := by
      rw [List.mem_cons]
      exact or_iff_right fun h => heq h.symm
    simp only [hiff, if_neg heq]

theorem cancelledRow_state (at_ : Time) (row : NodeState) : (cancelledRow at_ row).state ≠ .planned ∧
    (cancelledRow at_ row).state ≠ .waiting ∧
    ((cancelledRow at_ row).state = .running → (cancelledRow at_ row).taskRunId ≠ none) := by
  unfold cancelledRow
  split
  · simp
  rename_i h
  rw [not_or] at h
  split
  · simp
  · rename_i h'
    exact ⟨h.1, h.2, fun hrunning hnone => h' ⟨hrunning, hnone⟩⟩

theorem beginCancellation_spec (env : Env) (hnodup : e.store.nodeStates.keys.Nodup) :
    Evolves e (beginCancellation env e) ∧ Cancelling (beginCancellation env e).store ∧
    ∀ id, (beginCancellation env e).store.nodeStates.get id =
    (e.store.nodeStates.get id).map (cancelledRow (clock env e)) := by
  unfold beginCancellation
  simp only
  generalize hreq : Exec.write e (e.store.updateRun fun run => { run with cancelRequested := true }) = requested
  have hflag : requested.store.run.cancelRequested = true := by
    subst hreq
    rfl
  have hnodes : requested.store.nodeStates = e.store.nodeStates := by
    subst hreq
    rfl
  have hrequested : Evolves e requested := by
    subst hreq
    exact (Evolves.refl e).write (SafeStep.ofRun rfl rfl rfl Or.inl)
  obtain ⟨hevolves, hrun, hrow⟩ := foldl_cancelNode env (clock env e)
    (sortStrings requested.store.nodeStates.keys) (nodup_sortStrings (hnodes ▸ hnodup)) requested fun _ _ => rfl
  generalize (sortStrings requested.store.nodeStates.keys).foldl
    (cancelNode env (clock env e) requested.store.nodeStates) requested = cancelled at hevolves hrun hrow
  have hall : ∀ id, cancelled.store.nodeStates.get id =
      (e.store.nodeStates.get id).map (cancelledRow (clock env e)) := by
    intro id
    rw [hrow, hnodes]
    split
    · rfl
    rename_i hid
    rw [mem_sortStrings, ← OMap.get_eq_none_iff] at hid
    rw [hid]
    rfl
  refine ⟨(hrequested.trans hevolves).trans convergeCancellation_evolves, ?_, fun id => ?_⟩
  · refine convergeCancellation_cancelling (by rw [hrun]; exact hflag) (fun id => ?_) fun id row hget hrunning => ?_
    · unfold Store.stateOf
      rw [hall, Option.map_map]
      cases e.store.nodeStates.get id with
      | none => simp
      | some row =>
        have := cancelledRow_state (clock env e) row
        simp only [Option.map_some, Function.comp_apply, ne_eq, Option.some.injEq]
        exact ⟨this.1, this.2.1⟩
    · rw [hall, Option.map_eq_some_iff] at hget
      obtain ⟨old, -, rfl⟩ := hget
      exact (cancelledRow_state _ old).2.2 hrunning
  · rw [convergeCancellation_nodeStates]
    exact hall id

variable {row : NodeState}

theorem cancelledRow_of_failed {at_ : Time} (h : row.state = .failed) : cancelledRow at_ row = row := by
  unfold cancelledRow
  rw [if_neg (by rw [h]; simp), if_neg (by rw [h]; simp)]

theorem cancelledRow_of_open {at_ : Time} (h : row.state = .running ∨ row.state = .interrupted) :
    (cancelledRow at_ row).state = .running ∨ (cancelledRow at_ row).state = .interrupted := by
  unfold cancelledRow
  rw [if_neg (by rcases h with h | h <;> rw [h] <;> simp)]
  split
  · exact Or.inr rfl
  · exact h

/-- The outcome of `failNode`. -/
structure FailedNode (e e' : Exec) (nodeId : NodeId) : Prop where
  evolves : Evolves e e'
  failed : e'.store.stateOf nodeId = some .failed
  cancel : e.store.run.onNodeFailure = .cancel → Cancelling e'.store
  pause : e.store.run.onNodeFailure = .pause →
    e'.store.run.state = .paused ∧ e'.store.run.cancelRequested = e.store.run.cancelRequested
  kept : ∀ id, e.store.stateOf id = some .failed → e'.store.stateOf id = some .failed
  unsettled : ∀ id, id ≠ nodeId → e.store.stateOf id = some .running ∨ e.store.stateOf id = some .interrupted →
    e'.store.stateOf id = some .running ∨ e'.store.stateOf id = some .interrupted

theorem failNode_spec (env : Env) {old : NodeState} (error : ExecutionError)
    (taskRunId : Option TaskRunId) (kind : FailureCauseKind) (hwf : Wf e.store)
    (hget : e.store.nodeStates.get nodeId = some old) (hdone : old.state ≠ .done)
    (hbegun : old.state.begun = true ∨ Started e.store) :
    FailedNode e (failNode env e nodeId error taskRunId kind) nodeId := by
  have hsafe : SafeStep e.store (e.store.putNodeState nodeId (Store.failedRow error taskRunId (clock env e))) := by
    refine SafeStep.ofNode hget (by simp [Store.failedRow]) (fun h => absurd h hdone) ?_ fun _ => hbegun
    intro _ hto
    rcases hto with hto | hto <;> cases hto
  have hstate : ∀ id, (e.store.putNodeState nodeId (Store.failedRow error taskRunId (clock env e))).stateOf id =
      if nodeId = id then some .failed else e.store.stateOf id := Store.stateOf_putNodeState _ _ _
  unfold failNode
  split
  · rename_i hpolicy
    generalize hfailed : Exec.write e (e.store.failNodeForCancellation nodeId error taskRunId kind
      (env.eventId e.log.length) (clock env e)) = failed
    have hfailedState : ∀ id, failed.store.stateOf id = if nodeId = id then some .failed else e.store.stateOf id := by
      subst hfailed
      exact hstate
    have hevolves : Evolves e failed := by
      subst hfailed
      exact Evolves.write (.refl e) (hsafe.congr rfl rfl rfl rfl)
    obtain ⟨hevolves', hcancelling, hrow⟩ := beginCancellation_spec env (hevolves.wf hwf).nodup
    have hkept : ∀ id, failed.store.stateOf id = some .failed →
        (beginCancellation env failed).store.stateOf id = some .failed := by
      intro id hid
      obtain ⟨row, hrow', hrowState⟩ := Store.exists_get_of_stateOf hid
      unfold Store.stateOf
      rw [hrow, hrow', Option.map_some, Option.map_some, cancelledRow_of_failed hrowState, hrowState]
    refine ⟨hevolves.trans hevolves', hkept nodeId (by rw [hfailedState, if_pos rfl]),
      fun _ => hcancelling, ?_, ?_, ?_⟩
    · intro hpause
      rw [hpause] at hpolicy
      cases hpolicy
    · intro id hid
      refine hkept id ?_
      rw [hfailedState, hid]
      split <;> rfl
    · intro id hne hopen
      have hopen' : failed.store.stateOf id = some .running ∨ failed.store.stateOf id = some .interrupted := by
        rw [hfailedState, if_neg (Ne.symm hne)]
        exact hopen
      unfold Store.stateOf at hopen' ⊢
      rw [hrow]
      cases hid : failed.store.nodeStates.get id with
      | none =>
        rw [hid] at hopen'
        rcases hopen' with h | h <;> cases h
      | some row =>
        rw [hid] at hopen'
        simp only [Option.map_some, Option.some.injEq] at hopen' ⊢
        exact cancelledRow_of_open hopen'
  · rename_i hpolicy
    generalize hfailed : emit env (Exec.write e (e.store.putNodeState nodeId
      (Store.failedRow error taskRunId (clock env e)))) .nodeFailed (nodeRefs nodeId taskRunId) = failed
    have hfailedState : ∀ id, failed.store.stateOf id = if nodeId = id then some .failed else e.store.stateOf id := by
      subst hfailed
      exact hstate
    have hrun : failed.store.run = e.store.run := by
      subst hfailed
      rfl
    have hevolves : Evolves e failed := by
      subst hfailed
      exact Evolves.emit env (Evolves.write (.refl e) hsafe)
    have hnode : failed.store.stateOf nodeId = some .failed := by
      rw [hfailedState, if_pos rfl]
    have hkept : ∀ id, e.store.stateOf id = some .failed → failed.store.stateOf id = some .failed := by
      intro id hid
      rw [hfailedState, hid]
      split <;> rfl
    have hopen : ∀ id, id ≠ nodeId → e.store.stateOf id = some .running ∨ e.store.stateOf id = some .interrupted →
        failed.store.stateOf id = some .running ∨ failed.store.stateOf id = some .interrupted := by
      intro id hne hopen
      rw [hfailedState, if_neg (Ne.symm hne)]
      exact hopen
    split
    · rename_i hpaused
      refine ⟨hevolves, hnode, fun h => absurd h hpolicy, fun _ => ?_, hkept, hopen⟩
      rw [hrun]
      exact ⟨hpaused, rfl⟩
    refine ⟨?_, hnode, fun h => absurd h hpolicy, fun _ => ⟨rfl, ?_⟩, hkept, hopen⟩
    · refine Evolves.emit env (Evolves.write hevolves (SafeStep.ofRun rfl rfl rfl fun _ => Or.inr ?_))
      exact (hevolves.wf hwf).node nodeId .failed hnode rfl
    · show failed.store.run.cancelRequested = e.store.run.cancelRequested
      rw [hrun]

/-! ### Activation -/

/-- Cancellation is not asked for, or is under way as `beginCancellation` leaves it. -/
def Orderly (s : Store) : Prop := s.run.cancelRequested = false ∨ Cancelling s

theorem FailedNode.orderly {e' : Exec} (h : FailedNode e e' nodeId)
    (hflag : e.store.run.cancelRequested = false) : Orderly e'.store := by
  cases hpolicy : e.store.run.onNodeFailure with
  | cancel => exact Or.inr (h.cancel hpolicy)
  | pause => exact Or.inl ((h.pause hpolicy).2.trans hflag)

theorem schedulable_iff {s : Store} :
    schedulable s = true ↔ s.run.state = .running ∧ s.run.cancelRequested = false := by
  unfold schedulable
  simp

@[simp] theorem pending_activate (log : List Effect) (nodeId : NodeId) (s : Store) :
    pending (log ++ [.activate nodeId s]) = some nodeId := by
  simp [pending]

@[simp] theorem pending_write (log : List Effect) (s : Store) : pending (log ++ [.write s]) = pending log := by
  simp [pending]

structure AtWork (e : Exec) (nodeId : NodeId) : Prop where
  wf : Wf e.store
  schedulable : schedulable e.store = true
  running : e.store.stateOf nodeId = some .running
  pending : pending e.log = some nodeId

namespace AtWork

variable {nodeId : NodeId}

theorem fail (h : AtWork e nodeId) (env : Env) (error : ExecutionError) :
    Evolves e (failNode env e nodeId error none .nodeFailed) ∧
    Orderly (failNode env e nodeId error none .nodeFailed).store := by
  obtain ⟨row, hget, hrow⟩ := Store.exists_get_of_stateOf h.running
  have hfailed := failNode_spec env error none .nodeFailed h.wf hget (by rw [hrow]; simp)
    (Or.inl (by rw [hrow]; rfl))
  exact ⟨hfailed.evolves, hfailed.orderly (schedulable_iff.mp h.schedulable).2⟩

theorem put (h : AtWork e nodeId) (hplanned : row.state ≠ .planned) :
    SafeStep e.store (e.store.putNodeState nodeId row) := by
  obtain ⟨old, hget, hold⟩ := Store.exists_get_of_stateOf h.running
  refine SafeStep.ofNode hget hplanned ?_ ?_ fun _ => Or.inl (by rw [hold]; rfl)
  · intro hdone
    rw [hold] at hdone
    cases hdone
  · intro hfrom
    rw [hold] at hfrom
    cases hfrom

end AtWork

variable {node : Node}

theorem completeControlNode_spec (h : AtWork e node.id) (env : Env) (output : JsonObject) :
    Evolves e (completeControlNode env node output e) ∧ Orderly (completeControlNode env node output e).store := by
  unfold completeControlNode
  split
  · exact h.fail env _
  · refine ⟨Evolves.emit env (Evolves.write (.refl e) (h.put (by simp))), Or.inl ?_⟩
    exact (schedulable_iff.mp h.schedulable).2

theorem startTask_spec {request : TaskRequest} (h : AtWork e request.nodeId) (env : Env) :
    Evolves e (startTask env request e) ∧ Orderly (startTask env request e).store := by
  have hcalled : Evolves e (Exec.push e (.startTask request)) :=
    Logged.Evolves.single (.startTask h.pending h.running h.schedulable)
  have hflag := (schedulable_iff.mp h.schedulable).2
  unfold startTask
  simp only
  split
  · exact ⟨hcalled.write (h.put (by simp)), Or.inl hflag⟩
  split
  · split
    · exact ⟨hcalled.write (h.put (by simp)), Or.inl hflag⟩
    · exact ⟨hcalled, Or.inl hflag⟩
  · exact ⟨hcalled, Or.inl hflag⟩

/-- An action was performed, or it threw before anything was written. -/
def Performed (e : Exec) : Except Exec Exec → Prop
  | .ok e' => Evolves e e' ∧ Orderly e'.store
  | .error e' => e' = e

theorem dispatchTask_spec (h : AtWork e node.id) (env : Env) (inputs : JsonObject) :
    Performed e (dispatchTask env node inputs e) := by
  unfold dispatchTask
  split
  · exact h.fail env _
  · split
    · dsimp only
      split
      · exact startTask_spec h env
      · split
        · rfl
        · exact startTask_spec h env
        · exact h.fail env _
    · exact h.fail env _
  · exact h.fail env _

theorem performAction_spec (h : AtWork e node.id) (env : Env) (inputs : JsonObject) :
    Performed e (performAction env node inputs e) := by
  unfold performAction
  split
  · split
    · rfl
    · exact completeControlNode_spec h env _
  · split
    · exact h.fail env _
    · exact completeControlNode_spec h env _
  · split
    · exact h.fail env _
    · exact completeControlNode_spec h env _
  · exact completeControlNode_spec h env _
  · exact dispatchTask_spec h env inputs
  · exact h.fail env _

def Activated (e : Exec) (nodeId : NodeId) : Except Exec Exec → Prop
  | .ok e' => Evolves e e' ∧ Orderly e'.store ∧ e'.store.stateOf nodeId ≠ some .planned
  | .error e' => Evolves e e' ∧ Orderly e'.store ∧ e'.store.stateOf nodeId = some .running

theorem activateNode_spec (env : Env) (hwf : Wf e.store) (hschedulable : schedulable e.store = true)
    (hnode : e.store.graph.nodes.get node.id = some node) (hget : e.store.nodeStates.get node.id = some row)
    (hplanned : row.state = .planned) (hsatisfied : dependencyStatus e.store node = .satisfied) :
    Activated e node.id (activateNode env node e) := by
  have hrun := schedulable_iff.mp hschedulable
  have hstarted : Started e.store := hwf.run (by rw [hrun.1]; rfl)
  have hfail : ∀ error, Evolves e (failNode env e node.id error none .nodeFailed) ∧
      Orderly (failNode env e node.id error none .nodeFailed).store ∧
      (failNode env e node.id error none .nodeFailed).store.stateOf node.id ≠ some .planned := by
    intro error
    have hfailed := failNode_spec env error none .nodeFailed hwf hget (by rw [hplanned]; simp) (Or.inr hstarted)
    refine ⟨hfailed.evolves, hfailed.orderly hrun.2, ?_⟩
    rw [hfailed.failed]
    simp
  have hput : ∀ row' : NodeState, row'.state ≠ .planned →
      SafeStep e.store (e.store.putNodeState node.id row') := by
    intro row' hne
    refine SafeStep.ofNode hget hne ?_ ?_ fun _ => Or.inr hstarted
    · intro hdone
      rw [hplanned] at hdone
      cases hdone
    · intro _ _ node' hnode'
      rw [hnode] at hnode'
      cases hnode'
      exact hsatisfied
  unfold activateNode
  cases env.resolveNodeInputs e.store.graph node e.store.nodeStates with
  | error error => exact hfail error
  | ok inputs =>
    simp only
    split
    · exact hfail _
    split
    · refine ⟨Evolves.emit env (Evolves.write (.refl e) (hput _ (by simp))), Or.inl hrun.2, ?_⟩
      rw [emit_stateOf, Exec.write_store, Store.stateOf_putNodeState, if_pos rfl]
      simp
    generalize hactivated : emit env (Exec.push e (.activate node.id (e.store.putNodeState node.id
      ⟨.running, none, none, none, clock env e⟩))) .nodeStarted (nodeRefs node.id none) = activated
    have hevolves : Evolves e activated := by
      subst hactivated
      refine Evolves.emit env (Logged.Evolves.single (.activate (hput _ (by simp)) hschedulable ?_))
      rw [Store.stateOf_of_get hget, hplanned]
    have hwork : AtWork activated node.id := by
      refine ⟨hevolves.wf hwf, ?_, ?_, ?_⟩ <;> subst hactivated
      · exact hschedulable
      · show (e.store.putNodeState node.id _).stateOf node.id = _
        rw [Store.stateOf_putNodeState, if_pos rfl]
      · show pending ((e.log ++ [_]) ++ [_]) = _
        rw [pending_write, pending_activate]
    have hperform := performAction_spec hwork env inputs
    cases hresult : performAction env node inputs activated <;> rw [hresult] at hperform
    case ok e' =>
      refine ⟨hevolves.trans hperform.1, hperform.2, fun hp => ?_⟩
      have := hperform.1.frame.planned node.id hp
      rw [hwork.running] at this
      cases this
    case error e' =>
      cases hperform
      exact ⟨hevolves, Or.inl (schedulable_iff.mp hwork.schedulable).2, hwork.running⟩

end Wrenyard.TaskGraph
