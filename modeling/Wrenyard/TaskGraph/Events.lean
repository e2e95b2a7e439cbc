import Wrenyard.TaskGraph.Scheduling

/-!
# Events other than patches

For each event: its handler returns, its effects are moves, and it leaves a run that makes progress (`Progressing`)
and whose cancellation, once asked for, waits for task runs only (`Settling`).  Recovery starts from any store a crash
may leave; it keeps the second law only if it does not have to fail a node of a pause-policy run whose cancellation
was asked for.
-/

namespace Wrenyard.TaskGraph

open Js List

variable {env : Env} {e : Exec} {s : Store}

def Settling (s : Store) : Prop := s.run.cancelRequested = true → s.run.state.finished = false → Drained s

theorem Cancelling.settling (h : Cancelling s) : Settling s := by
  intro _ hfinished
  rcases h with hcancelled | ⟨-, hdrained⟩
  · rw [hcancelled] at hfinished
    cases hfinished
  · exact hdrained

theorem Orderly.settling (h : Orderly s) : Settling s := by
  rcases h with hflag | hcancelling
  · intro hflag'
    rw [hflag] at hflag'
    cases hflag'
  · exact hcancelling.settling

theorem Cancelling.progressing (h : Cancelling s) : Progressing s := by
  intro hs
  obtain ⟨hrunning, hflag⟩ := schedulable_iff.mp hs
  rcases h with hcancelled | ⟨hflag', -⟩
  · rw [hcancelled] at hrunning
    cases hrunning
  · rw [hflag] at hflag'
    cases hflag'

variable {nodeId : NodeId}

theorem FailedNode.progressing {e' : Exec} (h : FailedNode e e' nodeId) : Progressing e'.store := by
  cases hpolicy : e.store.run.onNodeFailure with
  | cancel => exact (h.cancel hpolicy).progressing
  | pause =>
    intro hs
    have := (schedulable_iff.mp hs).1
    rw [(h.pause hpolicy).1] at this
    cases this

private theorem progressing_of_state (h : s.run.state ≠ .running) : Progressing s :=
  fun hs => absurd (schedulable_iff.mp hs).1 h

/-! ### Recovery -/

def recoveryFails (env : Env) (entry : NodeId × NodeState) : Bool :=
  decide (entry.2.state = .running) &&
    match entry.2.taskRunId with
    | none => true
    | some taskRunId => !(env.reattach taskRunId).isOk

structure Recovering (e : Exec) (acc : Exec × Bool) : Prop where
  evolves : Evolves e acc.1
  unchanged : acc.2 = false → acc.1 = e
  cancel : acc.2 = true → e.store.run.onNodeFailure = .cancel → Cancelling acc.1.store
  pause : e.store.run.onNodeFailure = .pause →
    (acc.2 = true → acc.1.store.run.state = .paused) ∧ acc.1.store.run.cancelRequested = e.store.run.cancelRequested

variable {acc : Exec × Bool}

theorem recoverNode_of_not_fails {entry : NodeId × NodeState}
    (h : recoveryFails env entry = false) : recoverNode env acc entry = acc := by
  unfold recoverNode
  split
  · rfl
  rename_i hrunning
  rw [not_not] at hrunning
  unfold recoveryFails at h
  rw [hrunning, decide_eq_true rfl, Bool.true_and] at h
  split
  · rename_i hnone
    rw [hnone] at h
    cases h
  rename_i taskRunId hsome
  rw [hsome] at h
  simp only at h
  cases hreattach : env.reattach taskRunId with
  | ok _ => rfl
  | error message =>
    rw [hreattach] at h
    cases h

theorem recoverNode_of_fails {entry : NodeId × NodeState} (h : recoveryFails env entry = true) :
    ∃ error taskRunId, recoverNode env acc entry =
    (failNode env acc.1 entry.1 error taskRunId .recoveryFailed, true) := by
  unfold recoveryFails at h
  rw [Bool.and_eq_true] at h
  unfold recoverNode
  rw [if_neg (not_not.mpr (of_decide_eq_true h.1))]
  split
  · exact ⟨_, _, rfl⟩
  rename_i taskRunId hsome
  have h2 := h.2
  rw [hsome] at h2
  simp only at h2
  cases hreattach : env.reattach taskRunId with
  | ok _ =>
    rw [hreattach] at h2
    cases h2
  | error message => exact ⟨_, _, rfl⟩

private theorem recovering_fail (env : Env) (error : ExecutionError)
    (taskRunId : Option TaskRunId) (hwf : Wf e.store) (hacc : Recovering e acc)
    (hopen : acc.1.store.stateOf nodeId = some .running ∨ acc.1.store.stateOf nodeId = some .interrupted) :
    Recovering e (failNode env acc.1 nodeId error taskRunId .recoveryFailed, true) ∧
    FailedNode acc.1 (failNode env acc.1 nodeId error taskRunId .recoveryFailed) nodeId := by
  have hwf' := hacc.evolves.wf hwf
  obtain ⟨row, hget, hrow⟩ : ∃ row, acc.1.store.nodeStates.get nodeId = some row ∧
      (row.state = .running ∨ row.state = .interrupted) := by
    rcases hopen with hopen | hopen
    · obtain ⟨row, hget, hrow⟩ := Store.exists_get_of_stateOf hopen
      exact ⟨row, hget, Or.inl hrow⟩
    · obtain ⟨row, hget, hrow⟩ := Store.exists_get_of_stateOf hopen
      exact ⟨row, hget, Or.inr hrow⟩
  have hfailed : FailedNode acc.1 (failNode env acc.1 nodeId error taskRunId .recoveryFailed) nodeId := by
    refine failNode_spec env error taskRunId .recoveryFailed hwf' hget ?_ (Or.inl ?_)
    · rcases hrow with hrow | hrow <;> rw [hrow] <;> simp
    · rcases hrow with hrow | hrow <;> rw [hrow] <;> rfl
  have hpolicy := hacc.evolves.frame.policy
  refine ⟨⟨hacc.evolves.trans hfailed.evolves, (by rintro ⟨⟩), fun _ hcancel => ?_, fun hpause => ?_⟩, hfailed⟩
  · exact hfailed.cancel (hpolicy.trans hcancel)
  · obtain ⟨hstate, hflag⟩ := hfailed.pause (hpolicy.trans hpause)
    exact ⟨fun _ => hstate, hflag.trans (hacc.pause hpause).2⟩

private theorem foldl_recoverNode (env : Env) (entries : List (NodeId × NodeState))
    (hnodup : (entries.map Prod.fst).Nodup)
    (acc : Exec × Bool) (hwf : Wf e.store) (hacc : Recovering e acc)
    (hopen : ∀ entry ∈ entries, entry.2.state = .running →
      acc.1.store.stateOf entry.1 = some .running ∨ acc.1.store.stateOf entry.1 = some .interrupted) :
    Recovering e (entries.foldl (recoverNode env) acc) ∧
      ((entries.foldl (recoverNode env) acc).2 = true → acc.2 = true ∨ entries.any (recoveryFails env) = true) ∧
      (∀ id, acc.1.store.stateOf id = some .failed →
        (entries.foldl (recoverNode env) acc).1.store.stateOf id = some .failed) ∧
      ∀ entry ∈ entries, recoveryFails env entry = true →
        (entries.foldl (recoverNode env) acc).1.store.stateOf entry.1 = some .failed := by
  induction entries generalizing acc with
  | nil => exact ⟨hacc, Or.inl, fun _ => id, by simp⟩
  | cons entry entries ih =>
    rw [map_cons, nodup_cons] at hnodup
    cases hfails : recoveryFails env entry with
    | false =>
      have hsame := @recoverNode_of_not_fails env acc entry hfails
      obtain ⟨hrec, hflag, hkept, hall⟩ := ih hnodup.2 acc hacc fun entry' hentry' =>
        hopen entry' (mem_cons_of_mem _ hentry')
      rw [foldl_cons, hsame]
      refine ⟨hrec, fun h => (hflag h).imp_right fun h' => ?_, hkept, fun entry' hentry' hf => ?_⟩
      · rw [any_cons, h', Bool.or_true]
      · rcases mem_cons.mp hentry' with rfl | hentry'
        · rw [hfails] at hf
          cases hf
        · exact hall entry' hentry' hf
    | true =>
      obtain ⟨error, taskRunId, hstep⟩ := @recoverNode_of_fails env acc entry hfails
      have hrunning : entry.2.state = .running := by
        unfold recoveryFails at hfails
        rw [Bool.and_eq_true] at hfails
        exact of_decide_eq_true hfails.1
      obtain ⟨hrec, hfailed⟩ := recovering_fail env error taskRunId hwf hacc
        (hopen entry (mem_cons_self ..) hrunning)
      obtain ⟨hrec', -, hkept, hall⟩ := ih hnodup.2 _ hrec fun entry' hentry' hrunning' =>
        hfailed.unsettled entry'.1 (fun heq => hnodup.1 (heq ▸ mem_map_of_mem hentry'))
          (hopen entry' (mem_cons_of_mem _ hentry') hrunning')
      rw [foldl_cons, hstep]
      refine ⟨hrec', fun _ => Or.inr ?_, fun id hid => hkept id (hfailed.kept id hid), fun entry' hentry' hf => ?_⟩
      · rw [any_cons, hfails, Bool.true_or]
      · rcases mem_cons.mp hentry' with rfl | hentry'
        · exact hkept _ hfailed.failed
        · exact hall entry' hentry' hf

theorem repair_evolves : Evolves ⟨s, []⟩ (repair s) := by
  unfold repair
  split
  · rename_i s' hrepair
    refine Evolves.write (.refl _) ?_
    unfold Store.repairCancelPolicyFailure at hrepair
    split at hrepair
    · cases hrepair
    split at hrepair
    · cases hrepair
    · obtain ⟨failure, -, rfl⟩ := Option.map_eq_some_iff.mp hrepair
      exact SafeStep.ofRun rfl rfl rfl Or.inl
  · exact .refl _

theorem repair_nodeStates : (repair s).store.nodeStates = s.nodeStates := by
  unfold repair
  split
  · rename_i s' hrepair
    unfold Store.repairCancelPolicyFailure at hrepair
    split at hrepair
    · cases hrepair
    split at hrepair
    · cases hrepair
    · obtain ⟨failure, -, rfl⟩ := Option.map_eq_some_iff.mp hrepair
      rfl
  · rfl

theorem repair_of_pause (h : s.run.onNodeFailure = .pause) : repair s = ⟨s, []⟩ := by
  unfold repair Store.repairCancelPolicyFailure
  rw [if_pos (by rw [h]; simp)]

/-- Recovery ends, and leaves a run that makes progress; it fails the nodes that run without a task run. -/
theorem handleRecover_spec (env : Env) (hwf : Wf s) :
    ∃ e, handleRecover env s = some e ∧ Evolves ⟨s, []⟩ e ∧ Progressing e.store ∧
      (∀ id row, s.nodeStates.get id = some row → recoveryFails env (id, row) = true →
        e.store.stateOf id = some .failed) ∧
      ((s.run.onNodeFailure = .pause → s.run.cancelRequested = true →
        s.projected.any (recoveryFails env) = false) → Settling e.store) := by
  have hrepair := @repair_evolves s
  have hwf' := hrepair.wf hwf
  have hpolicy := hrepair.frame.policy
  have hstate : ∀ id, (repair s).store.stateOf id = s.stateOf id := by
    intro id
    unfold Store.stateOf
    rw [repair_nodeStates]
  have hacc : Recovering (repair s) (repair s, false) :=
    ⟨.refl _, fun _ => rfl, (by rintro ⟨⟩), fun _ => ⟨(by rintro ⟨⟩), rfl⟩⟩
  obtain ⟨hrec, hflag, -, hall⟩ := foldl_recoverNode env s.projected (Store.nodup_projected hwf.nodup) _ hwf' hacc (by
    intro entry hentry hrunning
    left
    rw [hstate, Store.stateOf_of_get (Store.mem_projected.mp hentry), hrunning])
  unfold handleRecover
  simp only
  generalize s.projected.foldl (recoverNode env) (repair s, false) = acc at hrec hflag hall
  have hall' : ∀ id row, s.nodeStates.get id = some row → recoveryFails env (id, row) = true →
      acc.1.store.stateOf id = some .failed :=
    fun id row hget hf => hall (id, row) (Store.mem_projected.mpr hget) hf
  cases hfailed : acc.2 with
  | true =>
    refine ⟨acc.1, rfl, hrepair.trans hrec.evolves, ?_, hall', fun hclean => ?_⟩
    · cases hp : s.run.onNodeFailure with
      | cancel => exact (hrec.cancel hfailed (hpolicy.trans hp)).progressing
      | pause =>
        refine progressing_of_state ?_
        rw [(hrec.pause (hpolicy.trans hp)).1 hfailed]
        simp
    · cases hp : s.run.onNodeFailure with
      | cancel => exact (hrec.cancel hfailed (hpolicy.trans hp)).settling
      | pause =>
        have hany := (hflag hfailed).resolve_left (by simp)
        intro hrequested
        rw [(hrec.pause (hpolicy.trans hp)).2, repair_of_pause hp] at hrequested
        rw [hclean hp hrequested] at hany
        cases hany
  | false =>
    rw [if_neg (by simp)]
    have hsame := hrec.unchanged hfailed
    rw [hsame] at hall' ⊢
    -- nothing failed: no node was to be failed
    have hnone : ∀ id row, s.nodeStates.get id = some row → recoveryFails env (id, row) = true →
        ∀ e : Exec, e.store.stateOf id = some .failed := by
      intro id row hget hf
      have := hall' id row hget hf
      rw [hstate, Store.stateOf_of_get hget] at this
      unfold recoveryFails at hf
      rw [Bool.and_eq_true] at hf
      rw [of_decide_eq_true hf.1] at this
      cases this
    split
    · obtain ⟨hevolves, hcancelling, -⟩ := beginCancellation_spec (e := repair s) env hwf'.nodup
      exact ⟨_, rfl, hrepair.trans hevolves, hcancelling.progressing, fun id row hget hf => hnone id row hget hf _,
        fun _ => hcancelling.settling⟩
    rename_i hrequested
    have horderly : Orderly (repair s).store := Or.inl (by simpa using hrequested)
    split
    · obtain ⟨e, htick, hevolves, hprogress, hout⟩ := tick_spec (e := repair s) env hwf'
      refine ⟨e, htick, hrepair.trans hevolves, hprogress, fun id row hget hf => hnone id row hget hf _, fun _ => ?_⟩
      rcases hout with hout | rfl
      · exact hout.settling
      · exact horderly.settling
    · rename_i hnot
      exact ⟨_, rfl, hrepair, progressing_of_state hnot, fun id row hget hf => hnone id row hget hf _,
        fun _ => horderly.settling⟩

/-! ### Signals -/

/-- The outcome of an event other than recovery and patches. -/
structure Handled (s : Store) (e : Exec) : Prop where
  evolves : Evolves ⟨s, []⟩ e
  progressing : Progressing s → Progressing e.store
  settling : Settling s → Settling e.store

variable {s' : Store}

private theorem drained_of_same (hnodes : s'.nodeStates = s.nodeStates) (h : Drained s) : Drained s' := by
  have hstate : ∀ id, s'.stateOf id = s.stateOf id := by
    intro id
    unfold Store.stateOf
    rw [hnodes]
  obtain ⟨hsettled, hbound, id, hid⟩ := h
  exact ⟨fun id => by rw [hstate]; exact hsettled id, by rw [hnodes]; exact hbound, id, by rw [hstate]; exact hid⟩

theorem settling_of_same (hrun : s'.run = s.run) (hnodes : s'.nodeStates = s.nodeStates)
    (h : Settling s) : Settling s' := by
  intro hflag hfinished
  rw [hrun] at hflag hfinished
  exact drained_of_same hnodes (h hflag hfinished)

theorem progressing_of_same (hrun : s'.run = s.run) (hnodes : s'.nodeStates = s.nodeStates)
    (h : Progressing s) : Progressing s' := by
  intro hs
  rw [schedulable_iff, hrun, ← schedulable_iff] at hs
  obtain ⟨id, hid⟩ := h hs
  refine ⟨id, ?_⟩
  unfold Store.stateOf at hid ⊢
  rw [hnodes]
  exact hid

private theorem handled_of_tick (env : Env) (hevolves : Evolves ⟨s, []⟩ e) (hwf : Wf s)
    (hsettling : Settling s → Settling e.store) : ∃ e', tick env e = some e' ∧ Handled s e' := by
  obtain ⟨e', htick, hevolves', hprogress, hout⟩ := tick_spec env (hevolves.wf hwf)
  refine ⟨e', htick, hevolves.trans hevolves', fun _ => hprogress, fun hs => ?_⟩
  rcases hout with hout | rfl
  · exact hout.settling
  · exact hsettling hs

theorem startNode_spec {g : Graph} (hg : g.WellFormed) {entry : NodeId × Node} (h : startNode g = some entry) :
    g.nodes.get entry.1 = some entry.2 ∧ entry.2.action.type = .start ∧ entry.2.id = entry.1 := by
  have hget := OMap.get_of_mem hg.nodup (mem_of_find?_eq_some h)
  have htype := List.find?_some h
  exact ⟨hget, of_decide_eq_true htype, hg.ids _ _ hget⟩

theorem started_of_start {s : Store} (hg : s.graph.WellFormed) {id : NodeId} {node : Node}
    (hget : s.graph.nodes.get id = some node) (htype : node.action.type = .start)
    (hdone : s.stateOf id = some .done) :
    Started s := by
  intro id' node' hget' htype'
  obtain ⟨startId, -, -, -, honly⟩ := hg.start
  rw [honly id' node' hget' htype', ← honly id node hget htype]
  exact hdone

private theorem handleSignal_start (env : Env) {input : JsonObject} {entry : NodeId × Node} (hwf : Wf s)
    (hentry : startNode s.graph = some entry) :
    let received := emit env ⟨s, []⟩ .signalReceived runRefs
    let done := Exec.write received (received.store.putNodeState entry.2.id
      ⟨.done, none, some input, none, clock env received⟩)
    let running := Exec.write done (done.store.updateRun fun run =>
      { run with state := .running, cancelRequested := false })
    ∃ e, tick env (emit env running .started (nodeRefs entry.2.id none)) = some e ∧ Handled s e := by
  intro received done running
  obtain ⟨hget, htype, hid⟩ := startNode_spec hwf.graph hentry
  have hreceived : Evolves ⟨s, []⟩ received := Evolves.emit env (.refl _)
  have hmem : entry.2.id ∈ s.nodeStates.keys := by
    rw [hwf.keys, hid, ← OMap.has_eq_true_iff, OMap.has, hget]
    rfl
  obtain ⟨old, hold⟩ := Store.exists_stateOf_of_mem_keys hmem
  have hdone : Evolves ⟨s, []⟩ done := by
    refine Evolves.write hreceived (SafeStep.ofNode hold (by simp) (fun _ => rfl) ?_ (by rintro ⟨⟩))
    intro _ hto
    rcases hto with hto | hto <;> cases hto
  have hstarted : Started done.store := by
    refine started_of_start (hdone.wf hwf).graph hget htype ?_
    rw [← hid]
    show (received.store.putNodeState entry.2.id _).stateOf entry.2.id = _
    rw [Store.stateOf_putNodeState, if_pos rfl]
  have hrunning : Evolves ⟨s, []⟩ running :=
    Evolves.write hdone (SafeStep.ofRun rfl rfl rfl fun _ => Or.inr hstarted)
  refine handled_of_tick env (Evolves.emit env hrunning) hwf fun _ hflag => ?_
  cases hflag

inductive Decided (env : Env) (s : Store) : Signal → SignalDecision → Prop where
  | ignore {signal : Signal} (reason : IgnoredReason) : Decided env s signal (.ignore reason)
  | start {input : JsonObject} {entry : NodeId × Node} : s.run.state = .created → startNode s.graph = some entry →
      Decided env s (.startGraph input) (.start input entry.2.id)
  | pause : s.run.state = .running → Decided env s .pauseGraph .pause
  | resume : s.run.state = .paused → Decided env s .resumeGraph .resume
  | cancel : s.run.state.finished = false → Decided env s .cancelGraph .cancel
  | resumeCheckpoint {nodeId : NodeId} {output : JsonObject} {node : Node} : s.graph.nodes.get nodeId = some node →
      node.action.type = .checkpoint → s.stateOf nodeId = some .waiting →
      conforms env node.outputSchema output (js "CHECKPOINT_OUTPUT_SCHEMA_MISMATCH") = true →
      Decided env s (.resumeCheckpoint nodeId output) (.resumeCheckpoint nodeId output)

theorem decideTaskGraphSignal_spec (env : Env) (s : Store) (signal : Signal) :
    Decided env s signal (decideTaskGraphSignal env s signal) := by
  cases signal <;> simp only [decideTaskGraphSignal]
  case startGraph input =>
    split
    · exact .ignore _
    rename_i hcreated
    split
    · exact .ignore _
    rename_i entry hentry
    split
    · exact .start (not_not.mp hcreated) hentry
    · exact .ignore _
  case pauseGraph =>
    split
    · rename_i hrunning
      exact .pause hrunning
    · exact .ignore _
  case resumeGraph =>
    split
    · rename_i hpaused
      exact .resume hpaused
    · exact .ignore _
  case cancelGraph =>
    split
    · exact .ignore _
    · rename_i hfinished
      exact .cancel (Bool.eq_false_iff.mpr hfinished)
  case resumeCheckpoint nodeId output =>
    split
    · exact .ignore _
    rename_i node hnode
    split
    · exact .ignore _
    rename_i hwaiting
    rw [not_or, not_not, not_not] at hwaiting
    split
    · rename_i hconforms
      exact .resumeCheckpoint hnode hwaiting.1 hwaiting.2 hconforms
    · exact .ignore _

private theorem handleSignal_run {f : Run → Run} (env : Env) {type : EventType}
    (hpolicy : (f s.run).onNodeFailure = s.run.onNodeFailure)
    (hbegun : (f s.run).state.begun = true → s.run.state.begun = true ∨ Started s) :
    Evolves ⟨s, []⟩ (emit env (Exec.write (emit env ⟨s, []⟩ .signalReceived runRefs)
      ((emit env ⟨s, []⟩ .signalReceived runRefs).store.updateRun f)) type runRefs) :=
  Evolves.emit env (Evolves.write (Evolves.emit env (.refl _)) (SafeStep.ofRun rfl rfl hpolicy hbegun))

theorem handleSignal_spec (env : Env) (signal : Signal) (hwf : Wf s) :
    ∃ e, handleSignal env signal s = some e ∧ Handled s e := by
  have hreceived : Evolves ⟨s, []⟩ (emit env ⟨s, []⟩ .signalReceived runRefs) := Evolves.emit env (.refl _)
  have hdecided := decideTaskGraphSignal_spec env (emit env ⟨s, []⟩ .signalReceived runRefs).store signal
  unfold handleSignal
  simp only
  generalize decideTaskGraphSignal env (emit env ⟨s, []⟩ .signalReceived runRefs).store signal = decision at hdecided
  cases hdecided with
  | ignore reason =>
    exact ⟨_, rfl, Evolves.emit env hreceived, progressing_of_same rfl rfl, settling_of_same rfl rfl⟩
  | start hcreated hentry => exact handleSignal_start env hwf hentry
  | pause hrunning =>
    refine ⟨_, rfl, handleSignal_run env rfl fun _ => Or.inl ?_, fun _ => progressing_of_state ?_, ?_⟩
    · exact congrArg GraphState.begun hrunning
    · simp [Store.updateRun]
    · intro hs hflag _
      exact drained_of_same (s := s) rfl (hs hflag (congrArg GraphState.finished hrunning))
  | resume hpaused =>
    refine handled_of_tick env (handleSignal_run env rfl fun _ => Or.inl ?_) hwf ?_
    · exact congrArg GraphState.begun hpaused
    · intro hs hflag _
      exact drained_of_same (s := s) rfl (hs hflag (congrArg GraphState.finished hpaused))
  | cancel hfinished =>
    obtain ⟨hevolves, hcancelling, -⟩ := beginCancellation_spec env (hreceived.wf hwf).nodup
    exact ⟨_, rfl, hreceived.trans hevolves, fun _ => hcancelling.progressing, fun _ => hcancelling.settling⟩
  | @resumeCheckpoint nodeId output node hnode htype hwaiting hconforms =>
    obtain ⟨old, hold, hstate⟩ := Store.exists_get_of_stateOf hwaiting
    have hresumed : Evolves ⟨s, []⟩ (emit env (Exec.write (emit env ⟨s, []⟩ .signalReceived runRefs)
        ((emit env ⟨s, []⟩ .signalReceived runRefs).store.putNodeState nodeId ⟨.done, none, some output, none,
          clock env (emit env ⟨s, []⟩ .signalReceived runRefs)⟩)) .checkpointResumed (nodeRefs nodeId none)) := by
      refine Evolves.emit env (Evolves.write hreceived (SafeStep.ofNode hold (by simp) (fun _ => rfl) ?_
        (by rintro ⟨⟩)))
      intro _ hto
      rcases hto with hto | hto <;> cases hto
    -- a run that is to be cancelled has no waiting checkpoint
    have hsettling : Settling s → ∀ s' : Store, s'.run = s.run → Settling s' := by
      intro hs s' hrun hflag hfinished
      rw [hrun] at hflag hfinished
      exact absurd hwaiting ((hs hflag hfinished).settled nodeId).2
    simp only
    split
    · exact handled_of_tick env hresumed hwf fun hs => hsettling hs _ rfl
    · rename_i hnot
      exact ⟨_, rfl, hresumed, fun _ => progressing_of_state hnot, fun hs => hsettling hs _ rfl⟩

variable {row : NodeState}

private theorem handled_of_fail (env : Env) (error : ExecutionError)
    (taskRunId : Option TaskRunId) (hwf : Wf s) (hget : s.nodeStates.get nodeId = some row)
    (hrunning : row.state = .running) (hflag : s.run.cancelRequested = false) :
    Handled s (failNode env ⟨s, []⟩ nodeId error taskRunId .nodeFailed) := by
  have hfailed : FailedNode ⟨s, []⟩ (failNode env ⟨s, []⟩ nodeId error taskRunId .nodeFailed) nodeId :=
    failNode_spec env error taskRunId .nodeFailed hwf hget (by rw [hrunning]; simp) (Or.inl (by rw [hrunning]; rfl))
  exact ⟨hfailed.evolves, fun _ => hfailed.progressing, fun _ => (hfailed.orderly hflag).settling⟩

private theorem completeTask_spec (env : Env) (taskRunId : TaskRunId) (terminal : TaskTerminal)
    (hwf : Wf s) (hget : s.nodeStates.get nodeId = some row) (hrunning : row.state = .running)
    (hflag : s.run.cancelRequested = false) :
    ∃ e, completeTask env nodeId taskRunId terminal s = some e ∧ Handled s e := by
  have hfail : ∀ error, Handled s (failNode env ⟨s, []⟩ nodeId error (some taskRunId) .nodeFailed) :=
    fun error => handled_of_fail env error (some taskRunId) hwf hget hrunning hflag
  unfold completeTask
  split
  · split
    · exact ⟨_, rfl, hfail _⟩
    have hsafe : ∀ output : JsonObject, SafeStep s (s.putNodeState nodeId
        ⟨.done, none, some output, some taskRunId, clock env ⟨s, []⟩⟩) := by
      intro output
      refine SafeStep.ofNode hget (by simp) (fun _ => rfl) ?_ (by rintro ⟨⟩)
      intro _ hto
      rcases hto with hto | hto <;> cases hto
    simp only
    split
    · refine handled_of_tick env (Evolves.emit env (Evolves.write (.refl _) (hsafe _))) hwf fun _ hflag' => ?_
      rw [show (emit env _ _ _).store.run.cancelRequested = s.run.cancelRequested from rfl, hflag] at hflag'
      cases hflag'
    rename_i hnot
    refine ⟨_, rfl, Evolves.emit env (Evolves.write (.refl _) (hsafe _)), fun _ => progressing_of_state hnot,
      fun _ hflag' => ?_⟩
    rw [show (emit env _ _ _).store.run.cancelRequested = s.run.cancelRequested from rfl, hflag] at hflag'
    cases hflag'
  · exact ⟨_, rfl, .refl _, id, id⟩
  · exact ⟨_, rfl, hfail _⟩

private theorem handled_of_interrupt (env : Env) (taskRunId : TaskRunId)
    (hget : s.nodeStates.get nodeId = some row) (hrunning : row.state = .running)
    (hflag : s.run.cancelRequested = true) (hfinished : s.run.state.finished = false) :
    Handled s (convergeCancellation env (emit env (Exec.write ⟨s, []⟩ (s.putNodeState nodeId
      ⟨.interrupted, none, none, some taskRunId, clock env ⟨s, []⟩⟩)) .nodeInterrupted
      (nodeRefs nodeId (some taskRunId)))) := by
  have hsafe : SafeStep s (s.putNodeState nodeId ⟨.interrupted, none, none, some taskRunId, clock env ⟨s, []⟩⟩) := by
    refine SafeStep.ofNode hget (by simp) ?_ ?_ fun _ => Or.inl (by rw [hrunning]; rfl)
    · intro hdone
      rw [hrunning] at hdone
      cases hdone
    · intro hplanned
      rw [hrunning] at hplanned
      cases hplanned
  refine ⟨(Evolves.emit env (Evolves.write (.refl _) hsafe)).trans convergeCancellation_evolves, fun _ => ?_,
    fun hs => ?_⟩
  · -- the run is cancelled, or its cancellation is still asked for
    unfold convergeCancellation
    split
    · rename_i hnot
      rw [show (emit env _ _ _).store.run.cancelRequested = s.run.cancelRequested from rfl, hflag] at hnot
      cases hnot
    split
    · intro hschedulable
      have := (schedulable_iff.mp hschedulable).2
      rw [show (emit env _ _ _).store.run.cancelRequested = s.run.cancelRequested from rfl, hflag] at this
      cases this
    · refine progressing_of_state ?_
      rw [finishCancelled_state]
      simp
  · obtain ⟨hsettled, hbound, -⟩ := hs hflag hfinished
    refine (convergeCancellation_cancelling hflag (fun id => ?_) fun id row' hget' hrunning' => ?_).settling
    · rw [emit_stateOf, Exec.write_store, Store.stateOf_putNodeState]
      split
      · simp
      · exact hsettled id
    · rw [emit_nodeStates, Exec.write_store] at hget'
      unfold Store.putNodeState at hget'
      rw [OMap.get_set] at hget'
      split at hget'
      · cases hget'
        cases hrunning'
      · exact hbound id row' hget' hrunning'

theorem handleTaskTerminal_spec (env : Env) (nodeId : NodeId) (taskRunId : TaskRunId) (terminal : TaskTerminal)
    (hwf : Wf s) : ∃ e, handleTaskTerminal env nodeId taskRunId terminal s = some e ∧ Handled s e := by
  have hsame : Handled s ⟨s, []⟩ := ⟨.refl _, id, id⟩
  unfold handleTaskTerminal
  split
  · exact ⟨_, rfl, hsame⟩
  rename_i row hget
  split
  · exact ⟨_, rfl, hsame⟩
  rename_i hrunning
  rw [not_or, not_not, not_not] at hrunning
  split
  · exact ⟨_, rfl, hsame⟩
  rename_i hfinished
  split
  · rename_i hflag
    exact ⟨_, rfl, handled_of_interrupt env taskRunId hget hrunning.1 hflag (Bool.eq_false_iff.mpr hfinished)⟩
  · rename_i hflag
    exact completeTask_spec env taskRunId terminal hwf hget hrunning.1 (Bool.eq_false_iff.mpr hflag)

end Wrenyard.TaskGraph
