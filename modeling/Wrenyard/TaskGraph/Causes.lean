import Wrenyard.TaskGraph.Runs

/-!
# Failures and their cause

Under the cancel policy a node fails in one transaction, with its journal row, the first cause and the intent
(`Store.failNodeForCancellation`).  Every effect of a run either records no failure at all, or is such a transaction,
or is the repair that recovery begins with (`CauseStep`), which selects the earliest failure (`Earliest`).
-/

namespace Wrenyard.TaskGraph

open Js List Option

variable {env : Env} {e e' : Exec} {s s' : Store}

def JournalRow.FailureOf (row : JournalRow) (nodeId : NodeId) : Prop :=
  row.type = .nodeFailed ∧ row.refs.nodeId = some nodeId

/-- A failed node whose failure is the earliest of those in the store: its journal row is before those of the other
failed nodes or, where no failed node has one, its row was updated first. -/
def Earliest (s : Store) (nodeId : NodeId) : Prop :=
  s.stateOf nodeId = some .failed ∧
    ((∃ before row later, s.journal = before ++ row :: later ∧ row.FailureOf nodeId ∧
        ∀ row' ∈ before, ∀ id, row'.FailureOf id → s.stateOf id ≠ some .failed) ∨
      ((∀ row' ∈ s.journal, ∀ id, row'.FailureOf id → s.stateOf id ≠ some .failed) ∧
        ∀ id row row', s.nodeStates.get nodeId = some row → s.nodeStates.get id = some row' → row'.state = .failed →
          row.updatedAt ≤ row'.updatedAt))

theorem Store.mem_failedNodes {s : Store} {entry : NodeId × NodeState} :
    entry ∈ s.failedNodes ↔ s.nodeStates.get entry.1 = some entry.2 ∧ entry.2.state = .failed := by
  unfold Store.failedNodes
  rw [mem_filter, Store.mem_projected, decide_eq_true_eq]

theorem Store.mem_failedNodes_of_stateOf {s : Store} {id : NodeId} (h : s.stateOf id = some .failed) :
    ∃ row, (id, row) ∈ s.failedNodes := by
  obtain ⟨row, hget, hrow⟩ := Store.exists_get_of_stateOf h
  exact ⟨row, Store.mem_failedNodes.mpr ⟨hget, hrow⟩⟩

private theorem failedRow_iff {row : JournalRow} :
    (decide (row.type = .nodeFailed) && row.refs.nodeId.any fun nodeId =>
        s.failedNodes.any fun entry => entry.1 = nodeId) = true ↔
      ∃ id, row.FailureOf id ∧ s.stateOf id = some .failed := by
  rw [Bool.and_eq_true, decide_eq_true_eq, Option.any_eq_true]
  constructor
  · rintro ⟨htype, id, hid, hany⟩
    obtain ⟨entry, hentry, heq⟩ := any_eq_true.mp hany
    obtain ⟨hget, hstate⟩ := Store.mem_failedNodes.mp hentry
    rw [decide_eq_true_eq] at heq
    refine ⟨id, ⟨htype, hid⟩, ?_⟩
    rw [← heq, Store.stateOf_of_get hget, hstate]
  · rintro ⟨id, ⟨htype, hid⟩, hfailed⟩
    obtain ⟨row', hrow'⟩ := Store.mem_failedNodes_of_stateOf hfailed
    exact ⟨htype, id, hid, any_eq_true.mpr ⟨_, hrow', by simp⟩⟩

private theorem le_of_head_insertionSort {α : Type} {f : α → Nat} {l : List α} {a b : α}
    (h : (l.insertionSort fun a b => f a ≤ f b).head? = some a) (hb : b ∈ l) : f a ≤ f b := by
  have hsorted := pairwise_insertionSort (fun a b : α => f a ≤ f b) l
  have hmem : b ∈ l.insertionSort fun a b => f a ≤ f b := (mem_insertionSort _).mpr hb
  cases hl : l.insertionSort fun a b => f a ≤ f b with
  | nil =>
    rw [hl] at h
    cases h
  | cons c rest =>
    rw [hl] at h hsorted hmem
    cases h
    rcases mem_cons.mp hmem with rfl | hmem
    · exact Nat.le_refl _
    · exact (pairwise_cons.mp hsorted).1 b hmem

theorem earliest_of_earliestFailure {failure : NodeId × NodeState} (h : s.earliestFailure = some failure) :
    Earliest s failure.1 := by
  unfold Store.earliestFailure at h
  cases hrow : s.firstFailedRow with
  | some row =>
    obtain ⟨hp, before, later, hjournal, hbefore⟩ := List.find?_eq_some_iff_append.mp hrow
    obtain ⟨id, hid, hfailed⟩ := failedRow_iff.mp hp
    obtain ⟨row', hrow'⟩ := Store.mem_failedNodes_of_stateOf hfailed
    obtain ⟨entry, hentry⟩ : ∃ entry, s.failedNodes.find? (fun entry => entry.1 = id) = some entry := by
      rw [← isSome_iff_exists, List.find?_isSome]
      exact ⟨_, hrow', by simp⟩
    have hentryId : entry.1 = id := by simpa using List.find?_some hentry
    rw [show s.firstFailedRow = some row from hrow, bind_some, hid.2, bind_some, hentry] at h
    cases h
    subst hentryId
    refine ⟨hfailed, Or.inl ⟨before, row, later, hjournal, hid, fun row' hrow' id hid hfailed => ?_⟩⟩
    have := hbefore row' hrow'
    rw [Bool.not_eq_true', failedRow_iff.mpr ⟨id, hid, hfailed⟩] at this
    cases this
  | none =>
    rw [hrow] at h
    have hmem : failure ∈ s.failedNodes := (mem_insertionSort _).mp (mem_of_mem_head? h)
    obtain ⟨hget, hstate⟩ := Store.mem_failedNodes.mp hmem
    refine ⟨by rw [Store.stateOf_of_get hget, hstate], Or.inr ⟨fun row' hrow' id hid hfailed => ?_, ?_⟩⟩
    · exact List.find?_eq_none.mp hrow row' hrow' (failedRow_iff.mpr ⟨id, hid, hfailed⟩)
    · intro id row row' hrow hrow' hstate'
      rw [hget] at hrow
      cases hrow
      exact le_of_head_insertionSort (f := fun entry : NodeId × NodeState => entry.2.updatedAt) h
        (Store.mem_failedNodes.mpr ⟨hrow', hstate'⟩ : (id, row') ∈ s.failedNodes)

theorem earliestFailure_eq_none_iff : s.earliestFailure = none ↔ ∀ id, s.stateOf id ≠ some .failed := by
  constructor
  · intro hnone id hfailed
    obtain ⟨row, hrow⟩ := Store.mem_failedNodes_of_stateOf hfailed
    simp only [Store.earliestFailure, orElse_eq_orElse, orElse_eq_or, or_eq_none_iff] at hnone
    have hmem := (mem_insertionSort fun a b : NodeId × NodeState => a.2.updatedAt ≤ b.2.updatedAt).mpr hrow
    rw [List.head?_eq_none_iff.mp hnone.2] at hmem
    cases hmem
  · intro h
    cases hfailure : s.earliestFailure with
    | none => rfl
    | some failure => exact absurd (earliest_of_earliestFailure hfailure).1 (h failure.1)

structure Unfailing (s s' : Store) : Prop where
  cause : s'.run.failureCause = s.run.failureCause
  nodes : ∀ id, s'.stateOf id = some .failed → s.stateOf id = some .failed
  journal : ∃ rows, s'.journal = s.journal ++ rows ∧ ∀ row ∈ rows, row.type ≠ .nodeFailed

inductive Failing (s : Store) : Store → Prop where
  | unfailing {s' : Store} : Unfailing s s' → Failing s s'
  | failed (nodeId : NodeId) (error : ExecutionError) (taskRunId : Option TaskRunId) (kind : FailureCauseKind)
      (eventId : JsString) (at_ : Time) :
      Failing s (s.failNodeForCancellation nodeId error taskRunId kind eventId at_)
  | repaired {s' : Store} : s.repairCancelPolicyFailure = some s' → Failing s s'

def NodeRunState.risky : NodeRunState → Bool
  | running => true
  | waiting => true
  | failed => true
  | _ => false

structure Fresh (s : Store) : Prop where
  cause : s.run.failureCause = none
  nodes : ∀ id state, s.stateOf id = some state → state.risky = false

structure CauseStep (s s' : Store) : Prop where
  policy : s'.run.onNodeFailure = s.run.onNodeFailure
  cause : ∀ c, s.run.failureCause = some c → s'.run.failureCause = some c
  failing : s.run.onNodeFailure = .cancel → Failing s s'
  intent : s.run.onNodeFailure = .cancel →
    s'.run.cancelRequested = true ∨ s'.run.state.finished = true ∨ s.run.state = .created ∨
      (s'.run.cancelRequested = s.run.cancelRequested ∧ (s.run.state.finished = true → s'.run.state.finished = true))
  created : s'.run.state = .created → s.run.state = .created ∧ (Fresh s → Fresh s')

/-- A write of a handler that is not about patches. -/
structure OwnStep (s s' : Store) : Prop extends CauseStep s s' where
  graph : s'.graph = s.graph
  patches : s'.patches = s.patches

namespace Unfailing

theorem refl (s : Store) : Unfailing s s := ⟨rfl, fun _ => id, [], (List.append_nil _).symm, by simp⟩

/-- A write of the run alone, which keeps its cause. -/
theorem ofRun {f : Run → Run} (h : (f s.run).failureCause = s.run.failureCause) : Unfailing s (s.updateRun f) :=
  ⟨h, fun _ => id, [], (List.append_nil _).symm, by simp⟩

end Unfailing

namespace CauseStep

theorem ofKept (hrun : s'.run = s.run) (hfailing : s.run.onNodeFailure = .cancel → Unfailing s s')
    (hfresh : s.run.state = .created → Fresh s → Fresh s') : CauseStep s s' := by
  refine ⟨by rw [hrun], fun c hc => by rw [hrun]; exact hc, fun hp => .unfailing (hfailing hp), ?_,
    fun hcreated => ?_⟩
  · rw [hrun]
    exact fun _ => Or.inr (Or.inr (Or.inr ⟨rfl, id⟩))
  · rw [hrun] at hcreated
    exact ⟨hcreated, hfresh hcreated⟩

end CauseStep

namespace OwnStep

theorem refl (s : Store) : OwnStep s s := ⟨.ofKept rfl (fun _ => .refl s) fun _ => id, rfl, rfl⟩

theorem ofJournal {row : JournalRow} (h : s.run.onNodeFailure = .cancel → row.type ≠ .nodeFailed) :
    OwnStep s (s.appendJournal row) := by
  refine ⟨.ofKept rfl (fun hp => ⟨rfl, fun _ => id, [row], rfl, fun row' hrow' => ?_⟩) fun _ hf =>
    ⟨hf.cause, hf.nodes⟩,
    rfl, rfl⟩
  rw [mem_singleton.mp hrow']
  exact h hp

theorem ofNode {nodeId : NodeId} {row : NodeState} (hfailed : s.run.onNodeFailure = .cancel → row.state ≠ .failed)
    (hfresh : s.run.state = .created → Fresh s → row.state.risky = false) :
    OwnStep s (s.putNodeState nodeId row) := by
  refine ⟨.ofKept rfl (fun hp => ⟨rfl, fun id hid => ?_, [], (append_nil _).symm, by simp⟩) fun hcreated hf =>
    ⟨hf.cause, fun id state hstate => ?_⟩, rfl, rfl⟩
  · rw [Store.stateOf_putNodeState] at hid
    split at hid
    · exact absurd (Option.some.inj hid) (hfailed hp)
    · exact hid
  · rw [Store.stateOf_putNodeState] at hstate
    split at hstate
    · cases hstate
      exact hfresh hcreated hf
    · exact hf.nodes id state hstate

/-- A write of the run, which keeps its policy and its cause and does not take it back to its creation. -/
theorem ofRun {f : Run → Run} (hpolicy : (f s.run).onNodeFailure = s.run.onNodeFailure)
    (hcause : (f s.run).failureCause = s.run.failureCause)
    (hintent : s.run.onNodeFailure = .cancel →
      (f s.run).cancelRequested = true ∨ (f s.run).state.finished = true ∨ s.run.state = .created ∨
        ((f s.run).cancelRequested = s.run.cancelRequested ∧
          (s.run.state.finished = true → (f s.run).state.finished = true)))
    (hstate : (f s.run).state = .created → s.run.state = .created) : OwnStep s (s.updateRun f) :=
  ⟨⟨hpolicy, fun _ hc => hcause.trans hc, fun _ => .unfailing (.ofRun hcause), hintent, fun hcreated =>
    ⟨hstate hcreated, fun hf => ⟨hcause.trans hf.cause, hf.nodes⟩⟩⟩, rfl, rfl⟩

theorem ofFailed (nodeId : NodeId) (error : ExecutionError) (taskRunId : Option TaskRunId) (kind : FailureCauseKind)
    (eventId : JsString) (at_ : Time) (hopen : s.run.state = .created → ¬ Fresh s) :
    OwnStep s (s.failNodeForCancellation nodeId error taskRunId kind eventId at_) := by
  refine ⟨⟨rfl, fun c hc => ?_, fun _ => .failed nodeId error taskRunId kind eventId at_, fun _ => Or.inl rfl,
    fun hcreated => ⟨hcreated, fun hf => absurd hf (hopen hcreated)⟩⟩, rfl, rfl⟩
  show (s.run.failureCause <|> _) = some c
  rw [hc]
  rfl

theorem ofRepaired (h : s.repairCancelPolicyFailure = some s') : OwnStep s s' := by
  have hfailing : Failing s s' := .repaired h
  unfold Store.repairCancelPolicyFailure at h
  split at h
  · cases h
  split at h
  · cases h
  obtain ⟨failure, hfailure, rfl⟩ := map_eq_some_iff.mp h
  refine ⟨⟨rfl, fun c hc => ?_, fun _ => hfailing, fun _ => Or.inl rfl, fun hcreated => ⟨hcreated, fun hf => ?_⟩⟩,
    rfl, rfl⟩
  · show (s.run.failureCause <|> _) = some c
    rw [hc]
    rfl
  · -- a node that failed is there to repair
    have := hf.nodes _ _ (earliest_of_earliestFailure hfailure).1
    cases this

end OwnStep

abbrev Causes : Exec → Exec → Prop :=
  Logged.Evolves Effect.after fun e effect => OwnStep e.store (effect.after e.store)

namespace Causes

theorem refl (e : Exec) : Causes e e := Logged.Evolves.refl

theorem push (h : Causes e e') (effect : Effect) (hstep : OwnStep e'.store (effect.after e'.store)) :
    Causes e (e'.push effect) := Logged.Evolves.push h hstep

theorem write {store : Store} (h : Causes e e') (hstep : OwnStep e'.store store) : Causes e (e'.write store) :=
  Logged.Evolves.push h hstep

theorem emit (env : Env) {type : EventType} {refs : EventRefs} (h : Causes e e')
    (htype : e'.store.run.onNodeFailure = .cancel → type ≠ .nodeFailed) :
    Causes e (TaskGraph.emit env e' type refs) :=
  h.write (.ofJournal htype)

end Causes

/-! ### The handlers -/

def Opened (s : Store) : Prop := s.run.state = .created → ¬ Fresh s

theorem Opened.ofState (h : s.run.state ≠ .created) : Opened s := fun hcreated => absurd hcreated h

theorem Opened.ofRunning (id : NodeId) (h : s.stateOf id = some .running) : Opened s := by
  intro _ hf
  cases hf.nodes id _ h

theorem finishDone_causes {endNodeId : NodeId} : Causes e (finishDone env e endNodeId) := by
  unfold finishDone
  split
  · exact .refl e
  · exact ((Causes.refl e).write (.ofRun rfl rfl (fun _ => Or.inr (Or.inl rfl)) (by simp))).emit env (by simp)

theorem finishCancelled_causes : Causes e (finishCancelled env e) := by
  unfold finishCancelled
  split
  · exact .refl e
  · exact ((Causes.refl e).write (.ofRun rfl rfl (fun _ => Or.inr (Or.inl rfl)) (by simp))).emit env (by simp)

theorem convergeCancellation_causes : Causes e (convergeCancellation env e) := by
  unfold convergeCancellation
  split
  · exact .refl e
  · split
    · exact .refl e
    · exact finishCancelled_causes

theorem cancelNode_causes {at_ : Time} {snapshot : OMap NodeId NodeState} {nodeId : NodeId} :
    Causes e (cancelNode env at_ snapshot e nodeId) := by
  unfold cancelNode
  split
  · exact .refl e
  split
  · exact ((Causes.refl e).write (.ofNode (by simp) fun _ _ => rfl)).emit env (by simp)
  split
  · split
    · exact (Causes.refl e).push _ (.refl _)
    · exact ((Causes.refl e).write (.ofNode (by simp) fun _ _ => rfl)).emit env (by simp)
  · exact .refl e

theorem beginCancellation_causes : Causes e (beginCancellation env e) := by
  have hfold : ∀ (at_ : Time) (snapshot : OMap NodeId NodeState) (ids : List NodeId) (e' : Exec), Causes e e' →
      Causes e (ids.foldl (cancelNode env at_ snapshot) e') := by
    intro at_ snapshot ids
    induction ids with
    | nil => exact fun _ h => h
    | cons id ids ih => exact fun e' h => ih _ (h.trans cancelNode_causes)
  refine (hfold _ _ _ _ ?_).trans convergeCancellation_causes
  exact (Causes.refl e).write (.ofRun rfl rfl (fun _ => Or.inl rfl) id)

theorem failNode_causes (env : Env) (nodeId : NodeId) (error : ExecutionError) (taskRunId : Option TaskRunId)
    (kind : FailureCauseKind) (hopen : Opened e.store) : Causes e (failNode env e nodeId error taskRunId kind) ∧
    Opened (failNode env e nodeId error taskRunId kind).store := by
  unfold failNode
  split
  · have hfailed : Causes e (e.write (e.store.failNodeForCancellation nodeId error taskRunId kind
        (env.eventId e.log.length) (clock env e))) :=
      (Causes.refl e).write (.ofFailed nodeId error taskRunId kind _ _ hopen)
    have hcancel : Causes (e.write (e.store.failNodeForCancellation nodeId error taskRunId kind
        (env.eventId e.log.length) (clock env e))) (beginCancellation env _) := beginCancellation_causes
    refine ⟨hfailed.trans hcancel, fun _ hf => ?_⟩
    -- the cause that was written is there at the end
    obtain ⟨c, hc⟩ : ∃ c, (e.store.run.failureCause <|> some
        (⟨kind, nodeId, taskRunId, error, some (env.eventId e.log.length)⟩ : FailureCause)) = some c := by
      cases e.store.run.failureCause with
      | none => exact ⟨_, rfl⟩
      | some c => exact ⟨c, rfl⟩
    have hkept := hcancel.invariant (fun s => s.run.failureCause = some c) (fun _ _ hstep hc => hstep.cause c hc) hc
    rw [hf.cause] at hkept
    cases hkept
  · rename_i hpolicy
    have hfailed : Causes e (emit env (e.write (e.store.putNodeState nodeId
        (Store.failedRow error taskRunId (clock env e)))) .nodeFailed (nodeRefs nodeId taskRunId)) := by
      refine ((Causes.refl e).write (.ofNode (fun hp => absurd hp hpolicy) fun hcreated hf => ?_)).emit env
        fun hp => absurd hp hpolicy
      exact absurd hf (hopen hcreated)
    split
    · rename_i hpaused
      refine ⟨hfailed, .ofState ?_⟩
      show e.store.run.state ≠ .created
      rw [hpaused]
      simp
    · refine ⟨(hfailed.write ?_).emit env (by simp), .ofState (by simp [Store.updateRun])⟩
      exact .ofRun rfl rfl (fun hp => absurd hp hpolicy) (by simp)

theorem completeControlNode_causes (env : Env) (node : Node) (output : JsonObject) (hopen : Opened e.store) :
    Causes e (completeControlNode env node output e) := by
  unfold completeControlNode
  split
  · exact (failNode_causes env _ _ _ _ hopen).1
  · exact ((Causes.refl e).write (.ofNode (by simp) fun _ _ => rfl)).emit env (by simp)

theorem startTask_causes (env : Env) (request : TaskRequest) (hstate : e.store.run.state ≠ .created) :
    Causes e (startTask env request e) := by
  have hcalled : Causes e (e.push (.startTask request)) := (Causes.refl e).push _ (.refl _)
  have hbound : ∀ taskRunId at_, OwnStep (e.push (.startTask request)).store
      ((e.push (.startTask request)).store.putNodeState request.nodeId ⟨.running, none, none, some taskRunId, at_⟩) :=
    fun taskRunId at_ => .ofNode (by simp) fun hcreated => absurd hcreated hstate
  unfold startTask
  simp only
  split
  · exact hcalled.write (hbound _ _)
  split
  · split
    · exact hcalled.write (hbound _ _)
    · exact hcalled
  · exact hcalled

/-- Where an action or an activation ends, or throws. -/
def CausesEnd (e : Exec) : Except Exec Exec → Prop
  | .ok e' => Causes e e'
  | .error e' => Causes e e'

theorem dispatchTask_causes (env : Env) (node : Node) (inputs : JsonObject) (hstate : e.store.run.state ≠ .created) :
    CausesEnd e (dispatchTask env node inputs e) := by
  have hfail : ∀ error, Causes e (failNode env e node.id error none .nodeFailed) :=
    fun error => (failNode_causes env _ _ _ _ (.ofState hstate)).1
  unfold dispatchTask
  split
  · exact hfail _
  · split
    · dsimp only
      split
      · exact startTask_causes env _ hstate
      · split
        · exact .refl e
        · exact startTask_causes env _ hstate
        · exact hfail _
    · exact hfail _
  · exact hfail _

theorem performAction_causes (env : Env) (node : Node) (inputs : JsonObject) (hstate : e.store.run.state ≠ .created) :
    CausesEnd e (performAction env node inputs e) := by
  unfold performAction
  split
  · split
    · exact .refl e
    · exact completeControlNode_causes env node _ (.ofState hstate)
  · split
    · exact (failNode_causes env _ _ _ _ (.ofState hstate)).1
    · exact completeControlNode_causes env node _ (.ofState hstate)
  · split
    · exact (failNode_causes env _ _ _ _ (.ofState hstate)).1
    · exact completeControlNode_causes env node _ (.ofState hstate)
  · exact completeControlNode_causes env node _ (.ofState hstate)
  · exact dispatchTask_causes env node inputs hstate
  · exact (failNode_causes env _ _ _ _ (.ofState hstate)).1

theorem activateNode_causes (env : Env) (node : Node) (hstate : e.store.run.state ≠ .created) :
    CausesEnd e (activateNode env node e) := by
  have hfail : ∀ error, Causes e (failNode env e node.id error none .nodeFailed) :=
    fun error => (failNode_causes env _ _ _ _ (.ofState hstate)).1
  have hput : ∀ row : NodeState, row.state ≠ .failed → OwnStep e.store (e.store.putNodeState node.id row) :=
    fun row hrow => .ofNode (fun _ => hrow) fun hcreated => absurd hcreated hstate
  unfold activateNode
  split
  · exact hfail _
  split
  · exact hfail _
  split
  · exact ((Causes.refl e).write (hput _ (by simp))).emit env (by simp)
  rename_i inputs _ _ _ _ _
  simp only
  generalize hactivated : emit env (e.push (.activate node.id
    (e.store.putNodeState node.id ⟨.running, none, none, none, clock env e⟩))) .nodeStarted
    (nodeRefs node.id none) = activated
  have hcauses : Causes e activated := by
    subst hactivated
    refine ((Causes.refl e).push (.activate _ _) ?_).emit env (by simp)
    exact hput _ (by simp)
  have hstate' : activated.store.run.state ≠ .created := by
    subst hactivated
    exact hstate
  have haction := performAction_causes env node inputs hstate'
  cases hresult : performAction env node inputs activated with
  | ok | error =>
    rw [hresult] at haction
    exact Logged.Evolves.trans hcauses haction

def CausesPass (e : Exec) : Pass → Prop
  | .left e' => Causes e e'
  | .completed e' _ => Causes e e'

private theorem CausesPass.trans {p : Pass} (h : Causes e e') (hp : CausesPass e' p) : CausesPass e p := by
  cases p with
  | left | completed => exact Logged.Evolves.trans h hp

theorem pass_causes (env : Env) (ids : List NodeId) (changed : Bool) (e : Exec) :
    CausesPass e (pass env ids changed e) := by
  induction ids generalizing changed e with
  | nil => exact .refl e
  | cons id ids ih =>
    unfold pass
    split
    · exact .refl e
    rename_i hschedulable
    have hstate : e.store.run.state ≠ .created := by
      rw [(schedulable_iff.mp (by simpa using hschedulable)).1]
      simp
    split
    · rename_i row node _ _
      split
      · exact ih changed e
      split
      · refine CausesPass.trans ?_ (ih true _)
        exact ((Causes.refl e).write (.ofNode (by simp) fun _ _ => rfl)).emit env (by simp)
      · have hactivated := activateNode_causes env node hstate
        cases hresult : activateNode env node e <;> rw [hresult] at hactivated
        case ok e' => exact CausesPass.trans hactivated (ih true e')
        case error e' => exact hactivated
      · exact ih changed e
    · exact ih changed e

theorem tickLoop_causes (env : Env) (fuel : Nat) (e : Exec) {e' : Exec} (h : tickLoop env fuel e = some e') :
    Causes e e' := by
  induction fuel generalizing e with
  | zero => cases h
  | succ fuel ih =>
    unfold tickLoop at h
    split at h
    · cases h
      exact .refl _
    split at h
    · cases h
      exact finishDone_causes
    have hpass := pass_causes env e.store.graph.schedulingOrder false e
    split at h
    · rename_i e₁ hresult
      rw [hresult] at hpass
      cases h
      exact hpass
    rename_i e₁ changed hresult
    rw [hresult] at hpass
    split at h
    · cases h
      exact hpass
    split at h
    · cases h
      exact Logged.Evolves.trans hpass finishDone_causes
    split at h
    · exact Logged.Evolves.trans hpass (ih _ h)
    split at h
    · cases h
      exact Logged.Evolves.trans hpass finishCancelled_causes
    · cases h
      exact hpass

theorem tick_causes (env : Env) (h : tick env e = some e') : Causes e e' := tickLoop_causes env _ e h

/-! ### Events -/

theorem repair_causes (s : Store) : Causes ⟨s, []⟩ (repair s) := by
  unfold repair
  split
  · rename_i s' hrepair
    exact (Causes.refl _).write (.ofRepaired hrepair)
  · exact .refl _

private theorem foldl_recoverNode_causes (env : Env) (entries : List (NodeId × NodeState)) (acc : Exec × Bool)
    (hopen : (∃ entry ∈ entries, entry.2.state = .running) → Opened acc.1.store) :
    Causes acc.1 (entries.foldl (recoverNode env) acc).1 := by
  induction entries generalizing acc with
  | nil => exact .refl _
  | cons entry entries ih =>
    rw [foldl_cons]
    cases hfails : recoveryFails env entry with
    | false =>
      rw [recoverNode_of_not_fails hfails]
      exact ih acc fun ⟨entry', hentry', hrunning⟩ => hopen ⟨entry', mem_cons_of_mem _ hentry', hrunning⟩
    | true =>
      obtain ⟨error, taskRunId, hstep⟩ := @recoverNode_of_fails env acc entry hfails
      have hrunning : entry.2.state = .running := by
        unfold recoveryFails at hfails
        rw [Bool.and_eq_true] at hfails
        exact of_decide_eq_true hfails.1
      obtain ⟨hfailed, hopened⟩ := failNode_causes env entry.1 error taskRunId .recoveryFailed
        (hopen ⟨entry, mem_cons_self .., hrunning⟩)
      rw [hstep]
      have hrest := ih (failNode env acc.1 entry.1 error taskRunId .recoveryFailed, true) fun _ => hopened
      exact hfailed.trans hrest

theorem handleRecover_causes (env : Env) (h : handleRecover env s = some e) : Causes (repair s) e := by
  have hfold := foldl_recoverNode_causes env s.projected (repair s, false) (by
    rintro ⟨entry, hentry, hrunning⟩
    refine .ofRunning entry.1 ?_
    rw [Store.stateOf, repair_nodeStates, Store.mem_projected.mp hentry, map_some, hrunning])
  unfold handleRecover at h
  simp only at h
  split at h
  · cases h
    exact hfold
  split at h
  · cases h
    exact hfold.trans beginCancellation_causes
  split at h
  · exact hfold.trans (tick_causes env h)
  · cases h
    exact hfold

theorem handleSignal_causes (env : Env) (signal : Signal) (h : handleSignal env signal s = some e) :
    Causes ⟨s, []⟩ e := by
  have hdecided := decideTaskGraphSignal_spec env (emit env ⟨s, []⟩ .signalReceived runRefs).store signal
  unfold handleSignal at h
  simp only at h
  generalize hr : emit env ⟨s, []⟩ .signalReceived runRefs = received at h hdecided
  have hreceived : Causes ⟨s, []⟩ received := by
    subst hr
    exact (Causes.refl _).emit env (by simp)
  generalize decideTaskGraphSignal env received.store signal = decision at hdecided h
  cases hdecided with
  | ignore reason =>
    cases h
    exact hreceived.emit env (by simp)
  | start hcreated hentry =>
    refine Logged.Evolves.trans ?_ (tick_causes env h)
    refine ((hreceived.write (.ofNode (by simp) fun _ _ => rfl)).write ?_).emit env (by simp)
    exact .ofRun rfl rfl (fun _ => Or.inr (Or.inr (Or.inl hcreated))) (by simp)
  | pause hrunning =>
    cases h
    refine (hreceived.write ?_).emit env (by simp)
    refine .ofRun rfl rfl (fun _ => Or.inr (Or.inr (Or.inr ⟨rfl, fun hfinished => ?_⟩))) (by simp)
    rw [hrunning] at hfinished
    cases hfinished
  | resume hpaused =>
    refine Logged.Evolves.trans ?_ (tick_causes env h)
    refine (hreceived.write ?_).emit env (by simp)
    refine .ofRun rfl rfl (fun _ => Or.inr (Or.inr (Or.inr ⟨rfl, fun hfinished => ?_⟩))) (by simp)
    rw [hpaused] at hfinished
    cases hfinished
  | cancel hnot =>
    cases h
    exact hreceived.trans beginCancellation_causes
  | @resumeCheckpoint nodeId output node hnode htype hwaiting hconforms =>
    have hresumed : Causes ⟨s, []⟩ (emit env (received.write (received.store.putNodeState nodeId
        ⟨.done, none, some output, none, clock env received⟩)) .checkpointResumed (nodeRefs nodeId none)) :=
      (hreceived.write (.ofNode (by simp) fun _ _ => rfl)).emit env (by simp)
    simp only at h
    split at h
    · exact hresumed.trans (tick_causes env h)
    · cases h
      exact hresumed

theorem handleTaskTerminal_causes (env : Env) (nodeId : NodeId) (taskRunId : TaskRunId) (terminal : TaskTerminal)
    (h : handleTaskTerminal env nodeId taskRunId terminal s = some e) : Causes ⟨s, []⟩ e := by
  unfold handleTaskTerminal at h
  split at h
  · cases h
    exact .refl _
  rename_i row hget
  split at h
  · cases h
    exact .refl _
  rename_i hrunning
  rw [not_or, not_not, not_not] at hrunning
  split at h
  · cases h
    exact .refl _
  split at h
  · cases h
    refine Logged.Evolves.trans ?_ convergeCancellation_causes
    exact ((Causes.refl _).write (.ofNode (by simp) fun _ _ => rfl)).emit env (by simp)
  have hopen : Opened s := .ofRunning nodeId (by rw [Store.stateOf_of_get hget, hrunning.1])
  have hfail : ∀ error, Causes ⟨s, []⟩ (failNode env ⟨s, []⟩ nodeId error (some taskRunId) .nodeFailed) :=
    fun error => (failNode_causes env _ _ _ _ hopen).1
  unfold completeTask at h
  split at h
  · split at h
    · cases h
      exact hfail _
    have hdone : ∀ output at_, Causes ⟨s, []⟩ (emit env (Exec.write ⟨s, []⟩ (s.putNodeState nodeId
        ⟨.done, none, some output, some taskRunId, at_⟩)) .nodeCompleted
        (nodeRefs nodeId (some taskRunId))) := fun output at_ =>
      ((Causes.refl _).write (.ofNode (by simp) fun _ _ => rfl)).emit env (by simp)
    simp only at h
    split at h
    · exact (hdone _ _).trans (tick_causes env h)
    · cases h
      exact hdone _ _
  · cases h
    exact .refl _
  · cases h
    exact hfail _

private theorem applyPatch_causes (stored : StoredPatch) (graph : Graph) (eventId : JsString) (at_ : Time) :
    CauseStep s (s.applyPatch stored graph eventId at_) := by
  obtain ⟨hrun, -, -, hjournal⟩ := foldl_applyOperation_kept at_ stored.patch.ops (s.replaceGraph graph)
  have hstate : ∀ id state, (s.applyPatch stored graph eventId at_).stateOf id = some state →
      s.stateOf id = some state ∨ state = .planned := by
    intro id state hstate
    obtain ⟨row, hget, rfl⟩ := Store.exists_get_of_stateOf hstate
    rcases foldl_applyOperation_rows stored.patch.ops (s.replaceGraph graph) hget with hold | ⟨hplanned, -⟩
    · exact Or.inl (Store.stateOf_of_get hold)
    · exact Or.inr hplanned
  refine .ofKept hrun (fun _ => ⟨congrArg Run.failureCause hrun, fun id hid => ?_, [_], congrArg (· ++ [_]) hjournal,
    ?_⟩) fun _ hf => ⟨(congrArg Run.failureCause hrun).trans hf.cause, fun id state h => ?_⟩
  · rcases hstate id _ hid with h | h
    · exact h
    · cases h
  · simp
  · rcases hstate id _ h with h | rfl
    · exact hf.nodes id state h
    · rfl

theorem handle_causes {event : GraphEvent} {reply : Reply} (h : handle env s event = some (e, reply)) :
    Logged.Evolves Effect.after (fun e effect => CauseStep e.store (effect.after e.store)) ⟨s, []⟩ e := by
  have hown : ∀ {e}, Causes ⟨s, []⟩ e →
      Logged.Evolves Effect.after (fun e effect => CauseStep e.store (effect.after e.store)) ⟨s, []⟩ e :=
    fun h => h.mono fun _ _ => OwnStep.toCauseStep
  -- a write of the patches alone
  have hpatches : ∀ patches, Logged.Evolves Effect.after (fun e effect => CauseStep e.store (effect.after e.store))
      ⟨s, []⟩ (Exec.write ⟨s, []⟩ { s with patches := patches }) := by
    intro patches
    refine .single (.ofKept rfl (fun _ => ⟨rfl, fun _ => id, [], (append_nil _).symm, by simp⟩) ?_)
    exact fun _ hf => ⟨hf.cause, hf.nodes⟩
  cases event with
  | recover =>
    obtain ⟨e', hrecover, heq⟩ := map_eq_some_iff.mp h
    cases heq
    exact hown ((repair_causes s).trans (handleRecover_causes env hrecover))
  | create graph onNodeFailure =>
    cases h
    exact .refl
  | signal signal =>
    obtain ⟨e', hsignal, heq⟩ := map_eq_some_iff.mp h
    cases heq
    exact hown (handleSignal_causes env signal hsignal)
  | patchRequest patch =>
    simp only [handle, Option.some.injEq] at h
    unfold handlePatchRequest at h
    split at h
    · cases h
      exact .refl
    split at h
    · cases h
      exact .refl
    split at h
    · cases h
      exact .refl
    · cases h
      exact hpatches _
  | patchConfirm patchId =>
    simp only [handle, Option.some.injEq] at h
    unfold handlePatchConfirm at h
    split at h
    · cases h
      exact .refl
    split at h
    · cases h
      exact hpatches _
    split at h
    · cases h
      exact hpatches _
    · cases h
      exact .single (applyPatch_causes _ _ _ _)
  | patchReject patchId =>
    simp only [handle, Option.some.injEq] at h
    unfold handlePatchReject at h
    split at h
    · cases h
      exact .refl
    · cases h
      exact hpatches _
  | taskTerminal nodeId taskRunId terminal =>
    obtain ⟨e', hterminal, heq⟩ := map_eq_some_iff.mp h
    cases heq
    exact hown (handleTaskTerminal_causes env nodeId taskRunId terminal hterminal)

end Wrenyard.TaskGraph
