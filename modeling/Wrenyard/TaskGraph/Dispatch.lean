import Mathlib.Data.List.Induction
import Wrenyard.TaskGraph.Runs

/-!
# Dispatch safety

In the log of a whole run, a planned node becomes running or waiting only when each of its dependencies is done and
each condition among them selected it.  Starting the task of a node follows its being made running, which needs the
node planned; and only a patch makes a node planned again, so that one lies between any two starts of a node.
-/

namespace Wrenyard.TaskGraph

open Js List

variable {s : Store} {e : Exec}

def Selects (s : Store) (condition nodeId : NodeId) : Prop :=
  ∃ row output, s.nodeStates.get condition = some row ∧ row.output = some output ∧
    output.get (js "branch") = some (.str nodeId)

def Ready (s : Store) (node : Node) : Prop :=
  ∀ dep ∈ node.deps, s.stateOf dep = some .done ∧
    ∀ depNode, s.graph.nodes.get dep = some depNode → depNode.action.type = .condition → Selects s dep node.id

theorem ready_of_satisfied {node : Node} (h : dependencyStatus s node = .satisfied) : Ready s node := by
  have hall : ∀ dep ∈ node.deps, dependencyOf s node dep = .satisfied := by
    intro dep hdep
    have hmem : dependencyOf s node dep ∈ node.deps.map (dependencyOf s node) := mem_map_of_mem hdep
    unfold dependencyStatus at h
    simp only at h
    split at h
    · cases h
    rename_i himpossible
    split at h
    · cases h
    rename_i hwaiting
    cases hstatus : dependencyOf s node dep with
    | satisfied => rfl
    | waiting => exact absurd (hstatus ▸ hmem) hwaiting
    | impossible => exact absurd (hstatus ▸ hmem) himpossible
  intro dep hdep
  have hdep' := hall dep hdep
  unfold dependencyOf at hdep'
  split at hdep'
  · rename_i depNode row hnode hrow
    split at hdep'
    · rename_i hdone
      split at hdep'
      · cases hdep'
      rename_i hselected
      refine ⟨by rw [Store.stateOf_of_get hrow, hdone], fun depNode' hget htype => ?_⟩
      rw [hnode] at hget
      cases hget
      have hbranch := not_not.mp fun hne => hselected ⟨htype, hne⟩
      obtain ⟨output, houtput, hget⟩ := Option.bind_eq_some_iff.mp hbranch
      exact ⟨row, output, hrow, houtput, hget⟩
    · split at hdep' <;> cases hdep'
  · cases hdep'

variable {effect : Effect}

theorem RunMove.ready {id : NodeId} (h : RunMove e effect) (hwf : Wf e.store)
    (hplanned : e.store.stateOf id = some .planned)
    (hto : (effect.after e.store).stateOf id = some .running ∨ (effect.after e.store).stateOf id = some .waiting) :
    ∃ node, e.store.graph.nodes.get id = some node ∧ node.id = id ∧ Ready e.store node := by
  cases h with
  | move hmove =>
    obtain ⟨node, hnode⟩ : ∃ node, e.store.graph.nodes.get id = some node := by
      have hmem := (hwf.keys id).mp (Store.mem_keys_of_stateOf hplanned)
      rw [← OMap.has_eq_true_iff, OMap.has] at hmem
      exact Option.isSome_iff_exists.mp hmem
    exact ⟨node, hnode, hwf.graph.ids id node hnode,
      ready_of_satisfied (hmove.safe.dispatched id node hplanned hto hnode)⟩
  | @patch ops store hpatched =>
    -- a patch leaves a node running or waiting only if it was so before
    have hnone : ∀ state, store.stateOf id = some state → state = .running ∨ state = .waiting → False := by
      intro state hstate hactive
      obtain ⟨row, hget, rfl⟩ := Store.exists_get_of_stateOf hstate
      rcases hpatched.rows id row hget with hold | ⟨hrow, -⟩
      · rw [Store.stateOf_of_get hold, Option.some.injEq] at hplanned
        rcases hactive with h | h <;> rw [hplanned] at h <;> cases h
      · rcases hactive with h | h <;> rw [hrow] at h <;> cases h
    rcases hto with hto | hto
    · exact (hnone _ hto (Or.inl rfl)).elim
    · exact (hnone _ hto (Or.inr rfl)).elim

def Recreates (nodeId : NodeId) (effect : Effect) : Prop :=
  ∃ ops store, effect = .applyPatch ops store ∧ ∃ op ∈ ops, op.creates = true ∧ op.target = nodeId

theorem recreated_of_planned {nodeId : NodeId} (h : Runs ⟨s, []⟩ e) (mid : List Effect) (pre post : List Effect)
    (hlog : e.log = pre ++ mid ++ post) (hbefore : (pre.foldl Effect.after s).stateOf nodeId ≠ some .planned)
    (hafter : ((pre ++ mid).foldl Effect.after s).stateOf nodeId = some .planned) :
    ∃ effect ∈ mid, Recreates nodeId effect := by
  induction mid generalizing pre with
  | nil =>
    rw [append_nil] at hafter
    exact absurd hafter hbefore
  | cons effect mid ih =>
    have hallowed : RunMove ⟨pre.foldl Effect.after s, pre⟩ effect := by
      have hsplit : e.log = pre ++ effect :: (mid ++ post) := by rw [hlog, append_assoc, cons_append]
      exact h.allowed_at hsplit
    by_cases hstill : (effect.after (pre.foldl Effect.after s)).stateOf nodeId = some .planned
    · refine ⟨effect, mem_cons_self .., ?_⟩
      cases hallowed with
      | move hmove => exact absurd (hmove.safe.planned nodeId hstill) hbefore
      | @patch ops store hpatched =>
        obtain ⟨row, hget, hrow⟩ := Store.exists_get_of_stateOf hstill
        rcases hpatched.rows nodeId row hget with hold | ⟨-, hcreated⟩
        · exact absurd (by rw [Store.stateOf_of_get hold, hrow]) hbefore
        · exact ⟨ops, store, rfl, hcreated⟩
    · obtain ⟨effect', hmem, hrecreates⟩ := ih (pre ++ [effect]) (by rw [hlog]; simp)
        (by rw [foldl_append]; exact hstill) (by rw [append_assoc]; exact hafter)
      exact ⟨effect', mem_cons_of_mem _ hmem, hrecreates⟩

theorem exists_activate_of_pending {nodeId : NodeId} (log : List Effect) (h : pending log = some nodeId) :
    ∃ pre store post, log = pre ++ .activate nodeId store :: post ∧ ∀ request, .startTask request ∉ post := by
  induction log using List.reverseRecOn with
  | nil => cases h
  | append_singleton log effect ih =>
    have hkeep : pending (log ++ [effect]) = pending log → (∀ request, effect ≠ .startTask request) →
        ∃ pre store post, log ++ [effect] = pre ++ .activate nodeId store :: post ∧
          ∀ request, .startTask request ∉ post := by
      intro heq hne
      obtain ⟨pre, store, post, rfl, hpost⟩ := ih (heq ▸ h)
      refine ⟨pre, store, post ++ [effect], by simp, fun request hmem => ?_⟩
      rcases mem_append.mp hmem with hmem | hmem
      · exact hpost request hmem
      · exact hne request (mem_singleton.mp hmem).symm
    cases effect with
    | write store => exact hkeep (pending_write log store) (by simp)
    | activate nodeId' store =>
      rw [pending_activate] at h
      cases h
      exact ⟨log, store, [], rfl, by simp⟩
    | applyPatch ops store => exact hkeep (by simp [pending]) (by simp)
    | startTask request => simp [pending] at h
    | cancelTask taskRunId => exact hkeep (by simp [pending]) (by simp)

/-- A start of a node that was not planned at some earlier point comes after its being created anew. -/
theorem recreated_of_start {request : TaskRequest} (h : Runs ⟨s, []⟩ e) (pre mid post : List Effect)
    (hlog : e.log = pre ++ mid ++ .startTask request :: post)
    (hbefore : (pre.foldl Effect.after s).stateOf request.nodeId ≠ some .planned)
    (hpre : pre = [] ∨ ∃ first request', pre = first ++ [.startTask request']) :
    ∃ effect ∈ mid, Recreates request.nodeId effect := by
  have hallowed := h.allowed_at hlog
  cases hallowed with
  | move hmove =>
    cases hmove with
    | startTask hpending hrunning hschedulable =>
      obtain ⟨pre', store, post', hsplit, hnostart⟩ := exists_activate_of_pending _ hpending
      -- the activation lies in the middle part
      obtain ⟨mid', hmid⟩ : ∃ mid', pre' = pre ++ mid' := by
        rcases hpre with rfl | ⟨first, request', rfl⟩
        · exact ⟨pre', rfl⟩
        rw [append_assoc, singleton_append] at hsplit
        rcases append_eq_append_iff.mp hsplit with ⟨as, hpre', hrest⟩ | ⟨bs, hfirst, hrest⟩
        · cases as with
          | nil => cases hrest
          | cons a as =>
            obtain ⟨rfl, -⟩ := List.cons.inj hrest
            exact ⟨as, by rw [hpre']; simp⟩
        · exfalso
          cases bs with
          | nil => cases hrest
          | cons b bs =>
            obtain ⟨-, hpost⟩ := List.cons.inj hrest
            exact hnostart request' (by rw [hpost]; simp)
      subst hmid
      rw [append_assoc] at hsplit
      have hmid := append_cancel_left hsplit
      have hplanned : ((pre ++ mid').foldl Effect.after s).stateOf request.nodeId = some .planned := by
        have hactivate : RunMove ⟨(pre ++ mid').foldl Effect.after s, pre ++ mid'⟩
            (.activate request.nodeId store) := by
          have hlog' : e.log = (pre ++ mid') ++ .activate request.nodeId store ::
              (post' ++ .startTask request :: post) := by
            rw [hlog, hmid]
            simp
          exact h.allowed_at hlog'
        cases hactivate with
        | move hmove' =>
          cases hmove' with
          | activate hsafe hs hp => exact hp
      obtain ⟨effect, hmem, hrecreates⟩ := recreated_of_planned h mid' pre
        (.activate request.nodeId store :: post' ++ .startTask request :: post)
          (by rw [hlog, hmid]; simp) hbefore hplanned
      exact ⟨effect, by rw [hmid]; exact mem_append_left _ hmem, hrecreates⟩

/-! ### Whole runs -/

variable {logs : List (List Effect)} {inputs : List Input} {m : Machine}

variable (h : Transition.exec step .initial inputs = some (m, logs))
include h

private theorem exists_runs_of_split {pre post : List Effect}
 (hlog : logs.flatten = pre ++ effect :: post)
    (hpre : pre ≠ []) : ∃ s₀ s' pre', pre = .write s₀ :: pre' ∧ Wf s₀ ∧ Runs ⟨s₀, []⟩ ⟨s', pre' ++ effect :: post⟩ ∧
    storeAfter none pre = some (pre'.foldl Effect.after s₀) := by
  rcases exec_initial rfl h with ⟨-, hnil⟩ | ⟨s₀, s', rest, hrest, -, hwf, hruns⟩
  · rw [hnil] at hlog
    cases pre <;> cases hlog
  rw [hrest] at hlog
  cases pre with
  | nil => exact absurd rfl hpre
  | cons first pre =>
    cases hlog
    exact ⟨s₀, s', pre, rfl, hwf, hruns, storeAfter_some s₀ pre⟩

/-- A node leaves planned for running or waiting only when it is ready. -/
theorem ready_of_exec {pre post : List Effect} {s' : Store}
    {id : NodeId}
    (hlog : logs.flatten = pre ++ effect :: post) (hs : storeAfter none pre = some s)
    (hs' : storeAfter none (pre ++ [effect]) = some s') (hplanned : s.stateOf id = some .planned)
    (hto : s'.stateOf id = some .running ∨ s'.stateOf id = some .waiting) :
    ∃ node, s.graph.nodes.get id = some node ∧ node.id = id ∧ Ready s node := by
  have hpre : pre ≠ [] := by
    rintro rfl
    cases hs
  obtain ⟨s₀, s₁, pre', rfl, hwf, hruns, hstore⟩ := exists_runs_of_split h hlog hpre
  rw [hs] at hstore
  cases hstore
  have hallowed := hruns.allowed_at rfl
  have hwf' : Wf (pre'.foldl Effect.after s₀) := by
    have htake := Runs.wf (hruns.take pre'.length) hwf
    rwa [take_left] at htake
  have hafter : s' = effect.after (pre'.foldl Effect.after s₀) := by
    have hfold : storeAfter none (.write s₀ :: (pre' ++ [effect])) =
        some ((pre' ++ [effect]).foldl Effect.after s₀) :=
      storeAfter_some s₀ (pre' ++ [effect])
    rw [← cons_append, hs', foldl_append] at hfold
    exact Option.some.inj hfold
  rw [hafter] at hto
  exact hallowed.ready hwf' hplanned hto

/-- Between two starts of a node it was created anew. -/
theorem recreated_between_starts {pre mid post : List Effect}
    {first second : TaskRequest}
    (hlog : logs.flatten = pre ++ .startTask first :: mid ++ .startTask second :: post)
    (hsame : second.nodeId = first.nodeId) : ∃ effect ∈ mid, Recreates first.nodeId effect := by
  rw [append_assoc, cons_append] at hlog
  have hpre : pre ≠ [] := by
    rintro rfl
    -- the first effect of a run is its creation
    rcases exec_initial rfl h with ⟨-, hnil⟩ | ⟨s₀, s', rest, hrest, -, -, -⟩
    · rw [hnil] at hlog
      cases hlog
    · rw [hrest] at hlog
      cases hlog
  obtain ⟨s₀, s₁, pre', rfl, hwf, hruns, hstore⟩ := exists_runs_of_split h hlog hpre
  have hrunning : (pre'.foldl Effect.after s₀).stateOf first.nodeId = some .running := by
    have hallowed := hruns.allowed_at rfl
    cases hallowed with
    | move hmove =>
      cases hmove with
      | startTask hpending hrunning hschedulable => exact hrunning
  rw [← hsame]
  refine recreated_of_start hruns (pre' ++ [.startTask first]) mid post (by simp) ?_ (Or.inr ⟨pre', first, rfl⟩)
  rw [foldl_append, hsame]
  have hnot : (pre'.foldl Effect.after s₀).stateOf first.nodeId ≠ some .planned := by
    rw [hrunning]
    simp
  exact hnot

omit h

/-- **Dispatch is safe.**  In the log of every run: a node leaves planned for running or waiting only when its
dependencies are done and the conditions among them selected it; between two starts of one node a patch created it
anew; and a node that runs without a task run after a restart is failed by recovery, and started again only after a
patch created it anew. -/
theorem dispatch_safe {m : Machine} {inputs : List Input} {logs : List (List Effect)}
    (h : Transition.exec step .initial inputs = some (m, logs)) :
    (∀ pre effect post s s' id, logs.flatten = pre ++ effect :: post → storeAfter none pre = some s →
        storeAfter none (pre ++ [effect]) = some s' → s.stateOf id = some .planned →
        s'.stateOf id = some .running ∨ s'.stateOf id = some .waiting →
        ∃ node, s.graph.nodes.get id = some node ∧ node.id = id ∧ Ready s node) ∧
      (∀ pre first mid second post, logs.flatten = pre ++ .startTask first :: mid ++ .startTask second :: post →
        second.nodeId = first.nodeId → ∃ effect ∈ mid, Recreates first.nodeId effect) ∧
      ∀ s id row, m.store = some s → m.recovered = false → s.nodeStates.get id = some row → row.state = .running →
        row.taskRunId = none →
        (∀ env m' log, step m (.handle env .recover) = some (m', log) →
          ∃ s', m'.store = some s' ∧ s'.stateOf id = some .failed) ∧
        ∀ inputs' m' logs', Transition.exec step m inputs' = some (m', logs') →
          ∀ pre request post, logs'.flatten = pre ++ .startTask request :: post → request.nodeId = id →
            ∃ effect ∈ pre, Recreates id effect := by
  refine ⟨fun pre effect post s s' id => ready_of_exec h,
    fun pre first mid second post => recreated_between_starts h, ?_⟩
  intro s id row hs hrecovered hget hrunning hunbound
  have hwf := wf_of_exec h hs
  constructor
  · intro env m' log hstep
    obtain ⟨e, hevent, rfl, -, -⟩ := step_handle hs hwf hstep
    obtain ⟨e', hrecover, -, -, hfails, -⟩ := handleRecover_spec env hwf
    refine ⟨e.store, rfl, ?_⟩
    cases hevent with
    | recover hrecover' =>
      rw [hrecover'] at hrecover
      cases hrecover
      refine hfails id row hget ?_
      simp [recoveryFails, hrunning, hunbound]
    | ordinary hne => exact absurd rfl hne
  · intro inputs' m' logs' hexec pre request post hlog hid
    obtain ⟨s', -, hruns⟩ := exec_runs hs hwf hexec
    subst hid
    refine recreated_of_start hruns [] pre post hlog ?_ (Or.inl rfl)
    have hnot : s.stateOf request.nodeId ≠ some .planned := by
      rw [Store.stateOf_of_get hget, hrunning]
      simp
    exact hnot

/-- A crash between the start of a task and the binding of its run: recovery fails the node. -/
theorem dispatch_safe_crashed : ∃ m logs m' log s',
    Transition.exec step .initial
      [.handle (sampleEnv (some sampleRun) (.ok ())) .recover,
        .handle (sampleEnv (some sampleRun) (.ok ())) (.create sampleGraph (some .pause)),
        .crash (sampleEnv (some sampleRun) (.ok ())) (.signal (.startGraph [])) 7] = some (m, logs) ∧
    (∃ request, .startTask request ∈ logs.flatten ∧ request.nodeId = js "work") ∧
    step m (.handle (sampleEnv none (.ok ())) .recover) = some (m', log) ∧ m'.store = some s' ∧
    s'.stateOf (js "work") = some .failed := by
  have hany : ((Transition.exec step .initial
      [.handle (sampleEnv (some sampleRun) (.ok ())) .recover,
        .handle (sampleEnv (some sampleRun) (.ok ())) (.create sampleGraph (some .pause)),
        .crash (sampleEnv (some sampleRun) (.ok ())) (.signal (.startGraph [])) 7]).any fun r =>
        !r.1.recovered && (r.1.store.any fun s => (s.nodeStates.get (js "work")).any fun row =>
          decide (row.state = .running) && row.taskRunId.isNone) && (r.2.flatten.any fun effect =>
            match effect with
            | .startTask request => decide (request.nodeId = js "work")
            | _ => false) && (step r.1 (.handle (sampleEnv none (.ok ())) .recover)).isSome) = true := by
    decide
  rw [Option.any_eq_true] at hany
  obtain ⟨⟨m, logs⟩, hexec, hp⟩ := hany
  simp only [Bool.and_eq_true, Bool.not_eq_true', Option.any_eq_true, List.any_eq_true, decide_eq_true_eq,
    Option.isNone_iff_eq_none] at hp
  obtain ⟨⟨⟨hrecovered, s, hs, row, hget, hrunning, hunbound⟩, effect, hmem, hstart⟩, hstep⟩ := hp
  obtain ⟨⟨m', log⟩, hstep⟩ := Option.isSome_iff_exists.mp hstep
  obtain ⟨s', hs', hfailed⟩ :=
    ((dispatch_safe hexec).2.2 s (js "work") row hs hrecovered hget hrunning hunbound).1 _ m' log hstep
  refine ⟨m, logs, m', log, s', hexec, ?_, hstep, hs', hfailed⟩
  cases effect with
  | startTask request => exact ⟨request, hmem, of_decide_eq_true hstart⟩
  | write | activate | applyPatch | cancelTask => cases hstart

end Wrenyard.TaskGraph
