import Wrenyard.TaskGraph.Progress

/-!
# Cancellation converges

After every handled event, a run whose cancellation was asked for and that has not ended has only running nodes left,
each under a task run, so that a terminal event is still to come.  Two things break this: recovery of such a run under
the pause policy that has to fail a node, since it then stops before the cancellation is taken up again; and a patch
that creates a node meanwhile.  No task is ever started while the cancellation is asked for.
-/

namespace Wrenyard.TaskGraph

open Js

variable {m m' : Machine} {s : Store}

def createsNode (env : Env) (s : Store) (patchId : JsString) : Bool :=
  (s.readPatch patchId).any fun stored =>
    decide (stored.status = .pending) && decide (stored.baseRevision = s.graph.revision) &&
      (validateTaskGraphPostImage env.contracts s.graph stored.patch.ops s.stateOf).isOk &&
      stored.patch.ops.any PatchOperation.creates

def cancellationSafe (env : Env) (s : Store) : GraphEvent → Bool
  | .recover =>
    !(decide (s.run.onNodeFailure = .pause) && s.run.cancelRequested && s.projected.any (recoveryFails env))
  | .patchConfirm patchId => !(s.run.cancelRequested && !s.run.state.finished && createsNode env s patchId)
  | _ => true

def cancellationSafeStep (m : Machine) : Input → Bool
  | .handle env event => m.store.all fun s => cancellationSafe env s event
  | _ => true

/-- A patch that creates no node leaves a cancellation alone. -/
theorem Patched.settling {ops : List PatchOperation} {s' : Store} (h : Patched s ops s')
    (hcreates : s.run.cancelRequested = true → s.run.state.finished = false → ops.any PatchOperation.creates = false)
    (hs : Settling s) : Settling s' := by
  intro hflag hfinished
  rw [h.run] at hflag hfinished
  have hnone := hcreates hflag hfinished
  obtain ⟨hsettled, hbound, id, hid⟩ := hs hflag hfinished
  -- no operation creates a node, so that every row was there before
  have hrows : ∀ id row, s'.nodeStates.get id = some row → s.nodeStates.get id = some row := by
    intro id row hget
    rcases h.rows id row hget with hold | ⟨-, op, hop, hop', -⟩
    · exact hold
    · rw [List.any_eq_false] at hnone
      exact absurd hop' (hnone op hop)
  refine ⟨fun id => ?_, fun id row hget => hbound id row (hrows id row hget), id, ?_⟩
  · constructor
    · intro hplanned
      obtain ⟨row, hget, hrow⟩ := Store.exists_get_of_stateOf hplanned
      exact (hsettled id).1 (by rw [Store.stateOf_of_get (hrows id row hget), hrow])
    · intro hwaiting
      obtain ⟨row, hget, hrow⟩ := Store.exists_get_of_stateOf hwaiting
      exact (hsettled id).2 (by rw [Store.stateOf_of_get (hrows id row hget), hrow])
  · obtain ⟨row, hget, hrow⟩ := Store.exists_get_of_stateOf hid
    rw [Store.stateOf_of_get (h.kept id row hget (by rw [hrow]; simp) (by rw [hrow]; simp)), hrow]

/-- One handled event. -/
theorem HandledEvent.settling {env : Env} {event : GraphEvent} {e : Exec} (h : HandledEvent env s event e)
    (hwf : Wf s)
    (hsafe : cancellationSafe env s event = true) (hs : event ≠ .recover → Settling s) : Settling e.store := by
  cases h with
  | recover h =>
    obtain ⟨e', hrecover, -, -, -, hsettling⟩ := handleRecover_spec env hwf
    rw [h] at hrecover
    cases hrecover
    refine hsettling fun hpause hflag => ?_
    simpa [cancellationSafe, hpause, hflag] using hsafe
  | ordinary hne h => exact h.settling (hs hne)
  | @patched patchId stored store hread hpending hbase hvalid hpatched =>
    refine hpatched.settling (fun hflag hfinished => ?_) (hs (by simp))
    have hcreates : createsNode env s patchId = false := by
      simpa [cancellationSafe, hflag, hfinished] using hsafe
    unfold createsNode at hcreates
    rw [hread, Option.any_some, hpending, hbase, hvalid] at hcreates
    simpa using hcreates

/-- After every handled event of a run whose steps are safe, a cancellation waits for task runs only. -/
theorem exec_settling {inputs : List Input} {logs : List (List Effect)}
    (h : Transition.exec (Transition.guarded cancellationSafeStep step) .initial inputs = some (m, logs)) :
    MachineLaw Settling m := by
  refine (Transition.run_of_exec h).invariant (MachineLaw Settling) (fun m e m' hm hstep => ?_) .initial
  obtain ⟨hstep, hsafe⟩ := Transition.stepOf_guarded hstep
  refine step_law (fun s _ hflag hflag' => ?_) (fun hstore hinput hwf _ hevent hs => ?_) hm hstep
  · rw [hflag] at hflag'
    cases hflag'
  · refine hevent.settling hwf ?_ hs
    rw [hinput] at hsafe
    simpa [cancellationSafeStep, hstore] using hsafe

/-- No task is started, and no node made running, while the cancellation of the run is asked for. -/
theorem not_cancelRequested_of_dispatch {e : Exec} (h : Runs ⟨s, []⟩ e) {pre post : List Effect} {effect : Effect}
    (hlog : e.log = pre ++ effect :: post)
    (heffect : (∃ request, effect = .startTask request) ∨ ∃ nodeId store, effect = .activate nodeId store) :
    (pre.foldl Effect.after s).run.cancelRequested = false := by
  have hallowed := h.allowed_at hlog
  cases hallowed with
  | move hmove =>
    cases hmove with
    | write => rcases heffect with ⟨_, h⟩ | ⟨_, _, h⟩ <;> cases h
    | activate hsafe hschedulable => exact (schedulable_iff.mp hschedulable).2
    | startTask hpending hrunning hschedulable => exact (schedulable_iff.mp hschedulable).2
    | cancelTask => rcases heffect with ⟨_, h⟩ | ⟨_, _, h⟩ <;> cases h
  | patch => rcases heffect with ⟨_, h⟩ | ⟨_, _, h⟩ <;> cases h

/-- **Cancellation converges**, in every run in which no recovery fails a node of a pause-policy run that is to be
cancelled, and no patch creates a node of a run that is to be cancelled: after every handled event such a run, unless
it has ended, has no node planned or waiting and a node that runs under a task run.  No node is dispatched
meanwhile. -/
theorem cancellation_converges {inputs : List Input} {logs : List (List Effect)}
    (h : Transition.exec (Transition.guarded cancellationSafeStep step) .initial inputs = some (m, logs)) :
    (∀ s, m.store = some s → m.recovered = true → s.run.cancelRequested = true → s.run.state.finished = false →
      (∀ id, s.stateOf id ≠ some .planned ∧ s.stateOf id ≠ some .waiting) ∧
        ∃ id row, s.nodeStates.get id = some row ∧ row.state = .running ∧ row.taskRunId ≠ none) ∧
      ∀ pre effect post, logs.flatten = pre ++ effect :: post →
        ((∃ request, effect = .startTask request) ∨ ∃ nodeId store, effect = .activate nodeId store) →
        ∃ s, storeAfter none pre = some s ∧ s.run.cancelRequested = false := by
  constructor
  · intro s hs hrecovered hflag hfinished
    obtain ⟨hsettled, hbound, id, hid⟩ := (exec_settling h s hs).2 hrecovered hflag hfinished
    obtain ⟨row, hget, hrow⟩ := Store.exists_get_of_stateOf hid
    exact ⟨hsettled, id, row, hget, hrow, hbound id row hget hrow⟩
  · intro pre effect post hlog heffect
    rcases exec_initial rfl (Transition.exec_of_guarded h) with ⟨-, hnil⟩ | ⟨s, s', rest, hrest, -, -, hruns⟩
    · rw [hnil] at hlog
      cases pre <;> cases hlog
    rw [hrest] at hlog
    cases pre with
    | nil =>
      cases hlog
      rcases heffect with ⟨_, h⟩ | ⟨_, _, h⟩ <;> cases h
    | cons first pre =>
      cases hlog
      exact ⟨_, storeAfter_some s pre, not_cancelRequested_of_dispatch hruns rfl heffect⟩

/-- A run that is cancelled while its task is under way. -/
theorem cancellation_converges_started : ∃ m logs s id,
    Transition.exec (Transition.guarded cancellationSafeStep step) .initial
      (sampleStarted .pause ++ [.handle (sampleEnv none (.ok ())) (.signal .cancelGraph)]) = some (m, logs) ∧
    m.store = some s ∧ s.run.cancelRequested = true ∧ s.run.state.finished = false ∧
    ∃ row, s.nodeStates.get id = some row ∧ row.state = .running ∧ row.taskRunId ≠ none := by
  have hany : ((Transition.exec (Transition.guarded cancellationSafeStep step) .initial
      (sampleStarted .pause ++ [.handle (sampleEnv none (.ok ())) (.signal .cancelGraph)])).any fun r =>
        r.1.recovered && r.1.store.any fun s => s.run.cancelRequested && !s.run.state.finished) = true := by
    decide
  rw [Option.any_eq_true] at hany
  obtain ⟨⟨m, logs⟩, hexec, hp⟩ := hany
  rw [Bool.and_eq_true, Option.any_eq_true] at hp
  obtain ⟨hrecovered, s, hs, hrun⟩ := hp
  rw [Bool.and_eq_true, Bool.not_eq_true'] at hrun
  obtain ⟨-, id, row, hget, hrow⟩ := (cancellation_converges hexec).1 s hs hrecovered hrun.1 hrun.2
  exact ⟨m, logs, s, id, hexec, hs, hrun.1, hrun.2, row, hget, hrow⟩

/-- A pause-policy run is cancelled and the process restarted; its task run cannot be reattached.  Recovery fails the
node, pauses the run and returns: the cancellation is still asked for, and nothing runs. -/
theorem cancellation_not_converges : ¬ ∀ inputs m logs s, Transition.exec step .initial inputs = some (m, logs) →
    m.recovered = true → m.store = some s → s.run.cancelRequested = true → s.run.state.finished = false →
    (∀ id, s.stateOf id ≠ some .planned ∧ s.stateOf id ≠ some .waiting) ∧ ∃ id row, s.nodeStates.get id = some row ∧
    row.state = .running ∧ row.taskRunId ≠ none := by
  intro hall
  obtain ⟨m, logs, s, hexec, hrecovered, hs, hrun⟩ := exists_store_of_exec
    (sampleStarted .pause ++ [.handle (sampleEnv none (.ok ())) (.signal .cancelGraph), .restart,
      .handle (sampleEnv none (.error (js "unknown task run"))) .recover])
    (fun s => s.run.cancelRequested && !s.run.state.finished &&
      !(s.nodeStates.any fun entry => entry.2.state = .running)) (by decide)
  simp only [Bool.and_eq_true, Bool.not_eq_true'] at hrun
  obtain ⟨-, id, row, hget, hrow, -⟩ := hall _ m logs s hexec hrecovered hs hrun.1.1 hrun.1.2
  have hnone := List.any_eq_false.mp hrun.2 (id, row) (OMap.mem_of_get hget)
  rw [hrow] at hnone
  simp at hnone

end Wrenyard.TaskGraph
