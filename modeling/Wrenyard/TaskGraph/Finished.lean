import Wrenyard.TaskGraph.Runs

/-!
# Finished runs

What a finished run shows (`evidence`) is its state, whether its cancellation is asked for, the first cause of
failure, its end and the states of its nodes.  Signals and task terminals leave it alone, with one exception: a
checkpoint that was waiting when the run ended can still be resumed.  Recovery leaves it alone if it has nothing to
repair, finds no running node that it must fail, and the cancellation is not asked for; it does not look at whether
the run has ended.  Only the confirmation of a patch changes nodes by design.
-/

namespace Wrenyard.TaskGraph

open Js Option

variable {env : Env} {s : Store} {m m' : Machine}

structure Evidence where
  state : GraphState
  cancelRequested : Bool
  failureCause : Option FailureCause
  endedAt : Option Time
  nodes : List (NodeId × NodeRunState)
deriving DecidableEq

def evidence (s : Store) : Evidence where
  state := s.run.state
  cancelRequested := s.run.cancelRequested
  failureCause := s.run.failureCause
  endedAt := s.run.endedAt
  nodes := s.nodeStates.map fun entry => (entry.1, entry.2.state)

def runEvidence (s : Store) : GraphState × Bool × Option FailureCause × Option Time :=
  (s.run.state, s.run.cancelRequested, s.run.failureCause, s.run.endedAt)

/-- Whether a step applies a patch, by design on a finished run too. -/
def Input.confirmsPatch : Input → Bool
  | .handle _ (.patchConfirm _) => true
  | .crash _ (.patchConfirm _) _ => true
  | _ => false

def finishedSafe (env : Env) (s : Store) : GraphEvent → Bool
  | .recover =>
    s.repairCancelPolicyFailure.isNone && !s.run.cancelRequested && !s.projected.any (recoveryFails env)
  | .signal (.resumeCheckpoint nodeId output) =>
    !(s.graph.nodes.get nodeId).any fun node =>
      decide (node.action.type = .checkpoint) && decide (s.stateOf nodeId = some .waiting) &&
        conforms env node.outputSchema output (js "CHECKPOINT_OUTPUT_SCHEMA_MISMATCH")
  | _ => true

def finishedSafeStep (m : Machine) : Input → Bool
  | .handle env event => m.store.all fun s => !s.run.state.finished || finishedSafe env s event
  | .crash env event _ => m.store.all fun s => !s.run.state.finished || finishedSafe env s event
  | .restart => true

abbrev Shows : Exec → Exec → Prop :=
  Logged.Evolves Effect.after fun e effect => evidence (effect.after e.store) = evidence e.store

theorem Shows.evidence_eq {e e' : Exec} (h : Shows e e') : evidence e'.store = evidence e.store :=
  h.invariant (fun s => evidence s = evidence e.store) (fun _ _ hmove hs => hmove.trans hs) rfl

private theorem foldl_recoverNode_of_none {entries : List (NodeId × NodeState)}
    (h : entries.any (recoveryFails env) = false) (acc : Exec × Bool) :
    entries.foldl (recoverNode env) acc = acc := by
  induction entries with
  | nil => rfl
  | cons entry entries ih =>
    rw [List.any_cons, Bool.or_eq_false_iff] at h
    rw [List.foldl_cons, recoverNode_of_not_fails h.1]
    exact ih h.2

variable (hfinished : s.run.state.finished = true)
include hfinished

theorem handleRecover_of_finished (h : finishedSafe env s .recover = true) : handleRecover env s = some ⟨s, []⟩ := by
  unfold finishedSafe at h
  rw [Bool.and_eq_true, Bool.and_eq_true, isNone_iff_eq_none, Bool.not_eq_true', Bool.not_eq_true'] at h
  obtain ⟨⟨hrepair, hflag⟩, hfails⟩ := h
  have hrepaired : repair s = ⟨s, []⟩ := by
    unfold repair
    rw [hrepair]
  unfold handleRecover
  simp only [foldl_recoverNode_of_none hfails, hrepaired, hflag, Bool.false_eq_true, if_false]
  split
  · rename_i hrunning
    rw [hrunning] at hfinished
    cases hfinished
  · rfl

private theorem handleSignal_of_finished {signal : Signal} {e : Exec}
    (hsafe : finishedSafe env s (.signal signal) = true) (h : handleSignal env signal s = some e) :
    Shows ⟨s, []⟩ e := by
  have hreceived : Shows ⟨s, []⟩ (emit env ⟨s, []⟩ .signalReceived runRefs) := .single rfl
  have hdecided := decideTaskGraphSignal_spec env (emit env ⟨s, []⟩ .signalReceived runRefs).store signal
  unfold handleSignal at h
  simp only at h
  generalize decideTaskGraphSignal env (emit env ⟨s, []⟩ .signalReceived runRefs).store signal = decision
    at hdecided h
  cases hdecided with
  | ignore reason =>
    cases h
    exact .push hreceived rfl
  | start hcreated | pause hcreated | resume hcreated =>
    rw [emit_run] at hcreated
    rw [hcreated] at hfinished
    cases hfinished
  | cancel hnot =>
    rw [emit_run, hfinished] at hnot
    cases hnot
  | @resumeCheckpoint nodeId output node hnode htype hwaiting hconforms =>
    rw [emit_graph] at hnode
    rw [emit_stateOf] at hwaiting
    simp [finishedSafe, hnode, htype, hwaiting, hconforms] at hsafe

private theorem handleTaskTerminal_of_finished {nodeId : NodeId} {taskRunId : TaskRunId} {terminal : TaskTerminal} :
    handleTaskTerminal env nodeId taskRunId terminal s = some ⟨s, []⟩ := by
  unfold handleTaskTerminal
  split
  · rfl
  · split
    · rfl
    · rfl

theorem handle_of_finished {event : GraphEvent} {e : Exec} {reply : Reply}
    (hsafe : finishedSafe env s event = true) (hpatch : ∀ patchId, event ≠ .patchConfirm patchId)
    (h : handle env s event = some (e, reply)) : Shows ⟨s, []⟩ e := by
  cases event with
  | recover =>
    simp only [handle, handleRecover_of_finished hfinished hsafe] at h
    cases h
    exact .refl
  | create graph onNodeFailure =>
    cases h
    exact .refl
  | signal signal =>
    simp only [handle, map_eq_some_iff, Prod.mk.injEq] at h
    obtain ⟨e', hsignal, rfl, -⟩ := h
    exact handleSignal_of_finished hfinished hsafe hsignal
  | patchRequest patch =>
    simp only [handle, Option.some.injEq] at h
    unfold handlePatchRequest at h
    split at h
    · cases h
      exact .refl
    split at h
    · cases h
      exact .refl
    split at h
    · cases h
      exact .refl
    · cases h
      exact .single rfl
  | patchConfirm patchId => exact absurd rfl (hpatch patchId)
  | patchReject patchId =>
    simp only [handle, Option.some.injEq] at h
    unfold handlePatchReject at h
    split at h
    · cases h
      exact .refl
    · cases h
      exact .single rfl
  | taskTerminal nodeId taskRunId terminal =>
    simp only [handle, handleTaskTerminal_of_finished hfinished] at h
    cases h
    exact .refl

omit hfinished

variable {log : List Effect}

/-- One step of a finished run, other than the confirmation of a patch. -/
theorem step_of_finished {input : Input} (hstore : m.store = some s)
    (hfinished : s.run.state.finished = true) (hsafe : finishedSafeStep m input = true)
    (hpatch : input.confirmsPatch = false) (h : step m input = some (m', log)) :
    ∃ s', m'.store = some s' ∧ evidence s' = evidence s := by
  cases input with
  | handle env event =>
    have hevent : ∀ patchId, event ≠ .patchConfirm patchId := by
      rintro patchId rfl
      cases hpatch
    simp only [finishedSafeStep, hstore, all_some, hfinished, Bool.not_true, Bool.false_or] at hsafe
    simp only [step, hstore, effectsOf] at h
    split at h
    · cases h
    rw [map_map, map_eq_some_iff] at h
    obtain ⟨⟨e, reply⟩, hhandle, heq⟩ := h
    cases heq
    have hshows := handle_of_finished hfinished hsafe hevent hhandle
    refine ⟨e.store, ?_, hshows.evidence_eq⟩
    exact (storeAfter_some s e.log).trans (congrArg some hshows.store_eq.symm)
  | crash env event effects =>
    have hevent : ∀ patchId, event ≠ .patchConfirm patchId := by
      rintro patchId rfl
      cases hpatch
    simp only [finishedSafeStep, hstore, all_some, hfinished, Bool.not_true, Bool.false_or] at hsafe
    simp only [step, hstore, effectsOf] at h
    split at h
    · cases h
    rw [map_map, map_eq_some_iff] at h
    obtain ⟨⟨e, reply⟩, hhandle, heq⟩ := h
    cases heq
    have hshows := (handle_of_finished hfinished hsafe hevent hhandle).take effects
    exact ⟨_, storeAfter_some s _, Shows.evidence_eq hshows⟩
  | restart =>
    cases h
    exact ⟨s, hstore, rfl⟩

private theorem run_of_handlePatchConfirm {patchId : JsString} (hwf : Wf s)
    (h : effectsOf env (.patchConfirm patchId) (some s) = some log) (k : Nat) :
    ∃ s', storeAfter (some s) (log.take k) = some s' ∧ s'.run = s.run := by
  rw [storeAfter_some]
  refine ⟨_, rfl, ?_⟩
  have hlog : log = (handlePatchConfirm env patchId s).1.log := by
    simp only [effectsOf, handle, map_some, Option.some.injEq] at h
    exact h.symm
  have hone : ∃ effect, (effect.after s).run = s.run ∧ (log = [] ∨ log = [effect]) := by
    rw [hlog]
    unfold handlePatchConfirm
    split
    · exact ⟨.write s, rfl, Or.inl rfl⟩
    split
    · exact ⟨_, rfl, Or.inr rfl⟩
    split
    · exact ⟨_, rfl, Or.inr rfl⟩
    · rename_i image hvalid
      refine ⟨.applyPatch _ _, ?_, Or.inr rfl⟩
      exact (patched_applyPatch _ _ hwf hvalid).run
  obtain ⟨effect, heffect, rfl | rfl⟩ := hone
  · rw [List.take_nil]
    rfl
  · cases k with
    | zero => rfl
    | succ k =>
      rw [List.take_succ_cons, List.take_nil]
      exact heffect

/-- One step of a finished run leaves the row of the run alone, in what it shows. -/
private theorem runEvidence_of_finished {input : Input} (hstore : m.store = some s) (hwf : Wf s)
    (hfinished : s.run.state.finished = true) (hsafe : finishedSafeStep m input = true)
    (h : step m input = some (m', log)) : ∃ s', m'.store = some s' ∧ runEvidence s' = runEvidence s := by
  cases hpatch : input.confirmsPatch with
  | false =>
    obtain ⟨s', hs', heq⟩ := step_of_finished hstore hfinished hsafe hpatch h
    refine ⟨s', hs', ?_⟩
    have hall := congrArg (fun e : Evidence => (e.state, e.cancelRequested, e.failureCause, e.endedAt)) heq
    exact hall
  | true =>
    unfold Input.confirmsPatch at hpatch
    split at hpatch
    · simp only [step, hstore] at h
      split at h
      · cases h
      rw [map_eq_some_iff] at h
      obtain ⟨log', hlog, heq⟩ := h
      cases heq
      obtain ⟨s', hs', hrun⟩ := run_of_handlePatchConfirm hwf hlog log.length
      rw [List.take_length] at hs'
      exact ⟨s', hs', by unfold runEvidence; rw [hrun]⟩
    · simp only [step, hstore] at h
      split at h
      · cases h
      rw [map_eq_some_iff] at h
      obtain ⟨log', hlog, heq⟩ := h
      cases heq
      obtain ⟨s', hs', hrun⟩ := run_of_handlePatchConfirm hwf hlog _
      exact ⟨s', hs', by unfold runEvidence; rw [hrun]⟩
    · cases hpatch

/-- **A finished run shows the same for ever**, in every run in which no recovery of a finished run has something to
repair or a running node to fail, and no waiting checkpoint of a finished run is resumed: from any reachable finished
run on, its state, the asked cancellation, the cause and the end never change, and no step but the confirmation of a
patch changes the state of a node. -/
theorem finished_immutable {before inputs : List Input} {logs₀ logs : List (List Effect)}
    (hreached : Transition.exec step .initial before = some (m, logs₀)) (hstore : m.store = some s)
    (hfinished : s.run.state.finished = true)
    (h : Transition.exec (Transition.guarded finishedSafeStep step) m inputs = some (m', logs)) : ∃ s', m'.store =
    some s' ∧ runEvidence s' = runEvidence s ∧ ∀ input m'' log, input.confirmsPatch = false →
    Transition.guarded finishedSafeStep step m' input = some (m'', log) → ∃ s'', m''.store = some s'' ∧ evidence s'' =
    evidence s' := by
  have hend : ∃ s', m'.store = some s' ∧ Wf s' ∧ runEvidence s' = runEvidence s := by
    have hrun := Transition.run_of_exec h
    refine hrun.invariant (fun m => ∃ s', m.store = some s' ∧ Wf s' ∧ runEvidence s' = runEvidence s) ?_
      ⟨s, hstore, wf_of_exec hreached hstore, rfl⟩
    rintro m₁ entry m₂ ⟨s₁, hs₁, hwf₁, heq⟩ hstep
    obtain ⟨hstep, hsafe⟩ := Transition.stepOf_guarded hstep
    have hfinished₁ : s₁.run.state.finished = true := by
      rw [show s₁.run.state = s.run.state from congrArg Prod.fst heq]
      exact hfinished
    obtain ⟨s₂, hs₂, heq₂⟩ := runEvidence_of_finished hs₁ hwf₁ hfinished₁ hsafe hstep
    obtain ⟨s₂', hs₂', hruns⟩ := step_runs hs₁ hwf₁ hstep
    rw [hs₂] at hs₂'
    cases hs₂'
    exact ⟨s₂, hs₂, hruns.wf hwf₁, heq₂.trans heq⟩
  obtain ⟨s', hs', -, heq⟩ := hend
  refine ⟨s', hs', heq, fun input m'' log hpatch hstep => ?_⟩
  have hguarded : Transition.StepOf (Transition.guarded finishedSafeStep step) m' (input, log) m'' := hstep
  obtain ⟨hstep', hsafe⟩ := Transition.stepOf_guarded hguarded
  have hfinished' : s'.run.state.finished = true := by
    rw [show s'.run.state = s.run.state from congrArg Prod.fst heq]
    exact hfinished
  exact step_of_finished hs' hfinished' hsafe hpatch hstep'

def sampleFailed (onNodeFailure : OnNodeFailurePolicy) : List Input :=
  sampleStarted onNodeFailure ++
    [.handle (sampleEnv none (.ok ())) (.taskTerminal (js "work") sampleRun ⟨.failed, none, none⟩)]

def sampleCancelled : List Input :=
  sampleStarted .pause ++
    [.handle (sampleEnv none (.ok ())) (.signal .cancelGraph),
      .handle (sampleEnv none (.ok ())) (.taskTerminal (js "work") sampleRun ⟨.cancelled, none, none⟩)]

/-- A cancelled run is read again after a restart, and signalled. -/
theorem finished_immutable_cancelled : ∃ m logs s m' logs' s' m'' log s'',
    Transition.exec step .initial sampleCancelled = some (m, logs) ∧ m.store = some s ∧
    s.run.state = .cancelled ∧
    Transition.exec (Transition.guarded finishedSafeStep step) m
      [.restart, .handle (sampleEnv none (.ok ())) .recover] = some (m', logs') ∧
    m'.store = some s' ∧ runEvidence s' = runEvidence s ∧
    Transition.guarded finishedSafeStep step m' (.handle (sampleEnv none (.ok ())) (.signal .resumeGraph)) =
      some (m'', log) ∧
    m''.store = some s'' ∧ evidence s'' = evidence s' := by
  have hany : ((Transition.exec step .initial sampleCancelled).any fun r =>
      (r.1.store.any fun s => decide (s.run.state = .cancelled)) &&
        (Transition.exec (Transition.guarded finishedSafeStep step) r.1
          [.restart, .handle (sampleEnv none (.ok ())) .recover]).any fun r' =>
            (Transition.guarded finishedSafeStep step r'.1
              (.handle (sampleEnv none (.ok ())) (.signal .resumeGraph))).isSome) = true := by
    decide
  rw [Option.any_eq_true] at hany
  obtain ⟨⟨m, logs⟩, hexec, hp⟩ := hany
  rw [Bool.and_eq_true, Option.any_eq_true, Option.any_eq_true] at hp
  obtain ⟨⟨s, hs, hstate⟩, ⟨m', logs'⟩, hexec', hsome⟩ := hp
  obtain ⟨⟨m'', log⟩, hstep⟩ := Option.isSome_iff_exists.mp hsome
  have hstate' := of_decide_eq_true hstate
  obtain ⟨s', hs', heq, hnext⟩ := finished_immutable hexec hs (by rw [hstate']; rfl) hexec'
  obtain ⟨s'', hs'', heq'⟩ := hnext _ m'' log rfl hstep
  exact ⟨m, logs, s, m', logs', s', m'', log, s'', hexec, hs, hstate', hexec', hs', heq, hstep, hs'', heq'⟩

/-- A cancel-policy run that ended because its task failed: when the runner is created anew, recovery finds the failed
node without the intent that the end of the run had cleared, and sets it again. -/
theorem finished_not_immutable : ¬ ∀ inputs m logs s, Transition.exec step .initial inputs = some (m, logs) →
    m.store = some s → s.run.state.finished = true → ∀ env m' logs' s',
    Transition.exec step m [.restart, .handle env .recover] = some (m', logs') → m'.store = some s' →
    evidence s' = evidence s := by
  intro hall
  have hany : ((Transition.exec step .initial (sampleFailed .cancel)).any fun r =>
      r.1.store.any fun s => s.run.state.finished &&
        (Transition.exec step r.1 [.restart, .handle (sampleEnv none (.ok ())) .recover]).any fun r' =>
          r'.1.store.any fun s' => !decide (evidence s' = evidence s)) = true := by
    decide
  rw [Option.any_eq_true] at hany
  obtain ⟨⟨m, logs⟩, hexec, hp⟩ := hany
  rw [Option.any_eq_true] at hp
  obtain ⟨s, hs, hp⟩ := hp
  rw [Bool.and_eq_true, Option.any_eq_true] at hp
  obtain ⟨hfinished, ⟨m', logs'⟩, hexec', hp⟩ := hp
  rw [Option.any_eq_true] at hp
  obtain ⟨s', hs', hne⟩ := hp
  rw [Bool.not_eq_true', decide_eq_false_iff_not] at hne
  exact hne (hall _ m logs s hexec hs hfinished _ m' logs' s' hexec' hs')

end Wrenyard.TaskGraph
