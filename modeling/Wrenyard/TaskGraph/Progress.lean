import Wrenyard.TaskGraph.Runs

/-!
# A task graph is never stuck

After every handled event, a run that is to be scheduled has a node that runs or waits for a signal, so that some
later event moves it on; and every handler returns, because each of its ticks ends.
-/

namespace Wrenyard.TaskGraph

open Js

variable {m m' : Machine} {s : Store}

theorem Patched.progressing {ops : List PatchOperation} {s' : Store} (h : Patched s ops s') (hs : Progressing s) :
    Progressing s' := by
  intro hschedulable
  rw [schedulable_iff, h.run, ← schedulable_iff] at hschedulable
  obtain ⟨id, hid⟩ := hs hschedulable
  obtain ⟨row, hget, hrow⟩ : ∃ row, s.nodeStates.get id = some row ∧
      (row.state = .running ∨ row.state = .waiting) := by
    rcases hid with hid | hid
    · obtain ⟨row, hget, hrow⟩ := Store.exists_get_of_stateOf hid
      exact ⟨row, hget, Or.inl hrow⟩
    · obtain ⟨row, hget, hrow⟩ := Store.exists_get_of_stateOf hid
      exact ⟨row, hget, Or.inr hrow⟩
  have hkept := h.kept id row hget (by rcases hrow with hrow | hrow <;> rw [hrow] <;> simp)
    (by rcases hrow with hrow | hrow <;> rw [hrow] <;> simp)
  refine ⟨id, ?_⟩
  rw [Store.stateOf_of_get hkept]
  exact hrow.imp (congrArg some) (congrArg some)

theorem HandledEvent.progressing {env : Env} {event : GraphEvent} {e : Exec} (h : HandledEvent env s event e)
    (hwf : Wf s) (hs : event ≠ .recover → Progressing s) : Progressing e.store := by
  cases h with
  | recover h =>
    obtain ⟨e', hrecover, -, hprogress, -⟩ := handleRecover_spec env hwf
    rw [h] at hrecover
    cases hrecover
    exact hprogress
  | ordinary hne h => exact h.progressing (hs hne)
  | patched hread hpending hbase hvalid hpatched => exact hpatched.progressing (hs (by simp))

/-- After every handled event, the run makes progress. -/
theorem exec_progressing {inputs : List Input} {logs : List (List Effect)}
    (h : Transition.exec step .initial inputs = some (m, logs)) : MachineLaw Progressing m := by
  refine (Transition.run_of_exec h).invariant (MachineLaw Progressing) (fun m e m' hm hstep => ?_) .initial
  refine step_law (fun s hcreated _ hschedulable => ?_)
    (fun _ _ hwf _ hevent hs => hevent.progressing hwf hs) hm hstep
  have := (schedulable_iff.mp hschedulable).1
  rw [hcreated] at this
  cases this

/-- **A task graph is never stuck.**  In every run: each tick ends and each event is handled; and after every handled
event a run that is running and not asked to be cancelled has a node that runs or waits, while otherwise it is
created, paused, done or cancelled, or its cancellation was asked for. -/
theorem exec_not_stuck {inputs : List Input} {logs : List (List Effect)}
    (h : Transition.exec step .initial inputs = some (m, logs)) :
    (∀ s, m.store = some s → ∀ env log, ∃ fuel e, tickLoop env fuel ⟨s, log⟩ = some e) ∧
      (∀ env event, decide (event = .recover) ≠ m.recovered → (step m (.handle env event)).isSome = true) ∧
      ∀ s, m.store = some s → m.recovered = true →
        (s.run.state = .running ∧ s.run.cancelRequested = false ∧
            ∃ id, s.stateOf id = some .running ∨ s.stateOf id = some .waiting) ∨
          s.run.state = .created ∨ s.run.state = .paused ∨ s.run.state = .done ∨ s.run.state = .cancelled ∨
          (s.run.state = .running ∧ s.run.cancelRequested = true) := by
  have hm := exec_progressing h
  refine ⟨?_, ?_, ?_⟩
  · intro s hs env log
    obtain ⟨e, htick, -⟩ := tick_spec (e := ⟨s, log⟩) env (hm s hs).1
    exact ⟨_, e, htick⟩
  · intro env event hgate
    simp only [step, if_neg hgate, Option.isSome_map]
    cases hstore : m.store with
    | none => cases event <;> rfl
    | some s =>
      obtain ⟨e, reply, hhandle, -⟩ := handle_spec env event (hm s hstore).1
      simp only [effectsOf, hhandle, Option.map_some, Option.isSome_some]
  · intro s hs hrecovered
    have hprogress := (hm s hs).2 hrecovered
    cases hstate : s.run.state with
    | running =>
      cases hflag : s.run.cancelRequested with
      | false => exact Or.inl ⟨rfl, rfl, hprogress (schedulable_iff.mpr ⟨hstate, hflag⟩)⟩
      | true => simp
    | created | paused | done | cancelled => simp

/-- The law on a run whose task is under way. -/
theorem exec_not_stuck_started : ∃ m s logs, Transition.exec step .initial (sampleStarted .pause) = some (m, logs) ∧
    m.store = some s ∧ m.recovered = true ∧ s.run.state = .running ∧
    ∃ id, s.stateOf id = some .running ∨ s.stateOf id = some .waiting := by
  obtain ⟨m, logs, s, hexec, hrecovered, hs, hrun⟩ := exists_store_of_exec (sampleStarted .pause)
    (fun s => decide (s.run.state = .running) && !s.run.cancelRequested) (by decide)
  simp only [Bool.and_eq_true, decide_eq_true_eq, Bool.not_eq_true'] at hrun
  refine ⟨m, s, logs, hexec, hs, hrecovered, hrun.1, ?_⟩
  rcases (exec_not_stuck hexec).2.2 s hs hrecovered with ⟨-, -, hid⟩ | hother
  · exact hid
  · rw [hrun.1, hrun.2] at hother
    simp at hother

/-- A run whose cancellation was asked for goes on running until its task has ended: it is then neither to be
scheduled nor created, paused, done or cancelled. -/
theorem exec_running_while_cancelling : ¬ ∀ inputs m logs s,
    Transition.exec step .initial inputs = some (m, logs) → m.recovered = true → m.store = some s →
    (s.run.state = .running ∧ s.run.cancelRequested = false ∧
        ∃ id, s.stateOf id = some .running ∨ s.stateOf id = some .waiting) ∨
      s.run.state = .created ∨ s.run.state = .paused ∨ s.run.state = .done ∨ s.run.state = .cancelled := by
  intro hall
  obtain ⟨m, logs, s, hexec, hrecovered, hs, hrun⟩ := exists_store_of_exec
    (sampleStarted .pause ++ [.handle (sampleEnv none (.ok ())) (.signal .cancelGraph)])
    (fun s => decide (s.run.state = .running) && s.run.cancelRequested) (by decide)
  simp only [Bool.and_eq_true, decide_eq_true_eq] at hrun
  have := hall _ m logs s hexec hrecovered hs
  rw [hrun.1, hrun.2] at this
  simp at this

end Wrenyard.TaskGraph
