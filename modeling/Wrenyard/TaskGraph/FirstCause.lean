import Wrenyard.TaskGraph.Causes

/-!
# The first cause of failure

The cause of a run under the cancel policy is the failure its journal has first, wherever a crash cuts the run
(`Caused`); and in a recovery, from whatever store, the cause that is written is that of the earliest failure.
-/

namespace Wrenyard.TaskGraph

open Js

variable {env : Env} {e e' : Exec} {s s' : Store}

/-- Under the cancel policy: without a cause nothing has failed; a cause is that of the failure the journal has first,
and comes with the intent or with the end of the run; and a run that was not started has none. -/
structure Caused (s : Store) : Prop where
  none : s.run.failureCause = none →
    (∀ id, s.stateOf id ≠ some .failed) ∧ ∀ row ∈ s.journal, row.type ≠ .nodeFailed
  some : ∀ c, s.run.failureCause = some c → (s.run.cancelRequested = true ∨ s.run.state.finished = true) ∧
    ∃ before row later, s.journal = before ++ row :: later ∧ row.FailureOf c.nodeId ∧
      ∀ row' ∈ before, row'.type ≠ .nodeFailed
  fresh : s.run.state = .created → Fresh s

theorem repairCancelPolicyFailure_spec (h : s.repairCancelPolicyFailure = some s') : ∃ failure, s.earliestFailure =
    some failure ∧ s'.nodeStates = s.nodeStates ∧ s'.journal = s.journal ∧ s'.run.cancelRequested = true ∧
    s'.run.failureCause = (s.run.failureCause <|> some (s.repairedCause failure)) := by
  unfold Store.repairCancelPolicyFailure at h
  split at h
  · cases h
  split at h
  · cases h
  · obtain ⟨failure, hfailure, rfl⟩ := Option.map_eq_some_iff.mp h
    exact ⟨failure, hfailure, rfl, rfl, rfl, rfl⟩

theorem CauseStep.caused (h : CauseStep s s') (hpolicy : s.run.onNodeFailure = .cancel) (hs : Caused s) :
    Caused s' := by
  have hfresh : s'.run.state = .created → Fresh s' := fun hcreated =>
    (h.created hcreated).2 (hs.fresh (h.created hcreated).1)
  -- the first failure of the journal stays the first
  have hgrow : ∀ {c : FailureCause} (rows : List JournalRow), s'.journal = s.journal ++ rows →
      (∃ before row later, s.journal = before ++ row :: later ∧ row.FailureOf c.nodeId ∧
        ∀ row' ∈ before, row'.type ≠ .nodeFailed) →
      ∃ before row later, s'.journal = before ++ row :: later ∧ row.FailureOf c.nodeId ∧
        ∀ row' ∈ before, row'.type ≠ .nodeFailed := by
    rintro c rows hjournal ⟨before, row, later, hold, hrow⟩
    exact ⟨before, row, later ++ rows, by rw [hjournal, hold]; simp, hrow⟩
  rcases h.failing hpolicy with hkept | ⟨nodeId, error, taskRunId, kind, eventId, at_⟩ | hrepaired
  · obtain ⟨rows, hjournal, hrows⟩ := hkept.journal
    refine ⟨fun hnone => ?_, fun c hc => ?_, hfresh⟩
    · rw [hkept.cause] at hnone
      obtain ⟨hnodes, hold⟩ := hs.none hnone
      refine ⟨fun id hid => hnodes id (hkept.nodes id hid), fun row hrow => ?_⟩
      rw [hjournal, List.mem_append] at hrow
      exact hrow.elim (hold row) (hrows row)
    · rw [hkept.cause] at hc
      obtain ⟨hintent, hfirst⟩ := hs.some c hc
      refine ⟨?_, hgrow rows hjournal hfirst⟩
      rcases h.intent hpolicy with hrequested | hfinished | hcreated | ⟨hsame, hfinished⟩
      · exact Or.inl hrequested
      · exact Or.inr hfinished
      · rw [(hs.fresh hcreated).cause] at hc
        cases hc
      · rw [hsame]
        exact hintent.imp_right hfinished
  · refine ⟨fun hnone => ?_, fun c hc => ⟨Or.inl rfl, ?_⟩, hfresh⟩
    · replace hnone : (s.run.failureCause <|> _) = Option.none := hnone
      cases hcause : s.run.failureCause <;> rw [hcause] at hnone <;> cases hnone
    · cases hcause : s.run.failureCause with
      | some c' =>
        have hsame := h.cause c' hcause
        rw [hc] at hsame
        cases hsame
        exact hgrow [_] rfl (hs.some c hcause).2
      | none =>
        replace hc : (s.run.failureCause <|> _) = Option.some c := hc
        rw [hcause] at hc
        cases hc
        exact ⟨s.journal, _, [], rfl, ⟨rfl, rfl⟩, (hs.none hcause).2⟩
  · obtain ⟨failure, hfailure, -, hjournal, hrequested, hcause⟩ := repairCancelPolicyFailure_spec hrepaired
    -- a node has failed, so that the cause is there
    obtain ⟨c, hc⟩ : ∃ c, s.run.failureCause = Option.some c := by
      rw [← Option.isSome_iff_exists, Option.isSome_iff_ne_none]
      exact fun hnone => (hs.none hnone).1 _ (earliest_of_earliestFailure hfailure).1
    have hc' := h.cause c hc
    refine ⟨fun hnone => ?_, fun c'' hc'' => ⟨Or.inl hrequested, ?_⟩, hfresh⟩
    · rw [hnone] at hc'
      cases hc'
    · rw [hc'] at hc''
      cases hc''
      exact hgrow [] (by rw [hjournal, List.append_nil]) (hs.some c hc).2

theorem caused_of_created (h : Created s) : Caused s := by
  refine ⟨fun _ => ⟨fun id hid => ?_, by rw [h.journal]; simp⟩, fun c hc => ?_, fun _ => ⟨h.failureCause, ?_⟩⟩
  · cases h.planned id _ hid
  · rw [h.failureCause] at hc
    cases hc
  · intro id state hstate
    rw [h.planned id state hstate]
    rfl

theorem followed_causes : Followed (fun s => s.run.onNodeFailure = .cancel → Caused s)
    fun e effect => CauseStep e.store (effect.after e.store) where
  shift _ h := h
  keeps h hs hpolicy := by
    rw [h.policy] at hpolicy
    exact h.caused hpolicy (hs hpolicy)
  handle _ h := handle_causes h
  created hcreated hrow :=
    ⟨fun _ => caused_of_created hcreated, (OwnStep.ofJournal (by rw [hrow]; simp)).toCauseStep⟩

def Explained (s : Store) : Prop := s.run.failureCause = none → ∀ id, s.stateOf id ≠ some .failed

theorem earliest_of_only {nodeId : NodeId} (h : s.stateOf nodeId = some .failed)
    (honly : ∀ id, s.stateOf id = some .failed → id = nodeId) : Earliest s nodeId := by
  cases hfailure : s.earliestFailure with
  | none => exact absurd h (earliestFailure_eq_none_iff.mp hfailure nodeId)
  | some failure =>
    have hearliest := earliest_of_earliestFailure hfailure
    rwa [honly _ hearliest.1] at hearliest

theorem earliest_of_repaired (h : s.repairCancelPolicyFailure = some s') {c : FailureCause}
    (hnone : s.run.failureCause = none) (hc : s'.run.failureCause = some c) : Earliest s' c.nodeId := by
  obtain ⟨failure, hfailure, hnodes, hjournal, -, hcause⟩ := repairCancelPolicyFailure_spec h
  rw [hnone, hc] at hcause
  cases hcause
  have hearliest := earliest_of_earliestFailure hfailure
  unfold Earliest Store.stateOf at hearliest ⊢
  rw [hnodes, hjournal]
  exact hearliest

theorem CauseStep.names (h : CauseStep s s') (hpolicy : s.run.onNodeFailure = .cancel) (hs : Explained s) :
    Explained s' ∧ ∀ c, s.run.failureCause = none → s'.run.failureCause = some c → Earliest s' c.nodeId := by
  rcases h.failing hpolicy with hkept | ⟨nodeId, error, taskRunId, kind, eventId, at_⟩ | hrepaired
  · refine ⟨fun hnone id hid => ?_, fun c hnone hc => ?_⟩
    · rw [hkept.cause] at hnone
      exact hs hnone id (hkept.nodes id hid)
    · rw [hkept.cause, hnone] at hc
      cases hc
  · have hstate : ∀ id, (s.failNodeForCancellation nodeId error taskRunId kind eventId at_).stateOf id =
        if nodeId = id then some .failed else s.stateOf id := Store.stateOf_putNodeState _ _ _
    refine ⟨fun hnone => ?_, fun c hnone hc => ?_⟩
    · replace hnone : (s.run.failureCause <|> _) = Option.none := hnone
      cases hcause : s.run.failureCause <;> rw [hcause] at hnone <;> cases hnone
    · replace hc : (s.run.failureCause <|> _) = Option.some c := hc
      rw [hnone] at hc
      cases hc
      refine earliest_of_only (by rw [hstate, if_pos rfl]) fun id hid => ?_
      rw [hstate] at hid
      split at hid
      · rename_i heq
        exact heq.symm
      · exact absurd hid (hs hnone id)
  · refine ⟨fun hnone => ?_, fun c hnone hc => earliest_of_repaired hrepaired hnone hc⟩
    obtain ⟨failure, -, -, -, -, hcause⟩ := repairCancelPolicyFailure_spec hrepaired
    rw [hnone] at hcause
    cases hold : s.run.failureCause <;> rw [hold] at hcause <;> cases hcause

theorem explained_repair (hpolicy : s.run.onNodeFailure = .cancel) : Explained (repair s).store := by
  cases hrepair : s.repairCancelPolicyFailure with
  | some s' =>
    intro hnone
    obtain ⟨failure, -, -, -, -, hcause⟩ := repairCancelPolicyFailure_spec hrepair
    unfold repair at hnone
    rw [hrepair] at hnone
    rw [show s'.run.failureCause = none from hnone] at hcause
    cases hold : s.run.failureCause <;> rw [hold] at hcause <;> cases hcause
  | none =>
    unfold repair
    rw [hrepair]
    unfold Store.repairCancelPolicyFailure at hrepair
    rw [if_neg (by rw [hpolicy]; simp)] at hrepair
    split at hrepair
    · rename_i hsome
      rw [Bool.and_eq_true, Option.isSome_iff_ne_none] at hsome
      exact fun hnone => absurd hnone hsome.2
    · rw [Option.map_eq_none_iff, earliestFailure_eq_none_iff] at hrepair
      exact fun _ => hrepair

/-- A cause that recovery writes, in whatever store it begins, is that of the earliest failure. -/
theorem earliest_of_recover {env : Env} (hpolicy : s.run.onNodeFailure = .cancel) (h : handleRecover env s = some e)
    {before later : List Effect} {effect : Effect} (hlog : e.log = before ++ effect :: later) {c : FailureCause}
    (hnone : (before.foldl Effect.after s).run.failureCause = none)
    (hc : (effect.after (before.foldl Effect.after s)).run.failureCause = some c) :
    Earliest (effect.after (before.foldl Effect.after s)) c.nodeId := by
  let Names : Exec → Effect → Prop := fun e effect => ∀ c, e.store.run.failureCause = none →
    (effect.after e.store).run.failureCause = some c → Earliest (effect.after e.store) c.nodeId
  have hrepaired : Logged.Evolves Effect.after Names ⟨s, []⟩ (repair s) := by
    unfold repair
    split
    · rename_i s' hrepair
      exact .single fun c hnone hc => earliest_of_repaired hrepair hnone hc
    · exact .refl
  have hpolicy' : (repair s).store.run.onNodeFailure = .cancel := repair_evolves.frame.policy.trans hpolicy
  -- along the rest, nothing fails without a cause
  have hnames : ∀ e', Causes (repair s) e' → Logged.Evolves Effect.after Names (repair s) e' ∧
      e'.store.run.onNodeFailure = .cancel ∧ Explained e'.store := by
    intro e' hcauses
    induction hcauses with
    | refl => exact ⟨.refl, hpolicy', explained_repair hpolicy⟩
    | push _ hstep ih =>
      obtain ⟨hevolves, hpol, hexplained⟩ := ih
      obtain ⟨hexplained', hnames⟩ := hstep.toCauseStep.names hpol hexplained
      exact ⟨hevolves.push hnames, hstep.policy.trans hpol, hexplained'⟩
  have hall := hrepaired.trans (hnames e (handleRecover_causes env h)).1
  exact hall.allowed_at hlog c hnone hc

/-- The causes along a run, between two of its stores. -/
private theorem causes_of_split {inputs : List Input} {m : Machine} {logs : List (List Effect)}
    (h : Transition.exec step .initial inputs = some (m, logs)) (before between later : List Effect)
    (hlog : logs.flatten = before ++ between ++ later) (hs : storeAfter none before = some s)
    (hs' : storeAfter none (before ++ between) = some s') : (s.run.onNodeFailure = .cancel → Caused s) ∧
    ∀ c, s.run.failureCause = some c → s'.run.failureCause = some c := by
  obtain ⟨s₀, log₀, -, -, hcaused, -, hevolves⟩ := followed_causes.split h before between later hlog hs hs'
  refine ⟨hcaused, fun c hc => ?_⟩
  exact hevolves.invariant (fun s => s.run.failureCause = some c) (fun _ _ hstep hc => hstep.cause c hc) hc

/-- **The first cause of failure.**  In every durable state of every run, at whatever write it was cut: a cause that
is recorded stays as it is; a run under the cancel policy in which a node has failed, be it that the node was replaced
since, has the cause its journal has first, and its cancellation is asked for unless the run has ended.  A cause that
recovery writes, in whatever store it begins, names the node whose failure in that store is the earliest. -/
theorem first_failure_cause {inputs : List Input} {m : Machine} {logs : List (List Effect)}
    (h : Transition.exec step .initial inputs = some (m, logs)) :
    (∀ before between later s s' c, logs.flatten = before ++ between ++ later → storeAfter none before = some s →
        storeAfter none (before ++ between) = some s' → s.run.failureCause = some c → s'.run.failureCause = some c) ∧
      (∀ before later s, logs.flatten = before ++ later → storeAfter none before = some s →
        s.run.onNodeFailure = .cancel →
        ((∃ row ∈ s.journal, row.type = .nodeFailed) ∨ ∃ id, s.stateOf id = some .failed) →
        (∃ c, s.run.failureCause = some c ∧ ∃ pre row post, s.journal = pre ++ row :: post ∧ row.FailureOf c.nodeId ∧
            ∀ row' ∈ pre, row'.type ≠ .nodeFailed) ∧
          (s.run.cancelRequested = true ∨ s.run.state.finished = true)) ∧
      ∀ env s e before effect later c, s.run.onNodeFailure = .cancel → handleRecover env s = some e →
        e.log = before ++ effect :: later → (before.foldl Effect.after s).run.failureCause = none →
        (effect.after (before.foldl Effect.after s)).run.failureCause = some c →
        Earliest (effect.after (before.foldl Effect.after s)) c.nodeId := by
  refine ⟨?_, ?_, ?_⟩
  · intro before between later s s' c hlog hs hs' hc
    exact (causes_of_split h _ _ _ hlog hs hs').2 c hc
  · intro before later s hlog hs hpolicy hfailed
    have hcaused := (causes_of_split h before [] later (by rw [hlog, List.append_nil]) hs
      (by rw [List.append_nil]; exact hs)).1 hpolicy
    cases hcause : s.run.failureCause with
    | none =>
      obtain ⟨hnodes, hjournal⟩ := hcaused.none hcause
      rcases hfailed with ⟨row, hrow, htype⟩ | ⟨id, hid⟩
      · exact absurd htype (hjournal row hrow)
      · exact absurd hid (hnodes id)
    | some c =>
      obtain ⟨hintent, hfirst⟩ := hcaused.some c hcause
      exact ⟨⟨c, rfl, hfirst⟩, hintent⟩
  · intro env s e before effect later c hpolicy hrecover hlog hnone hc
    exact earliest_of_recover hpolicy hrecover hlog hnone hc

/-- The run under the cancel policy whose task cannot be reattached after a restart: its node has failed, with a cause
that names it. -/
theorem first_failure_cause_reattach : ∃ m logs s, Transition.exec step .initial
      (sampleStarted .cancel ++ [.restart, .handle (sampleEnv none (.error (js "unknown task run"))) .recover]) =
        some (m, logs) ∧
    storeAfter none logs.flatten = some s ∧ s.run.onNodeFailure = .cancel ∧ s.stateOf (js "work") = some .failed ∧
    (∃ c, s.run.failureCause = some c ∧ c.nodeId = js "work") ∧
    (s.run.cancelRequested = true ∨ s.run.state.finished = true) := by
  have hany : ((Transition.exec step .initial (sampleStarted .cancel ++ [.restart,
      .handle (sampleEnv none (.error (js "unknown task run"))) .recover])).any fun r =>
        (storeAfter none r.2.flatten).any fun s => decide (s.run.onNodeFailure = .cancel) &&
          decide (s.stateOf (js "work") = some .failed) &&
          s.run.failureCause.any fun c => decide (c.nodeId = js "work")) = true := by
    decide
  rw [Option.any_eq_true] at hany
  obtain ⟨⟨m, logs⟩, hexec, hp⟩ := hany
  rw [Option.any_eq_true] at hp
  obtain ⟨s, hs, hrun⟩ := hp
  simp only [Bool.and_eq_true, decide_eq_true_eq, Option.any_eq_true] at hrun
  obtain ⟨⟨hpolicy, hfailed⟩, c, hc, hnode⟩ := hrun
  have hlaw := (first_failure_cause hexec).2.1 logs.flatten [] s (List.append_nil _).symm hs hpolicy
    (Or.inr ⟨_, hfailed⟩)
  exact ⟨m, logs, s, hexec, hs, hpolicy, hfailed, ⟨c, hc, hnode⟩, hlaw.2⟩

end Wrenyard.TaskGraph
