import Wrenyard.Session.LedgerContinuity

/-!
# What a startup knows of the unfinished turns

After any run of appends, reads and index writes, crashed anywhere, the constructor gives every timeline file a row,
and the pending turns of that row miss no turn that was started and not finished: they are absent, or they contain it.
A row that is not stale has the number of events of the file, and its pending turns when every turn is started once
and finished after that (`restart_recovers`).  A `turn.finished` that comes before its `turn.started` is where the two
derivations of the pending turns differ: the appended row keeps the turn pending, the timeline counts it as finished.
-/

namespace Wrenyard.Session

open Js Transition

def KeepingStep (diff : LineDiff) (contentVersion : JsString → JsString) (s : LedgerMachine)
    (e : LedgerAction × Outcome) (s' : LedgerMachine) : Prop :=
  LedgerStep diff contentVersion s e s' ∧ ∀ k, e.1 ≠ .delete k

structure KeepsFiles (s : LedgerMachine) : Prop where
  index : ∀ row ∈ s.index.getD [], s.files.has row.sessionId = true
  flush : ∀ flush ∈ s.flush, ∀ row ∈ flush.rows, s.files.has row.sessionId = true
  job : ∀ k, s.job ≠ some (.removing k)

/-- The step keeps the index and the index write, and no file is lost. -/
structure SameIndex (s s' : LedgerMachine) : Prop where
  index : s'.index = s.index
  flush : s'.flush = s.flush
  files : ∀ k, s.files.has k = true → s'.files.has k = true

variable {s s' s'' : LedgerMachine} {k : JsString}

theorem SameIndex.refl (s : LedgerMachine) : SameIndex s s := ⟨rfl, rfl, fun _ => id⟩

theorem KeepsFiles.of_sameIndex (h : KeepsFiles s) (hs : SameIndex s s') (hjob : ∀ k, s'.job ≠ some (.removing k)) :
    KeepsFiles s' where
  index row hrow := by
    rw [hs.index] at hrow
    exact hs.files _ (h.index row hrow)
  flush flush hf row hrow := by
    rw [hs.flush] at hf
    exact hs.files _ (h.flush flush hf row hrow)
  job := hjob

theorem sameIndex_loadSessionSync {entry : LoadedSession} (h : loadSessionSync s k = .ok (entry, s')) :
    SameIndex s s' ∧ s'.job = s.job := by
  unfold loadSessionSync at h
  split at h
  · cases h
    exact ⟨⟨rfl, rfl, fun _ => id⟩, rfl⟩
  dsimp only at h
  split at h <;> cases h
  refine ⟨⟨rfl, rfl, fun k' hk => ?_⟩, rfl⟩
  split
  · rw [OMap.has_set, hk, Bool.or_true]
  · exact hk

theorem sameIndex_startAppend (diff : LineDiff) (contentVersion : JsString → JsString) (w : Workspace)
    (draft : LedgerEventDraft) (layout : Layout) (documentCommit : Bool) (time : JsString)
    (hjob : ∀ k, s.job ≠ some (.removing k)) :
    SameIndex s (startAppend diff contentVersion s k w draft layout documentCommit time).1 ∧
    ∀ k', (startAppend diff contentVersion s k w draft layout documentCommit time).1.job ≠ some (.removing k') := by
  unfold startAppend
  split
  · exact ⟨SameIndex.refl s, hjob⟩
  dsimp only
  split
  · exact ⟨⟨rfl, rfl, fun _ => id⟩, hjob⟩
  rename_i entry s₁ hload
  obtain ⟨⟨hindex, hflush, hfiles⟩, hj⟩ := sameIndex_loadSessionSync hload
  have hjob₁ : ∀ k', s₁.job ≠ some (.removing k') := by
    intro k'
    rw [hj]
    exact hjob k'
  split
  · exact ⟨⟨hindex, hflush, hfiles⟩, hjob₁⟩
  · exact ⟨⟨hindex, hflush, hfiles⟩, hjob₁⟩
  · exact ⟨⟨hindex, hflush, hfiles⟩, by simp⟩

theorem sameIndex_readPage (afterSeq : Int) (limit : Option Int) :
    SameIndex s (readPage s k afterSeq limit).2 ∧ (readPage s k afterSeq limit).2.job = s.job := by
  have hloadPage : SameIndex s (loadPage s k afterSeq limit).2 ∧ (loadPage s k afterSeq limit).2.job = s.job := by
    unfold loadPage
    split
    · exact ⟨SameIndex.refl s, rfl⟩
    · rename_i entry s₁ hload
      split <;> exact sameIndex_loadSessionSync hload
  unfold readPage
  split
  · exact ⟨SameIndex.refl s, rfl⟩
  · exact ⟨⟨rfl, rfl, fun _ => id⟩, rfl⟩
  split
  · exact ⟨SameIndex.refl s, rfl⟩
  split
  · split
    · exact ⟨SameIndex.refl s, rfl⟩
    · exact hloadPage
  · exact hloadPage

theorem KeepsFiles.finishFlush (h : KeepsFiles s) (job : Job) (ok : Bool) : KeepsFiles (finishFlush s job ok).1 := by
  cases job with
  | flushing | forgetting => cases ok <;> exact ⟨h.index, h.flush, by simp [Session.finishFlush]⟩
  | _ => exact h

variable {diff : LineDiff} {contentVersion : JsString → JsString} {e : LedgerAction × Outcome}

theorem keepingStep_keepsFiles (h : KeepsFiles s) (hrows : RowsInv s) (hrows' : RowsInv s')
    (hstep : KeepingStep diff contentVersion s e s') : KeepsFiles s' := by
  obtain ⟨a, o⟩ := e
  obtain ⟨hstep, hkeep⟩ := hstep
  unfold LedgerStep StepOf at hstep
  cases a <;> simp only [ledgerStep, Option.ite_none_right_eq_some] at hstep
  case append k w draft layout documentCommit time =>
    obtain ⟨-, hstep⟩ := hstep
    obtain ⟨hs, hjob⟩ := sameIndex_startAppend (k := k) diff contentVersion w draft layout documentCommit time h.job
    rw [congrArg Prod.fst (Option.some.inj hstep)] at hs hjob
    exact h.of_sameIndex hs hjob
  case openFile =>
    split at hstep <;> cases hstep
    refine h.of_sameIndex ⟨rfl, rfl, fun k' hk => ?_⟩ (by simp)
    split
    · exact hk
    · rw [OMap.has_set, hk, Bool.or_true]
  case writeBytes n =>
    split at hstep <;> cases hstep
    refine h.of_sameIndex ⟨rfl, rfl, fun k' hk => ?_⟩ (by simp)
    rw [OMap.has_set, hk, Bool.or_true]
  case finishWrite =>
    split at hstep
    · rename_i k obj array events written hjob
      split at hstep
      · have hfin : KeepsFiles (finishWrite s k obj array events).1 := by
          unfold finishWrite
          split
          all_goals exact ⟨h.index, h.flush, by simp⟩
        rw [congrArg Prod.fst (Option.some.inj hstep)] at hfin
        exact hfin
      · cases hstep
    · cases hstep
  case failAppend code =>
    split at hstep <;> cases hstep
    exact ⟨h.index, h.flush, by simp⟩
  case beginFlush own =>
    obtain ⟨-, hstep⟩ := hstep
    cases hstep
    refine ⟨h.index, ?_, h.job⟩
    intro flush hf row hrow
    cases hf
    obtain ⟨e, he, rfl⟩ := List.mem_map.mp hrow
    obtain ⟨hid, hfile, -⟩ := hrows.rows e he
    rw [hid]
    exact hfile
  case endFlush ok =>
    split at hstep
    · cases hstep
    rename_i flush hflush
    have hend : KeepsFiles { s with index := if ok = true then some flush.rows else s.index, flush := none } := by
      refine ⟨?_, by simp, h.job⟩
      intro row hrow
      split at hrow
      · exact h.flush flush hflush row hrow
      · exact h.index row hrow
    split at hstep
    · have hfin := hend.finishFlush (by assumption) ok
      rw [congrArg Prod.fst (Option.some.inj hstep)] at hfin
      exact hfin
    · cases hstep
      exact hend
  case read k =>
    unfold read at hstep
    cases hid : assertSessionId k <;> rw [hid] at hstep
    case error e =>
      cases hstep
      exact h
    case ok u =>
      cases hload : loadSessionSync s k <;> rw [hload] at hstep
      case error e =>
        cases hstep
        exact h
      case ok r =>
        obtain ⟨hs, hjob⟩ := sameIndex_loadSessionSync hload
        cases hstep
        exact h.of_sameIndex hs (fun k' => hjob ▸ h.job k')
  case readPage k afterSeq limit =>
    obtain ⟨hs, hjob⟩ := sameIndex_readPage (s := s) (k := k) afterSeq limit
    have hpage := h.of_sameIndex hs (fun k' => hjob ▸ h.job k')
    cases hstep
    exact hpage
  case delete k =>
    exact absurd rfl (hkeep k)
  case removeFile ok =>
    split at hstep
    · rename_i k hjob
      exact absurd hjob (h.job k)
    · cases hstep
  case restart times =>
    cases hstep
    refine ⟨?_, by simp [restart], by simp [restart]⟩
    intro row hrow
    change row ∈ (if _ then s.index else some _).getD [] at hrow
    split at hrow
    · exact h.index row hrow
    obtain ⟨e, he, rfl⟩ := List.mem_map.mp hrow
    obtain ⟨hid, hfile, -⟩ := hrows'.rows e he
    rw [hid]
    exact hfile

/-- The invariants of a run without deletions. -/
structure RecoveryInv (s : LedgerMachine) : Prop where
  timelines : TimelineInv (fun _ => True) s.view
  rows : RowsInv s
  files : KeepsFiles s

theorem recoveryInv_initial : RecoveryInv .initial where
  timelines := timelineInv_initial _
  rows := rowsInv_initial
  files := ⟨by simp [LedgerMachine.initial], by simp [LedgerMachine.initial], by simp [LedgerMachine.initial]⟩

theorem RecoveryInv.step (h : RecoveryInv s) (hstep : KeepingStep diff contentVersion s e s') : RecoveryInv s' := by
  obtain ⟨a, o⟩ := e
  have hsettled : Settled s a := by
    cases a with
    | read k | readPage k => exact h.files.job k
    | _ => trivial
  have hunlisted : Unlisted s a := by
    cases a with
    | openFile =>
      intro k _ hno row hrow heq
      have := h.files.index row hrow
      rw [heq, hno] at this
      cases this
    | _ => trivial
  have hadmits : Admits (fun _ => True) a := by
    cases a <;> trivial
  have hkeeps := ledgerStep_keeps (fun _ => trivial) (fun _ _ => trivial) h.timelines hsettled hadmits hstep.1
  have hrows := ledgerStep_rows (fun _ => trivial) h.rows h.timelines hsettled hunlisted hstep.1
  exact ⟨hkeeps.inv, hrows, keepingStep_keepsFiles h.files h.rows hrows hstep⟩

/-- After any run without deletions and a crash anywhere, the startup gives every file a row whose pending turns miss
no unfinished turn, and a row that is not stale describes its file. -/
theorem restart_recovers (diff : LineDiff) (contentVersion : JsString → JsString)
    (tr : List (LedgerAction × Outcome)) (s : LedgerMachine) (h : Run (KeepingStep diff contentVersion) .initial tr s)
    (times : JsString → JsString × JsString) (k : JsString) (f : TimelineFile)
    (hf : (restart s times).files.get k = some f) :
    ∃ row, (restart s times).memory.summaries.get k = some row ∧
      (∀ turn, turn ∈ f.events.filterMap startedTurn → turn ∉ f.events.filterMap finishedTurn →
        row.pendingTurns = none ∨ ∃ turns, row.pendingTurns = some turns ∧ turn ∈ turns) ∧
      (k ∉ (restart s times).memory.staleSummaries → row.lastSeq = some (lastSeq f.events) ∧
        (OrderedTurns f.events → row.pendingTurns = some (pendingTurnsOf f.events))) := by
  have hinv : RecoveryInv s := h.invariant RecoveryInv (fun _ _ _ hinv hstep => hinv.step hstep) recoveryInv_initial
  obtain ⟨-, -, hrows⟩ := hinv.rows.restart_rows times
  obtain ⟨row, hget, -, -, hdesc, hnone⟩ := hrows k f hf
  have hnum : Numbered f.stored := by
    have := hinv.timelines.numbered k
    have hfile : s.view.file k = f := by simp [LedgerMachine.view, fileOf, show s.files.get k = some f from hf]
    rwa [hfile] at this
  have hsame : SameReload f.stored f.events := f.sameReload_events.symm
  refine ⟨row, hget, ?_, ?_⟩
  · intro turn hstarted hfinished
    by_cases hstale : k ∈ (restart s times).memory.staleSummaries
    · exact Or.inl (hnone hstale)
    · obtain ⟨turns, hturns, htracks⟩ := (hdesc hstale).pendingTurns
      have hcovers := (htracks.of_sameReload hsame).covers
      exact Or.inr ⟨turns, hturns, hcovers turn (mem_pendingTurnsOf.mpr ⟨hstarted, hfinished⟩)⟩
  · intro hfresh
    have hrow := hdesc hfresh
    constructor
    · rw [hrow.lastSeq, (f.sameReload_events.numbered_iff.mpr hnum).lastSeq_eq]
      simp [TimelineFile.events]
    · intro hordered
      obtain ⟨turns, hturns, htracks⟩ := hrow.pendingTurns
      rw [hturns, (htracks.of_sameReload hsame).exact_of_ordered hordered]

def lifecycleActions (draft : LedgerEventDraft) : List LedgerAction :=
  appendActions draft ++ [.beginFlush true, .endFlush true]

def finishDraft : LedgerEventDraft where
  turn := some 1
  step := none
  body := .turnFinished { id := js "t1", status := .completed, error := none }

def startDraft : LedgerEventDraft where
  turn := some 1
  step := none
  body := .turnStarted
    { id := js "t1", text := js "hello", sender := none
      model := { provider := js "p", model := js "m", reasoningEffort := none, fast := none, automatic := none
                 autoSelected := none } }

/-- What the startup after the actions makes of session `s`: the turns its row says are pending, those of its file,
and whether the row is stale. -/
def recovered (actions : List LedgerAction) : Option (Option (List Nat) × List Nat × Bool) :=
  (exec (ledgerStep replaceAll id) .initial actions).map fun r =>
    let s := restart r.1 fun _ => ([], [])
    ((s.memory.summaries.get (js "s")).bind (·.pendingTurns), pendingTurnsOf (fileOf s.files (js "s")).events,
      s.memory.staleSummaries.contains (js "s"))

private theorem keepingRun_of_exec {actions : List LedgerAction} {os : List Outcome}
    (hactions : ∀ a ∈ actions, ∀ k, a ≠ .delete k)
    (h : exec (ledgerStep diff contentVersion) .initial actions = some (s, os)) :
    Run (KeepingStep diff contentVersion) .initial (actions.zip os) s := by
  refine (run_of_exec h).restrict (fun e : LedgerAction × Outcome => ∀ k, e.1 ≠ .delete k) ?_
  rintro ⟨a, o⟩ he
  exact hactions a (List.of_mem_zip he).1

private theorem recovered_finishFirst :
    recovered (lifecycleActions finishDraft ++ lifecycleActions startDraft) = some (some [1], [], false) := by
  decide +kernel

/-- A turn that is finished before it is started stays pending in a row that is not stale. -/
theorem restart_not_exact :
    ¬ ∀ (diff : LineDiff) (contentVersion : JsString → JsString) (tr : List (LedgerAction × Outcome))
      (s : LedgerMachine), Run (KeepingStep diff contentVersion) .initial tr s →
      ∀ (times : JsString → JsString × JsString) (k : JsString),
        k ∉ (restart s times).memory.staleSummaries →
        ((restart s times).memory.summaries.get k).bind (·.pendingTurns) =
          some (pendingTurnsOf (fileOf (restart s times).files k).events) := by
  intro h
  have hexec := recovered_finishFirst
  unfold recovered at hexec
  rw [Option.map_eq_some_iff] at hexec
  obtain ⟨⟨s, os⟩, hrun, hout⟩ := hexec
  simp only [Prod.mk.injEq] at hout
  obtain ⟨hturns, hpending, hfresh⟩ := hout
  have hbad := h replaceAll id _ s
    (keepingRun_of_exec (by simp [lifecycleActions, appendActions]) hrun) (fun _ => ([], [])) (js "s")
      (by simpa using hfresh)
  rw [hturns, hpending] at hbad
  cases hbad

private theorem exec_startDraft :
    ((exec (ledgerStep replaceAll id) .initial (lifecycleActions startDraft)).bind fun r =>
      (restart r.1 fun _ => ([], [])).files.get (js "s")).isSome = true := by
  decide +kernel

theorem restart_recovers_started :
    ∃ tr s f, Run (KeepingStep replaceAll id) .initial tr s ∧
      (restart s fun _ => ([], [])).files.get (js "s") = some f ∧
      ∃ row, (restart s fun _ => ([], [])).memory.summaries.get (js "s") = some row ∧
        (∀ turn, turn ∈ f.events.filterMap startedTurn → turn ∉ f.events.filterMap finishedTurn →
          row.pendingTurns = none ∨ ∃ turns, row.pendingTurns = some turns ∧ turn ∈ turns) ∧
        (js "s" ∉ (restart s fun _ => ([], [])).memory.staleSummaries → row.lastSeq = some (lastSeq f.events) ∧
          (OrderedTurns f.events → row.pendingTurns = some (pendingTurnsOf f.events))) := by
  obtain ⟨f, hf⟩ := Option.isSome_iff_exists.mp exec_startDraft
  obtain ⟨⟨s, os⟩, hrun, hfile⟩ := Option.bind_eq_some_iff.mp hf
  have hkeeping := keepingRun_of_exec (by simp [lifecycleActions, appendActions]) hrun
  exact ⟨_, s, f, hkeeping, hfile, restart_recovers replaceAll id _ s hkeeping (fun _ => ([], [])) (js "s") f hfile⟩

/-- At any point of a run a row that is not stale describes the lines its file has on record, and no row in memory or
in the index is ahead of its file. -/
theorem rows_follow_files (diff : LineDiff) (contentVersion : JsString → JsString)
    (tr : List (LedgerAction × Outcome)) (s : LedgerMachine)
    (h : Run (KeepingStep diff contentVersion) .initial tr s) :
    (∀ k row, s.memory.summaries.get k = some row → s.files.has k = true ∧ RowOf row (fileOf s.files k).lines ∧
      (k ∉ s.memory.staleSummaries → Describes row (committed s k))) ∧
    (∀ row ∈ s.index.getD [], s.files.has row.sessionId = true ∧ RowOf row (fileOf s.files row.sessionId).lines) ∧
    ∀ k, committed s k <+: (fileOf s.files k).lines ∧ Numbered (s.view.file k).stored := by
  have hinv : RecoveryInv s := h.invariant RecoveryInv (fun _ _ _ hinv hstep => hinv.step hstep) recoveryInv_initial
  refine ⟨fun k row hget => ?_, fun row hrow => ?_, fun k => ⟨committed_le_lines s k, hinv.timelines.numbered k⟩⟩
  · obtain ⟨-, hfile, hrow⟩ := hinv.rows.row_of_get hget
    exact ⟨hfile, hrow, hinv.rows.fresh k row hget⟩
  · have hfile := hinv.files.index row hrow
    exact ⟨hfile, hinv.rows.index row hrow hfile⟩

theorem rows_follow_files_started : ∃ tr s row, Run (KeepingStep replaceAll id) .initial tr s ∧
    s.memory.summaries.get (js "s") = some row ∧ RowOf row (fileOf s.files (js "s")).lines ∧
      Describes row (committed s (js "s")) ∧
      ∀ row ∈ s.index.getD [], RowOf row (fileOf s.files row.sessionId).lines := by
  have hexec : ((exec (ledgerStep replaceAll id) .initial (lifecycleActions startDraft)).bind fun r =>
      if js "s" ∈ r.1.memory.staleSummaries then none else r.1.memory.summaries.get (js "s")).isSome = true := by
    decide +kernel
  obtain ⟨row, hrow⟩ := Option.isSome_iff_exists.mp hexec
  obtain ⟨⟨s, os⟩, hrun, hrow⟩ := Option.bind_eq_some_iff.mp hrow
  split at hrow
  · cases hrow
  rename_i hfresh
  have hkeeping := keepingRun_of_exec (by simp [lifecycleActions, appendActions]) hrun
  obtain ⟨hmemory, hindex, -⟩ := rows_follow_files replaceAll id _ s hkeeping
  obtain ⟨-, hof, hdescribes⟩ := hmemory _ row hrow
  exact ⟨_, s, row, hkeeping, hrow, hof, hdescribes hfresh, fun row hrow => (hindex row hrow).2⟩

end Wrenyard.Session
