import Wrenyard.Session.LedgerContinuity

/-!
# Pages and the cache

`Ledger.readPage` answers from the loaded timeline, from the tail position of a row that is trusted, or from the file.
Along every run the three agree on a session whose loaded timeline, if it has one, is not empty (`readPage_agrees`);
one that is loaded and empty is answered with an empty page, where the file would say that the session is unknown.
-/

namespace Wrenyard.Session

open Js Transition

variable {s : LedgerMachine} {k : JsString}

def pageAnswer (sessionId : JsString) (events : List LedgerEvent) (afterSeq : Int) (limit : Option Int) : Outcome :=
  if events = [] then .rejected sessionId (unknownSession sessionId)
  else .page sessionId (pageOf events afterSeq limit)

def LedgerMachine.evicted (s : LedgerMachine) (sessionId : JsString) : LedgerMachine :=
  { s with memory := s.memory.dropSession sessionId }

def LedgerMachine.distrusted (s : LedgerMachine) (sessionId : JsString) : LedgerMachine :=
  { s with memory := { s.memory with staleSummaries := OSet.add s.memory.staleSummaries sessionId } }

def TailExact (s : LedgerMachine) (k : JsString) : Prop :=
  ∀ tail, trustedTail s.memory k = some tail → tail = (fileOf s.files k).events.length ∧
    (fileOf s.files k).events ≠ []

theorem loadPage_unloaded (hget : s.memory.events.get k = none) (htail : (10 : UInt8) ∉ (fileOf s.files k).tail)
    (afterSeq : Int) (limit : Option Int) :
    (loadPage s k afterSeq limit).1 = pageAnswer k (fileOf s.files k).events afterSeq limit := by
  unfold loadPage pageAnswer
  rw [loadSessionSync_uncached hget htail]
  dsimp only [loadedEntry]
  split <;> rfl

theorem readPage_unloaded (hid : assertSessionId k = .ok ()) (hget : s.memory.events.get k = none)
    (htail : (10 : UInt8) ∉ (fileOf s.files k).tail) (hnum : Numbered (fileOf s.files k).events)
    (hexact : TailExact s k)
    (afterSeq : Int) (limit : Option Int) :
    (readPage s k afterSeq limit).1 = pageAnswer k (fileOf s.files k).events afterSeq limit := by
  have hload := loadPage_unloaded hget htail afterSeq limit
  unfold readPage
  rw [hid, hget]
  dsimp only
  split
  · rename_i hfile
    have hnone : s.files.get k = none := by simpa [OMap.has] using hfile
    have hempty : (fileOf s.files k).events = [] := by
      rw [fileOf, hnone]
      rfl
    rw [pageAnswer, if_pos hempty]
  · split
    · rename_i tail htrusted
      obtain ⟨hlen, hne⟩ := hexact tail htrusted
      by_cases hpast : (tail : Int) ≤ afterSeq
      · have hpage := pageOf_past hnum limit (show _ ≤ afterSeq by omega)
        rw [if_pos hpast, pageAnswer, if_neg hne, hpage, hlen]
      · rw [if_neg hpast]
        exact hload
    · exact hload

theorem readPage_loaded {entry : LoadedSession} (hid : assertSessionId k = .ok ())
    (hget : s.memory.events.get k = some entry) (afterSeq : Int) (limit : Option Int) :
    (readPage s k afterSeq limit).1 = .page k (pageOf entry.events afterSeq limit) := by
  unfold readPage
  rw [hid, hget]

theorem RowsInv.tailExact (h : RowsInv s) (hline : Job.lineFor s.job k = none) : TailExact s k := by
  intro tail htrusted
  unfold trustedTail at htrusted
  split at htrusted
  · cases htrusted
  rename_i hfresh
  obtain ⟨row, hrow, hlast⟩ := Option.bind_eq_some_iff.mp htrusted
  have hdesc := h.fresh k row hrow (by simpa using hfresh)
  rw [committed_of_idle hline] at hdesc
  have hlen := hdesc.lastSeq
  rw [hlast] at hlen
  refine ⟨?_, ?_⟩
  · rw [Option.some.inj hlen]
    simp [TimelineFile.events]
  · have := hdesc.nonempty
    simpa [TimelineFile.events] using this

theorem TailExact.evicted (h : TailExact s k) : TailExact (s.evicted k) k := by
  intro tail htrusted
  refine h tail ?_
  unfold trustedTail at htrusted ⊢
  simpa [LedgerMachine.evicted] using htrusted

theorem tailExact_distrusted (s : LedgerMachine) (k : JsString) : TailExact (s.distrusted k) k := by
  intro tail htrusted
  have hstale : (s.distrusted k).memory.staleSummaries.contains k = true := by simp [LedgerMachine.distrusted]
  rw [trustedTail, if_pos hstale] at htrusted
  cases htrusted

theorem TimelineInv.numbered_events {P : LedgerEventDraft → Prop} (h : TimelineInv P s.view) (k : JsString) :
    Numbered (fileOf s.files k).events :=
  (fileOf s.files k).sameReload_events.numbered_iff.mpr (h.numbered k)

theorem TimelineInv.loaded_eq (h : TimelineInv Plain s.view) {entry : LoadedSession}
    (hget : s.memory.events.get k = some entry) (hline : Job.lineFor s.job k = none) :
    entry.events = (fileOf s.files k).events ∧ (fileOf s.files k).tail = [] := by
  have hholds := h.loaded k entry hget
  change (fileOf s.files k).HoldsLoaded entry.events (Job.lineFor s.job k) at hholds
  rw [hline] at hholds
  have hfile : ∀ e ∈ (fileOf s.files k).events, Plain e.toLedgerEventDraft := by
    intro e he
    obtain ⟨o, -, rfl⟩ := List.mem_map.mp he
    exact plain_reload o.event
  have hplain := h.plain k entry hget
  have heq := hholds.eq_events
  refine ⟨?_, hholds.of_none.2⟩
  have hle := prefix_of_extends hplain hfile (by rewrite [heq]; exact List.prefix_rfl)
  exact hle.eq_of_length (by simpa using (congrArg List.length heq).symm)

/-- A page is that of the visible timeline, and, when no append writes the session, it is the same whether its
timeline is loaded, and whether its row is trusted. -/
structure PagesAgree (s : LedgerMachine) (k : JsString) : Prop where
  answer : ∀ afterSeq limit, (readPage s k afterSeq limit).1 = pageAnswer k (s.view.visible k) afterSeq limit
  evicted : Job.lineFor s.job k = none → ∀ afterSeq limit,
    (readPage (s.evicted k) k afterSeq limit).1 = (readPage s k afterSeq limit).1
  distrusted : Job.lineFor s.job k = none → ∀ afterSeq limit,
    (readPage ((s.evicted k).distrusted k) k afterSeq limit).1 = (readPage s k afterSeq limit).1

theorem readPage_evicted (hinv : TimelineInv Plain s.view) (hrows : RowsInv s) (hid : assertSessionId k = .ok ())
    (hline : Job.lineFor s.job k = none) (afterSeq : Int) (limit : Option Int) :
    (readPage (s.evicted k) k afterSeq limit).1 = pageAnswer k (fileOf s.files k).events afterSeq limit ∧
    (readPage ((s.evicted k).distrusted k) k afterSeq limit).1 =
    pageAnswer k (fileOf s.files k).events afterSeq limit := by
  have hnone : (s.memory.dropSession k).events.get k = none := by rw [Memory.get_dropSession, if_pos rfl]
  have htail : (10 : UInt8) ∉ (fileOf s.files k).tail := by
    cases hget : s.memory.events.get k with
    | none => exact hinv.unloaded k hget
    | some entry =>
      rw [(hinv.loaded_eq hget hline).2]
      exact List.not_mem_nil
  exact ⟨readPage_unloaded (s := s.evicted k) hid hnone htail (hinv.numbered_events k) (hrows.tailExact hline).evicted
      afterSeq limit,
    readPage_unloaded (s := (s.evicted k).distrusted k) hid hnone htail (hinv.numbered_events k)
      (tailExact_distrusted (s.evicted k) k) afterSeq limit⟩

theorem pagesAgree_iff (hinv : TimelineInv Plain s.view) (hrows : RowsInv s) (hid : assertSessionId k = .ok ()) :
    PagesAgree s k ↔ ∀ entry, s.memory.events.get k = some entry → entry.events ≠ [] := by
  constructor
  · intro h entry hget hempty
    have hanswer := h.answer 0 none
    rw [readPage_loaded hid hget, TimelineView.visible_loaded hget, pageAnswer, if_pos hempty] at hanswer
    cases hanswer
  · intro hne
    have hanswer : ∀ afterSeq limit,
        (readPage s k afterSeq limit).1 = pageAnswer k (s.view.visible k) afterSeq limit := by
      intro afterSeq limit
      cases hget : s.memory.events.get k with
      | none =>
        rw [TimelineView.visible_unloaded hget]
        exact readPage_unloaded hid hget (hinv.unloaded k hget) (hinv.numbered_events k)
          (hrows.tailExact (hinv.lineFor_unloaded hget)) afterSeq limit
      | some entry =>
        rw [readPage_loaded hid hget, TimelineView.visible_loaded hget, pageAnswer, if_neg (hne entry hget)]
    have hvisible : Job.lineFor s.job k = none → s.view.visible k = (fileOf s.files k).events := by
      intro hline
      cases hget : s.memory.events.get k with
      | none => exact TimelineView.visible_unloaded hget
      | some entry => exact (TimelineView.visible_loaded hget).trans (hinv.loaded_eq hget hline).1
    refine ⟨hanswer, ?_, ?_⟩ <;> intro hline afterSeq limit
    · rw [hanswer, hvisible hline]
      exact (readPage_evicted hinv hrows hid hline afterSeq limit).1
    · rw [hanswer, hvisible hline]
      exact (readPage_evicted hinv hrows hid hline afterSeq limit).2

/-- In every state that listed steps reach, the ways to answer a page agree on a session exactly when its timeline is
not loaded and empty. -/
theorem readPage_agrees (diff : LineDiff) (contentVersion : JsString → JsString) (tr : List (LedgerAction × Outcome))
    (s : LedgerMachine) (k : JsString) (h : Run (ListedStep diff contentVersion) .initial tr s)
    (hid : assertSessionId k = .ok ()) :
    PagesAgree s k ↔ ∀ entry, s.memory.events.get k = some entry → entry.events ≠ [] := by
  obtain ⟨hinv, hrows⟩ := listedRun_rows (timelineInv_initial Plain) rowsInv_initial h
  exact pagesAgree_iff hinv hrows hid

private theorem exec_listed :
    (exec (guarded (fun s a => decide (Settled s a ∧ Admits Plain a ∧ Unlisted s a))
      (ledgerStep replaceAll id)) .initial
      titledActions).any (fun r => (r.1.memory.events.get (js "s")).all fun entry => !entry.events.isEmpty) =
      true := by
  decide

theorem readPage_agrees_titled :
    ∃ os s, Run (ListedStep replaceAll id) .initial (titledActions.zip os) s ∧ PagesAgree s (js "s") := by
  obtain ⟨⟨s, os⟩, hrun, hloaded⟩ := (Option.any_eq_true _ _).mp exec_listed
  have hlisted := listed_of_exec hrun
  refine ⟨os, s, hlisted, (readPage_agrees replaceAll id _ s (js "s") hlisted (by decide)).mpr ?_⟩
  intro entry hget
  rw [hget] at hloaded
  simpa using hloaded

/-- A session without events is rejected as unknown, and answered with an empty page once it was read. -/
theorem readPage_not_agrees :
    ((exec (ledgerStep replaceAll id) .initial [.readPage (js "s") 0 (some 10)]).map (·.2) =
        some [.rejected (js "s") (unknownSession (js "s"))] ∧
      (exec (ledgerStep replaceAll id) .initial [.read (js "s"), .readPage (js "s") 0 (some 10)]).map (·.2) =
        some [.timeline (js "s") [], .page (js "s") ⟨[], 0, false⟩]) ∧
    ¬ ∀ (diff : LineDiff) (contentVersion : JsString → JsString) (tr : List (LedgerAction × Outcome))
    (s : LedgerMachine)
      (k : JsString), Run (LedgerStep diff contentVersion) .initial tr s → assertSessionId k = .ok () →
      PagesAgree s k := by
  refine ⟨⟨by decide, by decide⟩, ?_⟩
  intro h
  have hexec : (exec (ledgerStep replaceAll id) .initial [.read (js "s")]).any
      (fun r => (r.1.memory.events.get (js "s")).any fun entry => entry.events.isEmpty) = true := by decide
  obtain ⟨⟨s, os⟩, hrun, hloaded⟩ := (Option.any_eq_true _ _).mp hexec
  obtain ⟨entry, hget, hempty⟩ := (Option.any_eq_true _ _).mp hloaded
  have hanswer := (h replaceAll id _ s (js "s") (run_of_exec hrun) (by decide)).answer 0 (some 10)
  rw [readPage_loaded (by decide) hget, TimelineView.visible_loaded hget, pageAnswer,
    if_pos (List.isEmpty_iff.mp hempty)] at hanswer
  cases hanswer

end Wrenyard.Session
