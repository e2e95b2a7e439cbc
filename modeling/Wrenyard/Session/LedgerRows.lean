import Wrenyard.Session.LedgerTimeline

/-!
# Rows in memory and in the index

The invariant of the ledger that concerns its rows (`RowsInv`).  A row that has a tail position describes a prefix of
its session's file: its size in bytes, its number of events and the turns pending in it.  A row that is not stale
describes the whole file, but for a line whose append still runs.  The index lags behind by any number of events;
since the sizes of the prefixes of a file are distinct, a size that matches tells that the row describes the whole of
it.
-/

namespace Wrenyard.Session

open Js Transition List

/-- A list of pending turns that misses none, and is exact when every turn is started once and finished after that. -/
structure Tracks (turns : List Nat) (events : List LedgerEvent) : Prop where
  covers : ∀ turn ∈ pendingTurnsOf events, turn ∈ turns
  exact_of_ordered : OrderedTurns events → turns = pendingTurnsOf events

variable {turns : List Nat} {events events' : List LedgerEvent} {event : LedgerEvent}

theorem tracks_pendingTurnsOf (events : List LedgerEvent) : Tracks (pendingTurnsOf events) events :=
  ⟨fun _ h => h, fun _ => rfl⟩

theorem startedTurn_reload (e : LedgerEvent) : startedTurn e.reload = startedTurn e := by
  rw [startedTurn, startedTurn, LedgerEvent.reload_body, LedgerEvent.reload_turn]

theorem finishedTurn_reload (e : LedgerEvent) : finishedTurn e.reload = finishedTurn e := by
  rw [finishedTurn, finishedTurn, LedgerEvent.reload_body, LedgerEvent.reload_turn]

private theorem filterMap_of_sameReload {g : LedgerEvent → Option Nat} (hg : ∀ e : LedgerEvent, g e.reload = g e)
    (h : SameReload events events') : events.filterMap g = events'.filterMap g := by
  have hmap := h.map_eq g hg
  have hid : ∀ es : List LedgerEvent, es.filterMap g = (es.map g).filterMap id := by
    intro es
    rw [filterMap_map]
    rfl
  rw [hid, hid, hmap]

theorem SameReload.pendingTurnsOf_eq (h : SameReload events events') :
    pendingTurnsOf events = pendingTurnsOf events' := by
  unfold pendingTurnsOf
  rw [filterMap_of_sameReload startedTurn_reload h, filterMap_of_sameReload finishedTurn_reload h]

theorem SameReload.orderedTurns (h : SameReload events events') (ho : OrderedTurns events) :
    OrderedTurns events' where
  started_once := by
    rw [← filterMap_of_sameReload startedTurn_reload h]
    exact ho.started_once
  finished_after before event after he turn hturn := by
    -- the same position of the other timeline
    have hsplit : events = events.take before.length ++ events.drop before.length :=
      (take_append_drop before.length events).symm
    have hbefore : SameReload (events.take before.length) before := by
      have := congrArg (List.take before.length) h
      rw [he, ← map_take, ← map_take, take_left] at this
      exact this
    have hafter : (events.drop before.length).map (·.reload) = (event :: after).map (·.reload) := by
      have := congrArg (List.drop before.length) h
      rwa [he, ← map_drop, ← map_drop, drop_left] at this
    cases hd : events.drop before.length with
    | nil =>
      rw [hd] at hafter
      cases hafter
    | cons event' rest =>
      rw [hd] at hsplit hafter
      have hev : event'.reload = event.reload := (List.cons.inj hafter).1
      have hturn' : finishedTurn event' = some turn := by
        rw [← finishedTurn_reload, hev, finishedTurn_reload, hturn]
      have := ho.finished_after _ event' rest hsplit turn hturn'
      rwa [filterMap_of_sameReload startedTurn_reload hbefore] at this

theorem SameReload.symm (h : SameReload events events') : SameReload events' events := Eq.symm h

theorem Tracks.of_sameReload (ht : Tracks turns events) (h : SameReload events events') : Tracks turns events' where
  covers := by
    rw [← h.pendingTurnsOf_eq]
    exact ht.covers
  exact_of_ordered ho := by
    rw [← h.pendingTurnsOf_eq]
    exact ht.exact_of_ordered (h.symm.orderedTurns ho)

theorem Tracks.snoc (ht : Tracks turns events) (event : LedgerEvent) :
    Tracks (pendingTurnsAfter (some turns) event) (events ++ [event]) where
  covers turn hturn := by
    rw [mem_pendingTurnsOf] at hturn
    simp only [filterMap_append, mem_append, not_or, filterMap_cons, filterMap_nil] at hturn
    obtain ⟨hstarted, hnot, hnot'⟩ := hturn
    have hold : turn ∈ events.filterMap startedTurn → turn ∈ turns := fun hs =>
      ht.covers turn (mem_pendingTurnsOf.mpr ⟨hs, hnot⟩)
    simp only [pendingTurnsAfter, mem_sortAscending, Option.getD_some]
    cases hs : startedTurn event <;> rw [hs] at hstarted
    case some started =>
      rw [OSet.mem_add, OSet.mem_ofList]
      rcases hstarted with hstarted | hstarted
      · exact Or.inl (hold hstarted)
      · exact Or.inr (mem_singleton.mp hstarted)
    case none =>
      have hin : turn ∈ turns := hold (hstarted.resolve_right not_mem_nil)
      cases hf : finishedTurn event with
      | none => exact OSet.mem_ofList.mpr hin
      | some finished =>
        rw [hf] at hnot'
        rw [OSet.mem_delete, OSet.mem_ofList]
        exact ⟨hin, fun heq => hnot' (mem_singleton.mpr heq)⟩
  exact_of_ordered ho := by
    rw [ht.exact_of_ordered ho.of_snoc, pendingTurnsOf_snoc ho]

theorem Tracks.read (ht : Tracks turns events) {turns' : List Nat} (h : readPendingTurns turns = some turns') :
    Tracks turns' events := by
  unfold readPendingTurns at h
  split at h
  · cases h
  cases h
  refine ⟨fun turn hturn => mem_sortAscending.mpr (ht.covers turn hturn), fun ho => ?_⟩
  rw [ht.exact_of_ordered ho]
  exact List.Pairwise.insertionSort_eq (pairwise_insertionSort _ _)

structure Describes (row : SessionSummary) (lines : List EventObject) : Prop where
  nonempty : lines ≠ []
  lastSeq : row.lastSeq = some lines.length
  bytes : row.bytes = some (timelineBytes lines).length
  pendingTurns : ∃ turns, row.pendingTurns = some turns ∧ Tracks turns (lines.map (·.event))

def RowOf (row : SessionSummary) (lines : List EventObject) : Prop :=
  (row.lastSeq = none ∧ row.pendingTurns = none) ∨ ∃ base, base <+: lines ∧ Describes row base

variable {row : SessionSummary} {lines lines' : List EventObject}

theorem Describes.rowOf (h : Describes row lines) : RowOf row lines := Or.inr ⟨lines, List.prefix_rfl, h⟩

theorem RowOf.mono (h : RowOf row lines) (hl : lines <+: lines') : RowOf row lines' := by
  rcases h with h | ⟨base, hbase, h⟩
  · exact Or.inl h
  · exact Or.inr ⟨base, hbase.trans hl, h⟩

theorem timelineBytes_append (os os' : List EventObject) :
    timelineBytes (os ++ os') = timelineBytes os ++ timelineBytes os' := Framing.frame_append os os'

theorem length_timelineBytes_singleton (o : EventObject) : (timelineBytes [o]).length = (lineOf o).length + 1 := by
  simp [timelineBytes, Framing.frame_cons, Framing.frame_nil]

private theorem eq_nil_of_timelineBytes {os : List EventObject} (h : (timelineBytes os).length = 0) : os = [] := by
  cases os with
  | nil => rfl
  | cons o os =>
    rw [timelineBytes, Framing.frame_cons, length_append, length_cons] at h
    omega

variable {f : TimelineFile}

theorem prefix_eq_of_size {base : List EventObject} (hbase : base <+: f.lines)
    (hsize : (timelineBytes base).length = f.size) : base = f.lines ∧ f.tail = [] := by
  obtain ⟨rest, hrest⟩ := hbase
  rw [TimelineFile.size, TimelineFile.bytes, ← hrest, timelineBytes_append, length_append, length_append]
    at hsize
  have hnil : rest = [] := eq_nil_of_timelineBytes (by omega)
  subst hnil
  refine ⟨by rw [← hrest, append_nil], length_eq_zero_iff.mp (by omega)⟩

theorem describes_rebuilt {sessionId : JsString} (hnum : Numbered (lines.map (·.event)))
    (hsame : SameReload events (lines.map (·.event)))
    (hrow : rebuiltSummary sessionId events (timelineBytes lines).length = some row) :
    Describes row lines ∧ row.sessionId = sessionId := by
  unfold rebuiltSummary at hrow
  split at hrow
  · cases hrow
  rename_i last hlast
  cases hrow
  have hne : events ≠ [] := by
    rintro rfl
    cases hlast
  have hlen : events.length = lines.length := by
    rw [hsame.length_eq, length_map]
  have hseq : lastSeq events = events.length := (hsame.numbered_iff.mpr hnum).lastSeq_eq
  rw [lastSeq, hlast] at hseq
  refine ⟨⟨?_, ?_, rfl, _, rfl, (tracks_pendingTurnsOf events).of_sameReload hsame⟩, rfl⟩
  · rintro rfl
    exact hne (length_eq_zero_iff.mp hlen)
  · rw [← hlen, ← hseq]
    rfl

variable {o : EventObject}

theorem describes_applySummary (sessionId : JsString) {previous : Option SessionSummary}
    (hprevious : (lines = [] ∧ previous.bind (·.pendingTurns) = none ∧ (previous.bind (·.bytes)).getD 0 = 0) ∨
      ∃ row, previous = some row ∧ Describes row lines)
    (hseq : o.event.seq = lines.length + 1) (events : List LedgerEvent) :
    Describes (applySummary previous sessionId o.event events
      ((previous.bind (·.bytes)).getD 0 + ((lineOf o).length + 1))) (lines ++ [o]) := by
  have hlast : (applySummary previous sessionId o.event events
      ((previous.bind (·.bytes)).getD 0 + ((lineOf o).length + 1))).lastSeq = some (lines ++ [o]).length := by
    simp [applySummary, hseq]
  refine ⟨by simp, hlast, ?_, ?_⟩
  · rw [timelineBytes_append, length_append, length_timelineBytes_singleton]
    rcases hprevious with ⟨rfl, -, hbytes⟩ | ⟨row, rfl, hrow⟩
    · rw [hbytes]
      rfl
    · rw [Option.bind_some, hrow.bytes]
      rfl
  · refine ⟨_, rfl, ?_⟩
    rw [map_append]
    rcases hprevious with ⟨rfl, hpending, -⟩ | ⟨row, rfl, hrow⟩
    · rw [hpending]
      exact (tracks_pendingTurnsOf []).snoc o.event
    · obtain ⟨turns, hturns, htracks⟩ := hrow.pendingTurns
      rw [Option.bind_some, hturns]
      exact htracks.snoc o.event

theorem reconcileRow_spec {sessionId : JsString} {previous : Option SessionSummary}
    (hprevious : ∀ row ∈ previous, row.sessionId = sessionId ∧ ∃ stored, row = readSummary stored ∧
      RowOf stored f.lines)
    (times : JsString × JsString) :
    (reconcileRow sessionId previous f.size times).1.sessionId = sessionId ∧
      RowOf (reconcileRow sessionId previous f.size times).1 f.lines ∧
      ((reconcileRow sessionId previous f.size times).2 = false →
        Describes (reconcileRow sessionId previous f.size times).1 f.lines) ∧
      ((reconcileRow sessionId previous f.size times).2 = true →
        (reconcileRow sessionId previous f.size times).1.pendingTurns = none) := by
  cases previous with
  | none => exact ⟨rfl, Or.inl ⟨rfl, rfl⟩, by simp [reconcileRow], fun _ => rfl⟩
  | some row =>
    obtain ⟨hid, stored, rfl, hstored⟩ := hprevious row rfl
    simp only [reconcileRow]
    split
    · rename_i hcomplete
      simp only [Bool.and_eq_true, Option.isSome_iff_exists, beq_iff_eq] at hcomplete
      obtain ⟨⟨⟨q, hq⟩, ⟨turns, hturns⟩⟩, hbytes⟩ := hcomplete
      have hdesc : Describes (readSummary stored) f.lines := by
        rcases hstored with ⟨hnone, -⟩ | ⟨base, hbase, hdesc⟩
        · change stored.lastSeq = some q at hq
          rw [hnone] at hq
          cases hq
        · have hsize : (timelineBytes base).length = f.size := by
            have hb : stored.bytes = some f.size := hbytes
            rw [hdesc.bytes] at hb
            exact Option.some.inj hb
          obtain ⟨rfl, -⟩ := prefix_eq_of_size hbase hsize
          refine ⟨hdesc.nonempty, hdesc.lastSeq, hdesc.bytes, ?_⟩
          obtain ⟨stored', hstored', htracks⟩ := hdesc.pendingTurns
          refine ⟨turns, hturns, htracks.read ?_⟩
          change stored.pendingTurns.bind readPendingTurns = some turns at hturns
          rwa [hstored', Option.bind_some] at hturns
      exact ⟨hid, hdesc.rowOf, fun _ => hdesc, by simp⟩
    · exact ⟨hid, Or.inl ⟨rfl, rfl⟩, by simp, fun _ => rfl⟩

/-! ### The invariant -/

def committed (s : LedgerMachine) (k : JsString) : List EventObject :=
  match Job.lineFor s.job k with
  | some (o, some n) =>
    if n = (lineOf o ++ [10]).length then (fileOf s.files k).lines.dropLast else (fileOf s.files k).lines
  | _ => (fileOf s.files k).lines

/-- The row of a loaded timeline: a timeline with events has a row that is not stale, and a row of an empty one says
nothing. -/
def LoadedRow (m : Memory) (k : JsString) (events : List LedgerEvent) : Prop :=
  (events ≠ [] → ∃ row, m.summaries.get k = some row ∧ k ∉ m.staleSummaries) ∧
  (events = [] → (m.summaries.get k).bind (·.pendingTurns) = none ∧
    ((m.summaries.get k).bind (·.bytes)).getD 0 = 0)

structure RowsInv (s : LedgerMachine) : Prop where
  nodup : s.files.keys.Nodup
  rows : ∀ e ∈ s.memory.summaries,
    e.2.sessionId = e.1 ∧ s.files.has e.1 = true ∧ RowOf e.2 (fileOf s.files e.1).lines
  fresh : ∀ k row, s.memory.summaries.get k = some row → k ∉ s.memory.staleSummaries → Describes row (committed s k)
  loaded : ∀ k entry, s.memory.events.get k = some entry → LoadedRow s.memory k entry.events
  index : ∀ row ∈ s.index.getD [], s.files.has row.sessionId = true → RowOf row (fileOf s.files row.sessionId).lines
  flush : ∀ flush, s.flush = some flush → ∀ row ∈ flush.rows,
    RowOf row (fileOf s.files row.sessionId).lines ∨ (s.job = some (.forgetting row.sessionId) ∧ flush.own = false)
  own : ∀ flush, s.flush = some flush → flush.own = true → ∃ job, s.job = some job ∧ job.awaitsFlush = true
  opened : ∀ k o array events n, s.job = some (.appending k o array events (some n)) → s.files.has k = true
  removing : ∀ k, s.job = some (.removing k) → s.memory.summaries.get k = none
  forgetting : ∀ k, s.job = some (.forgetting k) → s.files.has k = false

section

variable {P : LedgerEventDraft → Prop} {s s' : LedgerMachine} {k : JsString} {row : SessionSummary}

theorem RowsInv.row_of_get (h : RowsInv s) (hget : s.memory.summaries.get k = some row) :
    row.sessionId = k ∧ s.files.has k = true ∧ RowOf row (fileOf s.files k).lines :=
    h.rows (k, row) (OMap.mem_of_get hget)

theorem committed_le_lines (s : LedgerMachine) (k : JsString) : committed s k <+: (fileOf s.files k).lines := by
  unfold committed
  split
  · split
    · exact dropLast_prefix _
    · exact prefix_rfl
  · exact prefix_rfl

theorem committed_of_idle (h : Job.lineFor s.job k = none) : committed s k = (fileOf s.files k).lines := by
  unfold committed
  rw [h]

theorem TimelineInv.sameReload_committed (h : TimelineInv P s.view) {entry : LoadedSession}
    (hl : s.memory.events.get k = some entry) : SameReload entry.events ((committed s k).map (·.event)) := by
  have hholds := h.loaded k entry hl
  change match Job.lineFor s.job k with
    | some (o, some n) => _
    | _ => _ at hholds
  unfold committed
  split at hholds
  · rename_i o n hline
    rcases hholds with ⟨hn, hsame, -⟩ | ⟨hn, -, base, hlines, hsame⟩
    · rw [if_neg (Nat.ne_of_lt hn)]
      exact hsame
    · have hfile : (fileOf s.files k).lines = base ++ [o] := hlines
      rw [if_pos hn, hfile, dropLast_concat]
      exact hsame
  · exact hholds.1

theorem TimelineInv.lineFor_unloaded (h : TimelineInv P s.view) (hl : s.memory.events.get k = none) :
    Job.lineFor s.job k = none := by
  unfold Job.lineFor
  split
  · rename_i sessionId o array events written hj
    rw [if_neg]
    rintro rfl
    obtain ⟨-, ⟨bytes, hl'⟩, -⟩ := h.appending _ _ _ _ _ hj
    change s.memory.events.get sessionId = _ at hl'
    rw [hl] at hl'
    cases hl'
  · rfl

theorem RowsInv.move (h : RowsInv s) (hsummaries : s'.memory.summaries = s.memory.summaries)
    (hstale : s'.memory.staleSummaries = s.memory.staleSummaries) (hindex : s'.index = s.index)
    (hflush : s'.flush = s.flush) (hnodup : s'.files.keys.Nodup)
    (hhas : ∀ k, s.files.has k = true → s'.files.has k = true)
    (hlines : ∀ k, (fileOf s.files k).lines <+: (fileOf s'.files k).lines)
    (hcommitted : ∀ k, k ∉ s.memory.staleSummaries → committed s' k = committed s k)
    (hloaded : ∀ k entry, s'.memory.events.get k = some entry → LoadedRow s.memory k entry.events)
    (hlisted : ∀ row ∈ s.index.getD [], s'.files.has row.sessionId = true → s.files.has row.sessionId = true)
    (hjob : s'.job = s.job ∨ (∀ job, s.job = some job → job.awaitsFlush = false) ∨ s.flush = none)
    (hopened : ∀ k o array events n, s'.job = some (.appending k o array events (some n)) → s'.files.has k = true)
    (hremoving : ∀ k, s'.job = some (.removing k) → s.memory.summaries.get k = none)
    (hforgetting : ∀ k, s'.job = some (.forgetting k) → s'.files.has k = false) : RowsInv s' where
  nodup := hnodup
  rows e he := by
    rw [hsummaries] at he
    obtain ⟨hid, hfile, hrow⟩ := h.rows e he
    exact ⟨hid, hhas _ hfile, hrow.mono (hlines _)⟩
  fresh k row hget hfresh := by
    rw [hsummaries] at hget
    rw [hstale] at hfresh
    rw [hcommitted k hfresh]
    exact h.fresh k row hget hfresh
  loaded k entry hl := by
    unfold LoadedRow
    rw [hsummaries, hstale]
    exact hloaded k entry hl
  index row hrow hfile := by
    rw [hindex] at hrow
    exact (h.index row hrow (hlisted row hrow hfile)).mono (hlines _)
  flush flush hf row hrow := by
    rw [hflush] at hf
    rcases h.flush flush hf row hrow with hrow | ⟨hforget, hown⟩
    · exact Or.inl (hrow.mono (hlines _))
    rcases hjob with hjob | hjob | hnone
    · exact Or.inr ⟨hjob.trans hforget, hown⟩
    · cases hjob _ hforget
    · rw [hnone] at hf
      cases hf
  own flush hf hown := by
    rw [hflush] at hf
    obtain ⟨job, hj, hawaits⟩ := h.own flush hf hown
    rcases hjob with hjob | hjob | hnone
    · exact ⟨job, hjob.trans hj, hawaits⟩
    · rw [hjob job hj] at hawaits
      cases hawaits
    · rw [hnone] at hf
      cases hf
  opened := hopened
  removing k hj := by
    rw [hsummaries]
    exact hremoving k hj
  forgetting := hforgetting

variable {m : Memory}

theorem RowsInv.lose (h : RowsInv s) (hsummaries : m.summaries = s.memory.summaries)
    (hstale : m.staleSummaries = s.memory.staleSummaries)
    (hloaded : ∀ k entry, m.events.get k = some entry → LoadedRow s.memory k entry.events) :
    RowsInv { s with memory := m } :=
  h.move hsummaries hstale rfl rfl h.nodup (fun _ => id) (fun _ => List.prefix_rfl) (fun _ _ => rfl) hloaded
    (fun _ _ => id) (Or.inl rfl) h.opened h.removing h.forgetting

theorem RowsInv.setJob (h : RowsInv s) (job : Option Job)
    (hold : ∀ k, k ∉ s.memory.staleSummaries → committed s k = (fileOf s.files k).lines)
    (hawaits : (∀ job, s.job = some job → job.awaitsFlush = false) ∨ s.flush = none)
    (hnew : ∀ k o n, Job.lineFor job k ≠ some (o, some n))
    (hremoving : ∀ k, job = some (.removing k) → s.memory.summaries.get k = none)
    (hforgetting : ∀ k, job = some (.forgetting k) → s.files.has k = false) : RowsInv { s with job := job } := by
  refine h.move rfl rfl rfl rfl h.nodup (fun _ => id) (fun _ => prefix_rfl) ?_ h.loaded (fun _ _ => id)
    (Or.inr hawaits) ?_ hremoving hforgetting
  · intro k hfresh
    rw [hold k hfresh]
    unfold committed
    split
    · rename_i o n hline
      exact absurd hline (hnew k o n)
    · rfl
  · intro k o array events n hj
    dsimp only at hj
    exfalso
    refine hnew k o n ?_
    rw [hj]
    exact if_pos rfl

theorem RowsInv.setRow (h : RowsInv s) (hid : row.sessionId = k) (hfile : s.files.has k = true)
    {job : Option Job} (hrow : Describes row (committed { s with memory := m, job := job } k))
    (hsummaries : m.summaries = s.memory.summaries.set k row)
    (hstale : m.staleSummaries = OSet.delete s.memory.staleSummaries k)
    (hloaded : ∀ k' entry, m.events.get k' = some entry →
      (k' = k ∧ entry.events ≠ []) ∨ (k' ≠ k ∧ s.memory.events.get k' = some entry))
    (hcommitted : ∀ k', k' ≠ k → committed { s with memory := m, job := job } k' = committed s k')
    (hjob : (job = s.job ∧ job ≠ some (.removing k)) ∨
      ((∀ job, s.job = some job → job.awaitsFlush = false) ∧ (job = none ∨ ∃ e, job = some (.flushing k e)))) :
    RowsInv { s with memory := m, job := job } where
  nodup := h.nodup
  rows e he := by
    rw [hsummaries] at he
    rcases OMap.mem_set he with rfl | he
    · exact ⟨hid, hfile, hrow.rowOf.mono (committed_le_lines _ k)⟩
    · exact h.rows e he
  fresh k' row' hget hfresh := by
    rw [hsummaries, OMap.get_set] at hget
    rw [hstale, OSet.mem_delete] at hfresh
    split at hget
    · rename_i hk
      cases hget
      subst hk
      exact hrow
    · rename_i hk
      rw [hcommitted k' (Ne.symm hk)]
      exact h.fresh k' row' hget fun hs => hfresh ⟨hs, Ne.symm hk⟩
  loaded k' entry hl := by
    rcases hloaded k' entry hl with ⟨rfl, hne⟩ | ⟨hk, hl'⟩
    · refine ⟨fun _ => ⟨row, ?_, ?_⟩, fun hnil => absurd hnil hne⟩
      · rw [hsummaries, OMap.get_set, if_pos rfl]
      · rw [hstale, OSet.mem_delete]
        exact fun hs => hs.2 rfl
    · have hold := h.loaded k' entry hl'
      unfold LoadedRow at hold ⊢
      rw [hsummaries, OMap.get_set, if_neg (Ne.symm hk)]
      refine ⟨fun hne => ?_, hold.2⟩
      obtain ⟨row', hget, hfresh⟩ := hold.1 hne
      refine ⟨row', hget, ?_⟩
      rw [hstale, OSet.mem_delete]
      exact fun hs => hfresh hs.1
  index := h.index
  flush flush hf row' hrow' := by
    rcases h.flush flush hf row' hrow' with h1 | ⟨hforget, hown⟩
    · exact Or.inl h1
    · rcases hjob with ⟨hjob, -⟩ | ⟨hjob, -⟩
      · exact Or.inr ⟨hjob.trans hforget, hown⟩
      · cases hjob _ hforget
  own flush hf hown := by
    obtain ⟨job', hj, hawaits⟩ := h.own flush hf hown
    rcases hjob with ⟨hjob, -⟩ | ⟨hjob, -⟩
    · exact ⟨job', hjob.trans hj, hawaits⟩
    · rw [hjob job' hj] at hawaits
      cases hawaits
  opened k' o array events n hj := by
    rcases hjob with ⟨hjob, -⟩ | ⟨-, rfl | ⟨e, rfl⟩⟩
    · exact h.opened k' o array events n (hjob ▸ hj)
    · cases hj
    · cases hj
  removing k' hj := by
    rcases hjob with ⟨hjob, hne⟩ | ⟨-, rfl | ⟨e, rfl⟩⟩
    · rw [hsummaries, OMap.get_set, if_neg]
      · exact h.removing k' (hjob ▸ hj)
      · rintro rfl
        exact hne hj
    · cases hj
    · cases hj
  forgetting k' hj := by
    rcases hjob with ⟨hjob, -⟩ | ⟨-, rfl | ⟨e, rfl⟩⟩
    · exact h.forgetting k' (hjob ▸ hj)
    · cases hj
    · cases hj

theorem RowsInv.addStale (h : RowsInv s) (hsummaries : m.summaries = s.memory.summaries)
    (hstale : m.staleSummaries = OSet.add s.memory.staleSummaries k)
    (hloaded : ∀ k' entry, m.events.get k' = some entry → k' ≠ k ∧ s.memory.events.get k' = some entry) :
    RowsInv { s with memory := m } where
  nodup := h.nodup
  rows e he := by
    rw [hsummaries] at he
    exact h.rows e he
  fresh k' row hget hfresh := by
    rw [hsummaries] at hget
    rw [hstale, OSet.mem_add, not_or] at hfresh
    exact h.fresh k' row hget hfresh.1
  loaded k' entry hl := by
    obtain ⟨hk, hl'⟩ := hloaded k' entry hl
    have hold := h.loaded k' entry hl'
    unfold LoadedRow at hold ⊢
    rw [hsummaries]
    refine ⟨fun hne => ?_, hold.2⟩
    obtain ⟨row, hget, hfresh⟩ := hold.1 hne
    refine ⟨row, hget, ?_⟩
    rw [hstale, OSet.mem_add, not_or]
    exact ⟨hfresh, hk⟩
  index := h.index
  flush := h.flush
  own := h.own
  opened := h.opened
  removing k' hj := by
    rw [hsummaries]
    exact h.removing k' hj
  forgetting := h.forgetting

theorem RowsInv.setPlaceholder (h : RowsInv s) (hget : s.memory.summaries.get k = some row)
    (hstale : k ∈ s.memory.staleSummaries) (hlines : (fileOf s.files k).lines = [])
    (hl : s.memory.events.get k = none)
    (hsummaries : m.summaries = s.memory.summaries.set k { row with bytes := some 0 })
    (hstale' : m.staleSummaries = s.memory.staleSummaries) (hevents : m.events = s.memory.events) :
    RowsInv { s with memory := m } ∧ LoadedRow m k [] := by
  obtain ⟨hid, hfile, hrow⟩ := h.row_of_get hget
  have hnothing : row.lastSeq = none ∧ row.pendingTurns = none := by
    rcases hrow with hrow | ⟨base, hbase, hrow⟩
    · exact hrow
    · rw [hlines] at hbase
      exact absurd (prefix_nil.mp hbase) hrow.nonempty
  refine ⟨⟨h.nodup, ?_, ?_, ?_, h.index, h.flush, h.own, h.opened, ?_, h.forgetting⟩, ?_⟩
  · intro e he
    rw [hsummaries] at he
    rcases OMap.mem_set he with rfl | he
    · exact ⟨hid, hfile, Or.inl hnothing⟩
    · exact h.rows e he
  · intro k' row' hget' hfresh
    rw [hstale'] at hfresh
    rw [hsummaries, OMap.get_set, if_neg] at hget'
    · exact h.fresh k' row' hget' hfresh
    · rintro rfl
      exact hfresh hstale
  · intro k' entry hl'
    rw [hevents] at hl'
    have hne : k ≠ k' := by
      rintro rfl
      rw [hl] at hl'
      cases hl'
    unfold LoadedRow
    rw [hsummaries, OMap.get_set, if_neg hne, hstale']
    exact h.loaded k' entry hl'
  · intro k' hj
    rw [hsummaries, OMap.get_set, if_neg]
    · exact h.removing k' hj
    · rintro rfl
      rw [h.removing k hj] at hget
      cases hget
  · refine ⟨fun hne => absurd rfl hne, fun _ => ?_⟩
    rw [hsummaries, OMap.get_set, if_pos rfl]
    exact ⟨hnothing.2, rfl⟩

omit P s s' in
theorem eq_nil_of_rebuiltSummary {bytes : Nat} (h : rebuiltSummary k events bytes = none) : events = [] := by
  unfold rebuiltSummary at h
  split at h
  · rename_i hlast
    exact List.getLast?_eq_none_iff.mp hlast
  · cases h

theorem has_cutFiles (files : OMap JsString TimelineFile) (k k' : JsString) :
    (cutFiles files k).has k' = files.has k' := by
  unfold cutFiles
  split
  · rename_i hsome
    rw [OMap.has_set]
    by_cases hk : k = k'
    · subst hk
      rw [OMap.has, hsome, Bool.or_true]
    · simp [hk]
  · rfl

theorem lines_cutFiles (files : OMap JsString TimelineFile) (k k' : JsString) :
    (fileOf (cutFiles files k) k').lines = (fileOf files k').lines := by
  rw [fileOf_cutFiles]
  dsimp only
  split
  · rename_i hk
    rw [hk]
  · rfl

theorem nodup_cutFiles {files : OMap JsString TimelineFile} (h : files.keys.Nodup) (k : JsString) :
    (cutFiles files k).keys.Nodup := by
  unfold cutFiles
  split
  · exact OMap.nodup_keys_set h _ _
  · exact h

theorem RowsInv.rebuild (h : RowsInv s) (hinv : TimelineInv P s.view) (hl : s.memory.events.get k = none)
    (hjob : s.job ≠ some (.removing k)) :
    RowsInv { s with memory := rebuiltMemory s k } ∧ LoadedRow (rebuiltMemory s k) k (fileOf s.files k).events := by
  have hcommitted : committed s k = (fileOf s.files k).lines := committed_of_idle (hinv.lineFor_unloaded hl)
  have hsize : TimelineFile.size ⟨(fileOf s.files k).lines, []⟩ =
      (timelineBytes (fileOf s.files k).lines).length := by
    rw [TimelineFile.size, TimelineFile.bytes, append_nil]
  unfold rebuiltMemory loadedEntry Memory.rebuildSummaryIfNeeded
  dsimp only
  rw [hsize]
  split
  · rename_i existing hget hfresh
    have hnot : k ∉ s.memory.staleSummaries := by simpa using hfresh
    have hdesc := h.fresh k existing hget hnot
    rw [hcommitted] at hdesc
    have hsame : ({ existing with bytes := some (timelineBytes (fileOf s.files k).lines).length } : SessionSummary) =
        existing := by rw [← hdesc.bytes]
    rw [hsame, OMap.set_of_get hget]
    refine ⟨h.lose rfl rfl h.loaded, fun _ => ⟨existing, hget, hnot⟩, fun hnil => ?_⟩
    exact absurd (map_eq_nil_iff.mp hnil) hdesc.nonempty
  · rename_i hnotFresh
    have hstale : ∀ row, s.memory.summaries.get k = some row → k ∈ s.memory.staleSummaries := by
      intro row hget
      by_contra hnot
      exact hnotFresh row hget (by simpa using hnot)
    split
    · rename_i _ row hrow
      obtain ⟨hdesc, hid⟩ := describes_rebuilt (hinv.numbered k) (fileOf s.files k).sameReload_events hrow
      have hdesc' : Describes row (fileOf s.files k).lines := hdesc
      have hfile : s.files.has k = true := by
        by_contra hno
        have hnone : s.files.get k = none := by simpa [OMap.has] using hno
        refine hdesc'.nonempty ?_
        rw [fileOf, hnone]
        rfl
      refine ⟨h.setRow hid hfile (hcommitted ▸ hdesc) rfl rfl ?_ (fun _ _ => rfl) (Or.inl ⟨rfl, hjob⟩),
        fun _ => ⟨row, ?_, ?_⟩, fun hnil => ?_⟩
      · intro k' entry hl'
        refine Or.inr ⟨?_, hl'⟩
        rintro rfl
        change s.memory.events.get k' = _ at hl'
        rw [hl] at hl'
        cases hl'
      · rw [OMap.get_set, if_pos rfl]
      · rw [OSet.mem_delete]
        exact fun hs => hs.2 rfl
      · exact absurd (map_eq_nil_iff.mp hnil) hdesc'.nonempty
    · rename_i existing hnone hget
      have hnil := eq_nil_of_rebuiltSummary hnone
      have hlines : (fileOf s.files k).lines = [] := map_eq_nil_iff.mp hnil
      have := h.setPlaceholder hget (hstale existing hget) hlines hl
        (m := { s.memory with nextArray := s.memory.nextArray + 1,
                              summaries := s.memory.summaries.set k { existing with bytes := some 0 } }) rfl rfl rfl
      rw [hnil, hlines]
      exact this
    · rename_i hnone hget
      have hnil := eq_nil_of_rebuiltSummary hnone
      refine ⟨h.lose rfl rfl h.loaded, fun hne => absurd hnil hne, fun _ => ?_⟩
      rw [hget]
      exact ⟨rfl, rfl⟩

theorem RowsInv.loads (h : RowsInv s) (hinv : TimelineInv P s.view) (hjob : s.job ≠ some (.removing k))
    {entry : LoadedSession} (hload : loadSessionSync s k = .ok (entry, s')) : RowsInv s' := by
  cases hl : s.memory.events.get k with
  | some cached =>
    rw [loadSessionSync_cached hl] at hload
    cases hload
    refine h.lose rfl rfl fun k' entry' hl' => h.loaded k' entry' ?_
    rwa [Memory.get_touch _ hl] at hl'
  | none =>
    rw [loadSessionSync_uncached hl (hinv.unloaded k hl)] at hload
    cases hload
    obtain ⟨hrebuilt, hrow⟩ := h.rebuild hinv hl hjob
    have hstore := (rebuiltMemory s k).loses_storeSession k (loadedEntry s k)
    refine hrebuilt.move (Memory.storeSession_frame _ _ _).1 (Memory.storeSession_frame _ _ _).2.1 rfl rfl
      (nodup_cutFiles h.nodup k) ?_ ?_ ?_ ?_ ?_ (Or.inl rfl) ?_ hrebuilt.removing ?_
    · intro k' hfile
      rw [has_cutFiles]
      exact hfile
    · intro k'
      rewrite [lines_cutFiles]
      exact prefix_rfl
    · intro k' _
      unfold committed
      rw [lines_cutFiles]
    · intro k' entry hl'
      rcases hstore k' with h1 | ⟨h1, -⟩ <;> rw [h1] at hl'
      · dsimp only at hl'
        split at hl'
        · rename_i hk
          cases hl'
          subst hk
          exact hrow
        · rw [(rebuiltMemory_frame ..).1] at hl'
          exact hrebuilt.loaded k' entry (by rw [(rebuiltMemory_frame ..).1]; exact hl')
      · cases hl'
    · intro row _ hfile
      rwa [has_cutFiles] at hfile
    · intro k' o array events n hj
      rw [has_cutFiles]
      exact h.opened k' o array events n hj
    · intro k' hj
      rw [has_cutFiles]
      exact h.forgetting k' hj

/-! ### Steps -/

theorem RowsInv.release (h : RowsInv s) (k : JsString) : RowsInv { s with memory := s.memory.release k } := by
  refine h.lose (Memory.release_frame _ _).1 (Memory.release_frame _ _).2.1 ?_
  intro k' entry hl
  rcases s.memory.loses_release k k' with h1 | ⟨h1, -⟩
  · exact h.loaded k' entry (h1 ▸ hl)
  · rw [h1] at hl
    cases hl

theorem RowsInv.abandon (h : RowsInv s) (k : JsString)
    (hother : ∀ k', k' ≠ k → Job.lineFor s.job k' = none)
    (hawaits : (∀ job, s.job = some job → job.awaitsFlush = false) ∨ s.flush = none) :
    RowsInv { s with memory := s.memory.abandon k, job := none } := by
  have hstale : RowsInv { s with memory := s.memory.abandon k } := by
    refine h.addStale (Memory.abandon_frame _ _).1 (Memory.abandon_frame _ _).2.1 ?_
    intro k' entry hl
    rcases s.memory.loses_abandon k k' with h1 | ⟨h1, -⟩ <;> rw [h1] at hl
    · dsimp only at hl
      split at hl
      · cases hl
      · rename_i hk
        exact ⟨Ne.symm hk, hl⟩
    · cases hl
  refine hstale.setJob none ?_ hawaits (by simp [Job.lineFor]) (by simp) (by simp)
  intro k' hfresh
  refine committed_of_idle (hother k' ?_)
  rintro rfl
  rw [(Memory.abandon_frame ..).2.1, OSet.mem_add] at hfresh
  exact hfresh (Or.inr rfl)

theorem RowsInv.startAppend (hreload : ∀ e : LedgerEvent, P e.reload.toLedgerEventDraft) (h : RowsInv s)
    (hinv : TimelineInv P s.view) (hnone : s.job = none) (diff : LineDiff) (contentVersion : JsString → JsString)
    (k : JsString) (w : Workspace) (draft : LedgerEventDraft) (layout : Layout) (documentCommit : Bool)
    (time : JsString) : RowsInv (startAppend diff contentVersion s k w draft layout documentCommit time).1 := by
  unfold Session.startAppend
  cases assertSessionId k with
  | error e => exact h
  | ok u =>
    dsimp only
    have hpin := (hinv.pin hnone k).1
    have hrows : RowsInv { s with memory := { s.memory with pinned := OSet.add s.memory.pinned k } } :=
      h.lose rfl rfl h.loaded
    generalize hs₁ : ({ s with memory := { s.memory with pinned := OSet.add s.memory.pinned k } } : LedgerMachine) =
        s₁
      at hpin hrows ⊢
    have hjob₁ : s₁.job = none := by rw [← hs₁]; exact hnone
    have hremoving : s₁.job ≠ some (.removing k) := by rw [hjob₁]; simp
    obtain ⟨entry, s₂, hload, hl⟩ := hpin.loads hreload hremoving
    have hrows₂ := hrows.loads hpin hremoving hload
    have hjob₂ : s₂.job = none := hl.job.trans hjob₁
    have hidle : ∀ k', Job.lineFor s₂.job k' = none := by
      intro k'
      rw [hjob₂]
      rfl
    have hawaits : ∀ job, s₂.job = some job → job.awaitsFlush = false := by
      intro job hj
      rw [hjob₂] at hj
      cases hj
    have habandon : RowsInv { s₂ with memory := s₂.memory.abandon k } := by
      have := hrows₂.abandon k (fun k' _ => hidle k') (Or.inl hawaits)
      rwa [show ({ s₂ with memory := s₂.memory.abandon k, job := none } : LedgerMachine) =
        { s₂ with memory := s₂.memory.abandon k } by rw [← hjob₂]] at this
    rw [hload]
    dsimp only
    split
    · exact habandon
    · exact hrows₂.release k
    refine hrows₂.setJob _ (fun k' _ => committed_of_idle (hidle k')) (Or.inl hawaits) ?_ (by simp) (by simp)
    intro k' o n hline
    unfold Job.lineFor at hline
    dsimp only at hline
    split at hline <;> cases hline

variable {events : List LedgerEvent}

variable (h : RowsInv s)
include h

theorem RowsInv.finishWrite (hinv : TimelineInv P s.view) {array : Nat}
    (hjob : s.job = some (.appending k o array events (some (lineOf o ++ [10]).length))) :
    RowsInv (finishWrite s k o array events).1 := by
  obtain ⟨bytes, hl, -, hseq, -, hholds, hother⟩ := hinv.writing hjob
  have hl' : s.memory.events.get k = some ⟨array, events, bytes⟩ := hl
  have hline : Job.lineFor s.job k = some (o, some (lineOf o ++ [10]).length) := by
    rw [hjob]
    exact if_pos rfl
  -- the file is the committed lines and the one that was just written
  obtain ⟨base, hlines⟩ : ∃ base, (fileOf s.files k).lines = base ++ [o] := by
    rcases hholds with ⟨hn, -⟩ | ⟨-, -, base, hlines, -⟩
    · exact absurd hn (Nat.lt_irrefl _)
    · exact ⟨base, hlines⟩
  have hcommitted : committed s k = base := by
    unfold committed
    rw [hline]
    dsimp only
    rw [if_pos rfl, hlines, dropLast_concat]
  have hsame := hinv.sameReload_committed hl'
  rw [hcommitted] at hsame
  have hlen : events.length = base.length := by
    have := hsame.length_eq
    rwa [length_map] at this
  have hprevious : (base = [] ∧ (s.memory.summaries.get k).bind (·.pendingTurns) = none ∧
        ((s.memory.summaries.get k).bind (·.bytes)).getD 0 = 0) ∨
      ∃ row, s.memory.summaries.get k = some row ∧ Describes row base := by
    have hrow := h.loaded k _ hl'
    by_cases hnil : events = []
    · have hbase : base = [] := length_eq_zero_iff.mp (by rw [← hlen, hnil]; rfl)
      exact Or.inl ⟨hbase, hrow.2 hnil⟩
    obtain ⟨row, hget, hfresh⟩ := hrow.1 hnil
    have := h.fresh k row hget hfresh
    rw [hcommitted] at this
    exact Or.inr ⟨row, hget, this⟩
  have hdesc := describes_applySummary k hprevious (show o.event.seq = base.length + 1 by rw [hseq, hlen])
    (events ++ [o.event])
  have hawaits : ∀ job, s.job = some job → job.awaitsFlush = false := by
    intro job hj
    rw [hjob] at hj
    cases hj
    rfl
  have hset : ∀ job, (job = none ∨ ∃ e, job = some (.flushing k e)) → RowsInv { s with
      memory := (s.memory.push k array (events ++ [o.event]) ((lineOf o).length + 1)).applySummary k o.event
        (events ++ [o.event]) (((s.memory.summaries.get k).bind (·.bytes)).getD 0 + ((lineOf o).length + 1)),
      job := job } := by
    intro job hnew
    have hidle : ∀ k', Job.lineFor job k' = none := by
      intro k'
      rcases hnew with rfl | ⟨e, rfl⟩ <;> rfl
    have hid : (applySummary (s.memory.summaries.get k) k o.event (events ++ [o.event])
      (((s.memory.summaries.get k).bind (·.bytes)).getD 0 + ((lineOf o).length + 1))).sessionId = k := rfl
    refine h.setRow hid (h.opened k o array events _ hjob) ?_ ?_ ?_ ?_ ?_ (Or.inr ⟨hawaits, hnew⟩)
    · rw [committed_of_idle (hidle k)]
      rw [hlines]
      exact hdesc
    iterate 2 simp only [Memory.applySummary, Memory.push_frame]
    · intro k' entry hk
      change (s.memory.push k array (events ++ [o.event]) ((lineOf o).length + 1)).events.get k' = some entry at hk
      rw [s.memory.get_push hl' (events ++ [o.event]) ((lineOf o).length + 1)] at hk
      dsimp only at hk
      split at hk
      · rename_i hkk
        cases hk
        exact Or.inl ⟨hkk.symm, by simp⟩
      · rename_i hkk
        exact Or.inr ⟨Ne.symm hkk, hk⟩
    · intro k' hk
      rw [committed_of_idle (hidle k'), committed_of_idle (hother k' (Ne.symm hk))]
  unfold Session.finishWrite
  split
  · exact hset _ (Or.inr ⟨_, rfl⟩)
  · exact (hset none (Or.inl rfl)).release k

/-- The index write takes the rows in memory. -/
theorem RowsInv.beginFlush (own : Bool)
    (hown : own = true → ∃ job, s.job = some job ∧ job.awaitsFlush = true) :
    RowsInv { s with flush := some ⟨s.memory.indexRows, own⟩ } where
  nodup := h.nodup
  rows := h.rows
  fresh := h.fresh
  loaded := h.loaded
  index := h.index
  flush flush hf row hrow := by
    cases hf
    obtain ⟨e, he, rfl⟩ := mem_map.mp hrow
    obtain ⟨hid, -, hrow⟩ := h.rows e he
    rw [hid]
    exact Or.inl hrow
  own flush hf ho := by
    cases hf
    exact hown ho
  opened := h.opened
  removing := h.removing
  forgetting := h.forgetting

/-- The rows of the index write are stored, or not. -/
theorem RowsInv.endFlush {flush : Flush} (hflush : s.flush = some flush) (ok : Bool) :
    RowsInv { s with index := if ok = true then some flush.rows else s.index, flush := none } where
  nodup := h.nodup
  rows := h.rows
  fresh := h.fresh
  loaded := h.loaded
  index row hrow hfile := by
    split at hrow
    · rcases h.flush flush hflush row hrow with h1 | ⟨hforget, -⟩
      · exact h1
      · rw [h.forgetting _ hforget] at hfile
        cases hfile
    · exact h.index row hrow hfile
  flush flush' hf := by cases hf
  own flush' hf := by cases hf
  opened := h.opened
  removing := h.removing
  forgetting := h.forgetting

theorem RowsInv.finishFlush {job : Job} (hjob : s.job = some job) (hflush : s.flush = none) (ok : Bool) :
    RowsInv (finishFlush s job ok).1 := by
  have hend (hidle : ∀ k, Job.lineFor s.job k = none) : RowsInv { s with job := none } :=
    h.setJob none (fun k' _ => committed_of_idle (hidle k')) (Or.inr hflush) (by simp [Job.lineFor])
      (by simp) (by simp)
  cases job with
  | flushing k e =>
    have hidle : ∀ k, Job.lineFor s.job k = none := by
      intro k'
      rw [hjob]
      rfl
    cases ok with
    | true => exact (hend hidle).release k
    | false => exact h.abandon k (fun k' _ => hidle k') (Or.inr hflush)
  | forgetting k =>
    have hidle : ∀ k, Job.lineFor s.job k = none := by
      intro k'
      rw [hjob]
      rfl
    cases ok with
    | true => exact hend hidle
    | false => exact hend hidle
  | _ => exact h

theorem RowsInv.startDelete (hnone : s.job = none) (k : JsString) : RowsInv (startDelete s k).1 := by
  unfold Session.startDelete
  cases assertSessionId k with
  | error e => exact h
  | ok u =>
    dsimp only
    split
    · have hawaits : ∀ job, s.job ≠ some job := by
        intro job hj
        rw [hnone] at hj
        cases hj
      refine ⟨h.nodup, ?_, ?_, ?_, h.index, ?_, ?_, by simp, ?_, by simp⟩
      · intro e he
        rw [(Memory.dropSession_frame ..).1] at he
        exact h.rows e (OMap.mem_of_mem_delete he).1
      · intro k' row hget hfresh
        rw [(Memory.dropSession_frame ..).1, OMap.get_delete] at hget
        rw [(Memory.dropSession_frame ..).2.1, OSet.mem_delete] at hfresh
        split at hget
        · cases hget
        · rename_i hk
          have hdesc := h.fresh k' row hget fun hs => hfresh ⟨hs, Ne.symm hk⟩
          rwa [committed_of_idle (show Job.lineFor s.job k' = none by rw [hnone]; rfl)] at hdesc
      · intro k' entry hl
        rw [Memory.get_dropSession] at hl
        split at hl
        · cases hl
        rename_i hk
        have hold := h.loaded k' entry hl
        unfold LoadedRow at hold ⊢
        rw [(Memory.dropSession_frame ..).1, (Memory.dropSession_frame ..).2.1, OMap.get_delete, if_neg hk]
        refine ⟨fun hne => ?_, hold.2⟩
        obtain ⟨row, hget, hfresh⟩ := hold.1 hne
        exact ⟨row, hget, fun hs => hfresh (OSet.mem_delete.mp hs).1⟩
      · intro flush hf row hrow
        rcases h.flush flush hf row hrow with h1 | ⟨hforget, -⟩
        · exact Or.inl h1
        · exact absurd hforget (hawaits _)
      · intro flush hf hown
        obtain ⟨job, hj, -⟩ := h.own flush hf hown
        exact absurd hj (hawaits job)
      · intro k' hj
        cases hj
        rw [(Memory.dropSession_frame ..).1, OMap.get_delete, if_pos rfl]
    · exact h

theorem RowsInv.removeFile (hjob : s.job = some (.removing k)) :
    RowsInv { s with files := s.files.delete k, job := some (.forgetting k) } := by
  have hget := h.removing k hjob
  have hhas : ∀ k', (s.files.delete k).has k' = (!decide (k = k') && s.files.has k') := by
    intro k'
    unfold OMap.has
    rw [OMap.get_delete]
    by_cases hk : k = k' <;> simp [hk]
  have hfile : ∀ k', k' ≠ k → fileOf (s.files.delete k) k' = fileOf s.files k' := by
    intro k' hk
    rw [fileOf_delete]
    exact if_neg (Ne.symm hk)
  have hidle : ∀ k', Job.lineFor s.job k' = none := by
    intro k'
    rw [hjob]
    rfl
  have hkey : ∀ k' row, s.memory.summaries.get k' = some row → k' ≠ k := by
    rintro k' row hrow rfl
    rw [hget] at hrow
    cases hrow
  refine ⟨OMap.nodup_keys_delete h.nodup k, ?_, ?_, h.loaded, ?_, ?_, ?_, by simp, by simp, ?_⟩
  · intro e he
    have hk : e.1 ≠ k := by
      intro heq
      exact OMap.get_eq_none_iff.mp hget (heq ▸ mem_map_of_mem he)
    obtain ⟨hid, hf, hrow⟩ := h.rows e he
    rw [hfile _ hk, hhas, hf]
    exact ⟨hid, by simp [Ne.symm hk], hrow⟩
  · intro k' row hrow hfresh
    have hdesc := h.fresh k' row hrow hfresh
    rw [committed_of_idle (hidle k')] at hdesc
    rw [committed_of_idle rfl]
    rw [hfile k' (hkey k' row hrow)]
    exact hdesc
  · intro row hrow hf
    rw [hhas, Bool.and_eq_true, Bool.not_eq_true', decide_eq_false_iff_not] at hf
    rw [hfile _ (Ne.symm hf.1)]
    exact h.index row hrow hf.2
  · intro flush hf row hrow
    by_cases hk : row.sessionId = k
    · refine Or.inr ⟨by rw [hk], ?_⟩
      by_contra hown
      obtain ⟨job, hj, hawaits⟩ := h.own flush hf (by simpa using hown)
      rw [hjob] at hj
      cases hj
      cases hawaits
    · rw [hfile _ hk]
      rcases h.flush flush hf row hrow with h1 | ⟨hforget, -⟩
      · exact Or.inl h1
      · rw [hjob] at hforget
        cases hforget
  · intro flush hf hown
    exact ⟨_, rfl, rfl⟩
  · intro k' hj
    cases hj
    rw [hhas]
    simp

omit h

/-! ### Startup -/

theorem loadIndexSync_rows (index : Option (List SessionSummary)) :
    (loadIndexSync index).summaries.keys.Nodup ∧
    ∀ e ∈ (loadIndexSync index).summaries, ∃ stored ∈ index.getD [], e.1 = stored.sessionId ∧
    e.2 = readSummary stored := by
  have hfold (rows : List SessionSummary) : ∀ m : Memory, m.summaries.keys.Nodup →
      (∀ e ∈ m.summaries, ∃ stored ∈ index.getD [], e.1 = stored.sessionId ∧ e.2 = readSummary stored) →
      (∀ row ∈ rows, row ∈ index.getD []) →
      (rows.foldl loadIndexRow m).summaries.keys.Nodup ∧ ∀ e ∈ (rows.foldl loadIndexRow m).summaries,
        ∃ stored ∈ index.getD [], e.1 = stored.sessionId ∧ e.2 = readSummary stored := by
    induction rows with
    | nil => exact fun m hn hm _ => ⟨hn, hm⟩
    | cons row rows ih =>
      intro m hn hm hrows
      refine ih _ (OMap.nodup_keys_set hn _ _) ?_ fun row' hrow' => hrows row' (mem_cons_of_mem _ hrow')
      intro e he
      rcases OMap.mem_set he with rfl | he
      · exact ⟨row, hrows row (mem_cons_self ..), rfl, rfl⟩
      · exact hm e he
  exact hfold (index.getD []) .empty nodup_nil (by simp [Memory.empty]) fun _ hrow => hrow

private theorem reconcile_fold (times : JsString → JsString × JsString) (files : OMap JsString TimelineFile)
    (hnodup : files.keys.Nodup) (m : Memory) :
    let m' := files.foldl (reconcileFile times) m
    (m.summaries.keys.Nodup → m'.summaries.keys.Nodup) ∧
    (∀ k f, files.get k = some f →
      m'.summaries.get k = some (reconcileRow k (m.summaries.get k) f.size (times k)).1 ∧
      (k ∈ m'.staleSummaries ↔ (reconcileRow k (m.summaries.get k) f.size (times k)).2 = true)) ∧
    ∀ k, files.get k = none → m'.summaries.get k = m.summaries.get k ∧
      (k ∈ m'.staleSummaries ↔ k ∈ m.staleSummaries) := by
  induction files generalizing m with
  | nil => exact ⟨id, fun k f hf => (by cases hf), fun k _ => ⟨rfl, Iff.rfl⟩⟩
  | cons e files ih =>
    simp only [OMap.keys, map_cons, nodup_cons] at hnodup
    have hrest : OMap.get files e.1 = none := OMap.get_eq_none_iff.mpr hnodup.1
    rw [foldl_cons]
    unfold reconcileFile
    generalize hr : reconcileRow e.1 (m.summaries.get e.1) e.2.size (times e.1) = r
    obtain ⟨hn, hfiles, hothers⟩ := ih hnodup.2
      { m with
        summaries := m.summaries.set e.1 r.1
        staleSummaries := if r.2 = true then OSet.add m.staleSummaries e.1 else OSet.delete m.staleSummaries e.1 }
    have hstale : ∀ k, e.1 ≠ k → (k ∈ (if r.2 = true then OSet.add m.staleSummaries e.1
        else OSet.delete m.staleSummaries e.1) ↔ k ∈ m.staleSummaries) := by
      intro k hk
      split
      · rw [OSet.mem_add]
        exact ⟨fun h => h.resolve_right (Ne.symm hk), Or.inl⟩
      · rw [OSet.mem_delete]
        exact ⟨fun h => h.1, fun h => ⟨h, Ne.symm hk⟩⟩
    refine ⟨fun h => hn (OMap.nodup_keys_set h _ _), ?_, ?_⟩
    · intro k f hf
      rw [OMap.get_cons] at hf
      split at hf
      · rename_i hk
        subst hk
        cases hf
        obtain ⟨hget, hst⟩ := hothers e.1 hrest
        rw [hr]
        refine ⟨hget.trans (by rw [OMap.get_set, if_pos rfl]), hst.trans ?_⟩
        split
        · rename_i hs
          rw [OSet.mem_add, hs]
          simp
        · rename_i hs
          simp [hs]
      · rename_i hk
        obtain ⟨hget, hst⟩ := hfiles k f hf
        rw [OMap.get_set, if_neg hk] at hget hst
        exact ⟨hget, hst⟩
    · intro k hf
      rw [OMap.get_cons] at hf
      split at hf
      · cases hf
      rename_i hk
      obtain ⟨hget, hst⟩ := hothers k hf
      rw [OMap.get_set, if_neg hk] at hget
      exact ⟨hget, hst.trans (hstale k hk)⟩

/-- What a startup makes of the rows: every file has one, which describes it when it is not stale, and there are no
others. -/
theorem RowsInv.restart_rows (h : RowsInv s) (times : JsString → JsString × JsString) :
    (restart s times).memory.summaries.keys.Nodup ∧
    (∀ k, s.files.get k = none → (restart s times).memory.summaries.get k = none) ∧ ∀ k f, s.files.get k = some f →
    ∃ row, (restart s times).memory.summaries.get k = some row ∧ row.sessionId = k ∧ RowOf row f.lines ∧
    (k ∉ (restart s times).memory.staleSummaries → Describes row f.lines) ∧
    (k ∈ (restart s times).memory.staleSummaries → row.pendingTurns = none) := by
  obtain ⟨hnodup, hrows⟩ := loadIndexSync_rows s.index
  obtain ⟨hn, hfiles, hothers⟩ := reconcile_fold times s.files h.nodup
    { loadIndexSync s.index with
      summaries := (loadIndexSync s.index).summaries.filter fun e => s.files.has e.1
      staleSummaries := (loadIndexSync s.index).staleSummaries.filter fun sessionId => s.files.has sessionId }
  refine ⟨hn (hnodup.sublist (filter_sublist.map Prod.fst)), ?_, ?_⟩
  · intro k hk
    refine (hothers k hk).1.trans ?_
    rw [OMap.get_filter_key, if_neg]
    simp [OMap.has, hk]
  · intro k f hk
    obtain ⟨hget, hstale⟩ := hfiles k f hk
    have hhas : s.files.has k = true := by simp [OMap.has, hk]
    have hf : fileOf s.files k = f := by simp [fileOf, hk]
    rw [OMap.get_filter_key, if_pos hhas] at hget hstale
    have hprevious : ∀ row ∈ (loadIndexSync s.index).summaries.get k,
        row.sessionId = k ∧ ∃ stored, row = readSummary stored ∧ RowOf stored f.lines := by
      intro row hrow
      obtain ⟨stored, hstored, hkey, rfl⟩ := hrows (k, row) (OMap.mem_of_get hrow)
      have := h.index stored hstored (hkey ▸ hhas)
      rw [← hkey, hf] at this
      exact ⟨hkey.symm, stored, rfl, this⟩
    obtain ⟨hid, hrow, hdesc, hnone⟩ := reconcileRow_spec hprevious (times k)
    refine ⟨_, hget, hid, hrow, fun hfresh => hdesc ?_, fun hs => hnone (hstale.mp hs)⟩
    by_contra hs
    exact hfresh (hstale.mpr (by simpa using hs))

theorem RowsInv.restart (h : RowsInv s) (times : JsString → JsString × JsString) : RowsInv (restart s times) := by
  obtain ⟨hnodup, hothers, hfiles⟩ := h.restart_rows times
  have hrow : ∀ k row, (Session.restart s times).memory.summaries.get k = some row →
      row.sessionId = k ∧ s.files.has k = true ∧ RowOf row (fileOf s.files k).lines ∧
      (k ∉ (Session.restart s times).memory.staleSummaries → Describes row (fileOf s.files k).lines) := by
    intro k row hget
    cases hk : s.files.get k with
    | none =>
      rw [hothers k hk] at hget
      cases hget
    | some f =>
      obtain ⟨row', hget', hid, hrow, hdesc, -⟩ := hfiles k f hk
      rw [hget'] at hget
      cases hget
      have hf : fileOf s.files k = f := by simp [fileOf, hk]
      rw [hf]
      exact ⟨hid, by simp [OMap.has, hk], hrow, hdesc⟩
  have hrows : ∀ e ∈ (Session.restart s times).memory.summaries,
      e.2.sessionId = e.1 ∧ s.files.has e.1 = true ∧ RowOf e.2 (fileOf s.files e.1).lines := by
    intro e he
    obtain ⟨hid, hhas, hrow, -⟩ := hrow e.1 e.2 (OMap.get_of_mem hnodup he)
    exact ⟨hid, hhas, hrow⟩
  refine ⟨h.nodup, hrows, ?_, ?_, ?_, by simp [Session.restart], by simp [Session.restart], by simp [Session.restart],
    by simp [Session.restart], by simp [Session.restart]⟩
  · intro k row hget hfresh
    exact (hrow k row hget).2.2.2 hfresh
  · intro k entry hl
    rw [restart_events] at hl
    cases hl
  · intro row hr hhas
    change row ∈ (if _ then s.index else some _).getD [] at hr
    split at hr
    · exact h.index row hr hhas
    obtain ⟨e, he, rfl⟩ := mem_map.mp hr
    obtain ⟨hid, -, hrow⟩ := hrows e he
    rw [hid]
    exact hrow

/-! ### Every step -/

def Job.opens : Option Job → Option JsString
  | some (.appending k _ _ _ none) => some k
  | _ => none

def Unlisted (s : LedgerMachine) : LedgerAction → Prop
  | .openFile => ∀ k ∈ Job.opens s.job, s.files.has k = false → ∀ row ∈ s.index.getD [], row.sessionId ≠ k
  | _ => True

theorem has_of_set {files : OMap JsString TimelineFile} {k k' : JsString}
    (h : (files.set k f).has k' = true) : k = k' ∨ files.has k' = true := by
  simpa [OMap.has_set] using h

/-- Opening the file of an append, which creates it when it is missing. -/
theorem RowsInv.openFile (h : RowsInv s) {array : Nat}
    (hjob : s.job = some (.appending k o array events none))
    (hunlisted : s.files.has k = false → ∀ row ∈ s.index.getD [], row.sessionId ≠ k) :
    RowsInv { s with
      files := if s.files.has k = true then s.files else s.files.set k .empty
      job := some (.appending k o array events (some 0)) } := by
  have hfile : ∀ k', fileOf (if s.files.has k = true then s.files else s.files.set k .empty) k' =
      fileOf s.files k' := by
    intro k'
    split
    · rfl
    rename_i hhas
    rw [fileOf_set]
    dsimp only
    split
    · rename_i hk
      have : s.files.get k' = none := by rw [← hk]; simpa [OMap.has] using hhas
      rw [fileOf, this]
      rfl
    · rfl
  have hhas : ∀ k', (if s.files.has k = true then s.files else s.files.set k .empty).has k' = true →
      s.files.has k' = true ∨ (k = k' ∧ s.files.has k = false) := by
    intro k' hk
    split at hk
    · exact Or.inl hk
    rename_i hno
    rcases has_of_set hk with rfl | hk
    · exact Or.inr ⟨rfl, by simpa using hno⟩
    · exact Or.inl hk
  refine h.move rfl rfl rfl rfl ?_ ?_ ?_ ?_ h.loaded ?_ ?_ ?_ (by simp) (by simp)
  · split
    · exact h.nodup
    · exact OMap.nodup_keys_set h.nodup _ _
  · intro k' hk
    split
    · exact hk
    · rw [OMap.has_set, hk, Bool.or_true]
  · intro k'
    rewrite [hfile]
    exact prefix_rfl
  · intro k' _
    unfold committed Job.lineFor
    rw [hjob, hfile]
    by_cases hk : k = k'
    · simp [hk]
    · simp [hk]
  · intro row hrow hk
    rcases hhas _ hk with hk | ⟨hk, hno⟩
    · exact hk
    · exact absurd hk.symm (hunlisted hno row hrow)
  · right
    left
    intro job hj
    rw [hjob] at hj
    cases hj
    rfl
  · intro k' o' array' events' n hj
    cases hj
    split
    · rename_i hyes
      exact hyes
    · rw [OMap.has_set]
      simp

/-- Writing some bytes of the line. -/
theorem RowsInv.writeBytes (h : RowsInv s) (hinv : TimelineInv P s.view) {array n m : Nat}
    (hjob : s.job = some (.appending k o array events (some n))) :
    RowsInv { s with
      files := s.files.set k ((fileOf s.files k).write o (((lineOf o ++ [10]).drop n).take m))
      job := some (.appending k o array events (some (min (lineOf o ++ [10]).length (n + m)))) } := by
  obtain ⟨bytes, hl, -, -, -, hholds, hother⟩ := hinv.writing hjob
  have hopened := h.opened k o array events n hjob
  have hlines : (fileOf s.files k).lines <+:
      ((fileOf s.files k).write o (((lineOf o ++ [10]).drop n).take m)).lines := by
    unfold TimelineFile.write
    split
    · exact prefix_append _ _
    · exact prefix_rfl
  refine h.move rfl rfl rfl rfl (OMap.nodup_keys_set h.nodup _ _) ?_ ?_ ?_ h.loaded ?_ ?_ ?_ (by simp) (by simp)
  · intro k' hk
    rw [OMap.has_set, hk, Bool.or_true]
  · intro k'
    rw [fileOf_set]
    dsimp only
    split
    · rename_i hk
      rw [← hk]
      exact hlines
    · exact prefix_rfl
  · intro k' _
    by_cases hk : k = k'
    · subst hk
      unfold committed Job.lineFor
      rw [hjob, fileOf_set]
      simp only [if_true]
      rcases hholds with ⟨hn, -, htail⟩ | ⟨hn, htail, base, hbase, -⟩
      · rw [if_neg (Nat.ne_of_lt hn)]
        by_cases hm : (lineOf o ++ [10]).length ≤ n + m
        · have hall : (fileOf s.files k).tail ++ ((lineOf o ++ [10]).drop n).take m = lineOf o ++ [10] := by
            rw [htail, ← take_add, take_of_length_le hm]
          rw [if_pos (Nat.min_eq_left hm), TimelineFile.write, if_pos hall, dropLast_concat]
        · have hpart : (fileOf s.files k).tail ++ ((lineOf o ++ [10]).drop n).take m ≠ lineOf o ++ [10] := by
            intro heq
            have hlen := congrArg List.length heq
            rw [htail, ← take_add, length_take] at hlen
            omega
          rw [if_neg (by omega), TimelineFile.write, if_neg hpart]
      · have hmin : min (lineOf o ++ [10]).length (n + m) = (lineOf o ++ [10]).length := by omega
        have hdrop : ((lineOf o ++ [10]).drop n).take m = [] := by rw [hn, drop_length, take_nil]
        have hno : (fileOf s.files k).tail ++ [] ≠ lineOf o ++ [10] := by simp [htail]
        rw [if_pos hmin, if_pos hn, hdrop, TimelineFile.write, if_neg hno]
    · unfold committed
      rw [hother k' hk, fileOf_set, Job.lineFor, if_neg hk]
      dsimp only
      rw [if_neg hk]
  · intro row _ hk
    rcases has_of_set hk with hk | hk
    · rw [← hk]
      exact hopened
    · exact hk
  · right
    left
    intro job hj
    rw [hjob] at hj
    cases hj
    rfl
  · intro k' o' array' events' n' hj
    cases hj
    rw [OMap.has_set]
    simp

variable {diff : LineDiff} {contentVersion : JsString → JsString} {a : LedgerAction} {o : Outcome}

/-- Every step keeps the rows. -/
theorem ledgerStep_rows (hreload : ∀ e : LedgerEvent, P e.reload.toLedgerEventDraft) (h : RowsInv s)
    (hinv : TimelineInv P s.view) (hsettled : Settled s a) (hunlisted : Unlisted s a)
    (hstep : ledgerStep diff contentVersion s a = some (s', o)) : RowsInv s' := by
  cases a <;> simp only [ledgerStep, Option.ite_none_right_eq_some] at hstep
  case append k w draft layout documentCommit time =>
    obtain ⟨hnone, hstep⟩ := hstep
    have hrows := h.startAppend hreload hinv (by simpa using hnone) diff contentVersion k w draft layout
      documentCommit time
    rw [congrArg Prod.fst (Option.some.inj hstep)] at hrows
    exact hrows
  case openFile =>
    split at hstep
    · rename_i k obj array events hjob
      cases hstep
      exact h.openFile hjob (hunlisted k (by rw [hjob]; rfl))
    · cases hstep
  case writeBytes n =>
    split at hstep
    · rename_i k obj array events written hjob
      cases hstep
      exact h.writeBytes hinv hjob
    · cases hstep
  case finishWrite =>
    split at hstep
    · rename_i k obj array events written hjob
      split at hstep
      · rename_i hwritten
        subst hwritten
        have hrows := h.finishWrite hinv hjob
        rw [congrArg Prod.fst (Option.some.inj hstep)] at hrows
        exact hrows
      · cases hstep
    · cases hstep
  case failAppend code =>
    split at hstep
    · rename_i k obj array events written hjob
      cases hstep
      refine h.abandon k ?_ (Or.inl ?_)
      · intro k' hk
        rw [hjob]
        exact if_neg (Ne.symm hk)
      · intro job hj
        rw [hjob] at hj
        cases hj
        rfl
    · cases hstep
  case beginFlush own =>
    obtain ⟨hcond, hstep⟩ := hstep
    cases hstep
    refine h.beginFlush own ?_
    rintro rfl
    simp only [Bool.not_true, Bool.false_or, Bool.and_eq_true, Option.any_eq_true] at hcond
    exact hcond.2
  case endFlush ok =>
    split at hstep
    · cases hstep
    rename_i flush hflush
    have hend := h.endFlush hflush ok
    split at hstep
    · rename_i job hown hjob
      have hrows := hend.finishFlush hjob rfl ok
      rw [congrArg Prod.fst (Option.some.inj hstep)] at hrows
      exact hrows
    · cases hstep
      exact hend
  case read k =>
    unfold read at hstep
    cases hid : assertSessionId k <;> rw [hid] at hstep
    case error e =>
      cases hstep
      exact h
    case ok u =>
      obtain ⟨entry, s₁, hload, -⟩ := hinv.loads hreload hsettled
      have hrows := h.loads hinv hsettled hload
      rw [hload] at hstep
      cases hstep
      exact hrows
  case readPage k afterSeq limit =>
    obtain ⟨entry, s₁, hload, -⟩ := hinv.loads hreload hsettled
    have hrows := h.loads hinv hsettled hload
    have hloadPage : RowsInv (loadPage s k afterSeq limit).2 := by
      unfold loadPage
      rw [hload]
      dsimp only
      split
      · exact hrows
      · exact hrows
    have hpage : RowsInv (readPage s k afterSeq limit).2 := by
      unfold Session.readPage
      split
      · exact h
      · rename_i cached _ hget
        rw [loadSessionSync_cached hget] at hload
        cases hload
        exact hrows
      · split
        · exact h
        split
        · split
          · exact h
          · exact hloadPage
        · exact hloadPage
    cases hstep
    exact hpage
  case delete k =>
    obtain ⟨hnone, hstep⟩ := hstep
    have hrows := h.startDelete (by simpa using hnone) k
    rw [congrArg Prod.fst (Option.some.inj hstep)] at hrows
    exact hrows
  case removeFile ok =>
    split at hstep
    · rename_i k hjob
      split at hstep
      · cases hstep
        exact h.removeFile hjob
      cases hstep
      refine h.setJob none ?_ (Or.inl ?_) (by simp [Job.lineFor]) (by simp) (by simp)
      · intro k' _
        refine committed_of_idle ?_
        rw [hjob]
        rfl
      · intro job hj
        rw [hjob] at hj
        cases hj
        rfl
    · cases hstep
  case restart times =>
    cases hstep
    exact h.restart times

theorem rowsInv_initial : RowsInv .initial := by
  refine ⟨nodup_nil, ?_, ?_, ?_, ?_, ?_, ?_, ?_, ?_, ?_⟩ <;> simp [LedgerMachine.initial, Memory.empty]

end

end Wrenyard.Session
