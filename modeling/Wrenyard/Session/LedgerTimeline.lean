import Wrenyard.Session.Ledger

/-!
# Timelines in memory and on disk

The invariant of the ledger that concerns its timelines (`TimelineInv`): every file is numbered 1, 2, 3, ..., a loaded
timeline holds the events of its file, up to what a reload changes, and while an append writes, the file has in
addition the bytes it has written so far.  Every step keeps it, as long as no session is read between the moment its
deletion forgets it and the removal of its file (`Settled`).
-/

namespace Wrenyard.Session

open Js Transition List

/-- `m'` is `m` without some loaded timelines, none of them pinned. -/
structure Evicted (m m' : Memory) : Prop where
  summaries : m'.summaries = m.summaries
  staleSummaries : m'.staleSummaries = m.staleSummaries
  pinned : m'.pinned = m.pinned
  events : ∀ sessionId, m'.events.get sessionId = m.events.get sessionId ∨
    (m'.events.get sessionId = none ∧ sessionId ∉ m.pinned)

theorem Evicted.refl (m : Memory) : Evicted m m := ⟨rfl, rfl, rfl, fun _ => Or.inl rfl⟩

theorem Evicted.trans {m m' m'' : Memory} (h : Evicted m m') (h' : Evicted m' m'') : Evicted m m'' where
  summaries := h'.summaries.trans h.summaries
  staleSummaries := h'.staleSummaries.trans h.staleSummaries
  pinned := h'.pinned.trans h.pinned
  events sessionId := by
    rcases h'.events sessionId with h1 | ⟨h1, h2⟩
    · rw [h1]
      exact h.events sessionId
    · rw [h.pinned] at h2
      exact Or.inr ⟨h1, h2⟩

theorem Memory.get_dropSession (m : Memory) (sessionId k : JsString) :
    (m.dropSession sessionId).events.get k = if sessionId = k then none else m.events.get k := by
  unfold dropSession
  split
  · rename_i h
    split
    · rename_i hk
      rw [← hk, h]
    · rfl
  · exact OMap.get_delete _ _ _

@[simp] theorem Memory.dropSession_frame (m : Memory) (sessionId : JsString) :
    (m.dropSession sessionId).summaries = m.summaries ∧ (m.dropSession sessionId).staleSummaries = m.staleSummaries ∧
      (m.dropSession sessionId).pinned = m.pinned := by
  unfold dropSession
  split <;> exact ⟨rfl, rfl, rfl⟩

variable {sessionId : JsString}

private theorem evicted_dropSession {m : Memory} (h : sessionId ∉ m.pinned) :
    Evicted m (m.dropSession sessionId) where
  summaries := (m.dropSession_frame sessionId).1
  staleSummaries := (m.dropSession_frame sessionId).2.1
  pinned := (m.dropSession_frame sessionId).2.2
  events k := by
    rw [Memory.get_dropSession]
    split
    · rename_i hk
      exact Or.inr ⟨rfl, hk ▸ h⟩
    · exact Or.inl rfl

theorem evicted_evictSessions (m : Memory) : Evicted m m.evictSessions := by
  have hrounds (rounds : Nat) : ∀ m : Memory, Evicted m (m.evictRounds rounds) := by
    induction rounds with
    | zero => exact Evicted.refl
    | succ rounds ih =>
      intro m
      unfold Memory.evictRounds
      split
      · split
        · exact Evicted.refl m
        · rename_i oldest hfind
          have hpin : oldest ∉ m.pinned := by simpa using List.find?_some hfind
          exact (evicted_dropSession hpin).trans (ih _)
      · exact Evicted.refl m
  exact hrounds _ m

theorem evictSessions_caps (m : Memory) :
    m.evictSessions.overCaps = false ∨ ∀ sessionId ∈ m.evictSessions.events.keys,
    sessionId ∈ m.evictSessions.pinned := by
  have hrounds (rounds : Nat) : ∀ m : Memory, m.events.length ≤ rounds →
      (m.evictRounds rounds).overCaps = false ∨
        ∀ sessionId ∈ (m.evictRounds rounds).events.keys, sessionId ∈ (m.evictRounds rounds).pinned := by
    induction rounds with
    | zero =>
      intro m hlen
      right
      intro sessionId hk
      have hnil : m.events = [] := length_eq_zero_iff.mp (Nat.le_zero.mp hlen)
      simp [Memory.evictRounds, hnil, OMap.keys] at hk
    | succ rounds ih =>
      intro m hlen
      unfold Memory.evictRounds
      split
      · split
        · rename_i hfind
          right
          intro sessionId hk
          have := List.find?_eq_none.mp hfind sessionId hk
          simpa using this
        · rename_i oldest hfind
          apply ih
          have hmem : oldest ∈ m.events.keys := mem_of_find?_eq_some hfind
          obtain ⟨entry, hentry⟩ : ∃ entry, m.events.get oldest = some entry := by
            cases hget : m.events.get oldest with
            | none => exact absurd hmem (OMap.get_eq_none_iff.mp hget)
            | some entry => exact ⟨entry, rfl⟩
          have hlt : (m.events.delete oldest).length < m.events.length := by
            apply length_filter_lt_length_iff_exists.mpr
            exact ⟨_, OMap.mem_of_get hentry, by simp⟩
          have hdrop : (m.dropSession oldest).events = m.events.delete oldest := by
            simp [Memory.dropSession, hentry]
          rw [hdrop]
          omega
      · rename_i hcaps
        exact Or.inl (by simpa using hcaps)
  exact hrounds _ m (Nat.le_refl _)

/-- The loaded timelines `c'` are `c` without some whose session is not kept. -/
def Loses (keep : JsString → Prop) (c c' : JsString → Option LoadedSession) : Prop :=
  ∀ k, c' k = c k ∨ (c' k = none ∧ ¬ keep k)

theorem Loses.refl (keep : JsString → Prop) (c : JsString → Option LoadedSession) : Loses keep c c :=
  fun _ => Or.inl rfl

private theorem loses_evictSessions (m : Memory) : Loses (· ∈ m.pinned) m.events.get m.evictSessions.events.get :=
  (evicted_evictSessions m).events

variable {entry : LoadedSession}

theorem Memory.get_touch (m : Memory) (h : m.events.get sessionId = some entry) :
    (m.touch sessionId entry).events.get = m.events.get := by
  funext k
  rw [touch, OMap.get_set, OMap.get_delete]
  split
  · rename_i hk
    rw [← hk, h]
  · rfl

@[simp] theorem Memory.storeSession_frame (m : Memory) (sessionId : JsString) (entry : LoadedSession) :
    (m.storeSession sessionId entry).summaries = m.summaries ∧
      (m.storeSession sessionId entry).staleSummaries = m.staleSummaries ∧
      (m.storeSession sessionId entry).pinned = m.pinned := by
  have h := evicted_evictSessions
  rw [storeSession, (h _).summaries, (h _).staleSummaries, (h _).pinned]
  exact m.dropSession_frame sessionId

theorem Memory.loses_storeSession (m : Memory) (sessionId : JsString) (entry : LoadedSession) :
    Loses (· ∈ m.pinned) (fun k => if sessionId = k then some entry else m.events.get k)
      (m.storeSession sessionId entry).events.get := by
  intro k
  have h := loses_evictSessions
    { m.dropSession sessionId with
      events := (m.dropSession sessionId).events.set sessionId entry
      cachedBytes := (m.dropSession sessionId).cachedBytes + entry.bytes
      cachedEvents := (m.dropSession sessionId).cachedEvents + entry.events.length } k
  simp only [OMap.get_set, get_dropSession, dropSession_frame] at h
  rw [storeSession]
  by_cases hk : sessionId = k
  · simpa [hk] using h
  · simpa [hk] using h

@[simp] theorem Memory.release_frame (m : Memory) (sessionId : JsString) :
    (m.release sessionId).summaries = m.summaries ∧ (m.release sessionId).staleSummaries = m.staleSummaries ∧
      (m.release sessionId).pinned = OSet.delete m.pinned sessionId :=
  have h := evicted_evictSessions _
  ⟨h.summaries, h.staleSummaries, h.pinned⟩

theorem Memory.loses_release (m : Memory) (sessionId : JsString) :
    Loses (· ∈ OSet.delete m.pinned sessionId) m.events.get (m.release sessionId).events.get :=
  loses_evictSessions { m with pinned := OSet.delete m.pinned sessionId }

@[simp] theorem Memory.abandon_frame (m : Memory) (sessionId : JsString) :
    (m.abandon sessionId).summaries = m.summaries ∧
      (m.abandon sessionId).staleSummaries = OSet.add m.staleSummaries sessionId ∧
      (m.abandon sessionId).pinned = OSet.delete m.pinned sessionId := by
  have h := evicted_evictSessions
  rw [abandon, (h _).summaries, (h _).staleSummaries, (h _).pinned]
  simp only [dropSession_frame, and_self]

theorem Memory.loses_abandon (m : Memory) (sessionId : JsString) :
    Loses (· ∈ OSet.delete m.pinned sessionId) (fun k => if sessionId = k then none else m.events.get k)
      (m.abandon sessionId).events.get := by
  intro k
  have h := loses_evictSessions
    { m.dropSession sessionId with
      staleSummaries := OSet.add (m.dropSession sessionId).staleSummaries sessionId
      pinned := OSet.delete (m.dropSession sessionId).pinned sessionId } k
  simp only [get_dropSession, dropSession_frame] at h
  simp only [abandon, dropSession_frame]
  exact h

theorem Memory.get_push (m : Memory) (h : m.events.get sessionId = some entry) (events : List LedgerEvent)
    (lineBytes : Nat) :
    (m.push sessionId entry.array events lineBytes).events.get =
      fun k => if sessionId = k then some { entry with events := events, bytes := entry.bytes + lineBytes }
        else m.events.get k := by
  funext k
  simp only [push, h, if_true, OMap.get_set]

@[simp] theorem Memory.push_frame (m : Memory) (sessionId : JsString) (array : Nat) (events : List LedgerEvent)
    (lineBytes : Nat) : (m.push sessionId array events lineBytes).summaries = m.summaries ∧
      (m.push sessionId array events lineBytes).staleSummaries = m.staleSummaries ∧
      (m.push sessionId array events lineBytes).pinned = m.pinned := by
  unfold push
  split
  · exact ⟨rfl, rfl, rfl⟩
  · split <;> exact ⟨rfl, rfl, rfl⟩

@[simp] theorem Memory.rebuildSummaryIfNeeded_frame (m : Memory) (sessionId : JsString) (events : List LedgerEvent)
    (bytes : Nat) : (m.rebuildSummaryIfNeeded sessionId events bytes).events = m.events ∧
      (m.rebuildSummaryIfNeeded sessionId events bytes).pinned = m.pinned := by
  unfold rebuildSummaryIfNeeded
  split
  · exact ⟨rfl, rfl⟩
  · split <;> exact ⟨rfl, rfl⟩

def Numbered (events : List LedgerEvent) : Prop := events.map (·.seq) = List.range' 1 events.length

variable {events events' : List LedgerEvent} {event : LedgerEvent}

theorem Numbered.snoc (h : Numbered events) (hseq : event.seq = events.length + 1) :
    Numbered (events ++ [event]) := by
  unfold Numbered at h ⊢
  rw [map_append, h, map_singleton, hseq, length_append, length_singleton, List.range'_1_concat,
    Nat.add_comm]

theorem Numbered.of_snoc (h : Numbered (events ++ [event])) : Numbered events := by
  unfold Numbered at h ⊢
  rw [map_append, length_append, length_singleton, List.range'_1_concat] at h
  exact (append_inj h (by simp)).1

theorem Numbered.seq_of_getElem? (h : Numbered events) {i : Nat} (hi : events[i]? = some event) :
    event.seq = i + 1 := by
  have hget : (events.map (·.seq))[i]? = some event.seq := by rw [List.getElem?_map, hi]; rfl
  rw [h, List.getElem?_range' ] at hget
  · simp only [Option.some.injEq] at hget
    omega
  · exact (List.getElem?_eq_some_iff.mp hi).1

/-- An event of a numbered timeline stands where its number says. -/
theorem Numbered.getElem?_of_mem (h : Numbered events) (he : event ∈ events) :
    events[event.seq - 1]? = some event := by
  obtain ⟨i, hi⟩ := mem_iff_getElem?.mp he
  rw [h.seq_of_getElem? hi, Nat.add_sub_cancel, hi]

theorem Numbered.lastSeq_eq (h : Numbered events) : lastSeq events = events.length := by
  unfold lastSeq
  cases hlast : events.getLast? with
  | none => simp [List.getLast?_eq_none_iff.mp hlast]
  | some last =>
    rw [List.getLast?_eq_getElem?] at hlast
    have := h.seq_of_getElem? hlast
    have hpos := (List.getElem?_eq_some_iff.mp hlast).1
    simp only [Option.map_some, Option.getD_some]
    omega

def SameReload (events events' : List LedgerEvent) : Prop := events.map (·.reload) = events'.map (·.reload)

theorem SameReload.length_eq (h : SameReload events events') : events.length = events'.length := by
  have := congrArg List.length h
  simpa using this

theorem SameReload.map_eq {α : Type} (g : LedgerEvent → α) (hg : ∀ e : LedgerEvent, g e.reload = g e)
    (h : SameReload events events') : events.map g = events'.map g := by
  have hmap : ∀ es : List LedgerEvent, (es.map (·.reload)).map g = es.map g := by
    intro es
    rw [map_map]
    exact map_congr_left fun e _ => hg e
  rw [← hmap events, ← hmap events', h]

theorem SameReload.numbered_iff (h : SameReload events events') : Numbered events ↔ Numbered events' := by
  unfold Numbered
  rw [h.map_eq (·.seq) LedgerEvent.reload_seq, h.length_eq]

theorem SameReload.snoc (h : SameReload events events') (event : LedgerEvent) :
    SameReload (events ++ [event]) (events' ++ [event]) := by
  unfold SameReload at h ⊢
  rw [map_append, map_append, h]

theorem sameReload_reload (events : List LedgerEvent) : SameReload (events.map (·.reload)) events := by
  unfold SameReload
  rw [map_map]
  exact map_congr_left fun e _ => e.reload_reload

/-! ### The invariant -/

def TimelineFile.stored (f : TimelineFile) : List LedgerEvent := f.lines.map (·.event)

theorem TimelineFile.sameReload_events (f : TimelineFile) : SameReload f.events f.stored := by
  have h := sameReload_reload f.stored
  rw [stored, map_map] at h
  exact h

structure TimelineView where
  file : JsString → TimelineFile
  loaded : JsString → Option LoadedSession
  pinned : List JsString
  job : Option Job

def fileOf (files : OMap JsString TimelineFile) (sessionId : JsString) : TimelineFile :=
  (files.get sessionId).getD .empty

def LedgerMachine.view (s : LedgerMachine) : TimelineView :=
  ⟨fileOf s.files, s.memory.events.get, s.memory.pinned, s.job⟩

def Job.lineFor (job : Option Job) (k : JsString) : Option (EventObject × Option Nat) :=
  match job with
  | some (.appending sessionId o _ _ written) => if sessionId = k then some (o, written) else none
  | _ => none

def TimelineFile.HoldsLoaded (f : TimelineFile) (events : List LedgerEvent) : Option (EventObject × Option Nat) → Prop
  | some (o, some n) =>
    (n < (lineOf o ++ [10]).length ∧ SameReload events f.stored ∧ f.tail = (lineOf o ++ [10]).take n) ∨
    (n = (lineOf o ++ [10]).length ∧ f.tail = [] ∧ ∃ base, f.lines = base ++ [o] ∧
      SameReload events (base.map (·.event)))
  | _ => SameReload events f.stored ∧ f.tail = []

/-- What a read of the session returns. -/
def TimelineView.visible (v : TimelineView) (k : JsString) : List LedgerEvent :=
  match v.loaded k with
  | some entry => entry.events
  | none => (v.file k).events

variable {k : JsString} {v : TimelineView}

theorem TimelineView.visible_loaded (h : v.loaded k = some entry) :
    v.visible k = entry.events := by
  rw [visible, h]

theorem TimelineView.visible_unloaded (h : v.loaded k = none) :
    v.visible k = (v.file k).events := by
  rw [visible, h]

structure TimelineInv (P : LedgerEventDraft → Prop) (v : TimelineView) : Prop where
  numbered : ∀ k, Numbered (v.file k).stored
  loaded : ∀ k entry, v.loaded k = some entry → (v.file k).HoldsLoaded entry.events (Job.lineFor v.job k)
  unloaded : ∀ k, v.loaded k = none → (10 : UInt8) ∉ (v.file k).tail
  plain : ∀ k entry, v.loaded k = some entry → ∀ e ∈ entry.events, P e.toLedgerEventDraft
  appending : ∀ k o array events written, v.job = some (.appending k o array events written) →
    k ∈ v.pinned ∧ (∃ bytes, v.loaded k = some ⟨array, events, bytes⟩) ∧ o.event.seq = events.length + 1 ∧
      P o.event.toLedgerEventDraft
  flushing : ∀ k e, v.job = some (.flushing k e) → P e.toLedgerEventDraft ∧ ∃ o ∈ (v.file k).lines, o.event = e
  removing : ∀ k, v.job = some (.removing k) → v.loaded k = none

def TimelineView.Extends (v v' : TimelineView) (k : JsString) : Prop :=
  (v.visible k).map (·.reload) <+: (v'.visible k).map (·.reload)

theorem TimelineView.Extends.refl (v : TimelineView) (k : JsString) : v.Extends v k := List.prefix_refl _

theorem TimelineView.Extends.trans {v v' v'' : TimelineView} (h : v.Extends v' k) (h' : v'.Extends v'' k) :
    v.Extends v'' k := List.IsPrefix.trans h h'

/-- The invariant is kept, and what is visible of every session grows. -/
def Keeps (P : LedgerEventDraft → Prop) (v v' : TimelineView) : Prop := TimelineInv P v' ∧ ∀ k, v.Extends v' k

section

variable {P : LedgerEventDraft → Prop} {v : TimelineView} {f : TimelineFile}

theorem TimelineFile.HoldsLoaded.of_none (h : f.HoldsLoaded events none) :
    SameReload events f.stored ∧ f.tail = [] := h

theorem TimelineFile.HoldsLoaded.prefix_events {line : Option (EventObject × Option Nat)}
    (h : f.HoldsLoaded events line) : events.map (·.reload) <+: f.events.map (·.reload) := by
  have hf : f.events.map (·.reload) = f.stored.map (·.reload) := f.sameReload_events
  rw [hf]
  unfold HoldsLoaded at h
  split at h
  · rcases h with ⟨-, h, -⟩ | ⟨-, -, base, hlines, h⟩
    · rewrite [h]
      exact prefix_rfl
    · rw [h, stored, hlines, map_append, map_append]
      exact prefix_append _ _
  · rewrite [h.1]
    exact prefix_rfl

theorem TimelineFile.HoldsLoaded.eq_events (h : f.HoldsLoaded events none) :
    f.events.map (·.reload) = events.map (·.reload) := by
  have hf : f.events.map (·.reload) = f.stored.map (·.reload) := f.sameReload_events
  rw [hf, h.of_none.1]

theorem TimelineInv.lose (h : TimelineInv P v) {keep : JsString → Prop} {c : JsString → Option LoadedSession}
    (pinned : List JsString) (hc : Loses keep v.loaded c)
    (hkeep : ∀ k o array events written, v.job = some (.appending k o array events written) → keep k ∧ k ∈ pinned) :
    Keeps P v ⟨v.file, c, pinned, v.job⟩ := by
  have hline : ∀ k, ¬ keep k → Job.lineFor v.job k = none := by
    intro k hk
    unfold Job.lineFor
    split
    · rename_i sessionId o array events written hjob
      rw [if_neg]
      rintro rfl
      exact hk (hkeep _ _ _ _ _ hjob).1
    · rfl
  have hsome : ∀ k entry, c k = some entry → v.loaded k = some entry := by
    intro k entry hk
    rcases hc k with h1 | ⟨h1, -⟩
    · rw [← h1, hk]
    · rw [h1] at hk
      cases hk
  refine ⟨⟨h.numbered, fun k entry hk => h.loaded k entry (hsome k entry hk), ?_,
    fun k entry hk => h.plain k entry (hsome k entry hk), ?_, h.flushing, ?_⟩, ?_⟩
  · intro k hk
    rcases hc k with h1 | ⟨-, h1⟩
    · exact h.unloaded k (h1 ▸ hk)
    cases hl : v.loaded k with
    | none => exact h.unloaded k hl
    | some entry =>
      have := h.loaded k entry hl
      rw [hline k h1] at this
      rw [this.of_none.2]
      exact not_mem_nil
  · intro k o array events written hjob
    obtain ⟨-, ⟨bytes, hl⟩, hseq⟩ := h.appending k o array events written hjob
    obtain ⟨hk, hpin⟩ := hkeep k o array events written hjob
    refine ⟨hpin, ⟨bytes, ?_⟩, hseq⟩
    rcases hc k with h1 | ⟨-, h1⟩
    · exact h1.trans hl
    · exact absurd hk h1
  · intro k hjob
    have hl := h.removing k hjob
    rcases hc k with h1 | ⟨h1, -⟩
    · exact h1.trans hl
    · exact h1
  · intro k
    unfold TimelineView.Extends TimelineView.visible
    dsimp only
    rcases hc k with h1 | ⟨h1, h2⟩
    · rewrite [h1]
      exact prefix_rfl
    rw [h1]
    cases hl : v.loaded k with
    | none => exact prefix_refl _
    | some entry =>
      have := h.loaded k entry hl
      rw [hline k h2] at this
      rewrite [this.eq_events]
      exact prefix_rfl

theorem TimelineFile.HoldsLoaded.newline_not_mem {line : Option (EventObject × Option Nat)}
    (h : f.HoldsLoaded events line) : (10 : UInt8) ∉ f.tail := by
  unfold HoldsLoaded at h
  split at h
  · rename_i o n
    rcases h with ⟨hn, -, ht⟩ | ⟨-, ht, -⟩
    · rw [length_append, length_singleton] at hn
      rw [ht, take_append_of_le_length (by omega)]
      exact fun hmem => newline_not_mem_lineOf o (mem_of_mem_take hmem)
    · rw [ht]
      exact not_mem_nil
  · rw [h.2]
    exact not_mem_nil

/-- Ending the job, whatever it is, when the timeline an append writes is dropped. -/
theorem TimelineInv.stop (h : TimelineInv P v) {c : JsString → Option LoadedSession} (pinned : List JsString)
    (hc : Loses (fun _ => False) v.loaded c)
    (hdrop : ∀ k o array events written, v.job = some (.appending k o array events written) → c k = none) :
    Keeps P v ⟨v.file, c, pinned, none⟩ := by
  have hsome : ∀ k entry, c k = some entry → v.loaded k = some entry ∧ Job.lineFor v.job k = none := by
    intro k entry hk
    constructor
    · rcases hc k with h1 | ⟨h1, -⟩
      · rw [← h1, hk]
      · rw [h1] at hk
        cases hk
    · unfold Job.lineFor
      split
      · rename_i sessionId o array events written hjob
        rw [if_neg]
        rintro rfl
        rw [hdrop _ _ _ _ _ hjob] at hk
        cases hk
      · rfl
  refine ⟨⟨h.numbered, ?_, ?_, fun k entry hk => h.plain k entry (hsome k entry hk).1, ?_, ?_, ?_⟩, ?_⟩
  · intro k entry hk
    obtain ⟨hl, hline⟩ := hsome k entry hk
    have := h.loaded k entry hl
    rwa [hline] at this
  · intro k hk
    cases hl : v.loaded k with
    | none => exact h.unloaded k hl
    | some entry => exact (h.loaded k entry hl).newline_not_mem
  · intro k o array events written hjob
    cases hjob
  · intro k e hjob
    cases hjob
  · intro k hjob
    cases hjob
  · intro k
    unfold TimelineView.Extends TimelineView.visible
    dsimp only
    rcases hc k with h1 | ⟨h1, -⟩
    · rewrite [h1]
      exact prefix_rfl
    rw [h1]
    cases hl : v.loaded k with
    | none => exact prefix_rfl
    | some entry => exact (h.loaded k entry hl).prefix_events

/-- Loading a timeline from its file, which loses a torn line. -/
theorem TimelineInv.load (hreload : ∀ e : LedgerEvent, P e.reload.toLedgerEventDraft) (h : TimelineInv P v)
    {k₀ : JsString} (hnone : v.loaded k₀ = none) (hjob : v.job ≠ some (.removing k₀)) (array bytes : Nat) :
    Keeps P v ⟨fun k => if k₀ = k then ⟨(v.file k₀).lines, []⟩ else v.file k,
      fun k => if k₀ = k then some ⟨array, (v.file k₀).events, bytes⟩ else v.loaded k, v.pinned, v.job⟩ := by
  have hline : Job.lineFor v.job k₀ = none := by
    unfold Job.lineFor
    split
    · rename_i sessionId o array events written hj
      rw [if_neg]
      rintro rfl
      obtain ⟨-, ⟨bytes, hl⟩, -⟩ := h.appending _ _ _ _ _ hj
      rw [hnone] at hl
      cases hl
    · rfl
  refine ⟨⟨?_, ?_, ?_, ?_, ?_, ?_, ?_⟩, ?_⟩
  · intro k
    dsimp only
    split
    · exact h.numbered k₀
    · exact h.numbered k
  · intro k entry hk
    dsimp only at hk ⊢
    split at hk
    · rename_i hkk
      subst hkk
      cases hk
      rw [if_pos rfl, hline]
      exact ⟨(v.file k₀).sameReload_events, rfl⟩
    · rename_i hkk
      rw [if_neg hkk]
      exact h.loaded k entry hk
  · intro k hk
    dsimp only at hk ⊢
    split at hk
    · cases hk
    · rename_i hkk
      rw [if_neg hkk]
      exact h.unloaded k hk
  · intro k entry hk e he
    dsimp only at hk
    split at hk
    · cases hk
      obtain ⟨o, -, rfl⟩ := mem_map.mp he
      exact hreload o.event
    · exact h.plain k entry hk e he
  · intro k o array' events written hj
    obtain ⟨hpin, ⟨bytes', hl⟩, hseq⟩ := h.appending k o array' events written hj
    refine ⟨hpin, ⟨bytes', ?_⟩, hseq⟩
    dsimp only
    rw [if_neg]
    · exact hl
    · rintro rfl
      rw [hnone] at hl
      cases hl
  · intro k e hj
    obtain ⟨hp, o, ho, he⟩ := h.flushing k e hj
    refine ⟨hp, o, ?_, he⟩
    dsimp only
    split
    · rename_i hkk
      rw [hkk]
      exact ho
    · exact ho
  · intro k hj
    dsimp only
    rw [if_neg]
    · exact h.removing k hj
    · rintro rfl
      exact hjob hj
  · intro k
    unfold TimelineView.Extends TimelineView.visible
    dsimp only
    by_cases hk : k₀ = k
    · subst hk
      rewrite [if_pos rfl, hnone]
      exact prefix_rfl
    · rewrite [if_neg hk, if_neg hk]
      exact prefix_rfl

theorem TimelineInv.setJob (h : TimelineInv P v) (job : Option Job) (hold : ∀ k, Job.lineFor v.job k = none)
    (hnew : ∀ k o array events written, job ≠ some (.appending k o array events written))
    (hflush : ∀ k e, job ≠ some (.flushing k e)) (hrem : ∀ k, job = some (.removing k) → v.loaded k = none) :
    Keeps P v ⟨v.file, v.loaded, v.pinned, job⟩ := by
  refine ⟨⟨h.numbered, ?_, h.unloaded, h.plain, ?_, ?_, hrem⟩, fun k => TimelineView.Extends.refl v k⟩
  · intro k entry hk
    have := h.loaded k entry hk
    rw [hold k] at this
    have hline : Job.lineFor job k = none := by
      unfold Job.lineFor
      split
      · rename_i sessionId o array events written
        exact absurd rfl (hnew sessionId o array events written)
      · rfl
    rwa [hline]
  · intro k o array events written hjob
    exact absurd hjob (hnew k o array events written)
  · intro k e hjob
    exact absurd hjob (hflush k e)

private theorem update_eq {α : Type} {g : JsString → α} {k₀ : JsString} {a : α} (h : g k₀ = a) :
    (fun k => if k₀ = k then a else g k) = g := by
  funext k
  split
  · rename_i hk
    rw [← hk, h]
  · rfl

theorem TimelineInv.update (h : TimelineInv P v) (k₀ : JsString) (f : TimelineFile) (entry : LoadedSession)
    (job : Job) (hold : ∀ k, k₀ ≠ k → Job.lineFor v.job k = none) (hnum : Numbered f.stored)
    (hholds : f.HoldsLoaded entry.events (Job.lineFor (some job) k₀))
    (hplain : ∀ e ∈ entry.events, P e.toLedgerEventDraft)
    (hjob : (∃ o written, job = .appending k₀ o entry.array entry.events written ∧ k₀ ∈ v.pinned ∧
        o.event.seq = entry.events.length + 1 ∧ P o.event.toLedgerEventDraft) ∨
      ∃ e, job = .flushing k₀ e ∧ P e.toLedgerEventDraft ∧ ∃ o ∈ f.lines, o.event = e)
    (hext : (v.visible k₀).map (·.reload) <+: entry.events.map (·.reload)) :
    Keeps P v ⟨fun k => if k₀ = k then f else v.file k, fun k => if k₀ = k then some entry else v.loaded k, v.pinned,
      some job⟩ := by
  have hnew : ∀ k, k₀ ≠ k → Job.lineFor (some job) k = none := by
    intro k hk
    rcases hjob with ⟨o, written, rfl, -⟩ | ⟨e, rfl, -⟩
    · exact if_neg hk
    · rfl
  refine ⟨⟨?_, ?_, ?_, ?_, ?_, ?_, ?_⟩, ?_⟩
  · intro k
    dsimp only
    split
    · exact hnum
    · exact h.numbered k
  · intro k entry' hk
    dsimp only at hk ⊢
    split at hk
    · rename_i hkk
      subst hkk
      cases hk
      rwa [if_pos rfl]
    rename_i hkk
    rw [if_neg hkk, hnew k hkk]
    have := h.loaded k entry' hk
    rwa [hold k hkk] at this
  · intro k hk
    dsimp only at hk ⊢
    split at hk
    · cases hk
    · rename_i hkk
      rw [if_neg hkk]
      exact h.unloaded k hk
  · intro k entry' hk e he
    dsimp only at hk
    split at hk
    · cases hk
      exact hplain e he
    · exact h.plain k entry' hk e he
  · intro k o array events written hj
    rcases hjob with ⟨o', written', rfl, hpin, hseq, hP⟩ | ⟨e, rfl, -⟩
    · cases hj
      exact ⟨hpin, ⟨entry.bytes, by simp⟩, hseq, hP⟩
    · cases hj
  · intro k e hj
    dsimp only at hj ⊢
    rcases hjob with ⟨o', written', rfl, -⟩ | ⟨e', rfl, hP, ho⟩
    · cases hj
    · cases hj
      rw [if_pos rfl]
      exact ⟨hP, ho⟩
  · intro k hj
    rcases hjob with ⟨o', written', rfl, -⟩ | ⟨e', rfl, -⟩ <;> cases hj
  · intro k
    unfold TimelineView.Extends
    by_cases hk : k₀ = k
    · subst hk
      have hv : TimelineView.visible ⟨fun k => if k₀ = k then f else v.file k,
          fun k => if k₀ = k then some entry else v.loaded k, v.pinned, some job⟩ k₀ = entry.events := by
        simp [TimelineView.visible]
      rw [hv]
      exact hext
    · have hv : TimelineView.visible ⟨fun k => if k₀ = k then f else v.file k,
          fun k => if k₀ = k then some entry else v.loaded k, v.pinned, some job⟩ k = v.visible k := by
        simp [TimelineView.visible, hk]
      rewrite [hv]
      exact prefix_rfl

end

section

variable {f : TimelineFile} {o : EventObject} {n m : Nat}

/-- Writing the next bytes of the line keeps file and loaded timeline in step. -/
theorem TimelineFile.HoldsLoaded.write (h : f.HoldsLoaded events (some (o, some n))) :
    (f.write o (((lineOf o ++ [10]).drop n).take m)).HoldsLoaded events
      (some (o, some (min (lineOf o ++ [10]).length (n + m)))) := by
  rcases h with ⟨hn, hsame, htail⟩ | ⟨hn, htail, base, hlines, hsame⟩
  · have hbytes : f.tail ++ ((lineOf o ++ [10]).drop n).take m = (lineOf o ++ [10]).take (n + m) := by
      rw [htail, take_add]
    unfold TimelineFile.write
    rw [hbytes]
    by_cases hm : (lineOf o ++ [10]).length ≤ n + m
    · rw [if_pos (take_of_length_le hm), Nat.min_eq_left hm]
      exact Or.inr ⟨rfl, rfl, f.lines, rfl, hsame⟩
    have hlt : n + m < (lineOf o ++ [10]).length := Nat.not_le.mp hm
    rw [if_neg, Nat.min_eq_right (Nat.le_of_lt hlt)]
    · exact Or.inl ⟨hlt, hsame, rfl⟩
    · intro heq
      have hlen := congrArg List.length heq
      rw [length_take] at hlen
      omega
  · have hdrop : ((lineOf o ++ [10]).drop n).take m = [] := by
      rw [hn, drop_length, take_nil]
    have hmin : min (lineOf o ++ [10]).length (n + m) = n := by omega
    have hne : f.tail ++ [] ≠ lineOf o ++ [10] := by simp [htail]
    rw [hdrop, hmin]
    unfold TimelineFile.write
    rw [if_neg hne, append_nil]
    exact Or.inr ⟨hn, htail, base, hlines, hsame⟩

theorem TimelineFile.HoldsLoaded.numbered_write (h : f.HoldsLoaded events (some (o, some n)))
    (hnum : Numbered f.stored) (hseq : o.event.seq = events.length + 1) :
    Numbered (f.write o (((lineOf o ++ [10]).drop n).take m)).stored := by
  unfold TimelineFile.write
  split
  · rename_i heq
    rcases h with ⟨-, hsame, -⟩ | ⟨hn, htail, -⟩
    · have hlen : events.length = f.stored.length := hsame.length_eq
      have hs := hnum.snoc (show o.event.seq = f.stored.length + 1 by rw [hseq, hlen])
      simpa [TimelineFile.stored] using hs
    · simp [htail, hn] at heq
  · exact hnum

/-- When the whole line is written, the file holds the event in addition. -/
theorem TimelineFile.HoldsLoaded.finish (h : f.HoldsLoaded events (some (o, some (lineOf o ++ [10]).length))) :
    f.HoldsLoaded (events ++ [o.event]) none ∧ o ∈ f.lines := by
  rcases h with ⟨hn, -⟩ | ⟨-, htail, base, hlines, hsame⟩
  · exact absurd hn (Nat.lt_irrefl _)
  · refine ⟨⟨?_, htail⟩, by simp [hlines]⟩
    have := hsame.snoc o.event
    simpa [TimelineFile.stored, hlines] using this

end

theorem Keeps.trans {P : LedgerEventDraft → Prop} {v v' v'' : TimelineView} (h : Keeps P v v') (h' : Keeps P v' v'') :
    Keeps P v v'' := ⟨h'.1, fun k => (h.2 k).trans (h'.2 k)⟩

theorem TimelineInv.keeps_refl {P : LedgerEventDraft → Prop} (h : TimelineInv P v) : Keeps P v v :=
  ⟨h, TimelineView.Extends.refl v⟩

variable (files : OMap JsString TimelineFile)

theorem fileOf_set (k₀ : JsString) (f : TimelineFile) :
    fileOf (files.set k₀ f) = fun k => if k₀ = k then f else fileOf files k := by
  funext k
  rw [fileOf, OMap.get_set]
  split <;> rfl

theorem fileOf_delete (k₀ : JsString) :
    fileOf (files.delete k₀) = fun k => if k₀ = k then .empty else fileOf files k := by
  funext k
  rw [fileOf, OMap.get_delete]
  split <;> rfl

structure Loads (P : LedgerEventDraft → Prop) (s : LedgerMachine) (k : JsString) (entry : LoadedSession)
    (s' : LedgerMachine) : Prop where
  keeps : Keeps P s.view s'.view
  job : s'.job = s.job
  pinned : s'.memory.pinned = s.memory.pinned
  events : entry.events = s.view.visible k
  plain : ∀ e ∈ entry.events, P e.toLedgerEventDraft
  holds : (fileOf s'.files k).HoldsLoaded entry.events (Job.lineFor s.job k)
  resident : k ∈ s.memory.pinned → s'.memory.events.get k = some entry

section

variable {P : LedgerEventDraft → Prop} {s : LedgerMachine} {k : JsString}

def loadedEntry (s : LedgerMachine) (k : JsString) : LoadedSession :=
  ⟨s.memory.nextArray, (fileOf s.files k).events, TimelineFile.size ⟨(fileOf s.files k).lines, []⟩⟩

def rebuiltMemory (s : LedgerMachine) (k : JsString) : Memory :=
  { s.memory with nextArray := s.memory.nextArray + 1 }.rebuildSummaryIfNeeded k (loadedEntry s k).events
    (loadedEntry s k).bytes

def cutFiles (files : OMap JsString TimelineFile) (k : JsString) : OMap JsString TimelineFile :=
  if (files.get k).isSome then files.set k ⟨(fileOf files k).lines, []⟩ else files

theorem loadSessionSync_cached {cached : LoadedSession} (hget : s.memory.events.get k = some cached) :
    loadSessionSync s k = .ok (cached, { s with memory := s.memory.touch k cached }) := by
  unfold loadSessionSync
  rw [hget]

theorem loadSessionSync_uncached (hget : s.memory.events.get k = none)
    (htail : (10 : UInt8) ∉ (fileOf s.files k).tail) :
    loadSessionSync s k = .ok (loadedEntry s k,
      { s with files := cutFiles s.files k, memory := (rebuiltMemory s k).storeSession k (loadedEntry s k) }) := by
  have hload : ((s.files.get k).map fun f => f.load k).getD (.ok ([], .empty)) =
      .ok ((fileOf s.files k).events, ⟨(fileOf s.files k).lines, []⟩) := by
    cases hf : s.files.get k with
    | none => simp [fileOf, hf, TimelineFile.events, TimelineFile.empty]
    | some f =>
      have hc : f.tail.contains 10 = false := by simpa [fileOf, hf] using htail
      simp only [fileOf, hf, Option.map_some, Option.getD_some, TimelineFile.load, hc, if_neg Bool.false_ne_true]
  unfold loadSessionSync
  rw [hget]
  dsimp only
  rw [hload]
  rfl

theorem fileOf_cutFiles (k : JsString) :
    fileOf (cutFiles files k) = fun k' => if k = k' then ⟨(fileOf files k).lines, []⟩ else fileOf files k' := by
  unfold cutFiles
  split
  · exact fileOf_set _ _ _
  rename_i hf
  have hnone : files.get k = none := by simpa using hf
  funext k'
  split
  · rename_i hk
    subst hk
    simp [fileOf, hnone, TimelineFile.empty]
  · rfl

@[simp] theorem rebuiltMemory_frame (s : LedgerMachine) (k : JsString) :
    (rebuiltMemory s k).events = s.memory.events ∧ (rebuiltMemory s k).pinned = s.memory.pinned :=
  Memory.rebuildSummaryIfNeeded_frame _ _ _ _

theorem TimelineInv.loads (hreload : ∀ e : LedgerEvent, P e.reload.toLedgerEventDraft) (h : TimelineInv P s.view)
    (hjob : s.job ≠ some (.removing k)) :
    ∃ entry s', loadSessionSync s k = .ok (entry, s') ∧ Loads P s k entry s' := by
  cases hget : s.memory.events.get k with
  | some cached =>
    have hview : LedgerMachine.view { s with memory := s.memory.touch k cached } = s.view := by
      unfold LedgerMachine.view
      rw [Memory.get_touch _ hget]
      rfl
    refine ⟨cached, _, loadSessionSync_cached hget, ?_, rfl, rfl, ?_, h.plain k cached hget,
      h.loaded k cached hget, ?_⟩
    · rw [hview]
      exact h.keeps_refl
    · simp [TimelineView.visible, LedgerMachine.view, hget]
    · intro _
      rw [Memory.get_touch _ hget, hget]
  | none =>
    have hstore := Memory.loses_storeSession (rebuiltMemory s k) k (loadedEntry s k)
    rw [(rebuiltMemory_frame ..).1, (rebuiltMemory_frame ..).2] at hstore
    have hmid := h.load hreload hget hjob (loadedEntry s k).array (loadedEntry s k).bytes
    refine ⟨_, _, loadSessionSync_uncached hget (h.unloaded k hget), ?_, rfl, by simp, ?_, ?_, ?_, ?_⟩
    · have hkeep := hmid.1.lose s.memory.pinned hstore fun k' o array events written hj =>
        ⟨(h.appending k' o array events written hj).1, (h.appending k' o array events written hj).1⟩
      refine hmid.trans ?_
      unfold LedgerMachine.view
      rw [fileOf_cutFiles, (Memory.storeSession_frame ..).2.2, (rebuiltMemory_frame ..).2]
      exact hkeep
    · simp [TimelineView.visible, LedgerMachine.view, hget, loadedEntry]
    · intro e he
      obtain ⟨o, -, rfl⟩ := mem_map.mp he
      exact hreload o.event
    · have hl := hmid.1.loaded k (loadedEntry s k) (by simp [loadedEntry, LedgerMachine.view])
      rw [fileOf_cutFiles]
      exact hl
    · intro hpin
      rcases hstore k with h1 | ⟨-, h1⟩
      · exact h1.trans (if_pos rfl)
      · exact absurd hpin h1

end

/-! ### Steps -/

theorem acceptDraft_ok {diff : LineDiff} {contentVersion : JsString → JsString} {w : Workspace}
    {draft : LedgerEventDraft} {documentCommit : Bool} {accepted : Accepted}
    (h : acceptDraft diff contentVersion w events draft documentCommit = .ok accepted) :
    (∃ event, accepted = .existing event ∧ ∀ e ∈ event, e ∈ events) ∨
    ∃ draft', accepted = .store draft' ∧ (draft' = draft ∨
      ∃ d, draft' = { draft with body := .documentContent d }) := by
  unfold acceptDraft at h
  split at h
  · split at h <;> cases h
    exact Or.inr ⟨draft, rfl, Or.inl rfl⟩
  · rename_i d _
    cases hcheck : checkSnapshot contentVersion w d documentCommit with
    | error e =>
      rw [acceptDocument, hcheck] at h
      cases h
    | ok u =>
      cases hcur : liftError (currentDocument contentVersion events d.path) with
      | error e =>
        rw [acceptDocument, hcheck, hcur] at h
        cases h
      | ok current =>
        rw [acceptDocument_current diff contentVersion hcheck hcur] at h
        cases hchange : documentChange diff contentVersion d.path (current.map (·.content)) d.content with
        | none =>
          rw [hchange] at h
          cases h
          refine Or.inl ⟨_, rfl, ?_⟩
          intro e he
          exact mem_reverse.mp (mem_of_find?_eq_some he)
        | some change =>
          rw [hchange, Option.elim_some] at h
          cases hagain : liftError (currentDocument contentVersion
            (events ++ [⟨changedDraft draft d change, 0, []⟩]) d.path) <;> rw [hagain] at h
          case error e => cases h
          case ok again =>
            cases h
            exact Or.inr ⟨_, rfl, Or.inr ⟨_, rfl⟩⟩
  · cases h
    exact Or.inr ⟨draft, rfl, Or.inl rfl⟩

/-- No session is read between the moment its deletion forgets it and the removal of its file. -/
def Settled (s : LedgerMachine) : LedgerAction → Prop
  | .read k => s.job ≠ some (.removing k)
  | .readPage k _ _ => s.job ≠ some (.removing k)
  | _ => True

def Admits (P : LedgerEventDraft → Prop) : LedgerAction → Prop
  | .append _ _ draft _ _ _ => P draft
  | _ => True

structure StepKeeps (P : LedgerEventDraft → Prop) (s : LedgerMachine) (o : Outcome) (s' : LedgerMachine) : Prop where
  inv : TimelineInv P s'.view
  grows : ∀ k, o ≠ .removed k → s.view.Extends s'.view k
  reads : ∀ k events, o = .timeline k events → events = s.view.visible k ∧ ∀ e ∈ events, P e.toLedgerEventDraft
  resolves : ∀ k e, o = .resolved k (some e) → P e.toLedgerEventDraft ∧ e.reload ∈ (s'.view.visible k).map (·.reload)

section

variable {P : LedgerEventDraft → Prop} {s s' : LedgerMachine} {o : Outcome}

/-- A step that yields nothing to check. -/
theorem Keeps.silent (h : Keeps P s.view s'.view) : StepKeeps P s .silent s' where
  inv := h.1
  grows k _ := h.2 k
  reads := by simp
  resolves := by simp

theorem Keeps.rejected (h : Keeps P s.view s'.view) (k : JsString) (e : LedgerError) :
    StepKeeps P s (.rejected k e) s' where
  inv := h.1
  grows k _ := h.2 k
  reads := by simp
  resolves := by simp

theorem Keeps.resolved (h : Keeps P s.view s'.view) {event : Option LedgerEvent}
    (hevent : ∀ e ∈ event, P e.toLedgerEventDraft ∧ e.reload ∈ (s'.view.visible k).map (·.reload)) :
    StepKeeps P s (.resolved k event) s' where
  inv := h.1
  grows k _ := h.2 k
  reads := by simp
  resolves k' e he := by
    cases he
    exact hevent e rfl

theorem StepKeeps.of_eq {r : LedgerMachine × Outcome} (h : StepKeeps P s r.2 r.1) (hr : some r = some (s', o)) :
    StepKeeps P s o s' := by
  cases hr
  exact h

/-- Events that were visible still are, up to what a reload changes. -/
theorem TimelineView.Extends.mem {v v' : TimelineView} (h : v.Extends v' k) {e : LedgerEvent}
    (he : e.reload ∈ (v.visible k).map (·.reload)) : e.reload ∈ (v'.visible k).map (·.reload) := h.subset he

/-- Releasing the pin of a session that no append writes any more. -/
theorem TimelineInv.release (h : TimelineInv P s.view) (k : JsString)
    (hjob : ∀ k' o array events written, s.job = some (.appending k' o array events written) → k' ≠ k) :
    Keeps P s.view (LedgerMachine.view { s with memory := s.memory.release k }) := by
  have hk := h.lose (OSet.delete s.memory.pinned k) (s.memory.loses_release k)
    fun k' o array events written hj => by
      have hp := (h.appending k' o array events written hj).1
      exact ⟨OSet.mem_delete.mpr ⟨hp, hjob _ _ _ _ _ hj⟩, OSet.mem_delete.mpr ⟨hp, hjob _ _ _ _ _ hj⟩⟩
  unfold LedgerMachine.view
  rw [(Memory.release_frame ..).2.2]
  exact hk

theorem TimelineInv.abandon (h : TimelineInv P s.view) (k : JsString)
    (hjob : ∀ k' o array events written, s.job = some (.appending k' o array events written) → k' = k) :
    Keeps P s.view (LedgerMachine.view { s with memory := s.memory.abandon k, job := none }) := by
  have hgone : (s.memory.abandon k).events.get k = none := by
    rcases s.memory.loses_abandon k k with h1 | ⟨h1, -⟩
    · exact h1.trans (if_pos rfl)
    · exact h1
  refine h.stop _ ?_ ?_
  · intro k'
    rcases s.memory.loses_abandon k k' with h1 | ⟨h1, -⟩
    · by_cases hk : k = k'
      · subst hk
        exact Or.inr ⟨hgone, id⟩
      · exact Or.inl (h1.trans (if_neg hk))
    · exact Or.inr ⟨h1, id⟩
  · intro k' o array events written hj
    rw [hjob _ _ _ _ _ hj]
    exact hgone

theorem TimelineInv.numbered_visible (h : TimelineInv P v) (k : JsString) : Numbered (v.visible k) := by
  unfold TimelineView.visible
  cases hl : v.loaded k with
  | none => exact (v.file k).sameReload_events.numbered_iff.mpr (h.numbered k)
  | some entry =>
    have hloaded := h.loaded k entry hl
    unfold TimelineFile.HoldsLoaded at hloaded
    split at hloaded
    · rcases hloaded with ⟨-, hsame, -⟩ | ⟨-, -, base, hlines, hsame⟩
      · exact hsame.numbered_iff.mpr (h.numbered k)
      · have hnum := h.numbered k
        rw [TimelineFile.stored, hlines, map_append] at hnum
        exact hsame.numbered_iff.mpr hnum.of_snoc
    · exact hloaded.1.numbered_iff.mpr (h.numbered k)

theorem TimelineInv.pin (h : TimelineInv P s.view) (hnone : s.job = none) (k : JsString) :
    Keeps P s.view (LedgerMachine.view
      { s with memory := { s.memory with pinned := OSet.add s.memory.pinned k } }) := by
  refine h.lose (OSet.add s.memory.pinned k) (Loses.refl (fun _ => True) _) ?_
  intro k' o array events written hj
  change s.job = _ at hj
  rw [hnone] at hj
  cases hj

theorem TimelineInv.startAppend (hreload : ∀ e : LedgerEvent, P e.reload.toLedgerEventDraft)
    (hdocument : ∀ (draft : LedgerEventDraft) d, P { draft with body := .documentContent d })
    (h : TimelineInv P s.view)
    (hnone : s.job = none) (diff : LineDiff) (contentVersion : JsString → JsString) (k : JsString) (w : Workspace)
    {draft : LedgerEventDraft} (hdraft : P draft) (layout : Layout) (documentCommit : Bool) (time : JsString) :
    StepKeeps P s (startAppend diff contentVersion s k w draft layout documentCommit time).2
      (startAppend diff contentVersion s k w draft layout documentCommit time).1 := by
  have hidle : ∀ m : LedgerMachine, m.job = none → ∀ k' o array events written,
      m.job = some (.appending k' o array events written) → False := by
    intro m hm k' o array events written hj
    rw [hm] at hj
    cases hj
  unfold Session.startAppend
  cases assertSessionId k with
  | error e => exact h.keeps_refl.rejected k e
  | ok u =>
    dsimp only
    have hpin := h.pin hnone k
    generalize hs₁ : ({ s with memory := { s.memory with pinned := OSet.add s.memory.pinned k } } : LedgerMachine) =
        s₁
      at hpin ⊢
    have hjob₁ : s₁.job = none := by rw [← hs₁]; exact hnone
    have hpinned : k ∈ s₁.memory.pinned := by rw [← hs₁]; exact OSet.mem_add.mpr (Or.inr rfl)
    obtain ⟨entry, s₂, hload, hl⟩ := hpin.1.loads hreload (k := k) (by rw [hjob₁]; simp)
    have hjob₂ : s₂.job = none := hl.job.trans hjob₁
    have hkeeps := hpin.trans hl.keeps
    have habandon : Keeps P s.view (LedgerMachine.view { s₂ with memory := s₂.memory.abandon k }) := by
      have := hkeeps.1.abandon k fun k' o array events written hj => (hidle s₂ hjob₂ _ _ _ _ _ hj).elim
      rw [show ({ s₂ with memory := s₂.memory.abandon k, job := none } : LedgerMachine) =
        { s₂ with memory := s₂.memory.abandon k } by rw [← hjob₂]] at this
      exact hkeeps.trans this
    rw [hload]
    dsimp only
    cases haccept : acceptDraft diff contentVersion w entry.events draft documentCommit with
    | error e => exact habandon.rejected k e
    | ok accepted =>
      rcases acceptDraft_ok haccept with ⟨event, rfl, hevent⟩ | ⟨draft', rfl, hdraft'⟩
      · have hrelease := hkeeps.1.release k fun k' o array events written hj => (hidle s₂ hjob₂ _ _ _ _ _ hj).elim
        refine (hkeeps.trans hrelease).resolved ?_
        intro e he
        refine ⟨hl.plain e (hevent e he), ((hl.keeps.2 k).trans (hrelease.2 k)).mem ?_⟩
        rw [← hl.events]
        exact mem_map_of_mem (hevent e he)
      · have hP : P draft' := by
          rcases hdraft' with rfl | ⟨d, rfl⟩
          · exact hdraft
          · exact hdocument draft d
        -- the resident timeline is the one the job appends to
        have hres : s₂.view.loaded k = some entry := hl.resident hpinned
        have hnum : Numbered entry.events := by
          have := hkeeps.1.numbered_visible k
          rwa [TimelineView.visible_loaded hres] at this
        have hholds := hkeeps.1.loaded k entry hres
        have hline : ∀ k', Job.lineFor s₂.view.job k' = none := by
          intro k'
          change Job.lineFor s₂.job k' = none
          rw [hjob₂]
          rfl
        rw [hline k] at hholds
        generalize ho : (layout.object draft').stamp (lastSeq entry.events + 1) time = o
        have hoP : P o.event.toLedgerEventDraft := by
          rw [← ho]
          change P (layout.object draft').draft
          rwa [layout.draft_object]
        have hseq : o.event.seq = entry.events.length + 1 := by
          rw [← ho, ← hnum.lastSeq_eq]
          rfl
        have hupd := hkeeps.1.update k (s₂.view.file k) entry
          (.appending k o entry.array entry.events none) (fun k' _ => hline k') (hkeeps.1.numbered k)
          (by simpa [Job.lineFor, TimelineFile.HoldsLoaded] using hholds) (hkeeps.1.plain k entry hres)
          (Or.inl ⟨o, none, rfl, by rw [show s₂.view.pinned = s₁.memory.pinned from hl.pinned]; exact hpinned, hseq,
            hoP⟩)
          (by rewrite [TimelineView.visible_loaded hres]; exact prefix_rfl)
        rw [update_eq rfl, update_eq hres] at hupd
        subst ho
        exact Keeps.silent (hkeeps.trans hupd)

variable (h : TimelineInv P s.view)
include h

theorem TimelineInv.writing {o : EventObject} {array : Nat} {events : List LedgerEvent}
    {written : Option Nat} (hjob : s.job = some (.appending k o array events written)) : ∃ bytes, s.view.loaded k =
    some ⟨array, events, bytes⟩ ∧ k ∈ s.memory.pinned ∧ o.event.seq = events.length + 1 ∧
    P o.event.toLedgerEventDraft ∧ (fileOf s.files k).HoldsLoaded events (some (o, written)) ∧ ∀ k', k ≠ k' →
    Job.lineFor s.job k' = none := by
  obtain ⟨hpin, ⟨bytes, hl⟩, hseq, hP⟩ := h.appending k o array events written hjob
  have hholds := h.loaded k _ hl
  have hline : Job.lineFor s.view.job k = some (o, written) := by
    change Job.lineFor s.job k = _
    rw [hjob]
    exact if_pos rfl
  rw [hline] at hholds
  refine ⟨bytes, hl, hpin, hseq, hP, hholds, ?_⟩
  intro k' hk
  rw [hjob]
  exact if_neg hk

/-- The end of the write: the event is pushed and its row applied. -/
theorem TimelineInv.finishWrite {o : EventObject} {array : Nat}
    {events : List LedgerEvent} (hjob : s.job = some (.appending k o array events (some (lineOf o ++ [10]).length))) :
    StepKeeps P s (finishWrite s k o array events).2 (finishWrite s k o array events).1 := by
  obtain ⟨bytes, hl, hpin, hseq, hP, hholds, hother⟩ := h.writing hjob
  obtain ⟨hdone, hmem⟩ := hholds.finish
  have hplain : ∀ e ∈ events ++ [o.event], P e.toLedgerEventDraft := by
    intro e he
    rcases mem_append.mp he with he | he
    · exact h.plain k _ hl e he
    · rw [mem_singleton.mp he]
      exact hP
  have hpush := s.memory.get_push hl (events ++ [o.event]) ((lineOf o).length + 1)
  generalize hm : (s.memory.push k array (events ++ [o.event]) ((lineOf o).length + 1)).applySummary k o.event
    (events ++ [o.event]) (((s.memory.summaries.get k).bind (·.bytes)).getD 0 + ((lineOf o).length + 1)) = memory
  have hevents : memory.events.get = fun k' => if k = k' then
      some ⟨array, events ++ [o.event], bytes + ((lineOf o).length + 1)⟩ else s.memory.events.get k' := by
    rw [← hm]
    exact hpush
  have hpinned : memory.pinned = s.memory.pinned := by
    rw [← hm]
    exact (Memory.push_frame ..).2.2
  -- the state with the event pushed, waiting for an index write
  have hflushing : Keeps P s.view
      (LedgerMachine.view { s with memory := memory, job := some (.flushing k o.event) }) := by
    have hupd := h.update k (fileOf s.files k) ⟨array, events ++ [o.event], bytes + ((lineOf o).length + 1)⟩
      (.flushing k o.event) hother (h.numbered k) hdone hplain (Or.inr ⟨o.event, rfl, hP, o, hmem, rfl⟩)
      (by rw [TimelineView.visible_loaded hl, map_append]; exact prefix_append _ _)
    unfold LedgerMachine.view
    rw [hevents, hpinned]
    have hfile : (fun k' => if k = k' then fileOf s.files k else fileOf s.files k') = fileOf s.files := update_eq rfl
    change Keeps P s.view ⟨fun k' => if k = k' then fileOf s.files k else fileOf s.files k', _, _, _⟩ at hupd
    rw [hfile] at hupd
    exact hupd
  unfold Session.finishWrite
  dsimp only
  rw [hm]
  split
  · exact hflushing.silent
  have hidle : Keeps P s.view (LedgerMachine.view { s with memory := memory, job := none }) :=
    hflushing.trans (hflushing.1.setJob none (fun _ => rfl) (by simp) (by simp) (by simp))
  have hrelease := hidle.1.release k fun k' o' array' events' written hj => by cases hj
  refine (hidle.trans hrelease).resolved ?_
  intro e he
  cases he
  refine ⟨hP, (hrelease.2 k).mem ?_⟩
  have hres : memory.events.get k = some ⟨array, events ++ [o.event], bytes + ((lineOf o).length + 1)⟩ := by
    rw [hevents]
    exact if_pos rfl
  rw [TimelineView.visible_loaded (show (LedgerMachine.view { s with memory := memory, job := none }).loaded k = _
    from hres)]
  exact mem_map_of_mem (by simp)

theorem TimelineInv.finishFlush {job : Job} (hjob : s.job = some job) (ok : Bool) :
    StepKeeps P s (finishFlush s job ok).2 (finishFlush s job ok).1 := by
  by_cases hawaits : job.awaitsFlush = false
  · cases job with
    | flushing | forgetting => cases hawaits
    | _ => exact h.keeps_refl.silent
  have hline : ∀ k, Job.lineFor s.view.job k = none := by
    intro k
    change Job.lineFor s.job k = none
    rw [hjob]
    cases job with
    | appending k o array events written => exact absurd rfl hawaits
    | _ => rfl
  have hidle : Keeps P s.view (LedgerMachine.view { s with job := none }) :=
    h.setJob none hline (by simp) (by simp) (by simp)
  cases job with
  | appending | removing => exact absurd rfl hawaits
  | flushing k e =>
    cases ok with
    | true =>
      have hrelease := hidle.1.release k fun k' o' array' events' written hj => by cases hj
      refine (hidle.trans hrelease).resolved ?_
      intro e' he'
      cases he'
      obtain ⟨hP, o, ho, hoe⟩ := h.flushing k e hjob
      refine ⟨hP, ((hidle.2 k).trans (hrelease.2 k)).mem ?_⟩
      -- the event is in the file, and no append writes: what is loaded has it too
      have hfile : e.reload ∈ (fileOf s.files k).events.map (·.reload) := by
        refine mem_map.mpr ⟨e.reload, mem_map.mpr ⟨o, ho, by rw [hoe]⟩, e.reload_reload⟩
      unfold TimelineView.visible
      cases hl : s.view.loaded k with
      | none => exact hfile
      | some entry =>
        have hholds := h.loaded k entry hl
        rw [hline k] at hholds
        rw [← hholds.eq_events]
        exact hfile
    | false =>
      have habandon := hidle.1.abandon k fun k' o' array' events' written hj => by cases hj
      exact (hidle.trans habandon).rejected k _
  | forgetting k =>
    cases ok with
    | true => exact ⟨hidle.1, fun k _ => hidle.2 k, by simp [Session.finishFlush], by simp [Session.finishFlush]⟩
    | false => exact hidle.rejected k _

theorem TimelineInv.startDelete (hnone : s.job = none) (k : JsString) :
    StepKeeps P s (startDelete s k).2 (startDelete s k).1 := by
  unfold Session.startDelete
  cases assertSessionId k with
  | error e => exact h.keeps_refl.rejected k e
  | ok u =>
    dsimp only
    split
    · have hget : (s.memory.dropSession k).events.get k = none := by
        rw [Memory.get_dropSession, if_pos rfl]
      have hdrop : Keeps P s.view ⟨fileOf s.files, (s.memory.dropSession k).events.get, s.memory.pinned, none⟩ := by
        refine h.stop _ ?_ ?_
        · intro k'
          rw [Memory.get_dropSession]
          split
          · exact Or.inr ⟨rfl, id⟩
          · exact Or.inl rfl
        · intro k' o array events written hj
          change s.job = _ at hj
          rw [hnone] at hj
          cases hj
      have hrem := hdrop.1.setJob (some (.removing k)) (fun _ => rfl) (by simp) (by simp) (by
        intro k' hj
        cases hj
        exact hget)
      refine Keeps.silent (hdrop.trans ?_)
      rw [(Memory.dropSession_frame ..).2.2]
      exact hrem
    · exact h.keeps_refl.rejected k _

theorem TimelineInv.removeFile (hjob : s.job = some (.removing k)) :
    StepKeeps P s (.removed k) { s with files := s.files.delete k, job := some (.forgetting k) } := by
  have hl := h.removing k hjob
  have hfile := fileOf_delete s.files k
  refine ⟨⟨?_, ?_, ?_, h.plain, by simp [LedgerMachine.view], by simp [LedgerMachine.view],
    by simp [LedgerMachine.view]⟩, ?_, by simp, by simp⟩
  · intro k'
    change Numbered (fileOf (s.files.delete k) k').stored
    rw [hfile]
    dsimp only
    split
    · rfl
    · exact h.numbered k'
  · intro k' entry hk
    change (fileOf (s.files.delete k) k').HoldsLoaded entry.events none
    rw [hfile]
    dsimp only
    rw [if_neg]
    · have := h.loaded k' entry hk
      change TimelineFile.HoldsLoaded _ _ (Job.lineFor s.job k') at this
      rwa [hjob] at this
    · rintro rfl
      have hk' : s.view.loaded k = some entry := hk
      rw [hl] at hk'
      cases hk'
  · intro k' hk
    change (10 : UInt8) ∉ (fileOf (s.files.delete k) k').tail
    rw [hfile]
    dsimp only
    split
    · exact not_mem_nil
    · exact h.unloaded k' hk
  · intro k' hk
    have hne : k ≠ k' := by
      rintro rfl
      exact hk rfl
    unfold TimelineView.Extends TimelineView.visible LedgerMachine.view
    rw [hfile]
    dsimp only
    rewrite [if_neg hne]
    exact prefix_rfl

omit h

theorem TimelineInv.readPage (hreload : ∀ e : LedgerEvent, P e.reload.toLedgerEventDraft) (h : TimelineInv P s.view)
    {k : JsString} (hjob : s.job ≠ some (.removing k)) (afterSeq : Int) (limit : Option Int) :
    StepKeeps P s (readPage s k afterSeq limit).1 (readPage s k afterSeq limit).2 := by
  have hpage (page : LedgerPage) {s' : LedgerMachine} (hk : Keeps P s.view s'.view) :
      StepKeeps P s (.page k page) s' :=
    ⟨hk.1, fun k _ => hk.2 k, by simp, by simp⟩
  obtain ⟨entry, s', hload, hl⟩ := h.loads hreload hjob
  have hloadPage : StepKeeps P s (loadPage s k afterSeq limit).1 (loadPage s k afterSeq limit).2 := by
    unfold loadPage
    rw [hload]
    dsimp only
    split
    · exact hl.keeps.rejected k _
    · exact hpage _ hl.keeps
  unfold Session.readPage
  split
  · exact h.keeps_refl.rejected k _
  · rename_i cached _ hget
    apply hpage
    rw [loadSessionSync_cached hget] at hload
    cases hload
    exact hl.keeps
  · split
    · exact h.keeps_refl.rejected k _
    split
    · split
      · exact hpage _ h.keeps_refl
      · exact hloadPage
    · exact hloadPage

theorem restart_events (s : LedgerMachine) (times : JsString → JsString × JsString) :
    (restart s times).memory.events = [] := by
  have hload (rows : List SessionSummary) : ∀ m : Memory, (rows.foldl loadIndexRow m).events = m.events := by
    induction rows with
    | nil => exact fun m => rfl
    | cons row rows ih => exact fun m => ih (loadIndexRow m row)
  have hreconcile (files : OMap JsString TimelineFile) :
      ∀ m : Memory, (files.foldl (reconcileFile times) m).events = m.events := by
    induction files with
    | nil => exact fun m => rfl
    | cons e files ih => exact fun m => ih (reconcileFile times m e)
  exact (hreconcile _ _).trans (hload _ _)

/-- A crash and the next startup. -/
theorem TimelineInv.restart (h : TimelineInv P s.view) (times : JsString → JsString × JsString) :
    Keeps P s.view (restart s times).view := by
  have hlose : Loses (fun _ => False) s.view.loaded fun _ => none := fun _ => Or.inr ⟨rfl, id⟩
  have hkeeps := h.stop (Session.restart s times).memory.pinned hlose fun _ _ _ _ _ _ => rfl
  have hloaded : (Session.restart s times).memory.events.get = fun _ => none := by
    funext k
    rw [restart_events, OMap.get_nil]
  unfold LedgerMachine.view
  rw [hloaded]
  exact hkeeps

variable {diff : LineDiff} {contentVersion : JsString → JsString} {a : LedgerAction}

/-- Every admitted step keeps the timelines. -/
theorem ledgerStep_keeps (hreload : ∀ e : LedgerEvent, P e.reload.toLedgerEventDraft)
    (hdocument : ∀ (draft : LedgerEventDraft) d, P { draft with body := .documentContent d })
    (h : TimelineInv P s.view) (hsettled : Settled s a) (hadmits : Admits P a)
    (hstep : ledgerStep diff contentVersion s a = some (s', o)) : StepKeeps P s o s' := by
  cases a <;> simp only [ledgerStep, Option.ite_none_right_eq_some] at hstep
  case append k w draft layout documentCommit time =>
    obtain ⟨hnone, hstep⟩ := hstep
    exact (h.startAppend hreload hdocument (by simpa using hnone) diff contentVersion k w hadmits layout
      documentCommit time).of_eq hstep
  case openFile =>
    split at hstep <;> cases hstep
    rename_i k obj array events hjob
    obtain ⟨bytes, hl, hpin, hseq, hP, hholds, hother⟩ := h.writing hjob
    have hzero : (fileOf s.files k).HoldsLoaded events (some (obj, some 0)) :=
      Or.inl ⟨by simp, hholds.1, hholds.2⟩
    have hupd := h.update k (fileOf s.files k) ⟨array, events, bytes⟩ (.appending k obj array events (some 0)) hother
      (h.numbered k) (by simpa [Job.lineFor] using hzero) (h.plain k _ hl)
      (Or.inl ⟨obj, some 0, rfl, hpin, hseq, hP⟩)
      (by rewrite [TimelineView.visible_loaded hl]; exact prefix_rfl)
    have hfile : fileOf (if s.files.has k = true then s.files else s.files.set k .empty) = fileOf s.files := by
      split
      · rfl
      rename_i hhas
      rw [fileOf_set]
      apply update_eq
      have : s.files.get k = none := by simpa [OMap.has] using hhas
      rw [fileOf, this]
      rfl
    have hself : (fun k' => if k = k' then fileOf s.files k else s.view.file k') = fileOf s.files := update_eq rfl
    rw [hself, update_eq hl] at hupd
    refine Keeps.silent ?_
    unfold LedgerMachine.view
    rw [hfile]
    exact hupd
  case writeBytes n =>
    split at hstep <;> cases hstep
    rename_i k obj array events written hjob
    obtain ⟨bytes, hl, hpin, hseq, hP, hholds, hother⟩ := h.writing hjob
    have hupd := h.update k _ ⟨array, events, bytes⟩
      (.appending k obj array events (some (min (lineOf obj ++ [10]).length (written + n)))) hother
      (hholds.numbered_write (h.numbered k) hseq) (by simpa only [Job.lineFor, if_true] using hholds.write)
      (h.plain k _ hl) (Or.inl ⟨obj, _, rfl, hpin, hseq, hP⟩)
      (by rewrite [TimelineView.visible_loaded hl]; exact prefix_rfl)
    rw [update_eq hl] at hupd
    refine Keeps.silent ?_
    unfold LedgerMachine.view
    rw [fileOf_set]
    exact hupd
  case finishWrite =>
    split at hstep
    · rename_i k obj array events written hjob
      split at hstep
      · rename_i hwritten
        subst hwritten
        exact (h.finishWrite hjob).of_eq hstep
      · cases hstep
    · cases hstep
  case failAppend code =>
    split at hstep <;> cases hstep
    rename_i k obj array events written hjob
    refine (h.abandon k ?_).rejected k _
    intro k' o' array' events' written' hj
    rw [hjob] at hj
    cases hj
    rfl
  case beginFlush own =>
    obtain ⟨-, hstep⟩ := hstep
    cases hstep
    exact Keeps.silent h.keeps_refl
  case endFlush ok =>
    split at hstep
    · cases hstep
    rename_i flush _
    split at hstep
    · rename_i job hown hjob
      refine StepKeeps.of_eq ?_ hstep
      have hinv : TimelineInv P (LedgerMachine.view
          { s with index := if ok = true then some flush.rows else s.index, flush := none }) := h
      have hkeeps := hinv.finishFlush hjob ok
      exact ⟨hkeeps.inv, hkeeps.grows, hkeeps.reads, hkeeps.resolves⟩
    · cases hstep
      exact Keeps.silent h.keeps_refl
  case read k =>
    obtain ⟨entry, s₁, hload, hl⟩ := h.loads hreload hsettled
    unfold read at hstep
    cases hid : assertSessionId k with
    | error e =>
      rw [hid] at hstep
      cases hstep
      exact h.keeps_refl.rejected k e
    | ok u =>
      rw [hid, hload] at hstep
      cases hstep
      refine ⟨hl.keeps.1, fun k _ => hl.keeps.2 k, ?_, by simp⟩
      intro k' events hev
      cases hev
      exact ⟨hl.events, hl.plain⟩
  case readPage k afterSeq limit =>
    have := h.readPage hreload hsettled afterSeq limit
    cases hstep
    exact this
  case delete k =>
    obtain ⟨hnone, hstep⟩ := hstep
    exact (h.startDelete (by simpa using hnone) k).of_eq hstep
  case removeFile ok =>
    split at hstep
    · rename_i k hjob
      split at hstep
      · cases hstep
        exact h.removeFile hjob
      cases hstep
      refine Keeps.rejected ?_ k _
      refine h.setJob none (fun k' => ?_) (by simp) (by simp) (by simp)
      change Job.lineFor s.job k' = none
      rw [hjob]
      rfl
    · cases hstep
  case restart times =>
    cases hstep
    exact (h.restart times).silent

end

end Wrenyard.Session
