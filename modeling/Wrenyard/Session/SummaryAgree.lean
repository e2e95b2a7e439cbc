import Mathlib.Data.List.Induction
import Wrenyard.Session.Summary

/-!
# The incremental row is the recomputed one

Folding `applySummary` over a timeline and recomputing the row from it are two derivations of one value.  They agree
on every prefix of a timeline that begins with its only `session.created` event and in which each turn is started at
most once and finished only after it started (`WellFormedTimeline`); the first condition is what makes the creation
times agree, the second the pending turns.
-/

namespace Wrenyard.Session

open Js List

/-- Each turn is started at most once and finished only after it started. -/
structure OrderedTurns (events : List LedgerEvent) : Prop where
  started_once : (events.filterMap startedTurn).Nodup
  finished_after : ∀ before event after, events = before ++ event :: after →
    ∀ turn, finishedTurn event = some turn → turn ∈ before.filterMap startedTurn

/-- The timeline begins with its only `session.created`, and its turns are ordered. -/
structure WellFormedTimeline (events : List LedgerEvent) : Prop extends OrderedTurns events where
  created_first : ∀ e ∈ events.head?, isSessionCreated e = true
  created_once : ∀ e ∈ events.tail, isSessionCreated e = false

/-- The row after appending the events one at a time; `lineBytes` is the size of an event's line. -/
def incrementalSummary (sessionId : JsString) (lineBytes : LedgerEvent → Nat) (events : List LedgerEvent) :
    Option SessionSummary :=
  events.zipIdx.foldl
    (fun row e => some (applySummary row sessionId e.1 (events.take (e.2 + 1))
      ((row.bind (·.bytes)).getD 0 + lineBytes e.1)))
    none

variable {sessionId : JsString} {lineBytes : LedgerEvent → Nat} {events : List LedgerEvent} {event : LedgerEvent}

theorem OrderedTurns.of_snoc (h : OrderedTurns (events ++ [event])) : OrderedTurns events where
  started_once := by
    have := h.started_once
    rw [filterMap_append] at this
    exact this.of_append_left
  finished_after before e after he := h.finished_after before e (after ++ [event]) (by rw [he]; simp)

theorem WellFormedTimeline.of_snoc (h : WellFormedTimeline (events ++ [event])) : WellFormedTimeline events where
  created_first e he := by
    apply h.created_first
    cases events with
    | nil => simp at he
    | cons a l => simpa using he
  created_once e he := by
    apply h.created_once
    cases events with
    | nil => simp at he
    | cons a l => simp only [tail_cons] at he; simp [he]
  toOrderedTurns := h.toOrderedTurns.of_snoc

private theorem take_snoc_of_lt {i : Nat} (h : i < events.length) :
    (events ++ [event]).take (i + 1) = events.take (i + 1) :=
  List.take_append_of_le_length h

private theorem foldl_zipIdx_snoc {σ : Type} (f : List LedgerEvent → σ → LedgerEvent × Nat → σ) (init : σ)
    (hf : ∀ s e, e.2 < events.length → f (events ++ [event]) s e = f events s e) :
    (events ++ [event]).zipIdx.foldl (f (events ++ [event])) init =
    f (events ++ [event]) (events.zipIdx.foldl (f events) init) (event, events.length) := by
  rw [zipIdx_append, foldl_append]
  have hcongr : ∀ (l : List (LedgerEvent × Nat)) (s : σ), (∀ e ∈ l, e.2 < events.length) →
      l.foldl (f (events ++ [event])) s = l.foldl (f events) s := by
    intro l
    induction l with
    | nil => intro s _; rfl
    | cons e l ih =>
      intro s hl
      rw [foldl_cons, foldl_cons, hf s e (hl e (mem_cons_self ..)),
        ih _ fun e' he' => hl e' (mem_cons_of_mem _ he')]
  rw [hcongr events.zipIdx init fun e he => by simpa using snd_lt_of_mem_zipIdx he]
  simp

theorem incrementalSummary_snoc :
    incrementalSummary sessionId lineBytes (events ++ [event]) =
      some (applySummary (incrementalSummary sessionId lineBytes events) sessionId event (events ++ [event])
        (((incrementalSummary sessionId lineBytes events).bind (·.bytes)).getD 0 + lineBytes event)) := by
  unfold incrementalSummary
  rw [foldl_zipIdx_snoc (fun l row e => some (applySummary row sessionId e.1 (l.take (e.2 + 1))
    ((row.bind (·.bytes)).getD 0 + lineBytes e.1)))]
  · rw [take_of_length_le (by simp)]
  · intro row e he
    rw [take_snoc_of_lt he]

private theorem lastTurnAfter_snoc {previous : Option LastTurn} {e : LedgerEvent} {i : Nat} (h : i < events.length) :
    lastTurnAfter previous e (events ++ [event]) (i + 1) = lastTurnAfter previous e events (i + 1) := by
  unfold lastTurnAfter newestStartedTurn failedSpanFacts
  rw [take_snoc_of_lt h]

theorem summaryState_snoc : summaryState (events ++ [event]) =
    summarizeStep (events ++ [event]) (summaryState events) event events.length := by
  unfold summaryState
  rw [foldl_zipIdx_snoc (fun l s e => summarizeStep l s e.1 e.2)]
  intro s e he
  unfold summarizeStep
  rw [lastTurnAfter_snoc he]

private theorem createdAt_isSome (h : WellFormedTimeline events) (hne : events ≠ []) :
    (summaryState events).createdAt.isSome = true := by
  induction events using List.reverseRecOn with
  | nil => exact absurd rfl hne
  | append_singleton events event ih =>
    rw [summaryState_snoc]
    rcases events with _ | ⟨first, rest⟩
    · have hc := h.created_first event (by simp)
      unfold isSessionCreated at hc
      split at hc
      · rename_i hb
        simp [summarizeStep, hb]
      · simp at hc
    · have := ih h.of_snoc (by simp)
      unfold summarizeStep
      split
      · rfl
      · exact this

variable {turn : Nat}

theorem mem_pendingTurnsOf :
    turn ∈ pendingTurnsOf events ↔ turn ∈ events.filterMap startedTurn ∧ turn ∉ events.filterMap finishedTurn := by
  simp only [pendingTurnsOf, mem_sortAscending, mem_filter, OSet.mem_ofList, decide_eq_true_eq]

private theorem finishedTurn_of_startedTurn (h : startedTurn event = some turn) :
    finishedTurn event = none := by
  unfold startedTurn at h
  unfold finishedTurn
  split at h
  · rename_i hb
    rw [hb]
  · cases h

private theorem started_of_finished (h : OrderedTurns events)
    (hf : turn ∈ events.filterMap finishedTurn) : turn ∈ events.filterMap startedTurn := by
  obtain ⟨e, he, hturn⟩ := mem_filterMap.mp hf
  obtain ⟨before, after, rfl⟩ := append_of_mem he
  rw [filterMap_append, mem_append]
  exact Or.inl (h.finished_after before e after rfl turn hturn)

private theorem nodup_pendingTurnsAfter_set (turns : List Nat) (event : LedgerEvent) :
    (match startedTurn event, finishedTurn event with
      | some turn, _ => OSet.add (OSet.ofList turns) turn
      | none, some turn => OSet.delete (OSet.ofList turns) turn
      | none, none => OSet.ofList turns).Nodup := by
  split
  · exact OSet.nodup_add (OSet.nodup_ofList turns) _
  · exact OSet.nodup_delete (OSet.nodup_ofList turns) _
  · exact OSet.nodup_ofList turns

theorem pendingTurnsOf_snoc (h : OrderedTurns (events ++ [event])) :
    pendingTurnsAfter (some (pendingTurnsOf events)) event = pendingTurnsOf (events ++ [event]) := by
  apply sortAscending_congr (nodup_pendingTurnsAfter_set _ _) ((OSet.nodup_ofList _).filter _)
  intro turn
  simp only [Option.getD_some, mem_filter, OSet.mem_ofList, decide_eq_true_eq, filterMap_append,
    filterMap_cons, filterMap_nil, mem_append]
  rcases hs : startedTurn event with _ | started
  · rcases hf : finishedTurn event with _ | finished
    · simp [mem_pendingTurnsOf]
    · simp [mem_pendingTurnsOf, and_assoc]
  rw [finishedTurn_of_startedTurn hs]
  simp only [OSet.mem_add, OSet.mem_ofList, mem_pendingTurnsOf, mem_singleton, not_mem_nil, or_false]
  -- the started turn is new, so nothing before it can have finished it
  have hnew : started ∉ events.filterMap finishedTurn := by
    intro hfin
    have hdup := h.started_once
    rw [filterMap_append, filterMap_cons, hs, filterMap_nil, nodup_append] at hdup
    exact hdup.2.2 started (started_of_finished h.of_snoc hfin) started (by simp) rfl
  constructor
  · rintro (⟨h1, h2⟩ | rfl)
    · exact ⟨Or.inl h1, h2⟩
    · exact ⟨Or.inr rfl, hnew⟩
  · rintro ⟨h1 | rfl, h2⟩
    · exact Or.inl ⟨h1, h2⟩
    · exact Or.inr rfl

/-- The size of the lines of a timeline. -/
def totalBytes (lineBytes : LedgerEvent → Nat) (events : List LedgerEvent) : Nat := (events.map lineBytes).sum

private theorem applySummary_toSummary {s : SummaryState} {created : JsString} (hs : s.createdAt = some created)
    (hnot : isSessionCreated event = false) (lastSeq : Nat) (pending : List Nat) (bytes bytes' : Nat) :
    applySummary (some { s.toSummary sessionId with
        lastSeq := some lastSeq, pendingTurns := some pending, bytes := some bytes })
      sessionId event (events ++ [event]) bytes' =
    { (summarizeStep (events ++ [event]) s event events.length).toSummary sessionId with
      lastSeq := some event.seq, pendingTurns := some (pendingTurnsAfter (some pending) event),
      bytes := some bytes' } := by
  have hkeep : (summarizeStep (events ++ [event]) s event events.length).createdAt = some created := by
    unfold summarizeStep
    split
    · rename_i hb
      simp [isSessionCreated, hb] at hnot
    · exact hs
  simp only [applySummary, SummaryState.toSummary, hs, hkeep, Option.map_some, Option.bind_some, Option.getD_some,
    Option.some_or, length_append, length_singleton]
  rfl

private theorem applySummary_none (hc : isSessionCreated event = true) (bytes : Nat) :
    applySummary none sessionId event [event] bytes =
    { (summarizeStep [event] .initial event 0).toSummary sessionId with
      lastSeq := some event.seq, pendingTurns := some (pendingTurnsAfter (some []) event), bytes := some bytes } := by
  have hat : (summarizeStep [event] .initial event 0).createdAt = some event.at := by
    obtain ⟨e, hbody⟩ : ∃ e, event.body = .sessionCreated e := by
      unfold isSessionCreated at hc
      split at hc
      · exact ⟨_, ‹_›⟩
      · cases hc
    simp [summarizeStep, hbody]
  simp only [applySummary, SummaryState.toSummary, hat, Option.some_or, Option.getD_some]
  rfl

private theorem rebuiltSummary_snoc (bytes : Nat) :
    rebuiltSummary sessionId (events ++ [event]) bytes =
      some { summarize sessionId (events ++ [event]) with
             lastSeq := some event.seq, pendingTurns := some (pendingTurnsOf (events ++ [event])),
             bytes := some bytes } := by
  rw [rebuiltSummary, List.getLast?_concat]

private theorem incrementalSummary_eq (h : WellFormedTimeline events) :
    incrementalSummary sessionId lineBytes events =
    rebuiltSummary sessionId events (totalBytes lineBytes events) := by
  induction events using List.reverseRecOn with
  | nil => rfl
  | append_singleton events event ih =>
    rw [incrementalSummary_snoc, ih h.of_snoc, rebuiltSummary_snoc, summarize, summaryState_snoc]
    have hbytes : totalBytes lineBytes (events ++ [event]) = totalBytes lineBytes events + lineBytes event := by
      simp [totalBytes]
    rcases eq_nil_or_concat' events with rfl | ⟨before, last, rfl⟩
    · have hc := h.created_first event (by simp)
      rw [← pendingTurnsOf_snoc h.toOrderedTurns, hbytes]
      exact congrArg some (applySummary_none hc _)
    have hnot : isSessionCreated event = false := h.created_once event (by cases before <;> simp)
    obtain ⟨created, hcreated⟩ := Option.isSome_iff_exists.mp (createdAt_isSome h.of_snoc (by simp))
    rw [← pendingTurnsOf_snoc h.toOrderedTurns, hbytes, rebuiltSummary_snoc]
    exact congrArg some (applySummary_toSummary hcreated hnot _ _ _ _)

theorem WellFormedTimeline.take (h : WellFormedTimeline events) (n : Nat) : WellFormedTimeline (events.take n) where
  created_first e he := by
    apply h.created_first
    rw [List.head?_take] at he
    split at he
    · simp at he
    · exact he
  created_once e he := by
    apply h.created_once
    rw [← drop_one, drop_take] at he
    rw [← drop_one]
    exact mem_of_mem_take he
  started_once := h.started_once.sublist ((take_sublist n events).filterMap startedTurn)
  finished_after before e after he := by
    apply h.finished_after before e (after ++ events.drop n)
    rw [← cons_append, ← append_assoc, ← he, take_append_drop]

/-- The row maintained by the appends is the one recomputed from the timeline, after every prefix of it. -/
theorem incrementalSummary_take_eq (sessionId : JsString) (lineBytes : LedgerEvent → Nat) (events : List LedgerEvent)
    (h : WellFormedTimeline events) (n : Nat) : incrementalSummary sessionId lineBytes (events.take n) =
    rebuiltSummary sessionId (events.take n) (totalBytes lineBytes (events.take n)) :=
  incrementalSummary_eq (h.take n)

def oneTurnTimeline : List LedgerEvent :=
  [{ turn := none, step := none, seq := 1, «at» := js "2026-01-01T00:00:00.000Z",
     body := .sessionCreated
       { workspaceRoot := js "/w",
         snapshot := { takenAt := js "2026-01-01T00:00:00.000Z", deviceName := [], agents := [], memoryIndex := [],
                       builtinTasks := [], projects := [] } } },
    { turn := some 1, step := none, seq := 2, «at» := js "2026-01-01T00:00:01.000Z",
      body := .turnStarted
        { id := js "t1", text := js "hello", sender := none,
          model := { provider := js "p", model := js "m", reasoningEffort := none, fast := none, automatic := none,
                     autoSelected := none } } },
    { turn := some 1, step := none, seq := 3, «at» := js "2026-01-01T00:00:02.000Z",
      body := .turnFinished { id := js "t1", status := .completed, error := none } }]

theorem incrementalSummary_oneTurn :
    WellFormedTimeline oneTurnTimeline ∧ ∀ n, incrementalSummary (js "s") (fun _ => 100) (oneTurnTimeline.take n) =
      rebuiltSummary (js "s") (oneTurnTimeline.take n) (totalBytes (fun _ => 100) (oneTurnTimeline.take n)) := by
  have h : WellFormedTimeline oneTurnTimeline := by
    refine ⟨⟨by decide, ?_⟩, by decide, by decide⟩
    intro before event after he turn hturn
    rcases before with _ | ⟨a, _ | ⟨b, _ | ⟨c, rest⟩⟩⟩
    · simp only [oneTurnTimeline, List.nil_append, List.cons.injEq] at he
      rw [← he.1] at hturn
      cases hturn
    · simp only [oneTurnTimeline, List.cons_append, List.nil_append, List.cons.injEq] at he
      rw [← he.2.1] at hturn
      cases hturn
    · simp only [oneTurnTimeline, List.cons_append, List.nil_append, List.cons.injEq] at he
      rw [← he.2.2.1] at hturn
      rw [← he.1, ← he.2.1]
      exact Option.some.inj hturn ▸ by decide
    · simp [oneTurnTimeline] at he
  exact ⟨h, incrementalSummary_take_eq _ _ _ h⟩

end Wrenyard.Session
