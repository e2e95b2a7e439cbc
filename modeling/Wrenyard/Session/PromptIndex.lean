import Mathlib.Data.List.Induction
import Wrenyard.Session.Prompt

/-!
# The index of a timeline

What the first pass of `renderReasonContext` knows of a timeline (`Indexes`), and that reading on only adds to it
(`Extends`): the occurrences, the step markers and the resolved pairs of a timeline stay those of every longer one.
-/

namespace Wrenyard.Session

open Js List

def LedgerEvent.isActionStarted (event : LedgerEvent) : Bool :=
  match event.body with
  | .actionStarted _ => true
  | _ => false

def LedgerEvent.isReasoningCompleted (event : LedgerEvent) : Bool :=
  match event.body with
  | .reasoningCompleted _ => true
  | _ => false

def LedgerEvent.isStepStarted (event : LedgerEvent) : Bool :=
  match event.body with
  | .stepStarted _ => true
  | _ => false

/-- An `action.finished` that did not come after an interrupt. -/
def LedgerEvent.finish? (event : LedgerEvent) : Option ActionFinishedEvent :=
  match event.body with
  | .actionFinished f => if f.afterInterrupt = some true then none else some f
  | _ => none

def LedgerEvent.key (event : LedgerEvent) : JsString := stepKey event.turn event.step

theorem LedgerEvent.isActionStarted_iff {event : LedgerEvent} :
    event.isActionStarted = true ↔ ∃ a, event.body = .actionStarted a := by
  unfold isActionStarted
  split
  · rename_i a ha
    exact ⟨fun _ => ⟨a, ha⟩, fun _ => rfl⟩
  · rename_i hno
    exact ⟨fun h => absurd h Bool.false_ne_true, fun ⟨a, ha⟩ => absurd ha (hno a)⟩

theorem LedgerEvent.isStepStarted_iff {event : LedgerEvent} :
    event.isStepStarted = true ↔ ∃ s, event.body = .stepStarted s := by
  unfold isStepStarted
  split
  · rename_i s hs
    exact ⟨fun _ => ⟨s, hs⟩, fun _ => rfl⟩
  · rename_i hno
    exact ⟨fun h => absurd h Bool.false_ne_true, fun ⟨s, hs⟩ => absurd hs (hno s)⟩

namespace Occurrences

variable {o o' : Occurrences} {event : LedgerEvent} {events : List LedgerEvent}

@[simp] theorem add_next (o : Occurrences) (event : LedgerEvent) : (o.add event).next = o.next + 1 := by
  unfold add
  split <;> rfl

theorem add_starts (o : Occurrences) (event : LedgerEvent) :
    (event.isActionStarted = false ∧ (o.add event).starts = o.starts) ∨ ∃ a, event.body = .actionStarted a ∧
    (o.add event).starts = o.starts ++ [o.startOf event a] := by
  cases hb : event.body with
  | actionStarted a => exact .inr ⟨a, rfl, by rw [add, hb]⟩
  | _ => exact .inl ⟨by rw [LedgerEvent.isActionStarted, hb], by rw [add, hb]⟩

theorem add_stepStarts (o : Occurrences) (event : LedgerEvent) :
    (o.add event).stepStarts = if event.isStepStarted then o.stepStarts ++ [o.next] else o.stepStarts := by
  unfold add LedgerEvent.isStepStarted
  rcases event.body <;> rfl

theorem mem_add_completedSteps (o : Occurrences) (event : LedgerEvent) (key : JsString) :
    key ∈ (o.add event).completedSteps ↔ key ∈ o.completedSteps ∨
    (event.isReasoningCompleted = true ∧ event.key = key) := by
  unfold add LedgerEvent.isReasoningCompleted LedgerEvent.key
  rcases event.body <;> simp [eq_comm]

theorem add_pairs (o : Occurrences) (event : LedgerEvent) : (o.add event).resolved.pairs = o.resolved.pairs ∨
    ∃ start f, event.finish? = some f ∧ o.resolved.Holds start ∧ (o.add event).resolved.pairs =
    o.resolved.pairs ++ [(start, ⟨o.next, event, f⟩)] := by
  unfold add LedgerEvent.finish?
  rcases event.body <;> try exact .inl rfl
  · left
    dsimp only
    split
    · rfl
    · exact Fifo.Matching.opened_pairs ..
  · rename_i f
    dsimp only
    by_cases hi : f.afterInterrupt = some true
    · rw [if_pos hi]
      exact .inl rfl
    rw [if_neg hi, if_neg hi]
    split
    · exact .inl rfl
    rename_i key _
    rcases o.resolved.closed_pairs key ⟨o.next, event, f⟩ with hsame | ⟨start, hstart, hnew⟩
    · exact .inl hsame
    · exact .inr ⟨start, f, rfl, hstart, hnew⟩

theorem holds_add (o : Occurrences) (event : LedgerEvent) (start : StartOccurrence)
    (h : (o.add event).resolved.Holds start) :
    o.resolved.Holds start ∨ ∃ a, event.body = .actionStarted a ∧ start = o.startOf event a := by
  unfold add at h
  rcases hb : event.body <;> rw [hb] at h <;> try exact .inl h
  · rename_i a
    dsimp only at h
    split at h
    · exact .inl h
    · rcases Fifo.Matching.holds_opened.1 h with hold | hnew
      · exact .inl hold
      · exact .inr ⟨a, rfl, hnew⟩
  · left
    dsimp only at h
    split at h
    · exact h
    · split at h
      · exact h
      · exact Fifo.Matching.holds_closed.1 h

/-! ### A whole timeline -/

structure Indexes (o : Occurrences) (events : List LedgerEvent) : Prop where
  next : o.next = events.length
  completedSteps : ∀ key, key ∈ o.completedSteps ↔ ∃ e ∈ events, e.isReasoningCompleted = true ∧ e.key = key
  stepStarts : ∀ i, i ∈ o.stepStarts ↔ ∃ e, events[i]? = some e ∧ e.isStepStarted = true
  startIndexes : o.starts.Pairwise fun s t => s.index < t.index
  ofStart : ∀ s ∈ o.starts, ∃ e, events[s.index]? = some e ∧ e.isActionStarted = true ∧ s.key = e.key
  startOfEvent : ∀ i e, events[i]? = some e → e.isActionStarted = true → ∃ s ∈ o.starts, s.index = i
  held : ∀ s, o.resolved.Holds s → s ∈ o.starts
  distinct : o.resolved.Distinct
  ofPair : ∀ p ∈ o.resolved.pairs, p.1.index < p.2.index ∧ events[p.2.index]? = some p.2.event ∧
    p.2.event.finish? = some p.2.finished

private theorem getElem?_snoc {i : Nat} {e : LedgerEvent} :
    (events ++ [event])[i]? = some e ↔ events[i]? = some e ∨ (i = events.length ∧ e = event) := by
  rcases Nat.lt_trichotomy i events.length with hlt | rfl | hgt
  · rw [List.getElem?_append_left hlt]
    constructor
    · exact .inl
    · rintro (h | ⟨h, _⟩)
      · exact h
      · omega
  · simp [eq_comm]
  · rw [List.getElem?_eq_none (by simp; omega), List.getElem?_eq_none (by omega)]
    constructor
    · exact fun h => absurd h (by simp)
    · rintro (h | ⟨h, _⟩)
      · cases h
      · omega

private theorem lt_of_getElem? {i : Nat} {e : LedgerEvent} (h : events[i]? = some e) : i < events.length :=
  (List.getElem?_eq_some_iff.1 h).1

theorem indexes_empty : empty.Indexes [] where
  next := rfl
  completedSteps key := by simp [empty]
  stepStarts i := by simp [empty]
  startIndexes := List.Pairwise.nil
  ofStart s hs := by cases hs
  startOfEvent i e he := by simp at he
  held s hs := absurd hs (Fifo.Matching.not_holds_empty s)
  distinct := Fifo.Matching.distinct_empty
  ofPair p hp := by cases hp

variable (h : o.Indexes events)
include h

theorem Indexes.start_lt {s : StartOccurrence} (hs : s ∈ o.starts) : s.index < o.next := by
  obtain ⟨e, he, _⟩ := h.ofStart s hs
  rw [h.next]
  exact lt_of_getElem? he

theorem Indexes.finish_lt {p : StartOccurrence × FinishOccurrence}
    (hp : p ∈ o.resolved.pairs) : p.2.index < o.next := by
  rw [h.next]
  exact lt_of_getElem? (h.ofPair p hp).2.1

private theorem Indexes.distinct_add : (o.add event).resolved.Distinct := by
  unfold add
  split
  any_goals exact h.distinct
  · split
    · exact h.distinct
    · refine h.distinct.opened fun hheld => ?_
      have := h.start_lt (h.held _ hheld)
      exact Nat.lt_irrefl _ this
  · split
    · exact h.distinct
    split
    · exact h.distinct
    refine h.distinct.closed fun p hp heq => ?_
    have := h.finish_lt hp
    rw [heq] at this
    exact Nat.lt_irrefl _ this

theorem Indexes.add (event : LedgerEvent) : (o.add event).Indexes (events ++ [event]) where
  next := by rw [add_next, h.next, List.length_append, List.length_singleton]
  completedSteps key := by
    rw [mem_add_completedSteps, h.completedSteps]
    simp only [mem_append, mem_singleton, or_and_right, exists_or, exists_eq_left]
  stepStarts i := by
    simp only [getElem?_snoc, or_and_right, exists_or, ← h.stepStarts, add_stepStarts, ← h.next]
    split
    · rename_i hs
      rw [mem_append, mem_singleton]
      constructor
      · rintro (hold | hnew)
        · exact .inl hold
        · exact .inr ⟨event, ⟨hnew, rfl⟩, hs⟩
      · rintro (hold | ⟨e, ⟨hnew, _⟩, _⟩)
        · exact .inl hold
        · exact .inr hnew
    · rename_i hs
      constructor
      · exact .inl
      · rintro (hold | ⟨e, ⟨_, rfl⟩, he⟩)
        · exact hold
        · exact absurd he hs
  startIndexes := by
    rcases add_starts o event with ⟨_, hsame⟩ | ⟨a, _, hnew⟩
    · rw [hsame]
      exact h.startIndexes
    rw [hnew, pairwise_append]
    refine ⟨h.startIndexes, pairwise_singleton _ _, ?_⟩
    intro s hs t ht
    rw [mem_singleton] at ht
    rw [ht]
    exact h.start_lt hs
  ofStart s hs := by
    have hold : s ∈ o.starts → ∃ e, (events ++ [event])[s.index]? = some e ∧ e.isActionStarted = true ∧
        s.key = e.key := by
      intro hs
      obtain ⟨e, he, hrest⟩ := h.ofStart s hs
      exact ⟨e, getElem?_snoc.2 (.inl he), hrest⟩
    rcases add_starts o event with ⟨_, hsame⟩ | ⟨a, ha, hnew⟩
    · rw [hsame] at hs
      exact hold hs
    rw [hnew, mem_append, mem_singleton] at hs
    rcases hs with hs | rfl
    · exact hold hs
    · exact ⟨event, getElem?_snoc.2 (.inr ⟨h.next, rfl⟩), LedgerEvent.isActionStarted_iff.2 ⟨a, ha⟩, rfl⟩
  startOfEvent i e he hstart := by
    rcases add_starts o event with ⟨hno, hsame⟩ | ⟨a, _, hnew⟩
    · rw [hsame]
      rcases getElem?_snoc.1 he with hold | ⟨_, rfl⟩
      · exact h.startOfEvent i e hold hstart
      · rw [hstart] at hno
        cases hno
    · rw [hnew]
      rcases getElem?_snoc.1 he with hold | ⟨rfl, rfl⟩
      · obtain ⟨s, hs, hi⟩ := h.startOfEvent i e hold hstart
        exact ⟨s, mem_append_left _ hs, hi⟩
      · exact ⟨_, mem_append_right _ (mem_singleton.2 rfl), h.next⟩
  held s hs := by
    rcases holds_add o event s hs with hold | ⟨a, ha, rfl⟩
    · rcases add_starts o event with ⟨_, hsame⟩ | ⟨_, _, hnew⟩
      · rw [hsame]
        exact h.held s hold
      · rw [hnew]
        exact mem_append_left _ (h.held s hold)
    · rw [Occurrences.add.eq_def, ha]
      exact mem_append_right _ (mem_singleton.2 rfl)
  distinct := h.distinct_add
  ofPair p hp := by
    have hold : p ∈ o.resolved.pairs → p.1.index < p.2.index ∧ (events ++ [event])[p.2.index]? = some p.2.event ∧
        p.2.event.finish? = some p.2.finished := by
      intro hp
      obtain ⟨hlt, hevent, hfinish⟩ := h.ofPair p hp
      exact ⟨hlt, getElem?_snoc.2 (.inl hevent), hfinish⟩
    rcases add_pairs o event with hsame | ⟨start, f, hf, hstart, hnew⟩
    · rw [hsame] at hp
      exact hold hp
    rw [hnew, mem_append, mem_singleton] at hp
    rcases hp with hp | rfl
    · exact hold hp
    · exact ⟨h.start_lt (h.held start hstart), getElem?_snoc.2 (.inr ⟨h.next, rfl⟩), hf⟩

omit h

theorem ofEvents_snoc (events : List LedgerEvent) (event : LedgerEvent) :
    ofEvents (events ++ [event]) = (ofEvents events).add event := by
  rw [ofEvents, foldl_append]
  rfl

theorem indexes_ofEvents (events : List LedgerEvent) : (ofEvents events).Indexes events := by
  induction events using List.reverseRecOn with
  | nil => exact indexes_empty
  | append_singleton events event ih =>
    rw [ofEvents_snoc]
    exact ih.add event

/-- `o'` is `o` after it has read the events `more`: it has further occurrences, markers and pairs, all of them from
`o.next` on, and the steps completed in `more`. -/
structure Extends (o o' : Occurrences) (more : List LedgerEvent) : Prop where
  starts : ∃ new, o'.starts = o.starts ++ new ∧
    ∀ s ∈ new, o.next ≤ s.index ∧ ∃ e ∈ more, e.isActionStarted = true ∧ s.key = e.key
  stepStarts : ∃ new, o'.stepStarts = o.stepStarts ++ new ∧ ∀ i ∈ new, o.next ≤ i
  pairs : ∃ new, o'.resolved.pairs = o.resolved.pairs ++ new ∧ ∀ p ∈ new, o.next ≤ p.2.index
  completedSteps : ∀ key, key ∈ o'.completedSteps ↔
    key ∈ o.completedSteps ∨ ∃ e ∈ more, e.isReasoningCompleted = true ∧ e.key = key

theorem extends_nil (o : Occurrences) : o.Extends o [] where
  starts := ⟨[], (List.append_nil _).symm, fun s hs => by cases hs⟩
  stepStarts := ⟨[], (List.append_nil _).symm, fun i hi => by cases hi⟩
  pairs := ⟨[], (List.append_nil _).symm, fun p hp => by cases hp⟩
  completedSteps key := by simp

theorem Extends.add {more : List LedgerEvent} (h : o.Extends o' more) (hnext : o.next ≤ o'.next)
    (event : LedgerEvent) : o.Extends (o'.add event) (more ++ [event]) where
  starts := by
    obtain ⟨new, hstarts, hnew⟩ := h.starts
    have hmore : ∀ s ∈ new, o.next ≤ s.index ∧ ∃ e ∈ more ++ [event], e.isActionStarted = true ∧ s.key = e.key := by
      intro s hs
      obtain ⟨hle, e, he, hrest⟩ := hnew s hs
      exact ⟨hle, e, mem_append_left _ he, hrest⟩
    rcases add_starts o' event with ⟨_, hsame⟩ | ⟨a, ha, hadd⟩
    · exact ⟨new, hsame.trans hstarts, hmore⟩
    refine ⟨new ++ [o'.startOf event a], by rw [hadd, hstarts, append_assoc], ?_⟩
    intro s hs
    rcases mem_append.1 hs with hs | hs
    · exact hmore s hs
    · rw [mem_singleton.1 hs]
      exact ⟨hnext, event, mem_append_right _ (mem_singleton.2 rfl),
        LedgerEvent.isActionStarted_iff.2 ⟨a, ha⟩, rfl⟩
  stepStarts := by
    obtain ⟨new, hstarts, hnew⟩ := h.stepStarts
    rw [add_stepStarts]
    by_cases hs : event.isStepStarted = true
    · refine ⟨new ++ [o'.next], by rw [if_pos hs, hstarts, append_assoc], ?_⟩
      intro i hi
      rcases mem_append.1 hi with hi | hi
      · exact hnew i hi
      · rw [mem_singleton.1 hi]
        exact hnext
    · exact ⟨new, by rw [if_neg hs, hstarts], hnew⟩
  pairs := by
    obtain ⟨new, hpairs, hnew⟩ := h.pairs
    rcases add_pairs o' event with hsame | ⟨start, f, _, _, hadd⟩
    · exact ⟨new, hsame.trans hpairs, hnew⟩
    refine ⟨new ++ [(start, ⟨o'.next, event, f⟩)], by rw [hadd, hpairs, append_assoc], ?_⟩
    intro p hp
    rcases mem_append.1 hp with hp | hp
    · exact hnew p hp
    · rw [mem_singleton.1 hp]
      exact hnext
  completedSteps key := by
    rw [mem_add_completedSteps, h.completedSteps]
    simp only [mem_append, mem_singleton, or_and_right, exists_or, exists_eq_left, or_assoc]

theorem ofEvents_extends (events more : List LedgerEvent) :
    (ofEvents events).Extends (ofEvents (events ++ more)) more := by
  induction more using List.reverseRecOn with
  | nil =>
    rw [append_nil]
    exact extends_nil _
  | append_singleton more event ih =>
    rw [← append_assoc, ofEvents_snoc]
    refine ih.add ?_ event
    rw [(indexes_ofEvents events).next, (indexes_ofEvents (events ++ more)).next, length_append]
    omega

end Occurrences

end Wrenyard.Session
