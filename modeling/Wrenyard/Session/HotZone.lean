import Wrenyard.Session.PromptIndex
import Wrenyard.Session.Reduction

/-!
# The boundary of the hot zone

`hotZoneStart` of `context/reduction.ts`, over sizes and a budget of any kind of number.  Whatever suffix fits the
budget, a timeline with a turn has its zone begin at the start of a step or a turn, no later than its current turn,
and between no action and its result (`hotZoneStart_boundary`).
-/

namespace Wrenyard.Session

open Js List

/-! ### Pairs -/

def StartsAt (events : List LedgerEvent) (key : JsString) (place : Nat) : Prop :=
  ∃ event a, events[place]? = some event ∧ event.body = .actionStarted a ∧
    occurrenceKey a.id event.turn event.step = some key

def FinishesAt (events : List LedgerEvent) (key : JsString) (place : Nat) : Prop :=
  ∃ event f, events[place]? = some event ∧ event.body = .actionFinished f ∧
    occurrenceKey f.id event.turn event.step = some key

structure Scanned (events : List LedgerEvent) (scan : PairScan) : Prop where
  next : scan.next = events.length
  starts : ∀ i, i ∈ scan.starts ↔ events[i]?.any LedgerEvent.isActionStarted = true
  waiting : ∀ key i, i ∈ scan.resolved.waiting key → StartsAt events key i
  pairs : ∀ p ∈ scan.resolved.pairs, p.1 < p.2 ∧ ∃ key, StartsAt events key p.1 ∧ FinishesAt events key p.2

variable {events : List LedgerEvent} {event : LedgerEvent} {key : JsString} {place : Nat}

private theorem getElem?_append_of_some (h : events[place]? = some event) (rest : List LedgerEvent) :
    (events ++ rest)[place]? = some event := by
  obtain ⟨hlt, -⟩ := List.getElem?_eq_some_iff.mp h
  rw [List.getElem?_append_left hlt, h]

theorem StartsAt.append (h : StartsAt events key place) (rest : List LedgerEvent) :
    StartsAt (events ++ rest) key place := by
  obtain ⟨e, a, he, hbody, hkey⟩ := h
  exact ⟨e, a, getElem?_append_of_some he rest, hbody, hkey⟩

theorem FinishesAt.append (h : FinishesAt events key place) (rest : List LedgerEvent) :
    FinishesAt (events ++ rest) key place := by
  obtain ⟨e, f, he, hbody, hkey⟩ := h
  exact ⟨e, f, getElem?_append_of_some he rest, hbody, hkey⟩

theorem StartsAt.lt (h : StartsAt events key place) : place < events.length := by
  obtain ⟨e, a, he, -, -⟩ := h
  exact (List.getElem?_eq_some_iff.mp he).1

private theorem any_append_singleton (p : LedgerEvent → Bool) (i : Nat) :
    (events ++ [event])[i]?.any p = true ↔ events[i]?.any p = true ∨ (i = events.length ∧ p event = true) := by
  by_cases hlt : i < events.length
  · rw [List.getElem?_append_left hlt]
    have hne : i ≠ events.length := by omega
    simp [hne]
  have hnone : events[i]? = none := List.getElem?_eq_none (by omega)
  rw [List.getElem?_append_right (by omega), hnone]
  by_cases heq : i = events.length
  · simp [heq]
  · have hnone' : [event][i - events.length]? = none := List.getElem?_eq_none (by simp; omega)
    rw [hnone']
    simp [heq]

theorem scanned (events : List LedgerEvent) : Scanned events (events.foldl PairScan.add .empty) := by
  induction events using List.reverseRecOn with
  | nil =>
    refine ⟨rfl, ?_, ?_, ?_⟩
    · intro i
      simp [PairScan.empty]
    · intro key i hi
      cases hi
    · intro p hp
      cases hp
  | append_singleton events event ih =>
    rw [foldl_append, foldl_cons, foldl_nil]
    generalize events.foldl PairScan.add .empty = scan at ih ⊢
    have hlast : (events ++ [event])[scan.next]? = some event := by
      rw [ih.next, List.getElem?_append_right (Nat.le_refl _)]
      simp
    have hpairs : ∀ p ∈ scan.resolved.pairs, p.1 < p.2 ∧
        ∃ key, StartsAt (events ++ [event]) key p.1 ∧ FinishesAt (events ++ [event]) key p.2 := by
      intro p hp
      obtain ⟨hlt, key, hs, hf⟩ := ih.pairs p hp
      exact ⟨hlt, key, hs.append _, hf.append _⟩
    have hwaiting : ∀ key i, i ∈ scan.resolved.waiting key → StartsAt (events ++ [event]) key i :=
      fun key i hi => (ih.waiting key i hi).append _
    have hother (hstarted : event.isActionStarted = false) (i : Nat) :
        i ∈ scan.starts ↔ (events ++ [event])[i]?.any LedgerEvent.isActionStarted = true := by
      rw [any_append_singleton, ih.starts i, hstarted]
      simp
    unfold PairScan.add
    cases hbody : event.body with
    | actionStarted a =>
      have hstarted : event.isActionStarted = true := by
        unfold LedgerEvent.isActionStarted
        rw [hbody]
      refine ⟨by simp [ih.next], ?_, ?_, ?_⟩
      · intro i
        rw [any_append_singleton, mem_append, mem_singleton, ih.starts i, ih.next, hstarted]
        simp
      · intro key i hi
        dsimp only at hi
        cases hkey : occurrenceKey a.id event.turn event.step <;> rw [hkey] at hi
        case none => exact hwaiting key i hi
        case some key' =>
          rcases Fifo.Matching.mem_opened.mp hi with hi | ⟨rfl, rfl⟩
          · exact hwaiting key i hi
          · exact ⟨event, a, hlast, hbody, hkey⟩
      · intro p hp
        dsimp only at hp
        split at hp <;> exact hpairs p hp
    | actionFinished f =>
      have hstarted : event.isActionStarted = false := by
        unfold LedgerEvent.isActionStarted
        rw [hbody]
      refine ⟨by simp [ih.next], hother hstarted, ?_, ?_⟩
      · intro key i hi
        dsimp only at hi
        split at hi
        · exact hwaiting key i hi
        · exact hwaiting key i (Fifo.Matching.mem_closed_waiting hi)
      · intro p hp
        dsimp only at hp
        split at hp
        · exact hpairs p hp
        rename_i key hkey
        rcases Fifo.Matching.mem_closed_pairs hp with hp | ⟨hwaits, heq⟩
        · exact hpairs p hp
        have hs := ih.waiting key p.1 hwaits
        refine ⟨?_, key, hs.append _, ?_⟩
        · rw [heq, ih.next]
          exact hs.lt
        · rw [heq]
          exact ⟨event, f, hlast, hbody, hkey⟩
    | _ =>
      have hstarted : event.isActionStarted = false := by
        unfold LedgerEvent.isActionStarted
        rw [hbody]
      exact ⟨by simp [ih.next], hother hstarted, hwaiting, hpairs⟩

/-- A pair is an action and, where it has one, its later result of the same id, turn and step. -/
theorem actionPairs_sound {pair : ActionPair} (h : pair ∈ actionPairs events) :
    events[pair.start]?.any LedgerEvent.isActionStarted = true ∧ ∀ finish, pair.finish = some finish →
    pair.start < finish ∧
    ∃ key, StartsAt events key pair.start ∧ FinishesAt events key finish := by
  have hscan := scanned events
  obtain ⟨start, hstart, rfl⟩ := mem_map.mp h
  refine ⟨(hscan.starts start).mp (mem_reverse.mp hstart), ?_⟩
  intro finish hfinish
  obtain ⟨p, hp, rfl⟩ := Option.map_eq_some_iff.mp hfinish
  have heq : p.1 = start := by simpa using List.find?_some hp
  rw [← heq]
  exact hscan.pairs p (mem_of_find?_eq_some hp)

/-- Every action is in a pair. -/
theorem exists_actionPair (h : events[place]?.any LedgerEvent.isActionStarted = true) :
    ∃ pair ∈ actionPairs events, pair.start = place := by
  refine ⟨_, mem_map.mpr ⟨place, mem_reverse.mpr ((scanned events).starts place |>.mpr h), rfl⟩, rfl⟩

theorem alignStart_spec (l : List LedgerEvent) (place : Nat) :
    (∃ i, alignStart l place = some (place + i) ∧ l[i]?.any isStepBoundary = true) ∨
    (alignStart l place = none ∧ ∀ i : Nat, l[i]?.any isStepBoundary = false) := by
  induction l generalizing place with
  | nil => exact Or.inr ⟨rfl, fun i => by simp⟩
  | cons event l ih =>
    unfold alignStart
    split
    · rename_i h
      exact Or.inl ⟨0, rfl, by simpa using h⟩
    rename_i h
    rcases ih (place + 1) with ⟨i, heq, hi⟩ | ⟨heq, hnone⟩
    · exact Or.inl ⟨i + 1, by rw [heq]; congr 1; omega, by simpa using hi⟩
    refine Or.inr ⟨heq, ?_⟩
    intro i
    cases i with
    | zero => simpa using h
    | succ i => simpa using hnone i

/-- The current turn starts at the last `turn.started`. -/
theorem currentTurnStart_spec (events : List LedgerEvent) :
    (∃ turn, currentTurnStart events.reverse = some turn ∧ events[turn]?.any isTurnStarted = true ∧
      ∀ i, turn < i → events[i]?.any isTurnStarted = false) ∨
    (currentTurnStart events.reverse = none ∧ ∀ i : Nat, events[i]?.any isTurnStarted = false) := by
  induction events using List.reverseRecOn with
  | nil => exact Or.inr ⟨rfl, fun i => by simp⟩
  | append_singleton events event ih =>
    rw [reverse_append, reverse_singleton, singleton_append]
    unfold currentTurnStart
    split
    · rename_i h
      rw [length_reverse]
      refine Or.inl ⟨events.length, rfl, ?_, ?_⟩
      · rw [any_append_singleton]
        exact Or.inr ⟨rfl, h⟩
      · intro i hi
        rw [List.getElem?_eq_none (by simp; omega)]
        rfl
    · rename_i h
      have hsame : ∀ i : Nat, (events ++ [event])[i]?.any isTurnStarted = events[i]?.any isTurnStarted := by
        intro i
        rw [Bool.eq_iff_iff, any_append_singleton]
        simp [h]
      simp only [hsame]
      exact ih

theorem isStepBoundary_of_isTurnStarted (h : isTurnStarted event = true) : isStepBoundary event = true := by
  unfold isTurnStarted at h
  unfold isStepBoundary
  cases hbody : event.body <;> rw [hbody] at h <;> first | rfl | cases h

section

variable {α : Type} [Zero α] [Add α] [LT α] [DecidableLT α] (size : LedgerEvent → α) (budget : α)

/-- With a turn, the latest place is the start of a step or a turn. -/
theorem latestStart_boundary {turn : Nat} (hturn : currentTurnStart events.reverse = some turn)
    (hstarted : events[turn]?.any isTurnStarted = true) : latestStart events size budget ≤ turn ∧
    events[latestStart events size budget]?.any isStepBoundary = true := by
  have hboundary : events[turn]?.any isStepBoundary = true := by
    rw [Option.any_eq_true] at hstarted ⊢
    obtain ⟨event, he, h⟩ := hstarted
    exact ⟨event, he, isStepBoundary_of_isTurnStarted h⟩
  unfold latestStart
  rw [hturn]
  dsimp only
  generalize budgetStart size budget events.reverse 0 events.length = fits
  refine ⟨Nat.min_le_right _ _, ?_⟩
  rcases Nat.le_total turn ((alignStart (events.drop fits) fits).getD fits) with hle | hle
  · rw [Nat.min_eq_right hle]
    exact hboundary
  rw [Nat.min_eq_left hle]
  rcases alignStart_spec (events.drop fits) fits with ⟨i, heq, hi⟩ | ⟨heq, hnone⟩
  · rw [heq, Option.getD_some]
    rwa [List.getElem?_drop] at hi
  -- the current turn itself lies behind the suffix that fits
  rw [heq, Option.getD_none] at hle
  have := hnone (turn - fits)
  rw [List.getElem?_drop, Nat.add_sub_cancel' hle, hboundary] at this
  cases this

/-- The hot zone of a timeline with a turn begins at the start of a step or a turn, or at an action before every one,
no later than the current turn, and separates no action from its result. -/
theorem hotZoneStart_boundary (events : List LedgerEvent) (h : ∃ event ∈ events, isTurnStarted event = true) :
    (∃ turn, events[turn]?.any isTurnStarted = true ∧ (∀ i, turn < i → events[i]?.any isTurnStarted = false) ∧
      hotZoneStart events size budget ≤ turn) ∧
    (events[hotZoneStart events size budget]?.any isStepBoundary = true ∨
      (events[hotZoneStart events size budget]?.any LedgerEvent.isActionStarted = true ∧
        ∀ i ≤ hotZoneStart events size budget, events[i]?.any isStepBoundary = false)) ∧
    (∀ pair ∈ actionPairs events, ∀ finish, pair.finish = some finish →
      ¬ (pair.start < hotZoneStart events size budget ∧ hotZoneStart events size budget ≤ finish)) ∧
    (∀ i, events[i]?.any LedgerEvent.isActionStarted = true →
      (∀ finish, (⟨i, some finish⟩ : ActionPair) ∉ actionPairs events) →
      hotZoneStart events size budget ≤ i) := by
  obtain ⟨turn, hturn, hstarted, hlast⟩ | ⟨-, hnone⟩ := currentTurnStart_spec events
  · obtain ⟨hle, hboundary⟩ := latestStart_boundary size budget hturn hstarted
    have hstart := hotZoneStart_mayStart events size budget
    generalize hotZoneStart events size budget = r at hstart ⊢
    refine ⟨⟨turn, hstarted, hlast, hstart.le.trans hle⟩, ?_, ?_, ?_⟩
    · rcases hstart.isStart with rfl | hr | ⟨⟨pair, hpair, rfl⟩, hfree⟩
      · exact Or.inl hboundary
      · exact Or.inl hr
      · exact Or.inr ⟨(actionPairs_sound hpair).1, hfree⟩
    · rintro pair hpair finish hfinish ⟨hlt, hge⟩
      apply hstart.together pair hpair
      refine ⟨hlt, ?_⟩
      intro finish' hfinish'
      rw [hfinish] at hfinish'
      obtain rfl := Option.some.inj hfinish'
      exact hge
    · intro i hi hunpaired
      obtain ⟨pair, hpair, rfl⟩ := exists_actionPair hi
      by_contra hlt
      apply hstart.together pair hpair
      refine ⟨by omega, ?_⟩
      intro finish hfinish
      exfalso
      apply hunpaired finish
      rw [← Option.mem_def.mp hfinish]
      exact hpair
  · obtain ⟨event, hmem, hstarted⟩ := h
    obtain ⟨i, hi⟩ := List.getElem?_of_mem hmem
    have := hnone i
    rw [hi, Option.any_some, hstarted] at this
    cases this

end

/-- Two turns: the first action of the first ends in its second step, the last one stays open. -/
def twoTurns : List LedgerEvent :=
  [⟨⟨some 1, none, .turnStarted ⟨js "t1", js "go", ⟨js "p", js "m", none, none, none, none⟩, none⟩⟩, 1, js "0"⟩,
    ⟨⟨some 1, some 1, .stepStarted ⟨js "t1.1", js "t1", js "m", none, none⟩⟩, 2, js "0"⟩,
    ⟨⟨some 1, some 1, .actionStarted ⟨js "a", js "t1.1", .search, js "x", none, none⟩⟩, 3, js "0"⟩,
    ⟨⟨some 1, some 2, .stepStarted ⟨js "t1.2", js "t1", js "m", none, none⟩⟩, 4, js "0"⟩,
    ⟨⟨some 1, some 1, .actionFinished ⟨js "a", .search, .done, js "z", none, none, none, none⟩⟩, 5, js "0"⟩,
    ⟨⟨some 1, some 2, .actionStarted ⟨js "b", js "t1.2", .dispatch, js "y", none, none⟩⟩, 6, js "0"⟩,
    ⟨⟨some 2, none, .turnStarted ⟨js "t2", js "on", ⟨js "p", js "m", none, none, none, none⟩, none⟩⟩, 7, js "0"⟩]

/-- The open action moves the zone from the second turn to its step, and the result of the first action to the step
before. -/
theorem hotZoneStart_boundary_twoTurns : ∃ r, hotZoneStart twoTurns (fun _ => (3 : Int)) 4 = r ∧ r = 1 ∧
    (∃ turn, twoTurns[turn]?.any isTurnStarted = true ∧ (∀ i, turn < i → twoTurns[i]?.any isTurnStarted = false) ∧
      r ≤ turn) ∧
    (twoTurns[r]?.any isStepBoundary = true ∨ (twoTurns[r]?.any LedgerEvent.isActionStarted = true ∧
      ∀ i ≤ r, twoTurns[i]?.any isStepBoundary = false)) ∧
    (⟨2, some 4⟩ ∈ actionPairs twoTurns ∧ ¬ (2 < r ∧ r ≤ 4)) ∧ ⟨5, none⟩ ∈ actionPairs twoTurns ∧ r ≤ 5 := by
  have hpairs : actionPairs twoTurns = [⟨5, none⟩, ⟨2, some 4⟩] := rfl
  have hpair : ⟨2, some 4⟩ ∈ actionPairs twoTurns := mem_cons_of_mem _ mem_cons_self
  obtain ⟨hturn, hboundary, htogether, hunpaired⟩ :=
    hotZoneStart_boundary (fun _ => (3 : Int)) 4 twoTurns ⟨_, mem_cons_self, rfl⟩
  refine ⟨_, rfl, by decide, hturn, hboundary, ⟨hpair, htogether ⟨2, some 4⟩ hpair 4 rfl⟩, mem_cons_self,
    hunpaired 5 rfl ?_⟩
  intro finish hmem
  rw [hpairs] at hmem
  simp at hmem

end Wrenyard.Session
