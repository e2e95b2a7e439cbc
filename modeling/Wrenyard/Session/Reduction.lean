import Mathlib.Data.List.Induction
import Wrenyard.Session.Prompt

/-!
# Context reduction

`context/reduction.ts`: where the hot zone of a timeline starts, and the floor a reduction moves to.

`hotZoneStart` takes the newest suffix that fits the budget, aligns it to the start of a step, widens it to the
current turn and then, for every action that the boundary would separate from its result, back to the step that
started it.  What comes out is the latest place at which the zone may begin (`hotZoneStart_mayStart`,
`le_hotZoneStart`).
-/

namespace Wrenyard.Session

open Js List

def isContextEvent (event : LedgerEvent) : Bool :=
  match event.body with
  | .turnStarted _ | .turnSteered _ | .turnInterrupted _ | .stepStarted _ | .actionStarted _ | .actionFinished _
  | .reasoningThinking _ | .reasoningCompleted _ | .memoryRecalled _ | .documentFound _ | .documentContent _
  | .filesAttached _ | .workspaceChanged _ | .replySent _ | .systemNotice _ | .contextCompacted _ => true
  | _ => false

def isStepBoundary (event : LedgerEvent) : Bool :=
  match event.body with
  | .stepStarted _ | .turnStarted _ => true
  | _ => false

def isTurnStarted (event : LedgerEvent) : Bool :=
  match event.body with
  | .turnStarted _ => true
  | _ => false

/-- An `action.started` and the `action.finished` paired with it, by their places. -/
structure ActionPair where
  start : Nat
  /-- Absent when the action never finished. -/
  finish : Option Nat

structure PairScan where
  next : Nat
  starts : List Nat
  resolved : Fifo.Matching JsString Nat Nat

namespace PairScan

def empty : PairScan := ⟨0, [], .empty⟩

def add (scan : PairScan) (event : LedgerEvent) : PairScan :=
  match event.body with
  | .actionStarted a =>
    { next := scan.next + 1
      starts := scan.starts ++ [scan.next]
      resolved :=
        match occurrenceKey a.id event.turn event.step with
        | none => scan.resolved
        | some key => scan.resolved.opened key scan.next }
  | .actionFinished f =>
    { scan with
      next := scan.next + 1
      resolved :=
        match occurrenceKey f.id event.turn event.step with
        | none => scan.resolved
        | some key => scan.resolved.closed key scan.next }
  | _ => { scan with next := scan.next + 1 }

end PairScan

/-- One `action.started` and its `action.finished`, newest start first. -/
def actionPairs (events : List LedgerEvent) : List ActionPair :=
  let scan := events.foldl PairScan.add .empty
  scan.starts.reverse.map fun start => ⟨start, (scan.resolved.pairs.find? (·.1 == start)).map Prod.snd⟩

/-- The nearest step or turn start at or before a place; `index` itself if there is none. -/
def stepBoundaryAtOrBefore (events : List LedgerEvent) (index : Nat) : Nat → Nat
  | 0 => if events[0]?.any isStepBoundary then 0 else index
  | place + 1 =>
    if events[place + 1]?.any isStepBoundary then place + 1 else stepBoundaryAtOrBefore events index place

section

variable {α : Type} [Zero α] [Add α] [LT α] [DecidableLT α]

/-- The newest suffix that fits the budget; the events come newest first. -/
def budgetStart (size : LedgerEvent → α) (budget : α) : List LedgerEvent → α → Nat → Nat
  | [], _, start => start
  | event :: events, total, start =>
    if budget < total + size event then start
    else budgetStart size budget events (total + size event) (start - 1)

def alignStart : List LedgerEvent → Nat → Option Nat
  | [], _ => none
  | event :: events, place => if isStepBoundary event then some place else alignStart events (place + 1)

/-- The place of the last `turn.started`; the events come newest first. -/
def currentTurnStart : List LedgerEvent → Option Nat
  | [] => none
  | event :: events => if isTurnStarted event then some events.length else currentTurnStart events

def latestStart (events : List LedgerEvent) (size : LedgerEvent → α) (budget : α) : Nat :=
  let fits := budgetStart size budget events.reverse 0 events.length
  let aligned := (alignStart (events.drop fits) fits).getD fits
  match currentTurnStart events.reverse with
  | none => aligned
  | some turn => min aligned turn

def widen (events : List LedgerEvent) (start : Nat) (pair : ActionPair) : Nat :=
  if start ≤ pair.start then start
  else if pair.finish.any (· < start) then start
  else min start (stepBoundaryAtOrBefore events pair.start pair.start)

/-- `hotZoneStart`, over sizes and a budget of any kind of number. -/
def hotZoneStart (events : List LedgerEvent) (size : LedgerEvent → α) (budget : α) : Nat :=
  (actionPairs events).foldl (widen events) (latestStart events size budget)

end

/-! ### Where the zone may begin -/

def ActionPair.Straddles (pair : ActionPair) (place : Nat) : Prop :=
  pair.start < place ∧ ∀ finish ∈ pair.finish, place ≤ finish

/-- A place the zone can begin at: the latest one, the start of a step or a turn, or an action before every step. -/
def IsStart (events : List LedgerEvent) (latest place : Nat) : Prop :=
  place = latest ∨ events[place]?.any isStepBoundary = true ∨
    (∃ pair ∈ actionPairs events, pair.start = place) ∧ ∀ i ≤ place, events[i]?.any isStepBoundary = false

structure MayStart (events : List LedgerEvent) (latest place : Nat) : Prop where
  le : place ≤ latest
  isStart : IsStart events latest place
  together : ∀ pair ∈ actionPairs events, ¬ pair.Straddles place

variable (events : List LedgerEvent)

theorem stepBoundaryAtOrBefore_spec (index place : Nat) (hle : place ≤ index)
    (hnone : ∀ i, place < i → i ≤ index → events[i]?.any isStepBoundary = false) :
    (events[stepBoundaryAtOrBefore events index place]?.any isStepBoundary = true ∧
      stepBoundaryAtOrBefore events index place ≤ index ∧
      ∀ i, stepBoundaryAtOrBefore events index place < i → i ≤ index → events[i]?.any isStepBoundary = false) ∨
    stepBoundaryAtOrBefore events index place = index ∧ ∀ i ≤ index, events[i]?.any isStepBoundary = false := by
  induction place with
  | zero =>
    unfold stepBoundaryAtOrBefore
    split
    · rename_i h
      exact Or.inl ⟨h, Nat.zero_le _, hnone⟩
    rename_i h
    refine Or.inr ⟨rfl, fun i hi => ?_⟩
    rcases Nat.eq_zero_or_pos i with rfl | hpos
    · exact Bool.eq_false_iff.mpr h
    · exact hnone i hpos hi
  | succ place ih =>
    unfold stepBoundaryAtOrBefore
    split
    · rename_i h
      exact Or.inl ⟨h, hle, hnone⟩
    rename_i h
    refine ih (by omega) fun i hi hi' => ?_
    rcases Nat.lt_or_eq_of_le (Nat.succ_le_of_lt hi) with hlt | rfl
    · exact hnone i hlt hi'
    · exact Bool.eq_false_iff.mpr h

private theorem starts_lt : (events.foldl PairScan.add .empty).starts.Pairwise (· < ·) ∧
    ∀ i ∈ (events.foldl PairScan.add .empty).starts, i < (events.foldl PairScan.add .empty).next := by
  induction events using List.reverseRecOn with
  | nil => exact ⟨List.Pairwise.nil, by simp [PairScan.empty]⟩
  | append_singleton events event ih =>
    rw [foldl_append, foldl_cons, foldl_nil]
    obtain ⟨hsorted, hlt⟩ := ih
    unfold PairScan.add
    split
    · refine ⟨pairwise_append.mpr ⟨hsorted, pairwise_singleton _ _, ?_⟩, ?_⟩
      · intro i hi j hj
        rw [mem_singleton.mp hj]
        exact hlt i hi
      · intro i hi
        rcases mem_append.mp hi with hi | hi
        · exact Nat.lt_succ_of_lt (hlt i hi)
        · rw [mem_singleton.mp hi]
          exact Nat.lt_succ_self _
    · exact ⟨hsorted, fun i hi => Nat.lt_succ_of_lt (hlt i hi)⟩
    · exact ⟨hsorted, fun i hi => Nat.lt_succ_of_lt (hlt i hi)⟩

theorem actionPairs_sorted :
    (actionPairs events).Pairwise fun pair pair' => pair'.start < pair.start := by
  unfold actionPairs
  rw [pairwise_map, pairwise_reverse]
  exact (starts_lt events).1

private theorem foldl_widen_spec (latest : Nat) (pairs visited : List ActionPair)
    (start : Nat) (hpairs : actionPairs events = visited ++ pairs) (hle : start ≤ latest)
    (hstart : IsStart events latest start) (hvisited : ∀ pair ∈ visited, ¬ pair.Straddles start)
    (hgreatest : ∀ place, MayStart events latest place → place ≤ start) :
    MayStart events latest (pairs.foldl (widen events) start) ∧ ∀ place, MayStart events latest place → place ≤
    pairs.foldl (widen events) start := by
  induction pairs generalizing visited start with
  | nil =>
    rw [append_nil] at hpairs
    exact ⟨⟨hle, hstart, hpairs ▸ hvisited⟩, hgreatest⟩
  | cons pair pairs ih =>
    have hpairs' : actionPairs events = (visited ++ [pair]) ++ pairs := by simpa using hpairs
    have hmem : pair ∈ actionPairs events := by simp [hpairs]
    rw [foldl_cons]
    by_cases hstraddles : pair.Straddles start
    · -- the boundary moves to the step that started this action, the newest one that straddles it
      obtain ⟨hlt, hfinish⟩ := hstraddles
      have hspec := stepBoundaryAtOrBefore_spec events pair.start pair.start (Nat.le_refl _)
          (fun i hi hi' => by omega)
      have hwiden : widen events start pair = stepBoundaryAtOrBefore events pair.start pair.start := by
        have hany : pair.finish.any (· < start) = false := by
          cases hf : pair.finish with
          | none => rfl
          | some finish => simpa using hfinish finish hf
        unfold widen
        rw [if_neg (by omega), hany]
        rcases hspec with ⟨-, hle', -⟩ | ⟨heq, -⟩
        all_goals
          simp only [Bool.false_eq_true, if_false]
          omega
      rw [hwiden]
      generalize stepBoundaryAtOrBefore events pair.start pair.start = start' at hspec ⊢
      refine ih (visited ++ [pair]) start' hpairs' (by omega) ?_ ?_ ?_
      · rcases hspec with ⟨hboundary, -, -⟩ | ⟨heq, hnone⟩
        · exact Or.inr (Or.inl hboundary)
        · exact Or.inr (Or.inr ⟨⟨pair, hmem, heq.symm⟩, fun i hi => hnone i (by omega)⟩)
      · intro other hother hstraddles'
        have hnewer : pair.start ≤ other.start := by
          rcases mem_append.mp hother with hother | hother
          · have hsorted := actionPairs_sorted events
            rw [hpairs, pairwise_append] at hsorted
            exact (hsorted.2.2 other hother pair (mem_cons_self ..)).le
          · rw [mem_singleton.mp hother]
        have := hstraddles'.1
        omega
      · intro place hplace
        have hplace' := hgreatest place hplace
        have hnot := hplace.together pair hmem
        -- between the step and the old boundary every place separates this action from its result
        have hbefore : place ≤ pair.start := by
          by_contra hafter
          exact hnot ⟨by omega, fun finish hf => (hplace'.trans (hfinish finish hf))⟩
        by_contra hgt
        rcases hplace.isStart with heq | hboundary | ⟨-, hfree⟩
        · omega
        · rcases hspec with ⟨-, -, hnone⟩ | ⟨heq, -⟩
          · rw [hnone place (by omega) hbefore] at hboundary
            cases hboundary
          · omega
        rcases hspec with ⟨hboundary, -, -⟩ | ⟨heq, -⟩
        · rw [hfree start' (by omega)] at hboundary
          cases hboundary
        · omega
    · have hwiden : widen events start pair = start := by
        unfold widen
        split
        · rfl
        have hany : pair.finish.any (· < start) = true := by
          by_contra hany
          refine hstraddles ⟨by omega, fun finish hf => ?_⟩
          by_contra hgt
          exact hany (by rw [Option.mem_def.mp hf]; simpa using by omega)
        rw [if_pos hany]
      rw [hwiden]
      refine ih (visited ++ [pair]) start hpairs' hle hstart ?_ hgreatest
      intro other hother
      rcases mem_append.mp hother with hother | hother
      · exact hvisited other hother
      · rw [mem_singleton.mp hother]
        exact hstraddles

section

variable {α : Type} [Zero α] [Add α] [LT α] [DecidableLT α] (events : List LedgerEvent) (size : LedgerEvent → α)
  (budget : α)

private theorem hotZoneStart_spec : MayStart events (latestStart events size budget)
    (hotZoneStart events size budget) ∧
    ∀ place, MayStart events (latestStart events size budget) place → place ≤ hotZoneStart events size budget :=
  foldl_widen_spec events (latestStart events size budget) (actionPairs events) [] _ rfl (Nat.le_refl _) (Or.inl rfl)
    (by simp) fun _ h => h.le

theorem hotZoneStart_mayStart : MayStart events (latestStart events size budget) (hotZoneStart events size budget) :=
  (hotZoneStart_spec events size budget).1

theorem le_hotZoneStart {place : Nat} (h : MayStart events (latestStart events size budget) place) :
    place ≤ hotZoneStart events size budget :=
  (hotZoneStart_spec events size budget).2 place h

end

def compactionFloor (event : LedgerEvent) : Option Nat :=
  match event.body with
  | .contextCompacted c => some c.throughSeq
  | _ => none

def recordedFloor (event : LedgerEvent) : Option Nat :=
  match event.body with
  | .contextCompacted c => some c.throughSeq
  | .contextReduced r => some r.throughSeq
  | _ => none

/-- The highest sequence an earlier compaction or reduction already covered. -/
def previousFloor (events : List LedgerEvent) : Nat :=
  (events.filterMap recordedFloor).foldl (fun floor throughSeq => if floor < throughSeq then throughSeq else floor) 0

private theorem le_foldl_floor (floors : List Nat) (floor : Nat) :
    floor ≤ floors.foldl (fun floor throughSeq => if floor < throughSeq then throughSeq else floor) floor ∧
      ∀ f ∈ floors, f ≤ floors.foldl (fun floor throughSeq => if floor < throughSeq then throughSeq
        else floor) floor := by
  induction floors generalizing floor with
  | nil => exact ⟨Nat.le_refl _, by simp⟩
  | cons f floors ih =>
    obtain ⟨hle, hall⟩ := ih (if floor < f then f else floor)
    have hmax : floor ≤ (if floor < f then f else floor) ∧ f ≤ (if floor < f then f else floor) := by
      split <;> omega
    refine ⟨hmax.1.trans hle, fun g hg => ?_⟩
    rcases mem_cons.mp hg with rfl | hg
    · exact hmax.2.trans hle
    · exact hall g hg

theorem le_previousFloor {events : List LedgerEvent} {floor : Nat} (h : floor ∈ events.filterMap recordedFloor) :
    floor ≤ previousFloor events :=
  (le_foldl_floor _ 0).2 floor h

structure ReductionPlan where
  throughSeq : Nat
  releasedTokens : Int
deriving DecidableEq

section

variable (encodeLength : JsString → Nat)

def contextText (reduced : Bool) (event : LedgerEvent) : JsString :=
  match event.body with
  | .contextCompacted c => renderCompactionBlock c
  | _ => (renderEventText encodeLength reduced event).getD []

def contextTokens (reduced : Bool) (event : LedgerEvent) : Nat :=
  estimateTokens encodeLength (contextText encodeLength reduced event)

def computeReduction (events : List LedgerEvent) (threshold : Int) : Option ReductionPlan :=
  if threshold ≤ 0 then none
  else
    let floor := previousFloor events
    let contextEvents := events.filter fun event => decide (floor < event.seq) && isContextEvent event
    let size := fun event => (contextTokens encodeLength false event : Int)
    let cold := contextEvents.take (hotZoneStart contextEvents size (threshold / 4))
    match cold.getLast? with
    | none => none
    | some last =>
      let released : Int := (cold.map fun event =>
        (contextTokens encodeLength false event : Int) - contextTokens encodeLength true event).sum
      if last.seq ≤ floor ∨ released ≤ 0 then none else some ⟨last.seq, released⟩

theorem computeReduction_above {events : List LedgerEvent} {threshold : Int} {plan : ReductionPlan}
    (h : computeReduction encodeLength events threshold = some plan) :
    ∀ floor ∈ events.filterMap recordedFloor, floor < plan.throughSeq := by
  intro floor hfloor
  have hle := le_previousFloor hfloor
  unfold computeReduction at h
  split at h
  · cases h
  dsimp only at h
  split at h
  · cases h
  split at h <;> cases h
  dsimp only
  omega

end

end Wrenyard.Session
