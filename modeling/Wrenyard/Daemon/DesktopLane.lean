import Mathlib.Data.List.Count
import Mathlib.Data.List.Nodup
import Mathlib.Data.List.Pairwise
import Mathlib.Data.List.TakeWhile
import Mathlib.Data.List.Induction
import Wrenyard.Js.Text

/-!
# The desktop lane

`DesktopLane` hands one desktop to one owner at a time.  An owner that holds the lane acquires it again at once, every
other acquisition waits in a queue, and the last release hands the lane to the first waiter whose signal is not
aborted.  Each operation runs to its end before the next one; a signal is aborted before its listeners run, and other
operations may come between the two.  The log records what callers see.  In every state that operations lead to, the
lane is `Disciplined` (`disciplined_run`).
-/

namespace Wrenyard.Daemon

open Js List

/-- A waiter, with the number of its call of `acquire`. -/
structure DesktopLaneWaiter where
  call : Nat
  owner : JsString
  runId : JsString
  signal : Option Nat
deriving DecidableEq, Repr

/-- Why an acquisition fails. -/
inductive LaneError where
  | closed
  | aborted
deriving DecidableEq, Repr

inductive LaneEvent where
  | queued (call : Nat)
  | granted (call : Nat) (owner : JsString)
  | handed (call : Nat) (owner : JsString)
  | rejected (call : Nat) (error : LaneError)
  | notified (call : Nat) (position : Option Nat)
  | adopted (owner : JsString)
  | released (owner : JsString)
  | closed
deriving DecidableEq, Repr

structure DesktopLane where
  owner : Option JsString
  holds : Nat
  isClosed : Bool
  queue : List DesktopLaneWaiter
  /-- The signals that are aborted. -/
  aborted : List Nat
  /-- The calls of `acquire` so far. -/
  calls : Nat
  log : List LaneEvent
deriving DecidableEq, Repr

namespace DesktopLane

/-- `new DesktopLane()` -/
def new : DesktopLane := ⟨none, 0, false, [], [], 0, []⟩

/-- `signal?.aborted` -/
def signalAborted (lane : DesktopLane) (signal : Option Nat) : Bool := signal.any fun s => lane.aborted.contains s

def record (lane : DesktopLane) (events : List LaneEvent) : DesktopLane := { lane with log := lane.log ++ events }

/-- What `#updatePositions` tells the waiters of a queue. -/
def positions (queue : List DesktopLaneWaiter) : List LaneEvent :=
  queue.mapIdx fun index waiter => .notified waiter.call (some (index + 1))

/-- `#updatePositions` -/
def updatePositions (lane : DesktopLane) : DesktopLane := lane.record (positions lane.queue)

def close (lane : DesktopLane) : DesktopLane :=
  if lane.isClosed then lane
  else
    (({ lane with isClosed := true, queue := [] }).record
      (.closed :: lane.queue.map fun (waiter : DesktopLaneWaiter) => .rejected waiter.call .closed)).updatePositions

/-- The listener of a waiter's signal. -/
def abortWaiter (lane : DesktopLane) (call : Nat) : DesktopLane :=
  if lane.queue.any fun waiter => waiter.call == call then
    (({ lane with queue := lane.queue.eraseP fun waiter => waiter.call == call }).updatePositions).record
      [.rejected call .aborted]
  else lane

def acquire (lane : DesktopLane) (owner runId : JsString) (signal : Option Nat) : DesktopLane :=
  let call := lane.calls
  let lane := { lane with calls := lane.calls + 1 }
  if lane.isClosed then lane.record [.rejected call .closed]
  else if lane.signalAborted signal then lane.record [.rejected call .aborted]
  else if lane.owner = some owner then ({ lane with holds := lane.holds + 1 }).record [.granted call owner]
  else if lane.owner = none ∧ lane.queue = [] then
    ({ lane with owner := some owner, holds := 1 }).record [.granted call owner]
  else
    let waiter := DesktopLaneWaiter.mk call owner runId signal
    let lane := ({ lane with queue := lane.queue ++ [waiter] }).record [.queued call]
    if lane.signalAborted signal then lane.abortWaiter call else lane.updatePositions

/-- The loop of `#grantNext`, over the waiters that are still to be looked at. -/
def grantFrom (lane : DesktopLane) : List DesktopLaneWaiter → DesktopLane
  | [] => { lane with queue := [] }
  | waiter :: rest =>
    if lane.signalAborted waiter.signal then (lane.record [.rejected waiter.call .aborted]).grantFrom rest
    else
      ({ lane with owner := some waiter.owner, holds := 1, queue := rest }).record
        [.notified waiter.call none, .handed waiter.call waiter.owner]

/-- `#grantNext` -/
def grantNext (lane : DesktopLane) : DesktopLane := (lane.grantFrom lane.queue).updatePositions

def release (lane : DesktopLane) (owner : JsString) : DesktopLane :=
  let held := lane.owner = some owner ∧ lane.holds ≠ 0
  let lane := lane.record [.released owner]
  if held then
    if lane.holds - 1 > 0 then { lane with holds := lane.holds - 1 }
    else ({ lane with holds := lane.holds - 1, owner := none }).grantNext
  else lane

def adoptOwner (lane : DesktopLane) (owner : JsString) : DesktopLane :=
  if lane.owner ≠ none ∨ lane.queue ≠ [] then lane
  else ({ lane with owner := some owner, holds := 1 }).record [.adopted owner]

/-- What happens to a lane, one at a time. -/
inductive Op where
  | acquire (owner runId : JsString) (signal : Option Nat)
  | release (owner : JsString)
  | adoptOwner (owner : JsString)
  | close
  /-- A signal becomes aborted. -/
  | abort (signal : Nat)
  /-- The listener of a waiter with an aborted signal runs. -/
  | fire (call : Nat)
deriving DecidableEq, Repr

def perform (lane : DesktopLane) : Op → DesktopLane
  | .acquire owner runId signal => lane.acquire owner runId signal
  | .release owner => lane.release owner
  | .adoptOwner owner => lane.adoptOwner owner
  | .close => lane.close
  | .abort signal => { lane with aborted := signal :: lane.aborted }
  | .fire call =>
    if lane.queue.any fun waiter => waiter.call == call && lane.signalAborted waiter.signal then lane.abortWaiter call
    else lane

def run (ops : List Op) : DesktopLane := ops.foldl perform new

def heldAfter (held : List JsString) : LaneEvent → List JsString
  | .granted _ owner | .handed _ owner | .adopted owner => owner :: held
  | .released owner => held.erase owner
  | _ => held

def held (log : List LaneEvent) : List JsString := log.foldl heldAfter []

/-- The waiter's promise is settled. -/
def settles (call : Nat) : LaneEvent → Bool
  | .granted c _ | .handed c _ | .rejected c _ => c == call
  | _ => false

def isGrant : LaneEvent → Bool
  | .granted _ _ | .handed _ _ => true
  | _ => false

def rejects (call : Nat) : LaneEvent → Bool
  | .rejected c _ => c == call
  | _ => false

def arrivals (log : List LaneEvent) : List Nat :=
  log.filterMap fun e => match e with
    | .queued call => some call
    | _ => none

/-- The waiters that were granted the lane, in order. -/
def handedCalls (log : List LaneEvent) : List Nat :=
  log.filterMap fun e => match e with
    | .handed call _ => some call
    | _ => none

def reports (call : Nat) (log : List LaneEvent) : List (Option Nat) :=
  log.filterMap fun e => match e with
    | .notified c position => if c = call then some position else none
    | _ => none

def afterClose (log : List LaneEvent) : List LaneEvent := log.dropWhile fun e => e != .closed

structure Disciplined (lane : DesktopLane) : Prop where
  /-- What is granted and not yet released belongs to the owner. -/
  one_owner : ∀ owner ∈ held lane.log, lane.owner = some owner
  holds : lane.holds = (held lane.log).length
  /-- When nothing is held, nobody waits. -/
  idle : held lane.log = [] → lane.queue = []
  arrival : (arrivals lane.log).Pairwise (· < ·)
  /-- The waiters are granted in arrival order, those left out that are rejected. -/
  order : (arrivals lane.log).filter (fun call => !lane.log.any (rejects call)) =
    handedCalls lane.log ++ lane.queue.map (·.call)
  /-- Each call is settled once, when it does not wait. -/
  once : ∀ call, lane.log.countP (settles call) =
    if call < lane.calls ∧ call ∉ lane.queue.map (·.call) then 1 else 0
  closed : lane.isClosed = true → lane.queue = []
  /-- Nothing is granted after the closing. -/
  ended : ∀ e ∈ afterClose lane.log, isGrant e = false
  /-- The last position a waiter was told is its place in the queue. -/
  position : ∀ (i : Nat) (waiter : DesktopLaneWaiter), lane.queue[i]? = some waiter →
    (reports waiter.call lane.log).getLast? = some (some (i + 1))

/-! ### Calls and the queue -/

/-- The events that neither settle a call nor bring one into the queue. -/
def isAside : LaneEvent → Bool
  | .notified _ _ | .adopted _ | .released _ | .closed => true
  | _ => false

structure Queued (calls : Nat) (queue : List Nat) (log : List LaneEvent) : Prop where
  arrival : (arrivals log).Pairwise (· < ·)
  below : ∀ call ∈ arrivals log, call < calls
  order : (arrivals log).filter (fun call => !log.any (rejects call)) = handedCalls log ++ queue
  once : ∀ call, log.countP (settles call) = if call < calls ∧ call ∉ queue then 1 else 0

theorem any_rejects_append (call : Nat) (log : List LaneEvent) (e : LaneEvent) :
    (log ++ [e]).any (rejects call) = (log.any (rejects call) || rejects call e) := by
  simp

theorem any_rejects_eq_false (call : Nat) (log : List LaneEvent) (h : log.countP (settles call) = 0) :
    log.any (rejects call) = false := by
  rw [countP_eq_zero] at h
  rw [any_eq_false]
  intro e he hr
  apply h e he
  cases e <;> simp_all [rejects, settles]

variable {es : List LaneEvent}

namespace Queued

variable {calls : Nat} {queue : List Nat} {log : List LaneEvent}

variable (h : Queued calls queue log)
include h

variable {call : Nat}

theorem arrived (hmem : call ∈ queue) : call ∈ arrivals log ∧ log.any (rejects call) = false := by
  have hin : call ∈ handedCalls log ++ queue := mem_append_right _ hmem
  rw [← h.order, mem_filter] at hin
  simpa using hin

theorem nodup : (handedCalls log ++ queue).Nodup := by
  rw [← h.order]
  exact (h.arrival.imp Nat.ne_of_lt).filter _

theorem aside (hes : ∀ e ∈ es, isAside e = true) : Queued calls queue (log ++ es) := by
  have harr : arrivals (log ++ es) = arrivals log := by
    unfold arrivals
    rw [filterMap_append, append_right_eq_self, filterMap_eq_nil_iff]
    intro e he
    have := hes e he
    cases e <;> simp_all [isAside]
  have hhand : handedCalls (log ++ es) = handedCalls log := by
    unfold handedCalls
    rw [filterMap_append, append_right_eq_self, filterMap_eq_nil_iff]
    intro e he
    have := hes e he
    cases e <;> simp_all [isAside]
  have hrej : ∀ call, (log ++ es).any (rejects call) = log.any (rejects call) := by
    intro call
    have hnone : es.any (rejects call) = false := by
      rw [any_eq_false]
      intro e he
      have := hes e he
      cases e <;> simp_all [isAside, rejects]
    rw [any_append, hnone, Bool.or_false]
  constructor
  · rw [harr]; exact h.arrival
  · rw [harr]; exact h.below
  · simp only [harr, hhand, hrej]; exact h.order
  · intro call
    rw [countP_append, h.once, countP_eq_zero.2, Nat.add_zero]
    intro e he
    have := hes e he
    cases e <;> simp_all [isAside, settles]

variable {e : LaneEvent}

/-- A new call that is settled at once. -/
theorem answer (hq : ∀ call ∈ queue, call < calls)
    (he : (∃ o, e = .granted calls o) ∨ ∃ error, e = .rejected calls error) :
    Queued (calls + 1) queue (log ++ [e]) := by
  have harr : arrivals (log ++ [e]) = arrivals log := by
    rcases he with ⟨o, rfl⟩ | ⟨error, rfl⟩ <;> simp [arrivals]
  have hhand : handedCalls (log ++ [e]) = handedCalls log := by
    rcases he with ⟨o, rfl⟩ | ⟨error, rfl⟩ <;> simp [handedCalls]
  have hset : ∀ call, settles call e = (calls == call) := by
    rcases he with ⟨o, rfl⟩ | ⟨error, rfl⟩ <;> simp [settles]
  constructor
  · rw [harr]; exact h.arrival
  · rw [harr]; exact fun call hc => Nat.lt_succ_of_lt (h.below call hc)
  · rw [harr, hhand, ← h.order]
    apply filter_congr
    intro call hc
    have hne : calls ≠ call := Nat.ne_of_gt (h.below call hc)
    have hr : rejects call e = false := by
      rcases he with ⟨o, rfl⟩ | ⟨error, rfl⟩ <;> simp [rejects, hne]
    rw [any_rejects_append, hr, Bool.or_false]
  · intro call
    rw [countP_append, h.once, countP_singleton, hset]
    by_cases heq : calls = call
    · subst heq
      have hnot : calls ∉ queue := fun hmem => absurd (hq calls hmem) (Nat.lt_irrefl _)
      simp [hnot]
    · by_cases hlt : call < calls
      · simp [heq, hlt, Nat.lt_succ_of_lt hlt]
      · simp [heq, hlt, show ¬ call < calls + 1 by omega]

theorem join : Queued (calls + 1) (queue ++ [calls]) (log ++ [LaneEvent.queued calls]) := by
  have harr : arrivals (log ++ [LaneEvent.queued calls]) = arrivals log ++ [calls] := by simp [arrivals]
  have hhand : handedCalls (log ++ [LaneEvent.queued calls]) = handedCalls log := by simp [handedCalls]
  have hrej : ∀ call, (log ++ [LaneEvent.queued calls]).any (rejects call) = log.any (rejects call) := by
    simp [rejects]
  have hfresh : log.countP (settles calls) = 0 := by rw [h.once]; simp
  constructor
  · rw [harr, pairwise_append]
    exact ⟨h.arrival, pairwise_singleton _ _, fun a ha b hb => by
      rw [mem_singleton.1 hb]; exact h.below a ha⟩
  · rw [harr]
    intro call hc
    rcases mem_append.1 hc with hc | hc
    · exact Nat.lt_succ_of_lt (h.below call hc)
    · rw [mem_singleton.1 hc]; exact Nat.lt_succ_self _
  · simp only [harr, hhand, hrej]
    rw [filter_append, h.order, append_assoc]
    simp [any_rejects_eq_false calls log hfresh]
  · intro call
    rw [countP_append, h.once, countP_singleton]
    by_cases heq : call = calls
    · subst heq
      simp [settles]
    · by_cases hlt : call < calls
      · simp [settles, heq, hlt, Nat.lt_succ_of_lt hlt]
      · simp [settles, hlt, show ¬ call < calls + 1 by omega]

omit h

theorem reject {pre post : List Nat} (h : Queued calls (pre ++ call :: post) log) (error : LaneError) :
    Queued calls (pre ++ post) (log ++ [LaneEvent.rejected call error]) := by
  have harr : arrivals (log ++ [LaneEvent.rejected call error]) = arrivals log := by simp [arrivals]
  have hhand : handedCalls (log ++ [LaneEvent.rejected call error]) = handedCalls log := by simp [handedCalls]
  have hmem : call ∈ pre ++ call :: post := by simp
  have hnodup := h.nodup
  have hlt := h.below call (h.arrived hmem).1
  constructor
  · rw [harr]; exact h.arrival
  · rw [harr]; exact h.below
  · have hsplit : (arrivals log).filter (fun c => !(log ++ [LaneEvent.rejected call error]).any (rejects c)) =
        ((arrivals log).filter fun c => !log.any (rejects c)).filter fun c => c != call := by
      rw [filter_filter]
      apply filter_congr
      intro c _
      rw [any_rejects_append]
      by_cases heq : call = c
      · simp [rejects, heq]
      · have hne : (call == c) = false := beq_false_of_ne heq
        have hne' : (c != call) = true := by simpa using Ne.symm heq
        simp only [rejects, hne, hne', Bool.or_false, Bool.true_and]
    rw [harr, hhand, hsplit, h.order]
    rw [nodup_append, nodup_append] at hnodup
    have hkeep : ∀ l : List Nat, call ∉ l → l.filter (fun c => c != call) = l := by
      intro l hl
      rw [filter_eq_self]
      intro c hc
      have hne : c ≠ call := by
        rintro rfl
        exact hl hc
      simpa using hne
    have h1 : call ∉ handedCalls log := fun hc => hnodup.2.2 call hc call hmem rfl
    have h2 : call ∉ pre := fun hc => hnodup.2.1.2.2 call hc call (by simp) rfl
    have h3 : call ∉ post := (nodup_cons.1 hnodup.2.1.2.1).1
    rw [filter_append, filter_append, filter_cons, hkeep _ h1, hkeep _ h2, hkeep _ h3]
    simp
  · intro c
    rw [nodup_append, nodup_append] at hnodup
    have h2 : call ∉ pre := fun hc => hnodup.2.1.2.2 call hc call (by simp) rfl
    have h3 : call ∉ post := (nodup_cons.1 hnodup.2.1.2.1).1
    rw [countP_append, h.once, countP_singleton]
    by_cases heq : call = c
    · subst heq
      simp [settles, hlt, h2, h3]
    · simp [settles, heq, Ne.symm heq]

theorem hand {rest : List Nat} (h : Queued calls (call :: rest) log) (owner : JsString) :
    Queued calls rest (log ++ [LaneEvent.handed call owner]) := by
  have harr : arrivals (log ++ [LaneEvent.handed call owner]) = arrivals log := by simp [arrivals]
  have hhand : handedCalls (log ++ [LaneEvent.handed call owner]) = handedCalls log ++ [call] := by simp [handedCalls]
  have hrej : ∀ c, (log ++ [LaneEvent.handed call owner]).any (rejects c) = log.any (rejects c) := by simp [rejects]
  have hnodup := h.nodup
  have hlt := h.below call (h.arrived mem_cons_self).1
  constructor
  · rw [harr]; exact h.arrival
  · rw [harr]; exact h.below
  · simp only [harr, hhand, hrej]
    rw [h.order, append_assoc]
    rfl
  · intro c
    rw [nodup_append, nodup_cons] at hnodup
    rw [countP_append, h.once, countP_singleton]
    by_cases heq : call = c
    · subst heq
      simp [settles, hlt, hnodup.2.1.1]
    · simp [settles, heq, Ne.symm heq]

theorem rejectAll (error : LaneError) (h : Queued calls queue log) :
    Queued calls [] (log ++ queue.map fun call => LaneEvent.rejected call error) := by
  induction queue generalizing log with
  | nil => simpa using h
  | cons call rest ih =>
    have hhead : Queued calls ([] ++ call :: rest) log := h
    have hrest := ih (hhead.reject error)
    simpa using hrest

end Queued

/-- The events that neither take nor give back the lane. -/
def isIdle : LaneEvent → Bool
  | .queued _ | .rejected _ _ | .notified _ _ | .closed => true
  | _ => false

theorem held_append (log es : List LaneEvent) : held (log ++ es) = es.foldl heldAfter (held log) := by
  unfold held
  rw [foldl_append]

variable {log : List LaneEvent}

theorem held_idle (h : ∀ e ∈ es, isIdle e = true) : held (log ++ es) = held log := by
  rw [held_append]
  induction es with
  | nil => rfl
  | cons e es ih =>
    have he := h e mem_cons_self
    have hsame : heldAfter (held log) e = held log := by
      cases e <;> first | rfl | cases he
    rw [foldl_cons, hsame]
    exact ih fun e' he' => h e' (mem_cons_of_mem _ he')

inductive Grip : Option JsString → Nat → List JsString → Prop where
  | free : Grip none 0 []
  | busy (owner : JsString) (holds : Nat) : Grip (some owner) (holds + 1) (List.replicate (holds + 1) owner)

namespace Grip

variable {owner : Option JsString} {holds : Nat} {hs : List JsString}

theorem length (h : Grip owner holds hs) : holds = hs.length := by
  cases h with
  | free => rfl
  | busy o n => rw [length_replicate]

theorem owned (h : Grip owner holds hs) : ∀ o ∈ hs, owner = some o := by
  cases h with
  | free => intro o ho; cases ho
  | busy o n =>
    intro o' ho'
    rw [eq_of_mem_replicate ho']

theorem free_of_nil (h : Grip owner holds []) : owner = none := by
  generalize hhs : ([] : List JsString) = hs at h
  cases h with
  | free => rfl
  | busy o n => cases hhs

theorem nil (h : Grip owner holds hs) (hnone : owner = none) : hs = [] := by
  cases h with
  | free => rfl
  | busy o n => cases hnone

end Grip

def Told (queue : List DesktopLaneWaiter) (log : List LaneEvent) : Prop :=
  ∀ (i : Nat) (waiter : DesktopLaneWaiter), queue[i]? = some waiter →
    (reports waiter.call log).getLast? = some (some (i + 1))

theorem reports_append (call : Nat) (log es : List LaneEvent) :
    reports call (log ++ es) = reports call log ++ reports call es := by
  unfold reports
  rw [filterMap_append]

def isSilent : LaneEvent → Bool
  | .notified _ _ => false
  | _ => true

variable {queue : List DesktopLaneWaiter}

theorem Told.silent (h : Told queue log)
    (hes : ∀ e ∈ es, isSilent e = true) : Told queue (log ++ es) := by
  intro i waiter hi
  have hnone : reports waiter.call es = [] := by
    unfold reports
    rw [filterMap_eq_nil_iff]
    intro e he
    have := hes e he
    cases e <;> first | rfl | cases this
  rw [reports_append, hnone, append_nil]
  exact h i waiter hi

theorem positions_mem (h : e ∈ positions queue) :
    ∃ i waiter, queue[i]? = some waiter ∧ e = .notified waiter.call (some (i + 1)) := by
  obtain ⟨i, hi, rfl⟩ := mem_mapIdx.1 h
  exact ⟨i, queue[i], List.getElem?_eq_getElem hi, rfl⟩

theorem told_positions (h : (queue.map (·.call)).Nodup) (log : List LaneEvent) :
    Told queue (log ++ positions queue) := by
  intro i waiter hi
  have hmem : some (i + 1) ∈ reports waiter.call (positions queue) := by
    unfold reports
    rw [mem_filterMap]
    refine ⟨.notified waiter.call (some (i + 1)), ?_, by simp⟩
    obtain ⟨hlt, rfl⟩ := List.getElem?_eq_some_iff.1 hi
    exact mem_mapIdx.2 ⟨i, hlt, rfl⟩
  have hall : ∀ p ∈ reports waiter.call (positions queue), p = some (i + 1) := by
    intro p hp
    obtain ⟨e, he, hep⟩ := mem_filterMap.1 hp
    obtain ⟨j, w, hj, rfl⟩ := positions_mem he
    by_cases hc : w.call = waiter.call
    · have hij : j = i := by
        have hlt : j < (queue.map (·.call)).length := by
          rw [length_map]
          exact (List.getElem?_eq_some_iff.1 hj).1
        apply (List.getElem?_inj hlt h).1
        rw [List.getElem?_map, List.getElem?_map, hi, hj]
        exact congrArg some hc
      simp [hc, hij] at hep
      exact hep.symm
    · simp [hc] at hep
  rw [reports_append, List.getLast?_append]
  obtain ⟨p, hp⟩ : ∃ p, (reports waiter.call (positions queue)).getLast? = some p := by
    cases hlast : (reports waiter.call (positions queue)).getLast? with
    | none => rw [List.getLast?_eq_none_iff.1 hlast] at hmem; cases hmem
    | some p => exact ⟨p, rfl⟩
  rw [hp, hall p (mem_of_getLast? hp)]
  rfl

/-! ### What each operation keeps -/

def Ended (log : List LaneEvent) : Prop := ∀ e ∈ afterClose log, isGrant e = false

theorem afterClose_eq_nil (h : .closed ∉ log) : afterClose log = [] := by
  unfold afterClose
  rw [dropWhile_eq_nil_iff]
  intro e he
  by_cases heq : e = .closed
  · exact absurd (heq ▸ he) h
  · simpa using heq

theorem Ended.append (h : Ended log) (hes : ∀ e ∈ es, isGrant e = false) :
    Ended (log ++ es) := by
  intro e he
  unfold afterClose at he
  rw [dropWhile_append] at he
  split at he
  · exact hes e ((dropWhile_sublist _).subset he)
  · rcases mem_append.1 he with he | he
    · exact h e he
    · exact hes e he

theorem ended_of_not_mem (h : .closed ∉ log) : Ended log := by
  intro e he
  rw [afterClose_eq_nil h] at he
  cases he

def waiting (lane : DesktopLane) : List Nat := lane.queue.map (·.call)

structure Core (lane : DesktopLane) : Prop where
  queued : Queued lane.calls lane.waiting lane.log
  grip : Grip lane.owner lane.holds (held lane.log)
  emptied : lane.isClosed = true → lane.queue = []
  unclosed : lane.isClosed = false → .closed ∉ lane.log
  ended : Ended lane.log

structure Inv (lane : DesktopLane) : Prop extends Core lane where
  idle : lane.owner = none → lane.queue = []
  told : Told lane.queue lane.log

variable {lane : DesktopLane}

theorem positions_notified (h : e ∈ positions queue) :
    ∃ call position, e = .notified call position := by
  obtain ⟨i, waiter, -, rfl⟩ := positions_mem h
  exact ⟨_, _, rfl⟩

namespace Core

theorem nodup (h : Core lane) : (lane.queue.map (·.call)).Nodup := (List.nodup_append.1 h.queued.nodup).2.1

theorem notify (h : Core lane) (hes : ∀ e ∈ es, ∃ call position, e = .notified call position) :
    Core (lane.record es) := by
  constructor
  · apply h.queued.aside
    intro e he
    obtain ⟨call, position, rfl⟩ := hes e he
    rfl
  · have hheld : held (lane.log ++ es) = held lane.log := held_idle fun e he => by
      obtain ⟨call, position, rfl⟩ := hes e he
      rfl
    show Grip lane.owner lane.holds (held (lane.log ++ es))
    rw [hheld]
    exact h.grip
  · exact h.emptied
  · intro hclosed hmem
    rcases mem_append.1 hmem with hmem | hmem
    · exact h.unclosed hclosed hmem
    · obtain ⟨call, position, heq⟩ := hes _ hmem
      cases heq
  · apply h.ended.append
    intro e he
    obtain ⟨call, position, rfl⟩ := hes e he
    rfl

theorem updatePositions (h : Core lane) : Core lane.updatePositions := h.notify fun _ he => positions_notified he

theorem reject {pre post : List DesktopLaneWaiter} {waiter : DesktopLaneWaiter} (h : Core lane)
    (hq : lane.queue = pre ++ waiter :: post) (error : LaneError) :
    Core (({ lane with queue := pre ++ post }).record [.rejected waiter.call error]) := by
  have hwait : lane.waiting = pre.map (·.call) ++ waiter.call :: post.map (·.call) := by
    unfold waiting
    rw [hq]
    simp
  have hqueued := h.queued
  rw [hwait] at hqueued
  constructor
  · have hrest := hqueued.reject error
    rw [← map_append] at hrest
    exact hrest
  · show Grip lane.owner lane.holds (held (lane.log ++ [LaneEvent.rejected waiter.call error]))
    rw [held_idle (by simp [isIdle])]
    exact h.grip
  · intro hclosed
    have hempty := h.emptied hclosed
    rw [hq] at hempty
    simp at hempty
  · intro hclosed hmem
    exact h.unclosed hclosed (by simpa [record] using hmem)
  · exact h.ended.append (by simp [isGrant])

end Core

theorem core_grantFrom (h : Core { lane with queue := queue })
    (howner : lane.owner = none) :
    Core (lane.grantFrom queue) ∧ ((lane.grantFrom queue).owner = none → (lane.grantFrom queue).queue = []) := by
  induction queue generalizing lane with
  | nil => exact ⟨h, fun _ => rfl⟩
  | cons waiter rest ih =>
    unfold grantFrom
    split
    · have hrest : Core (({ lane with queue := [] ++ rest }).record [.rejected waiter.call .aborted]) :=
        h.reject rfl .aborted
      exact ih hrest howner
    refine ⟨?_, fun hnone => by cases hnone⟩
    have hopen : lane.isClosed = false := by
      cases hc : lane.isClosed with
      | false => rfl
      | true => cases h.emptied hc
    have hnot : .closed ∉ lane.log := h.unclosed hopen
    have hnew : LaneEvent.closed ∉
        lane.log ++ [LaneEvent.notified waiter.call none, .handed waiter.call waiter.owner] := by
      simpa using hnot
    have hheld : held lane.log = [] := h.grip.nil howner
    have hqueued : Queued lane.calls (waiter.call :: rest.map (·.call)) lane.log := h.queued
    constructor
    · have hnote : Queued lane.calls (waiter.call :: rest.map (·.call))
          (lane.log ++ [LaneEvent.notified waiter.call none]) := hqueued.aside (by simp [isAside])
      have hhand := hnote.hand waiter.owner
      rw [append_assoc] at hhand
      exact hhand
    · show Grip (some waiter.owner) 1
        (held (lane.log ++ [LaneEvent.notified waiter.call none, .handed waiter.call waiter.owner]))
      rw [held_append, hheld]
      exact Grip.busy waiter.owner 0
    · intro hc
      rw [show lane.isClosed = true from hc] at hopen
      cases hopen
    · exact fun _ => hnew
    · exact ended_of_not_mem hnew

theorem inv_grantNext (h : Core lane) (howner : lane.owner = none) : Inv lane.grantNext := by
  obtain ⟨hcore, hidle⟩ := core_grantFrom (show Core { lane with queue := lane.queue } from h) howner
  exact ⟨hcore.updatePositions, hidle, told_positions hcore.nodup _⟩

theorem inv_new : Inv new := by
  constructor
  · constructor
    · constructor <;> simp [new, arrivals, waiting, handedCalls]
    · exact Grip.free
    · exact fun _ => rfl
    · intro _ hmem
      cases hmem
    · intro e he
      cases he
  · exact fun _ => rfl
  · intro i waiter hi
    simp [new] at hi

theorem inv_release (h : Inv lane) (owner : JsString) : Inv (lane.release owner) := by
  have hqueued : Queued lane.calls lane.waiting (lane.log ++ [LaneEvent.released owner]) :=
    h.queued.aside (by simp [isAside])
  have htold : Told lane.queue (lane.log ++ [LaneEvent.released owner]) := h.told.silent (by simp [isSilent])
  have hunclosed : lane.isClosed = false → LaneEvent.closed ∉ lane.log ++ [LaneEvent.released owner] := by
    intro hc hmem
    exact h.unclosed hc (by simpa using hmem)
  have hended : Ended (lane.log ++ [LaneEvent.released owner]) := h.ended.append (by simp [isGrant])
  have hheld : held (lane.log ++ [LaneEvent.released owner]) = (held lane.log).erase owner := by
    rw [held_append]
    rfl
  have hgrip := h.grip
  unfold release
  dsimp only
  split
  · rename_i hown
    rw [show (lane.record [.released owner]).holds = lane.holds from rfl]
    rw [hown.1] at hgrip
    generalize hn : lane.holds = n at hgrip ⊢
    generalize hlog : held lane.log = hs at hgrip hheld
    cases hgrip with
    | busy _ m =>
      have herase : (List.replicate (m + 1) owner).erase owner = List.replicate m owner := by
        rw [replicate_succ, erase_cons_head]
      rw [herase] at hheld
      split
      · constructor
        · constructor
          · exact hqueued
          · show Grip lane.owner (m + 1 - 1) (held (lane.log ++ [LaneEvent.released owner]))
            rw [hheld, hown.1]
            obtain ⟨k, rfl⟩ : ∃ k, m = k + 1 := ⟨m - 1, by omega⟩
            exact Grip.busy owner k
          · exact h.emptied
          · exact hunclosed
          · exact hended
        · exact h.idle
        · exact htold
      · have hzero : m = 0 := by omega
        subst hzero
        apply inv_grantNext
        · constructor
          · exact hqueued
          · show Grip none 0 (held (lane.log ++ [LaneEvent.released owner]))
            rw [hheld]
            exact Grip.free
          · exact h.emptied
          · exact hunclosed
          · exact hended
        · rfl
  · rename_i hown
    have hsame : held (lane.log ++ [LaneEvent.released owner]) = held lane.log := by
      rw [hheld, erase_of_not_mem]
      intro hmem
      have howned := hgrip.owned owner hmem
      have hlen := hgrip.length
      apply hown
      refine ⟨howned, fun hz => ?_⟩
      rw [hz] at hlen
      rw [length_eq_zero_iff.1 hlen.symm] at hmem
      cases hmem
    constructor
    · constructor
      · exact hqueued
      · show Grip lane.owner lane.holds (held (lane.log ++ [LaneEvent.released owner]))
        rw [hsame]
        exact hgrip
      · exact h.emptied
      · exact hunclosed
      · exact hended
    · exact h.idle
    · exact htold

theorem inv_adoptOwner (h : Inv lane) (owner : JsString) : Inv (lane.adoptOwner owner) := by
  unfold adoptOwner
  split
  · exact h
  rename_i hbusy
  rw [not_or, not_not, not_not] at hbusy
  have hheld : held lane.log = [] := h.grip.nil hbusy.1
  constructor
  · constructor
    · exact h.queued.aside (by simp [isAside])
    · show Grip (some owner) 1 (held (lane.log ++ [LaneEvent.adopted owner]))
      rw [held_append, hheld]
      exact Grip.busy owner 0
    · exact h.emptied
    · intro hc hmem
      exact h.unclosed hc (by simpa [record] using hmem)
    · exact h.ended.append (by simp [isGrant])
  · exact nofun
  · exact h.told.silent (by simp [isSilent])

theorem inv_close (h : Inv lane) : Inv lane.close := by
  unfold close
  split
  · exact h
  have hqueued : Queued lane.calls [] (lane.log ++
      LaneEvent.closed ::
        lane.queue.map fun (waiter : DesktopLaneWaiter) => LaneEvent.rejected waiter.call .closed) := by
    have hnote : Queued lane.calls lane.waiting (lane.log ++ [LaneEvent.closed]) := h.queued.aside (by simp [isAside])
    have hclosed := hnote.rejectAll .closed
    unfold waiting at hclosed
    rw [map_map, append_assoc] at hclosed
    exact hclosed
  apply Inv.mk
  · apply Core.updatePositions
    constructor
    · exact hqueued
    · show Grip lane.owner lane.holds (held (lane.log ++
        LaneEvent.closed :: lane.queue.map fun (waiter : DesktopLaneWaiter) =>
          LaneEvent.rejected waiter.call .closed))
      rw [held_idle]
      · exact h.grip
      · intro e he
        rcases mem_cons.1 he with rfl | he
        · rfl
        · obtain ⟨waiter, -, rfl⟩ := mem_map.1 he
          rfl
    · exact fun _ => rfl
    · exact nofun
    · apply h.ended.append
      intro e he
      rcases mem_cons.1 he with rfl | he
      · rfl
      · obtain ⟨waiter, -, rfl⟩ := mem_map.1 he
        rfl
  · exact fun _ => rfl
  · intro i waiter hi
    simp [DesktopLane.updatePositions, record] at hi

theorem inv_abortWaiter (h : Core lane) (hidle : lane.owner = none → lane.queue = [])
    (hmem : lane.queue.any (fun waiter => waiter.call == call) = true) : Inv (lane.abortWaiter call) := by
  obtain ⟨w, hw, hcall⟩ := any_eq_true.1 hmem
  obtain ⟨waiter, pre, post, -, hp, hq, herase⟩ :=
    exists_of_eraseP (p := fun waiter => waiter.call == call) hw hcall
  have hc : waiter.call = call := by simpa using hp
  unfold abortWaiter
  rw [if_pos hmem, herase, ← hc]
  have hnote : Core (lane.record (positions (pre ++ post))) := h.notify fun _ he => positions_notified he
  have hcore := hnote.reject hq .aborted
  refine ⟨hcore, ?_, ?_⟩
  · intro hnone
    have hempty := hidle hnone
    rw [hq] at hempty
    simp at hempty
  · exact (told_positions hcore.nodup lane.log).silent (by simp [isSilent])

theorem inv_acquire (h : Inv lane) (owner runId : JsString) (signal : Option Nat) :
    Inv (lane.acquire owner runId signal) := by
  have hlt : ∀ call ∈ lane.waiting, call < lane.calls := fun call hc => h.queued.below call (h.queued.arrived hc).1
  have hreject : ∀ error, Inv (({ lane with calls := lane.calls + 1 }).record [.rejected lane.calls error]) := by
    intro error
    constructor
    · constructor
      · exact h.queued.answer hlt (.inr ⟨error, rfl⟩)
      · show Grip lane.owner lane.holds (held (lane.log ++ [LaneEvent.rejected lane.calls error]))
        rw [held_idle (by simp [isIdle])]
        exact h.grip
      · exact h.emptied
      · intro hc hmem
        exact h.unclosed hc (by simpa [record] using hmem)
      · exact h.ended.append (by simp [isGrant])
    · exact h.idle
    · exact h.told.silent (by simp [isSilent])
  unfold acquire
  by_cases hc : lane.isClosed = true
  · rw [if_pos hc]
    exact hreject .closed
  rw [if_neg hc]
  have hopen : lane.isClosed = false := by simpa using hc
  by_cases hs : ({ lane with calls := lane.calls + 1 }).signalAborted signal = true
  · rw [if_pos hs]
    exact hreject .aborted
  rw [if_neg hs]
  have hgrant : LaneEvent.closed ∉ lane.log ++ [LaneEvent.granted lane.calls owner] := by
    intro hmem
    exact h.unclosed hopen (by simpa using hmem)
  by_cases howner : lane.owner = some owner
  · rw [if_pos howner]
    constructor
    · constructor
      · exact h.queued.answer hlt (.inl ⟨owner, rfl⟩)
      · show Grip lane.owner (lane.holds + 1) (held (lane.log ++ [LaneEvent.granted lane.calls owner]))
        rw [held_append]
        have hgrip := h.grip
        rw [howner] at hgrip ⊢
        generalize lane.holds = n at hgrip ⊢
        generalize held lane.log = hs at hgrip ⊢
        cases hgrip with
        | busy _ m => exact Grip.busy owner (m + 1)
      · exact h.emptied
      · exact fun _ => hgrant
      · exact ended_of_not_mem hgrant
    · exact h.idle
    · exact h.told.silent (by simp [isSilent])
  rw [if_neg howner]
  by_cases hfree : lane.owner = none ∧ lane.queue = []
  · rw [if_pos hfree]
    constructor
    · constructor
      · exact h.queued.answer hlt (.inl ⟨owner, rfl⟩)
      · show Grip (some owner) 1 (held (lane.log ++ [LaneEvent.granted lane.calls owner]))
        have hheld : held lane.log = [] := h.grip.nil hfree.1
        rw [held_append, hheld]
        exact Grip.busy owner 0
      · exact h.emptied
      · exact fun _ => hgrant
      · exact ended_of_not_mem hgrant
    · exact nofun
    · exact h.told.silent (by simp [isSilent])
  rw [if_neg hfree]
  have hheldBy : lane.owner ≠ none := fun hnone => hfree ⟨hnone, h.idle hnone⟩
  have hcore : Core (({ lane with
      calls := lane.calls + 1, queue := lane.queue ++ [DesktopLaneWaiter.mk lane.calls owner runId signal] }).record
        [.queued lane.calls]) := by
    constructor
    · have hjoin := h.queued.join
      unfold waiting at hjoin ⊢
      simpa [record] using hjoin
    · show Grip lane.owner lane.holds (held (lane.log ++ [LaneEvent.queued lane.calls]))
      rw [held_idle (by simp [isIdle])]
      exact h.grip
    · intro hclosed
      exact absurd hclosed hc
    · intro _ hmem
      exact h.unclosed hopen (by simpa [record] using hmem)
    · exact h.ended.append (by simp [isGrant])
  have hnot : (({ lane with
      calls := lane.calls + 1, queue := lane.queue ++ [DesktopLaneWaiter.mk lane.calls owner runId signal] }).record
        [.queued lane.calls]).signalAborted signal ≠ true := hs
  rw [if_neg hnot]
  exact ⟨hcore.updatePositions, fun hnone => absurd hnone hheldBy, told_positions hcore.nodup _⟩

theorem inv_perform (h : Inv lane) (op : Op) : Inv (lane.perform op) := by
  cases op with
  | acquire owner runId signal => exact inv_acquire h owner runId signal
  | release owner => exact inv_release h owner
  | adoptOwner owner => exact inv_adoptOwner h owner
  | close => exact inv_close h
  | abort signal => exact ⟨⟨h.queued, h.grip, h.emptied, h.unclosed, h.ended⟩, h.idle, h.told⟩
  | fire call =>
    unfold perform
    dsimp only
    split
    · rename_i hfire
      apply inv_abortWaiter h.toCore h.idle
      obtain ⟨waiter, hmem, hp⟩ := any_eq_true.1 hfire
      rw [Bool.and_eq_true] at hp
      exact any_eq_true.2 ⟨waiter, hmem, hp.1⟩
    · exact h

/-- The invariant holds after every run. -/
theorem inv_run (ops : List Op) : Inv (run ops) := by
  unfold run
  induction ops using List.reverseRecOn with
  | nil => exact inv_new
  | append_singleton ops op ih =>
    rw [foldl_append]
    exact inv_perform ih op

/-- After any operations in any order the lane is disciplined. -/
theorem disciplined_run (ops : List Op) : Disciplined (run ops) := by
  have h := inv_run ops
  constructor
  · exact h.grip.owned
  · exact h.grip.length
  · intro hnil
    have hgrip := h.grip
    rw [hnil] at hgrip
    exact h.idle hgrip.free_of_nil
  · exact h.queued.arrival
  · exact h.queued.order
  · exact h.queued.once
  · exact h.emptied
  · exact h.ended
  · exact h.told

end DesktopLane

end Wrenyard.Daemon
