import Wrenyard.Scheduler.Machine
import Wrenyard.Scheduler.RunTimes

/-!
# The ledger of a scheduler

A ledger is kept beside a prepared scheduler: when each routine was last changed or woken, how often a wake of it
resolved, which runs were asked for and which wakes are in flight.  `Timed` says what the timing of a state is, in
terms of the ledger, and `Kept` is the invariant behind it: what it says of the stored routines and of the wake in
flight is kept by the parts of a step.
-/

namespace Wrenyard.Scheduler

open Js Transition

variable {p : Platform} {workspaceRoot : JsString}

structure Ledger where
  /-- The last reading of the clock. -/
  clock : Int
  /-- The latest of the creation, the last change and the last wake attempt of a routine. -/
  since : Nat → Int
  /-- The last wake attempt of a routine. -/
  attempt : Nat → Int
  /-- The wakes that resolved while the routine was stored and the scheduler not stopped. -/
  wakes : Nat → Nat
  /-- The accepted runs: no wake of the routine began since, and it was not paused, removed or turned into an event
  routine. -/
  requested : Nat → Bool
  inFlight : List Nat

/-- The routines that a step wakes. -/
def wokenRefs (effects : List Effect) : List Nat :=
  effects.flatMap fun
    | .wake r _ _ => [r]
    | _ => []

def changeTime (env : Env) : Op → Int
  | .update .. => env.time 1
  | _ => env.time 0

def attemptTime (env : Env) : Op → Int
  | .tick => env.time 1
  | .run _ => env.time 2
  | _ => env.time 0

namespace Ledger

variable (L : Ledger)

def changed (now : Int) (before after : State) : Ledger :=
  { L with since := fun r =>
    if before.fresh ≤ r ∨ after.objects r ≠ before.objects r then now else L.since r }

/-- A wake settles: it is counted where it resolved. -/
def settles (error : Option JsString) (before : State) : Ledger :=
  { L with
    wakes := fun r =>
      if L.inFlight.head? = some r ∧ error = none ∧ before.stopped = false ∧ r ∈ before.routines then L.wakes r + 1
      else L.wakes r
    inFlight := L.inFlight.tail }

def asks (accepted : Option Nat) : Ledger :=
  { L with requested := fun r => L.requested r || decide (accepted = some r) }

def begins (now : Int) (refs : List Nat) : Ledger :=
  { L with
    since := fun r => if r ∈ refs then now else L.since r
    attempt := fun r => if r ∈ refs then now else L.attempt r
    requested := fun r => L.requested r && decide (r ∉ refs)
    inFlight := L.inFlight ++ refs }

/-- The end of a step: what was asked for ends with a pause, a removal or an event. -/
def closes (clock : Int) (after : State) : Ledger :=
  { L with
    clock
    requested := fun r => L.requested r && decide (r ∈ after.routines) &&
      decide ((after.objects r).state = .active) && (after.objects r).intervalMinutes.isSome }

def accepted (workspaceRoot : JsString) (before : State) (id : JsString) : Option Nat :=
  (before.findRecord workspaceRoot id).toOption.filter fun r => (before.objects r).intervalMinutes.isSome

def next (workspaceRoot : JsString) (op : Op) (env : Env) (before after : State) (effects : List Effect) : Ledger :=
  let noted := match op with
    | .settle error => L.settles error before
    | .run id => (L.changed (changeTime env op) before after).asks (accepted workspaceRoot before id)
    | _ => L.changed (changeTime env op) before after
  (noted.begins (attemptTime env op) (wokenRefs effects)).closes (env.time 2) after

end Ledger

/-- The operations on a prepared scheduler that is not restarted, with routine files that have valid intervals and
distinct ids; notices of changed todos are left out. -/
def InScope : Op → Prop
  | .sync _ files => ∀ definitions ∈ files, (definitions.map (·.id)).Nodup ∧
      ∀ file ∈ definitions, ∀ i ∈ file.intervalMinutes, validInterval i = true
  | .prepare | .read .. | .load _ | .todoChanged _ | .settleTodo _ | .restart => False
  | _ => True

structure Clocked (clock : Int) (env : Env) : Prop where
  first : clock ≤ env.time 0
  second : env.time 0 ≤ env.time 1
  third : env.time 1 ≤ env.time 2
  last : Reading (env.time 2)

/-- What the scheduler must not be asked: to shorten an interval below the time that is left by an update, to update a
routine with an accepted run except to pause it or to give it an event, to run a routine whose wake is in flight, to
settle a wake while its routine's id belongs to another record. -/
def Timely (p : Platform) (workspaceRoot : JsString) (L : Ledger) (s : State) (env : Env) : Op → Prop
  | .update id patch =>
    ∀ r, s.findRecord workspaceRoot id = .ok r → (s.update p workspaceRoot env id patch).isOk = true →
      (∀ i ∈ (State.patched patch (s.objects r)).intervalMinutes, ∀ due, State.dueAt p (s.objects r) = some due →
        due ≤ env.time 1 + minutesMs i) ∧
      (L.requested r = true →
        patch.state = some .paused ∨ (State.patched patch (s.objects r)).intervalMinutes = none)
  | .run id => ∀ w ∈ s.wake, s.findRecord workspaceRoot id ≠ .ok w.ref
  | .settle _ => s.stopped = false → ∀ w ∈ s.wake, ∀ r, s.find w.id = some r → r = w.ref
  | _ => True

structure ScopedStep (p : Platform) (workspaceRoot : JsString) (x : Ledger × World) (a : (Op × Env) × List Effect)
    (y : Ledger × World) : Prop where
  step : Step p workspaceRoot x.2 a y.2
  ledger : y.1 = x.1.next workspaceRoot a.1.1 a.1.2 x.2.state y.2.state a.2
  clocked : Clocked x.1.clock a.1.2
  scope : InScope a.1.1

def TimelyStep (p : Platform) (workspaceRoot : JsString) (x : Ledger × World) (a : (Op × Env) × List Effect)
    (y : Ledger × World) : Prop :=
  ScopedStep p workspaceRoot x a y ∧ Timely p workspaceRoot x.1 x.2.state a.1.2 a.1.1

structure Ready (p : Platform) (L : Ledger) (s : State) : Prop where
  prepared : s.prepared = true
  idle : s.loads = [] ∧ s.wake = none ∧ s.ticking = false ∧ s.todos = []
  bounded : ∀ r ∈ s.routines, r < s.fresh
  scheduled : ∀ r ∈ s.routines, Scheduled p (L.since r) (s.objects r)
  since_le : ∀ r ∈ s.routines, L.since r ≤ L.clock
  clock : 0 ≤ L.clock
  count : ∀ r ∈ s.routines, (s.objects r).runCount = JsNumber.ofNat (L.wakes r)
  unused : ∀ r, s.fresh ≤ r → L.wakes r = 0
  requested : ∀ r, L.requested r = false
  inFlight : L.inFlight = []

/-- The timing of a state: an active routine with an interval has a next run, at most one interval after its last
change or wake; at most one wake is in flight; the wakes are counted; what was asked for is due. -/
structure Timed (p : Platform) (L : Ledger) (s : State) : Prop where
  next : ∀ r ∈ s.routines, (s.objects r).state = .active → ∀ i ∈ (s.objects r).intervalMinutes,
    ∃ due, State.dueAt p (s.objects r) = some due ∧ due ≤ L.since r + minutesMs i
  alone : L.inFlight.length ≤ 1
  count : ∀ r ∈ s.routines, (s.objects r).runCount = JsNumber.ofNat (L.wakes r)
  requested : ∀ r, L.requested r = true → r ∈ s.routines ∧ Due p L.clock (s.objects r)

/-- The timing of a step: a wake is one of a stored, active routine whose next run has passed, and a wake that settles
replaces that next run by one an interval after the attempt. -/
structure WakesTimed (p : Platform) (L : Ledger) (op : Op) (env : Env) (before after : State)
    (effects : List Effect) :
    Prop where
  begins : ∀ r record text, .wake r record text ∈ effects →
    r ∈ after.routines ∧ after.objects r = record ∧ Due p (attemptTime env op) record
  consumes : ∀ error r, op = .settle error → L.inFlight = [r] → before.stopped = false → r ∈ before.routines →
    ∀ i ∈ (before.objects r).intervalMinutes, State.dueAt p (after.objects r) = some (L.attempt r + minutesMs i)

/-- What holds of the stored routines, `c` being the time. -/
structure Records (p : Platform) (c : Int) (L : Ledger) (s : State) : Prop where
  bounded : ∀ r ∈ s.routines, r < s.fresh
  scheduled : ∀ r ∈ s.routines, Scheduled p (L.since r) (s.objects r)
  since_le : ∀ r ∈ s.routines, L.since r ≤ c
  count : ∀ r ∈ s.routines, (s.objects r).runCount = JsNumber.ofNat (L.wakes r)
  unused : ∀ r, s.fresh ≤ r → L.wakes r = 0
  due : ∀ r ∈ s.routines, L.requested r = true → (s.objects r).state = .active →
    (s.objects r).intervalMinutes ≠ none → Due p c (s.objects r)

structure Pending (c : Int) (L : Ledger) (s : State) (w : PendingWake) : Prop where
  known : w.ref < s.fresh
  id : (s.objects w.ref).id = w.id
  attempt : L.attempt w.ref = w.fireAt
  fired : 0 ≤ w.fireAt ∧ w.fireAt ≤ L.since w.ref
  passed : w.fireAt ≤ c ∧ w.now ≤ c
  requested : L.requested w.ref = false

structure Flight (c : Int) (L : Ledger) (s : State) : Prop where
  ready : s.prepared = true ∧ s.loads = [] ∧ s.todos = []
  inFlight : L.inFlight = (s.wake.map (·.ref)).toList
  ticking : ∀ w ∈ s.wake, s.ticking = true
  pending : ∀ w ∈ s.wake, Pending c L s w

/-- What holds between two steps. -/
structure Kept (p : Platform) (L : Ledger) (s : State) : Prop where
  records : Records p L.clock L s
  flight : Flight L.clock L s
  clock : 0 ≤ L.clock
  asked : ∀ r, L.requested r = true →
    r ∈ s.routines ∧ (s.objects r).state = .active ∧ (s.objects r).intervalMinutes ≠ none

variable {L : Ledger} {s before after : State} {c c' now : Int}

theorem Records.mono (h : Records p c L s) (hle : c ≤ c') : Records p c' L s :=
  { h with
    since_le := fun r hr => (h.since_le r hr).trans hle
    due := fun r hr hasked hactive hsome => (h.due r hr hasked hactive hsome).mono hle }

theorem Flight.mono (h : Flight c L s) (hle : c ≤ c') : Flight c' L s :=
  { h with pending := fun w hw =>
    { h.pending w hw with
      passed := ⟨(h.pending w hw).passed.1.trans hle, (h.pending w hw).passed.2.trans hle⟩ } }

structure Change (p : Platform) (L : Ledger) (now : Int) (before after : State) : Prop where
  fresh_le : before.fresh ≤ after.fresh
  bounded : ∀ r ∈ after.routines, r < after.fresh
  old : ∀ r ∈ after.routines, r < before.fresh → r ∈ before.routines ∧
    (after.objects r).runCount = (before.objects r).runCount ∧
    (after.objects r = before.objects r ∨ Scheduled p now (after.objects r))
  new : ∀ r ∈ after.routines, before.fresh ≤ r →
    (after.objects r).runCount = JsNumber.ofNat 0 ∧ Scheduled p now (after.objects r)
  ids : ∀ r, r < before.fresh → (after.objects r).id = (before.objects r).id
  due : ∀ r ∈ after.routines, L.requested r = true → (after.objects r).state = .active →
    (after.objects r).intervalMinutes ≠ none → Due p now (after.objects r)
  wake : after.wake = before.wake
  ticking : after.ticking = before.ticking
  ready : after.prepared = before.prepared ∧ after.loads = before.loads ∧ after.todos = before.todos

theorem Change.records (hchange : Change p L now before after) (h : Records p c L before) (hle : c ≤ now)
    (hle' : now ≤ c') :
    Records p c' (L.changed now before after) after := by
  refine ⟨hchange.bounded, fun r hr => ?_, fun r hr => ?_, fun r hr => ?_, fun r hr => ?_,
    fun r hr hasked hactive hsome => ?_⟩
  · show Scheduled p (if before.fresh ≤ r ∨ after.objects r ≠ before.objects r then now
        else L.since r) (after.objects r)
    split
    · rename_i hchanged
      rcases Nat.lt_or_ge r before.fresh with hold | hnew
      · rcases (hchange.old r hr hold).2.2 with hsame | hscheduled
        · rcases hchanged with hchanged | hchanged
          · omega
          · exact absurd hsame hchanged
        · exact hscheduled
      · exact (hchange.new r hr hnew).2
    · rename_i hsame
      rw [not_or, not_not] at hsame
      rw [hsame.2]
      exact h.scheduled r (hchange.old r hr (Nat.lt_of_not_le hsame.1)).1
  · show (if before.fresh ≤ r ∨ after.objects r ≠ before.objects r then now else L.since r) ≤ c'
    split
    · exact hle'
    rename_i hsame
    rw [not_or] at hsame
    have := h.since_le r (hchange.old r hr (Nat.lt_of_not_le hsame.1)).1
    omega
  · show _ = JsNumber.ofNat (L.wakes r)
    rcases Nat.lt_or_ge r before.fresh with hold | hnew
    · obtain ⟨hmem, hcount, -⟩ := hchange.old r hr hold
      rw [hcount, h.count r hmem]
    · rw [(hchange.new r hr hnew).1, h.unused r hnew]
  · exact h.unused r (hchange.fresh_le.trans hr)
  · exact (hchange.due r hr hasked hactive hsome).mono hle'

theorem Change.flight (hchange : Change p L now before after) (h : Flight c L before) (hle : c ≤ now)
    (hle' : now ≤ c') :
    Flight c' (L.changed now before after) after := by
  refine ⟨?_, ?_, fun w hw => ?_, fun w hw => ?_⟩
  · rw [hchange.ready.1, hchange.ready.2.1, hchange.ready.2.2]
    exact h.ready
  · rw [hchange.wake]
    exact h.inFlight
  · rw [hchange.wake] at hw
    rw [hchange.ticking]
    exact h.ticking w hw
  · rw [hchange.wake] at hw
    have hpending := h.pending w hw
    refine ⟨hpending.known.trans_le hchange.fresh_le, ?_, hpending.attempt, ⟨hpending.fired.1, ?_⟩, ?_,
      hpending.requested⟩
    · rw [hchange.ids w.ref hpending.known]
      exact hpending.id
    · show w.fireAt ≤ if before.fresh ≤ w.ref ∨ after.objects w.ref ≠ before.objects w.ref then now else L.since w.ref
      split
      · have := hpending.passed.1
        omega
      · exact hpending.fired.2
    · have := hpending.passed
      exact ⟨by omega, by omega⟩

theorem begins_nil (L : Ledger) (now : Int) : L.begins now [] = L := by
  simp [Ledger.begins]

theorem tickLoop_spec (env : Env) (now fireAt : Int) (changed : Bool) (ids : List JsString) (s : State) :
    (∃ changed', State.tickLoop p env now fireAt changed ids s = (s.endTick changed', [])) ∨
      ∃ id rest r, s.find id = some r ∧ State.skipped p (s.objects r) now = false ∧
        State.tickLoop p env now fireAt changed ids s =
          ({ s with wake := some ⟨now, rest, id, r, fireAt, changed⟩ }, [.wake r (s.objects r) none]) := by
  induction ids with
  | nil => exact .inl ⟨changed, rfl⟩
  | cons id rest ih =>
    unfold State.tickLoop
    split
    · exact .inl ⟨changed, rfl⟩
    cases hfind : s.find id with
    | none => exact ih
    | some r =>
      simp only
      split
      · exact ih
      rename_i hskipped
      split
      · exact ih
      · split
        · exact .inl ⟨changed, rfl⟩
        · exact .inr ⟨id, rest, r, hfind, by simpa using hskipped, rfl⟩

theorem due_of_not_skipped {since : Int} {record : RoutineRecord} (h : Scheduled p since record)
    (hskipped : State.skipped p record now = false) : Due p now record := by
  unfold State.skipped at hskipped
  simp only [Bool.or_eq_false_iff, decide_eq_false_iff_not, not_not] at hskipped
  obtain ⟨⟨hactive, hnext⟩, hlater⟩ := hskipped
  cases hnextRunAt : record.nextRunAt with
  | none =>
    rw [hnextRunAt] at hnext
    cases hnext
  | some text =>
    obtain ⟨t, ht, -⟩ := h.next text hnextRunAt
    have hdue : State.dueAt p record = some t := by
      unfold State.dueAt
      rw [hnextRunAt]
      exact ht
    rw [hdue] at hlater
    refine ⟨hactive, t, hdue, ?_⟩
    simpa using hlater

/-- The loop of a tick, with its wake. -/
theorem Records.tickLoop (h : Records p c L s) (hready : s.prepared = true ∧ s.loads = [] ∧ s.todos = [])
    (hticking : s.ticking = true) (hflight : L.inFlight = []) (h0 : 0 ≤ c) (hnow : now ≤ c)
    (env : Env) (changed : Bool) (ids : List JsString) :
    Records p c (L.begins c (wokenRefs (State.tickLoop p env now c changed ids s).2))
        (State.tickLoop p env now c changed ids s).1 ∧
      Flight c (L.begins c (wokenRefs (State.tickLoop p env now c changed ids s).2))
        (State.tickLoop p env now c changed ids s).1 ∧
      ∀ r record text, .wake r record text ∈ (State.tickLoop p env now c changed ids s).2 →
        r ∈ (State.tickLoop p env now c changed ids s).1.routines ∧
        (State.tickLoop p env now c changed ids s).1.objects r = record ∧ Due p c record := by
  rcases @tickLoop_spec p env now c changed ids s with ⟨changed', hloop⟩ | ⟨id, rest, r, hfind, hskipped, hloop⟩
  · rw [hloop]
    have hbegins : L.begins c (wokenRefs []) = L := begins_nil L c
    rw [hbegins]
    cases changed' with
    | true | false => exact ⟨{ h with }, ⟨hready, hflight, (fun w hw => by cases hw), fun w hw => by cases hw⟩,
        fun r record text hmem => by cases hmem⟩
  · obtain ⟨hr, hid⟩ := mem_of_find hfind
    have hdue : Due p c (s.objects r) := (due_of_not_skipped (h.scheduled r hr) hskipped).mono hnow
    rw [hloop]
    refine ⟨⟨h.bounded, fun r' hr' => ?_, fun r' hr' => ?_, h.count, h.unused, fun r' hr' hasked hactive hsome => ?_⟩,
      ⟨hready, ?_, fun w _ => hticking, fun w hw => ?_⟩, fun r' record text hmem => ?_⟩
    · show Scheduled p (if r' ∈ [r] then c else L.since r') (s.objects r')
      split
      · exact (h.scheduled r' hr').mono (h.since_le r' hr')
      · exact h.scheduled r' hr'
    · show (if r' ∈ [r] then c else L.since r') ≤ c
      split
      · exact Int.le_refl c
      · exact h.since_le r' hr'
    · have hasked' : (L.requested r' && decide (r' ∉ [r])) = true := hasked
      rw [Bool.and_eq_true] at hasked'
      exact h.due r' hr' hasked'.1 hactive hsome
    · show L.inFlight ++ [r] = [r]
      rw [hflight]
      rfl
    · cases hw
      have hmem : r ∈ [r] := List.mem_singleton.2 rfl
      refine ⟨h.bounded r hr, hid, if_pos hmem, ⟨h0, ?_⟩, ⟨Int.le_refl c, hnow⟩, ?_⟩
      · show c ≤ if r ∈ [r] then c else L.since r
        rw [if_pos hmem]
      · show (L.requested r && decide (r ∉ [r])) = false
        simp
    · cases List.mem_singleton.1 hmem
      exact ⟨hr, rfl, hdue⟩

/-- A polling pass, with its wake. -/
theorem Records.tick {env : Env} {i : Nat} (h : Records p (env.time (i + 1)) L s)
    (hflight : Flight (env.time (i + 1)) L s) (h0 : 0 ≤ env.time (i + 1)) (hnow : env.time i ≤ env.time (i + 1)) :
    Records p (env.time (i + 1)) (L.begins (env.time (i + 1)) (wokenRefs (s.tick p workspaceRoot env i).2))
        (s.tick p workspaceRoot env i).1 ∧
      Flight (env.time (i + 1)) (L.begins (env.time (i + 1)) (wokenRefs (s.tick p workspaceRoot env i).2))
        (s.tick p workspaceRoot env i).1 ∧
      ∀ r record text, .wake r record text ∈ (s.tick p workspaceRoot env i).2 →
        r ∈ (s.tick p workspaceRoot env i).1.routines ∧ (s.tick p workspaceRoot env i).1.objects r = record ∧
          Due p (env.time (i + 1)) record := by
  unfold State.tick
  split
  · have hbegins : L.begins (env.time (i + 1)) (wokenRefs []) = L := begins_nil L _
    rw [hbegins]
    exact ⟨h, hflight, fun r record text hmem => by cases hmem⟩
  rename_i hgate
  have hidle : s.ticking = false := by
    simp only [Bool.or_eq_true, not_or, Bool.not_eq_true] at hgate
    exact hgate.1.2
  have hwake : s.wake = none := by
    cases hw : s.wake with
    | none => rfl
    | some w =>
      have hticking := hflight.ticking w hw
      rw [hidle] at hticking
      cases hticking
  have hempty : L.inFlight = [] := by
    rw [hflight.inFlight, hwake]
    rfl
  have hticking : Records p (env.time (i + 1)) L { s with ticking := true } := { h with }
  exact hticking.tickLoop hflight.ready rfl hempty h0 hnow env false _

theorem Records.closes (h : Records p c L s) (hflight : Flight c L s) {clock : Int} (hle : c ≤ clock)
    (h0 : 0 ≤ clock) :
    Kept p (L.closes clock s) s := by
  have hasked : ∀ r, (L.closes clock s).requested r = true → L.requested r = true ∧ r ∈ s.routines ∧
      (s.objects r).state = .active ∧ (s.objects r).intervalMinutes ≠ none := by
    intro r hr
    have hr' : (L.requested r && decide (r ∈ s.routines) && decide ((s.objects r).state = .active) &&
      (s.objects r).intervalMinutes.isSome) = true := hr
    simp only [Bool.and_eq_true, decide_eq_true_eq] at hr'
    obtain ⟨⟨⟨hrequested, hmem⟩, hactive⟩, hsome⟩ := hr'
    refine ⟨hrequested, hmem, hactive, fun hnone => ?_⟩
    rw [hnone] at hsome
    cases hsome
  refine ⟨{ (h.mono hle) with due := fun r hr hrequested hactive hsome => ?_ }, ?_, h0, fun r hr => (hasked r hr).2⟩
  · exact (h.mono hle).due r hr (hasked r hrequested).1 hactive hsome
  · refine { (hflight.mono hle) with pending := fun w hw => ?_ }
    have hpending := (hflight.mono hle).pending w hw
    refine { hpending with requested := ?_ }
    cases hclosed : (L.closes clock s).requested w.ref with
    | false => rfl
    | true =>
      have hrequested := (hasked _ hclosed).1
      rw [hpending.requested] at hrequested
      cases hrequested

theorem Kept.timed (h : Kept p L s) : Timed p L s where
  next := fun r hr hactive i hi => (h.records.scheduled r hr).dueAt hactive hi
  alone := by
    rw [h.flight.inFlight]
    cases s.wake with
    | none => exact Nat.zero_le 1
    | some w => exact Nat.le_refl 1
  count := h.records.count
  requested := fun r hr => by
    obtain ⟨hmem, hactive, hsome⟩ := h.asked r hr
    exact ⟨hmem, h.records.due r hmem hr hactive hsome⟩

theorem Ready.kept (h : Ready p L s) : Kept p L s where
  records :=
    { bounded := h.bounded
      scheduled := h.scheduled
      since_le := h.since_le
      count := h.count
      unused := h.unused
      due := fun r _ hr => by
        rw [h.requested r] at hr
        cases hr }
  flight :=
    { ready := ⟨h.prepared, h.idle.1, h.idle.2.2.2⟩
      inFlight := by
        rw [h.inFlight, h.idle.2.1]
        rfl
      ticking := fun w hw => by
        rw [h.idle.2.1] at hw
        cases hw
      pending := fun w hw => by
        rw [h.idle.2.1] at hw
        cases hw }
  clock := h.clock
  asked := fun r hr => by
    rw [h.requested r] at hr
    cases hr

end Wrenyard.Scheduler
