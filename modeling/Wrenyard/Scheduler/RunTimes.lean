import Wrenyard.Lib.Checks
import Wrenyard.Scheduler.Service

/-!
# Run times of one routine

`Scheduled` says that the next run of a routine is at most one interval after a given time, and `Due` that the routine
is due.  Every function that changes a record keeps them, or establishes them for the time of the change; an update
does so only where the next run is not later than one new interval from now.
-/

namespace Wrenyard.Scheduler

open Js Option

variable {p : Platform} {record : RoutineRecord} {since now clock : Int}

/-- The latest time a `Date` can hold. -/
def maxDate : Int := 8640000000000000

def longestInterval : Int := 604800000

/-- The text of a date is read back. -/
def Platform.Dates (p : Platform) : Prop := ∀ t : Int, 0 ≤ t → t ≤ maxDate → p.dateParse (p.toISOString t) = some t

def Reading (t : Int) : Prop := 0 ≤ t ∧ t + longestInterval ≤ maxDate

variable {i : JsNumber}

theorem minutesMs_of_valid (h : validInterval i = true) : 0 < minutesMs i ∧ minutesMs i ≤ longestInterval := by
  unfold validInterval at h
  simp only [Bool.and_eq_true, beq_iff_eq, Bool.not_eq_true', decide_eq_true_eq] at h
  obtain ⟨⟨⟨hfraction, hsign⟩, hmin⟩, hmax⟩ := h
  have hms : minutesMs i = (i.whole : Int) * 60000 := by
    unfold minutesMs
    rw [hfraction, hsign]
    simp
  have hlow : (1 : Int) ≤ i.whole := by exact_mod_cast hmin
  have hhigh : (i.whole : Int) ≤ 10080 := by exact_mod_cast hmax
  unfold longestInterval
  constructor <;> omega

theorem parse_after (hp : p.Dates) (hnow : Reading now) (hi : validInterval i = true) :
    p.dateParse (State.after p now i) = some (now + minutesMs i) := by
  obtain ⟨hpos, hle⟩ := minutesMs_of_valid hi
  obtain ⟨h0, hmax⟩ := hnow
  refine hp _ ?_ ?_ <;> omega

/-- The next run of a routine, with `since` the time of its last change or wake. -/
structure Scheduled (p : Platform) (since : Int) (record : RoutineRecord) : Prop where
  interval : ∀ i ∈ record.intervalMinutes, validInterval i = true
  event : record.intervalMinutes = none → record.nextRunAt = none
  timed : record.state = .active → record.intervalMinutes ≠ none → record.nextRunAt ≠ none
  next : ∀ text ∈ record.nextRunAt, ∃ t, p.dateParse text = some t ∧ ∀ i ∈ record.intervalMinutes,
    t ≤ since + minutesMs i

theorem Scheduled.mono (h : Scheduled p since record) {since' : Int} (hle : since ≤ since') :
    Scheduled p since' record where
  interval := h.interval
  event := h.event
  timed := h.timed
  next := fun text htext => by
    obtain ⟨t, ht, hbound⟩ := h.next text htext
    exact ⟨t, ht, fun i hi => by have := hbound i hi; omega⟩

/-- The next run of an active routine with an interval. -/
theorem Scheduled.dueAt (h : Scheduled p since record) (hactive : record.state = .active)
    (hi : record.intervalMinutes = some i) : ∃ due, State.dueAt p record = some due ∧ due ≤ since + minutesMs i := by
  obtain ⟨text, htext⟩ := ne_none_iff_exists'.1 (h.timed hactive (by rw [hi]; exact some_ne_none i))
  obtain ⟨t, ht, hbound⟩ := h.next text htext
  exact ⟨t, by unfold State.dueAt; rw [htext]; exact ht, hbound i hi⟩

theorem scheduled_after (hp : p.Dates) (hnow : Reading now) {interval : Option JsNumber}
    (hvalid : ∀ i ∈ interval, validInterval i = true) {text : JsString}
    (htext : text ∈ interval.map (State.after p now)) :
    ∃ t, p.dateParse text = some t ∧ ∀ i ∈ interval, t ≤ now + minutesMs i := by
  obtain ⟨i, hi, rfl⟩ := map_eq_some_iff.1 htext
  refine ⟨_, parse_after hp hnow (hvalid i hi), fun i' hi' => ?_⟩
  rw [mem_def, hi] at hi'
  cases hi'
  exact Int.le_refl _

theorem scheduled_settled (hp : p.Dates) (h : Scheduled p since record) {fireAt : Int} (hfire : Reading fireAt)
    (hle : fireAt ≤ since) (error : Option JsString) : Scheduled p since (State.settled p fireAt error record) := by
  have hfields : (State.settled p fireAt error record).intervalMinutes = record.intervalMinutes ∧
      (State.settled p fireAt error record).state = record.state ∧
      (State.settled p fireAt error record).nextRunAt =
        (record.intervalMinutes.map (State.after p fireAt)).or record.nextRunAt := by
    unfold State.settled
    cases error <;> cases record.intervalMinutes <;> exact ⟨rfl, rfl, rfl⟩
  obtain ⟨hinterval, hstate, hnext⟩ := hfields
  cases hi : record.intervalMinutes with
  | none =>
    rw [hi, h.event hi] at hnext
    refine ⟨?_, fun _ => hnext, fun _ hne => ?_, fun text htext => ?_⟩
    · rw [hinterval]
      exact h.interval
    · rw [hinterval] at hne
      exact absurd hi hne
    · rw [hnext] at htext
      cases htext
  | some i =>
    have hvalid := h.interval i hi
    rw [hi] at hnext
    refine ⟨?_, fun hnone => ?_, fun _ _ => ?_, fun text htext => ?_⟩
    · rw [hinterval]
      exact h.interval
    · rw [hinterval, hi] at hnone
      cases hnone
    · rw [hnext]
      exact some_ne_none _
    · rw [hnext] at htext
      cases htext
      refine ⟨_, parse_after hp hfire hvalid, fun i' hi' => ?_⟩
      rw [hinterval, hi] at hi'
      cases hi'
      omega

theorem dueAt_settled (hp : p.Dates) {fireAt : Int} (hfire : Reading fireAt) (error : Option JsString)
    (hi : record.intervalMinutes = some i) (hvalid : validInterval i = true) :
    State.dueAt p (State.settled p fireAt error record) = some (fireAt + minutesMs i) := by
  have hnext : (State.settled p fireAt error record).nextRunAt = some (State.after p fireAt i) := by
    unfold State.settled
    rw [hi]
    cases error <;> rfl
  unfold State.dueAt
  rw [hnext]
  exact parse_after hp hfire hvalid

variable {file : RoutineDefinition}

theorem scheduled_createdFrom (hp : p.Dates) (hnow : Reading now) {botId : JsString}
    (hvalid : ∀ i ∈ file.intervalMinutes, validInterval i = true) :
    Scheduled p now (State.createdFrom p now botId file) where
  interval := hvalid
  event := fun hnone => by
    have hnone' : file.intervalMinutes = none := hnone
    simp only [State.createdFrom, hnone', Option.map_none, ite_self]
  timed := fun hactive hsome => by
    have hactive' : file.state = .active := hactive
    simp only [State.createdFrom, hactive', if_true]
    intro hnone
    exact hsome (Option.map_eq_none_iff.1 hnone)
  next := fun text htext => by
    have htext' : text ∈ (if file.state = .active then file.intervalMinutes.map (State.after p now) else none) :=
        htext
    split at htext'
    · exact scheduled_after hp hnow hvalid htext'
    · cases htext'

theorem scheduled_requested (hp : p.Dates) (hnow : Reading now) (h : Scheduled p since record)
    (hsome : record.intervalMinutes ≠ none) : Scheduled p now (State.requested p now record) where
  interval := h.interval
  event := fun hnone => absurd hnone hsome
  timed := fun _ _ => Option.some_ne_none _
  next := fun text htext => by
    cases htext
    refine ⟨now, hp _ hnow.1 (by have := hnow.2; unfold longestInterval at this; omega), fun i hi => ?_⟩
    have hpos := (minutesMs_of_valid (h.interval i hi)).1
    omega

theorem rescheduled_spec (hp : p.Dates) (hnow : Reading now) (h : Scheduled p since record) (hle : since ≤ now)
    (hvalid : ∀ i ∈ file.intervalMinutes, validInterval i = true) {text : JsString}
    (htext : text ∈ State.rescheduled p now file record) :
    ∃ t, p.dateParse text = some t ∧ ∀ i ∈ file.intervalMinutes, t ≤ now + minutesMs i := by
  unfold State.rescheduled at htext
  split at htext
  · cases htext
  rename_i minutes hminutes
  have hparse := parse_after hp hnow (hvalid minutes hminutes)
  split at htext
  · cases htext
    refine ⟨_, hparse, fun i hi => ?_⟩
    rw [mem_def, hminutes] at hi
    cases hi
    exact Int.le_refl _
  · rename_i hkept
    obtain ⟨t, ht, hbound⟩ := h.next text htext
    refine ⟨t, ht, fun i hi => ?_⟩
    rw [mem_def, hminutes] at hi
    cases hi
    by_cases hsame : record.intervalMinutes = some minutes
    · have := hbound minutes hsame
      omega
    by_contra hlate
    refine hkept ⟨hsame, isSome_iff_exists.2 ⟨text, htext⟩, ?_⟩
    have hdue : State.dueAt p record = some t := by
      unfold State.dueAt
      rw [htext]
      exact ht
    rw [hdue, hparse]
    simp only [any_some, gt_iff_lt, decide_eq_true_eq]
    omega

theorem rescheduled_event (h : file.intervalMinutes = none) : State.rescheduled p now file record = none := by
  unfold State.rescheduled
  rw [h]

theorem adopted_spec (file : RoutineDefinition) (record : RoutineRecord) :
    (State.adopted p now file record).id = record.id ∧ (State.adopted p now file record).runCount = record.runCount ∧
      (State.adopted p now file record).intervalMinutes = file.intervalMinutes ∧
      (State.adopted p now file record).state = file.state ∧
      ((State.adopted p now file record).nextRunAt = State.rescheduled p now file record ∨
        (State.adopted p now file record).nextRunAt = file.intervalMinutes.map (State.after p now)) ∧
      (file.state = .active → State.rescheduled p now file record = none →
        (State.adopted p now file record).nextRunAt = file.intervalMinutes.map (State.after p now)) ∧
      (record.state = .active → (State.rescheduled p now file record).isSome = true →
        (State.adopted p now file record).nextRunAt = State.rescheduled p now file record) := by
  unfold State.adopted
  cases hfile : file.state with
  | paused =>
    exact ⟨rfl, rfl, rfl, rfl, .inl rfl, (fun h => by cases h), fun _ _ => rfl⟩
  | active =>
    rw [if_neg (by decide)]
    cases hrecord : record.state with
    | active =>
      rw [if_neg (by decide)]
      split
      · rename_i hnone
        refine ⟨rfl, rfl, rfl, rfl, .inr rfl, fun _ _ => rfl, fun _ hsome => ?_⟩
        rw [isNone_iff_eq_none] at hnone
        rw [hnone] at hsome
        cases hsome
      · rename_i hsome
        refine ⟨rfl, rfl, rfl, rfl, .inl rfl, fun _ hnone => ?_, fun _ _ => rfl⟩
        rw [hnone] at hsome
        exact absurd rfl hsome
    | paused =>
      refine ⟨rfl, rfl, rfl, rfl, ?_, fun _ hnone => ?_, fun h => by cases h⟩
      · show (if _ then _ else _) = _ ∨ (if _ then _ else _) = _
        split
        · exact .inr rfl
        · exact .inl rfl
      · show (if _ then _ else _) = _
        split
        · rfl
        rename_i hneither
        cases hinterval : file.intervalMinutes with
        | none =>
          rw [hnone]
          rfl
        | some i =>
          refine absurd ⟨?_, .inl ?_⟩ hneither
          · rw [hinterval]
            rfl
          · rw [hnone]
            rfl

theorem scheduled_adopted (hp : p.Dates) (hnow : Reading now) (h : Scheduled p since record) (hle : since ≤ now)
    (hvalid : ∀ i ∈ file.intervalMinutes, validInterval i = true) :
    Scheduled p now (State.adopted p now file record) := by
  obtain ⟨-, -, hinterval, hstate, hnext, hactive, -⟩ := @adopted_spec p now file record
  refine ⟨?_, fun hnone => ?_, fun hstate' hsome => ?_, fun text htext => ?_⟩
  · rw [hinterval]
    exact hvalid
  · rw [hinterval] at hnone
    rcases hnext with hnext | hnext
    · rw [hnext, rescheduled_event hnone]
    · rw [hnext, hnone]
      rfl
  · rw [hinterval] at hsome
    rw [hstate] at hstate'
    intro hnone
    cases hold : State.rescheduled p now file record with
    | none =>
      rw [hactive hstate' hold] at hnone
      exact hsome (map_eq_none_iff.1 hnone)
    | some text =>
      rcases hnext with hnext | hnext
      · rw [hnext, hold] at hnone
        cases hnone
      · rw [hnext] at hnone
        exact hsome (map_eq_none_iff.1 hnone)
  · rw [hinterval]
    rcases hnext with hnext | hnext <;> rw [hnext] at htext
    · exact rescheduled_spec hp hnow h hle hvalid htext
    · exact scheduled_after hp hnow hvalid htext

structure Due (p : Platform) (clock : Int) (record : RoutineRecord) : Prop where
  active : record.state = .active
  passed : ∃ due, State.dueAt p record = some due ∧ due ≤ clock

theorem Due.mono (h : Due p clock record) {clock' : Int} (hle : clock ≤ clock') : Due p clock' record where
  active := h.active
  passed := by
    obtain ⟨due, hdue, hpassed⟩ := h.passed
    exact ⟨due, hdue, hpassed.trans hle⟩

theorem due_adopted (hp : p.Dates) (hnow : Reading now) (h : Due p clock record) (hle : clock ≤ now)
    (hvalid : ∀ i ∈ file.intervalMinutes, validInterval i = true) (hactive : file.state = .active)
    (hsome : file.intervalMinutes ≠ none) : Due p clock (State.adopted p now file record) := by
  obtain ⟨i, hi⟩ := ne_none_iff_exists'.1 hsome
  obtain ⟨due, hdue, hpassed⟩ := h.passed
  have hpos := (minutesMs_of_valid (hvalid i hi)).1
  have hkept : State.rescheduled p now file record = record.nextRunAt := by
    unfold State.rescheduled
    rw [hi]
    refine if_neg fun hlate => ?_
    have hlater := hlate.2.2
    rw [hdue, parse_after hp hnow (hvalid i hi)] at hlater
    simp only [any_some, gt_iff_lt, decide_eq_true_eq] at hlater
    omega
  have hnext : record.nextRunAt.isSome = true := by
    unfold State.dueAt at hdue
    cases hnone : record.nextRunAt with
    | none =>
      rw [hnone] at hdue
      cases hdue
    | some text => rfl
  obtain ⟨-, -, -, hstate, -, -, hsame⟩ := @adopted_spec p now file record
  refine ⟨hstate.trans hactive, due, ?_, hpassed⟩
  unfold State.dueAt
  rw [hsame h.active (by rw [hkept]; exact hnext), hkept]
  exact hdue

theorem scheduled_updated (hp : p.Dates) {env : Env} (hnow : Reading (env.time 1))
    (h : Scheduled p since record) (patch : State.UpdateParams) {definition : RoutineDefinition}
    (hvalid : ∀ i ∈ definition.intervalMinutes, validInterval i = true)
    (hbound : ∀ i ∈ definition.intervalMinutes, ∀ due, State.dueAt p record = some due →
      due ≤ env.time 1 + minutesMs i) :
    Scheduled p (env.time 1) (State.updated p env patch definition record) := by
  have hkept : ∀ text ∈ (if definition.intervalMinutes.isSome then record.nextRunAt else none),
      ∃ t, p.dateParse text = some t ∧ ∀ i ∈ definition.intervalMinutes, t ≤ env.time 1 + minutesMs i := by
    intro text htext
    split at htext
    · obtain ⟨t, ht, -⟩ := h.next text htext
      refine ⟨t, ht, fun i hi => hbound i hi t ?_⟩
      unfold State.dueAt
      rw [htext]
      exact ht
    · cases htext
  have hevent : definition.intervalMinutes = none →
      (if definition.intervalMinutes.isSome then record.nextRunAt else none) = none := by
    intro hnone
    rw [hnone]
    rfl
  unfold State.updated
  simp only
  generalize (if definition.intervalMinutes.isSome then record.nextRunAt else none) = nextRunAt at hkept hevent
  split
  · exact ⟨hvalid, hevent, (fun hpaused => by cases hpaused), hkept⟩
  cases hi : definition.intervalMinutes with
  | none =>
    have hnone := hevent hi
    refine ⟨(fun i hmem => by cases hmem), fun _ => ?_, fun _ hne => absurd rfl hne, fun text htext => ?_⟩
    · simp only [hnone, ite_self]
    · simp only [hnone, ite_self] at htext
      cases htext
  | some i =>
    have hi' : i ∈ definition.intervalMinutes := hi
    refine ⟨fun i' hmem => ?_, (fun hnone => by cases hnone), fun _ _ hnone => ?_, fun text htext => ?_⟩
    · cases hmem
      exact hvalid i hi
    · have hnone' : (if nextRunAt.isNone = true ∨
          (nextRunAt.bind p.dateParse).any (fun x => decide (x ≤ env.time 0)) = true then
          some (State.after p (env.time 1) i) else nextRunAt) = none := hnone
      split at hnone'
      · cases hnone'
      · rename_i hkeep
        rw [hnone'] at hkeep
        exact hkeep (.inl rfl)
    · have htext' : text ∈ (if nextRunAt.isNone = true ∨
          (nextRunAt.bind p.dateParse).any (fun x => decide (x ≤ env.time 0)) = true then
          some (State.after p (env.time 1) i) else nextRunAt) := htext
      split at htext'
      · cases htext'
        refine ⟨_, parse_after hp hnow (hvalid i hi), fun i' hmem => ?_⟩
        cases hmem
        exact Int.le_refl _
      obtain ⟨t, ht, hle⟩ := hkept text htext'
      refine ⟨t, ht, fun i' hmem => ?_⟩
      cases hmem
      exact hle i hi'

theorem updated_fields (env : Env) (patch : State.UpdateParams) (definition : RoutineDefinition)
    (record : RoutineRecord) : (State.updated p env patch definition record).id = record.id ∧
    (State.updated p env patch definition record).runCount = record.runCount ∧
    (State.updated p env patch definition record).intervalMinutes = definition.intervalMinutes ∧
    (patch.state = some .paused → (State.updated p env patch definition record).state = .paused) := by
  unfold State.updated
  simp only
  split
  · exact ⟨rfl, rfl, rfl, fun _ => rfl⟩
  rename_i hactive
  refine ⟨rfl, rfl, rfl, fun hpaused => ?_⟩
  rw [hpaused] at hactive
  exact absurd rfl hactive

theorem validInterval_of_validateRoutine {definition valid : RoutineDefinition}
    (h : validateRoutine definition = .ok valid) : valid.id = definition.id ∧ valid.intervalMinutes =
    definition.intervalMinutes ∧ ∀ i ∈ valid.intervalMinutes, validInterval i = true := by
  unfold validateRoutine at h
  split at h
  · cases h
  split at h
  · cases h
  split at h
  · cases h
  obtain ⟨rules, hrules, h⟩ := Checks.bind_eq_ok.1 h
  simp only at h
  split at h <;> cases h
  refine ⟨rfl, rfl, fun i hi => ?_⟩
  unfold validateTrigger at hrules
  split at hrules
  · split at hrules
    · cases hrules
    rename_i hneither
    rw [not_or] at hneither
    have hi' : definition.intervalMinutes = some i := hi
    simpa [hi'] using hneither.2
  · split at hrules
    · cases hrules
    split at hrules
    · cases hrules
    rename_i hnone
    have hi' : definition.intervalMinutes = some i := hi
    rw [hi'] at hnone
    exact absurd rfl hnone

end Wrenyard.Scheduler
