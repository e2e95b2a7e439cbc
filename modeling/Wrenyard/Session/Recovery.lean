import Wrenyard.Lib.Transition
import Wrenyard.Session.DocumentCommit
import Wrenyard.Session.Summary

/-!
# Crash recovery

`recover` and `closeDanglingChildren` of `turn/engine.ts`.  A recovery reads the timeline once and works from that
snapshot: for every turn that was started and never finished it closes the turn's spans, actions and steps, appends
`turn.interrupted`, cancels the live task runs of the turn and appends `turn.finished`.  The operations it performs
are a list that only depends on the snapshot (`recoveryPlan`).

A recovery may end early at any of them, with a crash of the process or with an append that fails; an append that
fails with its line in the file is one that was performed.  The next recovery starts over from the timeline it finds.
The runs of `recoveryStep` are all sequences of such attempts.
-/

namespace Wrenyard.Session

open Js Transition

/-- The three namespaces of ids that are closed with their turn. -/
inductive ChildKind where
  | span | action | step
deriving DecidableEq

section

variable (kind : ChildKind)

def startedChild (event : LedgerEvent) : Option JsString :=
  match kind, event.body with
  | .span, .spanStarted e => some e.id
  | .action, .actionStarted e => some e.id
  | .step, .stepStarted e => some e.id
  | _, _ => none

def finishedChild (event : LedgerEvent) : Option JsString :=
  match kind, event.body with
  | .span, .spanFinished e => some e.id
  | .action, .actionFinished e => some e.id
  | .step, .stepFinished e => some e.id
  | _, _ => none

/-- The `kind` of the finish event of an interrupted span. -/
def SpanStartedKind.interrupted : SpanStartedKind → SpanFinishedKind
  | .model kind _ => .model { kind, output := none, reasoning := none, requestModel := none, metrics := none }
  | .task _ => .task none

/-- The finish event, with status `interrupted`, of the child an event starts. -/
def closingDraft (event : LedgerEvent) : Option (JsString × LedgerEventDraft) :=
  match kind, event.body with
  | .span, .spanStarted e =>
    some (e.id, ⟨event.turn, event.step,
      .spanFinished { id := e.id, status := .interrupted, error := none, span := e.span.interrupted }⟩)
  | .action, .actionStarted e =>
    some (e.id, ⟨event.turn, event.step,
      .actionFinished { id := e.id, type := e.type, status := .interrupted, result := [], task := none
                        taskStatus := none, taskRunId := none, afterInterrupt := some true }⟩)
  | .step, .stepStarted e =>
    some (e.id, ⟨event.turn, event.step, .stepFinished { id := e.id, status := .interrupted }⟩)
  | _, _ => none

/-- One loop of `closeDanglingChildren`: an id that is neither finished nor seen before is closed. -/
def closeLoop (kind : ChildKind) (finished : List JsString) : List JsString → List LedgerEvent → List LedgerEventDraft
  | _, [] => []
  | seen, event :: events =>
    match closingDraft kind event with
    | none => closeLoop kind finished seen events
    | some (id, draft) =>
      if id ∈ finished ∨ id ∈ seen then closeLoop kind finished seen events
      else draft :: closeLoop kind finished (OSet.add seen id) events

def turnEvents (events : List LedgerEvent) (turn : Nat) : List LedgerEvent := events.filter (·.turn = some turn)

def startedChildren (events : List LedgerEvent) (turn : Nat) : List JsString :=
  (turnEvents events turn).filterMap (startedChild kind)

def finishedChildren (events : List LedgerEvent) (turn : Nat) : List JsString :=
  (turnEvents events turn).filterMap (finishedChild kind)

def closeChildren (events : List LedgerEvent) (turn : Nat) : List LedgerEventDraft :=
  closeLoop kind (finishedChildren kind events turn) [] (turnEvents events turn)

variable (events : List LedgerEvent)

def closeDanglingChildren (turn : Nat) : List LedgerEventDraft :=
  closeChildren .span events turn ++ closeChildren .action events turn ++ closeChildren .step events turn

inductive RecoveryOp where
  | append (draft : LedgerEventDraft)
  | cancelTask (taskRunId : JsString)
deriving DecidableEq

def finishedSpans (events : List LedgerEvent) : List JsString := events.filterMap (finishedChild .span)

def taskSpan (turn : Nat) (event : LedgerEvent) : Option (JsString × JsString) :=
  if event.turn = some turn then
    match event.body with
    | .spanStarted { id, span := .task request, .. } => some (id, request.taskRunId)
    | _ => none
  else none

/-- The task spans of a turn without a matching `span.finished`, with their task runs. -/
def liveTaskSpans (turn : Nat) : List (JsString × JsString) :=
  (events.filterMap (taskSpan turn)).filter fun task => task.1 ∉ finishedSpans events

def liveTaskRuns (events : List LedgerEvent) (turn : Nat) : List JsString := (liveTaskSpans events turn).map Prod.snd

def startedTurns (events : List LedgerEvent) : List Nat := events.filterMap startedTurn

def finishedTurns (events : List LedgerEvent) : List Nat := events.filterMap finishedTurn

def openTurns : List Nat :=
  (OSet.ofList (startedTurns events)).filter (· ∉ finishedTurns events)

def interruptedDraft (turn : Nat) : LedgerEventDraft :=
  ⟨some turn, none, .turnInterrupted { parent := turnId turn, reason := .shutdown }⟩

def turnFinishedDraft (turn : Nat) : LedgerEventDraft :=
  ⟨some turn, none, .turnFinished { id := turnId turn, status := .interrupted, error := none }⟩

/-- What `recover` does for one open turn before its `turn.finished`. -/
def closingOps (turn : Nat) : List RecoveryOp :=
  (closeDanglingChildren events turn ++ [interruptedDraft turn]).map .append ++
    (liveTaskRuns events turn).map .cancelTask

/-- The operations of `recover` on a snapshot. -/
def recoveryPlan : List RecoveryOp :=
  (openTurns events).flatMap fun turn => closingOps events turn ++ [.append (turnFinishedDraft turn)]

def planned (ops : List RecoveryOp) : List LedgerEvent :=
  ops.filterMap fun
    | .append draft => some ⟨draft, 0, []⟩
    | .cancelTask _ => none

def cancels (ops : List RecoveryOp) : List JsString :=
  ops.filterMap fun
    | .append _ => none
    | .cancelTask taskRunId => some taskRunId

@[simp] theorem planned_append (ops ops' : List RecoveryOp) : planned (ops ++ ops') = planned ops ++ planned ops' :=
  List.filterMap_append

@[simp] theorem cancels_append (ops ops' : List RecoveryOp) : cancels (ops ++ ops') = cancels ops ++ cancels ops' :=
  List.filterMap_append

@[simp] theorem planned_map_append (drafts : List LedgerEventDraft) :
    planned (drafts.map .append) = drafts.map fun draft => ⟨draft, 0, []⟩ := by
  induction drafts with
  | nil => rfl
  | cons draft drafts ih => exact congrArg _ ih

@[simp] theorem planned_map_cancelTask (runs : List JsString) : planned (runs.map .cancelTask) = [] := by
  induction runs with
  | nil => rfl
  | cons run runs ih => exact ih

theorem mem_cancels {ops : List RecoveryOp} {run : JsString} : run ∈ cancels ops ↔ .cancelTask run ∈ ops := by
  unfold cancels
  rw [List.mem_filterMap]
  constructor
  · rintro ⟨op, hop, heq⟩
    cases op with
    | append draft => cases heq
    | cancelTask run' =>
      cases heq
      exact hop
  · intro h
    exact ⟨_, h, rfl⟩

end

variable (events events' : List LedgerEvent)

@[simp] theorem turnEvents_append (turn : Nat) :
    turnEvents (events ++ events') turn = turnEvents events turn ++ turnEvents events' turn :=
  List.filter_append ..

variable (kind : ChildKind)

@[simp] theorem startedChildren_append (events events' : List LedgerEvent) (turn : Nat) :
    startedChildren kind (events ++ events') turn =
    startedChildren kind events turn ++ startedChildren kind events' turn := by
  simp [startedChildren]

@[simp] theorem finishedChildren_append (events events' : List LedgerEvent) (turn : Nat) :
    finishedChildren kind (events ++ events') turn =
    finishedChildren kind events turn ++ finishedChildren kind events' turn := by
  simp [finishedChildren]

@[simp] theorem startedTurns_append :
    startedTurns (events ++ events') = startedTurns events ++ startedTurns events' :=
  List.filterMap_append

@[simp] theorem finishedTurns_append :
    finishedTurns (events ++ events') = finishedTurns events ++ finishedTurns events' :=
  List.filterMap_append

@[simp] theorem finishedSpans_append :
    finishedSpans (events ++ events') = finishedSpans events ++ finishedSpans events' :=
  List.filterMap_append

def Closing (turn : Nat) (event : LedgerEvent) : Prop :=
  event.turn = some turn ∧ startedTurn event = none ∧ finishedTurn event = none ∧
    ∀ kind, startedChild kind event = none

theorem closingDraft_spec {kind : ChildKind} {event : LedgerEvent} {id : JsString} {draft : LedgerEventDraft}
    (h : closingDraft kind event = some (id, draft)) (turn : Nat) (hturn : event.turn = some turn) :
    startedChild kind event = some id ∧ Closing turn ⟨draft, 0, []⟩ ∧ finishedChild kind ⟨draft, 0, []⟩ = some id ∧
    ∀ kind', kind' ≠ kind → finishedChild kind' ⟨draft, 0, []⟩ = none := by
  unfold closingDraft at h
  split at h
  all_goals first
    | cases h
      rename_i hbody
      refine ⟨by simp only [startedChild, hbody], ⟨hturn, rfl, rfl, ?_⟩, rfl, ?_⟩
      · rintro ⟨⟩ <;> rfl
      · rintro ⟨⟩ hk <;> first | rfl | exact absurd rfl hk
    | cases h

theorem closingDraft_eq_none {kind : ChildKind} {event : LedgerEvent} (h : closingDraft kind event = none) :
    startedChild kind event = none := by
  unfold closingDraft at h
  split at h
  · cases h
  · cases h
  · cases h
  · unfold startedChild
    split <;> simp_all

theorem closeLoop_spec (finished : List JsString) (turn : Nat) (events : List LedgerEvent)
    (seen : List JsString) (hturn : ∀ event ∈ events, event.turn = some turn) :
    (∀ draft ∈ closeLoop kind finished seen events, Closing turn ⟨draft, 0, []⟩ ∧
      ∀ kind', kind' ≠ kind → finishedChild kind' ⟨draft, 0, []⟩ = none) ∧
    ∃ ids : List JsString,
      (closeLoop kind finished seen events).map (fun draft => finishedChild kind ⟨draft, 0, []⟩) = ids.map some ∧
      ids.Nodup ∧ ∀ id, id ∈ ids ↔ id ∈ events.filterMap (startedChild kind) ∧ id ∉ finished ∧ id ∉ seen := by
  induction events generalizing seen with
  | nil => exact ⟨by simp [closeLoop], [], rfl, List.nodup_nil, by simp⟩
  | cons event events ih =>
    have hevents : ∀ event ∈ events, event.turn = some turn := fun e he => hturn e (List.mem_cons_of_mem _ he)
    unfold closeLoop
    split
    · rename_i hnone
      rw [List.filterMap_cons_none (closingDraft_eq_none hnone)]
      exact ih seen hevents
    rename_i id draft hsome
    obtain ⟨hstart, hclosing, hfin, hother⟩ := closingDraft_spec hsome turn (hturn event (List.mem_cons_self ..))
    rw [List.filterMap_cons_some hstart]
    split
    · rename_i hskip
      obtain ⟨hdrafts, ids, hids, hnodup, hmem⟩ := ih seen hevents
      refine ⟨hdrafts, ids, hids, hnodup, fun x => ?_⟩
      rw [hmem, List.mem_cons]
      constructor
      · rintro ⟨hx, hrest⟩
        exact ⟨Or.inr hx, hrest⟩
      · rintro ⟨rfl | hx, hfin', hseen⟩
        · rcases hskip with h | h
          · exact absurd h hfin'
          · exact absurd h hseen
        · exact ⟨hx, hfin', hseen⟩
    · rename_i hnew
      rw [not_or] at hnew
      obtain ⟨hdrafts, ids, hids, hnodup, hmem⟩ := ih (OSet.add seen id) hevents
      refine ⟨?_, id :: ids, by simp [hfin, hids], ?_, fun x => ?_⟩
      · intro d hd
        rcases List.mem_cons.mp hd with rfl | hd
        · exact ⟨hclosing, hother⟩
        · exact hdrafts d hd
      · rw [List.nodup_cons]
        refine ⟨fun hid => ?_, hnodup⟩
        exact ((hmem id).mp hid).2.2 (OSet.mem_add.mpr (Or.inr rfl))
      · rw [List.mem_cons, hmem, List.mem_cons, OSet.mem_add, not_or]
        constructor
        · rintro (rfl | ⟨hx, hfin', hseen, _⟩)
          · exact ⟨Or.inl rfl, hnew.1, hnew.2⟩
          · exact ⟨Or.inr hx, hfin', hseen⟩
        · rintro ⟨rfl | hx, hfin', hseen⟩
          · exact Or.inl rfl
          · by_cases hxid : x = id
            · exact Or.inl hxid
            · exact Or.inr ⟨hx, hfin', hseen, hxid⟩

structure RecoveryAttempt where
  snapshot : List LedgerEvent
  performed : List RecoveryOp
  remaining : List RecoveryOp

structure RecoveryState where
  timeline : List LedgerEvent
  /-- The task runs `cancelTaskRun` was called for. -/
  cancelled : List JsString
  attempt : Option RecoveryAttempt

def RecoveryState.crashed (timeline : List LedgerEvent) : RecoveryState := ⟨timeline, [], none⟩

inductive RecoveryAction where
  /-- `recoverSession` reads the timeline. -/
  | start
  /-- The next operation of the recovery is performed, at this time. -/
  | perform (time : JsString)
  /-- The recovery fails, or the process crashes. -/
  | stop
deriving DecidableEq

/-- Perform one operation. -/
def RecoveryState.apply (s : RecoveryState) (op : RecoveryOp) (time : JsString) : RecoveryState :=
  match op with
  | .append draft => { s with timeline := s.timeline ++ [stampDraft s.timeline draft time] }
  | .cancelTask taskRunId => { s with cancelled := s.cancelled ++ [taskRunId] }

def recoveryStep (s : RecoveryState) : RecoveryAction → Option RecoveryState
  | .start =>
    match s.attempt with
    | none => some { s with attempt := some ⟨s.timeline, [], recoveryPlan s.timeline⟩ }
    | some _ => none
  | .perform time =>
    match s.attempt with
    | some { snapshot, performed, remaining := op :: remaining } =>
      some { s.apply op time with attempt := some ⟨snapshot, performed ++ [op], remaining⟩ }
    | _ => none
  | .stop =>
    match s.attempt with
    | some _ => some { s with attempt := none }
    | none => none

def RecoveryStep (s : RecoveryState) (action : RecoveryAction) (s' : RecoveryState) : Prop :=
  recoveryStep s action = some s'

/-- The recovery in progress has performed all of its operations. -/
def RecoveryState.Completed (s : RecoveryState) : Prop := ∃ a, s.attempt = some a ∧ a.remaining = []

end Wrenyard.Session
