import Wrenyard.Session.PromptEmission

/-!
# The reasoning context only grows at its end

A request is assembled right after its `step.started`.  What later events add to the index never changes an item of
the request: an action that was still running is answered as running for good, because the `step.started` at the end
of the request lies between its start and any later result.

The exception is a step that is written to from both sides of the request: a `reasoning.completed` after the request
turns the record of an earlier `action.started` of its step into a tool call, and an `action.started` after the
request adds a call to an earlier reasoning output of its step.  `CrossFree` rules this out.
-/

namespace Wrenyard.Session

open Js Assembly List

/-- No reasoning output after the request belongs to the step of an action started before it, nor an action after it
to the step of an output before it. -/
structure CrossFree (events more : List LedgerEvent) : Prop where
  completed : ∀ e ∈ events, ∀ d ∈ more, e.isActionStarted = true → d.isReasoningCompleted = true → d.key ≠ e.key
  started : ∀ e ∈ events, ∀ d ∈ more, e.isReasoningCompleted = true → d.isActionStarted = true → d.key ≠ e.key

def LedgerEvent.keepsFloors (event : LedgerEvent) : Bool :=
  match event.body with
  | .contextCompacted _ | .contextReduced _ => false
  | _ => true

namespace Occurrences

section

variable {events more : List LedgerEvent} {start : StartOccurrence} {index : Nat}

private theorem startAt_eq (hi : index < events.length) :
    (ofEvents (events ++ more)).startAt index = (ofEvents events).startAt index := by
  obtain ⟨new, hstarts, hnew⟩ := (ofEvents_extends events more).starts
  have hnone : new.find? (·.index == index) = none := by
    rw [List.find?_eq_none]
    intro s hs heq
    have := (hnew s hs).1
    rw [(indexes_ofEvents events).next, beq_iff_eq.1 heq] at this
    omega
  rw [startAt, hstarts, List.find?_append, hnone, Option.or_none]
  rfl

private theorem startFor_eq (hi : index < events.length) :
    (ofEvents (events ++ more)).startFor index = (ofEvents events).startFor index := by
  obtain ⟨new, hpairs, hnew⟩ := (ofEvents_extends events more).pairs
  have hnone : new.find? (fun pair => pair.2.index == index) = none := by
    rw [List.find?_eq_none]
    intro p hp heq
    have := hnew p hp
    rw [(indexes_ofEvents events).next, beq_iff_eq.1 heq] at this
    omega
  rw [startFor, hpairs, List.find?_append, hnone, Option.or_none]
  rfl

private theorem finishFor_cases (events more : List LedgerEvent) (start : StartOccurrence) :
    (∃ f, (ofEvents events).finishFor start = some f ∧ f.index < events.length ∧
        (ofEvents (events ++ more)).finishFor start = some f) ∨
      (ofEvents events).finishFor start = none ∧
        ∀ f, (ofEvents (events ++ more)).finishFor start = some f → events.length ≤ f.index := by
  have h := indexes_ofEvents events
  obtain ⟨new, hpairs, hnew⟩ := (ofEvents_extends events more).pairs
  have hlong : (ofEvents (events ++ more)).finishFor start =
      (((ofEvents events).resolved.pairs.find? fun pair => pair.1.index == start.index).or
        (new.find? fun pair => pair.1.index == start.index)).map Prod.snd := by
    rw [finishFor, hpairs, List.find?_append]
  cases hfind : (ofEvents events).resolved.pairs.find? (fun pair => pair.1.index == start.index) with
  | some pair =>
    left
    refine ⟨pair.2, by rw [finishFor, hfind]; rfl, ?_, by rw [hlong, hfind]; rfl⟩
    rw [← h.next]
    exact h.finish_lt (mem_of_find?_eq_some hfind)
  | none =>
    right
    refine ⟨by rw [finishFor, hfind]; rfl, fun f hf => ?_⟩
    rw [hlong, hfind, Option.none_or] at hf
    obtain ⟨pair, hpair, rfl⟩ := Option.map_eq_some_iff.1 hf
    rw [← h.next]
    exact hnew pair (mem_of_find?_eq_some hpair)

private theorem isNative_eq (hcross : CrossFree events more) (hs : start ∈ (ofEvents events).starts) :
    (ofEvents (events ++ more)).isNative start = (ofEvents events).isNative start := by
  obtain ⟨e, he, hstart, hkey⟩ := (indexes_ofEvents events).ofStart start hs
  unfold isNative
  rw [decide_eq_decide, (ofEvents_extends events more).completedSteps]
  constructor
  · rintro (hold | ⟨d, hd, hcompleted, hdk⟩)
    · exact hold
    · exact absurd (hdk.trans hkey) (hcross.completed e (mem_of_getElem? he) d hd hstart hcompleted)
  · exact .inl

private theorem callsOf_eq (hcross : CrossFree events more) {event : LedgerEvent} (hevent : event ∈ events)
    (hcompleted : event.isReasoningCompleted = true) :
    (ofEvents (events ++ more)).callsOf event.key = (ofEvents events).callsOf event.key := by
  obtain ⟨new, hstarts, hnew⟩ := (ofEvents_extends events more).starts
  have hnone : new.filter (·.key == event.key) = [] := by
    rw [filter_eq_nil_iff]
    intro s hs heq
    obtain ⟨_, d, hd, hstart, hkey⟩ := hnew s hs
    exact hcross.started event hevent d hd hcompleted hstart (hkey.symm.trans (beq_iff_eq.1 heq))
  rw [callsOf, hstarts, filter_append, hnone, append_nil]
  rfl

variable (hlast : ∃ e, events.getLast? = some e ∧ e.isStepStarted = true)

include hlast

private theorem last_mem_stepStarts : events.length - 1 ∈ (ofEvents events).stepStarts := by
  obtain ⟨e, he, hstep⟩ := hlast
  rw [List.getLast?_eq_getElem?] at he
  exact ((indexes_ofEvents events).stepStarts _).2 ⟨e, he, hstep⟩

variable (hs : start ∈ (ofEvents events).starts)
include hs

private theorem start_lt_last : start.index < events.length - 1 := by
  obtain ⟨e, he, hstep⟩ := hlast
  rw [List.getLast?_eq_getElem?] at he
  have h := indexes_ofEvents events
  have hlt := h.start_lt hs
  rw [h.next] at hlt
  obtain ⟨e', he', hstart, _⟩ := h.ofStart start hs
  have hne : start.index ≠ events.length - 1 := by
    intro heq
    rw [heq, he, Option.some.injEq] at he'
    subst he'
    obtain ⟨a, ha⟩ := LedgerEvent.isActionStarted_iff.1 hstart
    rw [LedgerEvent.isStepStarted, ha] at hstep
    cases hstep
  omega

private theorem late_of_unresolved
    (hnone : (ofEvents events).finishFor start = none) : (ofEvents events).arrivedLate start = true := by
  unfold arrivedLate
  rw [hnone, any_eq_true]
  exact ⟨_, last_mem_stepStarts hlast, by simpa using start_lt_last hlast hs⟩

private theorem arrivedLate_eq :
    (ofEvents (events ++ more)).arrivedLate start = (ofEvents events).arrivedLate start := by
  obtain ⟨new, hstarts, hnew⟩ := (ofEvents_extends events more).stepStarts
  have hmarker := last_mem_stepStarts hlast
  have hlt := start_lt_last hlast hs
  rcases finishFor_cases events more start with ⟨f, hf, hfi, hf'⟩ | ⟨hnone, hlater⟩
  · -- later markers stand after the result
    have hnew' : new.any (fun place => decide (start.index < place) && (some f).all fun finish =>
        decide (place < finish.index)) = false := by
      rw [any_eq_false]
      intro place hplace
      have := hnew place hplace
      rw [(indexes_ofEvents events).next] at this
      simp only [Option.all_some, Bool.and_eq_true, decide_eq_true_eq, not_and]
      omega
    unfold arrivedLate
    rw [hf, hf', hstarts, any_append, hnew', Bool.or_false]
  · -- the marker of the request stands between the start and any result
    have hlate' : (ofEvents (events ++ more)).arrivedLate start = true := by
      unfold arrivedLate
      rw [hstarts, any_append, any_eq_true.2 ⟨_, hmarker, ?_⟩, Bool.true_or]
      rw [Bool.and_eq_true, decide_eq_true_eq]
      refine ⟨hlt, ?_⟩
      cases hf : (ofEvents (events ++ more)).finishFor start with
      | none => rfl
      | some f =>
        have := hlater f hf
        simp only [Option.all_some, decide_eq_true_eq]
        omega
    rw [late_of_unresolved hlast hs hnone, hlate']

private theorem deliveredBy_eq :
    (ofEvents (events ++ more)).deliveredBy start = (ofEvents events).deliveredBy start := by
  unfold deliveredBy
  rw [arrivedLate_eq hlast hs]
  rcases finishFor_cases events more start with ⟨f, hf, _, hf'⟩ | ⟨hnone, _⟩
  · rw [hf, hf']
  · have hlate := late_of_unresolved hlast hs hnone
    rw [if_pos hlate, if_pos hlate]

omit hs

end

end Occurrences

section

variable {encodeLength : JsString → Nat} {images : JsString → Option JsString} {floor : Option Nat}
  {events more : List LedgerEvent}

open Occurrences

/-- No item of the request changes. -/
private theorem emit_eq (hlast : ∃ e, events.getLast? = some e ∧ e.isStepStarted = true)
    (hcross : CrossFree events more) {event : LedgerEvent} (hevent : events[index]? = some event) :
    emit encodeLength images floor (ofEvents (events ++ more)) index event =
    emit encodeLength images floor (ofEvents events) index event := by
  have h := indexes_ofEvents events
  have hi := (List.getElem?_eq_some_iff.1 hevent).1
  unfold emit
  cases hb : event.body with
  | actionStarted a =>
    rw [startAt_eq hi]
    cases hs : (ofEvents events).startAt index with
    | none => rfl
    | some start =>
      have hmem : start ∈ (ofEvents events).starts := mem_of_find?_eq_some hs
      rw [Option.any_some, Option.any_some, isNative_eq hcross hmem]
  | reasoningCompleted r =>
    dsimp only
    have hcompleted : event.isReasoningCompleted = true := by rw [LedgerEvent.isReasoningCompleted, hb]
    have hcalls := callsOf_eq hcross (mem_of_getElem? hevent) hcompleted
    have hanswers : ∀ start ∈ (ofEvents events).callsOf event.key,
        answerOf encodeLength floor (ofEvents (events ++ more)) start =
          answerOf encodeLength floor (ofEvents events) start := by
      intro start hstart
      have hmem : start ∈ (ofEvents events).starts := mem_of_mem_filter hstart
      rw [answerOf, answerOf, toolResult_eq, toolResult_eq, deliveredBy_eq hlast hmem]
    have houtput : outputOf floor (ofEvents (events ++ more)) event r = outputOf floor (ofEvents events) event r := by
      rw [outputOf, hcalls]
      rfl
    rw [hcalls, houtput]
    congr 3
    exact map_congr_left fun start hstart => congrArg Item.message (hanswers start hstart)
  | actionFinished f =>
    rw [startFor_eq hi]
    cases hs : (ofEvents events).startFor index with
    | none => rfl
    | some start =>
      have hmem : start ∈ (ofEvents events).starts := by
        obtain ⟨pair, hpair, rfl⟩ := Option.map_eq_some_iff.1 hs
        exact h.held _ (.inr ⟨pair.2, mem_of_find?_eq_some hpair⟩)
      rw [Option.any_some, Option.any_some, isNative_eq hcross hmem, arrivedLate_eq hlast hmem]
  | _ => rfl

private theorem emitFrom_append (o : Occurrences) (index : Nat) (xs ys : List LedgerEvent) :
    emitFrom encodeLength images floor o index (xs ++ ys) =
    emitFrom encodeLength images floor o index xs ++ emitFrom encodeLength images floor o (index + xs.length) ys := by
  induction xs generalizing index with
  | nil => rfl
  | cons x xs ih =>
    rw [cons_append, emitFrom, ih, emitFrom, append_assoc, length_cons, Nat.add_right_comm]
    rfl

private theorem emitFrom_congr {o o' : Occurrences} {xs : List LedgerEvent}
    (h : ∀ i event, xs[i]? = some event →
      emit encodeLength images floor o' (index + i) event = emit encodeLength images floor o (index + i) event) :
    emitFrom encodeLength images floor o' index xs = emitFrom encodeLength images floor o index xs := by
  induction xs generalizing index with
  | nil => rfl
  | cons x xs ih =>
    have hx : emit encodeLength images floor o' index x = emit encodeLength images floor o index x := h 0 x rfl
    rw [emitFrom, emitFrom, hx, ih]
    intro i event hevent
    rw [Nat.add_assoc, Nat.add_comm 1 i]
    exact h (i + 1) event hevent

/-- The items of a request end with the closing of its last message. -/
private theorem emitFrom_closes (o : Occurrences) (index : Nat)
    (hlast : ∃ e, events.getLast? = some e ∧ e.isStepStarted = true) :
    ∃ items, emitFrom encodeLength images floor o index events = items ++ [.close] := by
  obtain ⟨e, he, hstep⟩ := hlast
  obtain ⟨init, rfl⟩ := List.getLast?_eq_some_iff.1 he
  obtain ⟨s, hs⟩ := LedgerEvent.isStepStarted_iff.1 hstep
  rw [emitFrom_append]
  refine ⟨emitFrom encodeLength images floor o index init ++
    [recordOf encodeLength floor (index + init.length) e], ?_⟩
  rw [append_assoc, emitFrom, emit, hs]
  rfl

end

section

variable {events more : List LedgerEvent}

private theorem findSome?_reverse_append {α : Type} (f : LedgerEvent → Option α) (h : ∀ e ∈ more, f e = none) :
    (events ++ more).reverse.findSome? f = events.reverse.findSome? f := by
  have hnone : more.reverse.findSome? f = none := by
    rw [List.findSome?_eq_none_iff]
    exact fun e he => h e (mem_reverse.1 he)
  rw [reverse_append, List.findSome?_append, hnone, Option.none_or]

private theorem latestCompaction_append (h : ∀ e ∈ more, e.keepsFloors = true) :
    latestCompaction (events ++ more) = latestCompaction events := by
  refine findSome?_reverse_append _ fun e he => ?_
  have hkeep := h e he
  unfold LedgerEvent.keepsFloors at hkeep
  cases hb : e.body with
  | contextCompacted _ =>
    rw [hb] at hkeep
    cases hkeep
  | _ => rfl

private theorem latestReduction_append (h : ∀ e ∈ more, e.keepsFloors = true) :
    latestReduction (events ++ more) = latestReduction events := by
  refine findSome?_reverse_append _ fun e he => ?_
  have hkeep := h e he
  unfold LedgerEvent.keepsFloors at hkeep
  cases hb : e.body with
  | contextReduced _ =>
    rw [hb] at hkeep
    cases hkeep
  | _ => rfl

/-- The continuation that is above the floor. -/
private theorem contextEvents_append (events : List LedgerEvent) (h : ∀ e ∈ more, e.keepsFloors = true) :
    ∃ rest, contextEvents (events ++ more) = contextEvents events ++ rest ∧ ∀ e ∈ rest, e ∈ more := by
  unfold contextEvents
  rw [latestCompaction_append h]
  split
  · exact ⟨more, rfl, fun e he => he⟩
  · exact ⟨_, filter_append .., fun e he => mem_of_mem_filter he⟩

private theorem reducedFloor_append (h : ∀ e ∈ more, e.keepsFloors = true) :
    reducedFloor (events ++ more) = reducedFloor events := by
  obtain ⟨rest, hrest, hmem⟩ := contextEvents_append events h
  unfold reducedFloor
  rw [hrest, latestReduction_append fun e he => h e (hmem e he), latestCompaction_append h]

/-- The request is empty, or still ends with its marker. -/
private theorem contextEvents_last (hseq : Increasing events)
    (hlast : ∃ e, events.getLast? = some e ∧ e.isStepStarted = true) :
    contextEvents events = [] ∨ ∃ e, (contextEvents events).getLast? = some e ∧ e.isStepStarted = true := by
  obtain ⟨e, he, hstep⟩ := hlast
  unfold contextEvents
  split
  · exact .inr ⟨e, he, hstep⟩
  rename_i compaction _
  obtain ⟨init, rfl⟩ := List.getLast?_eq_some_iff.1 he
  rw [filter_append]
  by_cases habove : e.seq > compaction.throughSeq
  · right
    refine ⟨e, ?_, hstep⟩
    have hfilter : [e].filter (·.seq > compaction.throughSeq) = [e] := by simp [habove]
    rw [hfilter, List.getLast?_concat]
  -- the marker is the newest event, so nothing is above the floor
  left
  rw [← filter_append, filter_eq_nil_iff]
  intro x hx hgt
  rw [decide_eq_true_eq] at hgt
  have hle : x.seq ≤ e.seq := by
    rcases mem_append.1 hx with hx | hx
    · exact Nat.le_of_lt ((pairwise_append.1 hseq).2.2 x hx e (mem_singleton.2 rfl))
    · rw [mem_singleton.1 hx]
  omega

private theorem CrossFree.mono {events' more' : List LedgerEvent} (h : CrossFree events more)
    (he : ∀ e ∈ events', e ∈ events) (hm : ∀ e ∈ more', e ∈ more) : CrossFree events' more' where
  completed e hee d hd := h.completed e (he e hee) d (hm d hd)
  started e hee d hd := h.started e (he e hee) d (hm d hd)

private theorem mem_of_mem_contextEvents {e : LedgerEvent} (h : e ∈ contextEvents events) : e ∈ events := by
  unfold contextEvents at h
  split at h
  · exact h
  · exact mem_of_mem_filter h

end

/-- The request of a timeline that ends with a `step.started` is a prefix of the request of every continuation that
moves no floor and writes to no step across the marker. -/
theorem renderReasonContext_prefix (encodeLength : JsString → Nat) (images : JsString → Option JsString)
    (allowImages : Option Bool) (events more : List LedgerEvent) (hseq : Increasing events)
    (hlast : ∃ e, events.getLast? = some e ∧ e.isStepStarted = true) (hfloors : ∀ e ∈ more, e.keepsFloors = true)
    (hcross : CrossFree events more) :
    renderReasonContext encodeLength images allowImages events <+:
      renderReasonContext encodeLength images allowImages (events ++ more) := by
  rw [renderReasonContext_eq, renderReasonContext_eq]
  apply List.IsPrefix.map
  obtain ⟨rest, hrest, hmem⟩ := contextEvents_append events hfloors
  unfold sourcedReasonContext
  rw [reducedFloor_append hfloors, hrest]
  dsimp only
  rcases contextEvents_last hseq hlast with hnil | hlast'
  · rw [hnil]
    exact List.nil_prefix
  have hcross' : CrossFree (contextEvents events) rest :=
    hcross.mono (fun e he => mem_of_mem_contextEvents he) hmem
  obtain ⟨items, hitems⟩ := emitFrom_closes (Occurrences.ofEvents (contextEvents events)) 0 hlast'
  have hsame : emitFrom encodeLength (if allowImages = some false then fun _ => none else images)
      (reducedFloor events) (Occurrences.ofEvents (contextEvents events ++ rest)) 0 (contextEvents events) =
      emitFrom encodeLength (if allowImages = some false then fun _ => none else images)
        (reducedFloor events) (Occurrences.ofEvents (contextEvents events)) 0 (contextEvents events) := by
    apply emitFrom_congr
    intro i event hevent
    rw [Nat.zero_add]
    exact emit_eq hlast' hcross' hevent
  rw [emitFrom_append, hsame, hitems]
  exact assemble_prefix ..

def StepFree (events more : List LedgerEvent) : Prop :=
  ∀ d ∈ more, d.isActionStarted = true ∨ d.isReasoningCompleted = true →
    ∀ s ∈ events.dropLast, s.isStepStarted = true → ¬(d.turn = s.turn ∧ d.step = s.step)

instance (events more : List LedgerEvent) : Decidable (StepFree events more) := by
  unfold StepFree
  infer_instance

/-- An event of step `step` of the first turn. -/
def stepEvent (seq step : Nat) (body : EventBody) : LedgerEvent := ⟨⟨some 1, some step, body⟩, seq, []⟩

def runningAction : List LedgerEvent :=
  [stepEvent 1 1 (.stepStarted ⟨js "t1.1", js "t1", js "m", none, none⟩),
    stepEvent 2 1 (.actionStarted ⟨js "a1", js "t1.1", .search, js "x", none, none⟩),
    stepEvent 3 1 (.reasoningCompleted ⟨js "s1", js "y", none⟩),
    stepEvent 4 2 (.stepStarted ⟨js "t1.2", js "t1", js "m", none, none⟩)]

def lateResult : List LedgerEvent :=
  [stepEvent 5 1 (.actionFinished ⟨js "a1", .search, .done, js "z", none, none, none, none⟩)]

theorem renderReasonContext_lateResult :
    Increasing runningAction ∧ (∃ e, runningAction.getLast? = some e ∧ e.isStepStarted = true) ∧
      (∀ e ∈ lateResult, e.keepsFloors = true) ∧ CrossFree runningAction lateResult ∧
      renderReasonContext List.length (fun _ => none) none runningAction <+:
        renderReasonContext List.length (fun _ => none) none (runningAction ++ lateResult) := by
  have hseq : Increasing runningAction := by
    unfold Increasing
    decide
  have hlast : ∃ e, runningAction.getLast? = some e ∧ e.isStepStarted = true := ⟨_, rfl, rfl⟩
  have hfloors : ∀ e ∈ lateResult, e.keepsFloors = true := by decide
  have hcross : CrossFree runningAction lateResult := by
    constructor
    · decide
    · decide
  exact ⟨hseq, hlast, hfloors, hcross,
    renderReasonContext_prefix List.length (fun _ => none) none runningAction lateResult hseq hlast hfloors hcross⟩

def earlyAction : List LedgerEvent :=
  [stepEvent 1 1 (.actionStarted ⟨js "a1", js "t1.1", .search, js "x", none, none⟩),
    stepEvent 2 1 (.stepStarted ⟨js "t1.1", js "t1", js "m", none, none⟩)]

def laterOutput : List LedgerEvent := [stepEvent 3 1 (.reasoningCompleted ⟨js "s1", js "y", none⟩)]

/-- The output turns the record of the action into a tool call, although its step did not start before the marker. -/
theorem renderReasonContext_not_prefix :
    Increasing (earlyAction ++ laterOutput) ∧ (∃ e, earlyAction.getLast? = some e ∧ e.isStepStarted = true) ∧
      (∀ e ∈ laterOutput, e.keepsFloors = true) ∧ StepFree earlyAction laterOutput ∧
      ¬renderReasonContext List.length (fun _ => none) none earlyAction <+:
        renderReasonContext List.length (fun _ => none) none (earlyAction ++ laterOutput) := by
  refine ⟨?_, ⟨_, rfl, rfl⟩, by decide, by decide, by decide⟩
  unfold Increasing
  decide

end Wrenyard.Session
