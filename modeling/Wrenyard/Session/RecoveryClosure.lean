import Wrenyard.Session.Recovery

/-!
# What repeated recoveries leave

Whatever attempts were made before it, a recovery that completes leaves every turn that was open at the crash finished
once, after its children, and every child of it finished once (`recover_closes_once`); a further recovery has nothing
to do.

The task runs are another matter.  A recovery appends the `span.finished` of a task span before it cancels the span's
run, and a later attempt takes that event as evidence that nothing is live.  So the runs of an open turn are all
cancelled before its `turn.finished` provided no attempt stops between the two (`recover_cancels`).
-/

namespace Wrenyard.Session

open Js Transition List

/-! ### Prefixes of a plan -/

variable (kind : ChildKind)

private theorem closeChildren_spec (events : List LedgerEvent) (turn : Nat) :
    (∀ draft ∈ closeChildren kind events turn, Closing turn ⟨draft, 0, []⟩ ∧
      ∀ kind', kind' ≠ kind → finishedChild kind' ⟨draft, 0, []⟩ = none) ∧
    ∃ ids : List JsString,
      (closeChildren kind events turn).map (fun draft => finishedChild kind ⟨draft, 0, []⟩) = ids.map some ∧
      ids.Nodup ∧
      ∀ id, id ∈ ids ↔ id ∈ startedChildren kind events turn ∧ id ∉ finishedChildren kind events turn := by
  obtain ⟨hdrafts, ids, hids, hnodup, hmem⟩ := closeLoop_spec kind (finishedChildren kind events turn) turn
    (turnEvents events turn) [] (fun event he => by simpa [turnEvents] using (mem_filter.mp he).2)
  exact ⟨hdrafts, ids, hids, hnodup, fun id => by simp [hmem, startedChildren]⟩

variable {turn : Nat} {events : List LedgerEvent}

private theorem closing_closingOps :
    ∀ event ∈ planned (closingOps events turn), Closing turn event := by
  intro event hevent
  simp only [closingOps, closeDanglingChildren, planned_append, planned_map_append, planned_map_cancelTask,
    append_nil, mem_map, mem_append, mem_singleton] at hevent
  obtain ⟨draft, hdraft, rfl⟩ := hevent
  rcases hdraft with ((h | h) | h) | rfl
  · exact ((closeChildren_spec .span events turn).1 draft h).1
  · exact ((closeChildren_spec .action events turn).1 draft h).1
  · exact ((closeChildren_spec .step events turn).1 draft h).1
  · refine ⟨rfl, rfl, rfl, ?_⟩
    rintro ⟨⟩ <;> rfl

private theorem turnEvents_of_forall (h : ∀ event ∈ events, event.turn = some turn) :
    turnEvents events turn = events :=
  List.filter_eq_self.mpr fun event he => decide_eq_true (h event he)

private theorem turnEvents_of_other {turn' : Nat}
    (h : ∀ event ∈ events, event.turn = some turn) (hne : turn' ≠ turn) : turnEvents events turn' = [] := by
  refine filter_eq_nil_iff.mpr fun event he hturn => hne ?_
  rw [h event he] at hturn
  exact (Option.some.inj (of_decide_eq_true hturn)).symm

private theorem finishedChildren_closingOps (events : List LedgerEvent) (turn : Nat) :
    (finishedChildren kind (planned (closingOps events turn)) turn).Nodup ∧
    ∀ id, id ∈ finishedChildren kind (planned (closingOps events turn)) turn ↔ id ∈ startedChildren kind events turn ∧
    id ∉ finishedChildren kind events turn := by
  have hother : ∀ kind', kind' ≠ kind →
      ((closeChildren kind' events turn).map fun draft => (⟨draft, 0, []⟩ : LedgerEvent)).filterMap
        (finishedChild kind) =
        [] := by
    intro kind' hne
    refine filterMap_eq_nil_iff.mpr fun event he => ?_
    obtain ⟨draft, hdraft, rfl⟩ := mem_map.mp he
    exact ((closeChildren_spec kind' events turn).1 draft hdraft).2 kind hne.symm
  obtain ⟨-, ids, hids, hnodup, hmem⟩ := closeChildren_spec kind events turn
  have hsame : ((closeChildren kind events turn).map fun draft => (⟨draft, 0, []⟩ : LedgerEvent)).filterMap
      (finishedChild kind) = ids := by
    have hmap := filterMap_map (f := fun draft => finishedChild kind ⟨draft, 0, []⟩) (g := id)
      (l := closeChildren kind events turn)
    rw [hids] at hmap
    rw [filterMap_map]
    exact hmap.symm.trans (by simp)
  have heq : finishedChildren kind (planned (closingOps events turn)) turn = ids := by
    rw [finishedChildren, turnEvents_of_forall fun event he => (closing_closingOps event he).1]
    have hinterrupted : (planned [.append (interruptedDraft turn)]).filterMap (finishedChild kind) = [] := by
      cases kind <;> rfl
    simp only [closingOps, closeDanglingChildren, planned_append, planned_map_append, planned_map_cancelTask,
      append_nil, map_append, filterMap_append, map_cons, map_nil, hinterrupted]
    cases kind with
    | span => rw [hsame, hother .action (by decide), hother .step (by decide), append_nil, append_nil]
    | action => rw [hsame, hother .span (by decide), hother .step (by decide), nil_append, append_nil]
    | step => rw [hsame, hother .span (by decide), hother .action (by decide), nil_append, nil_append]
  rw [heq]
  exact ⟨hnodup, hmem⟩

private theorem prefix_blocks {α β : Type} (block : α → List β) (last : α → β) (as : List α) (bs : List β)
    (h : bs <+: as.flatMap fun a => block a ++ [last a]) :
    ∃ before after rest, as = before ++ after ∧ bs = (before.flatMap fun a => block a ++ [last a]) ++ rest ∧
      (rest = [] ∨ ∃ a after', after = a :: after' ∧ rest <+: block a) := by
  induction as generalizing bs with
  | nil =>
    rw [flatMap_nil, prefix_nil] at h
    exact ⟨[], [], [], rfl, h, Or.inl rfl⟩
  | cons a as ih =>
    rcases prefix_or_prefix_of_prefix h (prefix_append _ _) with hb | ⟨bs', rfl⟩
    · rcases prefix_concat_iff.mp hb with rfl | hb
      · exact ⟨[a], as, [], rfl, by simp, Or.inl rfl⟩
      · exact ⟨[], a :: as, bs, rfl, rfl, Or.inr ⟨a, as, rfl, hb⟩⟩
    · obtain ⟨before, after, rest, rfl, rfl, hrest⟩ := ih bs' ((prefix_append_right_inj _).mp h)
      exact ⟨a :: before, after, rest, rfl, by simp, hrest⟩

private def turnOps (events : List LedgerEvent) (turn : Nat) : List RecoveryOp :=
  closingOps events turn ++ [.append (turnFinishedDraft turn)]

private theorem recoveryPlan_eq (events : List LedgerEvent) :
    recoveryPlan events = (openTurns events).flatMap (turnOps events) := rfl

private theorem planned_turnOps (events : List LedgerEvent) (turn : Nat) :
    planned (turnOps events turn) = planned (closingOps events turn) ++ [⟨turnFinishedDraft turn, 0, []⟩] :=
  planned_append ..

private theorem planned_flatMap (turns : List Nat) :
    planned (turns.flatMap (turnOps events)) = turns.flatMap fun turn => planned (turnOps events turn) := by
  induction turns with
  | nil => rfl
  | cons turn turns ih => rw [flatMap_cons, planned_append, ih, flatMap_cons]

variable {event : LedgerEvent}

private theorem mem_turnOps (h : event ∈ planned (turnOps events turn)) :
    Closing turn event ∨ event = ⟨turnFinishedDraft turn, 0, []⟩ := by
  rw [planned_turnOps, mem_append, mem_singleton] at h
  exact h.imp_left (closing_closingOps event)

private theorem turn_of_mem_turnOps (h : event ∈ planned (turnOps events turn)) :
    event.turn = some turn := by
  rcases mem_turnOps h with h | rfl
  · exact h.1
  · rfl

theorem nodup_openTurns (events : List LedgerEvent) : (openTurns events).Nodup := (OSet.nodup_ofList _).filter _

theorem mem_openTurns :
    turn ∈ openTurns events ↔ turn ∈ startedTurns events ∧ turn ∉ finishedTurns events := by
  simp [openTurns]

private theorem finishedTurns_closingOps (events : List LedgerEvent) (turn : Nat) {ops : List RecoveryOp}
    (h : ops <+: closingOps events turn) : finishedTurns (planned ops) = [] := by
  refine filterMap_eq_nil_iff.mpr fun event he => ?_
  have hmem : event ∈ planned (closingOps events turn) := (h.filterMap _).subset he
  exact (closing_closingOps event hmem).2.2.1

private theorem finishedTurns_turnOps (turns : List Nat) :
    finishedTurns (planned (turns.flatMap (turnOps events))) = turns := by
  induction turns with
  | nil => rfl
  | cons turn turns ih =>
    rw [flatMap_cons, planned_append, finishedTurns_append, ih, planned_turnOps, finishedTurns_append,
      finishedTurns_closingOps events turn (prefix_refl _)]
    rfl

private theorem finishedChildren_turnOps (turn : Nat) {turns : List Nat}
    (hnodup : turns.Nodup) :
    finishedChildren kind (planned (turns.flatMap (turnOps events))) turn =
      if turn ∈ turns then finishedChildren kind (planned (closingOps events turn)) turn else [] := by
  induction turns with
  | nil => rfl
  | cons turn' turns ih =>
    obtain ⟨hnot, hnodup⟩ := nodup_cons.mp hnodup
    rw [flatMap_cons, planned_append, finishedChildren_append, ih hnodup]
    by_cases heq : turn = turn'
    · subst heq
      have hlast : finishedChildren kind [⟨turnFinishedDraft turn, 0, []⟩] turn = [] := by
        cases kind <;> simp [finishedChildren, turnEvents, turnFinishedDraft, finishedChild]
      rw [if_neg hnot, if_pos (mem_cons_self ..), planned_turnOps, finishedChildren_append, hlast, append_nil,
        append_nil]
    · have hother : finishedChildren kind (planned (turnOps events turn')) turn = [] := by
        rw [finishedChildren, turnEvents_of_other (fun event he => turn_of_mem_turnOps he) heq]
        rfl
      rw [hother, nil_append]
      simp [heq]

def ClosedBefore (turn : Nat) (event event' : LedgerEvent) : Prop :=
  finishedTurn event = some turn → event'.turn = some turn → ∀ kind, finishedChild kind event' = none

private theorem closedBefore_turnOps (turn : Nat) {turns : List Nat} (hnodup : turns.Nodup) :
    (planned (turns.flatMap (turnOps events))).Pairwise (ClosedBefore turn) := by
  rw [planned_flatMap, pairwise_flatMap]
  constructor
  · intro turn' _
    rw [planned_turnOps, pairwise_append]
    refine ⟨?_, pairwise_singleton _ _, ?_⟩
    · refine pairwise_of_forall_mem_list fun event he event' _ hfin => ?_
      rw [(closing_closingOps event he).2.2.1] at hfin
      cases hfin
    · intro event he event' _ hfin
      rw [(closing_closingOps event he).2.2.1] at hfin
      cases hfin
  · refine hnodup.imp ?_
    intro turn₁ turn₂ hne event he event' he' hfin hturn'
    rcases mem_turnOps he with hclosing | rfl
    · rw [hclosing.2.2.1] at hfin
      cases hfin
    · have h₁ : turn₁ = turn := Option.some.inj hfin
      have h₂ : turn₂ = turn := Option.some.inj ((turn_of_mem_turnOps he').symm.trans hturn')
      exact absurd (h₁.trans h₂.symm) hne

/-- What the first operations of a plan do to the timeline. -/
structure Progress (events : List LedgerEvent) (ops : List RecoveryOp) : Prop where
  starts : startedTurns (planned ops) = []
  startsChildren : ∀ kind turn, startedChildren kind (planned ops) turn = []
  turns : finishedTurns (planned ops) <+: openTurns events
  nodup : ∀ kind turn, (finishedChildren kind (planned ops) turn).Nodup
  dangling : ∀ kind turn, ∀ id ∈ finishedChildren kind (planned ops) turn,
    turn ∈ openTurns events ∧ id ∈ startedChildren kind events turn ∧ id ∉ finishedChildren kind events turn
  /-- Everything is done for a turn before its `turn.finished`. -/
  whole : ∀ turn ∈ finishedTurns (planned ops), ∀ op ∈ closingOps events turn, op ∈ ops
  ordered : ∀ turn, (planned ops).Pairwise (ClosedBefore turn)

private theorem mem_plan (h : event ∈ planned (recoveryPlan events)) :
    ∃ turn, Closing turn event ∨ event = ⟨turnFinishedDraft turn, 0, []⟩ := by
  rw [recoveryPlan_eq, planned_flatMap, mem_flatMap] at h
  obtain ⟨turn, -, h⟩ := h
  exact ⟨turn, mem_turnOps h⟩

theorem progress_of_prefix {ops : List RecoveryOp} (h : ops <+: recoveryPlan events) :
    Progress events ops := by
  have hplanned : planned ops <+: planned (recoveryPlan events) := h.filterMap _
  have hmem : ∀ event ∈ planned ops, ∃ turn, Closing turn event ∨ event = ⟨turnFinishedDraft turn, 0, []⟩ :=
    fun event he => mem_plan (hplanned.subset he)
  obtain ⟨before, after, rest, hopen, hops, hrest⟩ := prefix_blocks (closingOps events)
    (fun turn => .append (turnFinishedDraft turn)) (openTurns events) ops h
  have hturns : finishedTurns (planned ops) = before := by
    have hnone : finishedTurns (planned rest) = [] := by
      rcases hrest with rfl | ⟨turn, after', -, hpre⟩
      · rfl
      · exact finishedTurns_closingOps events turn hpre
    rw [hops, planned_append, finishedTurns_append, hnone, append_nil]
    exact finishedTurns_turnOps before
  have hchildren : ∀ kind turn, finishedChildren kind (planned ops) turn <+:
      finishedChildren kind (planned (recoveryPlan events)) turn :=
    fun kind turn => (hplanned.filter _).filterMap _
  refine ⟨?_, ?_, ?_, ?_, ?_, ?_, ?_⟩
  · refine filterMap_eq_nil_iff.mpr fun event he => ?_
    obtain ⟨turn, hclosing | rfl⟩ := hmem event he
    · exact hclosing.2.1
    · rfl
  · intro kind turn
    refine filterMap_eq_nil_iff.mpr fun event he => ?_
    obtain ⟨turn', hclosing | rfl⟩ := hmem event (mem_of_mem_filter he)
    · exact hclosing.2.2.2 kind
    · cases kind <;> rfl
  · rw [hturns, hopen]
    exact prefix_append ..
  · intro kind turn
    refine (hchildren kind turn).sublist.nodup ?_
    rw [recoveryPlan_eq, finishedChildren_turnOps kind turn (nodup_openTurns events)]
    split
    · exact (finishedChildren_closingOps kind events turn).1
    · exact nodup_nil
  · intro kind turn id hid
    have hid := (hchildren kind turn).subset hid
    rw [recoveryPlan_eq, finishedChildren_turnOps kind turn (nodup_openTurns events)] at hid
    split at hid
    · rename_i hturn
      exact ⟨hturn, ((finishedChildren_closingOps kind events turn).2 id).mp hid⟩
    · cases hid
  · intro turn hturn op hop
    rw [hturns] at hturn
    rw [hops]
    exact mem_append_left _ (mem_flatMap.mpr ⟨turn, hturn, mem_append_left _ hop⟩)
  · intro turn
    exact (closedBefore_turnOps turn (nodup_openTurns events)).sublist hplanned.sublist

def SameDrafts (events events' : List LedgerEvent) : Prop :=
  events.map (·.toLedgerEventDraft) = events'.map (·.toLedgerEventDraft)

namespace SameDrafts

variable {events events' : List LedgerEvent}

variable (h : SameDrafts events events')
include h

private theorem filterMap {β : Type} (f : LedgerEvent → Option β)
    (hf : ∀ event, f event = f ⟨event.toLedgerEventDraft, 0, []⟩) : events.filterMap f = events'.filterMap f := by
  have hmap : ∀ events : List LedgerEvent, events.filterMap f =
      (events.map (·.toLedgerEventDraft)).filterMap fun draft => f ⟨draft, 0, []⟩ := by
    intro events
    rw [filterMap_map]
    exact filterMap_congr fun event _ => hf event
  rw [hmap events, hmap events', h]

private theorem filterMap_turn (turn : Nat) (f : LedgerEvent → Option JsString)
    (hf : ∀ event, f event = f ⟨event.toLedgerEventDraft, 0, []⟩) :
    (turnEvents events turn).filterMap f = (turnEvents events' turn).filterMap f := by
  unfold turnEvents
  rw [filterMap_filter, filterMap_filter]
  refine h.filterMap _ fun event => ?_
  rw [← hf]

theorem startedTurns : startedTurns events = startedTurns events' :=
  h.filterMap _ fun _ => rfl

theorem finishedTurns : finishedTurns events = finishedTurns events' :=
  h.filterMap _ fun _ => rfl

theorem finishedSpans : finishedSpans events = finishedSpans events' :=
  h.filterMap _ fun _ => rfl

theorem startedChildren (turn : Nat) :
    startedChildren kind events turn = startedChildren kind events' turn :=
  h.filterMap_turn turn _ fun _ => rfl

theorem finishedChildren (turn : Nat) :
    finishedChildren kind events turn = finishedChildren kind events' turn :=
  h.filterMap_turn turn _ fun _ => rfl

theorem mem (he : event ∈ events) : ∃ event' ∈ events', event'.toLedgerEventDraft = event.toLedgerEventDraft := by
  have hmem := mem_map_of_mem (f := (·.toLedgerEventDraft)) he
  rw [h] at hmem
  exact mem_map.mp hmem

theorem closedBefore (hp : events'.Pairwise (ClosedBefore turn)) : events.Pairwise (ClosedBefore turn) := by
  have hiff : ∀ events : List LedgerEvent, events.Pairwise (ClosedBefore turn) ↔
      (events.map (·.toLedgerEventDraft)).Pairwise fun draft draft' => ClosedBefore turn ⟨draft, 0, []⟩ ⟨draft',
        0, []⟩ := by
    intro events
    rw [pairwise_map]
    exact Iff.rfl
  rw [hiff, h, ← hiff]
  exact hp

omit h

end SameDrafts

structure RecoveryAttempt.Follows (a : RecoveryAttempt) (timeline : List LedgerEvent) : Prop where
  plan : a.performed ++ a.remaining = recoveryPlan a.snapshot
  appended : ∃ appended, timeline = a.snapshot ++ appended ∧ SameDrafts appended (planned a.performed)

variable {s : RecoveryState}

namespace RecoveryAttempt.Follows

variable {a : RecoveryAttempt} {timeline : List LedgerEvent}

theorem progress (h : a.Follows timeline) : Progress a.snapshot a.performed :=
  progress_of_prefix ⟨a.remaining, h.plan⟩

theorem start (timeline : List LedgerEvent) : Follows ⟨timeline, [], recoveryPlan timeline⟩ timeline :=
  ⟨rfl, [], (List.append_nil _).symm, rfl⟩

theorem perform {snapshot : List LedgerEvent} {performed remaining : List RecoveryOp} {op : RecoveryOp}
    (h : Follows ⟨snapshot, performed, op :: remaining⟩ s.timeline) (time : JsString) :
    Follows ⟨snapshot, performed ++ [op], remaining⟩ (s.apply op time).timeline := by
  obtain ⟨hplan, appended, htimeline, hsame⟩ := h
  refine ⟨by simpa using hplan, ?_⟩
  cases op with
  | append draft =>
    refine ⟨appended ++ [stampDraft s.timeline draft time], ?_, ?_⟩
    · change s.timeline ++ _ = _
      rw [htimeline, append_assoc]
    · unfold SameDrafts at hsame ⊢
      rw [planned_append, map_append, map_append, hsame]
      rfl
  | cancelTask run =>
    refine ⟨appended, htimeline, ?_⟩
    unfold SameDrafts at hsame ⊢
    rw [planned_append, map_append, hsame]
    exact (append_nil _).symm

end RecoveryAttempt.Follows

/-! ### Closing once -/

structure Recovered (base timeline : List LedgerEvent) : Prop where
  started : startedTurns timeline = startedTurns base
  children : ∀ kind turn, startedChildren kind timeline turn = startedChildren kind base turn
  turns : ∃ closed, finishedTurns timeline = finishedTurns base ++ closed ∧ closed.Nodup ∧
    ∀ turn ∈ closed, turn ∈ openTurns base
  closes : ∀ kind turn, ∃ closed, finishedChildren kind timeline turn = finishedChildren kind base turn ++ closed ∧
    closed.Nodup ∧ ∀ id ∈ closed, turn ∈ openTurns base ∧ id ∈ startedChildren kind base turn ∧
      id ∉ finishedChildren kind base turn
  /-- A turn is only closed after all of its children. -/
  complete : ∀ turn ∈ openTurns base, turn ∈ finishedTurns timeline → ∀ kind,
    ∀ id ∈ startedChildren kind base turn, id ∈ finishedChildren kind timeline turn
  ordered : ∀ turn ∈ openTurns base, timeline.Pairwise (ClosedBefore turn)

variable {base : List LedgerEvent}

private theorem closedBefore_of_open (hopen : turn ∈ openTurns base) :
    ∀ event ∈ base, finishedTurn event ≠ some turn := by
  intro event he hfin
  exact (mem_openTurns.mp hopen).2 (mem_filterMap.mpr ⟨event, he, hfin⟩)

theorem Recovered.refl (base : List LedgerEvent) : Recovered base base := by
  refine ⟨rfl, fun _ _ => rfl, ⟨[], (append_nil _).symm, nodup_nil, by simp⟩,
    fun _ _ => ⟨[], (append_nil _).symm, nodup_nil, by simp⟩, ?_, ?_⟩
  · intro turn hopen hfin
    exact absurd hfin (mem_openTurns.mp hopen).2
  · intro turn hopen
    exact pairwise_of_forall_mem_list fun event he event' _ hfin =>
      absurd hfin (closedBefore_of_open hopen event he)

private theorem Recovered.openTurns_subset {snapshot : List LedgerEvent} (h : Recovered base snapshot)
    (hopen : turn ∈ openTurns snapshot) : turn ∈ openTurns base := by
  rw [mem_openTurns, h.started] at hopen
  rw [mem_openTurns]
  refine ⟨hopen.1, fun hfin => hopen.2 ?_⟩
  obtain ⟨closed, hclosed, -⟩ := h.turns
  rw [hclosed]
  exact mem_append_left _ hfin

variable {timeline : List LedgerEvent} {a : RecoveryAttempt}

theorem Recovered.follow (h : Recovered base a.snapshot)
    (hfollows : a.Follows timeline) : Recovered base timeline := by
  have hp := hfollows.progress
  obtain ⟨-, appended, rfl, hsame⟩ := hfollows
  refine ⟨?_, ?_, ?_, ?_, ?_, ?_⟩
  · rw [startedTurns_append, hsame.startedTurns, hp.starts, append_nil, h.started]
  · intro kind turn
    rw [startedChildren_append, hsame.startedChildren, hp.startsChildren, append_nil, h.children]
  · obtain ⟨closed, hclosed, hnodup, hopen⟩ := h.turns
    refine ⟨closed ++ finishedTurns (planned a.performed), ?_, ?_, ?_⟩
    · rw [finishedTurns_append, hclosed, hsame.finishedTurns, append_assoc]
    · refine nodup_append.mpr ⟨hnodup, hp.turns.sublist.nodup (nodup_openTurns _), ?_⟩
      rintro turn hturn _ hturn' rfl
      have hnot := (mem_openTurns.mp (hp.turns.subset hturn')).2
      rw [hclosed] at hnot
      exact hnot (mem_append_right _ hturn)
    · intro turn hturn
      rcases mem_append.mp hturn with hturn | hturn
      · exact hopen turn hturn
      · exact h.openTurns_subset (hp.turns.subset hturn)
  · intro kind turn
    obtain ⟨closed, hclosed, hnodup, hopen⟩ := h.closes kind turn
    refine ⟨closed ++ finishedChildren kind (planned a.performed) turn, ?_, ?_, ?_⟩
    · rw [finishedChildren_append, hclosed, hsame.finishedChildren, append_assoc]
    · refine nodup_append.mpr ⟨hnodup, hp.nodup kind turn, ?_⟩
      rintro id hid _ hid' rfl
      have hnot := (hp.dangling kind turn id hid').2.2
      rw [hclosed] at hnot
      exact hnot (mem_append_right _ hid)
    · intro id hid
      rcases mem_append.mp hid with hid | hid
      · exact hopen id hid
      obtain ⟨hturn, hstart, hnot⟩ := hp.dangling kind turn id hid
      rw [h.children] at hstart
      rw [hclosed] at hnot
      exact ⟨h.openTurns_subset hturn, hstart, fun hid => hnot (mem_append_left _ hid)⟩
  · intro turn hopen hfin kind id hid
    rw [finishedTurns_append, mem_append, hsame.finishedTurns] at hfin
    rw [finishedChildren_append, mem_append, hsame.finishedChildren]
    by_cases hfirst : turn ∈ finishedTurns a.snapshot
    · exact Or.inl (h.complete turn hopen hfirst kind id hid)
    by_cases hold : id ∈ finishedChildren kind a.snapshot turn
    · exact Or.inl hold
    refine Or.inr ?_
    have hclosing : id ∈ finishedChildren kind (planned (closingOps a.snapshot turn)) turn :=
      ((finishedChildren_closingOps kind a.snapshot turn).2 id).mpr ⟨(h.children kind turn).symm ▸ hid, hold⟩
    -- every operation that closes the turn was performed before its `turn.finished`
    have hsub : planned (closingOps a.snapshot turn) ⊆ planned a.performed := by
      intro event he
      obtain ⟨op, hop, heq⟩ := mem_filterMap.mp he
      exact mem_filterMap.mpr ⟨op, hp.whole turn (hfin.resolve_left hfirst) op hop, heq⟩
    exact filterMap_subset _ (filter_subset _ hsub) hclosing
  · intro turn hopen
    refine pairwise_append.mpr ⟨h.ordered turn hopen, hsame.closedBefore (hp.ordered turn), ?_⟩
    intro event he event' he' hfin hturn kind
    obtain ⟨event'', he'', hdraft⟩ := hsame.mem he'
    have hturn'' : event''.turn = some turn := (congrArg LedgerEventDraft.turn hdraft).trans hturn
    by_contra hsome
    obtain ⟨id, hid⟩ := Option.ne_none_iff_exists'.mp hsome
    have hid'' : finishedChild kind event'' = some id := by
      have heq : finishedChild kind event'' = finishedChild kind event' := by
        change finishedChild kind ⟨event''.toLedgerEventDraft, 0, []⟩ = _
        rw [hdraft]
        rfl
      rw [heq, hid]
    have hmem : id ∈ finishedChildren kind (planned a.performed) turn :=
      mem_filterMap.mpr ⟨event'', mem_filter.mpr ⟨he'', decide_eq_true hturn''⟩, hid''⟩
    have hnot := (mem_openTurns.mp (hp.dangling kind turn id hmem).1).2
    exact hnot (mem_filterMap.mpr ⟨event, he, hfin⟩)

/-- The invariant of the runs from a crash. -/
private def KeepsRecovered (base : List LedgerEvent) (s : RecoveryState) : Prop :=
  match s.attempt with
  | none => Recovered base s.timeline
  | some a => Recovered base a.snapshot ∧ a.Follows s.timeline

private theorem KeepsRecovered.recovered (h : KeepsRecovered base s) : Recovered base s.timeline := by
  unfold KeepsRecovered at h
  split at h
  · exact h
  · exact h.1.follow h.2

variable {action : RecoveryAction} {s' : RecoveryState}

theorem recoveryStep_cases (h : RecoveryStep s action s') :
    (action = .start ∧ s.attempt = none ∧
      s' = { s with attempt := some ⟨s.timeline, [], recoveryPlan s.timeline⟩ }) ∨
    (∃ time snapshot performed op remaining, action = .perform time ∧
      s.attempt = some ⟨snapshot, performed, op :: remaining⟩ ∧
      s' = { s.apply op time with attempt := some ⟨snapshot, performed ++ [op], remaining⟩ }) ∨
    (∃ a, action = .stop ∧ s.attempt = some a ∧ s' = { s with attempt := none }) := by
  unfold RecoveryStep recoveryStep at h
  split at h
  · split at h
    · rename_i hnone
      exact Or.inl ⟨rfl, hnone, (Option.some.inj h).symm⟩
    · cases h
  · split at h
    · rename_i hsome
      exact Or.inr (Or.inl ⟨_, _, _, _, _, rfl, hsome, (Option.some.inj h).symm⟩)
    · cases h
  split at h
  · rename_i hsome
    exact Or.inr (Or.inr ⟨_, rfl, hsome, (Option.some.inj h).symm⟩)
  · cases h

private theorem KeepsRecovered.step (h : KeepsRecovered base s)
    (hstep : RecoveryStep s action s') : KeepsRecovered base s' := by
  rcases recoveryStep_cases hstep with ⟨-, hnone, rfl⟩ | ⟨time, snapshot, performed, op, remaining, -, hsome, rfl⟩ |
    ⟨a, -, -, rfl⟩
  · exact ⟨h.recovered, .start s.timeline⟩
  · unfold KeepsRecovered at h
    rw [hsome] at h
    exact ⟨h.1, h.2.perform time⟩
  · exact h.recovered

structure AtMostOnce (base : List LedgerEvent) : Prop where
  turns : ∀ turn, (finishedTurns base).count turn ≤ 1
  children : ∀ kind, ∀ turn ∈ openTurns base, ∀ id, (finishedChildren kind base turn).count id ≤ 1

/-- A crashed timeline is closed: what was open at the crash is finished once and nothing else is finished again. -/
structure ClosedOnce (base timeline : List LedgerEvent) : Prop where
  openTurn : ∀ turn ∈ openTurns base, (finishedTurns timeline).count turn = 1
  otherTurn : ∀ turn, turn ∉ openTurns base → (finishedTurns timeline).count turn = (finishedTurns base).count turn
  openChild : ∀ kind, ∀ turn ∈ openTurns base, ∀ id ∈ startedChildren kind base turn,
    id ∉ finishedChildren kind base turn → (finishedChildren kind timeline turn).count id = 1
  otherChild : ∀ kind turn id, turn ∉ openTurns base ∨ id ∉ startedChildren kind base turn ∨
      id ∈ finishedChildren kind base turn →
    (finishedChildren kind timeline turn).count id = (finishedChildren kind base turn).count id
  ordered : ∀ turn ∈ openTurns base, timeline.Pairwise (ClosedBefore turn)

private theorem Recovered.closedOnce (h : Recovered base timeline)
    (hall : ∀ turn ∈ openTurns base, turn ∈ finishedTurns timeline) : ClosedOnce base timeline := by
  obtain ⟨closed, hclosed, hnodup, hopen⟩ := h.turns
  refine ⟨?_, ?_, ?_, ?_, h.ordered⟩
  · intro turn hturn
    have hmem := hall turn hturn
    have hnot := (mem_openTurns.mp hturn).2
    rw [hclosed, mem_append] at hmem
    rw [hclosed, count_append, count_eq_zero_of_not_mem hnot, Nat.zero_add]
    exact count_eq_one_of_mem hnodup (hmem.resolve_left hnot)
  · intro turn hturn
    rw [hclosed, count_append, count_eq_zero_of_not_mem fun hmem => hturn (hopen turn hmem), Nat.add_zero]
  · intro kind turn hturn id hid hnot
    obtain ⟨closed, hclosed, hnodup, -⟩ := h.closes kind turn
    have hmem := h.complete turn hturn (hall turn hturn) kind id hid
    rw [hclosed, mem_append] at hmem
    rw [hclosed, count_append, count_eq_zero_of_not_mem hnot, Nat.zero_add]
    exact count_eq_one_of_mem hnodup (hmem.resolve_left hnot)
  · intro kind turn id hother
    obtain ⟨closed, hclosed, -, hdangling⟩ := h.closes kind turn
    have hmem : id ∉ closed := by
      intro hmem
      obtain ⟨hturn, hstart, hnot⟩ := hdangling id hmem
      rcases hother with h | h | h
      · exact h hturn
      · exact h hstart
      · exact hnot h
    rw [hclosed, count_append, count_eq_zero_of_not_mem hmem, Nat.add_zero]

/-- A recovery that completes, after any number of attempts that did not, closes the crashed timeline once, and leaves
nothing for a further recovery.  On a timeline that finishes nothing twice every started turn and every child of a
turn that was open then has exactly one finish event. -/
theorem recover_closes_once (base : List LedgerEvent) (actions : List RecoveryAction) (s : RecoveryState)
    (hrun : Run RecoveryStep (.crashed base) actions s) (hdone : s.Completed) :
    ClosedOnce base s.timeline ∧ startedTurns s.timeline = startedTurns base ∧ recoveryPlan s.timeline = [] ∧
    (AtMostOnce base → (∀ turn ∈ startedTurns s.timeline, (finishedTurns s.timeline).count turn = 1) ∧
      ∀ kind, ∀ turn ∈ openTurns base, ∀ id ∈ startedChildren kind s.timeline turn,
        (finishedChildren kind s.timeline turn).count id = 1) := by
  have hinv : KeepsRecovered base s :=
    hrun.invariant (KeepsRecovered base) (fun _ _ _ h hstep => h.step hstep) (Recovered.refl base)
  have hrec := hinv.recovered
  obtain ⟨a, ha, hremaining⟩ := hdone
  unfold KeepsRecovered at hinv
  rw [ha] at hinv
  obtain ⟨hsnapshot, hfollows⟩ := hinv
  have hperformed : a.performed = recoveryPlan a.snapshot := by
    rw [← hfollows.plan, hremaining, List.append_nil]
  have hfinished : finishedTurns s.timeline = finishedTurns a.snapshot ++ openTurns a.snapshot := by
    obtain ⟨-, appended, htimeline, hsame⟩ := hfollows
    rw [htimeline, finishedTurns_append, hsame.finishedTurns, hperformed, recoveryPlan_eq, finishedTurns_turnOps]
  have hall : ∀ turn ∈ startedTurns base, turn ∈ finishedTurns s.timeline := by
    intro turn hturn
    rw [hfinished, List.mem_append, mem_openTurns, hsnapshot.started]
    by_cases hfin : turn ∈ finishedTurns a.snapshot
    · exact Or.inl hfin
    · exact Or.inr ⟨hturn, hfin⟩
  have hclosed : ClosedOnce base s.timeline := hrec.closedOnce fun turn hturn => hall turn (mem_openTurns.mp hturn).1
  refine ⟨hclosed, hrec.started, ?_, fun hbase => ⟨?_, ?_⟩⟩
  · have hnone : openTurns s.timeline = [] := by
      refine List.eq_nil_iff_forall_not_mem.mpr fun turn hturn => ?_
      rw [mem_openTurns, hrec.started] at hturn
      exact hturn.2 (hall turn hturn.1)
    rw [recoveryPlan_eq, hnone, List.flatMap_nil]
  · intro turn hturn
    rw [hrec.started] at hturn
    by_cases hopen : turn ∈ openTurns base
    · exact hclosed.openTurn turn hopen
    have hfin : turn ∈ finishedTurns base := by
      by_contra hnot
      exact hopen (mem_openTurns.mpr ⟨hturn, hnot⟩)
    have hpos := List.count_pos_iff.mpr hfin
    have hle := hbase.turns turn
    rw [hclosed.otherTurn turn hopen]
    omega
  · intro kind turn hopen id hid
    rw [hrec.children] at hid
    by_cases hfin : id ∈ finishedChildren kind base turn
    · have hpos := List.count_pos_iff.mpr hfin
      have hle := hbase.children kind turn hopen id
      rw [hclosed.otherChild kind turn id (Or.inr (Or.inr hfin))]
      omega
    · exact hclosed.openChild kind turn hopen id hid hfin

def crashedDispatch : List LedgerEvent :=
  [⟨⟨some 1, none, .turnStarted ⟨js "t1", js "go", ⟨js "p", js "m", none, none, none, none⟩, none⟩⟩, 1, js "0"⟩,
   ⟨⟨some 1, some 1, .stepStarted ⟨js "t1.1", js "t1", js "m", none, none⟩⟩, 2, js "0"⟩,
   ⟨⟨some 1, some 1, .actionStarted ⟨js "a1", js "t1.1", .dispatch, js "do", none, none⟩⟩, 3, js "0"⟩,
   ⟨⟨some 1, some 1, .spanStarted ⟨js "s1", js "a1", .task ⟨js "task", none, none, js "run", none, none, none⟩⟩⟩, 4,
    js "0"⟩]

/-- An attempt that stops after one operation, and one that completes. -/
def interruptedRecovery : List RecoveryAction :=
  [.start, .perform [], .stop, .start, .perform [], .perform [], .perform [], .perform []]

theorem recover_closes_once_dispatch : ∃ s, Run RecoveryStep (.crashed crashedDispatch) interruptedRecovery s ∧
    s.Completed ∧ ClosedOnce crashedDispatch s.timeline ∧ (finishedTurns s.timeline).count 1 = 1 := by
  obtain ⟨s, hs⟩ := Option.isSome_iff_exists.mp
    (by decide : (steps recoveryStep (.crashed crashedDispatch) interruptedRecovery).isSome = true)
  have hrun : Run RecoveryStep (.crashed crashedDispatch) interruptedRecovery s := run_of_steps hs
  have hdone : s.Completed := by
    have hremaining : (steps recoveryStep (.crashed crashedDispatch) interruptedRecovery).map
        (·.attempt.map (·.remaining)) = some (some []) := by decide
    rw [hs, Option.map_some, Option.some.injEq, Option.map_eq_some_iff] at hremaining
    exact hremaining
  have hclosed := (recover_closes_once crashedDispatch interruptedRecovery s hrun hdone).1
  exact ⟨s, hrun, hdone, hclosed, hclosed.openTurn 1 (by decide)⟩

/-! ### Cancelling the live task runs -/

def RecoveryAttempt.Exposed (a : RecoveryAttempt) : Prop :=
  ∃ turn ∈ openTurns a.snapshot, ∃ task ∈ liveTaskSpans a.snapshot turn,
    task.1 ∈ finishedSpans (planned a.performed) ∧ task.2 ∉ cancels a.performed

instance (a : RecoveryAttempt) : Decidable a.Exposed :=
  inferInstanceAs (Decidable (∃ turn ∈ openTurns a.snapshot, ∃ task ∈ liveTaskSpans a.snapshot turn,
    task.1 ∈ finishedSpans (planned a.performed) ∧ task.2 ∉ cancels a.performed))

/-- A step of a recovery that does not stop between the `span.finished` of a live task span and the cancellation of
its run. -/
def CarefulRecoveryStep (s : RecoveryState) (action : RecoveryAction) (s' : RecoveryState) : Prop :=
  RecoveryStep s action s' ∧ (action = .stop → ∀ a ∈ s.attempt, ¬ a.Exposed)

private def Reachable (cancelled : List JsString) (events : List LedgerEvent) (turn : Nat)
    (task : JsString × JsString) :
    Prop :=
  task.2 ∈ cancelled ∨ turn ∈ openTurns events ∧ task ∈ liveTaskSpans events turn

variable {task : JsString × JsString}

private theorem mem_closingOps_cancelTask (h : task ∈ liveTaskSpans events turn) :
    RecoveryOp.cancelTask task.2 ∈ closingOps events turn :=
  List.mem_append_right _ (List.mem_map_of_mem (List.mem_map_of_mem h))

/-- The task runs of a turn are cancelled once the attempt has finished the turn. -/
private theorem mem_cancels_of_finished (h : a.Follows timeline)
    (hopen : turn ∈ openTurns a.snapshot) (hlive : task ∈ liveTaskSpans a.snapshot turn)
    (hfin : turn ∈ finishedTurns timeline) : task.2 ∈ cancels a.performed := by
  have hp := h.progress
  obtain ⟨-, appended, rfl, hsame⟩ := h
  rw [finishedTurns_append, mem_append, hsame.finishedTurns] at hfin
  have hfin := hfin.resolve_left (mem_openTurns.mp hopen).2
  exact mem_cancels.mpr (hp.whole turn hfin _ (mem_closingOps_cancelTask hlive))

private theorem liveTaskSpans_follow (h : a.Follows timeline)
    (hlive : task ∈ liveTaskSpans a.snapshot turn) (hnot : task.1 ∉ finishedSpans (planned a.performed)) :
    task ∈ liveTaskSpans timeline turn := by
  obtain ⟨-, appended, rfl, hsame⟩ := h
  obtain ⟨hmem, hfin⟩ := mem_filter.mp hlive
  refine mem_filter.mpr ⟨?_, ?_⟩
  · rw [filterMap_append]
    exact mem_append_left _ hmem
  · rw [finishedSpans_append, hsame.finishedSpans]
    simpa [hnot] using hfin

/-- The invariant of careful recoveries: an orphan run is cancelled, or still to be found by the attempt in progress
or by the next one. -/
private def KeepsReachable (base : List LedgerEvent) (s : RecoveryState) : Prop :=
  ∀ turn ∈ openTurns base, ∀ task ∈ liveTaskSpans base turn,
    match s.attempt with
    | none => Reachable s.cancelled s.timeline turn task
    | some a => a.Follows s.timeline ∧ ∃ cancelled, s.cancelled = cancelled ++ cancels a.performed ∧
        Reachable cancelled a.snapshot turn task

private theorem KeepsReachable.step (h : KeepsReachable base s)
    (hstep : CarefulRecoveryStep s action s') : KeepsReachable base s' := by
  intro turn hturn task htask
  have h := h turn hturn task htask
  obtain ⟨hstep, hcareful⟩ := hstep
  rcases recoveryStep_cases hstep with ⟨-, hnone, rfl⟩ | ⟨time, snapshot, performed, op, remaining, -, hsome, rfl⟩ |
    ⟨a, rfl, hsome, rfl⟩
  · rw [hnone] at h
    exact ⟨.start s.timeline, s.cancelled, (append_nil _).symm, h⟩
  · rw [hsome] at h
    obtain ⟨hfollows, cancelled, hcancelled, hreach⟩ := h
    refine ⟨hfollows.perform time, cancelled, ?_, hreach⟩
    rw [cancels_append, ← append_assoc, ← hcancelled]
    cases op with
    | append draft => exact (append_nil _).symm
    | cancelTask run => rfl
  · rw [hsome] at h
    obtain ⟨hfollows, cancelled, hcancelled, hreach⟩ := h
    change Reachable s.cancelled s.timeline turn task
    unfold Reachable
    rw [hcancelled, mem_append]
    rcases hreach with hdone | ⟨hopen, hlive⟩
    · exact Or.inl (Or.inl hdone)
    by_cases hcancel : task.2 ∈ cancels a.performed
    · exact Or.inl (Or.inr hcancel)
    refine Or.inr ⟨?_, ?_⟩
    · have hfin : turn ∉ finishedTurns s.timeline :=
        fun hfin => hcancel (mem_cancels_of_finished hfollows hopen hlive hfin)
      rw [mem_openTurns] at hopen ⊢
      refine ⟨?_, hfin⟩
      obtain ⟨-, appended, htimeline, -⟩ := hfollows
      rw [htimeline, startedTurns_append]
      exact mem_append_left _ hopen.1
    · refine liveTaskSpans_follow hfollows hlive fun hfin => hcareful rfl a hsome ?_
      exact ⟨turn, hopen, task, hlive, hfin, hcancel⟩

/-- In every run of recoveries none of which stops between the `span.finished` of a live task span and the
cancellation of its run, the task runs that were live in an open turn at the crash have been cancelled by the time the
turn is finished. -/
theorem recover_cancels (base : List LedgerEvent) (actions : List RecoveryAction) (s : RecoveryState)
    (hrun : Run CarefulRecoveryStep (.crashed base) actions s) :
    ∀ turn ∈ openTurns base, turn ∈ finishedTurns s.timeline → ∀ run ∈ liveTaskRuns base turn, run ∈ s.cancelled := by
  have hinv : KeepsReachable base s :=
    hrun.invariant (KeepsReachable base) (fun _ _ _ h hstep => h.step hstep)
      fun turn hturn task htask => Or.inr ⟨hturn, htask⟩
  intro turn hturn hfin run hrun
  obtain ⟨task, htask, rfl⟩ := List.mem_map.mp hrun
  have h := hinv turn hturn task htask
  split at h
  · rcases h with hdone | ⟨hopen, -⟩
    · exact hdone
    · exact absurd hfin (mem_openTurns.mp hopen).2
  obtain ⟨hfollows, cancelled, hcancelled, hreach⟩ := h
  rw [hcancelled, List.mem_append]
  rcases hreach with hdone | ⟨hopen, hlive⟩
  · exact Or.inl hdone
  · exact Or.inr (mem_cancels_of_finished hfollows hopen hlive hfin)

/-- A recovery that completes, with a second attempt after one that stopped before it finished the task span. -/
def promptRecovery : List RecoveryAction :=
  [.start, .stop, .start, .perform [], .perform [], .perform [], .perform [], .perform [], .perform []]

theorem recover_cancels_dispatch : ∃ s, Run CarefulRecoveryStep (.crashed crashedDispatch) promptRecovery s ∧
    1 ∈ finishedTurns s.timeline ∧ js "run" ∈ s.cancelled := by
  have hs : (steps (fun s action => if action = .stop ∧ ∃ a ∈ s.attempt, a.Exposed then none
      else recoveryStep s action)
      (.crashed crashedDispatch) promptRecovery).map (fun s => finishedTurns s.timeline) = some [1] := by decide
  obtain ⟨s, hsteps, hfin⟩ := Option.map_eq_some_iff.mp hs
  have hrun : Run CarefulRecoveryStep (.crashed crashedDispatch) promptRecovery s := by
    refine (run_of_steps hsteps).mono fun s action s' hstep => ?_
    split at hstep
    · cases hstep
    · rename_i hcareful
      exact ⟨hstep, fun hstop a ha hexposed => hcareful ⟨hstop, a, ha, hexposed⟩⟩
  have hmem : 1 ∈ finishedTurns s.timeline := by
    rw [hfin]
    exact List.mem_singleton_self 1
  exact ⟨s, hrun, hmem, recover_cancels crashedDispatch promptRecovery s hrun 1 (by decide) hmem _
    (by decide)⟩

/-- An attempt that stops right after it finished the task span leaves the run of the task to itself: the next one
finishes the turn without cancelling it. -/
theorem recover_not_cancels :
    ¬ ∀ (base : List LedgerEvent) (actions : List RecoveryAction) (s : RecoveryState),
      Run RecoveryStep (.crashed base) actions s → ∀ turn ∈ openTurns base, turn ∈ finishedTurns s.timeline →
      ∀ run ∈ liveTaskRuns base turn, run ∈ s.cancelled := by
  intro h
  have hs : (steps recoveryStep (.crashed crashedDispatch) interruptedRecovery).map
      (fun s => (finishedTurns s.timeline, s.cancelled)) = some ([1], []) := by decide
  obtain ⟨s, hrun, hfacts⟩ := Option.map_eq_some_iff.mp hs
  obtain ⟨hfin, hcancelled⟩ := Prod.mk.inj hfacts
  have hmem := h crashedDispatch interruptedRecovery s (run_of_steps hrun) 1 (by decide)
    (by rw [hfin]; exact List.mem_singleton_self 1) (js "run") (by decide)
  rw [hcancelled] at hmem
  cases hmem

end Wrenyard.Session
