import Wrenyard.Session.Compat
import Wrenyard.Session.Render

/-!
# What a restart makes of an event

An event is written as one JSON line and, after a restart, read back through `normalizeStoredEvent`.  Every current
event comes back with the same members and renders to the same text, except a recalled memory that carries a step:
`memory.recalled` is both a historical and a current type name, and its mapping takes the step from the old `cycle`
only.  The event loses its step, and with it the `cycle` attribute of its rendered record.
-/

namespace Wrenyard.Session

open Js

def LedgerEventDraft.recalledInStep (d : LedgerEventDraft) : Bool :=
  match d.body with
  | .memoryRecalled _ => d.step.isSome
  | _ => false

theorem LedgerEventDraft.recalledInStep_iff {d : LedgerEventDraft} :
    d.recalledInStep = true ↔ ∃ m step, d.body = .memoryRecalled m ∧ d.step = some step := by
  unfold recalledInStep
  split
  · rename_i m hm
    rw [Option.isSome_iff_exists]
    exact ⟨fun ⟨step, hs⟩ => ⟨m, step, hm, hs⟩, fun ⟨_, step, _, hs⟩ => ⟨step, hs⟩⟩
  rename_i hno
  constructor
  · exact nofun
  · rintro ⟨m, _, hm, _⟩
    exact absurd hm (hno m)

theorem LedgerEvent.reload_eq {e : LedgerEvent} (h : e.recalledInStep = false) : e.reload = e := by
  obtain ⟨⟨turn, step, body⟩, seq, time⟩ := e
  cases body with
  | memoryRecalled m =>
    cases step with
    | none => rfl
    | some n => simp [LedgerEventDraft.recalledInStep] at h
  | _ => rfl

variable (e : LedgerEvent)

theorem LedgerEvent.reload_reload : e.reload.reload = e.reload := by
  apply reload_eq
  obtain ⟨⟨turn, step, body⟩, seq, time⟩ := e
  cases body <;> rfl

@[simp] theorem LedgerEvent.reload_seq : e.reload.seq = e.seq := by
  obtain ⟨⟨turn, step, body⟩, seq, time⟩ := e
  cases body <;> rfl

@[simp] theorem LedgerEvent.reload_body : e.reload.body = e.body := by
  obtain ⟨⟨turn, step, body⟩, seq, time⟩ := e
  cases body <;> rfl

@[simp] theorem LedgerEvent.reload_turn : e.reload.turn = e.turn := by
  obtain ⟨⟨turn, step, body⟩, seq, time⟩ := e
  cases body <;> rfl

/-- A line of the timeline parses back to the object it was written from. -/
theorem EventObject.parse_stringify (o : EventObject) :
    Json.parse (Json.stringify (.obj o.members)) = some (.obj o.members) :=
  Json.parse_stringify o.distinct

section

variable (dateParse : JsString → Option Int)

def EventObject.reload (o : EventObject) : EventObject where
  event := o.event.reload
  members := normalizeStoredEvent dateParse o.members
  perm := perm_normalizeStoredEvent o

/-- The members of an event after a restart are its own, unless it is a recalled memory that carries a step. -/
theorem perm_normalize_iff (o : EventObject) :
    (normalizeStoredEvent dateParse o.members).Perm o.event.members ↔ o.event.recalledInStep = false := by
  constructor
  · intro h
    by_contra hr
    obtain ⟨m, step, hm, hstep⟩ := LedgerEventDraft.recalledInStep_iff.mp (Bool.not_eq_false _ ▸ hr)
    -- both sides are objects of an event, so reading `step` tells them apart
    have h1 := (EventObject.mk o.event _ h).get_members (js "step")
    have h2 := (o.reload dateParse).get_members (js "step")
    have hr : (o.reload dateParse).event.step = none := by
      simp [EventObject.reload, LedgerEvent.reload, hm]
    have h3 : (OMap.get o.event.fields (js "step")).join.map Subtype.val = some (.num (.ofNat step)) := by
      change (o.event.step.map JsonValue.ofNat).map Subtype.val = _
      rw [hstep]
      rfl
    have h4 : (OMap.get (o.reload dateParse).event.fields (js "step")).join.map Subtype.val = none := by
      change ((o.reload dateParse).event.step.map JsonValue.ofNat).map Subtype.val = _
      rw [hr]
      rfl
    rw [h3] at h1
    rw [h4] at h2
    exact absurd (h1.symm.trans h2) (by simp)
  · intro h
    have hp := (o.reload dateParse).perm
    change (normalizeStoredEvent dateParse o.members).Perm o.event.reload.members at hp
    rwa [LedgerEvent.reload_eq h] at hp

end

/-- The text of an event after a restart is its own, unless it is a recalled memory that carries a step. -/
theorem renderEventText_reload_iff (encodeLength : JsString → Nat) (reduced : Bool) (e : LedgerEvent) :
    renderEventText encodeLength reduced e.reload = renderEventText encodeLength reduced e ↔ e.recalledInStep =
    false := by
  constructor
  · intro h
    by_contra hr
    obtain ⟨m, step, hm, hstep⟩ := LedgerEventDraft.recalledInStep_iff.mp (Bool.not_eq_false _ ▸ hr)
    obtain ⟨⟨turn, step', body⟩, seq, time⟩ := e
    subst hm hstep
    -- the record without its `cycle` attribute is shorter
    have hlen := congrArg List.length (Option.some.inj h)
    simp only [LedgerEvent.reload, indexAttributes, tag, renderAttribute, Option.map_none, Option.map_some,
      List.cons_append, List.nil_append, List.flatMap_cons, List.flatMap_nil, List.length_append,
        List.length_nil] at hlen
    have hjs : (js " ").length = 1 := by decide
    omega
  · intro h
    rw [LedgerEvent.reload_eq h]

/-- A restart changes no event, in its members or in its text, but a recalled memory that carries a step; and
normalizing a stored event twice is normalizing it once, but for a recalled memory with its old `cycle` or with an
owner that is null. -/
theorem reload_unchanged_iff (dateParse : JsString → Option Int) (encodeLength : JsString → Nat) :
    (∀ o : EventObject,
      ∃ stored, Json.parse (Json.stringify (.obj o.members)) = some (.obj stored) ∧
        (normalizeStoredEvent dateParse stored).Perm o.event.reload.members ∧
        ((normalizeStoredEvent dateParse stored).Perm o.event.members ↔ o.event.recalledInStep = false) ∧
        ((∀ reduced, renderEventText encodeLength reduced o.event.reload =
          renderEventText encodeLength reduced o.event) ↔ o.event.recalledInStep = false)) ∧
    ∀ event : Rec,
      normalizeStoredEvent dateParse (normalizeStoredEvent dateParse event) = normalizeStoredEvent dateParse event ↔
      ¬ (event.get (js "type") = text "memory.recalled" ∧ (event.get (js "cycle") ≠ none ∨
        coalesce (event.get (js "parent")) (event.get (js "actionId")) = some .null)) := by
  refine ⟨fun o => ?_, normalizeStoredEvent_idem_iff⟩
  refine ⟨o.members, o.parse_stringify, perm_normalizeStoredEvent o, perm_normalize_iff dateParse o, ?_, ?_⟩
  · intro h
    exact (renderEventText_reload_iff encodeLength false o.event).mp (h false)
  · intro h reduced
    exact (renderEventText_reload_iff encodeLength reduced o.event).mpr h

def stepRecall : LedgerEvent where
  turn := some 1
  step := some 1
  body := .memoryRecalled
    { parent := some (js "t1.1"), version := js "0123abcd", source := .memorySearch, path := js "memories/a.md",
      content := js "a" }
  seq := 3
  «at» := js "2026-01-01T00:00:00.000Z"

theorem stepRecall_changes :
    ¬ ∀ (dateParse : JsString → Option Int) (encodeLength : JsString → Nat) (o : EventObject),
      (normalizeStoredEvent dateParse o.members).Perm o.event.members ∧
      normalizeStoredEvent dateParse (normalizeStoredEvent dateParse o.members) =
        normalizeStoredEvent dateParse o.members ∧
      ∀ reduced, renderEventText encodeLength reduced o.event.reload =
        renderEventText encodeLength reduced o.event := by
  intro h
  have hperm := (h (fun _ => none) (fun _ => 0) (.ofEvent stepRecall)).1
  exact absurd ((perm_normalize_iff _ _).mp hperm) (by decide)

end Wrenyard.Session
