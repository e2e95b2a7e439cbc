import Wrenyard.Supervisor.Machine

/-!
# Sound executions

While an execution is open its row is not terminal, the registry holds its entry and its promise is unsettled; when it
ends, its row becomes terminal, one event of its end is stored, and its promise is resolved with the row's status
(`EntrySound`).  A routine that ends an execution keeps this, as long as it does not take a running session without a
process for one that has not started (`sound_terminalizeIdle`).
-/

namespace Wrenyard.Supervisor

open Js

def ends (events : List EventType) : Nat := events.countP EventType.endsExecution

def endsOf (status : Status) : Nat := if status.isTerminal then 1 else 0

structure EntrySound (row : Row) (e : Entry) : Prop where
  generation : e.terminalGeneration = 0 ↔ e.wait = none
  registered : e.registered = e.wait.isNone
  settled : ∀ w, e.wait = some w → row.status.isTerminal = true ∧ ∃ r, w = .resolved r ∧ r.status = row.status
  idle : e.wait = none → e.session = none → row.status = .queued ∨ row.status = .starting
  running : e.wait = none → e.session.isSome → row.status = .running
  alone : e.starting.isSome → e.session = none
  timer : e.timer = true → e.session.isSome
  observed : e.observer ≠ .unattached → e.session.isSome

/-- No end was claimed of an open entry that has no session, and its row is starting while its start is awaited. -/
def Unclaimed (row : Row) (e : Entry) : Prop :=
  e.wait = none → e.session = none →
    e.terminalIntent = none ∧ e.cancelRequested = false ∧ (e.starting.isSome ↔ row.status = .starting)

structure Sound (x : Execution) : Prop where
  entry : ∀ e, x.entry = some e → EntrySound x.row e ∧ Unclaimed x.row e
  ends : ∀ e, x.entry = some e → Supervisor.ends x.events = endsOf x.row.status

structure Moves (x x' : Execution) : Prop where
  frozen : x.row.status.isTerminal = true → x'.row.status = x.row.status
  ends : Supervisor.ends x'.events + endsOf x.row.status = Supervisor.ends x.events + endsOf x'.row.status
  entry : ∀ e, x.entry = some e → ∃ e', x'.entry = some e' ∧ ∀ w, e.wait = some w → e'.wait = some w
  absent : x.entry = none → x'.entry = none

theorem Moves.refl (x : Execution) : Moves x x where
  frozen _ := rfl
  ends := rfl
  entry e h := ⟨e, h, fun _ hw => hw⟩
  absent h := h

theorem Moves.trans {x y z : Execution} (h : Moves x y) (h' : Moves y z) : Moves x z where
  frozen ht := by
    have hxy := h.frozen ht
    rw [h'.frozen (hxy ▸ ht), hxy]
  ends := by
    have h1 := h.ends
    have h2 := h'.ends
    omega
  entry e he := by
    obtain ⟨e', he', hw⟩ := h.entry e he
    obtain ⟨e'', he'', hw'⟩ := h'.entry e' he'
    exact ⟨e'', he'', fun w hwait => hw' w (hw w hwait)⟩
  absent he := h'.absent (h.absent he)

theorem Moves.withEntry {x : Execution} {e e' : Entry} (he : x.entry = some e)
    (hw : ∀ w, e.wait = some w → e'.wait = some w) : Moves x { x with entry := some e' } where
  frozen _ := rfl
  ends := rfl
  entry e₀ h₀ := by
    rw [he] at h₀
    obtain rfl := Option.some.inj h₀
    exact ⟨e', rfl, hw⟩
  absent h := by
    rw [he] at h
    cases h

/-! ### Settling -/

variable {x : Execution} {e e₀ : Entry} {row : Row}

theorem EntrySound.open_ (h : EntrySound row e) (hw : e.wait = none) : row.status.isTerminal = false := by
  cases hs : e.session with
  | none =>
    rcases h.idle hw hs with hrow | hrow <;> rw [hrow] <;> rfl
  | some session => rw [h.running hw (by simp [hs])]; rfl

theorem EntrySound.wait_of_generation (h : EntrySound row e) (hg : ¬ e.terminalGeneration > 0) : e.wait = none :=
  h.generation.mp (by omega)

theorem entrySound_resolved (h : EntrySound row e) (hw : e.wait = none) {row' : Row} {r : ExecutionResult}
    (ht : row'.status.isTerminal = true) (hr : r.status = row'.status) :
    EntrySound row' (Entry.resolveAndForget { e with terminalGeneration := e.terminalGeneration + 1 } r) where
  generation := by simp [Entry.resolveAndForget, Entry.settle]
  registered := rfl
  settled w hwait := by
    simp only [Entry.resolveAndForget, Entry.settle, hw, Option.getD_none, Option.some.injEq] at hwait
    exact ⟨ht, r, hwait.symm, hr⟩
  idle hwait := by simp [Entry.resolveAndForget, Entry.settle] at hwait
  running hwait := by simp [Entry.resolveAndForget, Entry.settle] at hwait
  alone := h.alone
  timer hwait := by simp [Entry.resolveAndForget, Entry.settle] at hwait
  observed := h.observed

theorem unclaimed_settled {w : Wait} : Unclaimed row (e.settle w) := by
  intro hwait
  simp [Entry.settle] at hwait

theorem unclaimed_of_wait (h : e.wait ≠ none) : Unclaimed row e := fun hw => absurd hw h

theorem ends_append (a b : List EventType) : ends (a ++ b) = ends a + ends b := List.countP_append

theorem ends_endEvent (status : Status) : ends [endEvent status] = 1 := by
  unfold endEvent
  by_cases h : status = .cancelled
  all_goals simp [h, ends, EventType.endsExecution]

structure Given (x : Execution) (e₀ e : Entry) : Prop where
  entry : x.entry = some e₀
  wait : e.wait = e₀.wait
  fits : EntrySound x.row e
  ends : Supervisor.ends x.events = endsOf x.row.status

theorem Sound.given (h : Sound x) (he : x.entry = some e) : Given x e e :=
  ⟨he, rfl, (h.entry e he).1, h.ends e he⟩

theorem Given.keep (h : Given x e₀ e) (hu : Unclaimed x.row e) :
    Sound { x with entry := some e } ∧ Moves x { x with entry := some e } := by
  constructor
  · constructor
    · rintro e' he'
      obtain rfl := Option.some.inj he'
      exact ⟨h.fits, hu⟩
    · exact fun _ _ => h.ends
  · exact Moves.withEntry h.entry fun w hw => h.wait ▸ hw

theorem Given.end_ (h : Given x e₀ e) (hw : e.wait = none) {row : Row} {r : ExecutionResult} {events : List EventType}
    (ht : row.status.isTerminal = true) (hr : r.status = row.status) (hevents : Supervisor.ends events = 1) :
    let x' : Execution :=
      { row, events := x.events ++ events
        entry := some (Entry.resolveAndForget { e with terminalGeneration := e.terminalGeneration + 1 } r) }
    Sound x' ∧ Moves x x' := by
  have hopen := h.fits.open_ hw
  have hends := h.ends
  simp only [endsOf, hopen] at hends
  have hall : Supervisor.ends (x.events ++ events) = 1 := by
    rw [ends_append, hevents, hends]
    rfl
  refine ⟨⟨?_, ?_⟩, ?_, ?_, ?_, ?_⟩
  · intro e' he'
    obtain rfl := Option.some.inj he'
    exact ⟨entrySound_resolved h.fits hw ht hr, unclaimed_settled⟩
  · intro _ _
    simp only [hall, endsOf, ht, if_true]
  · intro h'
    rw [hopen] at h'
    cases h'
  · simp only [hall, hends, endsOf, ht, hopen]
    rfl
  · intro e' he'
    rw [h.entry] at he'
    obtain rfl := Option.some.inj he'
    refine ⟨_, rfl, ?_⟩
    intro w hw'
    rw [← h.wait, hw] at hw'
    cases hw'
  · intro habsent
    rw [h.entry] at habsent
    cases habsent

theorem Given.unclaimed (h : Given x e₀ e) (hg : e.terminalGeneration > 0) : Unclaimed x.row e := by
  apply unclaimed_of_wait
  intro hw
  have := h.fits.generation.mpr hw
  omega

def Effect.Sound (x : Execution) (effect : Effect) : Prop :=
  Supervisor.Sound effect.execution ∧ Moves x effect.execution

variable {status : Status}

theorem sound_terminalizeIdle (h : Given x e₀ e) (hs : e.wait = none → e.session = none)
    (ht : status.isTerminal = true) (killReason : KillReason) (error lost : JsString) :
    (terminalizeIdle x e status killReason error lost).Sound x := by
  unfold terminalizeIdle
  by_cases hg : e.terminalGeneration > 0
  · rw [if_pos hg]
    exact h.keep (h.unclaimed hg)
  · have hw := h.fits.wait_of_generation hg
    rw [if_neg hg, if_pos (h.fits.idle hw (hs hw))]
    exact h.end_ hw (by exact ht) rfl (ends_endEvent status)

theorem sound_terminalizeRunning (h : Given x e₀ e) (hs : e.session.isSome)
    (ht : status.isTerminal = true) (killReason : Option KillReason) (error : Option JsString) :
    (terminalizeRunning x e status killReason error).Sound x := by
  unfold terminalizeRunning
  by_cases hg : e.terminalGeneration > 0
  · rw [if_pos hg]
    exact h.keep (h.unclaimed hg)
  have hw := h.fits.wait_of_generation hg
  rw [if_neg hg, if_pos (h.fits.running hw hs)]
  apply h.end_ hw (by exact ht) rfl
  rw [ends_append, ends_append, ends_endEvent]
  by_cases hdone : status = .done
  all_goals simp [hdone, ends, EventType.endsExecution]

theorem sound_settleAtBound (h : Given x e₀ e) (ht : status.isTerminal = true)
    (killReason : KillReason) (error : JsString) : (settleAtBound x e status killReason error).Sound x := by
  unfold settleAtBound
  by_cases hg : e.terminalGeneration > 0
  · rw [if_pos hg]
    exact h.keep (h.unclaimed hg)
  have hw := h.fits.wait_of_generation hg
  have hopen := h.fits.open_ hw
  rw [if_neg hg]
  unfold reconcile
  rw [if_neg (by simp [hopen])]
  exact h.end_ hw (by exact ht) rfl (ends_endEvent status)

theorem isTerminal_determined (intent : Option TerminalIntent) (finished : Option Finished) :
    (determineTerminalStatus intent finished).isTerminal = true := by
  cases intent with
  | none =>
    unfold determineTerminalStatus
    by_cases h : finished.any Finished.done = true
    all_goals simp [h, Status.isTerminal]
  | some intent => cases intent <;> rfl

theorem sound_handleChildClose (redact : JsString → JsString) (h : Given x e₀ e) (hs : e.session.isSome)
    (intent : Option TerminalIntent) : (handleChildClose redact x e intent).Sound x := by
  have hf := h.fits
  have hgiven : Given x e₀ { e with observer := .returned } :=
    ⟨h.entry, h.wait,
      ⟨hf.generation, hf.registered, hf.settled, hf.idle, hf.running, hf.alone, hf.timer, fun _ => hs⟩, h.ends⟩
  exact sound_terminalizeRunning hgiven hs (isTerminal_determined intent e.finished) _ _

/-! ### Launching -/

/-- The start is no longer awaited. -/
theorem Given.started (h : Given x e₀ e) : Given x e₀ { e with starting := none } :=
  have hf := h.fits
  ⟨h.entry, h.wait, ⟨hf.generation, hf.registered, hf.settled, hf.idle, hf.running, by simp, hf.timer, hf.observed⟩,
    h.ends⟩

theorem Moves.withRow (he : x.entry = some e) (hw : e.wait = none)
    (hopen : x.row.status.isTerminal = false) {row : Row}
    (hrow : row.status.isTerminal = false) {events : List EventType} (hevents : Supervisor.ends events = 0)
    (e' : Entry) :
    Moves x { row, events := x.events ++ events, entry := some e' } where
  frozen h := by
    rw [hopen] at h
    cases h
  ends := by
    rw [ends_append, hevents, endsOf, endsOf, hopen, hrow]
    rfl
  entry e₁ h₁ := by
    rw [he] at h₁
    obtain rfl := Option.some.inj h₁
    refine ⟨e', rfl, ?_⟩
    intro w h
    rw [hw] at h
    cases h
  absent h := by
    rw [he] at h
    cases h

theorem sound_afterStart (h : Sound x) (he : x.entry = some e) {fromQueue : Bool}
    (hstarting : e.starting = some fromQueue)
    (outcome : StartOutcome) : (afterStart x e fromQueue outcome).Sound x := by
  have hgiven := h.given he
  have hf := hgiven.fits
  have hu := (h.entry e he).2
  have hnone : e.session = none := hf.alone (by simp [hstarting])
  -- a start that fails is left alone only where the end was claimed, and then the execution has ended
  have hclaimed : e.cancelRequested = true ∨ e.terminalIntent.isSome = true → e.wait ≠ none := by
    intro hc hw
    obtain ⟨hintent, hcancel, -⟩ := hu hw hnone
    rcases hc with hc | hc
    · rw [hcancel] at hc
      cases hc
    · rw [hintent] at hc
      cases hc
  cases outcome with
  | session pid =>
    unfold afterStart
    dsimp only
    by_cases hw : e.wait = none
    · have hrow : x.row.status = .starting := (hu hw hnone).2.2.mp (by simp [hstarting])
      have hopen := hf.open_ hw
      rw [if_pos hrow]
      refine ⟨⟨?_, ?_⟩, ?_⟩
      · intro e' he'
        obtain rfl := Option.some.inj he'
        refine ⟨?_, ?_⟩
        · exact ⟨hf.generation, hf.registered, fun w hw' => by simp [hw] at hw', by simp, fun _ _ => rfl, by simp,
            by simp, by simp⟩
        · intro _ hsession
          cases hsession
      · intro _ _
        have hends := hgiven.ends
        rw [endsOf, hopen] at hends
        rw [ends_append, hends]
        cases fromQueue <;> rfl
      · apply Moves.withRow he hw hopen rfl
        cases fromQueue <;> rfl
    · obtain ⟨w, hwait⟩ := Option.ne_none_iff_exists'.mp hw
      have hterminal := (hf.settled w hwait).1
      have hrow : x.row.status ≠ .starting := by
        intro heq
        rw [heq] at hterminal
        cases hterminal
      rw [if_neg hrow, if_pos hterminal]
      have hwait' : ∀ r, (Entry.resolveAndForget
          { e with starting := none, session := some ⟨pid, false⟩, kill := some .pending,
                   terminalGeneration := e.terminalGeneration + 1 } r).wait = some w := by
        intro r
        simp [Entry.resolveAndForget, Entry.settle, hwait]
      refine ⟨⟨?_, fun _ _ => hgiven.ends⟩, ?_⟩
      · intro e' he'
        obtain rfl := Option.some.inj he'
        refine ⟨⟨?_, ?_, ?_, ?_, ?_, ?_, ?_, ?_⟩, unclaimed_settled⟩
        · simp [Entry.resolveAndForget, Entry.settle]
        · rfl
        · intro w' hw'
          rw [hwait'] at hw'
          obtain rfl := Option.some.inj hw'
          exact hf.settled w hwait
        · exact nofun
        · intro hnone
          cases hnone
        iterate 3 simp [Entry.resolveAndForget, Entry.settle]
      · apply Moves.withEntry he
        intro w' hw'
        rw [hwait']
        rw [← hw', hwait]
  | laneClosed | failed =>
    unfold afterStart
    dsimp only
    split
    · rename_i hc
      exact hgiven.started.keep (unclaimed_of_wait (hclaimed hc))
    · exact sound_terminalizeIdle hgiven.started (fun _ => hnone) rfl _ _ _

theorem sound_launch (config : Config) (disk : Option JsString) (id : ExecutionId) (h : Given x e₀ e)
    (hu : Unclaimed x.row e) (hs : e.session = none) (fromQueue : Bool) :
    (launch config disk id x e fromQueue).1.Sound x := by
  have hf := h.fits
  unfold launch
  cases disk with
  | some status => exact sound_terminalizeIdle h (fun _ => hs) rfl _ _ _
  | none =>
    by_cases hg : e.terminalGeneration > 0
    · rw [if_pos hg]
      exact h.keep hu
    rw [if_neg hg]
    have hw := hf.wait_of_generation hg
    cases config.prepare id <;> dsimp only
    case some error =>
      split
      · exact h.keep hu
      · exact sound_terminalizeIdle h (fun _ => hs) rfl _ _ _
    case none =>
      split
      · have hopen := hf.open_ hw
        obtain ⟨hintent, hcancel, -⟩ := hu hw hs
        refine ⟨⟨?_, ?_⟩, ?_⟩
        · intro e' he'
          obtain rfl := Option.some.inj he'
          refine ⟨⟨hf.generation, hf.registered, fun w hw' => by simp [hw] at hw', fun _ _ => Or.inr rfl,
            fun _ hsome => by simp [hs] at hsome, fun _ => hs, hf.timer, hf.observed⟩, ?_⟩
          intro _ _
          exact ⟨hintent, hcancel, by simp⟩
        · intro _ _
          have hends := h.ends
          rw [endsOf, hopen] at hends
          exact hends
        · have hmoves : Moves x
              { row := { x.row with status := .starting }, events := x.events ++ []
                entry := some { e with starting := some fromQueue } } :=
            Moves.withRow h.entry (h.wait ▸ hw) hopen rfl rfl _
          rwa [List.append_nil] at hmoves
      · exact h.keep hu

end Wrenyard.Supervisor
