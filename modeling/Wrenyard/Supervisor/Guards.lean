import Wrenyard.Supervisor.Steps

/-!
# Guarded entries

An entry that needs a write lock is guarded when its lock is held while its client is starting or its session is not
over (`Guarded`).  What a routine makes of an entry is guarded again, and keeps what the execution asks for, as long
as the routine does not end an execution whose client is active.
-/

namespace Wrenyard.Supervisor

open Js

structure Entry.Follows (e e' : Entry) : Prop where
  repoWriteLock : e'.repoWriteLock = e.repoWriteLock
  writePaths : e'.writePaths = e.writePaths
  isOver : e.isOver = true → e'.isOver = true
  registered : e.registered = false → e'.registered = false

structure Execution.Follows (x x' : Execution) : Prop where
  cwd : x'.row.cwd = x.row.cwd
  entry : ∀ e, x.entry = some e → ∃ e', x'.entry = some e' ∧ e.Follows e'
  absent : x.entry = none → x'.entry = none
  ended : x.row.status.isTerminal = true → x'.row.status.isTerminal = true

structure Guarded (held : Prop) (row : Row) (e : Entry) : Prop where
  active : e.active = true → e.repoWriteLock = true → e.registered = true ∧ held
  lock : e.registered = true → e.hasRepoLock = true → held
  open_ : e.registered = true → row.status.isTerminal = false
  queued : row.status = .queued → e.starting = none ∧ e.session = none
  starting : e.starting.isSome → row.status = .starting ∨ row.status.isTerminal = true
  alone : e.starting.isSome → e.session = none
  closed : e.observer.closed = true → e.isOver = true
  kill : e.kill = some .resolved → e.isOver = true

structure Effect.Guards (held : Prop) (x : Execution) (effect : Effect) : Prop where
  guarded : ∀ e', effect.execution.entry = some e' →
    Guarded (held ∧ effect.release = false) effect.execution.row e'
  follows : x.Follows effect.execution

variable {held held' : Prop} {row : Row} {x : Execution} {e e' e₀ : Entry}

theorem Entry.Follows.refl (e : Entry) : e.Follows e := ⟨rfl, rfl, fun h => h, fun h => h⟩

theorem Entry.Follows.trans {e'' : Entry} (h : e.Follows e') (h' : e'.Follows e'') : e.Follows e'' where
  repoWriteLock := h'.repoWriteLock.trans h.repoWriteLock
  writePaths := h'.writePaths.trans h.writePaths
  isOver ho := h'.isOver (h.isOver ho)
  registered hr := h'.registered (h.registered hr)

theorem Execution.Follows.refl (x : Execution) : x.Follows x :=
  ⟨rfl, fun e he => ⟨e, he, Entry.Follows.refl e⟩, fun h => h, fun h => h⟩

theorem Execution.Follows.trans {y z : Execution} (h : x.Follows y) (h' : y.Follows z) : x.Follows z where
  cwd := h'.cwd.trans h.cwd
  entry e he := by
    obtain ⟨e', he', hf⟩ := h.entry e he
    obtain ⟨e'', he'', hf'⟩ := h'.entry e' he'
    exact ⟨e'', he'', hf.trans hf'⟩
  absent he := h'.absent (h.absent he)
  ended ht := h'.ended (h.ended ht)

theorem Touch.follows (h : Touch e e') : e.Follows e' :=
  ⟨h.repoWriteLock, h.writePaths, h.isOver, fun hr => h.registered.trans hr⟩

theorem active_eq_false : e.active = false ↔ e.starting = none ∧ (e.session.isSome → e.isOver = true) := by
  unfold Entry.active Entry.isOver
  cases e.starting with
  | some fromQueue => simp
  | none => cases e.session <;> simp

theorem Touch.active (h : Touch e e') (ha : e.active = false) : e'.active = false := by
  rw [active_eq_false] at ha ⊢
  refine ⟨h.starting.trans ha.1, ?_⟩
  intro hs
  rw [h.session] at hs
  exact h.isOver (ha.2 hs)

theorem Guarded.mono (h : Guarded held row e) (hheld : held → held') : Guarded held' row e where
  active ha hr := ⟨(h.active ha hr).1, hheld (h.active ha hr).2⟩
  lock hr hl := hheld (h.lock hr hl)
  open_ := h.open_
  queued := h.queued
  starting := h.starting
  alone := h.alone
  closed := h.closed
  kill := h.kill

theorem Guarded.touch (h : Guarded held row e) (ht : Touch e e') : Guarded held row e' where
  active ha hr := by
    have hactive : e.active = true := by
      by_contra hno
      rw [ht.active (by simpa using hno)] at ha
      cases ha
    obtain ⟨hreg, hheld⟩ := h.active hactive (ht.repoWriteLock.symm.trans hr)
    exact ⟨ht.registered.trans hreg, hheld⟩
  lock hr hl := h.lock (ht.registered.symm.trans hr) (ht.hasRepoLock.symm.trans hl)
  open_ hr := h.open_ (ht.registered.symm.trans hr)
  queued hq := by
    obtain ⟨hstarting, hsession⟩ := h.queued hq
    refine ⟨ht.starting.trans hstarting, ?_⟩
    have hsome := ht.session
    rw [hsession] at hsome
    simpa using hsome
  starting hs := h.starting (ht.starting ▸ hs)
  alone hs := by
    have hsome := ht.session
    rw [h.alone (ht.starting ▸ hs)] at hsome
    simpa using hsome
  closed hc := by
    rcases ht.closed hc with hc | ho
    · exact ht.isOver (h.closed hc)
    · exact ho
  kill hk := by
    rcases ht.kill hk with hk | ho
    · exact ht.isOver (h.kill hk)
    · exact ho

/-- An entry whose client is not active needs no lock once it is settled. -/
theorem Guarded.settle (h : Guarded held row e) (ha : e.repoWriteLock = true → e.active = false) {row' : Row}
    (hrow : row' = row ∨ row'.status.isTerminal = true) (generation : Nat) (w : Wait) :
    Guarded held' row' (Entry.settle { e with terminalGeneration := generation } w) where
  active hactive hr := by
    have hno : e.active = true := hactive
    rw [ha hr] at hno
    cases hno
  lock hr := by
    cases hr
  open_ hr := by
    cases hr
  queued hq := by
    rcases hrow with rfl | ht
    · exact h.queued hq
    · rw [hq] at ht
      cases ht
  starting hs := by
    rcases hrow with rfl | ht
    · exact h.starting hs
    · exact Or.inr ht
  alone := h.alone
  closed := h.closed
  kill := h.kill

theorem follows_settle (e : Entry) (generation : Nat) (w : Wait) :
    e.Follows (Entry.settle { e with terminalGeneration := generation } w) := ⟨rfl, rfl, fun h => h, fun _ => rfl⟩

structure Ending (held : Prop) (x : Execution) (e₀ e : Entry) : Prop where
  entry : x.entry = some e₀
  follows : e₀.Follows e
  guarded : Guarded held x.row e
  idle : e.repoWriteLock = true → e.active = false

theorem guards_keep (hx : x.entry = some e₀) (hf : e₀.Follows e) (hg : Guarded held x.row e) (promote : Bool) :
    Effect.Guards held x { execution := { x with entry := some e }, promote } where
  guarded e' he' := by
    obtain rfl := Option.some.inj he'
    exact hg.mono fun h => ⟨h, rfl⟩
  follows := by
    refine ⟨rfl, ?_, fun h => ?_, fun h => h⟩
    · intro e₁ he₁
      rw [hx] at he₁
      obtain rfl := Option.some.inj he₁
      exact ⟨e, rfl, hf⟩
    · rw [hx] at h
      cases h

/-- The entry is settled. -/
theorem Ending.settle (h : Ending held x e₀ e) {row' : Row} (hcwd : row'.cwd = x.row.cwd)
    (hrow : row' = x.row ∨ row'.status.isTerminal = true) (events : List EventType) (generation : Nat) (w : Wait)
    (release promote : Bool) :
    Effect.Guards held x
      { execution :=
          { row := row', events, entry := some (Entry.settle { e with terminalGeneration := generation } w) }
        release
        promote } where
  guarded e' he' := by
    obtain rfl := Option.some.inj he'
    exact h.guarded.settle h.idle hrow generation w
  follows := by
    refine ⟨hcwd, ?_, fun habsent => ?_, ?_⟩
    · intro e₁ he₁
      rw [h.entry] at he₁
      obtain rfl := Option.some.inj he₁
      exact ⟨_, rfl, h.follows.trans (follows_settle e generation w)⟩
    · rw [h.entry] at habsent
      cases habsent
    · intro ht
      rcases hrow with rfl | ht'
      · exact ht
      · exact ht'

theorem Ending.lost (h : Ending held x e₀ e) (error : JsString) : (x.lost e error).Guards held x := by
  unfold Execution.lost
  split
  · exact h.settle rfl (Or.inl rfl) _ _ _ _ _
  · exact h.settle rfl (Or.inl rfl) _ e.terminalGeneration _ _ _

variable {status : Status}

theorem guards_terminalizeIdle (h : Ending held x e₀ e) (ht : status.isTerminal = true)
    (killReason : KillReason) (error lost : JsString) :
    (terminalizeIdle x e status killReason error lost).Guards held x := by
  unfold terminalizeIdle
  by_cases hg : e.terminalGeneration > 0
  · rw [if_pos hg]
    exact guards_keep h.entry h.follows h.guarded _
  rw [if_neg hg]
  split
  · exact h.settle (by rfl) (Or.inr ht) _ _ _ _ _
  · exact h.lost lost

theorem guards_terminalizeRunning (h : Ending held x e₀ e) (ht : status.isTerminal = true)
    (killReason : Option KillReason) (error : Option JsString) :
    (terminalizeRunning x e status killReason error).Guards held x := by
  unfold terminalizeRunning
  by_cases hg : e.terminalGeneration > 0
  · rw [if_pos hg]
    exact guards_keep h.entry h.follows h.guarded _
  rw [if_neg hg]
  split
  · exact h.settle (by rfl) (Or.inr ht) _ _ _ _ _
  · exact h.lost _

theorem guards_settleAtBound (h : Guarded held x.row e) (hx : x.entry = some e)
    (hidle : ¬ e.terminalGeneration > 0 → e.repoWriteLock = true → e.active = false)
    (ht : status.isTerminal = true) (killReason : KillReason) (error : JsString) :
    (settleAtBound x e status killReason error).Guards held x := by
  unfold settleAtBound
  by_cases hg : e.terminalGeneration > 0
  · rw [if_pos hg]
    exact guards_keep hx (Entry.Follows.refl e) h _
  rw [if_neg hg]
  have hending : Ending held x e e := ⟨hx, Entry.Follows.refl e, h, hidle hg⟩
  unfold reconcile
  by_cases hterminal : x.row.status.isTerminal = true
  · rw [if_pos hterminal]
    exact hending.settle rfl (Or.inl rfl) _ _ _ _ _
  · rw [if_neg hterminal]
    exact hending.settle (by rfl) (Or.inr ht) _ _ _ _ _

theorem guards_handleChildClose (redact : JsString → JsString) (h : Guarded held x.row e) (hx : x.entry = some e)
    (hc : e.observer.closed = true) (intent : Option TerminalIntent) :
    (handleChildClose redact x e intent).Guards held x := by
  have hover := h.closed hc
  have hsession : e.session.isSome := by
    unfold Entry.isOver at hover
    cases hs : e.session with
    | none =>
      rw [hs] at hover
      cases hover
    | some session => rfl
  have hstarting : e.starting = none := by
    by_contra hs
    rw [h.alone (Option.isSome_iff_ne_none.mpr hs)] at hsession
    cases hsession
  have hfollows : e.Follows { e with observer := .returned } := ⟨rfl, rfl, fun h => h, fun h => h⟩
  have hguarded : Guarded held x.row { e with observer := .returned } :=
    ⟨h.active, h.lock, h.open_, h.queued, h.starting, h.alone, fun _ => hover, h.kill⟩
  have hidle : e.active = false := active_eq_false.mpr ⟨hstarting, fun _ => hover⟩
  exact guards_terminalizeRunning ⟨hx, hfollows, hguarded, fun _ => hidle⟩ (by
    cases intent with
    | none =>
      unfold determineTerminalStatus
      dsimp only
      split <;> rfl
    | some intent => cases intent <;> rfl) _ _

/-! ### Launching -/

/-- The start is no longer awaited. -/
theorem Guarded.started (h : Guarded held row e) : Guarded held row { e with starting := none } where
  active ha hr := by
    apply h.active _ hr
    unfold Entry.active at ha ⊢
    rw [Option.isSome_none, Bool.false_or] at ha
    rw [ha, Bool.or_true]
  lock := h.lock
  open_ := h.open_
  queued hq := ⟨rfl, (h.queued hq).2⟩
  starting hs := by cases hs
  alone hs := by cases hs
  closed := h.closed
  kill := h.kill

theorem guards_afterStart (h : Guarded held x.row e) (hx : x.entry = some e) {fromQueue : Bool}
    (hstarting : e.starting = some fromQueue) (outcome : StartOutcome) :
    (afterStart x e fromQueue outcome).Guards held x := by
  have hsome : e.starting.isSome := by rw [hstarting]; rfl
  have hnone : e.session = none := h.alone hsome
  have hfollows : e.Follows { e with starting := none } := ⟨rfl, rfl, fun h => h, fun h => h⟩
  have hactive : e.active = true := by
    unfold Entry.active
    rw [hsome, Bool.true_or]
  have hover : e.isOver = false := by
    unfold Entry.isOver
    rw [hnone]
    rfl
  have hclosed : e.observer.closed ≠ true := by
    intro hc
    rw [h.closed hc] at hover
    cases hover
  have hkill : e.kill ≠ some .resolved := by
    intro hk
    rw [h.kill hk] at hover
    cases hover
  have hending : Ending held x e { e with starting := none } := by
    refine ⟨hx, hfollows, h.started, ?_⟩
    intro _
    rw [active_eq_false]
    refine ⟨rfl, ?_⟩
    intro hs
    have hs' : e.session.isSome := hs
    rw [hnone] at hs'
    cases hs'
  unfold afterStart
  cases outcome with
  | session pid =>
    dsimp only
    by_cases hrow : x.row.status = .starting
    · rw [if_pos hrow]
      constructor
      · intro e' he'
        obtain rfl := Option.some.inj he'
        refine ⟨fun _ hr => ?_, fun hr hl => ⟨h.lock hr hl, rfl⟩, fun _ => rfl, ?_, ?_, ?_, ?_,
          fun hk => absurd hk hkill⟩
        · obtain ⟨hreg, hheld⟩ := h.active hactive hr
          exact ⟨hreg, hheld, rfl⟩
        · exact nofun
        · intro hs
          cases hs
        · exact nofun
        · intro hc
          cases hc
      · refine ⟨rfl, ?_, fun habsent => ?_, fun ht => ?_⟩
        · intro e₁ he₁
          rw [hx] at he₁
          obtain rfl := Option.some.inj he₁
          refine ⟨_, rfl, rfl, rfl, fun ho => ?_, fun hr => hr⟩
          rw [hover] at ho
          cases ho
        · rw [hx] at habsent
          cases habsent
        · rw [hrow] at ht
          cases ht
    · have ht : x.row.status.isTerminal = true := (h.starting hsome).resolve_left hrow
      rw [if_neg hrow, if_pos ht]
      constructor
      · intro e' he'
        obtain rfl := Option.some.inj he'
        refine ⟨fun _ hr => ?_, fun hr => ?_, fun hr => ?_, fun hq => ?_, fun hs => ?_, fun hs => ?_,
          fun hc => absurd hc hclosed, fun hk => ?_⟩
        · rw [h.open_ (h.active hactive hr).1] at ht
          cases ht
        · cases hr
        · cases hr
        · rw [hq] at ht
          cases ht
        · cases hs
        · cases hs
        · cases hk
      · refine ⟨rfl, ?_, fun habsent => ?_, fun h => h⟩
        · intro e₁ he₁
          rw [hx] at he₁
          obtain rfl := Option.some.inj he₁
          refine ⟨_, rfl, rfl, rfl, fun ho => ?_, fun _ => rfl⟩
          rw [hover] at ho
          cases ho
        · rw [hx] at habsent
          cases habsent
  | laneClosed | failed =>
    dsimp only
    split
    · exact guards_keep hx hfollows h.started _
    · exact guards_terminalizeIdle hending rfl _ _ _

theorem guards_launch (config : Config) (disk : Option JsString) (id : ExecutionId) (h : Guarded held x.row e)
    (hx : x.entry = some e₀) (hf : e₀.Follows e) (hreg : e.registered = true) (hq : x.row.status = .queued)
    (hgo : e.repoWriteLock = true → held) (fromQueue : Bool) :
    (launch config disk id x e fromQueue).1.Guards held x := by
  obtain ⟨hstarting, hsession⟩ := h.queued hq
  have hidle : e.active = false := by
    rw [active_eq_false]
    refine ⟨hstarting, ?_⟩
    intro hs
    rw [hsession] at hs
    cases hs
  have hending : Ending held x e₀ e := ⟨hx, hf, h, fun _ => hidle⟩
  unfold launch
  cases disk with
  | some status => exact guards_terminalizeIdle hending rfl _ _ _
  | none =>
    by_cases hg : e.terminalGeneration > 0
    · rw [if_pos hg]
      exact guards_keep hx hf h _
    rw [if_neg hg]
    cases config.prepare id <;> dsimp only
    case some error =>
      split
      · exact guards_keep hx hf h _
      · exact guards_terminalizeIdle hending rfl _ _ _
    case none =>
      rw [if_pos hq]
      constructor
      · intro e' he'
        obtain rfl := Option.some.inj he'
        refine ⟨fun _ hr => ⟨hreg, hgo hr, rfl⟩, fun hr hl => ⟨h.lock hr hl, rfl⟩, fun _ => rfl, ?_,
          fun _ => Or.inl rfl,
          fun _ => hsession, h.closed, h.kill⟩
        intro hq'
        cases hq'
      · refine ⟨rfl, ?_, fun habsent => ?_, fun ht => ?_⟩
        · intro e₁ he₁
          rw [hx] at he₁
          obtain rfl := Option.some.inj he₁
          exact ⟨_, rfl, hf.repoWriteLock, hf.writePaths, hf.isOver, hf.registered⟩
        · rw [hx] at habsent
          cases habsent
        · rw [hq] at ht
          cases ht

end Wrenyard.Supervisor
