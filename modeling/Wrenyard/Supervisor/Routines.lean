import Wrenyard.Supervisor.Machine

/-!
# Routines of the supervisor

Facts about the machine that hold whatever its executions are: what the entry of an execution is, and which routines a
step adds (`mem_routines_perform`).  Promotions add none.
-/

namespace Wrenyard.Supervisor

open Js

variable {id : ExecutionId} {x : Execution} {e : Entry} {s : State}

theorem entryOf_eq_some : s.entryOf id = some (x, e) ↔ s.executions.get id = some x ∧ x.entry = some e := by
  unfold State.entryOf
  cases hx : s.executions.get id with
  | none => simp
  | some y =>
    cases he : y.entry with
    | none =>
      constructor
      · intro h
        simp [he] at h
      · rintro ⟨hxy, hxe⟩
        obtain rfl := Option.some.inj hxy
        rw [he] at hxe
        cases hxe
    | some e' =>
      simp only [Option.bind_eq_bind, Option.bind_some, he, Option.pure_def, Option.some.injEq, Prod.mk.injEq]
      constructor
      · rintro ⟨rfl, rfl⟩
        exact ⟨rfl, he⟩
      · rintro ⟨rfl, hxe⟩
        rw [he] at hxe
        exact ⟨rfl, Option.some.inj hxe⟩

theorem registered_eq_some : s.registered id = some (x, e) ↔ s.entryOf id = some (x, e) ∧ e.registered = true := by
  unfold State.registered
  rw [Option.filter_eq_some_iff]

/-! ### Routines -/

variable (config : Config)

theorem routines_promoteOne (s : State) (candidate : Candidate) :
    (s.promoteOne config candidate).1.routines = s.routines := by
  unfold State.promoteOne
  cases (s.registered candidate.id).filter fun p => p.2.terminalGeneration = 0 with
  | none => rfl
  | some p =>
    dsimp only
    split
    · rfl
    · split <;> rfl

theorem routines_promoteScan (candidates : List Candidate) (s : State) :
    (State.promoteScan config candidates s).routines = s.routines := by
  induction candidates generalizing s with
  | nil => rfl
  | cons candidate rest ih =>
    unfold State.promoteScan
    by_cases hcount : s.runningCount ≥ MAX_CONCURRENT_EXECUTIONS
    · rw [if_pos hcount]
    rw [if_neg hcount]
    have hone := routines_promoteOne config s candidate
    rcases hresult : s.promoteOne config candidate with ⟨s', launched⟩
    rw [hresult] at hone
    cases launched with
    | true => exact hone
    | false => exact (ih s').trans hone

theorem routines_promoteRound (s : State) : (s.promoteRound config).routines = s.routines := by
  unfold State.promoteRound
  split
  · exact routines_promoteScan config s.candidates s
  · rfl

@[simp] theorem routines_promoteQueued (s : State) :
    (s.promoteQueued config).routines = s.routines := by
  unfold State.promoteQueued
  split
  · rfl
  · exact routines_promoteRound config s

@[simp] theorem routines_resumePromotion (s : State) (rest : List Candidate) :
    (s.resumePromotion config rest).routines = s.routines := by
  unfold State.resumePromotion
  dsimp only
  split
  · exact routines_promoteScan config rest s
  · rw [routines_promoteRound, routines_promoteScan]

@[simp] theorem routines_applyThen (s : State) (id : ExecutionId) (effect : Effect) :
    (s.applyThen config id effect).routines = s.routines := by
  unfold State.applyThen
  split
  · rw [routines_promoteQueued]
    rfl
  · rfl

@[simp] theorem routines_startExecution (s : State) (opts : StartOpts) :
    (s.startExecution config opts).routines = s.routines := by
  unfold State.startExecution
  split
  · rfl
  dsimp only
  split
  · rw [routines_applyThen]
    rfl
  split
  · split
    · rw [routines_promoteQueued]
      rfl
    · rfl
  · rfl

@[simp] theorem routines_reconcileRow (s : State) (id : ExecutionId) : (s.reconcileRow id).routines = s.routines := by
  unfold State.reconcileRow
  split
  · rfl
  · split <;> rfl

variable {r : Routine}

theorem mem_leave {r' : Routine} (h : r ∈ (s.leave r').routines) : r ∈ s.routines := List.mem_of_mem_erase h

theorem mem_enter {r' : Routine} (h : r ∈ (s.enter r').routines) : r ∈ s.routines ∨ r = r' := by
  rcases List.mem_append.mp h with h | h
  · exact Or.inl h
  · exact Or.inr (List.mem_singleton.mp h)

def Adds (s : State) : Op → Routine → Prop
  | .cancel id, r =>
    (r = .cancelRow id ∧ s.registered id = none ∧ (OMap.get s.executions id).isSome) ∨
    (r = .cancelKill id ∧ ∃ x e, s.registered id = some (x, e) ∧ e.pid.isSome)
  | .cancelKilled id, r => r = .cancelRace id ∧ (s.entryOf id).bind (fun p => p.2.kill) = some .resolved
  | .timeout id, r => r = .timeoutRace id
  | .shutdown, r => r = .shutdownGrace ∨ ∃ rest, r = .shutdownLoop rest
  | .shutdownGraceOver, r => ∃ rest, r = .shutdownLoop rest
  | .shutdownNext _, r => (∃ rest', r = .shutdownLoop rest') ∨ ∃ id rest', r = .shutdownKill id rest'
  | .shutdownKilled _ rest, r => r = .shutdownLoop rest
  | _, _ => False

theorem adds_cancelRow {op : Op} (h : Adds s op (.cancelRow id)) :
    s.registered id = none ∧ (s.executions.get id).isSome := by
  cases op with
  | cancel id' =>
    rcases h with ⟨heq, hreg, hx⟩ | ⟨heq, -⟩
    · obtain rfl := Routine.cancelRow.inj heq
      exact ⟨hreg, hx⟩
    · cases heq
  | cancelKilled id' => cases h.1
  | shutdown =>
    rcases h with heq | ⟨rest, heq⟩ <;> cases heq
  | shutdownGraceOver =>
    obtain ⟨rest, heq⟩ := h
    cases heq
  | shutdownNext rest =>
    rcases h with ⟨rest, heq⟩ | ⟨id, rest, heq⟩ <;> cases heq
  | _ => cases h

theorem adds_cancelRace {op : Op} (h : Adds s op (.cancelRace id)) :
    (s.entryOf id).bind (fun p => p.2.kill) = some .resolved := by
  cases op with
  | cancel id' =>
    rcases h with ⟨heq, -⟩ | ⟨heq, -⟩ <;> cases heq
  | cancelKilled id' =>
    obtain ⟨heq, hk⟩ := h
    obtain rfl := Routine.cancelRace.inj heq
    exact hk
  | shutdown =>
    rcases h with heq | ⟨rest, heq⟩ <;> cases heq
  | shutdownGraceOver =>
    obtain ⟨rest, heq⟩ := h
    cases heq
  | shutdownNext rest =>
    rcases h with ⟨rest, heq⟩ | ⟨id, rest, heq⟩ <;> cases heq
  | _ => cases h

theorem mem_cancelExecution (h : r ∈ (s.cancelExecution config id).routines) :
    r ∈ s.routines ∨ Adds s (.cancel id) r := by
  unfold State.cancelExecution at h
  cases hreg : s.registered id <;> rw [hreg] at h
  case none =>
    unfold State.cancelQueuedExecutionWithoutRegistry at h
    cases hx : s.executions.get id <;> rw [hx] at h
    case none => exact Or.inl h
    case some x =>
      dsimp only at h
      split at h
      · exact Or.inl h
      split at h
      · rcases mem_enter h with h | h
        · exact Or.inl h
        · exact Or.inr (Or.inl ⟨h, hreg, by rw [hx]; rfl⟩)
      · rw [routines_promoteQueued, routines_reconcileRow] at h
        exact Or.inl h
  case some p =>
    obtain ⟨x, e⟩ := p
    dsimp only at h
    split at h
    · split at h
      · rw [routines_applyThen] at h
        exact Or.inl h
      · exact Or.inl h
    rename_i hpid
    rcases mem_enter h with h | h
    · exact Or.inl h
    refine Or.inr (Or.inr ⟨h, x, e, hreg, ?_⟩)
    have hsame : Entry.pid { (e.claimTerminalIntent .cancel).2 with cancelRequested := true } = e.pid := by
      unfold Entry.claimTerminalIntent
      split <;> rfl
    rw [hsame] at hpid
    simpa [Option.isSome_iff_ne_none] using hpid

theorem mem_shutdownEntry {rest : List ExecutionId}
    (h : r ∈ (s.shutdownEntry config id rest).routines) :
    r ∈ s.routines ∨ (∃ rest', r = .shutdownLoop rest') ∨ ∃ id rest', r = .shutdownKill id rest' := by
  unfold State.shutdownEntry at h
  have hloop : r ∈ (s.enter (.shutdownLoop rest)).routines →
      r ∈ s.routines ∨ (∃ rest', r = .shutdownLoop rest') ∨ ∃ id rest', r = .shutdownKill id rest' := by
    intro h
    rcases mem_enter h with h | h
    · exact Or.inl h
    · exact Or.inr (Or.inl ⟨rest, h⟩)
  cases hx : s.entryOf id <;> rw [hx] at h
  case none => exact hloop h
  case some p =>
    obtain ⟨x, e⟩ := p
    dsimp only at h
    split at h
    · split at h
      · rw [routines_applyThen] at h
        exact hloop h
      · exact hloop h
    · rcases mem_enter h with h | h
      · exact Or.inl h
      · exact Or.inr (Or.inr ⟨id, rest, h⟩)

theorem mem_routines_perform (s : State) (op : Op) (h : r ∈ (s.perform config op).routines) :
    r ∈ s.routines ∨ Adds s op r := by
  unfold State.perform at h
  cases op <;> dsimp only at h
  case start opts =>
    rw [routines_startExecution] at h
    exact Or.inl h
  case started | drained =>
    split at h
    · split at h
      · rw [routines_applyThen] at h
        exact Or.inl h
      · exact Or.inl h
    · exact Or.inl h
  case resumePromotion =>
    split at h
    · split at h
      · exact Or.inl h
      · rw [routines_resumePromotion] at h
        exact Or.inl h
    · exact Or.inl h
  case promoteQueuedAfterGuardChange =>
    rw [routines_promoteQueued] at h
    exact Or.inl h
  case setDisk status => exact Or.inl h
  case streamEnd | close =>
    split at h
    · split at h <;> exact Or.inl h
    · exact Or.inl h
  case cancel id => exact mem_cancelExecution config h
  case killSettled id resolved =>
    split at h
    · split at h
      · split at h <;> exact Or.inl h
      · exact Or.inl h
    · exact Or.inl h
  case cancelKilled id =>
    split at h
    · rename_i hkill
      split at h
      · rcases mem_enter h with h | h
        · exact Or.inl (mem_leave h)
        · exact Or.inr ⟨h, hkill⟩
      · exact Or.inl h
    · exact Or.inl (mem_leave h)
    · exact Or.inl h
  case cancelBound id live =>
    split at h
    · split at h
      · split at h <;> exact Or.inl (mem_leave h)
      · exact Or.inl (mem_leave h)
    · exact Or.inl h
  case cancelRowKilled id killed live =>
    split at h
    · split at h
      · rw [routines_promoteQueued, routines_reconcileRow] at h
        exact Or.inl (mem_leave h)
      · exact Or.inl (mem_leave h)
    · exact Or.inl h
  case timeout id =>
    split at h
    · split at h
      · unfold State.attemptDeadline at h
        dsimp only at h
        split at h
        · exact Or.inl h
        · exact mem_enter h
      · exact Or.inl h
    · exact Or.inl h
  case timeoutBound id =>
    split at h
    · split at h <;> exact Or.inl (mem_leave h)
    · exact Or.inl h
  case waited r' => exact Or.inl (mem_leave h)
  case shutdown =>
    unfold State.shutdown at h
    dsimp only at h
    split at h
    · rcases mem_enter h with h | h
      · exact Or.inl h
      · exact Or.inr (Or.inl h)
    · rcases mem_enter h with h | h
      · exact Or.inl h
      · exact Or.inr (Or.inr ⟨_, h⟩)
  case shutdownGraceOver =>
    split at h
    · rcases mem_enter h with h | h
      · exact Or.inl (mem_leave h)
      · exact Or.inr ⟨_, h⟩
    · exact Or.inl h
  case shutdownNext rest =>
    split at h
    · split at h
      · rcases mem_shutdownEntry config h with h | h
        · exact Or.inl (mem_leave h)
        · exact Or.inr h
      · exact Or.inl (mem_leave h)
    · exact Or.inl h
  case shutdownKilled id rest =>
    split at h
    · split at h
      · rcases mem_enter h with h | h
        · exact Or.inl (mem_leave h)
        · exact Or.inr h
      · exact Or.inl (mem_leave h)
      · exact Or.inl h
    · exact Or.inl h

end Wrenyard.Supervisor
