import Wrenyard.Supervisor.Guards
import Wrenyard.Supervisor.Outcomes

/-!
# Write protection

The held locks do not conflict, every one of them is the lock its execution asks for, and an execution that needs a
lock has it while its client is active (`Protected`).  Every step keeps this, as long as no cancellation, shutdown or
attempt bound ends an execution whose client is active, which is how the lock of a client that still runs is released
(`cancelled_start`).
-/

namespace Wrenyard.Supervisor

open Js

def wantedBy (paths : Paths) (id : ExecutionId) (x : Execution) (e : Entry) : RepoWriteLock :=
  wanted paths x.row.cwd id (repoWriteLockMode e.writePaths) e.writePaths

structure Protected (paths : Paths) (m : Executions) (locks : Locks) : Prop where
  sound : locks.Sound paths
  guarded : ∀ id x e, OMap.get m id = some x → x.entry = some e → Guarded (locks.Held id) x.row e
  wanted : ∀ id lock, OMap.get locks.lockByExecutionId id = some lock →
    ∃ x e, OMap.get m id = some x ∧ x.entry = some e ∧ lock = wantedBy paths id x e
  left : ∀ id x, OMap.get m id = some x → x.entry = none → x.row.status.isTerminal = true

def Offered (m : Executions) (l : List Candidate) : Prop :=
  ∀ c ∈ l, ∃ x, OMap.get m c.id = some x ∧ c.cwd = x.row.cwd

def FollowsAll (m m' : Executions) : Prop :=
  ∀ id x, OMap.get m id = some x → ∃ x', OMap.get m' id = some x' ∧ x.Follows x'

structure Shielded (config : Config) (s : State) : Prop where
  nodup : (OMap.keys s.executions).Nodup
  guarded : Protected config.paths s.executions s.locks
  offered : ∀ id l, s.promotion = some (id, l) → Offered s.executions l

def Shields (config : Config) (s s' : State) : Prop :=
  Shielded config s → Shielded config s' ∧ FollowsAll s.executions s'.executions

variable {config : Config} {s s' s'' : State} {id : ExecutionId} {x : Execution} {e : Entry} {m m' m'' : Executions}
  {paths : Paths} {locks : Locks}

theorem FollowsAll.refl (m : Executions) : FollowsAll m m := fun _ x hx => ⟨x, hx, Execution.Follows.refl x⟩

theorem FollowsAll.trans (h : FollowsAll m m') (h' : FollowsAll m' m'') : FollowsAll m m'' := by
  intro id x hx
  obtain ⟨x', hx', hf⟩ := h id x hx
  obtain ⟨x'', hx'', hf'⟩ := h' id x' hx'
  exact ⟨x'', hx'', hf.trans hf'⟩

theorem Offered.follows {l : List Candidate} (h : Offered m l) (hf : FollowsAll m m') : Offered m' l := by
  intro c hc
  obtain ⟨x, hx, hcwd⟩ := h c hc
  obtain ⟨x', hx', hfollows⟩ := hf c.id x hx
  exact ⟨x', hx', hcwd.trans hfollows.cwd.symm⟩

theorem Shields.refl (config : Config) (s : State) : Shields config s s := fun h => ⟨h, FollowsAll.refl _⟩

theorem Shields.trans (h : Shields config s s') (h' : Shields config s' s'') : Shields config s s'' := by
  intro hs
  obtain ⟨hs', hf⟩ := h hs
  obtain ⟨hs'', hf'⟩ := h' hs'
  exact ⟨hs'', hf.trans hf'⟩

theorem shields_quiet (h : Quiet s s') : Shields config s s' := by
  intro hs
  refine ⟨⟨?_, ?_, ?_⟩, ?_⟩
  · rw [h.executions]
    exact hs.nodup
  · rw [h.executions, h.locks]
    exact hs.guarded
  · rw [h.executions, h.promotion]
    exact hs.offered
  · rw [h.executions]
    exact FollowsAll.refl _

theorem shields_unpromoted (config : Config) (s : State) : Shields config s { s with promotion := none } := by
  intro hs
  exact ⟨⟨hs.nodup, hs.guarded, fun id l h => by cases h⟩, FollowsAll.refl _⟩

theorem followsAll_set (hx : m.get id = some x) {x' : Execution} (h : x.Follows x') :
    FollowsAll m (m.set id x') := by
  intro id' y hy
  rw [OMap.get_set]
  by_cases hid : id = id'
  · subst hid
    rw [hx] at hy
    obtain rfl := Option.some.inj hy
    exact ⟨x', if_pos rfl, h⟩
  · exact ⟨y, by rw [if_neg hid, hy], Execution.Follows.refl y⟩

theorem wantedBy_follows {x' : Execution} {e' : Entry} (h : x.Follows x') (he : e.Follows e') :
    wantedBy paths id x' e' = wantedBy paths id x e := by
  unfold wantedBy
  rw [h.cwd, he.writePaths]

/-! ### One execution -/

/-- The effect of a routine on the executions and the locks. -/
theorem Protected.effect (h : Protected paths m locks) (hx : m.get id = some x) {effect : Effect}
    (hg : effect.Guards (locks.Held id) x) :
    Protected paths (m.set id effect.execution)
      (if effect.release then locks.releaseByExecution id else locks) := by
  have hheld : ∀ id', (if effect.release then locks.releaseByExecution id else locks).Held id' ↔
      locks.Held id' ∧ (effect.release = true → id' ≠ id) := by
    intro id'
    cases hr : effect.release with
    | true =>
      rw [if_pos rfl, Locks.held_releaseByExecution]
      simp
    | false =>
      simp
  refine ⟨?_, ?_, ?_, ?_⟩
  · split
    · exact h.sound.releaseByExecution id
    · exact h.sound
  · intro id' y e' hy he'
    rw [OMap.get_set] at hy
    by_cases hid : id = id'
    · subst hid
      rw [if_pos rfl] at hy
      obtain rfl := Option.some.inj hy
      apply (hg.guarded e' he').mono
      rintro ⟨hlock, hrelease⟩
      rw [hheld]
      exact ⟨hlock, fun hr => by rw [hrelease] at hr; cases hr⟩
    · rw [if_neg hid] at hy
      apply (h.guarded id' y e' hy he').mono
      intro hlock
      rw [hheld]
      exact ⟨hlock, fun _ heq => hid heq.symm⟩
  · intro id' lock hlock
    have hold : locks.lockByExecutionId.get id' = some lock := by
      split at hlock
      · rw [Locks.get_releaseByExecution] at hlock
        split at hlock
        · cases hlock
        · exact hlock
      · exact hlock
    obtain ⟨y, e', hy, he', heq⟩ := h.wanted id' lock hold
    rw [OMap.get_set]
    by_cases hid : id = id'
    · subst hid
      rw [hx] at hy
      obtain rfl := Option.some.inj hy
      obtain ⟨e'', he'', hf⟩ := hg.follows.entry e' he'
      exact ⟨_, e'', if_pos rfl, he'', heq.trans (wantedBy_follows hg.follows hf).symm⟩
    · exact ⟨y, e', by rw [if_neg hid, hy], he', heq⟩
  · intro id' y hy hnone
    rw [OMap.get_set] at hy
    by_cases hid : id = id'
    · subst hid
      rw [if_pos rfl] at hy
      obtain rfl := Option.some.inj hy
      cases he : x.entry with
      | none => exact hg.follows.ended (h.left id x hx he)
      | some e =>
        obtain ⟨e', he', -⟩ := hg.follows.entry e he
        rw [hnone] at he'
        cases he'
    · rw [if_neg hid] at hy
      exact h.left id' y hy hnone

theorem shields_apply (hx : s.entryOf id = some (x, e)) {effect : Effect}
    (hg : Shielded config s → effect.Guards (s.locks.Held id) x) (r : List Routine) :
    Shields config s ((s.withRoutines r).apply id effect) := by
  intro hs
  obtain ⟨hget, -⟩ := entryOf_eq_some.mp hx
  have hfollows : FollowsAll s.executions (s.executions.set id effect.execution) :=
    followsAll_set hget (hg hs).follows
  exact ⟨⟨OMap.nodup_keys_set hs.nodup _ _, hs.guarded.effect hget (hg hs),
    fun id' l hp => (hs.offered id' l hp).follows hfollows⟩, hfollows⟩

theorem shields_touch (hx : s.entryOf id = some (x, e)) {e' : Entry} (ht : Touch e e') (r : List Routine) :
    Shields config s ((s.withRoutines r).putEntry id x e') := by
  have hput : (s.withRoutines r).putEntry id x e' =
      (s.withRoutines r).apply id { execution := { x with entry := some e' } } := rfl
  rw [hput]
  apply shields_apply hx
  intro hs
  obtain ⟨hget, he⟩ := entryOf_eq_some.mp hx
  exact guards_keep he ht.follows ((hs.guarded.guarded id x e hget he).touch ht) false

theorem follows_shutDown (x : Execution) : x.Follows x.shutDown := by
  cases he : x.entry with
  | none =>
    have hsame : x.shutDown = x := by
      unfold Execution.shutDown
      rw [he]
    rw [hsame]
    exact Execution.Follows.refl x
  | some e =>
    obtain ⟨e', heq, ht⟩ := touch_shutDown he
    rw [heq]
    refine ⟨rfl, ?_, fun habsent => ?_, fun h => h⟩
    · intro e₁ he₁
      rw [he] at he₁
      obtain rfl := Option.some.inj he₁
      exact ⟨e', rfl, ht.follows⟩
    · rw [he] at habsent
      cases habsent

theorem shields_shutdown (r : List Routine) (accepting : Bool) :
    Shields config s
      { s with
        executions := s.executions.map fun (p : ExecutionId × Execution) => (p.1, p.2.shutDown)
        routines := r
        acceptingNew := accepting } := by
  intro hs
  have hget : ∀ id, OMap.get (s.executions.map fun (p : ExecutionId × Execution) => (p.1, p.2.shutDown)) id =
      (s.executions.get id).map Execution.shutDown :=
    fun id => OMap.get_map s.executions (fun p => p.2.shutDown) id
  have hfollows : FollowsAll s.executions
      (s.executions.map fun (p : ExecutionId × Execution) => (p.1, p.2.shutDown)) := by
    intro id x hx
    exact ⟨x.shutDown, by rw [hget, hx]; rfl, follows_shutDown x⟩
  have hkeys : OMap.keys (s.executions.map fun (p : ExecutionId × Execution) => (p.1, p.2.shutDown)) =
      s.executions.keys := OMap.keys_map s.executions fun p => p.2.shutDown
  refine ⟨⟨hkeys ▸ hs.nodup, ⟨hs.guarded.sound, ?_, ?_, ?_⟩, fun id l hp => (hs.offered id l hp).follows hfollows⟩,
    hfollows⟩
  · intro id y e' hy he'
    rw [hget, Option.map_eq_some_iff] at hy
    obtain ⟨x, hx, rfl⟩ := hy
    cases he : x.entry with
    | none =>
      rw [(follows_shutDown x).absent he] at he'
      cases he'
    | some e =>
      obtain ⟨e'', heq, ht⟩ := touch_shutDown he
      rw [heq] at he'
      obtain rfl := Option.some.inj he'
      have hrow : x.shutDown.row = x.row := by rw [heq]
      rw [hrow]
      exact (hs.guarded.guarded id x e hx he).touch ht
  · intro id lock hlock
    obtain ⟨x, e, hx, he, heq⟩ := hs.guarded.wanted id lock hlock
    obtain ⟨x', hx', hf⟩ := hfollows id x hx
    obtain ⟨e', he', hfe⟩ := hf.entry e he
    exact ⟨x', e', hx', he', heq.trans (wantedBy_follows hf hfe).symm⟩
  · intro id y hy hnone
    rw [hget, Option.map_eq_some_iff] at hy
    obtain ⟨x, hx, rfl⟩ := hy
    cases he : x.entry with
    | none => exact (follows_shutDown x).ended (hs.guarded.left id x hx he)
    | some e =>
      obtain ⟨e', he', -⟩ := (follows_shutDown x).entry e he
      rw [hnone] at he'
      cases he'

variable (config) in
theorem guarded_acquire {c : Candidate} (h : Guarded (s.locks.Held c.id) x.row e) (hreg : e.registered = true) :
    Guarded ((s.acquire config c e).2.1.Held c.id) x.row (s.acquire config c e).2.2 ∧
      e.Follows (s.acquire config c e).2.2 ∧ (s.acquire config c e).2.2.registered = true ∧
      ((s.acquire config c e).1 = true → (s.acquire config c e).2.2.repoWriteLock = true →
        (s.acquire config c e).2.1.Held c.id) := by
  unfold State.acquire
  split
  · have hlock : (s.locks.tryAcquire config.paths c.cwd c.id (repoWriteLockMode e.writePaths) e.writePaths).1 = true →
        (s.locks.tryAcquire config.paths c.cwd c.id (repoWriteLockMode e.writePaths) e.writePaths).2.Held c.id :=
      fun hgo => Locks.held_tryAcquire.mpr (Or.inr ⟨rfl, hgo⟩)
    refine ⟨⟨fun ha hr => ?_, fun _ hl => hlock hl, h.open_, h.queued, h.starting, h.alone, h.closed, h.kill⟩,
      ⟨rfl, rfl, fun h => h, fun h => h⟩, hreg, fun hgo _ => hlock hgo⟩
    obtain ⟨hr', hheld⟩ := h.active ha hr
    exact ⟨hr', Locks.held_tryAcquire.mpr (Or.inl hheld)⟩
  · rename_i hneeds
    refine ⟨h, Entry.Follows.refl e, hreg, fun _ hr => h.lock hreg ?_⟩
    simpa [show e.repoWriteLock = true from hr] using hneeds

theorem protected_tryAcquire (h : Protected paths m locks) (hx : m.get id = some x) (he : x.entry = some e) :
    Protected paths m (locks.tryAcquire paths x.row.cwd id (repoWriteLockMode e.writePaths) e.writePaths).2 := by
  refine ⟨h.sound.tryAcquire _ _ _ _, ?_, ?_, h.left⟩
  · intro id' y e' hy he'
    exact (h.guarded id' y e' hy he').mono fun hlock => Locks.held_tryAcquire.mpr (Or.inl hlock)
  · intro id' lock hlock
    rcases Locks.get_tryAcquire hlock with hold | ⟨rfl, rfl⟩
    · exact h.wanted id' lock hold
    · exact ⟨x, e, hx, he, rfl⟩

theorem protected_acquire {c : Candidate} (h : Protected config.paths s.executions s.locks)
    (hx : s.entryOf c.id = some (x, e)) (hcwd : c.cwd = x.row.cwd) :
    Protected config.paths s.executions (s.acquire config c e).2.1 := by
  obtain ⟨hget, he⟩ := entryOf_eq_some.mp hx
  unfold State.acquire
  split
  · rw [hcwd]
    exact protected_tryAcquire h hget he
  · exact h

theorem shields_promotion (h : Promotion config s s') : Shields config s s' := by
  cases h with
  | held _ => exact Shields.refl config s
  | exhausted _ => exact shields_unpromoted config s
  | launched p hl hsuffix hcount hpromoted =>
    rename_i l rest c x e
    intro hs
    obtain ⟨hx, hreg⟩ := registered_eq_some.mp hpromoted.registered
    obtain ⟨hget, he⟩ := entryOf_eq_some.mp hx
    have hoffered : Offered s.executions l := by
      rcases hl with rfl | ⟨id, hp⟩
      · intro c hc
        unfold State.candidates at hc
        rw [List.mem_map] at hc
        obtain ⟨p, hp, rfl⟩ := hc
        rw [List.mem_insertionSort, List.mem_filter] at hp
        exact ⟨p.2, OMap.get_of_mem hs.nodup hp.1, rfl⟩
      · exact hs.offered id l hp
    have hcwd : c.cwd = x.row.cwd := by
      obtain ⟨y, hy, hcwd⟩ := hoffered c (hsuffix.mem List.mem_cons_self)
      rw [hget] at hy
      obtain rfl := Option.some.inj hy
      exact hcwd
    have hlocked := protected_acquire hs.guarded hx hcwd
    obtain ⟨hguarded, hfollows, hreg', hgo⟩ :=
      guarded_acquire config (hs.guarded.guarded c.id x e hget he) hreg
    have hlaunch := guards_launch config s.disk c.id hguarded he hfollows hreg' hpromoted.queued
      (hgo hpromoted.go) true
    have hall := followsAll_set hget hlaunch.follows
    refine ⟨⟨OMap.nodup_keys_set hs.nodup _ _, hlocked.effect hget hlaunch, ?_⟩, hall⟩
    intro id' l' hp'
    obtain ⟨-, rfl⟩ := Prod.mk.inj (Option.some.inj hp')
    apply Offered.follows _ hall
    intro c' hc'
    exact hoffered c' (hsuffix.mem (List.mem_cons_of_mem _ hc'))

theorem shields_promoteQueued (config : Config) (s : State) : Shields config s (s.promoteQueued config) :=
  shields_promotion (promotion_promoteQueued config s)

theorem shields_applyThen (hx : s.entryOf id = some (x, e)) {effect : Effect}
    (hg : Shielded config s → effect.Guards (s.locks.Held id) x) (r : List Routine) :
    Shields config s ((s.withRoutines r).applyThen config id effect) := by
  unfold State.applyThen
  split
  · exact (shields_apply hx hg r).trans (shields_promoteQueued config _)
  · exact shields_apply hx hg r

theorem shields_registerStart {opts : StartOpts} (h : s.executions.get opts.executionId = none) :
    Shields config s (s.registerStart config opts) := by
  intro hs
  have hlock : ∀ id', s.locks.Held id' → (s.startLock config opts).2.Held id' := by
    intro id' hheld
    unfold State.startLock
    split
    · exact Locks.held_tryAcquire.mpr (Or.inl hheld)
    · exact hheld
  have hgiven : (s.startLock config opts).1 = true → (s.startLock config opts).2.Held opts.executionId := by
    unfold State.startLock
    split
    · exact fun hgo => Locks.held_tryAcquire.mpr (Or.inr ⟨rfl, hgo⟩)
    · exact fun hgo => by cases hgo
  have hfollows : FollowsAll s.executions (s.registerStart config opts).executions := by
    intro id' y hy
    have hid : opts.executionId ≠ id' := by
      rintro rfl
      rw [h] at hy
      cases hy
    refine ⟨y, ?_, Execution.Follows.refl y⟩
    unfold State.registerStart State.put
    rw [OMap.get_set, if_neg hid, hy]
  refine ⟨⟨OMap.nodup_keys_set hs.nodup _ _, ⟨?_, ?_, ?_, ?_⟩,
    fun id' l hp => (hs.offered id' l hp).follows hfollows⟩, hfollows⟩
  · unfold State.registerStart State.startLock
    split
    · exact hs.guarded.sound.tryAcquire _ _ _ _
    · exact hs.guarded.sound
  · intro id' y e' hy he'
    unfold State.registerStart State.put at hy
    rw [OMap.get_set] at hy
    by_cases hid : opts.executionId = id'
    · subst hid
      rw [if_pos rfl] at hy
      obtain rfl := Option.some.inj hy
      obtain rfl := Option.some.inj he'
      refine ⟨fun ha => ?_, fun _ => hgiven, fun _ => rfl, fun _ => ⟨rfl, rfl⟩, fun hs => ?_, fun _ => rfl,
        fun hc => ?_,
        fun hk => ?_⟩
      · cases ha
      · cases hs
      · cases hc
      · cases hk
    · rw [if_neg hid] at hy
      exact (hs.guarded.guarded id' y e' hy he').mono (hlock id')
  · intro id' lock hl
    have hcases : s.locks.lockByExecutionId.get id' = some lock ∨ (id' = opts.executionId ∧
        lock = wanted config.paths opts.cwd opts.executionId
          (repoWriteLockMode opts.writePaths) opts.writePaths) := by
      unfold State.registerStart State.startLock at hl
      split at hl
      · exact Locks.get_tryAcquire hl
      · exact Or.inl hl
    rcases hcases with hold | ⟨rfl, rfl⟩
    · obtain ⟨y, e', hy, he', heq⟩ := hs.guarded.wanted id' lock hold
      obtain ⟨y', hy', hf⟩ := hfollows id' y hy
      obtain ⟨e'', he'', hfe⟩ := hf.entry e' he'
      exact ⟨y', e'', hy', he'', heq.trans (wantedBy_follows hf hfe).symm⟩
    · exact ⟨_, _, (entryOf_eq_some.mp (entryOf_registerStart config s opts)).1, rfl, rfl⟩
  · intro id' y hy hnone
    unfold State.registerStart State.put at hy
    rw [OMap.get_set] at hy
    by_cases hid : opts.executionId = id'
    · rw [if_pos hid] at hy
      obtain rfl := Option.some.inj hy
      cases hnone
    · rw [if_neg hid] at hy
      exact hs.guarded.left id' y hy hnone

theorem shields_startLaunch {opts : StartOpts} (h : s.executions.get opts.executionId = none)
    (hlock : opts.requiresLock = true → (s.startLock config opts).1 = true) :
    Shields config s (s.startLaunch config opts).1 := by
  apply (shields_registerStart h).trans
  have hx := entryOf_registerStart config s opts
  obtain ⟨hget, he⟩ := entryOf_eq_some.mp hx
  intro hs
  have hguarded := hs.guarded.guarded _ _ _ hget he
  have hlaunch := guards_launch config s.disk opts.executionId hguarded he (Entry.Follows.refl _) rfl rfl
    (fun hr => hguarded.lock rfl (hlock hr)) false
  have hfollows := followsAll_set hget hlaunch.follows
  exact ⟨⟨OMap.nodup_keys_set hs.nodup _ _, hs.guarded.effect hget hlaunch,
    fun id' l hp => (hs.offered id' l hp).follows hfollows⟩, hfollows⟩

/-- The step ends no execution that needs its lock while its client is active: no cancellation and no shutdown reaches
one that reports no process while its client start is awaited or its session goes on, and no attempt bound one whose
session is not over. -/
def Careful (s : State) : Op → Prop
  | .cancel id | .shutdownNext (id :: _) =>
    ∀ x e, s.entryOf id = some (x, e) → e.terminalGeneration = 0 → e.terminalIntent = none → e.pid = none →
      e.repoWriteLock = true → e.active = false
  | .timeoutBound id =>
    ∀ x e, s.entryOf id = some (x, e) → e.terminalGeneration = 0 → e.repoWriteLock = true → e.active = false
  | _ => True

/-- Shielded executions; a settlement of a cancellation waits for a session that is over, and one of a row for an
execution that the registry does not hold. -/
structure Guarding (config : Config) (s : State) : Prop where
  shielded : Shielded config s
  races : ∀ id, Routine.cancelRace id ∈ s.routines → ∃ x e, s.entryOf id = some (x, e) ∧ e.isOver = true
  rows : ∀ id, Routine.cancelRow id ∈ s.routines → s.registered id = none ∧ (OMap.get s.executions id).isSome

theorem Shielded.entry (hs : Shielded config s) (hx : s.entryOf id = some (x, e)) :
    Guarded (s.locks.Held id) x.row e := by
  obtain ⟨hget, he⟩ := entryOf_eq_some.mp hx
  exact hs.guarded.guarded id x e hget he

theorem Guarded.idle_of_over {held : Prop} {row : Row} (h : Guarded held row e) (ho : e.isOver = true) :
    e.active = false := by
  rw [active_eq_false]
  refine ⟨?_, fun _ => ho⟩
  by_contra hs
  unfold Entry.isOver at ho
  rw [h.alone (Option.isSome_iff_ne_none.mpr hs)] at ho
  cases ho

variable {op : Op}

theorem shields_cause (hx : s.entryOf id = some (x, e)) {effect : Effect} (h : Cause config x e id op effect)
    (hc : Careful s op) (r : List Routine) : Shields config s ((s.withRoutines r).applyThen config id effect) := by
  apply shields_applyThen hx
  intro hs
  obtain ⟨-, he⟩ := entryOf_eq_some.mp hx
  have hguarded := hs.entry hx
  cases h with
  | started hstarting => exact guards_afterStart hguarded he hstarting _
  | drained ho => exact guards_handleChildClose config.redact hguarded he (by rw [ho]; rfl) _
  | cancelled hg hi hp =>
    have ht : Touch e { e with terminalIntent := some .cancel, cancelRequested := true } := touch_claims _ _ _
    exact guards_terminalizeIdle
      ⟨he, ht.follows, hguarded.touch ht, fun hr => ht.active (hc x e hx hg hi hp hr)⟩ rfl _ _ _
  | shutDown hg hi hp =>
    have ht : Touch e { e with terminalIntent := some .shutdown } := touch_claims _ _ _
    exact guards_terminalizeIdle
      ⟨he, ht.follows, hguarded.touch ht, fun hr => ht.active (hc x e hx hg hi hp hr)⟩ rfl _ _ _

theorem Guarding.bound (hs : Guarding config s) (hx : s.entryOf id = some (x, e)) (h : Bound s id op)
    (hc : Careful s op) (hg : ¬ e.terminalGeneration > 0) (hr : e.repoWriteLock = true) : e.active = false := by
  cases h with
  | cancelled hrace =>
    obtain ⟨x', e', hx', ho⟩ := hs.races id hrace
    rw [hx] at hx'
    obtain ⟨rfl, rfl⟩ := Prod.mk.inj (Option.some.inj hx')
    exact (hs.shielded.entry hx).idle_of_over ho
  | timeout _ => exact hc x e hx (by omega) hr

theorem guards_row (hs : Shielded config s) (hx : s.executions.get id = some x) (hreg : s.registered id = none)
    {won : Execution} (hwon : reconcile x .cancelled .cancel (js "cancelled") = some won) :
    Effect.Guards (s.locks.Held id) x { execution := won, release := true } := by
  unfold reconcile at hwon
  split at hwon
  · cases hwon
  obtain rfl := Option.some.inj hwon
  refine ⟨?_, rfl, fun e he => ⟨e, he, Entry.Follows.refl e⟩, fun h => h, fun _ => rfl⟩
  intro e he
  have hunreg : e.registered ≠ true := by
    intro hr
    rw [registered_eq_some.mpr ⟨entryOf_eq_some.mpr ⟨hx, he⟩, hr⟩] at hreg
    cases hreg
  have h := hs.guarded.guarded id x e hx he
  refine ⟨fun ha hr => absurd (h.active ha hr).1 hunreg, fun hr => absurd hr hunreg, fun hr => absurd hr hunreg, ?_,
    fun _ => Or.inr rfl, h.alone, h.closed, h.kill⟩
  intro hq
  cases hq

theorem Guarding.shields_step (hs : Guarding config s) (hc : Careful s op) (h : Step config s op s') :
    Shields config s s' := by
  cases h with
  | quiet h => exact shields_quiet h
  | touch r hx ht => exact shields_touch hx ht r
  | ended r hx hcause => exact shields_cause hx hcause hc r
  | bound r hx hbound ht =>
    apply shields_apply hx
    intro hshielded
    obtain ⟨-, he⟩ := entryOf_eq_some.mp hx
    exact guards_settleAtBound (hshielded.entry hx) he (fun hg hr => hs.bound hx hbound hc hg hr) ht _ _
  | promote r _ =>
    have hquiet : Quiet s (s.withRoutines r) := ⟨rfl, rfl, rfl, rfl⟩
    exact (shields_quiet hquiet).trans (shields_promoteQueued config _)
  | row r hx hends hwon =>
    rename_i id x won
    refine Shields.trans ?_ (shields_promoteQueued config _)
    intro hshielded
    have hreg : s.registered id = none := by
      cases hends with
      | cancel hreg => exact hreg
      | killed hmem => exact (hs.rows id hmem).1
    have hguards := guards_row hshielded hx hreg hwon
    have hfollows := followsAll_set hx hguards.follows
    exact ⟨⟨OMap.nodup_keys_set hshielded.nodup _ _, hshielded.guarded.effect hx hguards,
      fun id' l hp => (hshielded.offered id' l hp).follows hfollows⟩, hfollows⟩
  | resume hp => exact shields_promotion (promotion_resume hp)
  | shutdown r accepting => exact shields_shutdown r accepting
  | unattached h =>
    apply (shields_registerStart h.fresh).trans
    rename_i opts
    have hx := entryOf_registerStart config s opts
    have hguards : Shielded config (s.registerStart config opts) → Effect.Guards
        ((s.registerStart config opts).locks.Held opts.executionId) _
        (terminalizeQueued (opts.execution (s.runningCount < MAX_CONCURRENT_EXECUTIONS) (s.startLock config opts).1)
          (opts.entry (s.startLock config opts).1) .cancelled .cancel (js "cancelled")) :=
      fun hshielded => guards_terminalizeIdle ⟨rfl, Entry.Follows.refl _, hshielded.entry hx, fun _ => rfl⟩ rfl _ _ _
    exact shields_applyThen hx hguards (s.registerStart config opts).routines
  | launched h _ hlock =>
    split
    · exact (shields_startLaunch h.fresh hlock).trans (shields_promoteQueued config _)
    · exact shields_startLaunch h.fresh hlock
  | waits h _ => exact shields_registerStart h.fresh

/-! ### Runs -/

theorem unregistered_follows (hx : s.executions.get id = some x) (hreg : s.registered id = none)
    (hf : FollowsAll s.executions s'.executions) : s'.registered id = none := by
  obtain ⟨x', hx', hfollows⟩ := hf id x hx
  rw [Option.eq_none_iff_forall_ne_some]
  rintro ⟨y, e'⟩ hsome
  obtain ⟨hentry, hr⟩ := registered_eq_some.mp hsome
  obtain ⟨hy, hye⟩ := entryOf_eq_some.mp hentry
  rw [hx'] at hy
  obtain rfl := Option.some.inj hy
  cases he : x.entry with
  | none =>
    rw [hfollows.absent he] at hye
    cases hye
  | some e =>
    have hunreg : e.registered = false := by
      by_contra hr'
      rw [registered_eq_some.mpr ⟨entryOf_eq_some.mpr ⟨hx, he⟩, by simpa using hr'⟩] at hreg
      cases hreg
    obtain ⟨e'', he'', hfe⟩ := hfollows.entry e he
    rw [hye] at he''
    obtain rfl := Option.some.inj he''
    rw [hfe.registered hunreg] at hr
    cases hr

theorem over_follows (h : ∃ x e, s.entryOf id = some (x, e) ∧ e.isOver = true)
    (hf : FollowsAll s.executions s'.executions) : ∃ x e, s'.entryOf id = some (x, e) ∧ e.isOver = true := by
  obtain ⟨x, e, hx, ho⟩ := h
  obtain ⟨hget, he⟩ := entryOf_eq_some.mp hx
  obtain ⟨x', hx', hfollows⟩ := hf id x hget
  obtain ⟨e', he', hfe⟩ := hfollows.entry e he
  exact ⟨x', e', entryOf_eq_some.mpr ⟨hx', he'⟩, hfe.isOver ho⟩

/-- A careful step keeps the locks of the active clients. -/
theorem Guarding.perform (hs : Guarding config s) (hc : Careful s op) :
    Guarding config (s.perform config op) := by
  obtain ⟨hshielded, hfollows⟩ := hs.shields_step hc (step_perform config s op) hs.shielded
  refine ⟨hshielded, ?_, ?_⟩ <;> intro id hr
  · have hold : ∃ x e, s.entryOf id = some (x, e) ∧ e.isOver = true := by
      rcases mem_routines_perform config s op hr with hr | hadd
      · exact hs.races id hr
      · obtain ⟨⟨x, e⟩, hx, hk⟩ := Option.bind_eq_some_iff.mp (adds_cancelRace hadd)
        exact ⟨x, e, hx, (hs.shielded.entry hx).kill hk⟩
    exact over_follows hold hfollows
  · have hold : s.registered id = none ∧ (s.executions.get id).isSome := by
      rcases mem_routines_perform config s op hr with hr | hadd
      · exact hs.rows id hr
      · exact adds_cancelRow hadd
    obtain ⟨x, hx⟩ := Option.isSome_iff_exists.mp hold.2
    obtain ⟨x', hx', -⟩ := hfollows id x hx
    exact ⟨unregistered_follows hx hold.1 hfollows, by rw [hx']; rfl⟩

theorem guarding_boot (config : Config) (outcome : ExecutionId → KillOutcome)
    {records : OMap ExecutionId (Row × List EventType)} (hkeys : (records.keys).Nodup)
    (hboot : ∀ p ∈ (boot outcome records).executions, p.2.row.status.isTerminal = true) :
    Guarding config (boot outcome records) := by
  have hkeys' : OMap.keys (boot outcome records).executions = records.keys := OMap.keys_map records _
  constructor
  · refine ⟨hkeys' ▸ hkeys, ⟨Locks.sound_empty, ?_, ?_, ?_⟩, ?_⟩
    · intro id x e hx he
      obtain ⟨p, -, heq⟩ := List.mem_map.mp (OMap.mem_of_get hx)
      obtain ⟨-, rfl⟩ := Prod.mk.inj heq
      cases he
    · intro id lock hlock
      cases hlock
    · intro id x hx _
      exact hboot _ (OMap.mem_of_get hx)
    · intro id l hp
      cases hp
  · intro id hr
    cases hr
  · intro id hr
    cases hr

/-- The client of an execution is starting or its session is not over; that of an execution of an earlier lifetime is
taken to run until its row is terminal, as its recorded process was not verified absent. -/
def Execution.clientActive (x : Execution) : Bool :=
  match x.entry with
  | some e => e.active
  | none => !x.row.status.isTerminal

def Execution.needsLock (x : Execution) : Bool := x.entry.all Entry.repoWriteLock

structure Writes (s : State) (id : ExecutionId) (x : Execution) : Prop where
  execution : OMap.get s.executions id = some x
  needsLock : x.needsLock = true
  active : x.clientActive = true

/-- An active client that needs a lock has the one it asks for. -/
theorem Guarding.holds (hs : Guarding config s) (hw : Writes s id x) :
    ∃ e, x.entry = some e ∧ s.locks.lockByExecutionId.get id = some (wantedBy config.paths id x e) := by
  obtain ⟨hx, hneeds, hactive⟩ := hw
  unfold Execution.clientActive at hactive
  unfold Execution.needsLock at hneeds
  cases he : x.entry with
  | none =>
    rw [he] at hactive
    simp [hs.shielded.guarded.left id x hx he] at hactive
  | some e =>
    rw [he] at hactive hneeds
    refine ⟨e, rfl, ?_⟩
    obtain ⟨lock, hlock⟩ := Option.isSome_iff_exists.mp
      ((hs.shielded.guarded.guarded id x e hx he).active hactive (by simpa using hneeds)).2
    obtain ⟨y, e', hy, he', heq⟩ := hs.shielded.guarded.wanted id lock hlock
    rw [hx] at hy
    obtain rfl := Option.some.inj hy
    rw [he] at he'
    obtain rfl := Option.some.inj he'
    rw [hlock, heq]

def RepoWriteLock.Conflicts (paths : Paths) (lock lock' : RepoWriteLock) : Prop :=
  lock.repoPath = lock'.repoPath ∧ locksConflict paths lock.targetPaths lock'.targetPaths = true

/-- An execution whose client is active holds the lock it asks for, and two such executions do not conflict. -/
theorem write_protection (config : Config) (outcome : ExecutionId → KillOutcome)
    (records : OMap ExecutionId (Row × List EventType)) (ops : List Op) (hkeys : (OMap.keys records).Nodup)
    (hboot : ∀ p ∈ (boot outcome records).executions, p.2.row.status.isTerminal = true)
    (h : Through Careful config (boot outcome records) ops) :
    (∀ id x, Writes ((boot outcome records).run config ops) id x → ∃ e, x.entry = some e ∧
      OMap.get ((boot outcome records).run config ops).locks.lockByExecutionId id =
        some (wantedBy config.paths id x e)) ∧
    (∀ a b x y e f, a ≠ b → Writes ((boot outcome records).run config ops) a x →
      Writes ((boot outcome records).run config ops) b y → x.entry = some e → y.entry = some f →
      ¬ (wantedBy config.paths a x e).Conflicts config.paths (wantedBy config.paths b y f)) := by
  have hguarding : Guarding config ((boot outcome records).run config ops) :=
    Through.invariant (fun _ _ hs hc => hs.perform hc) (guarding_boot config outcome hkeys hboot) h
  have hheld : ∀ id x, Writes ((boot outcome records).run config ops) id x → ∃ e, x.entry = some e ∧
      OMap.get ((boot outcome records).run config ops).locks.lockByExecutionId id =
        some (wantedBy config.paths id x e) := fun id x hw => hguarding.holds hw
  refine ⟨hheld, ?_⟩
  rintro a b x y e f hne hx hy he hf ⟨hrepo, hconflict⟩
  obtain ⟨e', he', ha⟩ := hheld a x hx
  obtain ⟨f', hf', hb⟩ := hheld b y hy
  rw [he] at he'
  obtain rfl := Option.some.inj he'
  rw [hf] at hf'
  obtain rfl := Option.some.inj hf'
  rw [hguarding.shielded.guarded.sound.compatible a b _ _ hne ha hb hrepo] at hconflict
  cases hconflict

def lockedStart (id : ExecutionId) : StartOpts := { plainStart id with repoWriteLock := some true }

/-- Two executions of one repository are started, and one of another; the second is launched behind the end of the
first. -/
def threeStarts : List Op :=
  [.start (lockedStart 1), .started 1 (.session (some 7)), .start (lockedStart 2),
    .start { lockedStart 3 with cwd := js "/q" }, .streamEnd 1 none, .close 1, .drained 1]

theorem write_protection_two : Through Careful plainConfig (boot (fun _ => .absent) []) threeStarts ∧
    (∀ id x, Writes (runOf threeStarts) id x → ∃ e, x.entry = some e ∧
      OMap.get (runOf threeStarts).locks.lockByExecutionId id = some (wantedBy plainConfig.paths id x e)) ∧
    ∃ x y e f, Writes (runOf threeStarts) 2 x ∧ Writes (runOf threeStarts) 3 y ∧ x.entry = some e ∧
      y.entry = some f ∧
      ¬ (wantedBy plainConfig.paths 2 x e).Conflicts plainConfig.paths (wantedBy plainConfig.paths 3 y f) := by
  have h : Through Careful plainConfig (boot (fun _ => .absent) []) threeStarts := by
    simp [threeStarts, Through, Careful]
  obtain ⟨hholds, hdisjoint⟩ := write_protection plainConfig (fun _ => .absent) [] _ List.nodup_nil (by simp [boot]) h
  exact ⟨h, hholds, _, _, _, _, ⟨rfl, rfl, rfl⟩, ⟨rfl, rfl, rfl⟩, rfl, rfl,
    hdisjoint 2 3 _ _ _ _ (by decide) ⟨rfl, rfl, rfl⟩ ⟨rfl, rfl, rfl⟩ rfl rfl⟩

/-- A cancellation while the client start of an execution is awaited releases its lock, and another execution of the
repository is launched: both clients are active. -/
theorem cancelled_start : ∃ x y e f,
    Writes (runOf [.start (lockedStart 1), .cancel 1, .start (lockedStart 2)]) 1 x ∧
    Writes (runOf [.start (lockedStart 1), .cancel 1, .start (lockedStart 2)]) 2 y ∧ x.entry = some e ∧
    y.entry = some f ∧
    (wantedBy plainConfig.paths 1 x e).Conflicts plainConfig.paths (wantedBy plainConfig.paths 2 y f) := by
  refine ⟨_, _, _, _, ⟨rfl, rfl, rfl⟩, ⟨rfl, rfl, rfl⟩, rfl, rfl, rfl, rfl⟩

end Wrenyard.Supervisor
