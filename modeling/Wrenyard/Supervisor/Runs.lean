import Wrenyard.Supervisor.Routines
import Wrenyard.Supervisor.Sound

/-!
# Runs of the supervisor

Every step keeps the executions sound and changes no ended execution (`goes_perform`), as long as no cancellation and
no shutdown reaches a running session that has no process.  So over a run an execution ends once, with one stored
event and a promise that is resolved with its status.
-/

namespace Wrenyard.Supervisor

open Js Option

abbrev Executions := OMap ExecutionId Execution

def AllSound (m : Executions) : Prop := ∀ id x, OMap.get m id = some x → Sound x

def Evolves (m m' : Executions) : Prop := ∀ id x, OMap.get m id = some x → ∃ x', OMap.get m' id = some x' ∧ Moves x x'

def Goes (m m' : Executions) : Prop := AllSound m → AllSound m' ∧ Evolves m m'

variable {m m' m'' : Executions} {id : ExecutionId} {x x' : Execution} {e e₀ : Entry} {config : Config} {s s' : State}

theorem Goes.refl (m : Executions) : Goes m m := fun h => ⟨h, fun _ x hx => ⟨x, hx, Moves.refl x⟩⟩

theorem Goes.trans (h : Goes m m') (h' : Goes m' m'') : Goes m m'' := by
  intro hm
  obtain ⟨hs, he⟩ := h hm
  obtain ⟨hs', he'⟩ := h' hs
  refine ⟨hs', ?_⟩
  intro id x hx
  obtain ⟨x', hx', hmoves⟩ := he id x hx
  obtain ⟨x'', hx'', hmoves'⟩ := he' id x' hx'
  exact ⟨x'', hx'', hmoves.trans hmoves'⟩

theorem goes_set (hx : m.get id = some x) (h : Sound x → Sound x' ∧ Moves x x') : Goes m (m.set id x') := by
  intro hm
  obtain ⟨hsound, hmoves⟩ := h (hm id x hx)
  constructor <;> intro id' y hy
  · rw [OMap.get_set] at hy
    by_cases hid : id = id'
    · rw [if_pos hid] at hy
      obtain rfl := Option.some.inj hy
      exact hsound
    · rw [if_neg hid] at hy
      exact hm id' y hy
  · rw [OMap.get_set]
    by_cases hid : id = id'
    · subst hid
      rw [hx] at hy
      obtain rfl := Option.some.inj hy
      exact ⟨x', if_pos rfl, hmoves⟩
    · exact ⟨y, by rw [if_neg hid, hy], Moves.refl y⟩

theorem goes_new (hx : m.get id = none) (h : Sound x) : Goes m (m.set id x) := by
  intro hm
  constructor <;> intro id' y hy
  · rw [OMap.get_set] at hy
    by_cases hid : id = id'
    · rw [if_pos hid] at hy
      obtain rfl := Option.some.inj hy
      exact h
    · rw [if_neg hid] at hy
      exact hm id' y hy
  · have hid : id ≠ id' := by
      rintro rfl
      rw [hx] at hy
      cases hy
    exact ⟨y, by rw [OMap.get_set, if_neg hid, hy], Moves.refl y⟩

theorem goes_map {f : Execution → Execution} (h : ∀ x, Sound x → Sound (f x) ∧ Moves x (f x)) :
    Goes m (m.map fun p => (p.1, f p.2)) := by
  intro hm
  have hget : ∀ id, OMap.get (m.map fun p => (p.1, f p.2)) id = (m.get id).map f :=
    fun id => OMap.get_map m (fun p => f p.2) id
  constructor
  · intro id y hy
    rw [hget, map_eq_some_iff] at hy
    obtain ⟨x, hx, rfl⟩ := hy
    exact (h x (hm id x hx)).1
  · intro id x hx
    exact ⟨f x, by rw [hget, hx]; rfl, (h x (hm id x hx)).2⟩

theorem goes_apply (hx : s.entryOf id = some (x, e)) {effect : Effect} (h : Sound x → effect.Sound x) :
    Goes s.executions (s.apply id effect).executions := by
  exact goes_set (entryOf_eq_some.mp hx).1 h

theorem goes_putEntry (hx : s.entryOf id = some (x, e₀))
    (h : Sound x → Given x e₀ e₀ → Given x e₀ e ∧ Unclaimed x.row e) :
    Goes s.executions (s.putEntry id x e).executions := by
  apply goes_set (entryOf_eq_some.mp hx).1
  intro hs
  obtain ⟨hgiven, hu⟩ := h hs (hs.given (entryOf_eq_some.mp hx).2)
  exact hgiven.keep hu

theorem Given.congr (h : Given x e₀ e) {e' : Entry}
    (hg : e'.terminalGeneration = e.terminalGeneration := by rfl) (hr : e'.registered = e.registered := by rfl)
    (hw : e'.wait = e.wait := by rfl) (hs : e'.session = e.session := by rfl)
    (hst : e'.starting = e.starting := by rfl) (ht : e'.timer = true → e.timer = true := by exact fun h => h)
    (ho : e'.observer = e.observer := by rfl) : Given x e₀ e' := by
  have hf := h.fits
  refine ⟨h.entry, hw.trans h.wait, ⟨?_, ?_, ?_, ?_, ?_, ?_, ?_, ?_⟩, h.ends⟩
  · rw [hg, hw]; exact hf.generation
  · rw [hr, hw]; exact hf.registered
  · rw [hw]; exact hf.settled
  · rw [hw, hs]; exact hf.idle
  · rw [hw, hs]; exact hf.running
  · rw [hst, hs]; exact hf.alone
  · rw [hs]; exact fun h => hf.timer (ht h)
  · rw [ho, hs]; exact hf.observed

theorem session_of_queued (h : EntrySound x.row e) (hw : e.wait = none) (hq : x.row.status = .queued) :
    e.session = none := by
  by_contra hs
  have hrow := h.running hw (isSome_iff_ne_none.mpr hs)
  rw [hq] at hrow
  cases hrow

theorem acquire_entry (config : Config) (s : State) (candidate : Candidate) (e : Entry) :
    ∃ has, (s.acquire config candidate e).2.2 = { e with hasRepoLock := has } := by
  unfold State.acquire
  split
  · exact ⟨_, rfl⟩
  · exact ⟨e.hasRepoLock, rfl⟩

theorem goes_promoteOne (config : Config) (s : State) (candidate : Candidate) :
    Goes s.executions (s.promoteOne config candidate).1.executions := by
  unfold State.promoteOne
  cases hfilter : (s.registered candidate.id).filter fun p => p.2.terminalGeneration = 0 with
  | none => exact Goes.refl _
  | some p =>
    obtain ⟨x, e⟩ := p
    rw [filter_eq_some_iff] at hfilter
    obtain ⟨hreg, hg⟩ := hfilter
    obtain ⟨hentry, -⟩ := registered_eq_some.mp hreg
    obtain ⟨has, he'⟩ := acquire_entry config s candidate e
    dsimp only
    cases hgo : (s.acquire config candidate e).1 with
    | false => exact Goes.refl _
    | true =>
      rw [he']
      by_cases hq : x.row.status = .queued
      · simp only [Bool.not_true, Bool.false_eq_true, if_false, if_pos hq]
        apply goes_set (entryOf_eq_some.mp hentry).1
        intro hs
        have hgiven : Given x e e := hs.given (entryOf_eq_some.mp hentry).2
        have hw : e.wait = none := hgiven.fits.generation.mp (by simpa using hg)
        have hgiven' : Given x e { e with hasRepoLock := has } := hgiven.congr
        have hsession : e.session = none := session_of_queued hgiven.fits hw hq
        exact sound_launch config _ _ hgiven' (hs.entry e (entryOf_eq_some.mp hentry).2).2 hsession true
      · simp only [Bool.not_true, Bool.false_eq_true, if_false, if_neg hq]
        exact Goes.refl _

theorem goes_promoteScan (config : Config) (candidates : List Candidate) (s : State) :
    Goes s.executions (State.promoteScan config candidates s).executions := by
  induction candidates generalizing s with
  | nil => exact Goes.refl _
  | cons candidate rest ih =>
    unfold State.promoteScan
    split
    · exact Goes.refl _
    have hone := goes_promoteOne config s candidate
    rcases hresult : s.promoteOne config candidate with ⟨s', launched⟩
    rw [hresult] at hone
    cases launched with
    | true => exact hone
    | false => exact hone.trans (ih s')

theorem goes_promoteRound (config : Config) (s : State) : Goes s.executions (s.promoteRound config).executions := by
  unfold State.promoteRound
  split
  · exact goes_promoteScan config s.candidates s
  · exact Goes.refl _

theorem goes_promoteQueued (config : Config) (s : State) : Goes s.executions (s.promoteQueued config).executions := by
  unfold State.promoteQueued
  split
  · exact Goes.refl _
  · exact goes_promoteRound config s

theorem goes_resumePromotion (config : Config) (s : State) (rest : List Candidate) :
    Goes s.executions (s.resumePromotion config rest).executions := by
  unfold State.resumePromotion
  have hscan := goes_promoteScan config rest s
  by_cases h : (State.promoteScan config rest s).promotion.isSome = true
  · simp only [h, if_true]
    exact hscan
  · simp only [h]
    exact hscan.trans (goes_promoteRound config _)

theorem goes_applyThen (hx : s.entryOf id = some (x, e)) {effect : Effect} (h : Sound x → effect.Sound x) :
    Goes s.executions (s.applyThen config id effect).executions := by
  unfold State.applyThen
  have happly := goes_apply hx h
  split
  · exact happly.trans (goes_promoteQueued config _)
  · exact happly

/-! ### Steps -/

/-- A running session that reports no process, and of which no end was claimed. -/
def Uncontrolled (e : Entry) : Prop :=
  e.terminalGeneration = 0 ∧ e.terminalIntent = none ∧ e.session.isSome ∧ e.pid = none

/-- No cancellation and no shutdown reaches a running session that reports no process. -/
def Controlled (s : State) : Op → Prop
  | .cancel id => ∀ x e, s.registered id = some (x, e) → ¬ Uncontrolled e
  | .shutdownNext (id :: _) => ∀ x e, s.entryOf id = some (x, e) → ¬ Uncontrolled e
  | _ => True

theorem claim_cases (e : Entry) (intent : TerminalIntent) :
    (e.claimTerminalIntent intent = (true, { e with terminalIntent := some intent }) ∧
      e.terminalGeneration = 0 ∧ e.terminalIntent = none) ∨
    (e.claimTerminalIntent intent = (false, e) ∧ (e.terminalGeneration > 0 ∨ e.terminalIntent.isSome)) := by
  unfold Entry.claimTerminalIntent
  split
  · rename_i h
    exact Or.inr ⟨rfl, h⟩
  · rename_i h
    simp only [not_or, Nat.not_lt, Nat.le_zero, not_isSome_iff_eq_none] at h
    exact Or.inl ⟨rfl, h⟩

theorem Sound.not_idle (hs : Sound x) (he : x.entry = some e)
    (h : e.terminalGeneration > 0 ∨ e.terminalIntent.isSome = true) : e.wait ≠ none ∨ e.session ≠ none := by
  obtain ⟨hf, hu⟩ := hs.entry e he
  by_contra hno
  simp only [not_or, not_not] at hno
  obtain ⟨hw, hsession⟩ := hno
  rcases h with hg | hi
  · have := hf.generation.mpr hw
    omega
  · rw [(hu hw hsession).1] at hi
    cases hi

theorem session_of_pid (h : ¬ e.pid.isNone = true) : e.session ≠ none := by
  intro hs
  unfold Entry.pid at h
  simp [hs] at h

theorem goes_reconcileRow (hreg : s.registered id = none) : Goes s.executions (s.reconcileRow id).executions := by
  unfold State.reconcileRow
  cases hx : s.executions.get id with
  | none => exact Goes.refl _
  | some x =>
    dsimp only
    unfold reconcile
    by_cases ht : x.row.status.isTerminal = true
    · rw [if_pos ht]
      exact Goes.refl _
    rw [if_neg ht]
    apply goes_set hx
    intro hs
    -- an entry outside the registry has ended, and then its row is terminal
    have habsent : x.entry = none := by
      cases he : x.entry with
      | none => rfl
      | some e =>
        have hf := (hs.entry e he).1
        have hunreg : e.registered = false := by
          by_contra hr
          have : s.registered id = some (x, e) :=
            registered_eq_some.mpr ⟨entryOf_eq_some.mpr ⟨hx, he⟩, by simpa using hr⟩
          rw [hreg] at this
          cases this
        rw [hf.registered, isNone_eq_false_iff, isSome_iff_exists] at hunreg
        obtain ⟨w, hw⟩ := hunreg
        exact absurd (hf.settled w hw).1 ht
    refine ⟨⟨?_, ?_⟩, ?_, ?_, ?_, ?_⟩
    any_goals
      intro e he
      rw [habsent] at he
      cases he
    · intro h
      exact absurd h ht
    · rw [ends_append, ends_endEvent]
      rw [endsOf, if_neg ht]
      rfl
    · exact fun h => h

theorem goes_cancelRow (config : Config) (hreg : s.registered id = none) :
    Goes s.executions (s.cancelQueuedExecutionWithoutRegistry config id).executions := by
  unfold State.cancelQueuedExecutionWithoutRegistry
  cases hx : s.executions.get id with
  | none => exact Goes.refl _
  | some x =>
    dsimp only
    split
    · exact Goes.refl _
    · split
      · exact Goes.refl _
      · exact (goes_reconcileRow hreg).trans (goes_promoteQueued config _)

theorem goes_cancelExecution (config : Config) (hc : Controlled s (.cancel id)) :
    Goes s.executions (s.cancelExecution config id).executions := by
  unfold State.cancelExecution
  rcases hreg : s.registered id with _ | ⟨x, e⟩
  · exact goes_cancelRow config hreg
  obtain ⟨hentry, -⟩ := registered_eq_some.mp hreg
  have he := (entryOf_eq_some.mp hentry).2
  have hun := hc x e hreg
  dsimp only
  rcases claim_cases e .cancel with ⟨heq, hg, hi⟩ | ⟨heq, hno⟩
  · rw [heq]
    have hpid : Entry.pid { e with terminalIntent := some .cancel, cancelRequested := true } = e.pid := rfl
    rw [hpid]
    split
    · rename_i hp
      apply goes_applyThen hentry
      intro hs
      have hgiven : Given x e { e with terminalIntent := some .cancel, cancelRequested := true } :=
        (hs.given he).congr
      apply sound_terminalizeIdle hgiven ?_ rfl
      intro _
      by_contra hsession
      exact hun ⟨hg, hi, isSome_iff_ne_none.mpr hsession, by simpa using hp⟩
    · rename_i hp
      apply goes_putEntry hentry
      intro hs hgiven
      exact ⟨hgiven.congr, fun _ h => absurd h (session_of_pid hp)⟩
  · rw [heq]
    split
    · apply goes_putEntry hentry
      intro hs hgiven
      refine ⟨hgiven.congr, ?_⟩
      rcases hs.not_idle he hno with hw | hsession
      · exact unclaimed_of_wait hw
      · exact fun _ h => absurd h hsession
    · rename_i hp
      apply goes_putEntry hentry
      intro hs hgiven
      exact ⟨hgiven.congr, fun _ h => absurd h (session_of_pid hp)⟩

theorem goes_attemptDeadline (hx : s.entryOf id = some (x, e)) (ht : e.timer = true) :
    Goes s.executions (s.attemptDeadline id x e).executions := by
  unfold State.attemptDeadline
  dsimp only
  split
  · apply goes_putEntry hx
    intro hs hgiven
    refine ⟨hgiven.congr rfl rfl rfl rfl rfl (fun h => by cases h) rfl, ?_⟩
    exact fun hw _ => absurd hw (hgiven.fits.generation.not.mp (by omega))
  apply goes_putEntry hx
  intro hs hgiven
  refine ⟨hgiven.congr rfl rfl rfl rfl rfl (fun h => by cases h) rfl, ?_⟩
  exact fun _ h => absurd h (isSome_iff_ne_none.mp (hgiven.fits.timer ht))

theorem goes_shutdown (s : State) : Goes s.executions s.shutdown.executions := by
  have hmap : Goes s.executions (s.executions.map fun p => (p.1, p.2.shutDown)) := by
    apply goes_map
    intro x hs
    unfold Execution.shutDown
    cases he : x.entry with
    | none => exact ⟨hs, Moves.refl x⟩
    | some e =>
      dsimp only
      split
      · rename_i hp
        have hsession : e.session ≠ none := by
          intro h
          have hpid := hp.2
          unfold Entry.pid at hpid
          simp [h] at hpid
        rcases claim_cases e .shutdown with ⟨heq, -, -⟩ | ⟨heq, -⟩ <;> rw [heq]
        · have hgiven : Given x e (Entry.requestKillOnce { e with terminalIntent := some .shutdown }) :=
            (hs.given he).congr
          exact hgiven.keep fun _ h => absurd h hsession
        · have hgiven : Given x e e.requestKillOnce := (hs.given he).congr
          exact hgiven.keep fun _ h => absurd h hsession
      · exact ⟨hs, Moves.refl x⟩
  unfold State.shutdown
  dsimp only
  split
  · exact hmap
  · exact hmap

theorem goes_shutdownEntry (config : Config) (rest : List ExecutionId)
    (hc : ∀ x e, s.entryOf id = some (x, e) → ¬ Uncontrolled e) :
    Goes s.executions (s.shutdownEntry config id rest).executions := by
  unfold State.shutdownEntry
  rcases hx : s.entryOf id with _ | ⟨x, e⟩
  · exact Goes.refl _
  have he := (entryOf_eq_some.mp hx).2
  have hun := hc x e hx
  dsimp only
  rcases claim_cases e .shutdown with ⟨heq, hg, hi⟩ | ⟨heq, hno⟩
  · rw [heq]
    have hpid : Entry.pid { e with terminalIntent := some .shutdown } = e.pid := rfl
    rw [hpid]
    split
    · rename_i hp
      have hx' : (s.enter (.shutdownLoop rest)).entryOf id = some (x, e) := hx
      apply goes_applyThen hx'
      intro hs
      have hgiven : Given x e { e with terminalIntent := some .shutdown } :=
        (hs.given he).congr
      apply sound_terminalizeIdle hgiven ?_ rfl
      intro _
      by_contra hsession
      exact hun ⟨hg, hi, isSome_iff_ne_none.mpr hsession, by simpa using hp⟩
    · rename_i hp
      apply goes_putEntry hx
      intro hs hgiven
      exact ⟨hgiven.congr, fun _ h => absurd h (session_of_pid hp)⟩
  · rw [heq]
    split
    · exact Goes.refl _
    rename_i hp
    apply goes_putEntry hx
    intro hs hgiven
    exact ⟨hgiven.congr, fun _ h => absurd h (session_of_pid hp)⟩

theorem goes_launch (fromQueue : Bool) (hx : s.entryOf id = some (x, e))
    (h : Sound x → (launch config s.disk id x e fromQueue).1.Sound x) :
    Goes s.executions (s.launch config id x e fromQueue).1.executions :=
  goes_set (entryOf_eq_some.mp hx).1 h

theorem sound_execution (opts : StartOpts) (canRunNow hasRepoLock : Bool) :
    Sound (opts.execution canRunNow hasRepoLock) := by
  constructor
  · intro e he
    obtain rfl := Option.some.inj he
    refine ⟨⟨?_, ?_, ?_, ?_, ?_, ?_, ?_, ?_⟩, ?_⟩ <;> simp [StartOpts.execution, StartOpts.entry, Unclaimed]
  · intro _ _
    unfold StartOpts.execution
    split <;> rfl

theorem entryOf_registerStart (config : Config) (s : State) (opts : StartOpts) :
    (s.registerStart config opts).entryOf opts.executionId =
      some (opts.execution (s.runningCount < MAX_CONCURRENT_EXECUTIONS) (s.startLock config opts).1,
        opts.entry (s.startLock config opts).1) := by
  rw [entryOf_eq_some]
  refine ⟨?_, rfl⟩
  unfold State.registerStart State.put
  rw [OMap.get_set, if_pos rfl]

theorem goes_startExecution (config : Config) (opts : StartOpts) :
    Goes s.executions (s.startExecution config opts).executions := by
  unfold State.startExecution
  by_cases hno : (!s.acceptingNew) = true ∨ s.disk.isSome = true ∨ s.executions.has opts.executionId = true
  · rw [if_pos hno]
    exact Goes.refl _
  rw [if_neg hno]
  simp only [not_or, OMap.has, not_isSome_iff_eq_none] at hno
  have hpass : Goes s.executions (s.registerStart config opts).executions :=
      goes_new hno.2.2 (sound_execution opts _ _)
  have hx := entryOf_registerStart config s opts
  dsimp only
  split
  · apply hpass.trans (goes_applyThen hx ?_)
    intro hs
    exact sound_terminalizeIdle (hs.given rfl) (fun _ => rfl) rfl _ _ _
  have hlaunch : Goes (s.registerStart config opts).executions
      ((s.registerStart config opts).launch config opts.executionId
        (opts.execution (s.runningCount < MAX_CONCURRENT_EXECUTIONS) (s.startLock config opts).1)
        (opts.entry (s.startLock config opts).1) false).1.executions := by
    apply goes_launch false hx
    intro hs
    exact sound_launch config _ _ (hs.given rfl) (hs.entry _ rfl).2 rfl false
  split
  · split
    · exact hpass.trans (hlaunch.trans (goes_promoteQueued config _))
    · exact hpass.trans hlaunch
  · exact hpass

theorem goes_perform (config : Config) (s : State) (op : Op) (hc : Controlled s op)
    (hrows : ∀ id, Routine.cancelRow id ∈ s.routines → s.registered id = none) :
    Goes s.executions (s.perform config op).executions := by
  unfold State.perform
  cases op <;> dsimp only
  case start opts => exact goes_startExecution config opts
  case started id outcome =>
    rcases hx : s.entryOf id with _ | ⟨x, e⟩
    · exact Goes.refl _
    dsimp only
    cases hstarting : e.starting with
    | none => exact Goes.refl _
    | some fromQueue =>
      exact goes_applyThen hx fun hs => sound_afterStart hs (entryOf_eq_some.mp hx).2 hstarting outcome
  case resumePromotion =>
    cases s.promotion with
    | none => exact Goes.refl _
    | some p =>
      dsimp only
      split
      · exact Goes.refl _
      · exact goes_resumePromotion config s p.2
  case promoteQueuedAfterGuardChange => exact goes_promoteQueued config s
  case setDisk | waited => exact Goes.refl _
  case streamEnd id finished =>
    rcases hx : s.entryOf id with _ | ⟨x, e⟩
    · exact Goes.refl _
    dsimp only
    split
    · rename_i session _ hsession
      apply goes_putEntry hx
      intro hs hgiven
      have hf := hgiven.fits
      have hsome : e.session.isSome = true := by rw [hsession]; rfl
      refine ⟨⟨hgiven.entry, rfl, ?_, hgiven.ends⟩, fun _ h => by cases h⟩
      exact ⟨hf.generation, hf.registered, hf.settled, (fun _ h => by cases h), fun hw _ => hf.running hw hsome,
        fun h => absurd hsome (by simp [hf.alone h]), fun _ => rfl, fun _ => rfl⟩
    · exact Goes.refl _
  case close id =>
    rcases hx : s.entryOf id with _ | ⟨x, e⟩
    · exact Goes.refl _
    dsimp only
    split
    · rename_i ho
      apply goes_putEntry hx
      intro hs hgiven
      have hf := hgiven.fits
      refine ⟨⟨hgiven.entry, rfl, ?_, hgiven.ends⟩, (hs.entry e (entryOf_eq_some.mp hx).2).2⟩
      exact ⟨hf.generation, hf.registered, hf.settled, hf.idle, hf.running, hf.alone, hf.timer,
        fun _ => hf.observed (by rw [ho]; simp)⟩
    · exact Goes.refl _
  case drained id =>
    rcases hx : s.entryOf id with _ | ⟨x, e⟩
    · exact Goes.refl _
    dsimp only
    split
    · rename_i intent ho
      apply goes_applyThen hx
      intro hs
      have hgiven := hs.given (entryOf_eq_some.mp hx).2
      exact sound_handleChildClose config.redact hgiven (hgiven.fits.observed (by rw [ho]; simp)) intent
    · exact Goes.refl _
  case cancel id => exact goes_cancelExecution config hc
  case killSettled id resolved =>
    rcases hx : s.entryOf id with _ | ⟨x, e⟩
    · exact Goes.refl _
    dsimp only
    split
    · rename_i session _ hsession
      have hsome : e.session.isSome = true := by rw [hsession]; rfl
      split
      · apply goes_putEntry hx
        intro hs hgiven
        have hf := hgiven.fits
        refine ⟨⟨hgiven.entry, rfl, ?_, hgiven.ends⟩, fun _ h => by cases h⟩
        exact ⟨hf.generation, hf.registered, hf.settled, (fun _ h => by cases h), fun hw _ => hf.running hw hsome,
          fun h => absurd hsome (by simp [hf.alone h]), fun _ => rfl, fun _ => rfl⟩
      · apply goes_putEntry hx
        intro hs hgiven
        exact ⟨hgiven.congr,
          (hs.entry e (entryOf_eq_some.mp hx).2).2⟩
    · exact Goes.refl _
  case cancelKilled id =>
    split
    · split <;> exact Goes.refl _
    · exact Goes.refl _
    · exact Goes.refl _
  case cancelBound id live =>
    split
    · have hentry : (s.leave (.cancelRace id)).entryOf id = s.entryOf id := rfl
      rw [hentry]
      rcases hx : s.entryOf id with _ | ⟨x, e⟩
      · exact Goes.refl _
      dsimp only
      split
      · exact Goes.refl _
      · apply goes_apply (hentry.trans hx)
        exact fun hs => sound_settleAtBound (hs.given (entryOf_eq_some.mp hx).2) rfl _ _
    · exact Goes.refl _
  case cancelRowKilled id killed live =>
    split
    · rename_i hr
      have hreg : (s.leave (.cancelRow id)).registered id = none := hrows id hr
      split
      · have hrow : Goes s.executions ((s.leave (.cancelRow id)).reconcileRow id).executions := goes_reconcileRow hreg
        exact hrow.trans (goes_promoteQueued config _)
      · exact Goes.refl _
    · exact Goes.refl _
  case timeout id =>
    rcases hx : s.entryOf id with _ | ⟨x, e⟩
    · exact Goes.refl _
    dsimp only
    split
    · rename_i ht
      exact goes_attemptDeadline hx ht
    · exact Goes.refl _
  case timeoutBound id =>
    split
    · have hentry : (s.leave (.timeoutRace id)).entryOf id = s.entryOf id := rfl
      rw [hentry]
      rcases hx : s.entryOf id with _ | ⟨x, e⟩
      · exact Goes.refl _
      apply goes_apply (hentry.trans hx)
      exact fun hs => sound_settleAtBound (hs.given (entryOf_eq_some.mp hx).2) rfl _ _
    · exact Goes.refl _
  case shutdown => exact goes_shutdown s
  case shutdownGraceOver =>
    split <;> exact Goes.refl _
  case shutdownNext rest =>
    split
    · cases rest with
      | nil => exact Goes.refl _
      | cons id rest =>
        have hgoes := goes_shutdownEntry (s := s.leave (.shutdownLoop (id :: rest))) config rest hc
        exact hgoes
    · exact Goes.refl _
  case shutdownKilled id rest =>
    split
    · split <;> exact Goes.refl _
    · exact Goes.refl _

structure Consistent (s : State) : Prop where
  sound : AllSound s.executions
  rows : ∀ id, Routine.cancelRow id ∈ s.routines → s.registered id = none ∧ (OMap.get s.executions id).isSome

theorem registered_none (hs : AllSound s.executions) (hs' : AllSound s'.executions)
    (h : Evolves s.executions s'.executions) (hx : (s.executions.get id).isSome) (hreg : s.registered id = none) :
    s'.registered id = none ∧ (s'.executions.get id).isSome := by
  obtain ⟨x, hx⟩ := isSome_iff_exists.mp hx
  obtain ⟨x', hx', hmoves⟩ := h id x hx
  refine ⟨?_, by rw [hx']; rfl⟩
  cases he : x.entry with
  | none =>
    rcases hsome : s'.registered id with _ | ⟨y, e⟩
    · rfl
    obtain ⟨hy, hye⟩ := entryOf_eq_some.mp (registered_eq_some.mp hsome).1
    rw [hx'] at hy
    obtain rfl := Option.some.inj hy
    rw [hmoves.absent he] at hye
    cases hye
  | some e =>
    have hwait : ∃ w, e.wait = some w := by
      have hf := ((hs id x hx).entry e he).1
      have hunreg : e.registered = false := by
        by_contra hr
        have : s.registered id = some (x, e) :=
          registered_eq_some.mpr ⟨entryOf_eq_some.mpr ⟨hx, he⟩, by simpa using hr⟩
        rw [hreg] at this
        cases this
      rwa [hf.registered, isNone_eq_false_iff, isSome_iff_exists] at hunreg
    obtain ⟨w, hw⟩ := hwait
    obtain ⟨e', he', hkept⟩ := hmoves.entry e he
    rcases hsome : s'.registered id with _ | ⟨y, e''⟩
    · rfl
    obtain ⟨hentry, hr⟩ := registered_eq_some.mp hsome
    obtain ⟨hy, hye⟩ := entryOf_eq_some.mp hentry
    rw [hx'] at hy
    obtain rfl := Option.some.inj hy
    rw [he'] at hye
    obtain rfl := Option.some.inj hye
    have hf := ((hs' id x' hx').entry e' he').1
    rw [hf.registered, hkept w hw] at hr
    cases hr

theorem Consistent.goes (h : Consistent s) {op : Op} (hc : Controlled s op) :
    Goes s.executions (s.perform config op).executions :=
  goes_perform config s op hc fun id hr => (h.rows id hr).1

/-- A controlled step keeps the executions consistent. -/
theorem Consistent.perform (h : Consistent s) {op : Op} (hc : Controlled s op) :
    Consistent (s.perform config op) := by
  obtain ⟨hsound, hevolves⟩ := h.goes hc h.sound
  refine ⟨hsound, ?_⟩
  intro id hr
  have hold : s.registered id = none ∧ (s.executions.get id).isSome := by
    rcases mem_routines_perform config s op hr with hr | hadd
    · exact h.rows id hr
    · exact adds_cancelRow hadd
  exact registered_none h.sound hsound hevolves hold.2 hold.1

/-- Every step of a run meets a condition on it and the state before it. -/
def Through (P : State → Op → Prop) (config : Config) : State → List Op → Prop
  | _, [] => True
  | s, op :: ops => P s op ∧ Through P config (s.perform config op) ops

theorem Through.invariant {P : State → Op → Prop} {I : State → Prop}
    (hstep : ∀ s op, I s → P s op → I (s.perform config op)) {ops : List Op} (hs : I s) (h : Through P config s ops) :
    I (s.run config ops) := by
  induction ops generalizing s with
  | nil => exact hs
  | cons op ops ih => exact ih (hstep s op hs h.1) h.2

theorem consistent_boot (outcome : ExecutionId → KillOutcome) (records : OMap ExecutionId (Row × List EventType)) :
    Consistent (boot outcome records) := by
  constructor
  · intro id x hx
    have habsent : x.entry = none := by
      have hmem := OMap.mem_of_get hx
      obtain ⟨p, -, heq⟩ := List.mem_map.mp hmem
      rw [← (Prod.mk.inj heq).2]
    constructor
    all_goals
      intro e he
      rw [habsent] at he
      cases he
  · intro id hr
    cases hr

end Wrenyard.Supervisor
