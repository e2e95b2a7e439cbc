import Wrenyard.Supervisor.Routines

/-!
# What a step does

A step of the supervisor leaves executions, locks and launches alone, changes one entry without ending its execution,
ends an execution, launches one, or lets a promotion do so (`step_perform`).  A promotion launches at most one
execution before it awaits its start, and one that launches none found every candidate refused
(`promoteQueued_cases`).
-/

namespace Wrenyard.Supervisor

open Js Option

def Observer.closed : Observer → Bool
  | .unattached | .streaming => false
  | .closing | .draining _ | .returned => true

def Entry.isOver (e : Entry) : Bool := e.session.any Session.isOver

structure Touch (e e' : Entry) : Prop where
  repoWriteLock : e'.repoWriteLock = e.repoWriteLock
  writePaths : e'.writePaths = e.writePaths
  hasRepoLock : e'.hasRepoLock = e.hasRepoLock
  starting : e'.starting = e.starting
  terminalGeneration : e'.terminalGeneration = e.terminalGeneration
  registered : e'.registered = e.registered
  wait : e'.wait = e.wait
  session : e'.session.isSome = e.session.isSome
  isOver : e.isOver = true → e'.isOver = true
  closed : e'.observer.closed = true → e.observer.closed = true ∨ e'.isOver = true
  kill : e'.kill = some .resolved → e.kill = some .resolved ∨ e'.isOver = true

def State.withRoutines (s : State) (r : List Routine) : State := { s with routines := r }

/-- Nothing but routines and switches changes. -/
structure Quiet (s s' : State) : Prop where
  executions : s'.executions = s.executions
  locks : s'.locks = s.locks
  launches : s'.launches = s.launches
  promotion : s'.promotion = s.promotion

inductive Cause (config : Config) (x : Execution) (e : Entry) (id : ExecutionId) : Op → Effect → Prop
  | started {fromQueue : Bool} {outcome : StartOutcome} (h : e.starting = some fromQueue) :
    Cause config x e id (.started id outcome) (afterStart x e fromQueue outcome)
  | drained {intent : Option TerminalIntent} (h : e.observer = .draining intent) :
    Cause config x e id (.drained id) (handleChildClose config.redact x e intent)
  | cancelled (hg : e.terminalGeneration = 0) (hi : e.terminalIntent = none) (hp : e.pid = none) :
    Cause config x e id (.cancel id)
      (terminalizeQueued x { e with terminalIntent := some .cancel, cancelRequested := true } .cancelled .cancel
        (js "cancelled"))
  | shutDown {rest : List ExecutionId} (hg : e.terminalGeneration = 0) (hi : e.terminalIntent = none)
      (hp : e.pid = none) :
    Cause config x e id (.shutdownNext (id :: rest))
      (terminalizeQueued x { e with terminalIntent := some .shutdown } .interrupted .shutdown (js "shutdown"))

inductive Bound (s : State) (id : ExecutionId) : Op → Prop
  | cancelled (h : Routine.cancelRace id ∈ s.routines) : Bound s id (.cancelBound id false)
  | timeout (h : Routine.timeoutRace id ∈ s.routines) : Bound s id (.timeoutBound id)

inductive Promotes (s : State) : Op → Prop
  | guardChange : Promotes s .promoteQueuedAfterGuardChange
  | row {id : ExecutionId} {killed live : Bool} : Promotes s (.cancelRowKilled id killed live)

inductive EndsRow (s : State) (id : ExecutionId) : Op → Prop
  | cancel (h : s.registered id = none) : EndsRow s id (.cancel id)
  | killed {killed live : Bool} (h : Routine.cancelRow id ∈ s.routines) :
    EndsRow s id (.cancelRowKilled id killed live)

structure Accepts (s : State) (opts : StartOpts) : Prop where
  disk : s.disk = none
  fresh : OMap.get s.executions opts.executionId = none

def State.startLaunch (config : Config) (s : State) (opts : StartOpts) : State × Bool :=
  (s.registerStart config opts).launch config opts.executionId
    (opts.execution (s.runningCount < MAX_CONCURRENT_EXECUTIONS) (s.startLock config opts).1)
    (opts.entry (s.startLock config opts).1) false

inductive Step (config : Config) (s : State) : Op → State → Prop
  | quiet {op : Op} {s' : State} (h : Quiet s s') : Step config s op s'
  | touch {op : Op} {id : ExecutionId} {x : Execution} {e e' : Entry} (r : List Routine)
      (hx : s.entryOf id = some (x, e)) (h : Touch e e') : Step config s op ((s.withRoutines r).putEntry id x e')
  | ended {op : Op} {id : ExecutionId} {x : Execution} {e : Entry} {effect : Effect} (r : List Routine)
      (hx : s.entryOf id = some (x, e)) (h : Cause config x e id op effect) :
    Step config s op ((s.withRoutines r).applyThen config id effect)
  | bound {op : Op} {id : ExecutionId} {x : Execution} {e : Entry} {status : Status} {killReason : KillReason}
      {error : JsString} (r : List Routine) (hx : s.entryOf id = some (x, e)) (h : Bound s id op)
      (ht : status.isTerminal = true) :
    Step config s op ((s.withRoutines r).apply id (settleAtBound x e status killReason error))
  | promote {op : Op} (r : List Routine) (h : Promotes s op) :
    Step config s op ((s.withRoutines r).promoteQueued config)
  | row {op : Op} {id : ExecutionId} {x won : Execution} (r : List Routine) (hx : OMap.get s.executions id = some x)
      (h : EndsRow s id op) (hwon : reconcile x .cancelled .cancel (js "cancelled") = some won) :
    Step config s op
      ({ (s.withRoutines r).put id won with locks := s.locks.releaseByExecution id }.promoteQueued config)
  | resume {id : ExecutionId} {rest : List Candidate} (h : s.promotion = some (id, rest)) :
    Step config s .resumePromotion (s.resumePromotion config rest)
  | shutdown (r : List Routine) (accepting : Bool) :
    Step config s .shutdown
      { s with
        executions := s.executions.map fun (p : ExecutionId × Execution) => (p.1, p.2.shutDown)
        routines := r
        acceptingNew := accepting }
  | unattached {opts : StartOpts} (h : Accepts s opts) :
    Step config s (.start opts)
      ((s.registerStart config opts).applyThen config opts.executionId
        (terminalizeQueued
          (opts.execution (s.runningCount < MAX_CONCURRENT_EXECUTIONS) (s.startLock config opts).1)
          (opts.entry (s.startLock config opts).1) .cancelled .cancel (js "cancelled")))
  | launched {opts : StartOpts} (h : Accepts s opts) (hcount : s.runningCount < MAX_CONCURRENT_EXECUTIONS)
      (hlock : opts.requiresLock = true → (s.startLock config opts).1 = true) :
    Step config s (.start opts)
      (if (s.startLaunch config opts).2 then (s.startLaunch config opts).1.promoteQueued config
        else (s.startLaunch config opts).1)
  | waits {opts : StartOpts} (h : Accepts s opts)
      (hno : s.runningCount < MAX_CONCURRENT_EXECUTIONS →
        opts.requiresLock = true ∧ (s.startLock config opts).1 = false) :
    Step config s (.start opts) (s.registerStart config opts)

variable {config : Config} {s : State} {id : ExecutionId} {x : Execution} {e e' : Entry}

theorem Touch.refl (e : Entry) : Touch e e :=
  ⟨rfl, rfl, rfl, rfl, rfl, rfl, rfl, rfl, fun h => h, Or.inl, Or.inl⟩

theorem touch_claims (intent : Option TerminalIntent) (cancelRequested timer : Bool) :
    Touch e { e with terminalIntent := intent, cancelRequested, timer } :=
  ⟨rfl, rfl, rfl, rfl, rfl, rfl, rfl, rfl, fun h => h, Or.inl, Or.inl⟩

theorem Touch.kill' (h : Touch e e') : Touch e e'.requestKillOnce where
  repoWriteLock := h.repoWriteLock
  writePaths := h.writePaths
  hasRepoLock := h.hasRepoLock
  starting := h.starting
  terminalGeneration := h.terminalGeneration
  registered := h.registered
  wait := h.wait
  session := h.session
  isOver := h.isOver
  closed := h.closed
  kill hk := by
    apply h.kill
    unfold Entry.requestKillOnce at hk
    cases hkill : e'.kill <;> rw [hkill] at hk
    case none => cases hk
    case some k => exact hk

theorem touch_over {session : Session} (hs : e.session = some session) (observer : Observer)
    (finished : Option Finished) (kill : Option Kill) :
    Touch e { e with observer, session := some { session with isOver := true }, finished, kill } where
  repoWriteLock := rfl
  writePaths := rfl
  hasRepoLock := rfl
  starting := rfl
  terminalGeneration := rfl
  registered := rfl
  wait := rfl
  session := by rw [hs]; rfl
  isOver _ := rfl
  closed _ := Or.inr rfl
  kill _ := Or.inr rfl

theorem claimTerminalIntent_eq (e : Entry) (intent : TerminalIntent) :
    (e.claimTerminalIntent intent = (true, { e with terminalIntent := some intent }) ∧ e.terminalGeneration = 0 ∧
      e.terminalIntent = none) ∨ e.claimTerminalIntent intent = (false, e) := by
  by_cases h : e.terminalGeneration > 0 ∨ e.terminalIntent.isSome = true
  · exact Or.inr (if_pos h)
  left
  refine ⟨if_neg h, ?_⟩
  simp only [not_or, Bool.not_eq_true, isSome_eq_false_iff, isNone_iff_eq_none] at h
  exact ⟨by omega, h.2⟩

theorem touch_shutDown {x : Execution} (h : x.entry = some e) :
    ∃ e', x.shutDown = { x with entry := some e' } ∧ Touch e e' := by
  unfold Execution.shutDown
  rw [h]
  dsimp only
  split
  · refine ⟨_, rfl, ?_⟩
    apply Touch.kill'
    rcases claimTerminalIntent_eq e .shutdown with ⟨heq, -, -⟩ | heq <;> rw [heq]
    · exact touch_claims _ _ _
    · exact Touch.refl e
  · refine ⟨e, ?_, Touch.refl e⟩
    rw [← h]

/-! ### Every step -/

theorem step_refl (op : Op) : Step config s op s := Step.quiet ⟨rfl, rfl, rfl, rfl⟩

theorem step_start (opts : StartOpts) : Step config s (.start opts) (s.startExecution config opts) := by
  unfold State.startExecution
  by_cases hno : (!s.acceptingNew) = true ∨ s.disk.isSome = true ∨ s.executions.has opts.executionId = true
  · rw [if_pos hno]
    exact step_refl _
  rw [if_neg hno]
  simp only [not_or, OMap.has, not_isSome_iff_eq_none] at hno
  have haccepts : Accepts s opts := ⟨hno.2.1, hno.2.2⟩
  by_cases hattached : (!opts.attached) = true
  · rw [if_pos hattached]
    exact Step.unattached haccepts
  rw [if_neg hattached]
  by_cases hgo : s.runningCount < MAX_CONCURRENT_EXECUTIONS ∧
      ((!opts.requiresLock) = true ∨ (s.startLock config opts).1 = true)
  · rw [if_pos hgo]
    apply Step.launched haccepts hgo.1
    intro hrequires
    rcases hgo.2 with h | h
    · rw [hrequires] at h
      cases h
    · exact h
  · rw [if_neg hgo]
    apply Step.waits haccepts
    intro hcount
    simp only [hcount, true_and, not_or, Bool.not_eq_true, Bool.not_eq_false'] at hgo
    exact hgo

theorem step_cancel (id : ExecutionId) : Step config s (.cancel id) (s.cancelExecution config id) := by
  unfold State.cancelExecution
  cases hreg : s.registered id <;> dsimp only
  case none =>
    unfold State.cancelQueuedExecutionWithoutRegistry
    cases hx : s.executions.get id with
    | none => exact step_refl _
    | some x =>
      dsimp only
      by_cases ht : x.row.status.isTerminal = true
      · rw [if_pos ht]
        exact step_refl _
      rw [if_neg ht]
      split
      · exact Step.quiet ⟨rfl, rfl, rfl, rfl⟩
      have hwon : ∃ won, reconcile x .cancelled .cancel (js "cancelled") = some won := ⟨_, if_neg ht⟩
      obtain ⟨won, hwon⟩ := hwon
      have heq : s.reconcileRow id = { s.put id won with locks := s.locks.releaseByExecution id } := by
        unfold State.reconcileRow
        rw [hx]
        dsimp only
        rw [hwon]
      rw [heq]
      exact Step.row s.routines hx (.cancel hreg) hwon
  case some p =>
    obtain ⟨x, e⟩ := p
    have hx := (registered_eq_some.mp hreg).1
    rcases claimTerminalIntent_eq e .cancel with ⟨heq, hg, hi⟩ | heq <;> rw [heq]
    · split
      · rename_i hp
        exact Step.ended s.routines hx (.cancelled hg hi (isNone_iff_eq_none.mp hp))
      · exact Step.touch (s.routines ++ [.cancelKill id]) hx (touch_claims _ _ _).kill'
    · split
      · exact Step.touch s.routines hx (touch_claims _ _ _)
      · exact Step.touch (s.routines ++ [.cancelKill id]) hx (touch_claims _ _ _).kill'

theorem step_cancelRowKilled (id : ExecutionId) (killed live : Bool) :
    Step config s (.cancelRowKilled id killed live) (s.perform config (.cancelRowKilled id killed live)) := by
  unfold State.perform
  dsimp only
  split
  · rename_i hr
    split
    · unfold State.reconcileRow
      have hsame : (s.leave (.cancelRow id)).executions = s.executions := rfl
      rw [hsame]
      cases hx : s.executions.get id with
      | none => exact Step.promote _ .row
      | some x =>
        dsimp only
        cases hwon : reconcile x .cancelled .cancel (js "cancelled") with
        | none => exact Step.promote _ .row
        | some won => exact Step.row _ hx (.killed hr) hwon
    · exact Step.quiet ⟨rfl, rfl, rfl, rfl⟩
  · exact step_refl _

theorem step_shutdownEntry (id : ExecutionId) (rest : List ExecutionId) (r : List Routine) :
    Step config s (.shutdownNext (id :: rest)) ((s.withRoutines r).shutdownEntry config id rest) := by
  unfold State.shutdownEntry
  have hentry : (s.withRoutines r).entryOf id = s.entryOf id := rfl
  rw [hentry]
  rcases hx : s.entryOf id with _ | ⟨x, e⟩
  · exact Step.quiet ⟨rfl, rfl, rfl, rfl⟩
  dsimp only
  rcases claimTerminalIntent_eq e .shutdown with ⟨heq, hg, hi⟩ | heq
  · rw [heq]
    split
    · rename_i hp
      exact Step.ended (r ++ [.shutdownLoop rest]) hx (.shutDown hg hi (isNone_iff_eq_none.mp hp))
    · exact Step.touch (r ++ [.shutdownKill id rest]) hx (touch_claims _ _ _).kill'
  · rw [heq]
    split
    · exact Step.quiet ⟨rfl, rfl, rfl, rfl⟩
    · exact Step.touch (r ++ [.shutdownKill id rest]) hx (Touch.refl e).kill'

theorem step_timeout (id : ExecutionId) : Step config s (.timeout id) (s.perform config (.timeout id)) := by
  unfold State.perform
  dsimp only
  rcases hx : s.entryOf id with _ | ⟨x, e⟩
  · exact step_refl _
  dsimp only
  split
  · unfold State.attemptDeadline
    dsimp only
    split
    · exact Step.touch s.routines hx (touch_claims _ _ _)
    · exact Step.touch (s.routines ++ [.timeoutRace id]) hx (touch_claims _ _ _).kill'
  · exact step_refl _

/-- What an operation does to the entries and the locks. -/
theorem step_perform (config : Config) (s : State) (op : Op) : Step config s op (s.perform config op) := by
  unfold State.perform
  cases op <;> dsimp only
  case start opts => exact step_start opts
  case started id outcome =>
    rcases hx : s.entryOf id with _ | ⟨x, e⟩
    · exact step_refl _
    dsimp only
    cases hstarting : e.starting with
    | none => exact step_refl _
    | some fromQueue => exact Step.ended s.routines hx (.started hstarting)
  case resumePromotion =>
    rcases hp : s.promotion with _ | ⟨id, rest⟩
    · exact step_refl _
    dsimp only
    split
    · exact step_refl _
    · exact Step.resume hp
  case promoteQueuedAfterGuardChange => exact Step.promote s.routines .guardChange
  case setDisk | waited => exact Step.quiet ⟨rfl, rfl, rfl, rfl⟩
  case streamEnd id finished =>
    rcases hx : s.entryOf id with _ | ⟨x, e⟩
    · exact step_refl _
    dsimp only
    split
    · rename_i session _ hsession
      exact Step.touch s.routines hx (touch_over hsession _ _ _)
    · exact step_refl _
  case close id =>
    rcases hx : s.entryOf id with _ | ⟨x, e⟩
    · exact step_refl _
    dsimp only
    split
    · rename_i ho
      apply Step.touch s.routines hx
      exact ⟨rfl, rfl, rfl, rfl, rfl, rfl, rfl, rfl, fun h => h, fun _ => Or.inl (by rw [ho]; rfl), Or.inl⟩
    · exact step_refl _
  case drained id =>
    rcases hx : s.entryOf id with _ | ⟨x, e⟩
    · exact step_refl _
    dsimp only
    split
    · rename_i intent ho
      exact Step.ended s.routines hx (.drained ho)
    · exact step_refl _
  case cancel id => exact step_cancel id
  case killSettled id resolved =>
    rcases hx : s.entryOf id with _ | ⟨x, e⟩
    · exact step_refl _
    dsimp only
    split
    · rename_i session _ hsession
      split
      · exact Step.touch s.routines hx (touch_over hsession _ _ _)
      · apply Step.touch s.routines hx
        exact ⟨rfl, rfl, rfl, rfl, rfl, rfl, rfl, rfl, fun h => h, Or.inl, fun h => by cases h⟩
    · exact step_refl _
  case cancelKilled id =>
    split
    · split <;> exact Step.quiet ⟨rfl, rfl, rfl, rfl⟩
    · exact Step.quiet ⟨rfl, rfl, rfl, rfl⟩
    · exact step_refl _
  case cancelBound id live =>
    split
    · rename_i hr
      have hentry : (s.leave (.cancelRace id)).entryOf id = s.entryOf id := rfl
      rw [hentry]
      rcases hx : s.entryOf id with _ | ⟨x, e⟩
      · exact Step.quiet ⟨rfl, rfl, rfl, rfl⟩
      cases live with
      | true => exact Step.quiet ⟨rfl, rfl, rfl, rfl⟩
      | false => exact Step.bound (s.routines.erase (.cancelRace id)) hx (.cancelled hr) rfl
    · exact step_refl _
  case cancelRowKilled id killed live => exact step_cancelRowKilled id killed live
  case timeout id => exact step_timeout id
  case timeoutBound id =>
    split
    · rename_i hr
      have hentry : (s.leave (.timeoutRace id)).entryOf id = s.entryOf id := rfl
      rw [hentry]
      cases hx : s.entryOf id with
      | none => exact Step.quiet ⟨rfl, rfl, rfl, rfl⟩
      | some p => exact Step.bound (s.routines.erase (.timeoutRace id)) hx (.timeout hr) rfl
    · exact step_refl _
  case shutdown =>
    unfold State.shutdown
    dsimp only
    split
    · exact Step.shutdown (s.routines ++ [.shutdownGrace]) false
    · exact Step.shutdown (s.routines ++ [.shutdownLoop _]) false
  case shutdownGraceOver =>
    split
    · exact Step.quiet ⟨rfl, rfl, rfl, rfl⟩
    · exact step_refl _
  case shutdownNext rest =>
    split
    · cases rest with
      | nil => exact Step.quiet ⟨rfl, rfl, rfl, rfl⟩
      | cons id rest => exact step_shutdownEntry id rest (s.routines.erase (.shutdownLoop (id :: rest)))
    · exact step_refl _
  case shutdownKilled id rest =>
    split
    · split
      · exact Step.quiet ⟨rfl, rfl, rfl, rfl⟩
      · exact Step.quiet ⟨rfl, rfl, rfl, rfl⟩
      · exact step_refl _
    · exact step_refl _

/-! ### Promotions -/

variable (config) in
theorem promoteOne_refused {c : Candidate} (h : (s.promoteOne config c).2 = false) : (s.promoteOne config c).1 = s ∧
    ∀ x e, s.registered c.id = some (x, e) → e.terminalGeneration = 0 → x.row.status = .queued →
    (s.acquire config c e).1 = false := by
  unfold State.promoteOne at h ⊢
  cases hreg : (s.registered c.id).filter fun p => p.2.terminalGeneration = 0 with
  | none =>
    refine ⟨rfl, ?_⟩
    intro x e hx hg _
    rw [hx, filter_some, if_pos (by simpa using hg)] at hreg
    cases hreg
  | some p =>
    obtain ⟨x, e⟩ := p
    rw [hreg] at h
    obtain ⟨hx, -⟩ := filter_eq_some_iff.mp hreg
    dsimp only at h ⊢
    by_cases hgo : (!(s.acquire config c e).1) = true
    · rw [if_pos hgo]
      refine ⟨rfl, ?_⟩
      intro x' e' hx' _ _
      rw [hx] at hx'
      obtain ⟨rfl, rfl⟩ := Prod.mk.inj (Option.some.inj hx')
      simpa using hgo
    · rw [if_neg hgo] at h ⊢
      by_cases hq : x.row.status = .queued
      · rw [if_pos hq] at h
        cases h
      rw [if_neg hq]
      refine ⟨rfl, ?_⟩
      intro x' e' hx' _ hq'
      rw [hx] at hx'
      obtain ⟨rfl, rfl⟩ := Prod.mk.inj (Option.some.inj hx')
      exact absurd hq' hq

structure Promoted (config : Config) (s : State) (c : Candidate) (x : Execution) (e : Entry) : Prop where
  registered : s.registered c.id = some (x, e)
  generation : e.terminalGeneration = 0
  queued : x.row.status = .queued
  go : (s.acquire config c e).1 = true

def State.promoted (config : Config) (s : State) (c : Candidate) (x : Execution) (e : Entry) : State :=
  (({ s with locks := (s.acquire config c e).2.1 }).launch config c.id x (s.acquire config c e).2.2 true).1

theorem promoteOne_launched {c : Candidate} (h : (s.promoteOne config c).2 = true) :
    ∃ x e, Promoted config s c x e ∧ (s.promoteOne config c).1 = s.promoted config c x e := by
  unfold State.promoteOne at h ⊢
  cases hreg : (s.registered c.id).filter fun p => p.2.terminalGeneration = 0 <;> rw [hreg] at h
  case none => cases h
  case some p =>
    obtain ⟨x, e⟩ := p
    obtain ⟨hx, hg⟩ := filter_eq_some_iff.mp hreg
    dsimp only at h ⊢
    by_cases hgo : (!(s.acquire config c e).1) = true
    · rw [if_pos hgo] at h
      cases h
    rw [if_neg hgo] at h ⊢
    by_cases hq : x.row.status = .queued
    · rw [if_pos hq]
      exact ⟨x, e, ⟨hx, by simpa using hg, hq, by simpa using hgo⟩, rfl⟩
    · rw [if_neg hq] at h
      cases h

variable (config) in
theorem promoteScan_cases (l : List Candidate) (s : State) :
    (∃ c rest, (c :: rest) <:+ l ∧ s.runningCount < MAX_CONCURRENT_EXECUTIONS ∧ (s.promoteOne config c).2 = true ∧
      State.promoteScan config l s = { (s.promoteOne config c).1 with promotion := some (c.id, rest) }) ∨
    (State.promoteScan config l s = { s with promotion := none } ∧
      (s.runningCount < MAX_CONCURRENT_EXECUTIONS → ∀ c ∈ l, (s.promoteOne config c).2 = false)) := by
  induction l with
  | nil => exact Or.inr ⟨rfl, fun _ c hc => absurd hc List.not_mem_nil⟩
  | cons c rest ih =>
    unfold State.promoteScan
    split
    · exact Or.inr ⟨rfl, fun h => absurd h (by omega)⟩
    have hrefused := promoteOne_refused config (s := s) (c := c)
    rcases hone : s.promoteOne config c with ⟨s', launched⟩
    cases launched with
    | true => exact Or.inl ⟨c, rest, List.suffix_refl _, by omega, by rw [hone], by rw [hone]⟩
    | false =>
      rw [hone] at hrefused
      have hsame : s' = s := (hrefused rfl).1
      subst hsame
      rcases ih with ⟨c', rest', hsuffix, h⟩ | ⟨heq, hall⟩
      · exact Or.inl ⟨c', rest', hsuffix.trans (List.suffix_cons c rest), h⟩
      refine Or.inr ⟨heq, ?_⟩
      intro hc c' hmem
      rcases List.mem_cons.mp hmem with rfl | hmem
      · rw [hone]
      · exact hall hc c' hmem

def Refused (config : Config) (s : State) : Prop :=
  ∀ id x e, s.registered id = some (x, e) → e.terminalGeneration = 0 → e.session = none → x.row.status = .queued →
    (s.acquire config ⟨id, x.row.cwd⟩ e).1 = false

def State.Offers (s : State) (l : List Candidate) : Prop := l = s.candidates ∨ ∃ id, s.promotion = some (id, l)

/-- What a promotion does: nothing while another one awaits a launch, one launch, or it finds nothing to launch. -/
inductive Promotion (config : Config) (s : State) : State → Prop
  | held (h : s.promotion.isSome) : Promotion config s s
  | launched {l rest : List Candidate} {c : Candidate} {x : Execution} {e : Entry}
      (p : Option (ExecutionId × List Candidate)) (hl : s.Offers l) (hc : (c :: rest) <:+ l)
      (hcount : s.runningCount < MAX_CONCURRENT_EXECUTIONS) (h : Promoted config s c x e) :
    Promotion config s
      { ({ s with promotion := p } : State).promoted config c x e with promotion := some (c.id, rest) }
  | exhausted (h : s.runningCount < MAX_CONCURRENT_EXECUTIONS → Refused config s) :
    Promotion config s { s with promotion := none }

theorem mem_candidates (hx : s.executions.get id = some x) (hq : x.row.status = .queued) :
    (⟨id, x.row.cwd⟩ : Candidate) ∈ s.candidates := by
  unfold State.candidates
  rw [List.mem_map]
  refine ⟨(id, x), ?_, rfl⟩
  rw [List.mem_insertionSort, List.mem_filter]
  exact ⟨OMap.mem_of_get hx, by simpa using hq⟩

theorem promotion_round (p : Option (ExecutionId × List Candidate)) :
    Promotion config s (({ s with promotion := p } : State).promoteRound config) := by
  unfold State.promoteRound
  by_cases hgo : s.runningCount < MAX_CONCURRENT_EXECUTIONS ∧ s.hasQueuedPromotableEntry = true
  · rw [if_pos (by exact hgo)]
    rcases promoteScan_cases config ({ s with promotion := p } : State).candidates { s with promotion := p }
      with ⟨c, rest, hsuffix, hcount, hlaunched, heq⟩ | ⟨heq, hall⟩
    · rw [heq]
      obtain ⟨x, e, hpromoted, heq⟩ := promoteOne_launched hlaunched
      rw [heq]
      exact Promotion.launched p (Or.inl rfl) hsuffix hcount
        ⟨hpromoted.registered, hpromoted.generation, hpromoted.queued, hpromoted.go⟩
    · rw [heq]
      apply Promotion.exhausted
      intro hcount id x e hx hg _ hq
      obtain ⟨hget, -⟩ := entryOf_eq_some.mp (registered_eq_some.mp hx).1
      exact (promoteOne_refused config (hall hcount _ (mem_candidates hget hq))).2 x e hx hg hq
  · rw [if_neg (by exact hgo)]
    apply Promotion.exhausted
    intro hcount id x e hx hg hs _
    exfalso
    apply hgo
    refine ⟨hcount, ?_⟩
    obtain ⟨hentry, hr⟩ := registered_eq_some.mp hx
    obtain ⟨hget, he⟩ := entryOf_eq_some.mp hentry
    unfold State.hasQueuedPromotableEntry
    rw [List.any_eq_true]
    refine ⟨(id, x), OMap.mem_of_get hget, ?_⟩
    rw [he, any_some, hr, hs, hg]
    rfl

theorem promotion_promoteQueued (config : Config) (s : State) : Promotion config s (s.promoteQueued config) := by
  unfold State.promoteQueued
  split
  · rename_i hp
    exact Promotion.held hp
  · exact promotion_round s.promotion

theorem promotion_resume {rest : List Candidate} (hp : s.promotion = some (id, rest)) :
    Promotion config s (s.resumePromotion config rest) := by
  unfold State.resumePromotion
  rcases promoteScan_cases config rest s with ⟨c, rest', hsuffix, hcount, hlaunched, heq⟩ | ⟨heq, -⟩
  · rw [heq]
    obtain ⟨x, e, hpromoted, heq⟩ := promoteOne_launched hlaunched
    rw [heq]
    exact Promotion.launched s.promotion (Or.inr ⟨id, hp⟩) hsuffix hcount hpromoted
  · rw [heq, if_neg (by simp)]
    exact promotion_round none

end Wrenyard.Supervisor
