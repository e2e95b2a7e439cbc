import Mathlib.Data.List.Basic
import Mathlib.Logic.Function.Iterate

/-!
# Preparing the operations of a run

`OperationAdapter.prepare` takes the desktop lane and stages copies of the login state, one operation after the other.
A failure gives the lane back and forgets the cleanups; `release` gives the lane back and runs them.  `atomic_iff`
says for which requests a failure leaves nothing behind.
-/

namespace Wrenyard.Daemon

inductive OperationComponentId
  | browser
  | desktop
deriving DecidableEq

/-- What `stageLoginStateCopy` leaves: nothing, a copy that it could not protect and does not report, or a copy. -/
inductive Staging
  | absent
  | left
  | staged
deriving DecidableEq

inductive OperationCleanup
  | close
  | remove
deriving DecidableEq

/-- What a call of `prepare` meets, by the position of the operation. -/
structure PrepareEnv where
  headed : Bool
  /-- The request brings a server named `computer`. -/
  hasComputer : Bool
  resolves : Nat → Bool
  acquires : Nat → Bool
  staging : Nat → Staging
  /-- Loading the copy opens the browser session. -/
  opens : Nat → Bool

structure Preparation where
  desktopHeld : Bool
  computer : Bool
  cleanups : List OperationCleanup
  /-- The holds on the desktop lane that the call has taken. -/
  holds : Nat
  copied : Bool
  opened : Bool

def Preparation.hold (s : Preparation) : Preparation :=
  if s.desktopHeld then s else { s with desktopHeld := true, holds := s.holds + 1 }

variable (env : PrepareEnv)

def prepareId (n : Nat) (s : Preparation) : OperationComponentId → Except Preparation Preparation
  | .browser =>
    if !env.resolves n || env.headed && !s.desktopHeld && !env.acquires n then .error s
    else
      let s := if env.headed then s.hold else s
      .ok (match env.staging n with
        | .absent => { s with cleanups := s.cleanups ++ [.close] }
        | .left => { s with cleanups := s.cleanups ++ [.close], copied := true }
        | .staged =>
          { s with cleanups := s.cleanups ++ [.close, .remove], copied := true, opened := s.opened || env.opens n })
  | .desktop =>
    if !env.resolves n || s.computer || !s.desktopHeld && !env.acquires n then .error s
    else .ok { s.hold with computer := true }

def prepareIds (n : Nat) (s : Preparation) : List OperationComponentId → Except Preparation Preparation
  | [] => .ok s
  | id :: ids => (prepareId env n s id).bind fun s => prepareIds (n + 1) s ids

/-- `prepare`: what is left of a failed call, or what a successful one holds. -/
def prepare (ids : List OperationComponentId) : Except Preparation Preparation :=
  (prepareIds env 0 ⟨false, env.hasComputer, [], 0, false, false⟩ ids).mapError fun s =>
    if s.desktopHeld then { s with holds := s.holds - 1 } else s

/-- What the calls of `release` have done. -/
structure Release where
  released : Bool
  holds : Nat
  freed : Nat
  ran : List OperationCleanup

def Preparation.release (s : Preparation) (r : Release) : Release :=
  if r.released then r
  else
    { released := true
      holds := if s.desktopHeld then r.holds - 1 else r.holds
      freed := if s.desktopHeld then r.freed + 1 else r.freed
      ran := r.ran ++ s.cleanups }

/-- A failed call leaves no hold, copy or session, and any number of releases free the lane and run the cleanups
once. -/
structure Atomic (ids : List OperationComponentId) : Prop where
  rejected : ∀ s, prepare env ids = .error s → s.holds = 0 ∧ s.copied = false ∧ s.opened = false
  released : ∀ s, prepare env ids = .ok s → ∀ n, s.release^[n + 1] ⟨false, s.holds, 0, []⟩ =
    ⟨true, 0, if s.desktopHeld then 1 else 0, s.cleanups⟩

def laneTaken (before : List OperationComponentId) : Bool :=
  before.contains .desktop || env.headed && before.contains .browser

/-- A login state is copied for one of the operations. -/
def copies (before : List OperationComponentId) : Bool :=
  before.zipIdx.any fun x => x.1 == .browser && env.staging x.2 != .absent

/-- An operation that fails behind others that did not. -/
def refused (before : List OperationComponentId) : OperationComponentId → Bool
  | .browser => !env.resolves before.length || env.headed && !laneTaken env before && !env.acquires before.length
  | .desktop => !env.resolves before.length || (env.hasComputer || before.contains .desktop) ||
      !laneTaken env before && !env.acquires before.length

def Refuses (ids : List OperationComponentId) (k : Nat) : Prop :=
  ∃ id, ids[k]? = some id ∧ refused env (ids.take k) id = true

/-- The state behind operations that did not fail. -/
structure Follows (before : List OperationComponentId) (s : Preparation) : Prop where
  held : s.desktopHeld = laneTaken env before
  computer : s.computer = (env.hasComputer || before.contains .desktop)
  holds : s.holds = if s.desktopHeld then 1 else 0
  copied : s.copied = copies env before
  opened : s.opened = true → s.copied = true

variable {env} {ids before : List OperationComponentId} {s : Preparation}

theorem Follows.hold (h : Follows env before s) : s.hold = { s with desktopHeld := true, holds := 1 } := by
  have hholds := h.holds
  unfold Preparation.hold
  split
  · rename_i hheld
    rw [if_pos hheld] at hholds
    rw [← hheld, ← hholds]
  · rename_i hheld
    rw [hholds, if_neg hheld]

theorem Follows.push (h : Follows env before s) {id : OperationComponentId} {s' : Preparation}
    (hheld : s'.desktopHeld = laneTaken env (before ++ [id])) (hholds : s'.holds = if s'.desktopHeld then 1 else 0)
    (hcomputer : s'.computer = (s.computer || id == .desktop))
    (hcopied : s'.copied = (s.copied || id == .browser && env.staging before.length != .absent))
    (hopened : s'.opened = true → s'.copied = true) : Follows env (before ++ [id]) s' where
  held := hheld
  computer := by
    rw [hcomputer, h.computer]
    cases id <;> simp
  holds := hholds
  copied := by
    rw [hcopied, h.copied]
    simp [copies, List.zipIdx_append]
  opened := hopened

theorem prepareId_follows (h : Follows env before s) (id : OperationComponentId) :
    (refused env before id = true → prepareId env before.length s id = .error s) ∧
    (refused env before id = false →
      ∃ s', prepareId env before.length s id = .ok s' ∧ Follows env (before ++ [id]) s') := by
  have hopened := h.opened
  have hholds := h.holds
  cases id with
  | browser =>
    unfold prepareId refused
    rw [h.held, h.hold]
    refine ⟨fun hr => if_pos hr, fun hr => ⟨_, if_neg (Bool.eq_false_iff.1 hr), ?_⟩⟩
    apply h.push <;> cases hheaded : env.headed <;> cases hstaging : env.staging before.length <;>
      simp_all [laneTaken, h.held]
  | desktop =>
    unfold prepareId refused
    rw [h.held, h.computer, h.hold]
    refine ⟨fun hr => if_pos hr, fun hr => ⟨_, if_neg (Bool.eq_false_iff.1 hr), ?_⟩⟩
    apply h.push <;> simp_all [laneTaken]

theorem prepareIds_follows (h : Follows env before s) (hnone : ∀ k < before.length, ¬Refuses env (before ++ ids) k) :
    (∃ s', prepareIds env before.length s ids = .ok s' ∧ Follows env (before ++ ids) s' ∧
      ∀ k, ¬Refuses env (before ++ ids) k) ∨
    ∃ s' f, prepareIds env before.length s ids = .error s' ∧ Follows env ((before ++ ids).take f) s' ∧
      Refuses env (before ++ ids) f ∧ ∀ k < f, ¬Refuses env (before ++ ids) k := by
  induction ids generalizing before s with
  | nil =>
    refine Or.inl ⟨s, rfl, by rwa [List.append_nil], fun k hk => ?_⟩
    obtain ⟨id, hid, -⟩ := id hk
    exact hnone k (by simpa using (List.getElem?_eq_some_iff.1 hid).1) hk
  | cons id ids ih =>
    obtain ⟨herror, hok⟩ := prepareId_follows h id
    have hhere : Refuses env (before ++ id :: ids) before.length ↔ refused env before id = true := by simp [Refuses]
    unfold prepareIds
    cases hr : refused env before id with
    | true =>
      rw [herror hr]
      exact Or.inr ⟨s, before.length, rfl, by rwa [List.take_left], hhere.2 hr, hnone⟩
    | false =>
      obtain ⟨s', hs', hfollows⟩ := hok hr
      rw [hs', List.append_cons]
      have hrest := ih hfollows
      rw [List.length_append] at hrest
      refine hrest fun k hk => ?_
      rw [← List.append_cons]
      rcases Nat.lt_succ_iff_lt_or_eq.1 hk with hlt | rfl
      · exact hnone k hlt
      · rw [hhere, hr]
        simp

theorem release_iterate (s : Preparation) (n : Nat) : s.release^[n + 1] ⟨false, s.holds, 0, []⟩ =
    ⟨true, if s.desktopHeld then s.holds - 1 else s.holds, if s.desktopHeld then 1 else 0, s.cleanups⟩ := by
  exact Function.iterate_fixed rfl n

/-- **A failed preparation** leaves nothing behind exactly when no login state is copied before the first failure. -/
theorem atomic_iff : Atomic env ids ↔
    ∀ f, Refuses env ids f → (∀ k < f, ¬Refuses env ids k) → copies env (ids.take f) = false := by
  have hnew : Follows env [] ⟨false, env.hasComputer, [], 0, false, false⟩ := by
    constructor <;> simp [laneTaken, copies]
  have hfresh : ∀ k < ([] : List String).length, ¬Refuses env ([] ++ ids) k := by simp
  rcases prepareIds_follows hnew hfresh with ⟨s, hs, h, hnone⟩ | ⟨s, f, hs, h, hf, hfirst⟩
  · have hprepare : prepare env ids = .ok s := congrArg (Except.mapError _) hs
    refine iff_of_true ⟨fun s' hs' => ?_, fun s' hs' n => ?_⟩ fun f hf => absurd hf (hnone f)
    all_goals cases hprepare.symm.trans hs'
    rw [release_iterate, h.holds]
    split <;> rfl
  · have hprepare : prepare env ids = .error (if s.desktopHeld then { s with holds := s.holds - 1 } else s) :=
      congrArg (Except.mapError _) hs
    have hcopied : (if s.desktopHeld then { s with holds := s.holds - 1 } else s).copied =
        copies env (ids.take f) := by
      split <;> exact h.copied
    constructor
    · intro hatomic f' hf' hfirst'
      have heq : f' = f := by
        rcases Nat.lt_trichotomy f' f with hlt | heq | hlt
        · exact absurd hf' (hfirst f' hlt)
        · exact heq
        · exact absurd hf (hfirst' f hlt)
      rw [heq, ← hcopied]
      exact (hatomic.rejected _ hprepare).2.1
    · intro hall
      have hclean := hall f hf hfirst
      refine ⟨fun s' hs' => ?_, fun s' hs' n => ?_⟩
      all_goals cases hprepare.symm.trans hs'
      refine ⟨?_, hcopied.trans hclean, ?_⟩
      · have hholds := h.holds
        split at hholds <;> simp_all
      · have hopened := h.opened
        rw [h.copied, List.nil_append, hclean] at hopened
        split <;> simpa using hopened

/-- A browser whose copy was staged, before a desktop component that is not ready. -/
theorem not_atomic_browser_desktop : ¬∀ env ids, Atomic env ids := by
  intro h
  have hrejected := (h ⟨false, false, fun n => n == 0, fun _ => true, fun _ => .staged, fun _ => true⟩
    [.browser, .desktop]).rejected _ rfl
  exact absurd hrejected.2.1 (by decide)

end Wrenyard.Daemon
