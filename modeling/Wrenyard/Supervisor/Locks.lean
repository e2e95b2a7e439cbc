import Wrenyard.Js.KeyOrder
import Wrenyard.Js.OrderedMap

/-!
# Write locks of repositories

A write lock is held by an execution, over a whole repository or over exact files of it.  Locks of one repository that
overlap conflict, and a lock that conflicts with a held one is not given (`Locks.Sound.tryAcquire`): at any time the
held locks do not conflict (`Locks.Sound.compatible`).
-/

namespace Wrenyard.Supervisor

open Js

/-- Identifiers of executions, in the order of their texts. -/
abbrev ExecutionId := Nat

/-- The file system, as far as locks need it: the repository a directory belongs to, and the canonical form of a
path. -/
structure Paths where
  repoRoot : JsString → JsString
  canonical : JsString → JsString
  sep : UInt16

inductive RepoWriteLockMode where
  | edit | yolo

structure RepoWriteLock where
  repoPath : JsString
  holderExecutionId : ExecutionId
  mode : RepoWriteLockMode
  /-- Nothing means repo-wide; otherwise every entry is one canonical exact file. -/
  targetPaths : Option (List JsString)

structure Locks where
  locksByRepoPath : OMap JsString (OMap ExecutionId RepoWriteLock)
  lockByExecutionId : OMap ExecutionId RepoWriteLock

section

variable (paths : Paths)

def pathsOverlap (left right : JsString) : Bool :=
  let a := paths.canonical left
  let b := paths.canonical right
  a = b || startsWith a (b ++ [paths.sep]) || startsWith b (a ++ [paths.sep])

def locksConflict : Option (List JsString) → Option (List JsString) → Bool
  | some left, some right => left.any fun a => right.any fun b => pathsOverlap paths a b
  | _, _ => true

def canonicalTargets (mode : RepoWriteLockMode) (targetPaths : Option (List JsString)) : Option (List JsString) :=
  match mode, targetPaths with
  | .edit, some (path :: rest) => some (sortStrings ((path :: rest).map paths.canonical).dedup)
  | _, _ => none

def wanted (repoPath : JsString) (executionId : ExecutionId) (mode : RepoWriteLockMode)
    (targetPaths : Option (List JsString)) : RepoWriteLock :=
  { repoPath := paths.repoRoot repoPath, holderExecutionId := executionId, mode
    targetPaths := canonicalTargets paths mode targetPaths }

def Locks.holders (locks : Locks) (repoPath : JsString) : OMap ExecutionId RepoWriteLock :=
  (OMap.get locks.locksByRepoPath repoPath).getD []

def Locks.tryAcquire (locks : Locks) (repoPath : JsString) (executionId : ExecutionId) (mode : RepoWriteLockMode)
    (targetPaths : Option (List JsString)) : Bool × Locks :=
  if OMap.has locks.lockByExecutionId executionId then (true, locks)
  else
    let lock := wanted paths repoPath executionId mode targetPaths
    let holders := locks.holders lock.repoPath
    if holders.any fun holder => locksConflict paths holder.2.targetPaths lock.targetPaths then (false, locks)
    else
      (true,
        { locksByRepoPath := OMap.set locks.locksByRepoPath lock.repoPath (OMap.set holders executionId lock)
          lockByExecutionId := OMap.set locks.lockByExecutionId executionId lock })

end

def Locks.releaseByExecution (locks : Locks) (executionId : ExecutionId) : Locks :=
  match OMap.get locks.lockByExecutionId executionId with
  | none => locks
  | some lock =>
    let holders := OMap.delete (locks.holders lock.repoPath) executionId
    { locksByRepoPath :=
        if holders = [] then OMap.delete locks.locksByRepoPath lock.repoPath
        else OMap.set locks.locksByRepoPath lock.repoPath holders
      lockByExecutionId := OMap.delete locks.lockByExecutionId executionId }

def Locks.Held (locks : Locks) (executionId : ExecutionId) : Prop :=
  (OMap.get locks.lockByExecutionId executionId).isSome

instance instDecidableHeld (locks : Locks) (executionId : ExecutionId) : Decidable (locks.Held executionId) := by
  unfold Locks.Held
  infer_instance

/-! ### What is held -/

structure Locks.Sound (paths : Paths) (locks : Locks) : Prop where
  grouped : ∀ repoPath executionId, OMap.get (locks.holders repoPath) executionId =
    (OMap.get locks.lockByExecutionId executionId).filter fun lock => lock.repoPath = repoPath
  compatible : ∀ a b lock lock', a ≠ b → OMap.get locks.lockByExecutionId a = some lock →
    OMap.get locks.lockByExecutionId b = some lock' → lock.repoPath = lock'.repoPath →
    locksConflict paths lock.targetPaths lock'.targetPaths = false

variable {paths : Paths} {locks : Locks}

theorem pathsOverlap_comm (a b : JsString) : pathsOverlap paths a b = pathsOverlap paths b a := by
  unfold pathsOverlap
  rw [Bool.or_right_comm]
  congr 2
  exact decide_eq_decide.mpr eq_comm

theorem locksConflict_comm (a b : Option (List JsString)) : locksConflict paths a b = locksConflict paths b a := by
  cases a with
  | none => cases b <;> rfl
  | some left =>
    cases b with
    | none => rfl
    | some right =>
      unfold locksConflict
      rw [Bool.eq_iff_iff]
      simp only [List.any_eq_true]
      constructor
      all_goals
        rintro ⟨x, hx, y, hy, hxy⟩
        exact ⟨y, hy, x, hx, pathsOverlap_comm x y ▸ hxy⟩

theorem Locks.sound_empty : Locks.Sound paths ⟨[], []⟩ where
  grouped repoPath executionId := by simp [Locks.holders]
  compatible a b lock lock' _ ha := by simp at ha

variable {executionId : ExecutionId} {id : ExecutionId}

theorem Locks.held_tryAcquire {repoPath : JsString} {mode : RepoWriteLockMode}
    {targetPaths : Option (List JsString)} :
    (locks.tryAcquire paths repoPath executionId mode targetPaths).2.Held id ↔ locks.Held id ∨
    (id = executionId ∧ (locks.tryAcquire paths repoPath executionId mode targetPaths).1 = true) := by
  unfold Locks.tryAcquire Locks.Held
  by_cases hhas : OMap.has locks.lockByExecutionId executionId = true
  · simp only [if_pos hhas]
    constructor
    · exact Or.inl
    · rintro (h | ⟨rfl, -⟩)
      · exact h
      · exact hhas
  · simp only [if_neg hhas]
    generalize (wanted paths repoPath executionId mode targetPaths) = lock
    by_cases hconflict : ((locks.holders lock.repoPath).any fun holder =>
        locksConflict paths holder.2.targetPaths lock.targetPaths) = true
    · simp [hconflict]
    simp only [if_neg hconflict, OMap.get_set]
    by_cases hid : executionId = id
    · simp [hid]
    · simp [hid, Ne.symm hid]

theorem Locks.get_releaseByExecution (locks : Locks) (executionId id : ExecutionId) :
    OMap.get (locks.releaseByExecution executionId).lockByExecutionId id =
      if executionId = id then none else OMap.get locks.lockByExecutionId id := by
  unfold Locks.releaseByExecution
  cases h : OMap.get locks.lockByExecutionId executionId with
  | none =>
    by_cases hid : executionId = id
    · rw [if_pos hid, ← hid]
      exact h
    · rw [if_neg hid]
  | some lock => exact OMap.get_delete _ _ _

theorem Locks.held_releaseByExecution :
    (locks.releaseByExecution executionId).Held id ↔ locks.Held id ∧ id ≠ executionId := by
  unfold Locks.Held
  rw [Locks.get_releaseByExecution]
  by_cases hid : executionId = id
  · simp [hid]
  · simp [hid, Ne.symm hid]

theorem Locks.get_tryAcquire {repoPath : JsString} {mode : RepoWriteLockMode} {targetPaths : Option (List JsString)}
    {lock : RepoWriteLock}
    (h : OMap.get (locks.tryAcquire paths repoPath executionId mode targetPaths).2.lockByExecutionId id = some lock) :
    OMap.get locks.lockByExecutionId id = some lock ∨
    (id = executionId ∧ lock = wanted paths repoPath executionId mode targetPaths) := by
  unfold Locks.tryAcquire at h
  by_cases hhas : OMap.has locks.lockByExecutionId executionId = true
  · rw [if_pos hhas] at h
    exact Or.inl h
  rw [if_neg hhas] at h
  by_cases hconflict : ((locks.holders (wanted paths repoPath executionId mode targetPaths).repoPath).any
    fun holder =>
      locksConflict paths holder.2.targetPaths (wanted paths repoPath executionId mode targetPaths).targetPaths) =
        true
  · rw [if_pos hconflict] at h
    exact Or.inl h
  rw [if_neg hconflict, OMap.get_set] at h
  by_cases hid : executionId = id
  · rw [if_pos hid] at h
    exact Or.inr ⟨hid.symm, (Option.some.inj h).symm⟩
  · rw [if_neg hid] at h
    exact Or.inl h

theorem Locks.Sound.tryAcquire (hs : locks.Sound paths) (repoPath : JsString) (executionId : ExecutionId)
    (mode : RepoWriteLockMode) (targetPaths : Option (List JsString)) :
    (locks.tryAcquire paths repoPath executionId mode targetPaths).2.Sound paths := by
  unfold Locks.tryAcquire
  by_cases hhas : OMap.has locks.lockByExecutionId executionId = true
  · rwa [if_pos hhas]
  rw [if_neg hhas]
  generalize wanted paths repoPath executionId mode targetPaths = lock
  by_cases hconflict : ((locks.holders lock.repoPath).any fun holder =>
      locksConflict paths holder.2.targetPaths lock.targetPaths) = true
  · rwa [if_pos hconflict]
  rw [if_neg hconflict]
  have hfree : OMap.get locks.lockByExecutionId executionId = none := by
    rw [OMap.has, Bool.not_eq_true, Option.isSome_eq_false_iff, Option.isNone_iff_eq_none] at hhas
    exact hhas
  -- a held lock of the repository is one of its holders, which the new lock was compared with
  have hclear : ∀ id held, OMap.get locks.lockByExecutionId id = some held → held.repoPath = lock.repoPath →
      locksConflict paths held.targetPaths lock.targetPaths = false := by
    intro id held hget hrepo
    have hholder := hs.grouped lock.repoPath id
    rw [hget, Option.filter_some, if_pos (by simpa using hrepo)] at hholder
    by_contra hne
    apply hconflict
    rw [List.any_eq_true]
    exact ⟨(id, held), OMap.mem_of_get hholder, by simpa using hne⟩
  constructor
  · intro repo id
    have hgroup := hs.grouped repo id
    unfold Locks.holders at hgroup ⊢
    rw [OMap.get_set, OMap.get_set]
    split
    · rename_i hrepo
      rw [Option.getD_some, OMap.get_set]
      by_cases hid : executionId = id
      · rw [if_pos hid, if_pos hid, Option.filter_some, if_pos (by simpa using hrepo)]
      · rw [if_neg hid, if_neg hid, hrepo]
        exact hgroup
    · rename_i hrepo
      split
      · rename_i hid
        rw [hgroup, ← hid, hfree, Option.filter_some, if_neg (by simpa using hrepo)]
        rfl
      · exact hgroup
  · intro a b held held' hne ha hb hrepo
    rw [OMap.get_set] at ha hb
    by_cases hida : executionId = a
    · have hidb : executionId ≠ b := fun h => hne (hida.symm.trans h)
      rw [if_pos hida] at ha
      rw [if_neg hidb] at hb
      obtain rfl := Option.some.inj ha
      rw [locksConflict_comm]
      exact hclear b held' hb hrepo.symm
    · rw [if_neg hida] at ha
      by_cases hidb : executionId = b
      · rw [if_pos hidb] at hb
        obtain rfl := Option.some.inj hb
        exact hclear a held ha hrepo
      · rw [if_neg hidb] at hb
        exact hs.compatible a b held held' hne ha hb hrepo

theorem Locks.Sound.releaseByExecution (hs : locks.Sound paths) (executionId : ExecutionId) :
    (locks.releaseByExecution executionId).Sound paths := by
  unfold Locks.releaseByExecution
  cases hget : OMap.get locks.lockByExecutionId executionId with
  | none => exact hs
  | some lock =>
    constructor
    · intro repo id
      have hgroup := hs.grouped repo id
      have hrest : OMap.get (OMap.delete (locks.holders lock.repoPath) executionId) id =
          if executionId = id then none else OMap.get (locks.holders lock.repoPath) id := OMap.get_delete _ _ _
      have hholders : Locks.holders
          { locksByRepoPath :=
              if OMap.delete (locks.holders lock.repoPath) executionId = [] then
                OMap.delete locks.locksByRepoPath lock.repoPath
              else
                OMap.set locks.locksByRepoPath lock.repoPath (OMap.delete (locks.holders lock.repoPath) executionId)
            lockByExecutionId := OMap.delete locks.lockByExecutionId executionId } repo =
          if lock.repoPath = repo then OMap.delete (locks.holders lock.repoPath) executionId
          else locks.holders repo := by
        unfold Locks.holders
        split
        · rename_i hempty
          rw [OMap.get_delete]
          by_cases hrepo : lock.repoPath = repo
          · rw [if_pos hrepo, if_pos hrepo, hempty]
            rfl
          · rw [if_neg hrepo, if_neg hrepo]
        · rw [OMap.get_set]
          by_cases hrepo : lock.repoPath = repo
          · rw [if_pos hrepo, if_pos hrepo]
            rfl
          · rw [if_neg hrepo, if_neg hrepo]
      rw [hholders]
      rw [OMap.get_delete]
      split
      · rename_i hrepo
        rw [hrest]
        by_cases hid : executionId = id
        · rw [if_pos hid, if_pos hid]
          rfl
        · rw [if_neg hid, if_neg hid, hrepo]
          exact hgroup
      · rename_i hrepo
        rw [hgroup]
        by_cases hid : executionId = id
        · rw [if_pos hid, ← hid, hget, Option.filter_some, if_neg (by simpa using hrepo)]
          rfl
        · rw [if_neg hid]
    · intro a b held held' hne ha hb hrepo
      rw [OMap.get_delete] at ha hb
      by_cases hida : executionId = a
      · rw [if_pos hida] at ha
        cases ha
      by_cases hidb : executionId = b
      · rw [if_pos hidb] at hb
        cases hb
      rw [if_neg hida] at ha
      rw [if_neg hidb] at hb
      exact hs.compatible a b held held' hne ha hb hrepo

end Wrenyard.Supervisor
