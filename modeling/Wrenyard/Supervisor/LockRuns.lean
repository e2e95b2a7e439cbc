import Mathlib.Data.List.Dedup
import Mathlib.Data.List.Induction
import Wrenyard.Supervisor.Locks

/-!
# Runs of the write locks

The prefix test of `pathsOverlap` is the order of paths by their components (`splitOn_prefix_iff`), so the locks that
two executions hold in one repository are over files that are apart (`write_locks_exclusive`).
-/

namespace Wrenyard.Supervisor

open Js List

inductive LockOp where
  | tryAcquire (repoPath : JsString) (executionId : ExecutionId) (mode : RepoWriteLockMode)
      (targetPaths : Option (List JsString))
  | releaseByExecution (executionId : ExecutionId)
  | releaseAll

def Locks.releaseAll (_ : Locks) : Locks := ⟨[], []⟩

def Locks.perform (paths : Paths) (locks : Locks) : LockOp → Locks
  | .tryAcquire repoPath executionId mode targetPaths =>
    (locks.tryAcquire paths repoPath executionId mode targetPaths).2
  | .releaseByExecution executionId => locks.releaseByExecution executionId
  | .releaseAll => locks.releaseAll

def Locks.run (paths : Paths) (ops : List LockOp) : Locks := ops.foldl (Locks.perform paths) ⟨[], []⟩

/-- One path is or contains the other: its components are the first ones of the other's.  A root, whose text ends in
the separator, contains only itself here (`nested_iff` is about other paths). -/
def Nested (paths : Paths) (a b : JsString) : Prop :=
  a.splitOn paths.sep <+: b.splitOn paths.sep ∨ b.splitOn paths.sep <+: a.splitOn paths.sep

/-- The components of a path; a root, whose text ends in the separator, has no name behind it. -/
def components (paths : Paths) (path : JsString) : List JsString :=
  if path.getLast? = some paths.sep then (path.splitOn paths.sep).dropLast else path.splitOn paths.sep

/-- The first path is or contains the second. -/
def Contains (paths : Paths) (a b : JsString) : Prop := components paths a <+: components paths b

/-- Of two paths that are no roots one is or contains the other exactly when they are nested. -/
theorem nested_iff {paths : Paths} {a b : JsString} (ha : a.getLast? ≠ some paths.sep)
    (hb : b.getLast? ≠ some paths.sep) : Nested paths a b ↔ Contains paths a b ∨ Contains paths b a := by
  unfold Nested Contains components
  rw [if_neg ha, if_neg hb]

/-- Both locks are over files, and these are apart. -/
def Apart (paths : Paths) (left right : Option (List JsString)) : Prop :=
  ∃ as bs, left = some as ∧ right = some bs ∧ ∀ a ∈ as, ∀ b ∈ bs, ¬ Nested paths a b

/-- The answer to a request for a lock: the lock it holds already, or the new one unless a held lock is not apart. -/
def Locks.Answered (paths : Paths) (locks : Locks) (executionId : ExecutionId) (lock : RepoWriteLock)
    (result : Bool × Locks) : Prop :=
  (locks.Held executionId → result = (true, locks)) ∧
  (result.1 = false ↔ ¬ locks.Held executionId ∧ ∃ id held, OMap.get locks.lockByExecutionId id = some held ∧
    held.repoPath = lock.repoPath ∧ ¬ Apart paths held.targetPaths lock.targetPaths) ∧
  (result.1 = false → result.2 = locks) ∧
  (¬ locks.Held executionId → result.1 = true → OMap.get result.2.lockByExecutionId executionId = some lock)

theorem splitOn_prefix_iff {a b : JsString} {sep : UInt16} :
    a.splitOn sep <+: b.splitOn sep ↔ a = b ∨ a ++ [sep] <+: b := by
  constructor
  · rintro ⟨rest, h⟩
    have hb : [sep].intercalate (a.splitOn sep ++ rest) = b := by rw [h, intercalate_splitOn]
    cases rest with
    | nil => exact Or.inl (by rw [← hb, append_nil, intercalate_splitOn])
    | cons c rest =>
      have happend : ∀ l : List JsString, l ≠ [] →
          [sep].intercalate (l ++ c :: rest) = [sep].intercalate l ++ [sep] ++ [sep].intercalate (c :: rest) := by
        intro l hl
        induction l with
        | nil => exact absurd rfl hl
        | cons x l ih =>
          rw [cons_append, intercalate_cons_of_ne_nil (by simp)]
          cases l with
          | nil => simp
          | cons y l => rw [ih (by simp), intercalate_cons_cons, append_assoc, append_assoc,
              append_assoc, append_assoc, append_assoc]
      rw [← hb, happend _ (splitOn_ne_nil sep a), intercalate_splitOn]
      exact Or.inr (prefix_append _ _)
  · rintro (rfl | ⟨rest, rfl⟩)
    · exact prefix_rfl
    · rw [append_assoc, singleton_append, splitOn_append_cons_self]
      exact prefix_append _ _

variable {paths : Paths} {locks : Locks} {left right : Option (List JsString)}

theorem pathsOverlap_iff {a b : JsString} (ha : paths.canonical a = a) (hb : paths.canonical b = b) :
    pathsOverlap paths a b = true ↔ Nested paths a b := by
  unfold pathsOverlap Nested startsWith
  rw [ha, hb, splitOn_prefix_iff, splitOn_prefix_iff, Bool.or_eq_true, Bool.or_eq_true, decide_eq_true_eq,
    isPrefixOf_iff_prefix, isPrefixOf_iff_prefix, @eq_comm _ b a]
  tauto

/-- The targets are in the form that the comparison brings them to. -/
def Canonical (paths : Paths) (targetPaths : Option (List JsString)) : Prop :=
  ∀ path ∈ targetPaths.getD [], paths.canonical path = path

theorem locksConflict_iff (hleft : Canonical paths left) (hright : Canonical paths right) :
    locksConflict paths left right = true ↔ ¬ Apart paths left right := by
  unfold Apart
  cases left with
  | none => simp [locksConflict]
  | some as =>
    cases right with
    | none => simp [locksConflict]
    | some bs =>
      have hoverlap : ∀ a ∈ as, ∀ b ∈ bs, (pathsOverlap paths a b = true ↔ Nested paths a b) :=
        fun a ha b hb => pathsOverlap_iff (hleft a ha) (hright b hb)
      simp only [locksConflict, any_eq_true, Option.some.injEq, exists_and_left, exists_eq_left']
      push Not
      exact exists_congr fun a => and_congr_right fun ha => exists_congr fun b => and_congr_right fun hb =>
        hoverlap a ha b hb

/-- The holders of a repository are distinct executions. -/
def Locks.Distinct (locks : Locks) : Prop := ∀ e ∈ locks.locksByRepoPath, (OMap.keys e.2).Nodup

theorem Locks.Distinct.holders (h : locks.Distinct) (repoPath : JsString) : (locks.holders repoPath).keys.Nodup := by
  unfold Locks.holders
  cases hget : OMap.get locks.locksByRepoPath repoPath with
  | none => exact nodup_nil
  | some holders => exact h _ (OMap.mem_of_get hget)

theorem Locks.Distinct.perform (h : locks.Distinct) (op : LockOp) : (locks.perform paths op).Distinct := by
  cases op with
  | tryAcquire repoPath executionId mode targetPaths =>
    unfold Locks.perform Locks.tryAcquire
    dsimp only
    split
    · exact h
    split
    · exact h
    intro e he
    rcases OMap.mem_set he with rfl | he
    · exact OMap.nodup_keys_set (h.holders _) _ _
    · exact h e he
  | releaseByExecution executionId =>
    unfold Locks.perform Locks.releaseByExecution
    dsimp only
    split
    · exact h
    intro e he
    dsimp only at he
    split at he
    · exact h e (OMap.mem_of_mem_delete he).1
    rcases OMap.mem_set he with rfl | he
    · exact OMap.nodup_keys_delete (h.holders _) _
    · exact h e he
  | releaseAll =>
    intro e he
    cases he

/-- The held locks agree, and are over canonical targets. -/
structure Locks.Kept (paths : Paths) (locks : Locks) : Prop where
  sound : locks.Sound paths
  distinct : locks.Distinct
  canonical : ∀ id lock, OMap.get locks.lockByExecutionId id = some lock → Canonical paths lock.targetPaths

theorem Locks.kept_empty (paths : Paths) : Locks.Kept paths ⟨[], []⟩ := ⟨sound_empty, nofun, nofun⟩

variable (hidem : ∀ path, paths.canonical (paths.canonical path) = paths.canonical path)
include hidem

theorem canonical_wanted {repoPath : JsString} {executionId : ExecutionId} {mode : RepoWriteLockMode}
    {targetPaths : Option (List JsString)} :
    Canonical paths (wanted paths repoPath executionId mode targetPaths).targetPaths := by
  unfold wanted canonicalTargets Canonical
  dsimp only
  split
  · intro path hpath
    rw [Option.getD_some, mem_sortStrings, mem_dedup, mem_map] at hpath
    obtain ⟨given, -, rfl⟩ := hpath
    exact hidem given
  · simp

theorem Locks.Kept.perform (h : locks.Kept paths) (op : LockOp) : (locks.perform paths op).Kept paths := by
  cases op with
  | tryAcquire repoPath executionId mode targetPaths =>
    refine ⟨h.sound.tryAcquire .., h.distinct.perform _, fun id lock hlock => ?_⟩
    rcases Locks.get_tryAcquire hlock with hold | ⟨-, rfl⟩
    · exact h.canonical id lock hold
    · exact canonical_wanted hidem
  | releaseByExecution executionId =>
    refine ⟨h.sound.releaseByExecution executionId, h.distinct.perform _, fun id lock hlock => ?_⟩
    rw [Locks.perform, Locks.get_releaseByExecution] at hlock
    split at hlock
    · cases hlock
    · exact h.canonical id lock hlock
  | releaseAll => exact Locks.kept_empty paths

theorem Locks.Kept.run (ops : List LockOp) : (Locks.run paths ops).Kept paths := by
  induction ops using List.reverseRecOn with
  | nil => exact Locks.kept_empty paths
  | append_singleton ops op ih =>
    rw [Locks.run, foldl_append]
    exact ih.perform hidem op

theorem Locks.Kept.tryAcquire (h : locks.Kept paths) (repoPath : JsString) (executionId : ExecutionId)
    (mode : RepoWriteLockMode) (targetPaths : Option (List JsString)) :
    locks.Answered paths executionId (wanted paths repoPath executionId mode targetPaths)
      (locks.tryAcquire paths repoPath executionId mode targetPaths) := by
  have hlock : Canonical paths (wanted paths repoPath executionId mode targetPaths).targetPaths :=
    canonical_wanted hidem
  have hgroup := h.sound.grouped (wanted paths repoPath executionId mode targetPaths).repoPath
  unfold Locks.tryAcquire Locks.Answered Locks.Held
  dsimp only
  generalize wanted paths repoPath executionId mode targetPaths = lock at hlock hgroup ⊢
  -- the holders of the repository are the held locks of it
  have hconflict : ((locks.holders lock.repoPath).any fun holder =>
      locksConflict paths holder.2.targetPaths lock.targetPaths) = true ↔
      ∃ id held, OMap.get locks.lockByExecutionId id = some held ∧ held.repoPath = lock.repoPath ∧
        ¬ Apart paths held.targetPaths lock.targetPaths := by
    rw [any_eq_true]
    constructor
    · rintro ⟨e, he, hover⟩
      have hget := hgroup e.1
      rw [OMap.get_of_mem (h.distinct.holders _) he, eq_comm, Option.filter_eq_some_iff, decide_eq_true_eq] at hget
      exact ⟨e.1, e.2, hget.1, hget.2, (locksConflict_iff (h.canonical _ _ hget.1) hlock).1 hover⟩
    · rintro ⟨id, held, hget, hrepo, hover⟩
      have hholder := hgroup id
      rw [hget, Option.filter_some, if_pos (by simpa using hrepo)] at hholder
      exact ⟨_, OMap.mem_of_get hholder, (locksConflict_iff (h.canonical _ _ hget) hlock).2 hover⟩
  rw [← hconflict, OMap.has]
  split
  next hhas => simp [hhas]
  next hhas =>
    split
    next hover => simp [hhas, hover]
    next hover => simp [hhas, hover, OMap.get_set]

/-- The indexes describe the same locks, those of two executions in one repository are over files that are apart, and
a request of an execution without a lock is refused, with no effect, exactly when a held lock is not apart from it. -/
theorem write_locks_exclusive (ops : List LockOp) :
    let locks := Locks.run paths ops
    (∀ repoPath id lock, OMap.get (locks.holders repoPath) id = some lock ↔
      OMap.get locks.lockByExecutionId id = some lock ∧ lock.repoPath = repoPath) ∧
    (∀ a b lock lock', a ≠ b → OMap.get locks.lockByExecutionId a = some lock →
      OMap.get locks.lockByExecutionId b = some lock' → lock.repoPath = lock'.repoPath →
      Apart paths lock.targetPaths lock'.targetPaths) ∧
    ∀ repoPath executionId mode targetPaths,
      locks.Answered paths executionId (wanted paths repoPath executionId mode targetPaths)
        (locks.tryAcquire paths repoPath executionId mode targetPaths) := by
  have hkept := Locks.Kept.run hidem ops
  refine ⟨fun repoPath id lock => ?_, fun a b lock lock' hne ha hb hrepo => ?_, hkept.tryAcquire hidem⟩
  · rw [hkept.sound.grouped, Option.filter_eq_some_iff, decide_eq_true_eq]
  · have hfree := hkept.sound.compatible a b lock lock' hne ha hb hrepo
    rw [← Bool.not_eq_true, locksConflict_iff (hkept.canonical _ _ ha) (hkept.canonical _ _ hb), not_not] at hfree
    exact hfree

omit hidem

def plainPaths : Paths := { repoRoot := fun _ => js "/r", canonical := id, sep := 47 }

theorem write_locks_exclusive_plain :
    let locks := Locks.run plainPaths [.tryAcquire (js "/r") 1 .edit (some [js "/r/a"])]
    (locks.tryAcquire plainPaths (js "/r") 2 .edit (some [js "/r/a/b"])).1 = false := by
  refine ((@write_locks_exclusive plainPaths (fun _ => rfl) _).2.2 _ _ _ _).2.1.2 ?_
  refine ⟨fun h => Bool.false_ne_true h, 1, _, rfl, rfl, ?_⟩
  rintro ⟨as, bs, has, hbs, h⟩
  obtain rfl : [js "/r/a"] = as := Option.some.inj has
  obtain rfl : [js "/r/a/b"] = bs := Option.some.inj hbs
  exact h (js "/r/a") (by decide) (js "/r/a/b") (by decide) (Or.inl (by decide))

/-- An execution that holds a lock is told so when it asks for another file, which its lock does not cover. -/
theorem repeated_request_uncovered :
    let locks := Locks.run plainPaths [.tryAcquire (js "/r") 1 .edit (some [js "/r/a"])]
    (locks.tryAcquire plainPaths (js "/r") 1 .edit (some [js "/r/b"])).1 = true ∧
      (OMap.get (locks.tryAcquire plainPaths (js "/r") 1 .edit (some [js "/r/b"])).2.lockByExecutionId 1).map
        RepoWriteLock.targetPaths = some (some [js "/r/a"]) :=
  ⟨rfl, rfl⟩

end Wrenyard.Supervisor
