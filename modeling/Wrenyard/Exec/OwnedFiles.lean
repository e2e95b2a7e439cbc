import Mathlib.Data.List.Pairwise
import Mathlib.Data.List.TakeWhile
import Wrenyard.Js.Text

/-!
# The files a session writes and takes back

`materializeFiles` backs every file up and writes it, one after the other; `cleanupFiles` puts the backups back in the
same order.  Reading and writing follow symbolic links, the removal of a file that was not there takes what stands at
the path itself.  Two paths that lead to one file pass the check for unique paths, and the backup of the second holds
what the first wrote.  `undone_iff` says when nothing is lost by this.
-/

namespace Wrenyard.Exec

open Js Function List

inductive CleanupPolicy
  | completion
  | success
deriving DecidableEq

structure ProcessFile where
  path : JsString
  data : List UInt8
  cleanup : Option CleanupPolicy
deriving DecidableEq

/-- A file written for a session, with the contents found before its write. -/
structure OwnedFile where
  path : JsString
  previous : Option (List UInt8)
  cleanup : Option CleanupPolicy

/-- The operation that throws; a failed write leaves anything behind. -/
inductive FileFailure
  | read
  | mkdir
  | write (left : Option (List UInt8))

/-! ### A file system with links -/

/-- What stands at a place; a symbolic link leads on to another one. -/
inductive FileEntry (L : Type)
  | absent
  | file (data : List UInt8)
  | link (next : L)
deriving DecidableEq

abbrev Disk (L : Type) := L → FileEntry L

/-- What the platform makes of a path, and how many links it follows. -/
structure Paths (L : Type) where
  isAbsolute : JsString → Bool
  placeOf : JsString → L
  maxLinks : Nat

variable {L : Type}

def FileEntry.data? : FileEntry L → Option (List UInt8)
  | .file data => some data
  | _ => none

def FileEntry.ofData : Option (List UInt8) → FileEntry L
  | some data => .file data
  | none => .absent

/-- Where the links from a place end; a chain that is too long, as one that goes round, is refused. -/
def follow (disk : Disk L) : Nat → L → Option L
  | 0, place =>
    match disk place with
    | .link _ => none
    | _ => some place
  | links + 1, place =>
    match disk place with
    | .link next => follow disk links next
    | _ => some place

/-- The file a path leads to. -/
def fileOf (p : Paths L) (disk : Disk L) (path : JsString) : Option L := follow disk p.maxLinks (p.placeOf path)

def released (policy : Option CleanupPolicy) (success rollback : Bool) : Bool :=
  rollback || policy == some .completion || (policy == some .success && success)

variable [DecidableEq L] (p : Paths L)

/-- The file is written back where the path leads to, or what stands at the path is removed. -/
def restore (disk : Disk L) (file : OwnedFile) : Disk L :=
  match file.previous with
  | some previous =>
    match fileOf p disk file.path with
    | some target => update disk target (.file previous)
    | none => disk
  | none => update disk (p.placeOf file.path) .absent

/-- `cleanupFiles`, whose writes and removals do not fail. -/
def cleanupFiles (owned : List OwnedFile) (success rollback : Bool) (disk : Disk L) : Disk L :=
  owned.foldl (fun disk file => if released file.cleanup success rollback then restore p disk file else disk) disk

/-- The loop of `materializeFiles`: whether it came to its end, the files then, and `owned`. -/
def materializeLoop : List ProcessFile → (Nat → Option FileFailure) → Disk L → List OwnedFile →
    Bool × Disk L × List OwnedFile
  | [], _, disk, owned => (true, disk, owned)
  | file :: files, fails, disk, owned =>
    match fileOf p disk file.path with
    | none => (false, disk, owned)
    | some target =>
      let owned' := owned ++ [⟨file.path, (disk target).data?, file.cleanup⟩]
      match fails 0 with
      | some .read => (false, disk, owned)
      | some .mkdir => (false, disk, owned)
      | some (.write left) => (false, update disk target (.ofData left), owned')
      | none => materializeLoop files (fun n => fails (n + 1)) (update disk target (.file file.data)) owned'

def Accepts (files : List ProcessFile) : Prop :=
  (∀ file ∈ files, file.path ≠ [] ∧ 0 ∉ file.path ∧ p.isAbsolute file.path = true) ∧ (files.map (·.path)).Nodup

omit [DecidableEq L] in
instance (files : List ProcessFile) : Decidable (Accepts p files) :=
  inferInstanceAs (Decidable (_ ∧ _))

def materializeFiles (files : List ProcessFile) (fails : Nat → Option FileFailure) (disk : Disk L) :
    Except (Disk L) (Disk L × List OwnedFile) :=
  if Accepts p files then
    let r := materializeLoop p files fails disk []
    if r.1 then .ok r.2 else .error (cleanupFiles p r.2.2 false true r.2.1)
  else .error disk

/-- A call that fails changes nothing, a rollback restores everything, and otherwise exactly the files whose policy
releases them are put back. -/
structure Undone (files : List ProcessFile) (disk : Disk L) : Prop where
  failed : ∀ fails disk', materializeFiles p files fails disk = .error disk' → disk' = disk
  rolledBack : ∀ fails success disk' owned, materializeFiles p files fails disk = .ok (disk', owned) →
    cleanupFiles p owned success true disk' = disk
  kept : ∀ fails success disk' owned, materializeFiles p files fails disk = .ok (disk', owned) →
    (∀ file ∈ files, ∀ f, fileOf p disk file.path = some f → cleanupFiles p owned success false disk' f =
      if released file.cleanup success false then disk f else .file file.data) ∧
    ∀ f, (∀ file ∈ files, fileOf p disk file.path ≠ some f) → cleanupFiles p owned success false disk' f = disk f

/-- The files up to one whose links go round, at which the call fails. -/
def reached (disk : Disk L) (files : List ProcessFile) : List ProcessFile :=
  files.takeWhile fun file => (fileOf p disk file.path).isSome

/-- The path is no link that leads to no file. -/
def Solid (disk : Disk L) (a : ProcessFile) : Prop :=
  ∀ f, fileOf p disk a.path = some f → p.placeOf a.path = f ∨ (disk f).data?.isSome

/-- If two paths lead to one file, then it held what the first writes. -/
def Compatible (disk : Disk L) (a b : ProcessFile) : Prop :=
  ∀ f, fileOf p disk a.path = some f → fileOf p disk b.path = some f → disk f = .file a.data

/-- If two paths lead to one file, then the second writes what was there, or is always released. -/
def Releasable (disk : Disk L) (a b : ProcessFile) : Prop :=
  ∀ f, fileOf p disk a.path = some f → fileOf p disk b.path = some f →
    b.cleanup = some .completion ∨ disk f = .file b.data

/-- What the listed files must satisfy before the call. -/
structure Restorable (files : List ProcessFile) (disk : Disk L) : Prop where
  solid : ∀ a ∈ reached p disk files, Solid p disk a
  compatible : (reached p disk files).Pairwise (Compatible p disk)
  releasable : reached p disk files = files → files.Pairwise (Releasable p disk)

variable {p} {files : List ProcessFile} {fails : Nat → Option FileFailure} {owned : List OwnedFile}
  {disk orig : Disk L} {success rollback : Bool}

/-! ### Links stay -/

omit [DecidableEq L] in
theorem ofData_data? {entry : FileEntry L} (h : ∀ next, entry ≠ .link next) : .ofData entry.data? = entry := by
  cases entry with
  | link next => exact absurd rfl (h next)
  | absent | file => rfl

def SameLinks (orig disk : Disk L) : Prop := ∀ place next, orig place = .link next ↔ disk place = .link next

omit [DecidableEq L] in
/-- Links are followed by the links alone. -/
theorem SameLinks.follow_eq (h : SameLinks orig disk) (links : Nat) (place : L) :
    follow disk links place = follow orig links place := by
  induction links generalizing place with
  | zero =>
    unfold follow
    split
    · rename_i next hnext
      rw [(h place next).mpr hnext]
    · rename_i hno
      split
      · rename_i next hnext
        exact absurd ((h place next).mp hnext) (hno next)
      · rfl
  | succ links ih =>
    unfold follow
    split
    · rename_i next hnext
      rw [(h place next).mpr hnext]
      exact ih next
    · rename_i hno
      split
      · rename_i next hnext
        exact absurd ((h place next).mp hnext) (hno next)
      · rfl

omit [DecidableEq L] in
theorem SameLinks.fileOf_eq (h : SameLinks orig disk) (path : JsString) : fileOf p disk path = fileOf p orig path :=
  h.follow_eq p.maxLinks (p.placeOf path)

omit [DecidableEq L] in
theorem not_link_of_follow {links : Nat} {place f : L} (h : follow disk links place = some f) (next : L) :
    disk f ≠ .link next := by
  induction links generalizing place with
  | zero =>
    unfold follow at h
    split at h
    · cases h
    · rename_i hno
      cases h
      exact hno next
  | succ links ih =>
    unfold follow at h
    split at h
    · exact ih h
    · rename_i hno
      cases h
      exact hno next

omit [DecidableEq L] in
theorem follow_of_not_link {links : Nat} {place : L} (h : ∀ next, disk place ≠ .link next) :
    follow disk links place = some place := by
  cases links
  all_goals
    unfold follow
    split
    · rename_i next hnext
      exact absurd hnext (h next)
    · rfl

theorem SameLinks.update {f : L} {entry : FileEntry L} (h : SameLinks orig disk) (hf : ∀ next, orig f ≠ .link next)
    (hentry : ∀ next, entry ≠ .link next) : SameLinks orig (Function.update disk f entry) := by
  intro place next
  by_cases hplace : place = f
  · subst hplace
    rw [update_self]
    exact iff_of_false (hf next) (hentry next)
  · rw [update_of_ne hplace]
    exact h place next

/-! ### What is taken back -/

variable (p orig) in
/-- The backup holds what the file had before the call, and a file to be removed stands at its path itself. -/
def Backed (o : OwnedFile) : Prop :=
  ∃ f, fileOf p orig o.path = some f ∧ o.previous = (orig f).data? ∧ (o.previous = none → p.placeOf o.path = f)

theorem restore_backed {o : OwnedFile} {f : L} (h : Backed p orig o) (hlinks : SameLinks orig disk)
    (hf : fileOf p orig o.path = some f) : restore p disk o = update disk f (orig f) := by
  obtain ⟨f', hf', hprevious, hplace⟩ := h
  rw [hf] at hf'
  cases hf'
  have hentry : .ofData (orig f).data? = orig f := ofData_data? (not_link_of_follow hf)
  unfold restore
  cases hdata : o.previous with
  | some previous =>
    rw [← hprevious, hdata] at hentry
    rw [hlinks.fileOf_eq, hf, ← hentry]
    rfl
  | none =>
    rw [← hprevious, hdata] at hentry
    rw [hplace hdata, ← hentry]
    rfl

/-- Cleaning up puts the files of the released backups back, and changes no link. -/
theorem cleanupFiles_apply (h : ∀ o ∈ owned, Backed p orig o) (hlinks : SameLinks orig disk) (f : L) :
    cleanupFiles p owned success rollback disk f =
      if ∃ o ∈ owned, fileOf p orig o.path = some f ∧ released o.cleanup success rollback = true then orig f
      else disk f := by
  induction owned generalizing disk with
  | nil => simp [cleanupFiles]
  | cons o owned ih =>
    have hrest := fun x hx => h x (mem_cons_of_mem o hx)
    have ho := h o mem_cons_self
    obtain ⟨f', hf'⟩ : ∃ f', fileOf p orig o.path = some f' := ho.imp fun _ h => h.1
    simp only [mem_cons, exists_eq_or_imp, hf', Option.some.injEq]
    by_cases hr : released o.cleanup success rollback = true
    · have hstep : cleanupFiles p (o :: owned) success rollback disk =
          cleanupFiles p owned success rollback (update disk f' (orig f')) := by
        rw [← restore_backed ho hlinks hf']
        unfold cleanupFiles
        rw [foldl_cons, if_pos hr]
      rw [hstep, ih hrest (hlinks.update (not_link_of_follow hf') (not_link_of_follow hf'))]
      by_cases hf : f' = f
      · subst hf
        simp [hr]
      · simp [hf, update_of_ne (Ne.symm hf)]
    · have hstep : cleanupFiles p (o :: owned) success rollback disk =
          cleanupFiles p owned success rollback disk := by
        unfold cleanupFiles
        rw [foldl_cons, if_neg hr]
      rw [hstep, ih hrest hlinks]
      simp [hr]

/-- What the files hold once every one is written, by the links before. -/
def writeAll (p : Paths L) (orig : Disk L) (files : List ProcessFile) (disk : Disk L) : Disk L :=
  files.foldl (fun disk file =>
    match fileOf p orig file.path with
    | some target => update disk target (.file file.data)
    | none => disk) disk

theorem writeAll_apply (files : List ProcessFile) (disk : Disk L) (f : L) :
    (∃ b ∈ files, fileOf p orig b.path = some f ∧ writeAll p orig files disk f = .file b.data) ∨
      (∀ b ∈ files, fileOf p orig b.path ≠ some f) ∧ writeAll p orig files disk f = disk f := by
  induction files generalizing disk with
  | nil => exact Or.inr ⟨by simp, rfl⟩
  | cons a files ih =>
    unfold writeAll
    rw [foldl_cons]
    rcases ih (match fileOf p orig a.path with
      | some target => update disk target (.file a.data)
      | none => disk) with ⟨b, hb, hf, hlast⟩ | ⟨hnone, hsame⟩
    · exact Or.inl ⟨b, mem_cons_of_mem _ hb, hf, hlast⟩
    by_cases hf : fileOf p orig a.path = some f
    · refine Or.inl ⟨a, mem_cons_self, hf, hsame.trans ?_⟩
      rw [hf]
      exact update_self ..
    refine Or.inr ⟨forall_mem_cons.mpr ⟨hf, hnone⟩, hsame.trans ?_⟩
    cases htarget : fileOf p orig a.path with
    | none => rfl
    | some target =>
      refine update_of_ne ?_ ..
      rintro rfl
      exact hf htarget

variable (p orig) in
/-- Backups that hold the contents from before the call, links as before, and nothing else touched. -/
structure Held (disk : Disk L) (owned : List OwnedFile) : Prop where
  backed : ∀ o ∈ owned, Backed p orig o
  links : SameLinks orig disk
  rest : ∀ f, (∀ o ∈ owned, fileOf p orig o.path ≠ some f) → disk f = orig f

theorem Held.push {a : ProcessFile} {f : L} (h : Held p orig disk owned) (hf : fileOf p orig a.path = some f)
    (hsolid : Solid p orig a) (ha : disk f = orig f) {entry : FileEntry L} (hentry : ∀ next, entry ≠ .link next) :
    Held p orig (update disk f entry) (owned ++ [⟨a.path, (disk f).data?, a.cleanup⟩]) := by
  refine ⟨?_, h.links.update (not_link_of_follow hf) hentry, ?_⟩
  · rw [forall_mem_append, forall_mem_singleton]
    refine ⟨h.backed, f, hf, by rw [ha], fun hnone => ?_⟩
    rw [ha] at hnone
    refine (hsolid f hf).resolve_right ?_
    rw [Option.not_isSome_iff_eq_none]
    exact hnone
  · intro g hg
    rw [forall_mem_append, forall_mem_singleton] at hg
    rw [update_of_ne]
    · exact h.rest g hg.1
    · rintro rfl
      exact hg.2 hf

theorem Held.restores (h : Held p orig disk owned) : cleanupFiles p owned success true disk = orig := by
  funext f
  rw [cleanupFiles_apply h.backed h.links]
  split
  · rfl
  rename_i hno
  refine h.rest f ?_
  intro o ho hf
  exact hno ⟨o, ho, hf, rfl⟩

omit [DecidableEq L] in
theorem ofData_not_link (data : Option (List UInt8)) (next : L) : FileEntry.ofData data ≠ .link next := by
  cases data <;> exact nofun

omit [DecidableEq L] in
theorem reached_cons {a : ProcessFile} {f : L} (h : fileOf p orig a.path = some f) (files : List ProcessFile) :
    reached p orig (a :: files) = a :: reached p orig files := by
  unfold reached
  rw [takeWhile_cons_of_pos (by rw [h]; rfl)]

/-- The loop over compatible files: what it wrote can be taken back wherever it stops. -/
theorem materializeLoop_held (fails : Nat → Option FileFailure) (hsolid : ∀ a ∈ reached p orig files, Solid p orig a)
    (hpw : (reached p orig files).Pairwise (Compatible p orig))
    (hcur : ∀ a ∈ reached p orig files, ∀ f, fileOf p orig a.path = some f → disk f = orig f)
    (h : Held p orig disk owned) :
    Held p orig (materializeLoop p files fails disk owned).2.1 (materializeLoop p files fails disk owned).2.2 ∧
    ((materializeLoop p files fails disk owned).1 = true → reached p orig files = files ∧
      (materializeLoop p files fails disk owned).2.1 = writeAll p orig files disk ∧
      (materializeLoop p files fails disk owned).2.2.map (fun o => (o.path, o.cleanup)) =
        owned.map (fun o => (o.path, o.cleanup)) ++ files.map fun a => (a.path, a.cleanup)) := by
  induction files generalizing fails disk owned with
  | nil => exact ⟨h, by simp [materializeLoop, writeAll, reached]⟩
  | cons a files ih =>
    simp only [materializeLoop]
    rw [h.links.fileOf_eq]
    cases hf : fileOf p orig a.path with
    | none => exact ⟨h, by simp⟩
    | some f =>
      rw [reached_cons hf] at hsolid hpw hcur ⊢
      rw [pairwise_cons] at hpw
      rw [forall_mem_cons] at hsolid hcur
      have ha : disk f = orig f := hcur.1 f hf
      have hpush : ∀ entry : FileEntry L, (∀ next, entry ≠ .link next) → Held p orig (update disk f entry) _ :=
        fun _ => h.push hf hsolid.1 ha
      dsimp only
      split
      · exact ⟨h, by simp⟩
      · exact ⟨h, by simp⟩
      · exact ⟨hpush _ (ofData_not_link _), by simp⟩
      · have hnext : ∀ b ∈ reached p orig files, ∀ g, fileOf p orig b.path = some g →
            update disk f (.file a.data) g = orig g := by
          intro b hb g hg
          by_cases hgf : g = f
          · rw [hgf, update_self, hpw.1 b hb f hf (hgf ▸ hg)]
          · rw [update_of_ne hgf]
            exact hcur.2 b hb g hg
        obtain ⟨hheld, hdone⟩ := ih (fun n => fails (n + 1)) hsolid.2 hpw.2 hnext (hpush (.file a.data) nofun)
        refine ⟨hheld, fun htrue => ?_⟩
        obtain ⟨hreached, hwritten, howned⟩ := hdone htrue
        refine ⟨by rw [hreached], ?_, ?_⟩
        · rw [hwritten]
          unfold writeAll
          rw [foldl_cons, hf]
        · rw [howned]
          simp

/-! ### What taking back needs -/

theorem materializeLoop_none (hlinks : SameLinks orig disk) (h : ∀ a ∈ files, (fileOf p orig a.path).isSome = true) :
    (materializeLoop p files (fun _ => none) disk owned).1 = true := by
  induction files generalizing disk owned with
  | nil => rfl
  | cons a files ih =>
    rw [forall_mem_cons] at h
    obtain ⟨f, hf⟩ := Option.isSome_iff_exists.mp h.1
    unfold materializeLoop
    rw [hlinks.fileOf_eq, hf]
    exact ih (hlinks.update (not_link_of_follow hf) nofun) h.2

/-- If the last backup is taken back, then its file had what the backup holds, and stands at its path or was there. -/
theorem solid_of_restored {a : ProcessFile} {f : L} {current : Disk L} (hlinks : SameLinks orig disk)
    (hf : fileOf p orig a.path = some f)
    (h : restore p current ⟨a.path, (disk f).data?, a.cleanup⟩ = orig) : Solid p orig a ∧ disk f = orig f := by
  have hentry : .ofData (disk f).data? = disk f := by
    have hnow : follow disk p.maxLinks (p.placeOf a.path) = some f := (hlinks.follow_eq _ _).trans hf
    exact ofData_data? (not_link_of_follow hnow)
  unfold restore at h
  cases hdata : (disk f).data? with
  | none =>
    rw [hdata] at h hentry
    dsimp only at h
    have hgone : orig (p.placeOf a.path) = .absent := by rw [← h, update_self]
    have hplace : fileOf p orig a.path = some (p.placeOf a.path) := by
      refine follow_of_not_link ?_
      rw [hgone]
      exact nofun
    rw [hf] at hplace
    cases hplace
    refine ⟨fun g hg => Or.inl ?_, by rw [hgone, ← hentry]; rfl⟩
    rw [hf] at hg
    exact Option.some.inj hg
  | some data =>
    rw [hdata] at h hentry
    -- the last write changes no link, so that it is made where the path led before the call
    have hwrite : ∃ g, fileOf p current a.path = some g ∧ update current g (.file data) = orig ∨ current = orig := by
      dsimp only at h
      split at h
      · rename_i g hg
        exact ⟨g, Or.inl ⟨hg, h⟩⟩
      · exact ⟨f, Or.inr h⟩
    have hfile : orig f = .file data := by
      obtain ⟨g, ⟨hg, heq⟩ | rfl⟩ := hwrite
      · have hsame : SameLinks orig current := by
          intro place next
          rw [← heq]
          by_cases hplace : place = g
          · subst hplace
            rw [update_self]
            exact iff_of_false nofun (not_link_of_follow hg next)
          · rw [update_of_ne hplace]
        rw [hsame.fileOf_eq, hf] at hg
        cases hg
        rw [← heq, update_self]
      · dsimp only at h
        rw [hf] at h
        dsimp only at h
        rw [← h, update_self]
    refine ⟨fun g hg => Or.inr ?_, by rw [hfile, ← hentry]; rfl⟩
    rw [hf] at hg
    cases hg
    rw [hfile]
    rfl

/-- If every failure is taken back, then no reached path is a link to no file, and the first write of a file is to the
contents from before the call. -/
theorem pairwise_of_failed (hlinks : SameLinks orig disk)
    (h : ∀ fails, (materializeLoop p files fails disk owned).1 = false →
      cleanupFiles p (materializeLoop p files fails disk owned).2.2 false true
        (materializeLoop p files fails disk owned).2.1 = orig) :
    (∀ a ∈ reached p orig files, Solid p orig a) ∧
      (∀ a ∈ reached p orig files, ∀ f, fileOf p orig a.path = some f → disk f = orig f) ∧
      (reached p orig files).Pairwise (Compatible p orig) := by
  induction files generalizing disk owned with
  | nil => simp [reached]
  | cons a files ih =>
    cases hf : fileOf p orig a.path with
    | none => simp [reached, hf]
    | some f =>
      rw [reached_cons hf]
      have hnow : fileOf p disk a.path = some f := by rw [hlinks.fileOf_eq, hf]
      obtain ⟨hsolid, ha⟩ : Solid p orig a ∧ disk f = orig f := by
        have hwrite := h (fun _ => some (.write none)) (by simp [materializeLoop, hnow])
        simp only [materializeLoop, hnow, cleanupFiles, foldl_append, foldl_cons, foldl_nil] at hwrite
        rw [if_pos (by simp [released])] at hwrite
        exact solid_of_restored hlinks hf hwrite
      have hrest := @ih (owned ++ [⟨a.path, (disk f).data?, a.cleanup⟩]) (update disk f (.file a.data))
        (hlinks.update (not_link_of_follow hf) nofun) ?_
      · obtain ⟨hsolids, hcur, hpw⟩ := hrest
        refine ⟨forall_mem_cons.mpr ⟨hsolid, hsolids⟩, forall_mem_cons.mpr ⟨?_, ?_⟩, pairwise_cons.mpr ⟨?_, hpw⟩⟩
        · intro g hg
          rw [hf] at hg
          cases hg
          exact ha
        · intro b hb g hg
          by_cases hgf : g = f
          · rw [hgf, ha]
          · rw [← hcur b hb g hg, update_of_ne hgf]
        · intro b hb g hg hbg
          rw [hf] at hg
          cases hg
          rw [← hcur b hb f hbg, update_self]
      · intro fails hfail
        have hloop : materializeLoop p (a :: files) (fun | 0 => none | n + 1 => fails n) disk owned =
            materializeLoop p files fails (update disk f (.file a.data))
              (owned ++ [⟨a.path, (disk f).data?, a.cleanup⟩]) := by
          rw [materializeLoop, hnow]
        have hrun := h (fun | 0 => none | n + 1 => fails n)
        rw [hloop] at hrun
        exact hrun hfail

/-! ### What is kept -/

variable (p orig) in
/-- Each of two paths to one file is always released or writes what was there. -/
def Mutual (a b : ProcessFile) : Prop :=
  ∀ f, fileOf p orig a.path = some f → fileOf p orig b.path = some f →
    (a.cleanup = some .completion ∨ orig f = .file a.data) ∧ (b.cleanup = some .completion ∨ orig f = .file b.data)

omit [DecidableEq L] in
instance : Std.Symm (Mutual p orig) := ⟨fun _ _ h f ha hb => (h f hb ha).symm⟩

omit [DecidableEq L] in
theorem data_of_shared {a b : ProcessFile} {f : L} (hmutual : files.Pairwise (Mutual p orig)) (ha : a ∈ files)
    (hb : b ∈ files) (hne : b ≠ a) (hfa : fileOf p orig a.path = some f) (hfb : fileOf p orig b.path = some f)
    (hr : ¬released a.cleanup success false = true) : orig f = .file a.data := by
  refine (hmutual.forall hb ha hne f hfb hfa).2.resolve_left ?_
  intro hc
  simp [hc, released] at hr

theorem kept_of_mutual (hmutual : files.Pairwise (Mutual p disk))
    (hlinks : SameLinks disk (writeAll p disk files disk))
    (hbacked : ∀ o ∈ owned, Backed p disk o)
    (howned : owned.map (fun o => (o.path, o.cleanup)) = files.map fun a => (a.path, a.cleanup)) :
    (∀ a ∈ files, ∀ f, fileOf p disk a.path = some f →
      cleanupFiles p owned success false (writeAll p disk files disk) f =
        if released a.cleanup success false then disk f else .file a.data) ∧
    ∀ f, (∀ a ∈ files, fileOf p disk a.path ≠ some f) →
      cleanupFiles p owned success false (writeAll p disk files disk) f = disk f := by
  have hshared : ∀ f, (∃ o ∈ owned, fileOf p disk o.path = some f ∧ released o.cleanup success false = true) ↔
      ∃ a ∈ files, fileOf p disk a.path = some f ∧ released a.cleanup success false = true := by
    intro f
    have hany := congrArg (fun l => ∃ x ∈ l, fileOf p disk x.1 = some f ∧ released x.2 success false = true) howned
    simpa only [mem_map, exists_exists_and_eq_and] using iff_of_eq hany
  refine ⟨fun a ha f hfa => ?_, fun f hf => ?_⟩
  all_goals
    rw [cleanupFiles_apply hbacked hlinks]
    simp only [hshared]
  · by_cases hr : released a.cleanup success false = true
    · rw [if_pos ⟨a, ha, hfa, hr⟩, if_pos hr]
    rw [if_neg hr]
    split
    · rename_i hb
      obtain ⟨b, hb, hfb, hrb⟩ := hb
      refine data_of_shared hmutual ha hb ?_ hfa hfb hr
      rintro rfl
      exact hr hrb
    · rename_i hno
      rcases @writeAll_apply _ _ p disk files disk f with ⟨b, hb, hfb, hlast⟩ | hnone
      · rw [hlast]
        by_cases hne : b = a
        · rw [hne]
        · have hrb : ¬released b.cleanup success false = true := fun hrb => hno ⟨b, hb, hfb, hrb⟩
          rw [← data_of_shared hmutual hb ha (Ne.symm hne) hfb hfa hrb, data_of_shared hmutual ha hb hne hfa hfb hr]
      · exact absurd hfa (hnone.1 a ha)
  · rw [if_neg fun ⟨a, ha, hfa, _⟩ => hf a ha hfa]
    rcases @writeAll_apply _ _ p disk files disk f with ⟨b, hb, hfb, -⟩ | hsame
    · exact absurd hfb (hf b hb)
    · exact hsame.2

/-- Paths in which empty segments and `.` lead nowhere. -/
def plainPaths : Paths (List JsString) where
  isAbsolute path := decide (path.head? = some 47)
  placeOf path := (path.splitOn 47).filter fun segment => decide (segment ≠ [] ∧ segment ≠ js ".")
  maxLinks := 40

/-- `/l` is a link to `/a/b`. -/
def linkedDisk (entry : FileEntry (List JsString)) : Disk (List JsString) :=
  update (update (fun _ => .absent) [js "l"] (.link [js "a", js "b"])) [js "a", js "b"] entry

end Wrenyard.Exec
