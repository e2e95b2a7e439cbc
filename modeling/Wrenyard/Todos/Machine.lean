import Wrenyard.Lib.Transition
import Wrenyard.Todos.Parsing
import Wrenyard.Todos.Service

/-!
# Instances that share a workspace

A world is the files, the index and the service instances of one workspace.  A step is one operation of one instance,
a new instance, or something from outside: a file removed, the files changed in any other way, the index changed.

A signature stands for the content it was reported with (`Stamps`): whoever changes a file or the index changes its
signature, and a signature does not come back with another content.  For the files of the service this is the
temporary file that is renamed, for the index the database's own writes.
-/

namespace Wrenyard.Todos

open Js Transition

structure Stamps where
  content : JsString → FileSignature → List UInt8
  rows : IndexFileSignature → OMap JsString TodoIndexRecord

def Stamps.SignsFiles (stamps : Stamps) (disk : Disk) : Prop :=
  ∀ entry ∈ disk, entry.2.bytes = stamps.content entry.1 entry.2.signature

def Stamps.SignsIndex (stamps : Stamps) (index : IndexFile) : Prop :=
  index.signature.db ≠ none → index.rows = stamps.rows index.signature

/-- The rows of a database: one for an id, and as the text columns give them back. -/
structure IndexFile.Valid (p : ServicePlatform) (index : IndexFile) : Prop where
  nodup : index.rows.keys.Nodup
  keyed : ∀ entry ∈ index.rows, entry.2.id = entry.1
  stored : ∀ entry ∈ index.rows, storedRecord p entry.2 = entry.2

structure World where
  disk : Disk
  index : IndexFile
  services : List WorkspaceTodoService

inductive Label where
  | operate (i : Nat) (h : Host) (op : Operation) (r : Except Failure Reply)
  | new (usesIndex : Bool)
  | remove (name : JsString)
  | files (disk : Disk)
  | index (index : IndexFile)

inductive Step (p : ServicePlatform) (stamps : Stamps) : World → Label → World → Prop where
  | operate {w : World} {i : Nat} {h : Host} {op : Operation} {r : Except Failure Reply}
      {service : WorkspaceTodoService} {after : Workspace} : w.services[i]? = some service →
      op.perform p h ⟨w.disk, w.index, service⟩ = (r, after) → stamps.SignsFiles after.disk →
      stamps.SignsIndex after.index →
      Step p stamps w (.operate i h op r) ⟨after.disk, after.index, w.services.set i after.service⟩
  | new (w : World) (usesIndex : Bool) :
      Step p stamps w (.new usesIndex) { w with services := w.services ++ [.new usesIndex] }
  | remove (w : World) (name : JsString) : Step p stamps w (.remove name) { w with disk := w.disk.delete name }
  | files (w : World) {disk : Disk} : disk.keys.Nodup → stamps.SignsFiles disk →
      Step p stamps w (.files disk) { w with disk }
  | index (w : World) {index : IndexFile} : index.Valid p → stamps.SignsIndex index →
      Step p stamps w (.index index) { w with index }

structure World.Starts (p : ServicePlatform) (stamps : Stamps) (w : World) : Prop where
  services : w.services = []
  nodup : w.disk.keys.Nodup
  files : stamps.SignsFiles w.disk
  index : w.index.Valid p
  rows : stamps.SignsIndex w.index

def parsedTodos (p : ServicePlatform) (disk : Disk) : List Todo :=
  sortTodos p ((todoFiles disk).filterMap fun entry => (parseFile p entry.1 entry.2.bytes).toOption)

/-- The files that do not parse, each tried from scratch. -/
def skippedFiles (p : ServicePlatform) (disk : Disk) : List SkippedTodoFile := scannedSkips p [] (todoFiles disk)

theorem endsWith_iff {s suffix : JsString} : endsWith s suffix = true ↔ suffix <:+ s := List.isSuffixOf_iff_suffix

theorem stem_fileName {id : JsString} (h : id ≠ []) : stem (fileName id) = id := by
  have hends : endsWith (fileName id) TODO_EXT = true := endsWith_iff.2 (List.suffix_append _ _)
  have hne : (fileName id != TODO_EXT) = true := by
    rw [bne_iff_ne]
    exact fun heq => h (List.append_left_eq_self.1 heq)
  unfold stem
  rw [hends, hne, Bool.and_self, if_pos rfl]
  unfold fileName
  have hlength : TODO_EXT.length = 3 := by decide
  rw [List.length_append, hlength, Nat.add_sub_cancel, List.take_left]

theorem ne_nil_of_idRe {id : JsString} (h : idRe id = true) : id ≠ [] := by
  rintro rfl
  cases h

theorem parseFile_ok {p : ServicePlatform} {name : JsString} {bytes : List UInt8} {todo : Todo}
    (hname : endsWith name TODO_EXT = true) (h : parseFile p name bytes = .ok todo) :
    name = fileName todo.id ∧ idRe todo.id = true := by
  obtain ⟨hid, hre⟩ := parseTodoFile_id h
  rw [hid]
  refine ⟨?_, hre⟩
  have hne : name ≠ TODO_EXT := by
    rintro rfl
    cases hre
  obtain ⟨front, rfl⟩ := endsWith_iff.1 hname
  have hfront : front ≠ [] := by
    rintro rfl
    exact hne rfl
  have hstem : stem (front ++ TODO_EXT) = front := stem_fileName hfront
  rw [hstem]
  rfl

section

open Stateful

variable {α : Type} {P : Workspace → Prop} {Q : α → Workspace → Prop} {E : Failure → Workspace → Prop}

theorem access_spec {fails : Bool} (h : ∀ w, P w → E .host w) : Holds P (access fails) (fun _ => P) E :=
  Holds.when (fun _ => Holds.fail h) fun _ _ hw => hw

theorem require_spec {r : Except TodoError α} (hok : ∀ a w, r = .ok a → P w → Q a w)
    (herror : ∀ e w, r = .error e → P w → E (.todo e) w) : Holds P (require r) Q E := by
  intro w hw
  cases r with
  | ok a => exact hok a w rfl hw
  | error e => exact herror e w rfl hw

theorem scanLocked_spec {p : ServicePlatform} {fails : Bool} {Q : List Todo → Workspace → Prop}
    (hok : ∀ w, P w → Q (scan p w.disk w.service).2 { w with service := (scan p w.disk w.service).1 })
    (hfails : ∀ w, P w → E .host w) : Holds P (scanLocked p fails) Q E := by
  refine Holds.bind (access_spec hfails) fun _ => Holds.get_bind fun w hw => ?_
  refine Holds.bind (Q := fun _ s => s = { w with service := (scan p w.disk w.service).1 }) (Holds.modify ?_) fun _ =>
    Holds.pure ?_
  · rintro _ rfl
    rfl
  · rintro _ rfl
    exact hok w hw

end

def CacheSound (p : ServicePlatform) (stamps : Stamps) (cache : OMap JsString CachedTodo) : Prop :=
  ∀ entry ∈ cache, parseFile p entry.1 (stamps.content entry.1 entry.2.signature) = .ok entry.2.todo

variable {p : ServicePlatform} {stamps : Stamps}

variable {cache : OMap JsString CachedTodo}

theorem scanFile_eq (hc : CacheSound p stamps cache) {name : JsString} {file : File}
    (hbytes : file.bytes = stamps.content name file.signature) :
    scanFile p cache name file = parseFile p name file.bytes := by
  unfold scanFile
  cases hget : cache.get name with
  | none => rfl
  | some cached =>
    simp only
    split
    · rename_i hsig
      have hparse := hc _ (OMap.mem_of_get hget)
      rw [hbytes, ← hsig, hparse]
    · rfl

variable {files : Disk}

theorem scanned_nil (hc : CacheSound p stamps cache) (hf : stamps.SignsFiles files) :
    scannedCache p cache files = scannedCache p [] files ∧ scannedSkips p cache files = scannedSkips p [] files := by
  constructor <;>
    refine List.filterMap_congr fun entry hentry => ?_ <;>
    rw [scanFile_eq hc (hf entry hentry)] <;>
    rfl

theorem Stamps.SignsFiles.todoFiles {disk : Disk} (h : stamps.SignsFiles disk) :
    stamps.SignsFiles (Todos.todoFiles disk) :=
  fun entry hentry => h entry (List.mem_of_mem_filter hentry)

theorem cacheSound_scanned (hf : stamps.SignsFiles files) :
    CacheSound p stamps (scannedCache p [] files) := by
  intro entry hentry
  obtain ⟨⟨name, file⟩, hmem, hsome⟩ := List.mem_filterMap.1 hentry
  have hparse : scanFile p [] name file = parseFile p name file.bytes := rfl
  rw [hparse] at hsome
  cases hfile : parseFile p name file.bytes <;> rw [hfile] at hsome
  case error e => cases hsome
  case ok todo =>
    cases hsome
    rw [← hf _ hmem]
    exact hfile

theorem map_scannedCache (files : Disk) : (scannedCache p [] files).map (·.2.todo) =
    files.filterMap fun entry => (parseFile p entry.1 entry.2.bytes).toOption := by
  unfold scannedCache
  rw [List.map_filterMap]
  refine List.filterMap_congr fun entry _ => ?_
  have hparse : scanFile p [] entry.1 entry.2 = parseFile p entry.1 entry.2.bytes := rfl
  rw [hparse]
  cases parseFile p entry.1 entry.2.bytes <;> rfl

/-- A scan is one that parses every file. -/
theorem scan_eq {disk : Disk} {service : WorkspaceTodoService} (hf : stamps.SignsFiles disk)
    (hc : CacheSound p stamps service.parseCache) :
    scan p disk service =
      ({ service with parseCache := scannedCache p [] (todoFiles disk), skippedFiles := skippedFiles p disk },
        parsedTodos p disk) := by
  unfold scan
  dsimp only
  have h := scanned_nil hc hf.todoFiles
  rw [h.1, h.2, map_scannedCache]
  rfl

end Wrenyard.Todos
