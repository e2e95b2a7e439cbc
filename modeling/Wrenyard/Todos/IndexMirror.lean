import Wrenyard.Todos.Machine

/-!
# The index mirrors the files

A reconcile brings the rows of the database to the records of the todos: against its own snapshot while the signature
of the database is the one it left, else against the rows read again.  Either baseline mirrors the rows
(`baseline_spec`), so that deleting and upserting where it differs from the records leaves rows that mirror the
records (`mirrors_changes`).
-/

namespace Wrenyard.Todos

open Js Stateful List

variable {p : ServicePlatform} {stamps : Stamps}

def Mirrors (p : ServicePlatform) (rows records : OMap JsString TodoIndexRecord) : Prop :=
  ∀ id, rows.get id = (records.get id).map (storedRecord p)

def IndexSound (p : ServicePlatform) (stamps : Stamps) (service : WorkspaceTodoService) : Prop :=
  ∀ snapshot signature, service.indexSnapshot = some snapshot → service.indexSignature = some signature →
    signature.db ≠ none → Mirrors p (stamps.rows signature) snapshot

def ServicePlatform.Stores (p : ServicePlatform) : Prop := ∀ s, p.columnText (p.columnText s) = p.columnText s

theorem storedRecord_idem (hp : p.Stores) (r : TodoIndexRecord) :
    storedRecord p (storedRecord p r) = storedRecord p r := by
  have hproject : (r.project.map p.columnText).map p.columnText = r.project.map p.columnText := by
    cases r.project with
    | none => rfl
    | some project => exact congrArg some (hp project)
  simp only [storedRecord, hp r.title, hproject]

theorem sameIndexRecord_iff {a b : TodoIndexRecord} : sameIndexRecord a b = true ↔ a = b := by
  cases a
  cases b
  simp only [sameIndexRecord, Bool.and_eq_true, decide_eq_true_eq, TodoIndexRecord.mk.injEq]
  tauto

structure Keyed (rows : OMap JsString TodoIndexRecord) : Prop where
  nodup : rows.keys.Nodup
  keyed : ∀ entry ∈ rows, entry.2.id = entry.1

theorem Keyed.nil : Keyed [] := ⟨List.nodup_nil, fun entry h => by cases h⟩

variable {rows : OMap JsString TodoIndexRecord}

theorem Keyed.set (h : Keyed rows) (r : TodoIndexRecord) : Keyed (rows.set r.id r) := by
  refine ⟨OMap.nodup_keys_set h.nodup r.id r, fun entry hentry => ?_⟩
  rcases OMap.mem_set hentry with rfl | hmem
  · rfl
  · exact h.keyed _ hmem

theorem keyed_foldl (records : List TodoIndexRecord) (h : Keyed rows) :
    Keyed (records.foldl (fun rows record => rows.set record.id record) rows) := by
  induction records generalizing rows with
  | nil => exact h
  | cons r records ih => exact ih (h.set r)

theorem keyed_recordMap (records : List TodoIndexRecord) : Keyed (recordMap records) := keyed_foldl records Keyed.nil

theorem get_recordMap {records : List TodoIndexRecord} (h : Keyed rows) (hp : records.Perm (rows.map Prod.snd))
    (id : JsString) : (recordMap records).get id = rows.get id := by
  have hpairs : (records.map fun r => (r.id, r)).Perm rows := by
    refine (hp.map _).trans ?_
    rw [map_map]
    refine List.Perm.of_eq ?_
    conv_rhs => rw [← map_id rows]
    refine map_congr_left fun entry hentry => ?_
    exact Prod.ext (h.keyed entry hentry) rfl
  have hnodup : (OMap.keys (records.map fun r => (r.id, r))).Nodup := (hpairs.map Prod.fst).nodup_iff.2 h.nodup
  have hfold : recordMap records = records.map fun r => (r.id, r) := by
    have hset : (records.map fun r => (r.id, r)).foldl (fun acc e => OMap.set acc e.1 e.2) [] =
        [] ++ records.map fun r => (r.id, r) := OMap.foldl_set hnodup
    rw [foldl_map] at hset
    exact hset
  rw [hfold]
  exact OMap.get_perm hpairs hnodup id

theorem get_removes (p : ServicePlatform) (ids : List JsString) (rows : OMap JsString TodoIndexRecord)
    (id : JsString) :
    ((ids.map Statement.remove).foldl (Statement.run p) rows).get id = if id ∈ ids then none else rows.get id := by
  induction ids generalizing rows with
  | nil => rfl
  | cons removed ids ih =>
    rw [map_cons, foldl_cons, ih]
    show (if id ∈ ids then none else OMap.get (rows.delete removed) id) = _
    rw [OMap.get_delete]
    by_cases hmem : id ∈ ids
    · simp [hmem]
    · by_cases heq : removed = id
      · simp [hmem, heq]
      · simp [hmem, heq, Ne.symm heq]

theorem get_upserts (p : ServicePlatform) {records : OMap JsString TodoIndexRecord} (h : Keyed records)
    (rows : OMap JsString TodoIndexRecord) (id : JsString) :
    ((records.map fun entry => Statement.upsert entry.2).foldl (Statement.run p) rows).get id =
      ((records.get id).map (storedRecord p)).or (rows.get id) := by
  induction records generalizing rows with
  | nil => rfl
  | cons entry records ih =>
    have hrest : Keyed records := by
      refine ⟨?_, fun e he => h.keyed e (mem_cons_of_mem _ he)⟩
      have hnodup := h.nodup
      rw [OMap.keys, map_cons, nodup_cons] at hnodup
      exact hnodup.2
    have hfresh : entry.1 ∉ OMap.keys records := by
      have hnodup := h.nodup
      rw [OMap.keys, map_cons, nodup_cons] at hnodup
      exact hnodup.1
    have hid : entry.2.id = entry.1 := h.keyed entry mem_cons_self
    rw [map_cons, foldl_cons, ih hrest]
    show ((OMap.get records id).map (storedRecord p)).or ((rows.set entry.2.id (storedRecord p entry.2)).get id) = _
    rw [OMap.get_set, OMap.get_cons, hid]
    by_cases heq : entry.1 = id
    · have hnone : OMap.get records id = none := OMap.get_eq_none_iff.2 (heq ▸ hfresh)
      rw [if_pos heq, if_pos heq, hnone]
      rfl
    · rw [if_neg heq, if_neg heq]

theorem mirrors_changes {current next : OMap JsString TodoIndexRecord} (hm : Mirrors p rows current)
    (hn : Keyed next) : Mirrors p ((indexChanges current next).foldl (Statement.run p) rows) next := by
  intro id
  have hchanged : Keyed (next.filter fun entry => !(current.get entry.1).any (sameIndexRecord · entry.2)) :=
    ⟨hn.nodup.sublist (filter_sublist.map Prod.fst), fun e he => hn.keyed e (mem_of_mem_filter he)⟩
  unfold indexChanges
  rw [foldl_append, get_upserts p hchanged, get_removes, OMap.get_filter hn.nodup, hm id]
  cases hnext : next.get id with
  | none =>
    have hhas : next.has id = false := by simp [OMap.has, hnext]
    by_cases hcurrent : id ∈ current.keys
    · simp [hcurrent, hhas]
    · have hnone : current.get id = none := OMap.get_eq_none_iff.2 hcurrent
      simp [hcurrent, hnone]
  | some r =>
    have hhas : next.has id = true := by simp [OMap.has, hnext]
    have hkept : id ∉ current.keys.filter fun id => !next.has id := by simp [hhas]
    rw [if_neg hkept, Option.filter_some]
    by_cases hsame : current.get id = some r
    · have hrefl : sameIndexRecord r r = true := sameIndexRecord_iff.2 rfl
      simp [hsame, hrefl]
    have hdiff : (current.get id).any (sameIndexRecord · r) = false := by
      cases hget : current.get id with
      | none => rfl
      | some r' =>
        have hne : ¬sameIndexRecord r' r = true :=
            fun h => hsame (hget.trans (congrArg some (sameIndexRecord_iff.1 h)))
        simpa using hne
    simp [hdiff]

theorem Statement.valid (hp : p.Stores) (hk : Keyed rows) (hs : ∀ entry ∈ rows, storedRecord p entry.2 = entry.2)
    (statements : List Statement) : Keyed (statements.foldl (Statement.run p) rows) ∧
    ∀ entry ∈ statements.foldl (Statement.run p) rows, storedRecord p entry.2 = entry.2 := by
  induction statements generalizing rows with
  | nil => exact ⟨hk, hs⟩
  | cons statement statements ih =>
    refine ih ?_ ?_
    · cases statement with
      | remove id =>
        exact ⟨OMap.nodup_keys_delete hk.nodup id, fun e he => hk.keyed e (OMap.mem_of_mem_delete he).1⟩
      | upsert row => exact hk.set (storedRecord p row)
    · intro entry hentry
      cases statement with
      | remove id => exact hs entry (OMap.mem_of_mem_delete hentry).1
      | upsert row =>
        rcases OMap.mem_set hentry with rfl | hmem
        · exact storedRecord_idem hp row
        · exact hs entry hmem

/-! ### Reconciling -/

/-- What a reconcile starts from. -/
structure Ready (p : ServicePlatform) (stamps : Stamps) (w : Workspace) : Prop where
  valid : w.index.Valid p
  signs : stamps.SignsIndex w.index
  sound : IndexSound p stamps w.service

/-- What it leaves, whether or not it fails. -/
structure Left (p : ServicePlatform) (stamps : Stamps) (w : Workspace) : Prop where
  valid : w.index.Valid p
  sound : stamps.SignsIndex w.index → IndexSound p stamps w.service

/-- What it leaves when it does not fail: the index holds the records of the todos, and the snapshot is trusted. -/
structure Reconciled (p : ServicePlatform) (todos : List Todo) (w : Workspace) : Prop where
  rows : Mirrors p w.index.rows (indexRows todos)
  db : w.index.signature.db ≠ none
  snapshot : w.service.indexSnapshot = some (indexRows todos)
  signature : w.service.indexSignature = some w.index.signature

structure SameFiles (w w' : Workspace) : Prop where
  disk : w'.disk = w.disk
  cache : w'.service.parseCache = w.service.parseCache
  skipped : w'.service.skippedFiles = w.service.skippedFiles
  usesIndex : w'.service.usesIndex = w.service.usesIndex

theorem SameFiles.refl (w : Workspace) : SameFiles w w := ⟨rfl, rfl, rfl, rfl⟩

theorem SameFiles.of_eq {w w' : Workspace} (hdisk : w'.disk = w.disk) (hservice : w'.service = w.service) :
    SameFiles w w' := by
  refine ⟨hdisk, ?_, ?_, ?_⟩ <;> rw [hservice]

theorem Ready.left {w : Workspace} (h : Ready p stamps w) : Left p stamps w := ⟨h.valid, fun _ => h.sound⟩

variable {index : IndexFile}

theorem IndexFile.Valid.keyed_rows (h : index.Valid p) : Keyed index.rows := ⟨h.nodup, h.keyed⟩

theorem openIndex_of_db (h : index.signature.db ≠ none) : openIndex index = index.rows := if_neg h

theorem valid_openIndex (h : index.Valid p) :
    Keyed (openIndex index) ∧ ∀ entry ∈ openIndex index, storedRecord p entry.2 = entry.2 := by
  unfold openIndex
  split
  · exact ⟨Keyed.nil, fun entry hentry => by cases hentry⟩
  · exact ⟨h.keyed_rows, h.stored⟩

theorem mirrors_read (h : index.Valid p) :
    Mirrors p (openIndex index) (recordMap (readIndexRows (openIndex index))) := by
  intro id
  obtain ⟨hkeyed, hstored⟩ := valid_openIndex h
  have hperm : (readIndexRows (openIndex index)).Perm ((openIndex index).map Prod.snd) :=
    (perm_insertionSort _ (openIndex index)).map Prod.snd
  rw [get_recordMap hkeyed hperm]
  cases hget : (openIndex index).get id with
  | none => rfl
  | some r =>
    have hr := hstored _ (OMap.mem_of_get hget)
    exact congrArg some hr.symm

variable {w₀ : Workspace} {h : IndexHost}

theorem baseline_spec (h₀ : Ready p stamps w₀) :
    Holds (· = w₀) (baseline h)
      (fun current w => w.disk = w₀.disk ∧ w.service = w₀.service ∧ w.index.Valid p ∧ w.index.signature.db ≠ none ∧
        Mirrors p w.index.rows current)
      (fun e w => e = .host ∧ w = w₀) := by
  refine Holds.get_bind ?_
  rintro w rfl
  cases htrusts : trustsSnapshot w with
  | true =>
    refine Holds.pure ?_
    rintro w rfl
    unfold trustsSnapshot at htrusts
    simp only [Bool.and_eq_true, Option.isSome_iff_exists, beq_iff_eq] at htrusts
    obtain ⟨⟨⟨snapshot, hsnapshot⟩, ⟨db, hdb⟩⟩, hsignature⟩ := htrusts
    have hne : w.index.signature.db ≠ none := by
      rw [hdb]
      exact Option.some_ne_none db
    refine ⟨rfl, rfl, h₀.valid, hne, ?_⟩
    rw [hsnapshot, Option.getD_some, h₀.signs hne]
    exact h₀.sound snapshot _ hsnapshot hsignature hne
  | false =>
    refine Holds.bind (access_spec ?_) fun _ => Holds.get_bind ?_
    · rintro w rfl
      exact ⟨rfl, rfl⟩
    rintro w rfl
    refine Holds.bind (Holds.modify (Q := fun _ s => s =
      { w with index := ⟨openIndex w.index, ⟨some h.readDb, h.readWal⟩⟩ }) ?_) fun _ => Holds.pure ?_
    · rintro w rfl
      rfl
    · rintro _ rfl
      obtain ⟨hkeyed, hstored⟩ := valid_openIndex h₀.valid
      exact ⟨rfl, rfl, ⟨hkeyed.nodup, hkeyed.keyed, hstored⟩, Option.some_ne_none _, mirrors_read h₀.valid⟩

theorem writeIndexChanges_spec (hp : p.Stores) {statements : List Statement}
    (hvalid : w₀.index.Valid p) (hdb : w₀.index.signature.db ≠ none) :
    Holds (· = w₀) (Stateful.onFailure (writeIndexChanges p h statements) distrustIndex)
      (fun _ w => w.disk = w₀.disk ∧ w.service = w₀.service ∧ w.index.Valid p ∧ w.index.signature.db ≠ none ∧
        w.index.rows = statements.foldl (Statement.run p) w₀.index.rows)
      (fun e w => e = .host ∧ SameFiles w₀ w ∧ w.index.Valid p ∧ w.service.indexSnapshot = none) := by
  have hopen : openIndex w₀.index = w₀.index.rows := openIndex_of_db hdb
  refine Holds.onFailure (F := fun e w => e = .host ∧ w.disk = w₀.disk ∧ w.service = w₀.service ∧ w.index.Valid p)
    ?_ ?_
  · have hrows := Statement.valid hp hvalid.keyed_rows hvalid.stored (appliedStatements h statements)
    refine Holds.bind (Holds.modify (Q := fun _ s => s = { w₀ with index :=
      ⟨(appliedStatements h statements).foldl (Statement.run p) w₀.index.rows,
        ⟨some h.writtenDb, h.writtenWal⟩⟩ }) ?_) fun _ => ?_
    · rintro w rfl
      rw [hopen]
    · refine Holds.when (fun _ => Holds.fail ?_) fun hok => ?_
      · rintro _ rfl
        exact ⟨rfl, rfl, rfl, ⟨hrows.1.nodup, hrows.1.keyed, hrows.2⟩⟩
      · rintro _ rfl
        have hall : appliedStatements h statements = statements := by
          unfold appliedStatements
          cases hfails : h.writeFailsAt with
          | none => rfl
          | some batches =>
            rw [hfails] at hok
            exact absurd rfl hok
        exact ⟨rfl, rfl, ⟨hrows.1.nodup, hrows.1.keyed, hrows.2⟩, Option.some_ne_none _, by rw [hall]⟩
  · rintro e w ⟨rfl, hdisk, hservice, hindex⟩
    have hsame : SameFiles w₀ w := .of_eq hdisk hservice
    exact ⟨rfl, ⟨hsame.disk, hsame.cache, hsame.skipped, hsame.usesIndex⟩, hindex, rfl⟩

theorem reconcile_spec (hp : p.Stores) {todos : List Todo} (h₀ : Ready p stamps w₀) :
    Holds (· = w₀) (reconcileIndexLocked p h todos)
      (fun _ w => SameFiles w₀ w ∧ Left p stamps w ∧ (w₀.service.usesIndex = true → Reconciled p todos w))
      (fun e w => e = .host ∧ SameFiles w₀ w ∧ Left p stamps w) := by
  refine Holds.get_bind ?_
  rintro w rfl
  cases huses : w.service.usesIndex with
  | false =>
    refine Holds.pure ?_
    rintro w rfl
    exact ⟨SameFiles.refl w, h₀.left, fun h => by cases h⟩
  | true =>
    refine Holds.bind ((baseline_spec h₀).conseq (fun _ h => h) (fun _ _ h => h) ?_) fun current => ?_
    · rintro e w ⟨rfl, rfl⟩
      exact ⟨rfl, SameFiles.refl w, h₀.left⟩
    refine Holds.bind (Q := fun _ s => s.disk = w.disk ∧ s.service = w.service ∧ s.index.Valid p ∧
      s.index.signature.db ≠ none ∧ Mirrors p s.index.rows (indexRows todos)) ?_ fun _ => Holds.modify ?_
    · rintro s ⟨hdisk, hservice, hvalid, hdb, hmirrors⟩
      have hnext := mirrors_changes hmirrors (keyed_recordMap (todos.map toIndexRecord))
      refine Holds.when (P := (· = s)) (fun _ => ?_) (fun hnone => ?_) s rfl
      · refine (writeIndexChanges_spec hp hvalid hdb).conseq (fun _ h => h) ?_ ?_
        · rintro _ s' ⟨hdisk', hservice', hvalid', hdb', hrows⟩
          refine ⟨hdisk'.trans hdisk, hservice'.trans hservice, hvalid', hdb', ?_⟩
          rw [hrows]
          exact hnext
        · rintro e s' ⟨rfl, hsame, hvalid', hsnapshot⟩
          refine ⟨rfl, ⟨hsame.disk.trans hdisk, ?_, ?_, ?_⟩, hvalid', fun _ => ?_⟩
          · rw [hsame.cache, hservice]
          · rw [hsame.skipped, hservice]
          · rw [hsame.usesIndex, hservice]
          · intro snapshot signature hsome
            rw [hsnapshot] at hsome
            cases hsome
      · rintro s' rfl
        rw [not_not] at hnone
        unfold indexRows at hnone
        rw [hnone] at hnext
        exact ⟨hdisk, hservice, hvalid, hdb, hnext⟩
    · rintro s ⟨hdisk, hservice, hvalid, hdb, hmirrors⟩
      have hsame : SameFiles w s := .of_eq hdisk hservice
      refine ⟨⟨hsame.disk, hsame.cache, hsame.skipped, hsame.usesIndex⟩, ⟨hvalid, ?_⟩,
        fun _ => ⟨hmirrors, hdb, rfl, rfl⟩⟩
      · intro hsigns snapshot signature hsnapshot hsignature hne
        cases hsnapshot
        cases hsignature
        rw [← hsigns hne]
        exact hmirrors

end Wrenyard.Todos
