import Wrenyard.Scheduler.Machine
import Wrenyard.Scheduler.RunTimes
import Wrenyard.Scheduler.Store

/-!
# Routines of other workspaces

All workspaces share one store.  Every operation of a scheduler keeps the routines of the other workspaces, in memory
and in the file, and reports none of them, as long as no file is adopted under the id of such a routine of the same
bot, and no such routine belongs to a bot whose routines are counted or whose last runs are read
(`foreign_untouched`).
-/

namespace Wrenyard.Scheduler

open Js Transition List

variable {p : Platform} {workspaceRoot : JsString} {s : State} {F : List (RoutineRecord × JsString)}

variable {id : JsString} {r : Nat} {associations : OMap JsString JsString}

namespace State

def foreign (workspaceRoot : JsString) (s : State) : List (RoutineRecord × JsString) :=
  foreignOf workspaceRoot (s.records, s.routineWorkspaces)

theorem foreign_eq (s : State) : s.foreign workspaceRoot = s.routines.filterMap fun r =>
    (otherWorkspace workspaceRoot s.routineWorkspaces (s.objects r).id).map (s.objects r, ·) := by
  unfold foreign foreignOf records
  rw [filterMap_map]
  rfl

def Own (workspaceRoot : JsString) (s : State) (id : JsString) : Prop :=
  otherWorkspace workspaceRoot s.routineWorkspaces id = none

theorem own_iff : s.Own workspaceRoot id ↔ s.recordWorkspace workspaceRoot id = workspaceRoot := by
  unfold Own otherWorkspace recordWorkspace
  cases s.routineWorkspaces.get id with
  | none => simp
  | some w =>
    by_cases hw : w = workspaceRoot
    all_goals simp [hw, Option.filter]

/-- An own id is that of no foreign routine. -/
theorem Own.ne (h : s.Own workspaceRoot id) : ∀ e ∈ s.foreign workspaceRoot, e.1.id ≠ id := by
  rintro e he rfl
  have hother := (mem_foreignOf.1 he).2
  have hnone : otherWorkspace workspaceRoot s.routineWorkspaces e.1.id = none := h
  rw [hnone] at hother
  cases hother

theorem own_of_not_mem (hr : r ∈ s.routines) (h : ∀ w, (s.objects r, w) ∉ s.foreign workspaceRoot) :
    s.Own workspaceRoot (s.objects r).id := by
  cases hother : otherWorkspace workspaceRoot s.routineWorkspaces (s.objects r).id with
  | none => exact hother
  | some w =>
    exact absurd (mem_foreignOf.2 ⟨mem_map.2 ⟨r, hr, rfl⟩, hother⟩) (h w)

theorem foreign_modify {f : RoutineRecord → RoutineRecord} (hown : s.Own workspaceRoot (s.objects r).id)
    (hid : (f (s.objects r)).id = (s.objects r).id) :
    (s.modify r f).foreign workspaceRoot = s.foreign workspaceRoot := by
  have hnone : otherWorkspace workspaceRoot s.routineWorkspaces (s.objects r).id = none := hown
  rw [foreign_eq, foreign_eq]
  refine filterMap_congr fun r' _ => ?_
  by_cases hr : r' = r
  · subst hr
    simp [modify, hid, hnone]
  · simp [modify, Function.update_of_ne hr]

theorem foreign_push {record : RoutineRecord} (hbound : ∀ r ∈ s.routines, r < s.fresh)
    (hnew : ∀ r ∈ s.routines, (s.objects r).id ≠ record.id) :
    ({ s.push record with routineWorkspaces := s.routineWorkspaces.set record.id workspaceRoot } : State).foreign
      workspaceRoot = s.foreign workspaceRoot := by
  have hself : otherWorkspace workspaceRoot (s.routineWorkspaces.set record.id workspaceRoot) record.id = none := by
    unfold otherWorkspace
    rw [OMap.get_set, if_pos rfl]
    simp
  rw [foreign_eq, foreign_eq]
  show (s.routines ++ [s.fresh]).filterMap _ = _
  rw [filterMap_append, filterMap_cons]
  have hrest : s.routines.filterMap (fun r => (otherWorkspace workspaceRoot
      (s.routineWorkspaces.set record.id workspaceRoot) ((s.push record).objects r).id).map
        ((s.push record).objects r, ·)) =
      s.routines.filterMap fun r =>
        (otherWorkspace workspaceRoot s.routineWorkspaces (s.objects r).id).map (s.objects r, ·) := by
    refine filterMap_congr fun r hr => ?_
    have hne : r ≠ s.fresh := Nat.ne_of_lt (hbound r hr)
    have hobject : (s.push record).objects r = s.objects r := Function.update_of_ne hne _ _
    have hother : otherWorkspace workspaceRoot (s.routineWorkspaces.set record.id workspaceRoot) (s.objects r).id =
        otherWorkspace workspaceRoot s.routineWorkspaces (s.objects r).id := by
      unfold otherWorkspace
      rw [OMap.get_set, if_neg (Ne.symm (hnew r hr))]
    rw [hobject, hother]
  have hfresh : (s.push record).objects s.fresh = record := Function.update_self _ _ _
  show s.routines.filterMap (fun r => (otherWorkspace workspaceRoot
      (s.routineWorkspaces.set record.id workspaceRoot) ((s.push record).objects r).id).map
        ((s.push record).objects r, ·)) ++ _ = _
  rw [hrest]
  simp only [hfresh, hself, Option.map_none, filterMap_nil, append_nil]

theorem otherWorkspace_delete {deleted : JsString} (h : otherWorkspace workspaceRoot associations deleted = none)
    (id : JsString) :
    otherWorkspace workspaceRoot (associations.delete deleted) id = otherWorkspace workspaceRoot associations id := by
  unfold otherWorkspace at h ⊢
  rw [OMap.get_delete]
  split
  · rename_i heq
    rw [← heq, h]
    rfl
  · rfl

theorem otherWorkspace_foldl_delete {ids : List JsString}
    (h : ∀ deleted ∈ ids, otherWorkspace workspaceRoot associations deleted = none) (id : JsString) :
    otherWorkspace workspaceRoot (ids.foldl OMap.delete associations) id =
    otherWorkspace workspaceRoot associations id := by
  induction ids generalizing associations with
  | nil => rfl
  | cons deleted ids ih =>
    have hfirst := otherWorkspace_delete (h deleted mem_cons_self)
    rw [foldl_cons, ih fun d hd => by rw [hfirst, h d (mem_cons_of_mem _ hd)], hfirst]

theorem foreign_filter {keep : Nat → Bool}
    (hkeep : ∀ r ∈ s.routines, keep r = false → s.Own workspaceRoot (s.objects r).id)
    (hother : ∀ id, otherWorkspace workspaceRoot associations id =
      otherWorkspace workspaceRoot s.routineWorkspaces id) :
    ({ s with routines := s.routines.filter keep, routineWorkspaces := associations } : State).foreign workspaceRoot =
      s.foreign workspaceRoot := by
  rw [foreign_eq, foreign_eq]
  show (s.routines.filter keep).filterMap (fun r =>
    (otherWorkspace workspaceRoot associations (s.objects r).id).map (s.objects r, ·)) = _
  rw [filterMap_filter]
  refine filterMap_congr fun r hr => ?_
  rw [hother]
  cases hk : keep r with
  | true => rfl
  | false =>
    have hnone : otherWorkspace workspaceRoot s.routineWorkspaces (s.objects r).id = none := hkeep r hr hk
    rw [hnone]
    rfl

end State

def Clear (F : List (RoutineRecord × JsString)) (botId : JsString) (files : List RoutineDefinition) : Prop :=
  ∀ file ∈ files, ∀ e ∈ F, e.1.id = file.id → e.1.botId ≠ botId

def Spares (F : List (RoutineRecord × JsString)) (id : JsString) : Prop := ∀ e ∈ F, e.1.id ≠ id

def SparesAll (F : List (RoutineRecord × JsString)) (effects : List Effect) : Prop :=
  ∀ r record text, .wake r record text ∈ effects → Spares F record.id

structure Keeps (workspaceRoot : JsString) (F : List (RoutineRecord × JsString)) (s : State) : Prop where
  bounded : ∀ r ∈ s.routines, r < s.fresh
  nodup : s.routineWorkspaces.keys.Nodup
  foreign : s.prepared = true → s.foreign workspaceRoot = F
  unprepared : s.prepared = false → s.routines = []
  todos : ∀ t ∈ s.todos, ∀ r ∈ t.rest, r < s.fresh ∧ Spares F (s.objects r).id
  wake : ∀ w ∈ s.wake, s.prepared = true ∧ ∀ id ∈ w.id :: w.rest, Spares F id
  writes : ∀ text ∈ s.writes, StoreHas workspaceRoot F text
  loads : ∀ outcome, some outcome ∈ s.loads → ∃ raw, outcome = .text raw ∧ StoreHas workspaceRoot F raw
  definitions : ∀ entry ∈ s.definitions, ∀ files ∈ entry.2, Clear F entry.1 files

variable {result : State × List Effect}

namespace Keeps

section

variable (h : Keeps workspaceRoot F s)
include h

theorem prepared_of_mem (hr : r ∈ s.routines) : s.prepared = true := by
  cases hp : s.prepared with
  | true => rfl
  | false =>
    rw [h.unprepared hp] at hr
    cases hr

theorem own (hr : r ∈ s.routines) (hid : Spares F (s.objects r).id) : s.Own workspaceRoot (s.objects r).id := by
  refine State.own_of_not_mem hr ?_
  rw [h.foreign (h.prepared_of_mem hr)]
  exact fun w hw => hid _ hw rfl

theorem spares (hp : s.prepared = true) (hown : s.Own workspaceRoot id) : Spares F id := by
  have hne := hown.ne
  rw [h.foreign hp] at hne
  exact hne

theorem persist (hF : ∀ e ∈ F, Persistable e.1 ∧ e.2 ≠ []) (hp : s.prepared = true) :
    Keeps workspaceRoot F s.persist := by
  refine { h with writes := fun text htext => ?_ }
  rcases mem_append.1 htext with htext | htext
  · exact h.writes text htext
  rw [mem_singleton.1 htext]
  have hforeign : foreignOf workspaceRoot (s.records, s.routineWorkspaces) = F := h.foreign hp
  have hstore := @storeHas_payload workspaceRoot _ _ h.nodup (hforeign.symm ▸ hF)
  rw [hforeign] at hstore
  exact hstore

theorem modify (hr : r ∈ s.routines) (hown : s.Own workspaceRoot (s.objects r).id) {f : RoutineRecord → RoutineRecord}
    (hid : (f (s.objects r)).id = (s.objects r).id) : Keeps workspaceRoot F (s.modify r f) := by
  have hp := h.prepared_of_mem hr
  have hids : ∀ r', ((s.modify r f).objects r').id = (s.objects r').id := by
    intro r'
    by_cases heq : r' = r
    · subst heq
      simp [State.modify, hid]
    · simp [State.modify, Function.update_of_ne heq]
  refine { h with
    foreign := fun _ => (State.foreign_modify hown hid).trans (h.foreign hp)
    todos := fun t ht r' hr' => ?_ }
  obtain ⟨hlt, hspares⟩ := h.todos t ht r' hr'
  refine ⟨hlt, ?_⟩
  rw [hids]
  exact hspares

theorem push (hp : s.prepared = true) {record : RoutineRecord}
    (hnew : s.find record.id = none) : Keeps workspaceRoot F
      { s.push record with routineWorkspaces := s.routineWorkspaces.set record.id workspaceRoot } := by
  have hne : ∀ r ∈ s.routines, (s.objects r).id ≠ record.id := by
    intro r hr
    have hfind := List.find?_eq_none.1 hnew r hr
    simpa using hfind
  refine ⟨fun r hr => ?_, OMap.nodup_keys_set h.nodup _ _,
    fun _ => (State.foreign_push h.bounded hne).trans (h.foreign hp),
    fun hfalse => ?_, fun t ht r hr => ?_, h.wake, h.writes, h.loads, h.definitions⟩
  · rcases mem_append.1 hr with hr | hr
    · exact Nat.lt_succ_of_lt (h.bounded r hr)
    · rw [mem_singleton.1 hr]
      exact Nat.lt_succ_self _
  · have hfalse' : s.prepared = false := hfalse
    rw [hp] at hfalse'
    cases hfalse'
  · obtain ⟨hlt, hspares⟩ := h.todos t ht r hr
    have hobject : (s.push record).objects r = s.objects r := Function.update_of_ne (Nat.ne_of_lt hlt) _ _
    refine ⟨Nat.lt_succ_of_lt hlt, ?_⟩
    show Spares F ((s.push record).objects r).id
    rw [hobject]
    exact hspares

theorem filter {keep : Nat → Bool}
    (hkeep : ∀ r ∈ s.routines, keep r = false → s.Own workspaceRoot (s.objects r).id)
    (hnodup : associations.keys.Nodup)
    (hother : ∀ id, otherWorkspace workspaceRoot associations id =
      otherWorkspace workspaceRoot s.routineWorkspaces id) :
    Keeps workspaceRoot F { s with routines := s.routines.filter keep, routineWorkspaces := associations } := by
  refine { h with
    bounded := fun r hr => h.bounded r (mem_filter.1 hr).1
    nodup := hnodup
    foreign := fun hp => (State.foreign_filter hkeep hother).trans (h.foreign hp)
    unprepared := fun hp => ?_ }
  show s.routines.filter keep = []
  rw [h.unprepared hp]
  rfl

end

variable (h : Keeps workspaceRoot F s)
include h

variable (hF : ∀ e ∈ F, Persistable e.1 ∧ e.2 ≠ [])
include hF

theorem endTick {changed : Bool}
    (hp : changed = true → s.prepared = true) : Keeps workspaceRoot F (s.endTick changed) := by
  cases changed with
  | true => exact { h.persist hF (hp rfl) with wake := fun w hw => by cases hw }
  | false => exact { h with wake := fun w hw => by cases hw }

theorem tickLoop {env : Env}
    {now fireAt : Int} {changed : Bool} (hp : changed = true → s.prepared = true) {ids : List JsString}
    (hids : ∀ id ∈ ids, Spares F id) : Keeps workspaceRoot F (State.tickLoop p env now fireAt changed ids s).1 ∧
    SparesAll F (State.tickLoop p env now fireAt changed ids s).2 := by
  have hnone : SparesAll F [] := fun r record text hmem => by cases hmem
  induction ids with
  | nil => exact ⟨h.endTick hF hp, hnone⟩
  | cons id rest ih =>
    have hrest := ih fun id' hid' => hids id' (mem_cons_of_mem _ hid')
    unfold State.tickLoop
    split
    · exact ⟨h.endTick hF hp, hnone⟩
    cases hfind : s.find id with
    | none => exact hrest
    | some r =>
      obtain ⟨hr, hid⟩ := mem_of_find hfind
      simp only
      split
      · exact hrest
      split
      · exact hrest
      split
      · exact ⟨h.endTick hF hp, hnone⟩
      refine ⟨{ h with wake := fun w hw => ?_ }, fun r' record text hmem => ?_⟩
      · cases hw
        exact ⟨h.prepared_of_mem hr, hids⟩
      · cases mem_singleton.1 hmem
        rw [hid]
        exact hids id mem_cons_self

theorem tick (env : Env) (i : Nat) :
    Keeps workspaceRoot F (s.tick p workspaceRoot env i).1 ∧ SparesAll F (s.tick p workspaceRoot env i).2 := by
  unfold State.tick
  split
  · exact ⟨h, fun r record text hmem => by cases hmem⟩
  have hids : ∀ id ∈ s.dueIds p workspaceRoot (env.time i), Spares F id := by
    intro id hid
    obtain ⟨r, hr, rfl⟩ := mem_map.1 hid
    obtain ⟨hr, hdue⟩ := mem_filter.1 hr
    simp only [Bool.and_eq_true, decide_eq_true_eq] at hdue
    exact h.spares (h.prepared_of_mem hr) (State.own_iff.2 hdue.1.1.1)
  have hticking : Keeps workspaceRoot F { s with ticking := true } := { h with }
  exact hticking.tickLoop hF (fun hfalse => by cases hfalse) hids

omit hF

omit h

theorem settled_id (fireAt : Int) (error : Option JsString) (record : RoutineRecord) :
    (State.settled p fireAt error record).id = record.id := by
  cases error <;> rfl

theorem settleWake (h : Keeps workspaceRoot F s) (hF : ∀ e ∈ F, Persistable e.1 ∧ e.2 ≠ []) {env : Env}
    {error : Option JsString} (hresult : s.settleWake p env error = some result) :
    Keeps workspaceRoot F result.1 ∧ SparesAll F result.2 := by
  obtain ⟨w, hw, rfl⟩ := Option.map_eq_some_iff.1 hresult
  obtain ⟨hp, hids⟩ := h.wake w hw
  have hrest : ∀ id ∈ w.rest, Spares F id := fun id hid => hids id (mem_cons_of_mem _ hid)
  split
  · exact ⟨{ h with wake := fun w hw => by cases hw }, fun r record text hmem => by cases hmem⟩
  cases hfind : s.find w.id with
  | none =>
    have hidle : Keeps workspaceRoot F { s with wake := none } := { h with wake := fun w hw => by cases hw }
    exact hidle.tickLoop hF (fun _ => hp) hrest
  | some r =>
    obtain ⟨hr, hid⟩ := mem_of_find hfind
    have hown := h.own hr (by rw [hid]; exact hids w.id mem_cons_self)
    have hmodified := h.modify hr hown (settled_id (p := p) w.fireAt error (s.objects r))
    have hidle : Keeps workspaceRoot F { s.modify r (State.settled p w.fireAt error) with wake := none } :=
      { hmodified with wake := fun w hw => by cases hw }
    exact hidle.tickLoop hF (fun _ => hp) hrest

theorem adopted_id (now : Int) (file : RoutineDefinition) (record : RoutineRecord) :
    (State.adopted p now file record).id = record.id := by
  unfold State.adopted
  simp only
  split
  · rfl
  · split
    · rfl
    · split <;> rfl

variable {botId : JsString}

theorem adoptFile (h : Keeps workspaceRoot F s) (hp : s.prepared = true) {now : Int}
    {changed : Bool} {file : RoutineDefinition} (hclear : ∀ e ∈ F, e.1.id = file.id → e.1.botId ≠ botId) :
    Keeps workspaceRoot F (State.adoptFile p workspaceRoot now botId (s, changed) file).1 ∧
    (State.adoptFile p workspaceRoot now botId (s, changed) file).1.prepared = true := by
  unfold State.adoptFile
  cases hfind : s.find file.id with
  | none => exact ⟨h.push hp hfind, hp⟩
  | some r =>
    obtain ⟨hr, hid⟩ := mem_of_find hfind
    simp only
    split
    · exact ⟨h, hp⟩
    rename_i hbot
    rw [Decidable.not_not] at hbot
    have hown : s.Own workspaceRoot (s.objects r).id :=
      State.own_of_not_mem hr fun w hw => hclear (s.objects r, w) (h.foreign hp ▸ hw) hid hbot
    exact ⟨h.modify hr hown (adopted_id now file _), hp⟩

theorem nodup_foldl_delete {ids : List JsString} (h : associations.keys.Nodup) :
    (OMap.keys (ids.foldl OMap.delete associations)).Nodup := by
  induction ids generalizing associations with
  | nil => exact h
  | cons id ids ih => exact ih (OMap.nodup_keys_delete h id)

theorem applyDefinitions (h : Keeps workspaceRoot F s) (hF : ∀ e ∈ F, Persistable e.1 ∧ e.2 ≠ [])
    (hp : s.prepared = true)
    {now : Int} {botId : JsString} {files : Option (List RoutineDefinition)}
    (hclear : ∀ fs ∈ files, Clear F botId fs) :
    Keeps workspaceRoot F (s.applyDefinitions p workspaceRoot now botId files).1 ∧
      (s.applyDefinitions p workspaceRoot now botId files).1.prepared = true ∧
      SparesAll F (s.applyDefinitions p workspaceRoot now botId files).2 := by
  cases files with
  | none =>
    refine ⟨h, hp, fun r record text hmem => ?_⟩
    obtain ⟨r', -, heq⟩ := mem_map.1 hmem
    cases heq
  | some files =>
    have howned : ∀ r ∈ s.unwanted workspaceRoot botId files, s.Own workspaceRoot (s.objects r).id := by
      intro r hr
      have howned := (mem_filter.1 (mem_filter.1 hr).1).2
      simp only [Bool.and_eq_true, decide_eq_true_eq] at howned
      exact State.own_iff.2 howned.2
    have hdrop : Keeps workspaceRoot F (s.drop (s.unwanted workspaceRoot botId files)) := by
      refine h.filter (fun r _ hkeep => howned r ?_) (nodup_foldl_delete h.nodup)
        (State.otherWorkspace_foldl_delete fun id hid => ?_)
      · simpa using hkeep
      · obtain ⟨r, hr, rfl⟩ := mem_map.1 hid
        exact howned r hr
    have hfold : ∀ (files : List RoutineDefinition) (acc : State × Bool), Keeps workspaceRoot F acc.1 →
        acc.1.prepared = true → Clear F botId files →
        Keeps workspaceRoot F (files.foldl (State.adoptFile p workspaceRoot now botId) acc).1 ∧
          (files.foldl (State.adoptFile p workspaceRoot now botId) acc).1.prepared = true := by
      intro files
      induction files with
      | nil => exact fun acc hacc hpacc _ => ⟨hacc, hpacc⟩
      | cons file files ih =>
        intro acc hacc hpacc hcl
        have hnext : Keeps workspaceRoot F (State.adoptFile p workspaceRoot now botId acc file).1 ∧
            (State.adoptFile p workspaceRoot now botId acc file).1.prepared = true :=
          hacc.adoptFile hpacc (hcl file mem_cons_self)
        exact ih _ hnext.1 hnext.2 fun f hf => hcl f (mem_cons_of_mem _ hf)
    obtain ⟨hafter, hpafter⟩ := hfold files (s.drop (s.unwanted workspaceRoot botId files),
      decide (s.unwanted workspaceRoot botId files ≠ [])) hdrop hp (hclear files rfl)
    unfold State.applyDefinitions
    simp only
    refine ⟨?_, ?_, fun r record text hmem => by cases hmem⟩
    · split
      · exact hafter.persist hF hpafter
      · exact hafter
    · split
      · exact hpafter
      · exact hpafter

/-! ### The store -/

theorem records_foldl_push (records : List RoutineRecord) {s : State} (hbound : ∀ r ∈ s.routines, r < s.fresh) :
    (records.foldl State.push s).records = s.records ++ records ∧
    (∀ r ∈ (records.foldl State.push s).routines, r < (records.foldl State.push s).fresh) ∧ s.fresh ≤
    (records.foldl State.push s).fresh ∧ ∀ r < s.fresh, (records.foldl State.push s).objects r = s.objects r := by
  induction records generalizing s with
  | nil => exact ⟨(append_nil _).symm, hbound, le_refl _, fun r _ => rfl⟩
  | cons record records ih =>
    have hpushed : ∀ r ∈ (s.push record).routines, r < (s.push record).fresh := by
      intro r hr
      rcases mem_append.1 hr with hr | hr
      · exact Nat.lt_succ_of_lt (hbound r hr)
      · rw [mem_singleton.1 hr]
        exact Nat.lt_succ_self _
    obtain ⟨hrecords, hbound', hle, hobjects⟩ := ih hpushed
    have hsame : ∀ r < s.fresh, (s.push record).objects r = s.objects r :=
      fun r hr => Function.update_of_ne (Nat.ne_of_lt hr) _ _
    have hone : (s.push record).records = s.records ++ [record] := by
      show (s.routines ++ [s.fresh]).map (s.push record).objects = s.routines.map s.objects ++ [record]
      rw [map_append]
      have hlast : (s.push record).objects s.fresh = record := Function.update_self _ _ _
      rw [map_congr_left fun r hr => hsame r (hbound r hr), map_singleton, hlast]
    refine ⟨?_, hbound', Nat.le_of_succ_le hle, fun r hr => ?_⟩
    · rw [foldl_cons, hrecords, hone, append_assoc]
      rfl
    · rw [foldl_cons, hobjects r (Nat.lt_succ_of_lt hr), hsame r hr]

theorem nodup_readWorkspaces (value : Option Json) : (readWorkspaces value).keys.Nodup := by
  have hfold : ∀ (entries : OMap JsString Json) (acc : OMap JsString JsString), (acc.keys).Nodup →
      (OMap.keys (entries.foldl storeWorkspace acc)).Nodup := by
    intro entries
    induction entries with
    | nil => exact fun acc h => h
    | cons entry entries ih =>
      intro acc h
      refine ih _ ?_
      unfold storeWorkspace
      split
      · exact OMap.nodup_keys_set h _ _
      · exact h
  unfold readWorkspaces
  split
  · exact hfold _ _ nodup_nil
  · exact nodup_nil

theorem nodup_readState {raw : JsString} {store : List RoutineRecord × OMap JsString JsString}
    (h : readState raw = some store) : store.2.keys.Nodup := by
  unfold readState at h
  split at h
  · split at h <;> cases h
    exact nodup_readWorkspaces _
  · cases h

theorem foldl_associate (records : List RoutineRecord) {associations : OMap JsString JsString}
    (hn : associations.keys.Nodup) : (OMap.keys (records.foldl (State.associate workspaceRoot) associations)).Nodup ∧
    ∀ id, otherWorkspace workspaceRoot (records.foldl (State.associate workspaceRoot) associations) id =
    otherWorkspace workspaceRoot associations id := by
  induction records generalizing associations with
  | nil => exact ⟨hn, fun id => rfl⟩
  | cons record records ih =>
    obtain ⟨hnodup, hother⟩ := ih (OMap.nodup_keys_set hn record.id ((associations.get record.id).getD workspaceRoot))
    refine ⟨hnodup, fun id => ?_⟩
    refine (hother id).trans ?_
    unfold otherWorkspace
    rw [OMap.get_set]
    split
    · rename_i hid
      rw [← hid]
      cases hget : associations.get record.id with
      | none => simp
      | some w => rfl
    · rfl

theorem loadStore (h : Keeps workspaceRoot F s) {raw : JsString} (hraw : StoreHas workspaceRoot F raw) :
    Keeps workspaceRoot F { s.loadStore workspaceRoot (.text raw) with prepared := true } := by
  obtain ⟨store, hread, hforeign⟩ := hraw
  have hempty : ∀ r ∈ ({ s with routines := [] } : State).routines, r < s.fresh := fun r hr => by cases hr
  obtain ⟨hrecords, hbound, hle, hobjects⟩ := records_foldl_push store.1 hempty
  obtain ⟨hnodup, hother⟩ := @foldl_associate workspaceRoot store.1 _ (nodup_readState hread)
  have hfields : ∀ (records : List RoutineRecord) (s : State), (records.foldl State.push s).todos = s.todos ∧
      (records.foldl State.push s).wake = s.wake ∧ (records.foldl State.push s).writes = s.writes ∧
      (records.foldl State.push s).loads = s.loads ∧ (records.foldl State.push s).definitions = s.definitions := by
    intro records
    induction records with
    | nil => exact fun s => ⟨rfl, rfl, rfl, rfl, rfl⟩
    | cons record records ih => exact fun s => ih (s.push record)
  obtain ⟨htodos, hwake, hwrites, hloads, hdefinitions⟩ := hfields store.1 { s with routines := [] }
  have hload : s.loadStore workspaceRoot (.text raw) = s.loadRecords workspaceRoot store.1 store.2 := by
    unfold State.loadStore
    simp only [hread]
  rw [hload]
  refine ⟨hbound, hnodup, fun _ => ?_, (fun hfalse => by cases hfalse), fun t ht r hr => ?_, fun w hw => ⟨rfl, ?_⟩,
    fun text htext => h.writes text ?_, fun outcome hmem => h.loads outcome ?_,
      fun entry hentry => h.definitions entry ?_⟩
  · show foreignOf workspaceRoot ((store.1.foldl State.push { s with routines := [] }).records, _) = F
    rw [hrecords, ← hforeign]
    show (([] ++ store.1).filterMap fun record : RoutineRecord => (otherWorkspace workspaceRoot
      (store.1.foldl (State.associate workspaceRoot) store.2) record.id).map (record, ·)) = _
    refine filterMap_congr fun record _ => ?_
    rw [hother]
  · have ht' : t ∈ s.todos := by
      rw [← htodos]
      exact ht
    obtain ⟨hlt, hspares⟩ := h.todos t ht' r hr
    refine ⟨lt_of_lt_of_le hlt hle, ?_⟩
    show Spares F ((store.1.foldl State.push { s with routines := [] }).objects r).id
    rw [hobjects r hlt]
    exact hspares
  · have hw' : w ∈ s.wake := by
      rw [← hwake]
      exact hw
    exact (h.wake w hw').2
  · rw [← hwrites]
    exact htext
  · rw [← hloads]
    exact hmem
  · rw [← hdefinitions]
    exact hentry

theorem finishLoad (h : Keeps workspaceRoot F s) (hF : ∀ e ∈ F, Persistable e.1 ∧ e.2 ≠ []) {raw : JsString}
    (hraw : StoreHas workspaceRoot F raw) (env : Env) :
    Keeps workspaceRoot F (s.finishLoad p workspaceRoot env (.text raw)).1 ∧
    SparesAll F (s.finishLoad p workspaceRoot env (.text raw)).2 := by
  have hloaded := h.loadStore hraw
  have hfold : ∀ (entries : OMap JsString (Option (List RoutineDefinition))) (acc : State × List Effect),
      Keeps workspaceRoot F acc.1 → acc.1.prepared = true → SparesAll F acc.2 →
      (∀ entry ∈ entries, ∀ files ∈ entry.2, Clear F entry.1 files) →
      let after := entries.foldl (State.replay p workspaceRoot env) acc
      Keeps workspaceRoot F after.1 ∧ after.1.prepared = true ∧ SparesAll F after.2 := by
    intro entries
    induction entries with
    | nil => exact fun acc hacc hp hspares _ => ⟨hacc, hp, hspares⟩
    | cons entry entries ih =>
      intro acc hacc hp hspares hclear
      obtain ⟨hnext, hpnext, hsparesnext⟩ := hacc.applyDefinitions (p := p) hF hp (hclear entry mem_cons_self)
      refine ih _ hnext hpnext (fun r record text hmem => ?_) fun e he => hclear e (mem_cons_of_mem _ he)
      rcases mem_append.1 hmem with hmem | hmem
      · exact hspares r record text hmem
      · exact hsparesnext r record text hmem
  obtain ⟨hafter, hp, hspares⟩ := hfold _ ({ s.loadStore workspaceRoot (.text raw) with prepared := true },
      []) hloaded rfl
    (fun r record text hmem => by cases hmem) hloaded.definitions
  unfold State.finishLoad
  simp only
  split
  · have hclean : Keeps workspaceRoot F { (State.replayed p workspaceRoot
        { s.loadStore workspaceRoot (.text raw) with prepared := true } env).1 with associationDirty := false } :=
      { hafter with }
    exact ⟨hclean.persist hF hp, hspares⟩
  · exact ⟨hafter, hspares⟩

/-! ### Operations -/

theorem validated_id {input : State.CreateParams} {valid : RoutineDefinition}
    (h : State.validated id input = .ok valid) : valid.id = id := by
  unfold State.validated at h
  split at h
  · cases h
  · split at h
    · cases h
    · exact (validInterval_of_validateRoutine h).1

theorem create (h : Keeps workspaceRoot F s) (hF : ∀ e ∈ F, Persistable e.1 ∧ e.2 ≠ []) (hp : s.prepared = true)
    {env : Env} {input : State.CreateParams} (hnew : s.find id = none)
    (hresult : s.create p workspaceRoot env id input = .ok result) :
    Keeps workspaceRoot F result.1 ∧ SparesAll F result.2 := by
  obtain ⟨valid, hvalid, hresult⟩ := Checks.bind_eq_ok.1 hresult
  split at hresult <;> cases hresult
  refine ⟨(h.push hp ?_).persist hF hp, fun r record text hmem => ?_⟩
  · show s.find valid.id = none
    rw [validated_id hvalid]
    exact hnew
  · cases mem_singleton.1 hmem

theorem updated_id (env : Env) (patch : State.UpdateParams) (definition : RoutineDefinition)
    (record : RoutineRecord) :
    (State.updated p env patch definition record).id = record.id := by
  unfold State.updated
  simp only
  split <;> rfl

section

variable (h : Keeps workspaceRoot F s)
include h

variable (hF : ∀ e ∈ F, Persistable e.1 ∧ e.2 ≠ [])
include hF

variable {env : Env}

theorem update
    {patch : State.UpdateParams} (hresult : s.update p workspaceRoot env id patch = .ok result) :
    Keeps workspaceRoot F result.1 ∧ SparesAll F result.2 := by
  obtain ⟨r, hr, hresult⟩ := Checks.bind_eq_ok.1 hresult
  obtain ⟨hmem, howned⟩ := findRecord_ok hr
  have hown := State.own_iff.2 howned
  split at hresult
  · cases hresult
  simp only at hresult
  split at hresult
  · cases hresult
  obtain ⟨definition, -, hresult⟩ := Checks.bind_eq_ok.1 hresult
  cases hresult
  have hmodified := h.modify hmem hown (updated_id (p := p) env patch definition (s.objects r))
  refine ⟨hmodified.persist hF (h.prepared_of_mem hmem), fun r' record text heffect => ?_⟩
  cases mem_singleton.1 heffect

theorem run
    (hresult : s.run p workspaceRoot env id = .ok result) :
    Keeps workspaceRoot F result.1 ∧ SparesAll F result.2 := by
  obtain ⟨r, hr, hresult⟩ := Checks.bind_eq_ok.1 hresult
  obtain ⟨hmem, howned⟩ := findRecord_ok hr
  have hown := State.own_iff.2 howned
  split at hresult <;> cases hresult
  have hid : (State.requested p (env.time 0) (s.objects r)).id = (s.objects r).id := rfl
  exact ((h.modify hmem hown hid).persist hF (h.prepared_of_mem hmem)).tick hF env 1

theorem remove
    (hresult : s.remove workspaceRoot id = .ok result) : Keeps workspaceRoot F result.1 ∧ SparesAll F result.2 := by
  obtain ⟨r, hr, hresult⟩ := Checks.bind_eq_ok.1 hresult
  obtain ⟨hmem, howned⟩ := findRecord_ok hr
  have hown := State.own_iff.2 howned
  cases hresult
  have hfiltered : Keeps workspaceRoot F { s with
      routines := s.routines.filter fun r' => decide ((s.objects r').id ≠ (s.objects r).id)
      routineWorkspaces := s.routineWorkspaces.delete (s.objects r).id } := by
    refine h.filter (fun r' _ hkeep => ?_) (OMap.nodup_keys_delete h.nodup _) (State.otherWorkspace_delete hown)
    have hsame : (s.objects r').id = (s.objects r).id := by simpa using hkeep
    rw [hsame]
    exact hown
  refine ⟨hfiltered.persist hF (h.prepared_of_mem hmem), fun r' record text heffect => ?_⟩
  cases mem_singleton.1 heffect

theorem sync
    {files : Option (List RoutineDefinition)} (hclear : ∀ fs ∈ files, Clear F botId fs) :
    Keeps workspaceRoot F (s.sync p workspaceRoot env botId files).1 ∧
    SparesAll F (s.sync p workspaceRoot env botId files).2 := by
  have hdefinitions : Keeps workspaceRoot F { s with definitions := s.definitions.set botId files } := by
    refine { h with definitions := fun entry hentry => ?_ }
    rcases OMap.mem_set hentry with rfl | hentry
    · exact hclear
    · exact h.definitions entry hentry
  unfold State.sync
  simp only
  split
  · rename_i hready
    rw [Bool.and_eq_true] at hready
    obtain ⟨hkeeps, -, hspares⟩ := hdefinitions.applyDefinitions (p := p) hF hready.1 hclear
    exact ⟨hkeeps, hspares⟩
  · exact ⟨hdefinitions, fun r record text hmem => by cases hmem⟩

omit hF

theorem todoLoop {changes : List TodoChange} {refs : List Nat}
    (hrefs : ∀ r ∈ refs, r < s.fresh ∧ Spares F (s.objects r).id) :
    Keeps workspaceRoot F (s.todoLoop env changes refs).1 ∧ SparesAll F (s.todoLoop env changes refs).2 := by
  have hnone : SparesAll F [] := fun r record text hmem => by cases hmem
  induction refs with
  | nil => exact ⟨h, hnone⟩
  | cons r rest ih =>
    have hrest := ih fun r' hr' => hrefs r' (mem_cons_of_mem _ hr')
    unfold State.todoLoop
    split
    · exact ⟨h, hnone⟩
    split
    · split
      · exact hrest
      refine ⟨{ h with todos := fun t ht r' hr' => ?_ }, fun r' record text hmem => ?_⟩
      · rcases mem_append.1 ht with ht | ht
        · exact h.todos t ht r' hr'
        · rw [mem_singleton.1 ht] at hr'
          exact hrefs r' (mem_cons_of_mem _ hr')
      · cases mem_singleton.1 hmem
        exact (hrefs r mem_cons_self).2
    · exact hrest

theorem todoChanged (env : Env) (changes : List TodoChange) :
    Keeps workspaceRoot F (s.todoChanged workspaceRoot env changes).1 ∧
    SparesAll F (s.todoChanged workspaceRoot env changes).2 := by
  unfold State.todoChanged
  split
  · exact ⟨h, fun r record text hmem => by cases hmem⟩
  refine h.todoLoop fun r hr => ?_
  obtain ⟨hmem, hcandidate⟩ := mem_filter.1 hr
  simp only [Bool.and_eq_true, decide_eq_true_eq] at hcandidate
  exact ⟨h.bounded r hmem, h.spares (h.prepared_of_mem hmem) (State.own_iff.2 hcandidate.1.1.1)⟩

theorem settleTodo {i : Nat} (hresult : s.settleTodo env i = some result) :
    Keeps workspaceRoot F result.1 ∧ SparesAll F result.2 := by
  obtain ⟨pending, hpending, rfl⟩ := Option.map_eq_some_iff.1 hresult
  have herased : Keeps workspaceRoot F { s with todos := s.todos.eraseIdx i } :=
    { h with todos := fun t ht => h.todos t (mem_of_mem_eraseIdx ht) }
  exact herased.todoLoop (h.todos pending (mem_of_getElem? hpending))

end

end Keeps

/-! ### Runs -/

structure World.Keeps (workspaceRoot : JsString) (F : List (RoutineRecord × JsString)) (w : World) : Prop where
  disk : ∃ text, w.disk = some text ∧ StoreHas workspaceRoot F text
  state : Scheduler.Keeps workspaceRoot F w.state

/-- What an operation must not do: fail to read the file, adopt a file under the id of a foreign routine of its bot,
count a bot that has foreign routines (or create a routine before the store is loaded), read the last runs of a bot
that has foreign ones. -/
def Spared (F : List (RoutineRecord × JsString)) (w : World) : Op → Prop
  | .read _ fails => fails = false
  | .sync botId files => ∀ definitions ∈ files, Clear F botId definitions
  | .create id input =>
    (State.validated id input).isOk = true → w.state.prepared = true ∧ ∀ e ∈ F, e.1.botId ≠ input.botId
  | .lastRunAt botId => ∀ e ∈ F, e.1.botId = botId → e.1.lastRunAt = none
  | _ => True

def SparedStep (p : Platform) (workspaceRoot : JsString) (F : List (RoutineRecord × JsString)) (w : World)
    (a : (Op × Env) × List Effect) (w' : World) : Prop :=
  Step p workspaceRoot w a w' ∧ Spared F w a.1.1

theorem keeps_initial : Keeps workspaceRoot F State.initial where
  bounded := fun r hr => by cases hr
  nodup := List.nodup_nil
  foreign := fun h => by cases h
  unprepared := fun _ => rfl
  todos := fun t ht => by cases ht
  wake := fun w hw => by cases hw
  writes := fun text htext => by cases htext
  loads := fun outcome houtcome => by cases houtcome
  definitions := fun entry hentry => by cases hentry

theorem sparesAll_nil : SparesAll F [] := fun r record text hmem => by cases hmem

namespace World.Keeps

variable {w w' : World} {op : Op} {env : Env} {effects : List Effect}

variable (h : w.Keeps workspaceRoot F)
include h

theorem returned (hresult : Scheduler.Keeps workspaceRoot F result.1 ∧ SparesAll F result.2)
    (hstep : w.returned result = (w', effects)) : w'.Keeps workspaceRoot F ∧ SparesAll F effects := by
  cases hstep
  exact ⟨⟨h.disk, hresult.1⟩, hresult.2⟩

theorem answered {result : Except JsString (State × List Effect)}
    (hresult : ∀ r, result = .ok r → Scheduler.Keeps workspaceRoot F r.1 ∧ SparesAll F r.2)
    (hstep : w.answered result = (w', effects)) : w'.Keeps workspaceRoot F ∧ SparesAll F effects := by
  unfold World.answered at hstep
  split at hstep
  · exact h.returned (hresult _ rfl) hstep
  · cases hstep
    exact ⟨h, sparesAll_nil⟩

/-- What one step keeps. -/
theorem step (hF : ∀ e ∈ F, Persistable e.1 ∧ e.2 ≠ [])
    (hstep : w.perform p workspaceRoot env op = some (w', effects)) (hspared : Spared F w op) :
    w'.Keeps workspaceRoot F ∧ SparesAll F effects := by
  cases op with
  | prepare =>
    simp only [World.perform] at hstep
    split at hstep
    · exact h.returned ⟨h.state, sparesAll_nil⟩ (Option.some.inj hstep)
    refine h.returned ⟨{ h.state with loads := fun outcome houtcome => ?_ }, sparesAll_nil⟩ (Option.some.inj hstep)
    rcases mem_append.1 houtcome with houtcome | houtcome
    · exact h.state.loads outcome houtcome
    · cases mem_singleton.1 houtcome
  | read i fails =>
    have hfails : fails = false := hspared
    obtain ⟨text, hdisk, htext⟩ := h.disk
    simp only [World.perform] at hstep
    split at hstep
    · refine h.returned ⟨{ h.state with loads := fun outcome houtcome => ?_ }, sparesAll_nil⟩ (Option.some.inj hstep)
      rcases mem_or_eq_of_mem_set houtcome with houtcome | houtcome
      · exact h.state.loads outcome houtcome
      · rw [hfails, hdisk] at houtcome
        exact ⟨text, Option.some.inj houtcome, htext⟩
    · cases hstep
  | load i =>
    simp only [World.perform] at hstep
    split at hstep
    · rename_i outcome hload
      obtain ⟨raw, rfl, hraw⟩ := h.state.loads outcome (mem_of_getElem? hload)
      have herased : Scheduler.Keeps workspaceRoot F { w.state with loads := w.state.loads.eraseIdx i } :=
        { h.state with loads := fun outcome houtcome => h.state.loads outcome (mem_of_mem_eraseIdx houtcome) }
      exact h.returned (herased.finishLoad hF hraw env) (Option.some.inj hstep)
    · cases hstep
  | tick => exact h.returned (h.state.tick hF env 0) (Option.some.inj hstep)
  | settle error =>
    obtain ⟨result, hresult, hreturned⟩ := Option.map_eq_some_iff.1 hstep
    exact h.returned (h.state.settleWake hF hresult) hreturned
  | sync botId files => exact h.returned (h.state.sync hF hspared) (Option.some.inj hstep)
  | create id input =>
    simp only [World.perform] at hstep
    split at hstep
    · rename_i hnew
      refine h.answered (fun result hresult => ?_) (Option.some.inj hstep)
      obtain ⟨valid, hvalid, -⟩ := Checks.bind_eq_ok.1 hresult
      have hprepared : w.state.prepared = true := (hspared (by rw [hvalid]; rfl)).1
      exact h.state.create hF hprepared hnew.2 hresult
    · cases hstep
  | update id patch => exact h.answered (fun _ hresult => h.state.update hF hresult) (Option.some.inj hstep)
  | run id => exact h.answered (fun _ hresult => h.state.run hF hresult) (Option.some.inj hstep)
  | remove id => exact h.answered (fun _ hresult => h.state.remove hF hresult) (Option.some.inj hstep)
  | todoChanged changes => exact h.returned (h.state.todoChanged env changes) (Option.some.inj hstep)
  | settleTodo i =>
    obtain ⟨result, hresult, hreturned⟩ := Option.map_eq_some_iff.1 hstep
    exact h.returned (h.state.settleTodo hresult) hreturned
  | list | lastRunAt =>
    cases hstep
    exact ⟨h, sparesAll_nil⟩
  | stop => exact h.returned ⟨{ h.state with }, sparesAll_nil⟩ (Option.some.inj hstep)
  | written ok =>
    simp only [World.perform] at hstep
    split at hstep
    · cases hstep
    rename_i text rest hwrites
    have htext : ∀ t ∈ text :: rest, StoreHas workspaceRoot F t := hwrites ▸ h.state.writes
    cases hstep
    refine ⟨⟨?_, { h.state with writes := fun t ht => htext t (mem_cons_of_mem _ ht) }⟩, sparesAll_nil⟩
    cases ok with
    | true => exact ⟨text, rfl, htext text mem_cons_self⟩
    | false => exact h.disk
  | restart =>
    cases hstep
    exact ⟨⟨h.disk, keeps_initial⟩, sparesAll_nil⟩

omit h

end World.Keeps

theorem Keeps.foreign_of_not_spares (h : Keeps workspaceRoot F s) (hr : r ∈ s.routines)
    (hid : ¬ Spares F (s.objects r).id) : ∃ root, (s.objects r, root) ∈ F := by
  have hp := h.prepared_of_mem hr
  cases hother : otherWorkspace workspaceRoot s.routineWorkspaces (s.objects r).id with
  | none => exact absurd (h.spares hp hother) hid
  | some root =>
    refine ⟨root, ?_⟩
    rw [← h.foreign hp]
    exact mem_foreignOf.2 ⟨mem_map.2 ⟨r, hr, rfl⟩, hother⟩

theorem mem_keys_foldl_addLastRun {records : List RoutineRecord} {runs : OMap JsString JsString}
    (h : id ∈ OMap.keys (records.foldl (State.addLastRun botId) runs)) :
    id ∈ runs.keys ∨ ∃ record ∈ records, record.id = id ∧ record.botId = botId ∧ record.lastRunAt ≠ none := by
  induction records generalizing runs with
  | nil => exact .inl h
  | cons record records ih =>
    rcases ih h with hmem | ⟨record', hmem, hrecord⟩
    · unfold State.addLastRun at hmem
      split at hmem
      · rename_i hbot
        split at hmem
        · rename_i time htime
          obtain ⟨entry, hentry, rfl⟩ := mem_map.1 hmem
          rcases OMap.mem_set hentry with rfl | hentry
          · exact .inr ⟨record, mem_cons_self, rfl, hbot, by simp [htime]⟩
          · exact .inl (mem_map.2 ⟨entry, hentry, rfl⟩)
        · exact .inl hmem
      · exact .inl hmem
    · exact .inr ⟨record', mem_cons_of_mem _ hmem, hrecord⟩

/-- No foreign routine is woken, listed or counted. -/
theorem World.Keeps.reported {w : World} (h : w.Keeps workspaceRoot F) {op : Op} {effects : List Effect}
    (heffects : SparesAll F effects) (hspared : Spared F w op) (hid : id ∈ w.reported p workspaceRoot op effects) :
    Spares F id := by
  rcases mem_append.1 hid with hid | hid
  · obtain ⟨effect, heffect, hid⟩ := mem_flatMap.1 hid
    cases effect with
    | wake r record text =>
      cases mem_singleton.1 hid
      exact heffects r record text heffect
    | saveFile | removeFile => cases hid
  · cases op with
    | create newId input =>
      cases hvalid : State.validated newId input <;> simp only [hvalid] at hid
      case error message => cases hid
      case ok valid =>
        obtain ⟨r, hr, rfl⟩ := mem_map.1 hid
        obtain ⟨hr, hbot⟩ := mem_filter.1 hr
        by_contra hns
        obtain ⟨root, hmem⟩ := h.state.foreign_of_not_spares hr hns
        exact (hspared (by rw [hvalid]; rfl)).2 _ hmem (of_decide_eq_true hbot)
    | list botId =>
      obtain ⟨record, hrecord, rfl⟩ := mem_map.1 hid
      obtain ⟨r, hr, rfl⟩ := mem_map.1 (Comparator.mem_sort.1 hrecord)
      obtain ⟨hr, hlisted⟩ := mem_filter.1 hr
      rw [Bool.and_eq_true, decide_eq_true_eq] at hlisted
      exact h.state.spares (h.state.prepared_of_mem hr) (State.own_iff.2 hlisted.1)
    | lastRunAt botId =>
      rcases mem_keys_foldl_addLastRun hid with hmem | ⟨record, hrecord, rfl, hbot, hrun⟩
      · cases hmem
      obtain ⟨r, hr, rfl⟩ := mem_map.1 hrecord
      by_contra hns
      obtain ⟨root, hmem⟩ := h.state.foreign_of_not_spares hr hns
      exact hrun (hspared _ hmem hbot)
    | _ => cases hid

/-- Routines of other workspaces: from every state file, along every run of admitted steps, they keep their fields and
their workspace, they are in the file, and no further admitted step wakes, lists or counts one. -/
theorem foreign_untouched {raw : JsString} (hraw : StoreHas workspaceRoot F raw) (hF : ∀ e ∈ F, Persistable e.1)
    {labels : List ((Op × Env) × List Effect)} {w : World}
    (hrun : Run (SparedStep p workspaceRoot F) ⟨some raw, State.initial⟩ labels w) :
    (w.state.prepared = true → w.state.foreign workspaceRoot = F) ∧
    (∃ text, w.disk = some text ∧ StoreHas workspaceRoot F text) ∧ ∀ a w', SparedStep p workspaceRoot F w a w' →
    ∀ id ∈ w.reported p workspaceRoot a.1.1 a.2, Spares F id := by
  have hpersistable : ∀ e ∈ F, Persistable e.1 ∧ e.2 ≠ [] := fun e he => ⟨hF e he, hraw.ne he⟩
  have hkeeps : w.Keeps workspaceRoot F := by
    refine hrun.invariant (World.Keeps workspaceRoot F) (fun w a w' hw hstep => ?_) ⟨⟨raw, rfl, hraw⟩, keeps_initial⟩
    exact (hw.step hpersistable hstep.1 hstep.2).1
  refine ⟨hkeeps.state.foreign, hkeeps.disk, fun a w' hstep id hid => ?_⟩
  exact hkeeps.reported (hkeeps.step hpersistable hstep.1 hstep.2).2 hstep.2 hid

def firstHour : Platform where
  toISOString time := if time = 0 then js "1970-01-01T00:00:00.000Z" else js "1970-01-01T01:00:00.000Z"
  dateParse text := if text = js "1970-01-01T00:00:00.000Z" then some 0 else some 3600000
  localeCompare _ _ := 0

def stillEnv : Env := ⟨fun _ => 0, true, fun _ => false⟩

def foreignRoutine : RoutineRecord where
  id := js "0123abcd"
  botId := js "fox"
  name := none
  prompt := js "Look around"
  intervalMinutes := some (JsNumber.ofNat 60)
  on := none
  match_ := none
  state := .active
  createdAt := js "1970-01-01T00:00:00.000Z"
  nextRunAt := some (js "1970-01-01T01:00:00.000Z")
  lastRunAt := none
  lastError := none
  runCount := JsNumber.ofNat 0

def foreignSample : List (RoutineRecord × JsString) := [(foreignRoutine, js "/there")]

def sharedStore : JsString := statePayload [foreignRoutine] [(foreignRoutine.id, js "/there")]

def hourlyFile (id : JsString) : RoutineDefinition :=
  ⟨id, none, some (JsNumber.ofNat 60), none, none, .active, js "Rest"⟩

def sharedRun (ops : List Op) : Option (World × List (List Effect)) :=
  exec (World.step firstHour (js "/here")) ⟨some sharedStore, State.initial⟩
    ((.prepare :: .read 0 false :: .load 0 :: ops).map (·, stillEnv))

theorem storeHas_sharedStore : StoreHas (js "/here") foreignSample sharedStore := by
  refine storeHas_payload (nodup_singleton _) fun e he => ?_
  rw [mem_singleton.1 he]
  exact ⟨⟨rfl, rfl, rfl, by decide⟩, by decide⟩

theorem persistable_foreignSample : ∀ e ∈ foreignSample, Persistable e.1 := by
  intro e he
  rw [mem_singleton.1 he]
  exact ⟨rfl, rfl, rfl, by decide⟩

theorem foreign_untouched_sample : ∃ r, sharedRun
    [.sync (js "fox") (some [hourlyFile (js "89abcdef")]), .written true] = some r ∧
    r.1.state.prepared = true ∧ r.1.state.foreign (js "/here") = foreignSample ∧
    ∃ text, r.1.disk = some text ∧ text ≠ sharedStore ∧ StoreHas (js "/here") foreignSample text := by
  obtain ⟨r, hr⟩ := Option.isSome_iff_exists.1 (show (sharedRun
    [.sync (js "fox") (some [hourlyFile (js "89abcdef")]), .written true]).isSome = true by decide +kernel)
  have hend : (sharedRun [.sync (js "fox") (some [hourlyFile (js "89abcdef")]), .written true]).map
      (fun r => (r.1.state.prepared, decide (r.1.disk ≠ some sharedStore))) = some (true, true) := by decide +kernel
  rw [hr] at hend
  obtain ⟨hprepared, hdisk⟩ := Prod.mk.inj (Option.some.inj hend)
  have hspared := (run_of_exec hr).restrict (fun a => ∀ w, Spared foreignSample w a.1.1) fun a ha w => by
    obtain ⟨op, hop, heq⟩ := List.mem_map.1 (List.of_mem_zip ha).1
    rw [← heq]
    simp only [List.mem_cons, List.not_mem_nil, or_false] at hop
    rcases hop with rfl | rfl | rfl | rfl | rfl
    · trivial
    · rfl
    · trivial
    · intro files hfiles file hfile e he hid
      cases hfiles
      rw [List.mem_singleton.1 hfile, List.mem_singleton.1 he] at hid
      exact absurd hid (by decide)
    · trivial
  have hrun := hspared.mono (fun w a w' h => (⟨h.1, h.2 w⟩ : SparedStep firstHour (js "/here") foreignSample w a w'))
  obtain ⟨hforeign, ⟨text, htext, hhas⟩, -⟩ := foreign_untouched storeHas_sharedStore persistable_foreignSample hrun
  refine ⟨r, hr, hprepared, hforeign hprepared, text, htext, ?_, hhas⟩
  rintro rfl
  exact of_decide_eq_true hdisk htext

/-- A file of a bot that both workspaces know, under the id of the other workspace's routine, changes that routine. -/
theorem sync_changes_foreign :
    ∃ labels w, Run (Step firstHour (js "/here")) ⟨some sharedStore, State.initial⟩ labels w ∧
    StoreHas (js "/here") foreignSample sharedStore ∧ w.state.prepared = true ∧
    w.state.foreign (js "/here") ≠ foreignSample := by
  obtain ⟨r, hr⟩ := Option.isSome_iff_exists.1 (show (sharedRun
    [.sync (js "fox") (some [hourlyFile (js "0123abcd")])]).isSome = true by decide +kernel)
  have hend : (sharedRun [.sync (js "fox") (some [hourlyFile (js "0123abcd")])]).map
      (fun r => (r.1.state.prepared, decide (r.1.state.foreign (js "/here") ≠ foreignSample))) =
        some (true, true) := by
    decide +kernel
  rw [hr] at hend
  obtain ⟨hprepared, hforeign⟩ := Prod.mk.inj (Option.some.inj hend)
  exact ⟨_, r.1, run_of_exec hr, storeHas_sharedStore, hprepared, of_decide_eq_true hforeign⟩

end Wrenyard.Scheduler
