import Wrenyard.Scheduler.Routines

/-!
# What a written store says

`readState` reads from a written store the records with an interval, without their events, and their associations
(`readState_payload`).  The routines that a store associates with another workspace are `foreign`: the records, in
their order, with their workspace.  A written store has the foreign routines of the state (`storeHas_payload`).
-/

namespace Wrenyard.Scheduler

open Js List

variable {workspaceRoot : JsString} (record : RoutineRecord)

theorem get_encodeRecord : ∃ members, encodeRecord record = .obj members ∧
    OMap.get members (js "id") = some (.str record.id) ∧ OMap.get members (js "botId") = some (.str record.botId) ∧
    OMap.get members (js "name") = record.name.map .str ∧ OMap.get members (js "prompt") = some (.str record.prompt) ∧
    OMap.get members (js "intervalMinutes") = record.intervalMinutes.map .num ∧ OMap.get members (js "on") = none ∧
    OMap.get members (js "match") = none ∧ OMap.get members (js "state") = some (.str record.state.text) ∧
    OMap.get members (js "createdAt") = some (.str record.createdAt) ∧ OMap.get members (js "nextRunAt") =
    record.nextRunAt.map .str ∧ OMap.get members (js "lastRunAt") = record.lastRunAt.map .str ∧
    OMap.get members (js "lastError") = record.lastError.map .str ∧ OMap.get members (js "runCount") =
    some (.num record.runCount) := by
  have hkeys : [js "id", js "botId", js "name", js "prompt", js "intervalMinutes", js "state", js "createdAt",
      js "nextRunAt", js "lastRunAt", js "lastError", js "runCount"].Nodup := by decide
  refine ⟨_, rfl, ?_⟩
  refine ⟨?_, ?_, ?_, ?_, ?_, ?_, ?_, ?_, ?_, ?_, ?_, ?_, ?_⟩
  all_goals
    refine (OMap.get_ofFields ?_ _).trans ?_
    · exact hkeys
    · rfl

theorem distinct_encodeRecord : (encodeRecord record).distinct = true := by
  have hkeys : [js "id", js "botId", js "name", js "prompt", js "intervalMinutes", js "state", js "createdAt",
      js "nextRunAt", js "lastRunAt", js "lastError", js "runCount"].Nodup := by decide
  have htexts : ∀ text : Option JsString, ∀ v, text.map Json.str = some v → v.distinct = true := by
    intro text v h
    obtain ⟨s, -, rfl⟩ := Option.map_eq_some_iff.1 h
    rfl
  refine Json.distinct_obj.2 ⟨(OMap.keys_ofFields_sublist _).nodup hkeys, fun entry hentry => ?_⟩
  have hmem := OMap.mem_ofFields.1 hentry
  simp only [mem_cons, not_mem_nil, or_false, Prod.mk.injEq] at hmem
  rcases hmem with ⟨-, h⟩ | ⟨-, h⟩ | ⟨-, h⟩ | ⟨-, h⟩ | ⟨-, h⟩ | ⟨-, h⟩ | ⟨-, h⟩ | ⟨-, h⟩ | ⟨-, h⟩ | ⟨-, h⟩ | ⟨-, h⟩
  any_goals exact htexts _ _ h.symm
  · exact htexts (some record.id) _ h.symm
  · exact htexts (some record.botId) _ h.symm
  · exact htexts (some record.prompt) _ h.symm
  · obtain ⟨n, -, hn⟩ := Option.map_eq_some_iff.1 h.symm
    rw [← hn]
    rfl
  · exact htexts (some record.state.text) _ h.symm
  · exact htexts (some record.createdAt) _ h.symm
  · rw [Option.some.inj h]
    rfl

def stored (record : RoutineRecord) : RoutineRecord := { record with on := none, match_ := none }

theorem readRecord_encode : readRecord (encodeRecord record) = some (stored record) := by
  obtain ⟨members, hmembers, hid, hbot, hname, hprompt, hinterval, hon, hmatch, hstate, hcreated, hnext,
      hlast, herror,
    hcount⟩ := get_encodeRecord record
  have hstring : ∀ text : Option JsString, optional readString (text.map Json.str) = some text := by
    intro text
    cases text <;> rfl
  have hnumber : ∀ n : Option JsNumber, optional readNumber (n.map Json.num) = some n := by
    intro n
    cases n <;> rfl
  have hmember : ∀ (key : JsString) (text : Option JsString), OMap.get members key = text.map Json.str →
      stringMember members key = text := by
    intro key text h
    unfold stringMember
    rw [h]
    cases text <;> rfl
  have hactive : stateMember (some (.str record.state.text)) = some record.state := by
    cases record.state <;> decide
  rw [hmembers]
  show readMembers members = _
  unfold readMembers
  rw [hmember _ (some record.id) hid, hmember _ (some record.botId) hbot, hmember _ (some record.prompt) hprompt,
    hmember _ (some record.createdAt) hcreated, hmember _ _ hnext, hmember _ _ hlast, hmember _ _ herror, hname,
    hinterval, hon, hmatch, hstate, hcount, hstring, hnumber, hactive]
  rfl

def otherWorkspace (workspaceRoot : JsString) (associations : OMap JsString JsString) (id : JsString) :
    Option JsString :=
  (associations.get id).filter (· ≠ workspaceRoot)

def foreignOf (workspaceRoot : JsString) (store : List RoutineRecord × OMap JsString JsString) :
    List (RoutineRecord × JsString) :=
  store.1.filterMap fun record => (otherWorkspace workspaceRoot store.2 record.id).map (record, ·)

/-- A routine that the store can hold: it has an interval and no event, and an id under which an object can have a
member. -/
structure Persistable (record : RoutineRecord) : Prop where
  interval : record.intervalMinutes.isSome = true
  on : record.on = none
  rules : record.match_ = none
  id : record.id ≠ js "__proto__"

def StoreHas (workspaceRoot : JsString) (F : List (RoutineRecord × JsString)) (text : JsString) : Prop :=
  ∃ store, readState text = some store ∧ foreignOf workspaceRoot store = F

theorem mem_foreignOf {store : List RoutineRecord × OMap JsString JsString} {e : RoutineRecord × JsString} :
    e ∈ foreignOf workspaceRoot store ↔ e.1 ∈ store.1 ∧ otherWorkspace workspaceRoot store.2 e.1.id = some e.2 := by
  unfold foreignOf
  rw [mem_filterMap]
  constructor
  · rintro ⟨record, hmem, h⟩
    obtain ⟨w, hw, rfl⟩ := Option.map_eq_some_iff.1 h
    exact ⟨hmem, hw⟩
  · rintro ⟨hmem, h⟩
    exact ⟨e.1, hmem, by rw [h]; rfl⟩

variable {id : JsString} {associations : OMap JsString JsString} {w : JsString}

theorem otherWorkspace_eq_some :
    otherWorkspace workspaceRoot associations id = some w ↔ associations.get id = some w ∧ w ≠ workspaceRoot := by
  unfold otherWorkspace
  simp

/-! ### Writing the store -/

theorem get_foldl_setWorkspace {entries : OMap JsString JsString} (hn : entries.keys.Nodup)
    (acc : OMap JsString Json) (hid : id ≠ js "__proto__") :
    OMap.get (entries.foldl setWorkspace acc) id = ((entries.get id).map Json.str).or (acc.get id) := by
  induction entries generalizing acc with
  | nil => rfl
  | cons entry entries ih =>
    rw [OMap.keys, map_cons, nodup_cons] at hn
    rw [foldl_cons, ih hn.2, OMap.get_cons]
    by_cases hentry : entry.1 = id
    · have hnone : OMap.get entries id = none := by
        rw [OMap.get_eq_none_iff, ← hentry]
        exact hn.1
      have hset : setWorkspace acc entry = acc.set entry.1 (.str entry.2) := if_neg (hentry ▸ hid)
      rw [if_pos hentry, hnone, hset, OMap.get_set, if_pos hentry]
      rfl
    · rw [if_neg hentry]
      congr 1
      unfold setWorkspace
      split
      · rfl
      · rw [OMap.get_set, if_neg hentry]

theorem get_proto_foldl_setWorkspace (entries : OMap JsString JsString) {acc : OMap JsString Json}
    (h : acc.get (js "__proto__") = none) : OMap.get (entries.foldl setWorkspace acc) (js "__proto__") = none := by
  induction entries generalizing acc with
  | nil => exact h
  | cons entry entries ih =>
    refine ih ?_
    unfold setWorkspace
    split
    · exact h
    · rename_i hentry
      rw [OMap.get_set, if_neg hentry, h]

theorem nodup_foldl_setWorkspace (entries : OMap JsString JsString) {acc : OMap JsString Json}
    (h : (acc.keys).Nodup) : (OMap.keys (entries.foldl setWorkspace acc)).Nodup := by
  induction entries generalizing acc with
  | nil => exact h
  | cons entry entries ih =>
    refine ih ?_
    unfold setWorkspace
    split
    · exact h
    · exact OMap.nodup_keys_set h _ _

theorem nodup_knownWorkspaces (persisted : List RoutineRecord) (associations : OMap JsString JsString) :
    (OMap.keys (knownWorkspaces persisted associations)).Nodup :=
  nodup_foldl_setWorkspace _ (show (OMap.keys ([] : OMap JsString Json)).Nodup from List.nodup_nil)

theorem get_readWorkspaces {members : OMap JsString Json} (hn : (members.keys).Nodup) (id : JsString) :
    (readWorkspaces (some (.obj members))).get id = (members.get id).bind rootOf := by
  have hfold : ∀ acc : OMap JsString JsString,
      (members.foldl storeWorkspace acc).get id = ((members.get id).bind rootOf).or (acc.get id) := by
    intro acc
    induction members generalizing acc with
    | nil => rfl
    | cons entry members ih =>
      rw [OMap.keys, map_cons, nodup_cons] at hn
      rw [foldl_cons, ih hn.2, OMap.get_cons]
      by_cases hentry : entry.1 = id
      · have hnone : OMap.get members id = none := by
          rw [OMap.get_eq_none_iff, ← hentry]
          exact hn.1
        rw [if_pos hentry, hnone]
        unfold storeWorkspace
        cases hroot : rootOf entry.2 with
        | none => simp [hroot]
        | some root => simp [hroot, OMap.get_set, hentry]
      · rw [if_neg hentry]
        congr 1
        unfold storeWorkspace
        cases rootOf entry.2 with
        | none => rfl
        | some root => rw [OMap.get_set, if_neg hentry]
  have h := hfold []
  rw [OMap.get_nil, Option.or_none] at h
  exact h

theorem readWorkspaces_ne {value : Option Json} (h : OMap.get (readWorkspaces value) id = some w) :
    w ≠ [] := by
  have hfold : ∀ (members : OMap JsString Json) (map : OMap JsString JsString),
      (∀ id w, map.get id = some w → w ≠ []) →
      ∀ id w, OMap.get (members.foldl storeWorkspace map) id = some w → w ≠ [] := by
    intro members
    induction members with
    | nil => exact fun map hmap => hmap
    | cons entry members ih =>
      intro map hmap
      refine ih _ fun id w hget => ?_
      unfold storeWorkspace at hget
      cases hroot : rootOf entry.2 <;> rw [hroot] at hget
      case none => exact hmap id w hget
      case some root =>
        rw [OMap.get_set] at hget
        split at hget
        · cases hget
          unfold rootOf at hroot
          split at hroot
          · split at hroot <;> cases hroot
            rename_i hne
            exact hne
          · cases hroot
        · exact hmap id w hget
  unfold readWorkspaces at h
  split at h
  · exact hfold _ [] (fun id w hget => by cases hget) id w h
  · cases h

theorem readState_ne {raw : JsString} {store : List RoutineRecord × OMap JsString JsString}
    (h : readState raw = some store) (hget : store.2.get id = some w) : w ≠ [] := by
  unfold readState at h
  split at h
  · split at h <;> cases h
    exact readWorkspaces_ne hget
  · cases h

theorem get_knownWorkspaces {persisted : List RoutineRecord}
    (hn : associations.keys.Nodup) (id : JsString) :
    (readWorkspaces (some (.obj (knownWorkspaces persisted associations)))).get id =
      if id ≠ js "__proto__" ∧ id ∈ persisted.map (·.id) then (associations.get id).filter (· ≠ []) else none := by
  have hfilter : OMap.get (associations.filter fun entry => decide (entry.1 ∈ persisted.map (·.id))) id =
      if id ∈ persisted.map (·.id) then associations.get id else none := by
    rw [OMap.get_filter_key associations (fun k => decide (k ∈ persisted.map (·.id)))]
    simp only [decide_eq_true_eq]
  have hkeys : (OMap.keys (associations.filter fun entry => decide (entry.1 ∈ persisted.map (·.id)))).Nodup :=
    (filter_sublist.map Prod.fst).nodup hn
  rw [get_readWorkspaces (nodup_knownWorkspaces persisted associations)]
  unfold knownWorkspaces
  by_cases hid : id = js "__proto__"
  · rw [hid, get_proto_foldl_setWorkspace _ rfl, if_neg fun h => h.1 rfl]
    rfl
  rw [get_foldl_setWorkspace hkeys _ hid, hfilter]
  split
  · rename_i hmem
    rw [if_pos ⟨hid, hmem⟩]
    cases associations.get id with
    | none => rfl
    | some root =>
      by_cases hroot : root = []
      all_goals simp [rootOf, hroot, Option.filter]
  · rename_i hmem
    rw [if_neg fun h => hmem h.2]
    rfl

theorem readState_payload (records : List RoutineRecord) (associations : OMap JsString JsString) :
    readState (statePayload records associations) = some (
      (records.filter (·.intervalMinutes.isSome)).map stored,
      readWorkspaces (some (.obj (knownWorkspaces (records.filter (·.intervalMinutes.isSome)) associations)))) := by
  have hdistinct : (Json.obj [(js "version", .num (JsNumber.ofNat 1)),
      (js "routines", .arr ((records.filter (·.intervalMinutes.isSome)).map encodeRecord)),
      (js "workspaces", .obj (knownWorkspaces (records.filter (·.intervalMinutes.isSome)) associations))]).distinct =
        true := by
    have hkeys : [js "version", js "routines", js "workspaces"].Nodup := by decide
    refine Json.distinct_obj.2 ⟨hkeys, fun entry hentry => ?_⟩
    simp only [mem_cons, not_mem_nil, or_false] at hentry
    rcases hentry with rfl | rfl | rfl
    · rfl
    · show (Json.arr _).distinct = true
      rw [Json.distinct, Json.distinctItems_iff]
      intro item hitem
      obtain ⟨record, -, rfl⟩ := mem_map.1 hitem
      exact distinct_encodeRecord record
    · refine Json.distinct_obj.2 ⟨nodup_knownWorkspaces _ _, fun entry hentry => ?_⟩
      have hall : ∀ (entries : OMap JsString JsString) (acc : OMap JsString Json),
          (∀ e ∈ acc, e.2.distinct = true) → ∀ e ∈ entries.foldl setWorkspace acc, e.2.distinct = true := by
        intro entries
        induction entries with
        | nil => exact fun acc h => h
        | cons entry entries ih =>
          intro acc h
          refine ih _ fun e he => ?_
          unfold setWorkspace at he
          split at he
          · exact h e he
          · rcases OMap.mem_set he with rfl | he
            · rfl
            · exact h e he
      exact hall _ [] (forall_mem_nil _) entry hentry
  have hparse := Json.parse_stringify hdistinct
  have hroutines : OMap.get [(js "version", Json.num (JsNumber.ofNat 1)),
      (js "routines", Json.arr ((records.filter (·.intervalMinutes.isSome)).map encodeRecord)),
      (js "workspaces", Json.obj (knownWorkspaces (records.filter (·.intervalMinutes.isSome)) associations))]
      (js "routines") = some (.arr ((records.filter (·.intervalMinutes.isSome)).map encodeRecord)) := rfl
  have hworkspaces : OMap.get [(js "version", Json.num (JsNumber.ofNat 1)),
      (js "routines", Json.arr ((records.filter (·.intervalMinutes.isSome)).map encodeRecord)),
      (js "workspaces", Json.obj (knownWorkspaces (records.filter (·.intervalMinutes.isSome)) associations))]
      (js "workspaces") =
        some (.obj (knownWorkspaces (records.filter (·.intervalMinutes.isSome)) associations)) := rfl
  have hdecoded : ((records.filter (·.intervalMinutes.isSome)).map encodeRecord).filterMap readRecord =
      (records.filter (·.intervalMinutes.isSome)).map stored := by
    rw [filterMap_map]
    exact (filterMap_congr fun record _ => readRecord_encode record).trans
      (congrFun filterMap_eq_map _)
  unfold readState statePayload
  rw [hparse]
  simp only [hroutines, hworkspaces, hdecoded]

theorem storeHas_payload {records : List RoutineRecord}
    (hn : associations.keys.Nodup)
    (hforeign : ∀ e ∈ foreignOf workspaceRoot (records, associations), Persistable e.1 ∧ e.2 ≠ []) :
    StoreHas workspaceRoot (foreignOf workspaceRoot (records, associations)) (statePayload records associations) := by
  refine ⟨_, readState_payload records associations, ?_⟩
  unfold foreignOf
  rw [filterMap_map, filterMap_filter]
  refine filterMap_congr fun record hrecord => ?_
  cases hother : otherWorkspace workspaceRoot associations record.id with
  | some w =>
    obtain ⟨hpersistable, hw⟩ := hforeign (record, w) (mem_foreignOf.2 ⟨hrecord, hother⟩)
    obtain ⟨hget, hne⟩ := otherWorkspace_eq_some.1 hother
    have hmem : record.id ∈ (records.filter (·.intervalMinutes.isSome)).map (·.id) :=
      mem_map.2 ⟨record, mem_filter.2 ⟨hrecord, hpersistable.interval⟩, rfl⟩
    have hstored : otherWorkspace workspaceRoot (readWorkspaces (some (.obj (knownWorkspaces
        (records.filter (·.intervalMinutes.isSome)) associations)))) record.id = some w := by
      rw [otherWorkspace_eq_some, get_knownWorkspaces hn, if_pos ⟨hpersistable.id, hmem⟩, hget]
      exact ⟨by simpa using hw, hne⟩
    have hsame : stored record = record := by
      obtain ⟨-, hon, hrules, -⟩ := hpersistable
      obtain ⟨id, botId, name, prompt, interval, on, rules, state, created, next, last, error, count⟩ := record
      cases hon
      cases hrules
      rfl
    show (if record.intervalMinutes.isSome = true then _ else _) = _
    rw [if_pos hpersistable.interval]
    show (otherWorkspace _ _ record.id).map (stored record, ·) = (some w).map (record, ·)
    rw [hstored, hsame]
  | none =>
    show (if record.intervalMinutes.isSome = true then (otherWorkspace _ _ record.id).map _ else none) = none
    split
    · have hstored : otherWorkspace workspaceRoot (readWorkspaces (some (.obj (knownWorkspaces
          (records.filter (·.intervalMinutes.isSome)) associations)))) record.id = none := by
        cases hsome : otherWorkspace workspaceRoot (readWorkspaces (some (.obj (knownWorkspaces
            (records.filter (·.intervalMinutes.isSome)) associations)))) record.id with
        | none => rfl
        | some w =>
          rw [otherWorkspace_eq_some, get_knownWorkspaces hn] at hsome
          obtain ⟨hget, hne⟩ := hsome
          split at hget
          · have hget' := (Option.filter_eq_some_iff.1 hget).1
            rw [otherWorkspace_eq_some.2 ⟨hget', hne⟩] at hother
            cases hother
          · cases hget
      rw [hstored]
      rfl
    · rfl

/-- The workspaces of a store's foreign routines are not empty. -/
theorem StoreHas.ne {F : List (RoutineRecord × JsString)} {text : JsString} (h : StoreHas workspaceRoot F text)
    {e : RoutineRecord × JsString} (he : e ∈ F) : e.2 ≠ [] := by
  obtain ⟨store, hread, rfl⟩ := h
  exact readState_ne hread (otherWorkspace_eq_some.1 (mem_foreignOf.1 he).2).1

end Wrenyard.Scheduler
