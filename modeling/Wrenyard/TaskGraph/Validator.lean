import Wrenyard.TaskGraph.Model

/-!
# Validation of a patched graph

`validateTaskGraphPostImage` applies the operations of a patch to a copy of the graph, refusing those on a node that
is not planned or failed, and then checks the resulting image: one start node, no missing dependency and no cycle.
The checks of conditions, schemas, wiring and payloads that follow, and the schemas a node is given, are a parameter
here: they only add issues, or replace the schemas of the image.
-/

namespace Wrenyard.TaskGraph

open Js List

inductive PatchErrorCode where
  | staleBase
  | patchNotFound
  | dupId
  | frozenNode
  | mapPathUnknown
  | mapTypeMismatch
  | inputIncomplete
  | mapNotInDeps
  | cycle
  | danglingDep
  | schemaInvalid
  | schemaRequired

inductive Issue where
  | op (opIndex : Nat) (nodeId : NodeId) (code : PatchErrorCode) (message : JsString)
  | wiring (nodeId : NodeId) (slot : JsString) (code : PatchErrorCode) (message : JsString)
  | graph (nodeIds : List NodeId) (code : PatchErrorCode) (message : JsString)

structure Contracts where
  furtherIssues : Graph → List Issue
  schemasOf : Graph → NodeId → JsonObject × JsonObject

mutual

/-- `deepCloneNodes` of a property's value. -/
def cloneProperty : Json → Json
  | .arr items => .arr (cloneItems items)
  | .obj members => .obj (cloneMembers members)
  | value => value

/-- The elements of an array: an array among them is cloned as the object of its indices. -/
def cloneItems : List Json → List Json
  | [] => []
  | .arr items :: rest => .obj (cloneIndexed 0 items) :: cloneItems rest
  | .obj members :: rest => .obj (cloneMembers members) :: cloneItems rest
  | value :: rest => value :: cloneItems rest

def cloneIndexed (index : Nat) : List Json → List (JsString × Json)
  | [] => []
  | item :: rest => (natText index, cloneProperty item) :: cloneIndexed (index + 1) rest

def cloneMembers : List (JsString × Json) → List (JsString × Json)
  | [] => []
  | (key, value) :: rest => (key, cloneProperty value) :: cloneMembers rest

end

def Node.clone (node : Node) : Node :=
  { node with
    action := { node.action with params := cloneMembers node.action.params }
    inputSchema := cloneMembers node.inputSchema
    outputSchema := cloneMembers node.outputSchema }

def deepCloneNodes (nodes : OMap NodeId Node) : OMap NodeId Node := nodes.map fun entry => (entry.1, entry.2.clone)

def frozenState (current : Graph) (states : NodeId → Option NodeRunState) (id : NodeId) : Option NodeRunState :=
  if current.nodes.has id ∧ (states id).getD .planned ≠ .planned ∧ (states id).getD .planned ≠ .failed then
    some ((states id).getD .planned)
  else none

def preflight (current : Graph) (states : NodeId → Option NodeRunState) (acc : OMap NodeId Node × List Issue)
    (entry : PatchOperation × Nat) : OMap NodeId Node × List Issue :=
  match entry.1 with
  | .addNode node =>
    if acc.1.has node.id then
      (acc.1, acc.2 ++
        [.op entry.2 node.id .dupId (js "node id \"" ++ node.id ++ js "\" already exists in graph")])
    else (acc.1.set node.id node, acc.2)
  | .removeNode id =>
    match frozenState current states id with
    | some state =>
      (acc.1, acc.2 ++
        [.op entry.2 id .frozenNode
          (js "cannot remove node \"" ++ id ++ js "\" in state \"" ++ state.text ++ js "\"")])
    | none => (acc.1.delete id, acc.2)
  | .replaceNode node =>
    match frozenState current states node.id with
    | some state =>
      (acc.1, acc.2 ++
        [.op entry.2 node.id .frozenNode
          (js "cannot replace node \"" ++ node.id ++ js "\" in state \"" ++ state.text ++ js "\"")])
    | none => (acc.1.set node.id node, acc.2)

variable (image : Graph)

def startNodes : List NodeId :=
  (image.nodes.filter fun entry => entry.2.action.type = .start).map Prod.fst

def startIssues : List Issue :=
  match startNodes image with
  | [] => [.graph [] .schemaInvalid (js "graph must have exactly one start node; none found")]
  | [_] => []
  | ids => [.graph (sortStrings ids) .schemaInvalid (js "graph must have exactly one start node")]

def startConstraintIssues : List Issue :=
  (image.nodes.filter fun entry => entry.2.action.type = .start).flatMap fun entry =>
    (if entry.2.deps.isEmpty then []
      else [.graph [entry.1] .schemaInvalid (js "start node \"" ++ entry.1 ++ js "\" must have empty deps")]) ++
    if entry.2.input.isEmpty then []
      else [.graph [entry.1] .schemaInvalid (js "start node \"" ++ entry.1 ++ js "\" must have empty input slots")]

def arityIssues : List Issue :=
  image.nodes.flatMap fun entry =>
    (if entry.2.action.type = .convert ∧ entry.2.deps.length ≠ 1 then
        [.graph [entry.1] .schemaInvalid
          (js "convert node \"" ++ entry.1 ++ js "\" must have exactly one dependency")]
      else []) ++
    if entry.2.action.type = .join ∧ entry.2.deps.length < 2 then
      [.graph [entry.1] .schemaInvalid (js "join node \"" ++ entry.1 ++ js "\" must have at least two dependencies")]
    else []

def danglingIssues : List Issue :=
  image.nodes.flatMap fun entry =>
    (entry.2.deps.filter fun dep => !image.nodes.has dep).map fun dep =>
      .graph (sortStrings [entry.1, dep]) .danglingDep
        (js "node \"" ++ entry.1 ++ js "\" depends on \"" ++ dep ++ js "\" which does not exist")

def cyclesOf : List (List NodeId) :=
  (sortStrings image.nodes.keys).flatMap fun nodeId =>
    (Digraph.cyclesFrom image.deps (image.nodes.keys.length + 1) [] nodeId).map sortStrings

def distinctCycles : List (List NodeId) → List (List NodeId)
  | [] => []
  | cycle :: rest =>
    cycle :: (distinctCycles rest).filter fun other => (js ",").intercalate other ≠ (js ",").intercalate cycle

/-- `findAllCycles`. -/
def findAllCycles (image : Graph) : List (List NodeId) := distinctCycles (cyclesOf image)

def cycleIssues : List Issue :=
  (findAllCycles image).map fun cycle =>
    .graph cycle .cycle (js "dependency cycle: " ++ (js " -> ").intercalate cycle)

def patchedImage (current : Graph) (ops : List PatchOperation) (states : NodeId → Option NodeRunState) :
    Graph × List Issue :=
  let acc := ops.zipIdx.foldl (preflight current states) (deepCloneNodes current.nodes, [])
  (⟨current.revision, acc.1⟩, acc.2)

def materialize (contracts : Contracts) (image : Graph) : Graph :=
  { image with
    nodes := image.nodes.map fun entry =>
      (entry.1, { entry.2 with
        inputSchema := (contracts.schemasOf image entry.1).1
        outputSchema := (contracts.schemasOf image entry.1).2 }) }

def validateTaskGraphPostImage (contracts : Contracts) (current : Graph) (ops : List PatchOperation)
    (states : NodeId → Option NodeRunState) : Except (List Issue) Graph :=
  let patched := patchedImage current ops states
  let image := patched.1
  let issues := patched.2 ++ startIssues image ++ startConstraintIssues image ++ arityIssues image ++
    danglingIssues image ++ cycleIssues image ++ contracts.furtherIssues image
  if issues.isEmpty then .ok (materialize contracts image) else .error issues

/-! ### Accepted graphs -/

structure Graph.WellFormed (g : Graph) : Prop where
  nodup : g.nodes.keys.Nodup
  ids : ∀ id node, g.nodes.get id = some node → node.id = id
  start : ∃ startId node, g.nodes.get startId = some node ∧ node.action.type = .start ∧
    ∀ id node', g.nodes.get id = some node' → node'.action.type = .start → id = startId
  deps : ∀ id, ∀ dep ∈ g.deps id, dep ∈ g.nodes.keys
  acyclic : ∀ id ∈ g.nodes.keys, Digraph.cyclesFrom g.deps (g.nodes.keys.length + 1) [] id = []

theorem Graph.WellFormed.exists_no_dep {g : Graph} (h : g.WellFormed) {P : NodeId → Prop}
    (hkeys : ∀ id, P id → id ∈ g.nodes.keys) {id : NodeId} (hid : P id) :
    ∃ id', P id' ∧ ∀ dep ∈ g.deps id', ¬ P dep :=
  Digraph.exists_no_succ h.acyclic hkeys hid

def IdsAreKeys (nodes : OMap NodeId Node) : Prop := ∀ id node, nodes.get id = some node → node.id = id

private theorem preflight_issues {current : Graph} {states : NodeId → Option NodeRunState}
    {acc : OMap NodeId Node × List Issue} {entry : PatchOperation × Nat} :
    ∃ more, (preflight current states acc entry).2 = acc.2 ++ more := by
  unfold preflight
  split
  all_goals
    split
    · exact ⟨_, rfl⟩
    · exact ⟨[], (append_nil _).symm⟩

variable {current : Graph} {states : NodeId → Option NodeRunState}

private theorem foldl_preflight_issues (entries : List (PatchOperation × Nat)) (acc : OMap NodeId Node × List Issue)
    (h : (entries.foldl (preflight current states) acc).2 = []) : acc.2 = [] := by
  induction entries generalizing acc with
  | nil => exact h
  | cons entry entries ih =>
    obtain ⟨more, hmore⟩ := @preflight_issues current states acc entry
    have := ih _ h
    rw [hmore] at this
    exact (append_eq_nil_iff.mp this).1

def applyToImage (nodes : OMap NodeId Node) : PatchOperation → OMap NodeId Node
  | .addNode node => nodes.set node.id node
  | .removeNode id => nodes.delete id
  | .replaceNode node => nodes.set node.id node

private theorem preflight_applied {acc : OMap NodeId Node × List Issue} {entry : PatchOperation × Nat}
    (h : (preflight current states acc entry).2 = []) : (preflight current states acc entry).1 =
    applyToImage acc.1 entry.1 ∧
    (acc.1.has entry.1.target = false ∨ frozenState current states entry.1.target = none) := by
  obtain ⟨op, i⟩ := entry
  cases op with
  | addNode node =>
    simp only [preflight] at h ⊢
    split at h
    · simp at h
    · rename_i hhas
      rw [if_neg hhas]
      exact ⟨rfl, Or.inl (Bool.eq_false_iff.mpr hhas)⟩
  | removeNode | replaceNode =>
    simp only [preflight] at h ⊢
    split at h
    · simp at h
    · rename_i hfrozen
      exact ⟨rfl, Or.inr hfrozen⟩

variable {id : NodeId}

theorem get_applyToImage_of_ne {nodes : OMap NodeId Node} {op : PatchOperation} (h : op.target ≠ id) :
    (applyToImage nodes op).get id = nodes.get id := by
  cases op with
  | addNode | replaceNode => exact (OMap.get_set ..).trans (if_neg h)
  | removeNode id' => exact (OMap.get_delete ..).trans (if_neg h)

private theorem foldl_preflight (entries : List (PatchOperation × Nat)) (acc : OMap NodeId Node × List Issue)
    (h : (entries.foldl (preflight current states) acc).2 = [])
    (hfrozen : ∀ id, frozenState current states id ≠ none → acc.1.has id = true) :
    (entries.foldl (preflight current states) acc).1 = (entries.map Prod.fst).foldl applyToImage acc.1 ∧
    ∀ entry ∈ entries, frozenState current states entry.1.target = none := by
  induction entries generalizing acc with
  | nil => exact ⟨rfl, by simp⟩
  | cons entry entries ih =>
    obtain ⟨happlied, htarget⟩ := preflight_applied (foldl_preflight_issues entries _ h)
    have hnone : frozenState current states entry.1.target = none := by
      rcases htarget with hnew | hnone
      · by_contra hne
        rw [hfrozen _ hne] at hnew
        cases hnew
      · exact hnone
    obtain ⟨himage, hall⟩ := ih _ h (by
      intro id hid
      have hne : entry.1.target ≠ id := by
        rintro rfl
        exact hid hnone
      rw [happlied, OMap.has, get_applyToImage_of_ne hne]
      exact hfrozen id hid)
    refine ⟨?_, fun entry' he => ?_⟩
    · rw [foldl_cons, himage, happlied]
      rfl
    · rcases mem_cons.mp he with rfl | he
      · exact hnone
      · exact hall entry' he

def imageNodes (current : Graph) (ops : List PatchOperation) : OMap NodeId Node :=
  ops.foldl applyToImage (deepCloneNodes current.nodes)

variable {ops : List PatchOperation}

theorem patchedImage_applied (h : (patchedImage current ops states).2 = []) : (patchedImage current ops states).1 =
    ⟨current.revision, imageNodes current ops⟩ ∧ ∀ op ∈ ops, frozenState current states op.target = none := by
  have hfrozen : ∀ id, frozenState current states id ≠ none → (deepCloneNodes current.nodes).has id = true := by
    intro id hid
    unfold frozenState at hid
    split at hid
    · rename_i hcond
      rw [OMap.has_eq_true_iff, deepCloneNodes, OMap.keys_map, ← OMap.has_eq_true_iff]
      exact hcond.1
    · exact absurd rfl hid
  obtain ⟨himage, hall⟩ := foldl_preflight ops.zipIdx _ h hfrozen
  have hops : ops.zipIdx.map Prod.fst = ops := by simp
  constructor
  · unfold patchedImage imageNodes
    simp only [himage, hops]
  · intro op hop
    rw [← hops] at hop
    obtain ⟨entry, hentry, rfl⟩ := mem_map.mp hop
    exact hall entry hentry

variable {contracts : Contracts}

theorem validate_ok {g : Graph} (h : validateTaskGraphPostImage contracts current ops states = .ok g) : g =
    materialize contracts ⟨current.revision, imageNodes current ops⟩ ∧
    (∀ op ∈ ops, frozenState current states op.target = none) ∧
    startIssues ⟨current.revision, imageNodes current ops⟩ = [] ∧
    danglingIssues ⟨current.revision, imageNodes current ops⟩ = [] ∧
    cycleIssues ⟨current.revision, imageNodes current ops⟩ = [] := by
  unfold validateTaskGraphPostImage at h
  simp only at h
  split at h
  · rename_i hissues
    simp only [List.isEmpty_iff, List.append_eq_nil_iff] at hissues
    obtain ⟨⟨⟨⟨⟨⟨hops, hstart⟩, -⟩, -⟩, hdangling⟩, hcycle⟩, -⟩ := hissues
    obtain ⟨himage, hfrozen⟩ := patchedImage_applied hops
    rw [himage] at h hstart hdangling hcycle
    cases h
    exact ⟨rfl, hfrozen, hstart, hdangling, hcycle⟩
  · cases h

@[simp] theorem keys_materialize (contracts : Contracts) (image : Graph) :
    (materialize contracts image).nodes.keys = image.nodes.keys := OMap.keys_map ..

variable {image}

theorem get_materialize {node : Node} (h : (materialize contracts image).nodes.get id = some node) :
    ∃ node', image.nodes.get id = some node' ∧ node.id = node'.id ∧ node.action = node'.action ∧ node.deps =
    node'.deps := by
  unfold materialize at h
  rw [OMap.get_map, Option.map_eq_some_iff] at h
  obtain ⟨node', hget, rfl⟩ := h
  exact ⟨node', hget, rfl, rfl, rfl⟩

theorem exists_get_materialize (contracts : Contracts) {node : Node}
    (h : image.nodes.get id = some node) :
    ∃ node', (materialize contracts image).nodes.get id = some node' ∧ node'.action = node.action := by
  unfold materialize
  rw [OMap.get_map, h]
  exact ⟨_, rfl, rfl⟩

theorem deps_materialize (contracts : Contracts) (image : Graph) :
    (materialize contracts image).deps = image.deps := by
  funext id
  unfold Graph.deps materialize
  rw [OMap.get_map]
  cases image.nodes.get id <;> rfl

private theorem idsAreKeys_imageNodes (h : IdsAreKeys current.nodes) (ops : List PatchOperation) :
    IdsAreKeys (imageNodes current ops) := by
  have hclone : IdsAreKeys (deepCloneNodes current.nodes) := by
    intro id node hget
    unfold deepCloneNodes at hget
    rw [OMap.get_map, Option.map_eq_some_iff] at hget
    obtain ⟨node', hget', rfl⟩ := hget
    exact h id node' hget'
  have hset : ∀ (nodes : OMap NodeId Node) (node : Node), IdsAreKeys nodes → IdsAreKeys (nodes.set node.id node) := by
    intro nodes node hnodes id node' hget
    rw [OMap.get_set] at hget
    split at hget
    · rename_i heq
      cases hget
      exact heq
    · exact hnodes id node' hget
  unfold imageNodes
  generalize deepCloneNodes current.nodes = nodes at hclone
  induction ops generalizing nodes with
  | nil => exact hclone
  | cons op ops ih =>
    refine ih (applyToImage nodes op) ?_
    cases op with
    | addNode node => exact hset nodes node hclone
    | removeNode id =>
      intro id' node' hget
      unfold applyToImage at hget
      rw [OMap.get_delete] at hget
      split at hget
      · cases hget
      · exact hclone id' node' hget
    | replaceNode node => exact hset nodes node hclone

private theorem nodup_keys_imageNodes (h : current.nodes.keys.Nodup) (ops : List PatchOperation) :
    (imageNodes current ops).keys.Nodup := by
  have hclone : (deepCloneNodes current.nodes).keys.Nodup := by
    rw [deepCloneNodes, OMap.keys_map]
    exact h
  unfold imageNodes
  generalize deepCloneNodes current.nodes = nodes at hclone
  induction ops generalizing nodes with
  | nil => exact hclone
  | cons op ops ih =>
    refine ih (applyToImage nodes op) ?_
    cases op with
    | addNode node => exact OMap.nodup_keys_set hclone _ _
    | removeNode id => exact OMap.nodup_keys_delete hclone _
    | replaceNode node => exact OMap.nodup_keys_set hclone _ _

private theorem exists_start_of_startIssues (hnodup : image.nodes.keys.Nodup) (h : startIssues image = []) :
    ∃ startId node, image.nodes.get startId = some node ∧ node.action.type = .start ∧ ∀ id node', image.nodes.get id =
    some node' → node'.action.type = .start → id = startId := by
  have hmem : ∀ id, id ∈ startNodes image ↔ ∃ node, image.nodes.get id = some node ∧ node.action.type = .start := by
    intro id
    unfold startNodes
    rw [mem_map]
    constructor
    · rintro ⟨⟨id', node⟩, hentry, rfl⟩
      rw [mem_filter] at hentry
      exact ⟨node, OMap.get_of_mem hnodup hentry.1, of_decide_eq_true hentry.2⟩
    · rintro ⟨node, hget, htype⟩
      exact ⟨(id, node), mem_filter.mpr ⟨OMap.mem_of_get hget, decide_eq_true htype⟩, rfl⟩
  unfold startIssues at h
  split at h
  · cases h
  · rename_i startId hstart
    obtain ⟨node, hget, htype⟩ := (hmem startId).mp (by rw [hstart]; exact mem_singleton_self startId)
    refine ⟨startId, node, hget, htype, fun id node' hget' htype' => ?_⟩
    have hid := (hmem id).mpr ⟨node', hget', htype'⟩
    rw [hstart] at hid
    exact mem_singleton.mp hid
  · cases h

private theorem deps_of_danglingIssues (h : danglingIssues image = []) (id : NodeId) :
    ∀ dep ∈ image.deps id, dep ∈ image.nodes.keys := by
  intro dep hdep
  unfold Graph.deps at hdep
  cases hget : image.nodes.get id <;> rw [hget] at hdep
  case none => cases hdep
  case some node =>
    have hentry := flatMap_eq_nil_iff.mp h (id, node) (OMap.mem_of_get hget)
    rw [map_eq_nil_iff, filter_eq_nil_iff] at hentry
    have hhas := hentry dep hdep
    rw [← OMap.has_eq_true_iff]
    simpa using hhas

private theorem acyclic_of_cycleIssues (h : cycleIssues image = []) :
    ∀ id ∈ image.nodes.keys, Digraph.cyclesFrom image.deps (image.nodes.keys.length + 1) [] id = [] := by
  intro id hid
  unfold cycleIssues findAllCycles at h
  have hcycles : cyclesOf image = [] := by
    cases hc : cyclesOf image with
    | nil => rfl
    | cons cycle rest =>
      rw [hc] at h
      cases h
  have hid' := flatMap_eq_nil_iff.mp hcycles id (mem_sortStrings.mpr hid)
  exact map_eq_nil_iff.mp hid'

def Graph.Depends (g : Graph) (id dep : NodeId) : Prop := dep ∈ g.deps id

theorem acyclic_depends {g : Graph}
    (h : ∀ id ∈ g.nodes.keys, Digraph.cyclesFrom g.deps (g.nodes.keys.length + 1) [] id = []) (id : NodeId) :
    ¬ Relation.TransGen g.Depends id id := by
  intro hid
  have hkeys : ∀ a, Relation.TransGen g.Depends id a ∧ Relation.TransGen g.Depends a id → a ∈ g.nodes.keys := by
    rintro a ⟨-, hfrom⟩
    obtain ⟨dep, hdep, -⟩ := Relation.TransGen.head'_iff.1 hfrom
    by_contra hno
    rw [Graph.Depends, Graph.deps, OMap.get_eq_none_iff.mpr hno] at hdep
    cases hdep
  obtain ⟨a, ⟨hto, hfrom⟩, hno⟩ := Digraph.exists_no_succ h hkeys ⟨hid, hid⟩
  -- the first step of the way back stays on the cycle
  obtain ⟨dep, hdep, hback⟩ := Relation.TransGen.head'_iff.1 hfrom
  exact hno dep hdep ⟨hto.tail hdep, Relation.TransGen.trans_right hback hid⟩

theorem mem_of_mem_distinctCycles {cycles : List (List NodeId)} {cycle : List NodeId}
    (h : cycle ∈ distinctCycles cycles) : cycle ∈ cycles := by
  induction cycles with
  | nil => exact h
  | cons other cycles ih =>
    rcases mem_cons.mp h with rfl | h
    · exact mem_cons_self
    · exact mem_cons_of_mem _ (ih (mem_of_mem_filter h))

/-- The search reports nothing exactly if there is no cycle, and only nodes on cycles. -/
theorem findAllCycles_spec :
    (findAllCycles image = [] ↔ ∀ id, ¬ Relation.TransGen image.Depends id id) ∧
    ∀ cycle ∈ findAllCycles image, cycle ≠ [] ∧ ∀ id ∈ cycle, Relation.TransGen image.Depends id id := by
  have hcycles : ∀ cycle ∈ findAllCycles image, cycle ≠ [] ∧ ∀ id ∈ cycle, Relation.TransGen image.Depends id id := by
    intro cycle hcycle
    obtain ⟨start, -, hstart⟩ := mem_flatMap.mp (mem_of_mem_distinctCycles hcycle)
    obtain ⟨path, hpath, rfl⟩ := mem_map.mp hstart
    obtain ⟨hne, hall⟩ := Digraph.of_mem_cyclesFrom (R := image.Depends) (fun _ _ h => h) hpath .nil nofun
    obtain ⟨id, hid⟩ := exists_mem_of_ne_nil _ hne
    exact ⟨ne_nil_of_mem (mem_sortStrings.mpr hid), fun id hid => hall id (mem_sortStrings.mp hid)⟩
  refine ⟨⟨fun hnil => ?_, fun hno => ?_⟩, hcycles⟩
  · refine acyclic_depends (acyclic_of_cycleIssues ?_)
    rw [cycleIssues, hnil]
    rfl
  · refine eq_nil_iff_forall_not_mem.mpr fun cycle hcycle => ?_
    obtain ⟨hne, hall⟩ := hcycles cycle hcycle
    obtain ⟨id, hid⟩ := exists_mem_of_ne_nil _ hne
    exact hno id (hall id hid)

theorem wellFormed_of_validate {g : Graph} (hnodup : current.nodes.keys.Nodup) (hids : IdsAreKeys current.nodes)
    (h : validateTaskGraphPostImage contracts current ops states = .ok g) : g.WellFormed := by
  obtain ⟨rfl, -, hstart, hdangling, hcycle⟩ := validate_ok h
  have hnodup' := nodup_keys_imageNodes hnodup ops
  have hids' := idsAreKeys_imageNodes hids ops
  refine ⟨?_, ?_, ?_, ?_, ?_⟩
  · rw [keys_materialize]
    exact hnodup'
  · intro id node hget
    obtain ⟨node', hget', hid, -, -⟩ := get_materialize hget
    exact hid.trans (hids' id node' hget')
  · obtain ⟨startId, node, hget, htype, honly⟩ := exists_start_of_startIssues hnodup' hstart
    obtain ⟨started, hstarted, haction⟩ := exists_get_materialize contracts hget
    refine ⟨startId, started, hstarted, haction ▸ htype, fun id node' hget' htype' => ?_⟩
    obtain ⟨node'', hget'', -, haction', -⟩ := get_materialize hget'
    exact honly id node'' hget'' (haction' ▸ htype')
  · intro id dep hdep
    rw [deps_materialize] at hdep
    rw [keys_materialize]
    exact deps_of_danglingIssues hdangling id dep hdep
  · rw [keys_materialize, deps_materialize]
    exact acyclic_of_cycleIssues hcycle

end Wrenyard.TaskGraph
