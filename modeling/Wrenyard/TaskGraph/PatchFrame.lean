import Wrenyard.TaskGraph.Revisions

/-!
# The frame of a patch

What a patch does to the nodes it does not name.  They come through two clones, and the first makes an object of an
array in an array (`cloneItems`): a patch keeps them exactly where no parameter of one holds such an array.
-/

namespace Wrenyard.TaskGraph

open Js

mutual

def nestedArrays : Json → Bool
  | .arr items => nestedItems items
  | .obj members => nestedMembers members
  | _ => false

def nestedItems : List Json → Bool
  | [] => false
  | .arr _ :: _ => true
  | .obj members :: rest => nestedMembers members || nestedItems rest
  | _ :: rest => nestedItems rest

def nestedMembers : List (JsString × Json) → Bool
  | [] => false
  | (_, value) :: rest => nestedArrays value || nestedMembers rest

end

theorem clone_eq_self_iff : (∀ value, cloneProperty value = value ↔ nestedArrays value = false) ∧
    (∀ members, cloneMembers members = members ↔ nestedMembers members = false) ∧ ∀ items, cloneItems items = items ↔
    nestedItems items = false := by
  refine nestedArrays.mutual_induct _ _ _ ?_ ?_ ?_ ?_ ?_ ?_ ?_ ?_ ?_
  · intro items ih
    simp only [cloneProperty, nestedArrays, Json.arr.injEq, ih]
  · intro members ih
    simp only [cloneProperty, nestedArrays, Json.obj.injEq, ih]
  · intro value harr hobj
    cases value <;> simp_all [cloneProperty, nestedArrays]
  · simp only [cloneItems, nestedItems]
  · intro items rest
    simp [cloneItems, nestedItems]
  · intro members rest ih ih'
    simp only [cloneItems, nestedItems, List.cons.injEq, Json.obj.injEq, Bool.or_eq_false_iff, ih, ih']
  · intro value rest harr hobj ih
    cases value <;> simp_all [cloneItems, nestedItems]
  · simp only [cloneMembers, nestedMembers]
  · intro key value rest ih ih'
    simp only [cloneMembers, nestedMembers, List.cons.injEq, Prod.mk.injEq, true_and, Bool.or_eq_false_iff, ih, ih']

structure SameContent (node node' : Node) : Prop where
  action : node'.action = node.action
  deps : node'.deps = node.deps
  input : node'.input = node.input

/-- The nodes that no operation names are as they were, and a node that an operation gives is as the last one gives
it. -/
structure PatchFrame (current : Graph) (ops : List PatchOperation) (g : Graph) : Prop where
  kept : ∀ id node, (∀ op ∈ ops, op.target ≠ id) → current.nodes.get id = some node →
    ∃ node', g.nodes.get id = some node' ∧ SameContent node node'
  given : ∀ node before op after, ops = before ++ op :: after → op = .addNode node ∨ op = .replaceNode node →
    (∀ op' ∈ after, op'.target ≠ node.id) → ∃ node', g.nodes.get node.id = some node' ∧ SameContent node node'

/-- An accepted patch keeps its frame exactly where no node it leaves alone has an array in an array of its
parameters. -/
theorem patch_frame_iff {contracts : Contracts} {current g : Graph} {ops : List PatchOperation}
    {states : NodeId → Option NodeRunState} (h : validateTaskGraphPostImage contracts current ops states = .ok g) :
    PatchFrame current ops g ↔ ∀ id node, (∀ op ∈ ops, op.target ≠ id) → current.nodes.get id = some node →
    nestedMembers node.action.params = false := by
  constructor
  · intro hframe id node htarget hget
    obtain ⟨node', hget', hsame⟩ := sameNode_of_validate h htarget hget
    obtain ⟨node'', hget'', hcontent⟩ := hframe.kept id node htarget hget
    obtain rfl := Option.some.inj (hget'.symm.trans hget'')
    exact (clone_eq_self_iff.2.1 _).mp (congrArg Action.params (hsame.action.symm.trans hcontent.action))
  · intro hflat
    refine ⟨fun id node htarget hget => ?_, fun node before op after hops hop hafter => ?_⟩
    · obtain ⟨node', hget', hsame⟩ := sameNode_of_validate h htarget hget
      refine ⟨node', hget', ?_, hsame.deps, hsame.input⟩
      rw [hsame.action, (clone_eq_self_iff.2.1 _).mpr (hflat id node htarget hget)]
    · obtain ⟨rfl, -⟩ := validate_ok h
      have himage : (imageNodes current ops).get node.id = some node := by
        unfold imageNodes
        rw [hops, List.foldl_append, List.foldl_cons, get_foldl_applyToImage after _ hafter]
        rcases hop with rfl | rfl <;> exact (OMap.get_set ..).trans (if_pos rfl)
      unfold materialize
      rw [OMap.get_map, himage]
      exact ⟨_, rfl, rfl, rfl, rfl⟩

private theorem toOption_eq_some {ε α : Type} {x : Except ε α} {a : α} : x.toOption = some a ↔ x = .ok a := by
  cases x <;> simp [Except.toOption]

theorem patch_frame_iff_sample : ∃ g, validateTaskGraphPostImage (sampleEnv none (.ok ())).contracts sampleGraph
    samplePatch.ops (fun _ => none) = .ok g ∧ PatchFrame sampleGraph samplePatch.ops g := by
  have hflat : ∀ entry ∈ sampleGraph.nodes, nestedMembers entry.2.action.params = false := by decide
  have hsome : (validateTaskGraphPostImage (sampleEnv none (.ok ())).contracts sampleGraph samplePatch.ops
      fun _ => none).toOption.isSome = true := by decide +kernel
  obtain ⟨g, hg⟩ := Option.isSome_iff_exists.mp hsome
  have h := toOption_eq_some.mp hg
  exact ⟨g, h, (patch_frame_iff h).mpr fun id node _ hget => hflat _ (OMap.mem_of_get hget)⟩

/-- A patch that adds a node makes an object of a row of another node's matrix. -/
theorem not_patch_frame : ¬ ∀ (contracts : Contracts) (g₀ g g' : Graph) (ops ops' : List PatchOperation)
    (states : NodeId → Option NodeRunState), validateTaskGraphPostImage contracts g₀ ops states = .ok g →
    validateTaskGraphPostImage contracts g ops' states = .ok g' → PatchFrame g ops' g' := by
  intro h
  have hany : (validateTaskGraphPostImage (sampleEnv none (.ok ())).contracts sampleGraph
      [.addNode (sampleNode (js "m")
      .checkpoint [js "start"] [(js "rows", .arr [.arr []])])] fun _ => none).toOption.any fun g =>
        (validateTaskGraphPostImage (sampleEnv none (.ok ())).contracts g samplePatch.ops fun _ => none).toOption.any
          fun g' => (g.nodes.get (js "m")).any fun node =>
            decide ((g'.nodes.get (js "m")).map Node.action ≠ some node.action) := by
    decide +kernel
  simp only [Option.any_eq_true, toOption_eq_some, decide_eq_true_eq] at hany
  obtain ⟨g, hg, g', hg', node, hnode, hne⟩ := hany
  obtain ⟨node', hget, hsame⟩ := (h _ _ _ _ _ _ _ hg hg').kept (js "m") node (by decide) hnode
  exact hne (by rw [hget, Option.map_some, hsame.action])

end Wrenyard.TaskGraph
