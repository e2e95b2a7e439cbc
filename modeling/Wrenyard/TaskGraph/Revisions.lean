import Wrenyard.TaskGraph.Causes

/-!
# Patches and revisions

A patch is stored with the revision it was asked for and waits to be confirmed or rejected.  An effect of a run leaves
graph and patches alone, or stores a patch, or rejects one, or applies one (`PatchStep`); only the last changes the
graph.  So a patch is applied once at most, on the revision it was asked for, and raises that by one.
-/

namespace Wrenyard.TaskGraph

open Js Option

variable {env : Env} {e : Exec} {s s' : Store}

variable {patchId : JsString}

namespace Store

def patchStatus (s : Store) (patchId : JsString) : Option PatchStatus :=
  (s.readPatch patchId).map StoredPatch.status

variable {stored : StoredPatch}

theorem id_of_readPatch {s : Store} (h : s.readPatch patchId = some stored) :
    stored.id = patchId := by
  simpa using List.find?_some h

theorem readPatch_storePendingPatch (s : Store) (stored : StoredPatch) (patchId : JsString) :
    (s.storePendingPatch stored).readPatch patchId =
      (s.readPatch patchId).or (if stored.id = patchId then some stored else none) := by
  unfold readPatch storePendingPatch
  simp

theorem readPatch_consumePatch (s : Store) (consumed : JsString) (status : PatchStatus) (patchId : JsString) :
    (s.consumePatch consumed status).readPatch patchId =
      (s.readPatch patchId).map fun p =>
        if p.id = consumed ∧ p.status = .pending then { p with status := status } else p := by
  unfold readPatch consumePatch
  rw [List.find?_map]
  congr 2
  funext p
  simp only [Function.comp_apply]
  split <;> rfl

theorem readPatch_applyPatch (s : Store) (stored : StoredPatch) (graph : Graph) (eventId : JsString) (at_ : Time)
    (patchId : JsString) :
    (s.applyPatch stored graph eventId at_).readPatch patchId =
    (s.consumePatch stored.id .applied).readPatch patchId := by
  have hpatches := (foldl_applyOperation_kept at_ stored.patch.ops (s.replaceGraph graph)).2.2.1
  unfold readPatch applyPatch appendJournal consumePatch
  rw [hpatches]
  rfl

end Store

def Applies (s s' : Store) (patchId : JsString) : Prop :=
  s.patchStatus patchId ≠ some .applied ∧ s'.patchStatus patchId = some .applied

/-! ### What an effect does to graph and patches -/

inductive PatchStep (s : Store) : Store → Prop where
  | own {s' : Store} : s'.graph = s.graph → s'.patches = s.patches → PatchStep s s'
  | requested {stored : StoredPatch} : s.readPatch stored.id = none → stored.status = .pending →
      stored.baseRevision = s.graph.revision → stored.patch.baseRevision = s.graph.revision →
      PatchStep s (s.storePendingPatch stored)
  | rejected (patchId : JsString) : PatchStep s (s.consumePatch patchId .rejected)
  | applied {contracts : Contracts} {stored : StoredPatch} {image : Graph} (eventId : JsString) (at_ : Time) :
      s.readPatch stored.id = some stored → stored.status = .pending → stored.baseRevision = s.graph.revision →
      validateTaskGraphPostImage contracts s.graph stored.patch.ops s.stateOf = .ok image →
      PatchStep s (s.applyPatch stored { image with revision := s.graph.revision + 1 } eventId at_)

private theorem applyPatch_graph (stored : StoredPatch) (graph : Graph) (eventId : JsString) (at_ : Time) :
    (s.applyPatch stored graph eventId at_).graph = graph :=
  (foldl_applyOperation_kept at_ stored.patch.ops (s.replaceGraph graph)).2.1

variable (h : PatchStep s s')
include h

/-- The status of every patch after an effect. -/
theorem PatchStep.patchStatus (patchId : JsString) :
    s'.patchStatus patchId = s.patchStatus patchId ∨
      (s.patchStatus patchId = none ∧ s'.patchStatus patchId = some .pending ∧ s'.graph = s.graph) ∨
      (s.patchStatus patchId = some .pending ∧ s'.patchStatus patchId = some .rejected ∧ s'.graph = s.graph) ∨
      (s.patchStatus patchId = some .pending ∧ s'.patchStatus patchId = some .applied ∧
        s'.graph.revision = s.graph.revision + 1) := by
  have hconsumed : ∀ consumed status, (s.consumePatch consumed status).patchStatus patchId = s.patchStatus patchId ∨
      (consumed = patchId ∧ s.patchStatus patchId = some .pending ∧
        (s.consumePatch consumed status).patchStatus patchId = some status) := by
    intro consumed status
    unfold Store.patchStatus
    rw [Store.readPatch_consumePatch]
    cases hread : s.readPatch patchId with
    | none => exact Or.inl rfl
    | some stored =>
      by_cases hpending : stored.id = consumed ∧ stored.status = .pending
      · refine Or.inr ⟨hpending.1.symm.trans (Store.id_of_readPatch hread), ?_, ?_⟩
        · rw [map_some, hpending.2]
        · rw [map_some, map_some, if_pos hpending]
      · left
        rw [map_some, map_some, map_some, if_neg hpending]
  cases h with
  | own hgraph hpatches =>
    left
    unfold Store.patchStatus Store.readPatch
    rw [hpatches]
  | @requested stored hnone hpending hbase hasked =>
    by_cases hid : stored.id = patchId
    · subst hid
      refine Or.inr (Or.inl ⟨?_, ?_, rfl⟩)
      · unfold Store.patchStatus
        rw [hnone, map_none]
      · unfold Store.patchStatus
        rw [Store.readPatch_storePendingPatch, hnone, if_pos rfl, none_or, map_some, hpending]
    · left
      unfold Store.patchStatus
      rw [Store.readPatch_storePendingPatch, if_neg hid, or_none]
  | rejected consumed =>
    rcases hconsumed consumed .rejected with hsame | ⟨-, hpending, hstatus⟩
    · exact Or.inl hsame
    · exact Or.inr (Or.inr (Or.inl ⟨hpending, hstatus, rfl⟩))
  | @applied contracts stored image eventId at_ hread hpending hbase hvalid =>
    have hsame :
        (s.applyPatch stored { image with revision := s.graph.revision + 1 } eventId at_).patchStatus patchId =
        (s.consumePatch stored.id .applied).patchStatus patchId := by
      unfold Store.patchStatus
      rw [Store.readPatch_applyPatch]
    rw [hsame, applyPatch_graph]
    rcases hconsumed stored.id .applied with hkept | ⟨-, hold, hstatus⟩
    · exact Or.inl hkept
    · exact Or.inr (Or.inr (Or.inr ⟨hold, hstatus, rfl⟩))

/-- A patch that was applied stays so. -/
theorem PatchStep.applied_kept (happlied : s.patchStatus patchId = some .applied) :
    s'.patchStatus patchId = some .applied := by
  rcases h.patchStatus patchId with hsame | ⟨hold, -⟩ | ⟨hold, -⟩ | ⟨hold, -⟩
  · rw [hsame, happlied]
  all_goals
    rw [happlied] at hold
    cases hold

/-- The effect that applies a patch. -/
theorem PatchStep.of_applies (happlies : Applies s s' patchId) :
    ∃ contracts stored image eventId at_, s.readPatch patchId = some stored ∧ stored.id = patchId ∧
      stored.status = .pending ∧ stored.baseRevision = s.graph.revision ∧
      validateTaskGraphPostImage contracts s.graph stored.patch.ops s.stateOf = .ok image ∧
      s' = s.applyPatch stored { image with revision := s.graph.revision + 1 } eventId at_ := by
  obtain ⟨hbefore, hafter⟩ := happlies
  have hread : ∀ {s : Store} {status : PatchStatus}, s.patchStatus patchId = some status →
      ∃ stored, s.readPatch patchId = some stored ∧ stored.status = status :=
    fun h => map_eq_some_iff.mp h
  have hconsumed : ∀ consumed status, (s.consumePatch consumed status).patchStatus patchId = some .applied →
      status = .applied ∧ consumed = patchId := by
    intro consumed status hstatus
    unfold Store.patchStatus at hstatus hbefore
    rw [Store.readPatch_consumePatch] at hstatus
    cases hread : s.readPatch patchId with
    | none =>
      rw [hread] at hstatus
      cases hstatus
    | some stored =>
      rw [hread] at hstatus hbefore
      simp only [map_some, Option.some.injEq] at hstatus hbefore
      by_cases hpending : stored.id = consumed ∧ stored.status = .pending
      · rw [if_pos hpending] at hstatus
        exact ⟨hstatus, hpending.1.symm.trans (Store.id_of_readPatch hread)⟩
      · rw [if_neg hpending] at hstatus
        exact absurd (congrArg some hstatus) hbefore
  cases h with
  | own hgraph hpatches =>
    refine absurd ?_ hbefore
    unfold Store.patchStatus Store.readPatch at hafter ⊢
    rwa [hpatches] at hafter
  | @requested stored hnone hpending hbase hasked =>
    obtain ⟨stored', hread', hstatus⟩ := hread hafter
    rw [Store.readPatch_storePendingPatch] at hread'
    cases hold : s.readPatch patchId with
    | some old =>
      rw [hold, some_or] at hread'
      cases hread'
      refine absurd ?_ hbefore
      unfold Store.patchStatus
      rw [hold, map_some, hstatus]
    | none =>
      rw [hold, none_or] at hread'
      split at hread'
      · cases hread'
        rw [hpending] at hstatus
        cases hstatus
      · cases hread'
  | rejected consumed =>
    cases (hconsumed consumed .rejected hafter).1
  | @applied contracts stored image eventId at_ hreads hpending hbase hvalid =>
    unfold Store.patchStatus at hafter
    rw [Store.readPatch_applyPatch] at hafter
    obtain ⟨-, rfl⟩ := hconsumed stored.id .applied hafter
    exact ⟨contracts, stored, image, eventId, at_, hreads, rfl, hpending, hbase, hvalid, rfl⟩

/-- Only the application of a patch, and of one patch, changes the graph. -/
theorem PatchStep.graph :
    s'.graph = s.graph ∨ ∃ patchId, Applies s s' patchId ∧ ∀ patchId', Applies s s' patchId' →
    patchId' = patchId := by
  cases h with
  | own hgraph hpatches => exact Or.inl hgraph
  | requested | rejected => exact Or.inl rfl
  | @applied contracts stored image eventId at_ hread hpending hbase hvalid =>
    right
    have hstatus : ∀ patchId, (s.applyPatch stored { image with revision := s.graph.revision + 1 } eventId
        at_).patchStatus patchId = (s.consumePatch stored.id .applied).patchStatus patchId := by
      intro patchId
      unfold Store.patchStatus
      rw [Store.readPatch_applyPatch]
    refine ⟨stored.id, ⟨?_, ?_⟩, fun patchId' ⟨hbefore, hafter⟩ => ?_⟩
    · unfold Store.patchStatus
      rw [hread, map_some, hpending]
      simp
    · rw [hstatus]
      unfold Store.patchStatus
      rw [Store.readPatch_consumePatch, hread, map_some, map_some, if_pos ⟨rfl, hpending⟩]
    · rw [hstatus] at hafter
      unfold Store.patchStatus at hafter hbefore
      rw [Store.readPatch_consumePatch] at hafter
      cases hread' : s.readPatch patchId' with
      | none =>
        rw [hread'] at hafter
        cases hafter
      | some other =>
        rw [hread'] at hafter hbefore
        simp only [map_some, Option.some.injEq] at hafter hbefore
        by_cases hsame : other.id = stored.id ∧ other.status = .pending
        · rw [← hsame.1]
          exact (Store.id_of_readPatch hread').symm
        · rw [if_neg hsame] at hafter
          exact absurd (congrArg some hafter) hbefore

omit h

abbrev PatchSteps : Exec → Exec → Prop :=
  Logged.Evolves Effect.after fun e effect => PatchStep e.store (effect.after e.store)

theorem handlePatchRequest_steps (env : Env) (patch : Patch) (s : Store) :
    PatchSteps ⟨s, []⟩ (handlePatchRequest env patch s).1 := by
  unfold handlePatchRequest
  split
  · exact .refl
  rename_i hbase
  split
  · exact .refl
  split
  · exact .refl
  · rename_i hnone
    refine .single (.requested ?_ rfl (not_not.mp hbase) (not_not.mp hbase))
    simpa using hnone

theorem handlePatchConfirm_steps (env : Env) (patchId : JsString) (s : Store) :
    PatchSteps ⟨s, []⟩ (handlePatchConfirm env patchId s).1 := by
  unfold handlePatchConfirm
  split
  · exact .refl
  rename_i stored hstored
  rw [filter_eq_some_iff, decide_eq_true_eq] at hstored
  split
  · exact .single (.rejected patchId)
  rename_i hbase
  split
  · exact .single (.rejected patchId)
  rename_i image hvalid
  refine .single (.applied _ _ ?_ hstored.2 (not_not.mp hbase) hvalid)
  rw [Store.id_of_readPatch hstored.1]
  exact hstored.1

theorem handlePatchReject_steps (patchId : JsString) (s : Store) :
    PatchSteps ⟨s, []⟩ (handlePatchReject patchId s).1 := by
  unfold handlePatchReject
  split
  · exact .refl
  · exact .single (.rejected patchId)

theorem handle_steps {event : GraphEvent} {reply : Reply} (h : handle env s event = some (e, reply)) :
    PatchSteps ⟨s, []⟩ e := by
  have hown : ∀ {e}, Causes ⟨s, []⟩ e → PatchSteps ⟨s, []⟩ e :=
    fun h => h.mono fun _ _ hstep => .own hstep.graph hstep.patches
  cases event with
  | recover =>
    obtain ⟨e', hrecover, heq⟩ := map_eq_some_iff.mp h
    cases heq
    exact hown ((repair_causes s).trans (handleRecover_causes env hrecover))
  | create graph onNodeFailure =>
    cases h
    exact .refl
  | signal signal =>
    obtain ⟨e', hsignal, heq⟩ := map_eq_some_iff.mp h
    cases heq
    exact hown (handleSignal_causes env signal hsignal)
  | patchRequest patch =>
    have hsteps := handlePatchRequest_steps env patch s
    rwa [Option.some.inj h] at hsteps
  | patchConfirm patchId =>
    have hsteps := handlePatchConfirm_steps env patchId s
    rwa [Option.some.inj h] at hsteps
  | patchReject patchId =>
    have hsteps := handlePatchReject_steps patchId s
    rwa [Option.some.inj h] at hsteps
  | taskTerminal nodeId taskRunId terminal =>
    obtain ⟨e', hterminal, heq⟩ := map_eq_some_iff.mp h
    cases heq
    exact hown (handleTaskTerminal_causes env nodeId taskRunId terminal hterminal)

theorem followed_steps : Followed (fun _ => True) fun e effect => PatchStep e.store (effect.after e.store) where
  shift _ h := h
  keeps _ _ := trivial
  handle _ h := handle_steps h
  created _ _ := ⟨trivial, .own rfl rfl⟩

def RequestedIn (s₀ : Store) (log : List Effect) (stored : StoredPatch) : Prop :=
  ∃ earlier request rest, log = earlier ++ request :: rest ∧
    (earlier.foldl Effect.after s₀).readPatch stored.id = none ∧
    (request.after (earlier.foldl Effect.after s₀)).readPatch stored.id = some { stored with status := .pending } ∧
    stored.baseRevision = (earlier.foldl Effect.after s₀).graph.revision ∧
    stored.patch.baseRevision = (earlier.foldl Effect.after s₀).graph.revision

private theorem RequestedIn.push {s₀ : Store} {log : List Effect} (h : RequestedIn s₀ log stored)
    (effect : Effect) : RequestedIn s₀ (log ++ [effect]) stored := by
  obtain ⟨earlier, request, rest, rfl, hrequest⟩ := h
  exact ⟨earlier, request, rest ++ [effect], by simp, hrequest⟩

/-- Every stored patch was asked for at some effect, on the revision it was stored with. -/
theorem requestedIn_of_steps {s₀ : Store} (hempty : s₀.patches = []) (h : PatchSteps ⟨s₀, []⟩ e)
    (hread : e.store.readPatch patchId = some stored) : RequestedIn s₀ e.log stored := by
  induction h generalizing stored with
  | refl =>
    unfold Store.readPatch at hread
    rw [hempty] at hread
    cases hread
  | @push e' effect h hstep ih =>
    have hstore := h.store_eq
    simp only [Logged.push_store, Logged.push_log] at hread ⊢
    generalize hafter : effect.after e'.store = after at hstep hread
    -- a patch that was stored before, be it with another status
    have hold : ∀ old, e'.store.readPatch patchId = some old → { old with status := stored.status } = stored →
        RequestedIn s₀ (e'.log ++ [effect]) stored := by
      intro old hreadOld hsame
      obtain ⟨earlier, request, rest, hlog, hrequest⟩ := (ih hreadOld).push effect
      refine ⟨earlier, request, rest, hlog, ?_⟩
      rw [← hsame]
      exact hrequest
    have hconsumed : ∀ consumed status, (e'.store.consumePatch consumed status).readPatch patchId = some stored →
        RequestedIn s₀ (e'.log ++ [effect]) stored := by
      intro consumed status hread
      rw [Store.readPatch_consumePatch, map_eq_some_iff] at hread
      obtain ⟨old, hreadOld, hstored⟩ := hread
      refine hold old hreadOld ?_
      subst hstored
      split <;> rfl
    cases hstep with
    | own hgraph hpatches =>
      unfold Store.readPatch at hread
      rw [hpatches] at hread
      exact hold stored hread rfl
    | @requested asked hnone hpending hbase hasked =>
      rw [Store.readPatch_storePendingPatch] at hread
      cases hreadOld : e'.store.readPatch patchId with
      | some old =>
        rw [hreadOld, some_or] at hread
        cases hread
        exact hold stored hreadOld rfl
      | none =>
        rw [hreadOld, none_or] at hread
        split at hread <;> cases hread
        refine ⟨e'.log, effect, [], rfl, ?_⟩
        rw [← hstore, hafter]
        refine ⟨hnone, ?_, hbase, hasked⟩
        rw [Store.readPatch_storePendingPatch, hnone, if_pos rfl, none_or, ← hpending]
    | rejected consumed => exact hconsumed consumed .rejected hread
    | applied eventId at_ hreads hpending hbase hvalid =>
      rw [Store.readPatch_applyPatch] at hread
      exact hconsumed _ .applied hread

/-- A node in a later graph, but for its schemas and for arrays in the arrays of its parameters, which a validation
pins and clones. -/
structure SameNode (node node' : Node) : Prop where
  id : node'.id = node.id
  action : node'.action = ⟨node.action.type, cloneMembers node.action.params⟩
  deps : node'.deps = node.deps
  input : node'.input = node.input

theorem sameNode_of_validate {contracts : Contracts} {current g : Graph} {ops : List PatchOperation}
    {states : NodeId → Option NodeRunState} (h : validateTaskGraphPostImage contracts current ops states = .ok g)
    {id : NodeId} {node : Node} (htarget : ∀ op ∈ ops, op.target ≠ id) (hget : current.nodes.get id = some node) :
    ∃ node', g.nodes.get id = some node' ∧ SameNode node node' := by
  obtain ⟨rfl, -⟩ := validate_ok h
  have himage : (imageNodes current ops).get id = some node.clone := by
    unfold imageNodes deepCloneNodes
    rw [get_foldl_applyToImage ops _ htarget, OMap.get_map, hget]
    rfl
  unfold materialize
  rw [OMap.get_map, himage]
  exact ⟨_, rfl, rfl, rfl, rfl, rfl⟩

/-- What the application of a patch does to the store. -/
theorem PatchStep.applies_spec (h : PatchStep s s') (hwf : Wf s) (happlies : Applies s s' patchId) :
    s'.graph.revision = s.graph.revision + 1 ∧ ∀ id row node, s.nodeStates.get id = some row → row.state ≠ .planned →
    row.state ≠ .failed → s.graph.nodes.get id = some node → s'.nodeStates.get id = some row ∧
    ∃ node', s'.graph.nodes.get id = some node' ∧ SameNode node node' := by
  obtain ⟨contracts, stored, image, eventId, at_, -, -, -, -, hvalid, rfl⟩ := h.of_applies happlies
  have hgraph := applyPatch_graph (s := s) stored { image with revision := s.graph.revision + 1 } eventId at_
  refine ⟨by rw [hgraph], fun id row node hrow hplanned hfailed hnode => ?_⟩
  refine ⟨(patched_applyPatch eventId at_ hwf hvalid).kept id row hrow hplanned hfailed, ?_⟩
  rw [hgraph]
  exact sameNode_of_validate hvalid (target_ne_of_validate hwf hvalid hrow hplanned hfailed) hnode

/-- The answer to a confirmation: applied only if the patch was pending, fits the revision and is valid, and nothing
but the patch changes otherwise. -/
theorem handlePatchConfirm_reply (env : Env) (patchId : JsString) (s : Store) :
    (∃ stored image, s.readPatch patchId = some stored ∧ stored.status = .pending ∧
        stored.baseRevision = s.graph.revision ∧
        validateTaskGraphPostImage env.contracts s.graph stored.patch.ops s.stateOf = .ok image ∧
        (handlePatchConfirm env patchId s).2 = .applied (s.graph.revision + 1)) ∨
      ((∃ errors, (handlePatchConfirm env patchId s).2 = .rejected errors) ∧
        (handlePatchConfirm env patchId s).1.store.run = s.run ∧
        (handlePatchConfirm env patchId s).1.store.graph = s.graph ∧
        (handlePatchConfirm env patchId s).1.store.nodeStates = s.nodeStates) := by
  unfold handlePatchConfirm
  split
  · exact Or.inr ⟨⟨_, rfl⟩, rfl, rfl, rfl⟩
  rename_i stored hstored
  rw [filter_eq_some_iff, decide_eq_true_eq] at hstored
  split
  · exact Or.inr ⟨⟨_, rfl⟩, rfl, rfl, rfl⟩
  rename_i hbase
  split
  · exact Or.inr ⟨⟨_, rfl⟩, rfl, rfl, rfl⟩
  · rename_i image hvalid
    exact Or.inl ⟨stored, image, hstored.1, hstored.2, not_not.mp hbase, hvalid, rfl⟩

theorem handlePatchReject_kept (patchId : JsString) (s : Store) : (handlePatchReject patchId s).1.store.run = s.run ∧
    (handlePatchReject patchId s).1.store.graph = s.graph ∧ (handlePatchReject patchId s).1.store.nodeStates =
    s.nodeStates := by
  unfold handlePatchReject
  split <;> exact ⟨rfl, rfl, rfl⟩

/-- **Patches and revisions.**  In every run, whatever its clients ask for and wherever crashes cut it:
an effect that changes the graph applies one patch, and an effect that applies a patch raises the revision by one, is
the only one to apply it, applies it on the revision it was asked for, and leaves every node alone that is neither
planned nor failed; the nodes with a state are those of the graph in every durable state; and a confirmation that is
rejected, as it is unless the patch is pending, fits the revision and is valid, or a rejection, leaves run, graph and
node states as they are. -/
theorem patch_revisions {inputs : List Input} {m : Machine} {logs : List (List Effect)}
    (h : Transition.exec step .initial inputs = some (m, logs)) :
    (∀ before effect later s s', logs.flatten = before ++ effect :: later → storeAfter none before = some s →
        storeAfter none (before ++ [effect]) = some s' →
        s'.graph = s.graph ∨ ∃ patchId, Applies s s' patchId ∧ ∀ patchId', Applies s s' patchId' →
        patchId' = patchId) ∧
      (∀ before effect later s s' patchId, logs.flatten = before ++ effect :: later →
        storeAfter none before = some s → storeAfter none (before ++ [effect]) = some s' → Applies s s' patchId →
        s'.graph.revision = s.graph.revision + 1 ∧
        (∃ earlier request rest r r' stored, before = earlier ++ request :: rest ∧
          storeAfter none earlier = some r ∧ storeAfter none (earlier ++ [request]) = some r' ∧
          r.readPatch patchId = none ∧ r'.readPatch patchId = some stored ∧ stored.status = .pending ∧
          stored.patch.baseRevision = r.graph.revision ∧ r.graph.revision = s.graph.revision) ∧
        (∀ between effect' later' t t', later = between ++ effect' :: later' →
          storeAfter none (before ++ effect :: between) = some t →
          storeAfter none (before ++ effect :: between ++ [effect']) = some t' → ¬ Applies t t' patchId) ∧
        ∀ id row node, s.nodeStates.get id = some row → row.state ≠ .planned → row.state ≠ .failed →
          s.graph.nodes.get id = some node →
          s'.nodeStates.get id = some row ∧ ∃ node', s'.graph.nodes.get id = some node' ∧ SameNode node node') ∧
      (∀ before later s, logs.flatten = before ++ later → storeAfter none before = some s →
        ∀ id, id ∈ s.nodeStates.keys ↔ id ∈ s.graph.nodes.keys) ∧
      (∀ env s e reply patchId, handle env s (.patchConfirm patchId) = some (e, reply) →
        (∃ stored image, s.readPatch patchId = some stored ∧ stored.status = .pending ∧
            stored.baseRevision = s.graph.revision ∧
            validateTaskGraphPostImage env.contracts s.graph stored.patch.ops s.stateOf = .ok image ∧
            reply = .applied (s.graph.revision + 1)) ∨
          ((∃ errors, reply = .rejected errors) ∧ e.store.run = s.run ∧ e.store.graph = s.graph ∧
            e.store.nodeStates = s.nodeStates)) ∧
      ∀ env s e reply patchId, handle env s (.patchReject patchId) = some (e, reply) →
        e.store.run = s.run ∧ e.store.graph = s.graph ∧ e.store.nodeStates = s.nodeStates := by
  refine ⟨?_, ?_, ?_, ?_, ?_⟩
  · intro before effect later s s' hlog hs hs'
    obtain ⟨s₀, log₀, -, -, -, -, hstep, hnext⟩ := followed_steps.allowed h hlog hs
    rw [hnext] at hs'
    cases hs'
    exact hstep.graph
  · intro before effect later s s' patchId hlog hs hs' happlies
    obtain ⟨-, -, -, -, hwf, -⟩ := followed_runs.allowed h hlog hs
    obtain ⟨s₀, log₀, rfl, hcreated, -, hsteps, hstep, hnext⟩ := followed_steps.allowed h hlog hs
    rw [hnext] at hs'
    cases hs'
    obtain ⟨hrevision, hkept⟩ := hstep.applies_spec hwf happlies
    refine ⟨hrevision, ?_, ?_, hkept⟩
    · obtain ⟨contracts, stored, image, eventId, at_, hread, rfl, -, hbase, -⟩ := hstep.of_applies happlies
      obtain ⟨earlier, request, rest, rfl, hnone, hstored, hbase', hasked⟩ :=
        requestedIn_of_steps hcreated.patches hsteps hread
      refine ⟨.write s₀ :: earlier, request, rest, _, _, _, rfl, storeAfter_some s₀ earlier, ?_, hnone, hstored, rfl,
        hasked, hbase'.symm.trans hbase⟩
      rw [show storeAfter none ((.write s₀ :: earlier) ++ [request]) = storeAfter (some s₀) (earlier ++ [request])
        from rfl, storeAfter_some, List.foldl_append]
      rfl
    · rintro between effect' later' t t' rfl ht ht' happlies'
      -- once applied, it stays so up to the later effect
      have hlog' : logs.flatten = (.write s₀ :: log₀ ++ [effect]) ++ between ++ (effect' :: later') := by
        rw [hlog]
        simp
      obtain ⟨_, _, -, -, -, -, hbetween⟩ := followed_steps.split h _ between (effect' :: later') hlog' hnext (by
        rw [← ht]
        simp)
      have happlied := hbetween.invariant (fun s => s.patchStatus patchId = some .applied)
        (fun _ _ hstep hs => hstep.applied_kept hs) happlies.2
      exact happlies'.1 happlied
  · intro before later s hlog hs
    obtain ⟨-, -, -, -, hwf, -⟩ := followed_runs.split h before [] later (by rw [hlog, List.append_nil]) hs
      (by rw [List.append_nil]; exact hs)
    exact hwf.keys
  · intro env s e reply patchId hhandle
    have hreply := handlePatchConfirm_reply env patchId s
    rwa [Option.some.inj hhandle] at hreply
  · intro env s e reply patchId hhandle
    have hkept := handlePatchReject_kept patchId s
    rwa [Option.some.inj hhandle] at hkept

def samplePatch : Patch := ⟨1, [.addNode (sampleNode (js "again") .task [js "work"] sampleTask)]⟩

/-- It is asked for and confirmed twice: the second time it is consumed. -/
theorem patch_revisions_sample : ∃ m logs before effect later s s', Transition.exec step .initial
      (sampleStarted .pause ++ [.handle (sampleEnv none (.ok ())) (.patchRequest samplePatch),
        .handle (sampleEnv none (.ok ())) (.patchConfirm (js "tgp_1")),
        .handle (sampleEnv none (.ok ())) (.patchConfirm (js "tgp_1"))]) = some (m, logs) ∧
    logs.flatten = before ++ effect :: later ∧ storeAfter none before = some s ∧
    storeAfter none (before ++ [effect]) = some s' ∧ Applies s s' (js "tgp_1") ∧
    s'.graph.revision = s.graph.revision + 1 := by
  have hany : ((Transition.exec step .initial (sampleStarted .pause ++
      [.handle (sampleEnv none (.ok ())) (.patchRequest samplePatch),
        .handle (sampleEnv none (.ok ())) (.patchConfirm (js "tgp_1")),
        .handle (sampleEnv none (.ok ())) (.patchConfirm (js "tgp_1"))])).any fun r =>
          (storeAfter none (r.2.flatten.take 11)).any fun s => (storeAfter none (r.2.flatten.take 12)).any fun s' =>
            decide (s.patchStatus (js "tgp_1") ≠ some .applied) &&
              decide (s'.patchStatus (js "tgp_1") = some .applied)) = true := by
    decide
  simp only [Option.any_eq_true, Bool.and_eq_true, decide_eq_true_eq] at hany
  obtain ⟨⟨m, logs⟩, hexec, s, hs, s', hs', happlies⟩ := hany
  simp only at hs hs'
  cases hdrop : logs.flatten.drop 11 with
  | nil =>
    rw [List.drop_eq_nil_iff] at hdrop
    rw [List.take_of_length_le hdrop] at hs
    rw [List.take_of_length_le (by omega), hs] at hs'
    cases hs'
    exact absurd happlies.2 happlies.1
  | cons effect later =>
    have hlog : logs.flatten = logs.flatten.take 11 ++ effect :: later := by rw [← hdrop, List.take_append_drop]
    have htake : logs.flatten.take 12 = logs.flatten.take 11 ++ [effect] := by
      rw [show 12 = 11 + 1 from rfl, List.take_add, hdrop]
      rfl
    rw [htake] at hs'
    exact ⟨m, logs, _, effect, later, s, s', hexec, hlog, hs, hs', happlies,
      ((patch_revisions hexec).2.1 _ _ _ _ _ _ hlog hs hs' happlies).1⟩

end Wrenyard.TaskGraph
