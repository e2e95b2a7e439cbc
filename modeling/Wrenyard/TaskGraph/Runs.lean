import Wrenyard.TaskGraph.Patches

/-!
# Whole runs

The effects of a run, of all its events and up to each crash, form one log in which every effect is a move or the
application of a patch (`exec_evolves`).  What a step keeps of the machine's laws is stated for the two kinds of
steps: an event handled to its end, and one cut short.
-/

namespace Wrenyard.TaskGraph

open Js List Option

variable {env : Env} {e : Exec} {s s' : Store}

inductive RunMove (e : Exec) : Effect → Prop where
  | move {effect : Effect} : Move e effect → RunMove e effect
  | patch {ops : List PatchOperation} {store : Store} : Patched e.store ops store → RunMove e (.applyPatch ops store)

abbrev Runs : Exec → Exec → Prop := Logged.Evolves Effect.after RunMove

theorem Evolves.runs {e' : Exec} (h : Evolves e e') : Runs e e' := h.mono fun _ _ => .move

theorem RunMove.wf {effect : Effect} (h : RunMove e effect) (hwf : Wf e.store) : Wf (effect.after e.store) := by
  cases h with
  | move h => exact h.safe.wf hwf
  | patch h => exact h.wf

theorem Runs.wf {e' : Exec} (h : Runs e e') (hwf : Wf e.store) : Wf e'.store :=
  h.invariant Wf (fun _ _ hmove => hmove.wf) hwf

inductive HandledEvent (env : Env) (s : Store) : GraphEvent → Exec → Prop where
  | recover {e : Exec} : handleRecover env s = some e → HandledEvent env s .recover e
  | ordinary {event : GraphEvent} {e : Exec} : event ≠ .recover → Handled s e → HandledEvent env s event e
  | patched {patchId : JsString} {stored : StoredPatch} {store : Store} : s.readPatch patchId = some stored →
      stored.status = .pending → stored.baseRevision = s.graph.revision →
      (validateTaskGraphPostImage env.contracts s.graph stored.patch.ops s.stateOf).isOk = true →
      Patched s stored.patch.ops store →
      HandledEvent env s (.patchConfirm patchId) (Exec.push ⟨s, []⟩ (.applyPatch stored.patch.ops store))

private theorem handled_of_write (hgraph : s'.graph = s.graph) (hnodes : s'.nodeStates = s.nodeStates)
    (hrun : s'.run = s.run) : Handled s (Exec.write ⟨s, []⟩ s') := by
  have hsafe : SafeStep s s' := by
    refine SafeStep.ofRun hgraph hnodes (by rw [hrun]) fun h => Or.inl ?_
    rw [← hrun]
    exact h
  exact ⟨Evolves.write (.refl ⟨s, []⟩) hsafe, progressing_of_same hrun hnodes, settling_of_same hrun hnodes⟩

private theorem Handled.refl (s : Store) : Handled s ⟨s, []⟩ := ⟨.refl _, id, id⟩

private theorem handlePatchConfirm_spec (env : Env) (patchId : JsString) (hwf : Wf s) :
    HandledEvent env s (.patchConfirm patchId) (handlePatchConfirm env patchId s).1 := by
  unfold handlePatchConfirm
  split
  · exact .ordinary (by simp) (.refl s)
  rename_i stored hstored
  rw [filter_eq_some_iff] at hstored
  split
  · exact .ordinary (by simp) (handled_of_write rfl rfl rfl)
  rename_i hbase
  split
  · exact .ordinary (by simp) (handled_of_write rfl rfl rfl)
  · rename_i image hvalid
    exact .patched hstored.1 (of_decide_eq_true hstored.2) (not_not.mp hbase) (by rw [hvalid]; rfl)
      (patched_applyPatch _ _ hwf hvalid)

private theorem handlePatchRequest_spec (env : Env) (patch : Patch) :
    Handled s (handlePatchRequest env patch s).1 := by
  unfold handlePatchRequest
  split
  · exact .refl s
  split
  · exact .refl s
  · split
    · exact .refl s
    · exact handled_of_write rfl rfl rfl

private theorem handlePatchReject_spec (patchId : JsString) : Handled s (handlePatchReject patchId s).1 := by
  unfold handlePatchReject
  split
  · exact .refl s
  · exact handled_of_write rfl rfl rfl

/-- Every event is handled. -/
theorem handle_spec (env : Env) (event : GraphEvent) (hwf : Wf s) :
    ∃ e reply, handle env s event = some (e, reply) ∧ HandledEvent env s event e := by
  cases event with
  | recover =>
    obtain ⟨e, hrecover, -⟩ := handleRecover_spec env hwf
    exact ⟨e, .nothing, by simp [handle, hrecover], .recover hrecover⟩
  | create graph onNodeFailure => exact ⟨_, _, rfl, .ordinary (by simp) (.refl s)⟩
  | signal signal =>
    obtain ⟨e, hsignal, hhandled⟩ := handleSignal_spec env signal hwf
    exact ⟨e, .nothing, by simp [handle, hsignal], .ordinary (by simp) hhandled⟩
  | patchRequest patch => exact ⟨_, _, rfl, .ordinary (by simp) (handlePatchRequest_spec env patch)⟩
  | patchConfirm patchId => exact ⟨_, _, rfl, handlePatchConfirm_spec env patchId hwf⟩
  | patchReject patchId => exact ⟨_, _, rfl, .ordinary (by simp) (handlePatchReject_spec patchId)⟩
  | taskTerminal nodeId taskRunId terminal =>
    obtain ⟨e, hterminal, hhandled⟩ := handleTaskTerminal_spec env nodeId taskRunId terminal hwf
    exact ⟨e, .nothing, by simp [handle, hterminal], .ordinary (by simp) hhandled⟩

variable {event : GraphEvent}

theorem HandledEvent.runs (h : HandledEvent env s event e) (hwf : Wf s) : Runs ⟨s, []⟩ e := by
  cases h with
  | recover h =>
    obtain ⟨e', hrecover, hevolves, -⟩ := handleRecover_spec env hwf
    rw [h] at hrecover
    cases hrecover
    exact hevolves.runs
  | ordinary hne h => exact h.evolves.runs
  | patched hread hpending hbase hvalid hpatched => exact .single (.patch hpatched)

structure Created (s : Store) : Prop where
  wf : Wf s
  state : s.run.state = .created
  cancelRequested : s.run.cancelRequested = false
  failureCause : s.run.failureCause = none
  planned : ∀ id state, s.stateOf id = some state → state = .planned
  patches : s.patches = []
  journal : s.journal = []

theorem created_createProjection {contracts : Contracts} {graph image : Graph} (onNodeFailure : OnNodeFailurePolicy)
    (at_ : Time) (revision : Nat)
    (h : validateTaskGraphPostImage contracts ⟨graph.revision, []⟩
      (graph.nodes.map fun entry => PatchOperation.addNode entry.2) (fun _ => none) = .ok image) :
    Created (Store.createProjection { image with revision := revision } onNodeFailure at_) := by
  have hnodup : (⟨graph.revision, []⟩ : Graph).nodes.keys.Nodup := nodup_nil
  have hids : IdsAreKeys (⟨graph.revision, []⟩ : Graph).nodes := fun _ _ hget => by cases hget
  have hg : image.WellFormed := wellFormed_of_validate hnodup hids h
  have hplanned :
      ∀ id state, (Store.createProjection { image with revision := revision } onNodeFailure at_).stateOf id =
      some state → state = .planned := by
    intro id state hstate
    obtain ⟨row, hget, rfl⟩ := Store.exists_get_of_stateOf hstate
    unfold Store.createProjection at hget
    rw [OMap.get_map, map_eq_some_iff] at hget
    obtain ⟨node, -, rfl⟩ := hget
    rfl
  have hkeys : (Store.createProjection { image with revision := revision } onNodeFailure at_).nodeStates.keys =
      image.nodes.keys := OMap.keys_map ..
  have hwf : Wf (Store.createProjection { image with revision := revision } onNodeFailure at_) := by
    refine ⟨hg.withRevision _, fun id => by rw [hkeys]; rfl, by rw [hkeys]; exact hg.nodup, ?_, (by rintro ⟨⟩)⟩
    intro id state hstate hbegun
    rw [hplanned id state hstate] at hbegun
    cases hbegun
  exact ⟨hwf, rfl, rfl, rfl, hplanned, rfl, rfl⟩

variable {log : List Effect}

theorem effectsOf_none {env : Env} (h : effectsOf env event none = some log) :
    log = [] ∨ ∃ s row, log = [.write s, .write (s.appendJournal row)] ∧ Created s ∧ row.type = .created := by
  cases event with
  | create graph onNodeFailure =>
    simp only [effectsOf, Option.some.injEq] at h
    unfold handleCreate at h
    simp only at h
    split at h
    · exact Or.inl h.symm
    · rename_i image hvalid
      exact Or.inr ⟨_, _, h.symm, created_createProjection _ _ _ hvalid, rfl⟩
  | recover | signal | patchRequest | patchConfirm | patchReject | taskTerminal => cases h; exact Or.inl rfl

/-! ### The log of a run -/

theorem storeAfter_some (s : Store) (log : List Effect) :
    storeAfter (some s) log = some (log.foldl Effect.after s) := by
  induction log generalizing s with
  | nil => rfl
  | cons effect log ih => cases effect <;> exact ih _

/-- A condition on effects that every event and every creation meets, whatever came before, and an invariant it
keeps. -/
structure Followed (P : Store → Prop) (Allowed : Exec → Effect → Prop) : Prop where
  shift : ∀ {e effect} log, Allowed e effect → Allowed ⟨e.store, log ++ e.log⟩ effect
  keeps : ∀ {e effect}, Allowed e effect → P e.store → P (effect.after e.store)
  handle : ∀ {env event s e reply}, P s → handle env s event = some (e, reply) →
    Logged.Evolves Effect.after Allowed ⟨s, []⟩ e
  created : ∀ {s row}, Created s → row.type = .created → P s ∧ Allowed ⟨s, []⟩ (.write (s.appendJournal row))

variable {input : Input} {inputs : List Input} {logs : List (List Effect)}

namespace Followed

variable {P : Store → Prop} {Allowed : Exec → Effect → Prop} {m m' : Machine}

variable (hF : Followed P Allowed)
include hF

theorem invariant {e' : Exec} (h : Logged.Evolves Effect.after Allowed e e') (he : P e.store) : P e'.store :=
  h.invariant P (fun _ _ => hF.keeps) he

theorem shifted (h : Logged.Evolves Effect.after Allowed ⟨s, []⟩ e) :
    Logged.Evolves Effect.after Allowed ⟨s, log⟩ ⟨e.store, log ++ e.log⟩ := by
  induction h with
  | refl =>
    rw [append_nil]
    exact .refl
  | @push e' effect h heffect ih =>
    have hpush := Logged.Evolves.push ih (hF.shift log heffect)
    unfold Logged.push at hpush ⊢
    rw [append_assoc] at hpush
    exact hpush

/-- One step of a machine with a store. -/
theorem step (hstore : m.store = some s) (hs : P s) (h : TaskGraph.step m input = some (m', log)) : ∃ s', m'.store =
    some s' ∧ Logged.Evolves Effect.after Allowed ⟨s, []⟩ ⟨s', log⟩ := by
  -- an event handled to its end
  have hevent : ∀ env event log, effectsOf env event m.store = some log →
      Logged.Evolves Effect.after Allowed ⟨s, []⟩ ⟨log.foldl Effect.after s, log⟩ := by
    intro env event log heff
    rw [hstore, effectsOf, map_eq_some_iff] at heff
    obtain ⟨⟨e, reply⟩, hhandle, rfl⟩ := heff
    have hevolves := hF.handle hs hhandle
    have htake := hevolves.take e.log.length
    rwa [take_length] at htake
  cases input with
  | handle env event =>
    simp only [TaskGraph.step] at h
    split at h
    · cases h
    · obtain ⟨log', heff, heq⟩ := map_eq_some_iff.mp h
      cases heq
      exact ⟨_, by rw [hstore]; exact storeAfter_some s log, hevent env event log heff⟩
  | crash env event effects =>
    simp only [TaskGraph.step] at h
    split at h
    · cases h
    · obtain ⟨log', heff, heq⟩ := map_eq_some_iff.mp h
      cases heq
      exact ⟨_, by rw [hstore]; exact storeAfter_some s _, (hevent env event log' heff).take effects⟩
  | restart =>
    cases h
    exact ⟨s, hstore, .refl⟩

/-- The log of a run from a store. -/
theorem exec (hstore : m.store = some s) (hs : P s) (h : Transition.exec TaskGraph.step m inputs = some (m', logs)) :
    ∃ s', m'.store = some s' ∧ Logged.Evolves Effect.after Allowed ⟨s, []⟩ ⟨s', logs.flatten⟩ := by
  induction inputs generalizing m s logs with
  | nil =>
    cases h
    exact ⟨s, hstore, .refl⟩
  | cons input inputs ih =>
    unfold Transition.exec at h
    split at h
    · cases h
    rename_i m₁ log hstep
    rw [map_eq_some_iff] at h
    obtain ⟨⟨m₂, logs'⟩, hexec, heq⟩ := h
    cases heq
    obtain ⟨s₁, hs₁, hfirst⟩ := hF.step hstore hs hstep
    obtain ⟨s₂, hs₂, hrest⟩ := ih hs₁ (hF.invariant hfirst hs) hexec
    exact ⟨s₂, hs₂, hfirst.trans (hF.shifted hrest)⟩

theorem step_of_none (hstore : m.store = none) (h : TaskGraph.step m input = some (m', log)) :
    (m'.store = none ∧ log = []) ∨ ∃ s s' rest, log = .write s :: rest ∧ m'.store = some s' ∧ Created s ∧ P s ∧
    s'.run = s.run ∧ Logged.Evolves Effect.after Allowed ⟨s, []⟩ ⟨s', rest⟩ := by
  cases input with
  | handle env event =>
    simp only [TaskGraph.step] at h
    split at h
    · cases h
    rw [hstore, map_eq_some_iff] at h
    obtain ⟨log', heff, heq⟩ := h
    cases heq
    rcases effectsOf_none heff with rfl | ⟨s, row, rfl, hcreated, hrow⟩
    · exact Or.inl ⟨rfl, rfl⟩
    · obtain ⟨hs, hallowed⟩ := hF.created hcreated hrow
      exact Or.inr ⟨s, _, _, rfl, rfl, hcreated, hs, rfl, .single hallowed⟩
  | crash env event effects =>
    simp only [TaskGraph.step] at h
    split at h
    · cases h
    rw [hstore, map_eq_some_iff] at h
    obtain ⟨log', heff, heq⟩ := h
    cases heq
    rcases effectsOf_none heff with rfl | ⟨s, row, rfl, hcreated, hrow⟩
    · rw [take_nil]
      exact Or.inl ⟨rfl, rfl⟩
    obtain ⟨hs, hallowed⟩ := hF.created hcreated hrow
    match effects with
    | 0 => exact Or.inl ⟨rfl, rfl⟩
    | 1 => exact Or.inr ⟨s, s, [], rfl, rfl, hcreated, hs, rfl, .refl⟩
    | n + 2 =>
      refine Or.inr ⟨s, s.appendJournal row, [.write (s.appendJournal row)], ?_, ?_, hcreated, hs, rfl,
        .single hallowed⟩
      · simp
      · simp [storeAfter]
  | restart =>
    cases h
    exact Or.inl ⟨hstore, rfl⟩

/-- The log of a run from the beginning: empty, or the creation and what follows it. -/
theorem exec_initial (hstore : m.store = none) (h : Transition.exec TaskGraph.step m inputs = some (m', logs)) :
    (m'.store = none ∧ logs.flatten = []) ∨ ∃ s s' rest, logs.flatten = .write s :: rest ∧ m'.store = some s' ∧
    Created s ∧ P s ∧ Logged.Evolves Effect.after Allowed ⟨s, []⟩ ⟨s', rest⟩ := by
  induction inputs generalizing m logs with
  | nil =>
    cases h
    exact Or.inl ⟨hstore, rfl⟩
  | cons input inputs ih =>
    unfold Transition.exec at h
    split at h
    · cases h
    rename_i m₁ log hstep
    rw [map_eq_some_iff] at h
    obtain ⟨⟨m₂, logs'⟩, hexec, heq⟩ := h
    cases heq
    rcases hF.step_of_none hstore hstep with ⟨hnone, rfl⟩ | ⟨s, s₁, rest, rfl, hs₁, hcreated, hs, -, hfirst⟩
    · have hrest := ih hnone hexec
      exact hrest
    · obtain ⟨s₂, hs₂, hrest⟩ := hF.exec hs₁ (hF.invariant hfirst hs) hexec
      exact Or.inr ⟨s, s₂, rest ++ logs'.flatten, rfl, hs₂, hcreated, hs, hfirst.trans (hF.shifted hrest)⟩

/-- Two durable states of a run, the one after the creation and the other later or the same. -/
theorem split (h : Transition.exec TaskGraph.step .initial inputs = some (m, logs))
    (before between later : List Effect) (hlog : logs.flatten = before ++ between ++ later)
    (hs : storeAfter none before = some s) (hs' : storeAfter none (before ++ between) = some s') : ∃ s₀ log₀, before =
    .write s₀ :: log₀ ∧ Created s₀ ∧ P s ∧ Logged.Evolves Effect.after Allowed ⟨s₀, []⟩ ⟨s, log₀⟩ ∧
    Logged.Evolves Effect.after Allowed ⟨s, log₀⟩ ⟨s', log₀ ++ between⟩ := by
  rcases hF.exec_initial rfl h with ⟨-, hnil⟩ | ⟨s₀, s₁, rest, hrest, -, hcreated, hs₀, hevolves⟩
  · rw [hnil] at hlog
    have hbefore : before = [] := (append_eq_nil_iff.mp (append_eq_nil_iff.mp hlog.symm).1).1
    subst hbefore
    cases hs
  rw [hrest] at hlog
  cases before with
  | nil => cases hs
  | cons first log₀ =>
    rw [cons_append, cons_append, List.cons.injEq] at hlog
    obtain ⟨rfl, rfl⟩ := hlog
    rw [show storeAfter none (.write s₀ :: log₀) = storeAfter (some s₀) log₀ from rfl, storeAfter_some] at hs
    rw [show storeAfter none ((.write s₀ :: log₀) ++ between) = storeAfter (some s₀) (log₀ ++ between) from rfl,
      storeAfter_some, foldl_append] at hs'
    cases hs
    cases hs'
    have hfirst := hevolves.take log₀.length
    simp only [append_assoc, take_left] at hfirst
    have hcut : (log₀ ++ between ++ later).take (log₀ ++ between).length = log₀ ++ between := take_left
    have hsecond := (hevolves.take (log₀ ++ between).length).resume hcut
    rw [take_left, foldl_append] at hsecond
    exact ⟨s₀, log₀, rfl, hcreated, hF.invariant hfirst hs₀, hfirst, hsecond⟩

/-- An effect of a run after its creation. -/
theorem allowed (h : Transition.exec TaskGraph.step .initial inputs = some (m, logs)) {before later : List Effect}
    {effect : Effect} (hlog : logs.flatten = before ++ effect :: later) (hs : storeAfter none before = some s) :
    ∃ s₀ log₀, before = .write s₀ :: log₀ ∧ Created s₀ ∧ P s ∧
    Logged.Evolves Effect.after Allowed ⟨s₀, []⟩ ⟨s, log₀⟩ ∧ Allowed ⟨s, log₀⟩ effect ∧
    storeAfter none (before ++ [effect]) = some (effect.after s) := by
  have hnext : storeAfter none (before ++ [effect]) = some (effect.after s) := by
    unfold storeAfter at hs ⊢
    rw [foldl_append, hs]
    cases effect <;> rfl
  have hlog' : logs.flatten = before ++ [effect] ++ later := by rw [hlog]; simp
  obtain ⟨s₀, log₀, rfl, hcreated, hP, hfirst, -⟩ := hF.split h before [effect] later hlog' hs hnext
  refine ⟨s₀, log₀, rfl, hcreated, hP, hfirst, ?_, hnext⟩
  rcases hF.exec_initial rfl h with ⟨-, hnil⟩ | ⟨s₁, s₂, rest, hrest, -, -, -, hevolves⟩
  · rw [hnil] at hlog
    cases hlog
  rw [hlog, cons_append, List.cons.injEq] at hrest
  obtain ⟨heq, rfl⟩ := hrest
  cases heq
  have hallowed := hevolves.allowed_at rfl
  rwa [← hfirst.store_eq] at hallowed

omit hF

end Followed

private theorem pending_append {log' : List Effect} {nodeId : NodeId} (h : pending log' = some nodeId) :
    pending (log ++ log') = some nodeId := by
  -- what comes before the last activation does not matter
  unfold pending at h ⊢
  rw [foldl_append]
  generalize List.foldl _ none log = q
  induction log' generalizing q with
  | nil => cases h
  | cons effect log' ih =>
    cases effect with
    | write store => exact ih h q
    | activate id store => exact h
    | applyPatch ops store => exact ih h q
    | startTask request => exact h
    | cancelTask taskRunId => exact ih h q

/-- The effects of a run are moves and applications of patches. -/
theorem followed_runs : Followed Wf RunMove where
  shift log h := by
    cases h with
    | move hmove =>
      refine .move ?_
      cases hmove with
      | write hsafe => exact .write hsafe
      | activate hsafe hs hplanned => exact .activate hsafe hs hplanned
      | startTask hpending hrunning hs => exact .startTask (pending_append hpending) hrunning hs
      | cancelTask => exact .cancelTask
    | patch hpatched => exact .patch hpatched
  keeps h hs := h.wf hs
  handle {env event s e reply} hs h := by
    obtain ⟨e', reply', hhandle, hevent⟩ := handle_spec env event hs
    rw [h] at hhandle
    cases hhandle
    exact hevent.runs hs
  created {s row} hcreated _ := by
    exact ⟨hcreated.wf, .move (.write (SafeStep.ofRun rfl rfl rfl Or.inl))⟩

variable {m m' : Machine}

theorem step_runs (hstore : m.store = some s) (hwf : Wf s) (h : step m input = some (m', log)) :
    ∃ s', m'.store = some s' ∧ Runs ⟨s, []⟩ ⟨s', log⟩ :=
  followed_runs.step hstore hwf h

/-- The effects of an execution are a run from its store. -/
theorem exec_runs (hstore : m.store = some s) (hwf : Wf s)
    (h : Transition.exec step m inputs = some (m', logs)) :
    ∃ s', m'.store = some s' ∧ Runs ⟨s, []⟩ ⟨s', logs.flatten⟩ :=
  followed_runs.exec hstore hwf h

theorem exec_initial (hstore : m.store = none)
    (h : Transition.exec step m inputs = some (m', logs)) : (m'.store = none ∧ logs.flatten = []) ∨
    ∃ s s' rest, logs.flatten = .write s :: rest ∧ m'.store = some s' ∧ Wf s ∧ Runs ⟨s, []⟩ ⟨s', rest⟩ := by
  rcases followed_runs.exec_initial hstore h with hnone | ⟨s, s', rest, hlog, hs', -, hwf, hruns⟩
  · exact Or.inl hnone
  · exact Or.inr ⟨s, s', rest, hlog, hs', hwf, hruns⟩

/-- Every store a run reaches has the invariant. -/
theorem wf_of_exec {m : Machine} (h : Transition.exec step .initial inputs = some (m, logs))
    (hstore : m.store = some s) : Wf s := by
  rcases exec_initial rfl h with ⟨hnone, -⟩ | ⟨s₀, s', rest, -, hs', hwf, hruns⟩
  · rw [hstore] at hnone
    cases hnone
  · rw [hstore] at hs'
    cases hs'
    exact hruns.wf hwf

/-- A law that holds whenever an event was handled to its end. -/
def MachineLaw (L : Store → Prop) (m : Machine) : Prop := ∀ s, m.store = some s → Wf s ∧ (m.recovered = true → L s)

theorem MachineLaw.initial {L : Store → Prop} : MachineLaw L .initial := fun s hs => by cases hs

/-- The store after an event that was handled to its end. -/
theorem step_handle {env : Env} (hstore : m.store = some s) (hwf : Wf s)
    (h : step m (.handle env event) = some (m', log)) : ∃ e, HandledEvent env s event e ∧ m' = ⟨some e.store, true⟩ ∧
    log = e.log ∧ (event ≠ .recover → m.recovered = true) ∧ (event = .recover → m.recovered = false) := by
  simp only [step] at h
  split at h
  · cases h
  rename_i hgate
  obtain ⟨e, reply, hhandle, hevent⟩ := handle_spec env event hwf
  rw [hstore, effectsOf, hhandle] at h
  cases h
  refine ⟨e, hevent, ?_, rfl, fun hne => ?_, fun heq => ?_⟩
  · rw [(hevent.runs hwf).store_eq]
    exact congrArg (Machine.mk · true) (storeAfter_some s e.log)
  · rw [decide_eq_false hne] at hgate
    cases hrecovered : m.recovered with
    | true => rfl
    | false => exact absurd hrecovered.symm hgate
  · rw [decide_eq_true heq] at hgate
    cases hrecovered : m.recovered with
    | true => exact absurd hrecovered.symm hgate
    | false => rfl

theorem step_law {L : Store → Prop}
    (hcreated : ∀ s, s.run.state = .created → s.run.cancelRequested = false → L s)
    (hevent : ∀ {env event s e}, m.store = some s → input = .handle env event → Wf s →
      (event = .recover → m.recovered = false) → HandledEvent env s event e → (event ≠ .recover → L s) → L e.store)
    (hm : MachineLaw L m) (h : step m input = some (m', log)) : MachineLaw L m' := by
  intro s' hs'
  cases hstore : m.store with
  | none =>
    rcases followed_runs.step_of_none hstore h with ⟨hnone, -⟩ | ⟨s, s₁, rest, -, hs₁, hnew, hwf, hrun, hruns⟩
    · rw [hs'] at hnone
      cases hnone
    rw [hs'] at hs₁
    cases hs₁
    exact ⟨Runs.wf hruns hwf, fun _ => hcreated s' (by rw [hrun]; exact hnew.state)
      (by rw [hrun]; exact hnew.cancelRequested)⟩
  | some s =>
    obtain ⟨hwf, hlaw⟩ := hm s hstore
    obtain ⟨s₁, hs₁, hruns⟩ := step_runs hstore hwf h
    rw [hs'] at hs₁
    cases hs₁
    refine ⟨hruns.wf hwf, fun hrecovered => ?_⟩
    cases input with
    | handle env event =>
      obtain ⟨e, hhandled, rfl, -, hgate, hgate'⟩ := step_handle hstore hwf h
      cases hs'
      exact hevent hstore rfl hwf hgate' hhandled fun hne => hlaw (hgate hne)
    | crash env event effects =>
      simp only [step] at h
      split at h
      · cases h
      rw [map_eq_some_iff] at h
      obtain ⟨_, _, heq⟩ := h
      cases heq
      cases hrecovered
    | restart =>
      cases h
      cases hrecovered

/-- A node without input slots, under a schema that asks for an object. -/
def sampleNode (id : JsString) (type : ActionType) (deps : List NodeId) (params : JsonObject) : Node :=
  ⟨id, ⟨type, params⟩, deps, [], [(js "type", .str (js "object"))], [(js "type", .str (js "object"))]⟩

/-- The parameters of a task without references to inputs. -/
def sampleTask : JsonObject := [(js "name", .str (js "build")), (js "project", .str (js "app"))]

def sampleRun : TaskRunId := ⟨js "run", by simp [js, unitsOf]⟩

/-- An environment for nodes without input slots: their inputs are empty objects, which conform to their schemas. -/
def sampleEnv (start : Option TaskRunId) (reattach : Except JsString Unit) : Env where
  resolveNodeInputs := fun _ _ _ => .ok []
  validateJsonObject := fun _ _ _ => .ok ()
  evaluateCondition := fun _ _ => none
  assembleNodeOutput := fun _ _ => .ok []
  resolveActionTemplate := fun params _ => .ok (.obj params)
  contracts :=
    ⟨fun _ => [], fun g id => ((g.nodes.get id).map fun n => (n.inputSchema, n.outputSchema)).getD ([], [])⟩
  allowedProject := none
  now := fun n => n
  eventId := natText
  patchId := js "tgp_1"
  start := fun _ => start
  reattach := fun _ => reattach

def sampleGraph : Graph where
  revision := 1
  nodes := [(js "start", sampleNode (js "start") .start [] []),
    (js "work", sampleNode (js "work") .task [js "start"] sampleTask),
    (js "end", sampleNode (js "end") .end_ [js "work"] [])]

def sampleStarted (onNodeFailure : OnNodeFailurePolicy) : List Input :=
  [.handle (sampleEnv (some sampleRun) (.ok ())) .recover,
    .handle (sampleEnv (some sampleRun) (.ok ())) (.create sampleGraph (some onNodeFailure)),
    .handle (sampleEnv (some sampleRun) (.ok ())) (.signal (.startGraph []))]

/-- What a run on given inputs shows of its store at its end. -/
theorem exists_store_of_exec (inputs : List Input) (p : Store → Bool)
    (h : ((Transition.exec step .initial inputs).any fun r => r.1.recovered && r.1.store.any p) = true) :
    ∃ m logs s, Transition.exec step .initial inputs = some (m, logs) ∧ m.recovered = true ∧ m.store = some s ∧
      p s = true := by
  rw [Option.any_eq_true] at h
  obtain ⟨⟨m, logs⟩, hexec, hp⟩ := h
  rw [Bool.and_eq_true, Option.any_eq_true] at hp
  obtain ⟨hrecovered, s, hs, hps⟩ := hp
  exact ⟨m, logs, s, hexec, hrecovered, hs, hps⟩

/-! ### The graph at rest -/

/-- What every state of a run on disk has. -/
theorem durable_graph {inputs : List Input} {m : Machine} {logs : List (List Effect)} {before later : List Effect}
    {s : Store} (h : Transition.exec step .initial inputs = some (m, logs)) (hlog : logs.flatten = before ++ later)
    (hs : storeAfter none before = some s) :
    (∀ id, ¬ Relation.TransGen s.graph.Depends id id) ∧
    (∀ id dep, s.graph.Depends id dep → dep ∈ s.graph.nodes.keys) ∧
    (∃! startId, ∃ node, s.graph.nodes.get startId = some node ∧ node.action.type = .start) ∧
    (∀ id, id ∈ s.nodeStates.keys ↔ id ∈ s.graph.nodes.keys) ∧
    (s.run.state.begun = true ∨ (∃ id state, s.stateOf id = some state ∧ state.begun = true) →
      ∃ startId node, s.graph.nodes.get startId = some node ∧ node.action.type = .start ∧
        s.stateOf startId = some .done) := by
  obtain ⟨-, -, -, -, hwf, -⟩ := followed_runs.split h before [] later (by rwa [append_nil]) hs (by rwa [append_nil])
  obtain ⟨startId, node, hget, htype, honly⟩ := hwf.graph.start
  refine ⟨acyclic_depends hwf.graph.acyclic, hwf.graph.deps, ⟨startId, ⟨node, hget, htype⟩, ?_⟩, hwf.keys,
    fun hbegun => ?_⟩
  · rintro id ⟨node', hget', htype'⟩
    exact honly id node' hget' htype'
  · have hstarted : Started s := by
      rcases hbegun with hrun | ⟨id, state, hstate, hnode⟩
      · exact hwf.run hrun
      · exact hwf.node id state hstate hnode
    exact ⟨startId, node, hget, htype, hstarted startId node hget htype⟩

/-- A run cut before its last write has begun and has its start node done. -/
theorem durable_graph_started : ∃ m logs s, Transition.exec step .initial (sampleStarted .pause) = some (m, logs) ∧
    storeAfter none logs.flatten.dropLast = some s ∧ (∀ id, ¬ Relation.TransGen s.graph.Depends id id) ∧
    ∃ startId node, s.graph.nodes.get startId = some node ∧ node.action.type = .start ∧
      s.stateOf startId = some .done := by
  have hany : ((Transition.exec step .initial (sampleStarted .pause)).any fun r =>
      (storeAfter none r.2.flatten.dropLast).any fun s => s.run.state.begun) = true := by decide
  rw [Option.any_eq_true] at hany
  obtain ⟨⟨m, logs⟩, hexec, hs⟩ := hany
  rw [Option.any_eq_true] at hs
  obtain ⟨s, hs, hbegun⟩ := hs
  obtain ⟨later, hlater⟩ := List.dropLast_prefix logs.flatten
  obtain ⟨hacyclic, -, -, -, hstart⟩ := durable_graph hexec hlater.symm hs
  exact ⟨m, logs, s, hexec, hs, hacyclic, hstart (.inl hbegun)⟩

end Wrenyard.TaskGraph
