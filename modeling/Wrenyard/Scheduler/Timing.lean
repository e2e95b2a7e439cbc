import Wrenyard.Scheduler.Ledger

/-!
# Routine timing

Along every run of a prepared scheduler whose steps meet the condition `Timely`, the next run of every active routine
is at most one interval after its last change or wake, wakes do not overlap and each one was due, and what was asked
for stays due (`timing`).  An update that shortens an interval breaks it (`update_keeps_late_run`).
-/

namespace Wrenyard.Scheduler

open Js Transition List

variable {p : Platform} {workspaceRoot : JsString} {L : Ledger} {s before after acc : State} {c now : Int}

theorem Kept.fresh_of_requested (h : Kept p L before) (r : Nat) (hr : before.fresh ≤ r) : L.requested r = false := by
  cases hasked : L.requested r with
  | false => rfl
  | true =>
    have := h.records.bounded r (h.asked r hasked).1
    omega

variable {r : Nat}

theorem Kept.due (h : Kept p L before) (hr : L.requested r = true) : Due p L.clock (before.objects r) := by
  obtain ⟨hmem, hactive, hsome⟩ := h.asked r hr
  exact h.records.due r hmem hr hactive hsome

/-- Nothing happens to the routines. -/
theorem Kept.unchanged (h : Kept p L before) (hle : L.clock ≤ now) : Change p L now before before where
  fresh_le := Nat.le_refl _
  bounded := h.records.bounded
  old := fun r hr _ => ⟨hr, rfl, .inl rfl⟩
  new := fun r hr hnew => by
    have := h.records.bounded r hr
    omega
  ids := fun _ _ => rfl
  due := fun r _ hr _ _ => (h.due hr).mono hle
  wake := rfl
  ticking := rfl
  ready := ⟨rfl, rfl, rfl⟩

namespace Change

variable (hchange : Change p L now before acc)
include hchange

theorem scheduled (h : Records p c L before) (hle : c ≤ now)
    (hr : r ∈ acc.routines) : Scheduled p now (acc.objects r) := by
  rcases Nat.lt_or_ge r before.fresh with hold | hnew
  · obtain ⟨hmem, -, hsame | hscheduled⟩ := hchange.old r hr hold
    · rw [hsame]
      exact (h.scheduled r hmem).mono ((h.since_le r hmem).trans hle)
    · exact hscheduled
  · exact (hchange.new r hr hnew).2

theorem modify (hr : r ∈ acc.routines) {f : RoutineRecord → RoutineRecord}
    (hid : (f (acc.objects r)).id = (acc.objects r).id)
    (hcount : (f (acc.objects r)).runCount = (acc.objects r).runCount)
    (hscheduled : Scheduled p now (f (acc.objects r)))
    (hdue : L.requested r = true → (f (acc.objects r)).state = .active → (f (acc.objects r)).intervalMinutes ≠ none →
      Due p now (f (acc.objects r))) :
    Change p L now before (acc.modify r f) := by
  have hself : (acc.modify r f).objects r = f (acc.objects r) := Function.update_self _ _ _
  have hother : ∀ r', r' ≠ r → (acc.modify r f).objects r' = acc.objects r' :=
      fun r' hne => Function.update_of_ne hne _ _
  refine { hchange with
    old := fun r' hr' hold => ?_, new := fun r' hr' hnew => ?_, ids := fun r' hold => ?_,
    due := fun r' hr' hasked hactive hsome => ?_ }
  · obtain ⟨hmem, hcount', hsame⟩ := hchange.old r' hr' hold
    by_cases heq : r' = r
    · subst heq
      rw [hself]
      exact ⟨hmem, hcount.trans hcount', .inr hscheduled⟩
    · rw [hother r' heq]
      exact ⟨hmem, hcount', hsame⟩
  · obtain ⟨hzero, hscheduled'⟩ := hchange.new r' hr' hnew
    by_cases heq : r' = r
    · subst heq
      rw [hself]
      exact ⟨hcount.trans hzero, hscheduled⟩
    · rw [hother r' heq]
      exact ⟨hzero, hscheduled'⟩
  · by_cases heq : r' = r
    · subst heq
      rw [hself, hid]
      exact hchange.ids r' hold
    · rw [hother r' heq]
      exact hchange.ids r' hold
  · by_cases heq : r' = r
    · subst heq
      rw [hself] at hactive hsome ⊢
      exact hdue hasked hactive hsome
    · rw [hother r' heq] at hactive hsome ⊢
      exact hchange.due r' hr' hasked hactive hsome

theorem push {record : RoutineRecord} (hzero : record.runCount = JsNumber.ofNat 0)
    (hscheduled : Scheduled p now record) (hfresh : ∀ r, before.fresh ≤ r → L.requested r = false) :
    Change p L now before (acc.push record) := by
  have hself : (acc.push record).objects acc.fresh = record := Function.update_self _ _ _
  have hother : ∀ r, r < acc.fresh → (acc.push record).objects r = acc.objects r :=
    fun r hlt => Function.update_of_ne (Nat.ne_of_lt hlt) _ _
  have hmem : ∀ r ∈ (acc.push record).routines, r ∈ acc.routines ∨ r = acc.fresh := by
    intro r hr
    rcases mem_append.1 hr with hr | hr
    · exact .inl hr
    · exact .inr (mem_singleton.1 hr)
  refine { hchange with
    fresh_le := hchange.fresh_le.trans (Nat.le_succ _), bounded := fun r hr => ?_, old := fun r hr hold => ?_,
    new := fun r hr hnew => ?_, ids := fun r hold => ?_, due := fun r hr hasked hactive hsome => ?_ }
  · rcases hmem r hr with hr | rfl
    · exact Nat.lt_succ_of_lt (hchange.bounded r hr)
    · exact Nat.lt_succ_self _
  · rcases hmem r hr with hr | rfl
    · rw [hother r (hchange.bounded r hr)]
      exact hchange.old r hr hold
    · have := hchange.fresh_le
      omega
  · rcases hmem r hr with hr | rfl
    · rw [hother r (hchange.bounded r hr)]
      exact hchange.new r hr hnew
    · rw [hself]
      exact ⟨hzero, hscheduled⟩
  · rw [hother r (hold.trans_le hchange.fresh_le)]
    exact hchange.ids r hold
  · rcases hmem r hr with hr | rfl
    · rw [hother r (hchange.bounded r hr)] at hactive hsome ⊢
      exact hchange.due r hr hasked hactive hsome
    · rw [hfresh _ hchange.fresh_le] at hasked
      cases hasked

theorem filter (keep : Nat → Bool) (associations : OMap JsString JsString) :
    Change p L now before { acc with routines := acc.routines.filter keep, routineWorkspaces := associations } :=
  { hchange with
    bounded := fun r hr => hchange.bounded r (List.mem_filter.1 hr).1
    old := fun r hr hold => hchange.old r (List.mem_filter.1 hr).1 hold
    new := fun r hr hnew => hchange.new r (List.mem_filter.1 hr).1 hnew
    due := fun r hr hasked hactive hsome => hchange.due r (List.mem_filter.1 hr).1 hasked hactive hsome }

omit hchange

end Change

theorem Change.adoptFiles (hp : p.Dates) (h : Kept p L before) (hle : L.clock ≤ now) (hnow : Reading now)
    {botId : JsString} {files : List RoutineDefinition} (hids : (files.map (·.id)).Nodup)
    (hvalid : ∀ file ∈ files, ∀ i ∈ file.intervalMinutes, validInterval i = true) {acc : State × Bool}
    (hacc : Change p L now before acc.1)
    (huntouched : ∀ r ∈ acc.1.routines, r < before.fresh → (acc.1.objects r).id ∈ files.map (·.id) →
      acc.1.objects r = before.objects r) :
    Change p L now before (files.foldl (State.adoptFile p workspaceRoot now botId) acc).1 := by
  induction files generalizing acc with
  | nil => exact hacc
  | cons file files ih =>
    rw [map_cons, nodup_cons] at hids
    have hrest := @ih hids.2 fun f hf => hvalid f (mem_cons_of_mem _ hf)
    have hfile := hvalid file mem_cons_self
    rw [foldl_cons]
    cases hfind : acc.1.find file.id with
    | none =>
      have hstep : State.adoptFile p workspaceRoot now botId acc file =
          ({ acc.1.push (State.createdFrom p now botId file) with
            routineWorkspaces := acc.1.routineWorkspaces.set file.id workspaceRoot }, true) := by
        unfold State.adoptFile
        rw [hfind]
      rw [hstep]
      have hpushed : Change p L now before (acc.1.push (State.createdFrom p now botId file)) :=
        hacc.push rfl (scheduled_createdFrom hp hnow hfile) h.fresh_of_requested
      refine hrest { hpushed with } fun r hr hold hmem => ?_
      have hlt : r < acc.1.fresh := hold.trans_le hacc.fresh_le
      have hobject : (acc.1.push (State.createdFrom p now botId file)).objects r = acc.1.objects r :=
        Function.update_of_ne (Nat.ne_of_lt hlt) _ _
      have hmem' : ((acc.1.push (State.createdFrom p now botId file)).objects r).id ∈ files.map (·.id) := hmem
      rw [hobject] at hmem'
      show (acc.1.push (State.createdFrom p now botId file)).objects r = before.objects r
      rw [hobject]
      refine huntouched r ?_ hold (mem_cons_of_mem _ hmem')
      rcases mem_append.1 hr with hr | hr
      · exact hr
      · rw [mem_singleton.1 hr] at hlt
        omega
    | some r =>
      obtain ⟨hr, hid⟩ := mem_of_find hfind
      by_cases hbot : (acc.1.objects r).botId ≠ botId
      · have hstep : State.adoptFile p workspaceRoot now botId acc file = acc := by
          unfold State.adoptFile
          rw [hfind]
          exact if_pos hbot
        rw [hstep]
        exact hrest hacc fun r' hr' hold hmem => huntouched r' hr' hold (mem_cons_of_mem _ hmem)
      · have hstep : (State.adoptFile p workspaceRoot now botId acc file).1 =
            acc.1.modify r (State.adopted p now file) := by
          unfold State.adoptFile
          simp only [hfind]
          rw [if_neg hbot]
        obtain ⟨hsameId, hcount, hinterval, hstate, -, -, -⟩ := @adopted_spec p now file (acc.1.objects r)
        have hscheduled := hacc.scheduled h.records hle hr
        have hmodified := hacc.modify hr hsameId hcount (scheduled_adopted hp hnow hscheduled (Int.le_refl now) hfile)
          fun hasked hactive hsome => by
            have hmem := (h.asked r hasked).1
            have hsame := huntouched r hr (h.records.bounded r hmem) (by rw [hid]; exact mem_cons_self)
            rw [hsame] at hactive hsome hstate hinterval ⊢
            exact due_adopted hp hnow ((h.due hasked).mono hle) (Int.le_refl now) hfile (hstate.symm.trans hactive)
              (hinterval ▸ hsome)
        refine hrest (hstep ▸ hmodified) fun r' hr' hold hmem => ?_
        rw [hstep] at hr' hmem ⊢
        by_cases heq : r' = r
        · subst heq
          have hself : (acc.1.modify r' (State.adopted p now file)).objects r' =
              State.adopted p now file (acc.1.objects r') :=
            Function.update_self _ _ _
          rw [hself, hsameId, hid] at hmem
          exact absurd hmem hids.1
        · have hother : (acc.1.modify r (State.adopted p now file)).objects r' = acc.1.objects r' :=
            Function.update_of_ne heq _ _
          rw [hother] at hmem ⊢
          exact huntouched r' hr' hold (mem_cons_of_mem _ hmem)

theorem Kept.applyDefinitions (hp : p.Dates) (h : Kept p L before) (hle : L.clock ≤ now) (hnow : Reading now)
    {botId : JsString} {files : Option (List RoutineDefinition)} (hscope : InScope (.sync botId files)) {s : State}
    (hsame : s = { before with definitions := s.definitions }) :
    Change p L now before (s.applyDefinitions p workspaceRoot now botId files).1 ∧
      wokenRefs (s.applyDefinitions p workspaceRoot now botId files).2 = [] := by
  have hs : Change p L now before s := by
    rw [hsame]
    exact { h.unchanged hle with }
  cases files with
  | none =>
    refine ⟨hs, ?_⟩
    unfold wokenRefs
    rw [flatMap_eq_nil_iff]
    intro effect heffect
    obtain ⟨r, -, rfl⟩ := mem_map.1 heffect
    rfl
  | some files =>
    obtain ⟨hids, hvalid⟩ := hscope files rfl
    have hdropped := hs.filter (fun r => decide (r ∉ s.unwanted workspaceRoot botId files))
      (((s.unwanted workspaceRoot botId files).map fun r => (s.objects r).id).foldl OMap.delete s.routineWorkspaces)
    have hadopted : Change p L now before (files.foldl (State.adoptFile p workspaceRoot now botId)
        (s.drop (s.unwanted workspaceRoot botId files), decide (s.unwanted workspaceRoot botId files ≠ []))).1 :=
      Change.adoptFiles hp h hle hnow hids hvalid hdropped fun r _ _ _ => by rw [hsame]; rfl
    unfold State.applyDefinitions
    simp only
    refine ⟨?_, rfl⟩
    split
    · exact { hadopted with }
    · exact hadopted

variable {env : Env} {id : JsString} {result : State × List Effect}

theorem Kept.create (hp : p.Dates) (h : Kept p L before) (hle : L.clock ≤ env.time 0) (hnow : Reading (env.time 0))
    {input : State.CreateParams} (hresult : before.create p workspaceRoot env id input = .ok result) :
    Change p L (env.time 0) before result.1 ∧ wokenRefs result.2 = [] := by
  obtain ⟨valid, hvalid, hresult⟩ := Checks.bind_eq_ok.1 hresult
  have hinterval : ∀ i ∈ valid.intervalMinutes, validInterval i = true := by
    unfold State.validated at hvalid
    split at hvalid
    · cases hvalid
    · split at hvalid
      · cases hvalid
      · exact (validInterval_of_validateRoutine hvalid).2.2
  split at hresult <;> cases hresult
  refine ⟨{ ((h.unchanged hle).push rfl ?_ h.fresh_of_requested) with }, rfl⟩
  refine ⟨hinterval, fun hnone => ?_, fun _ hsome hnone => hsome (Option.map_eq_none_iff.1 hnone),
    fun text htext => ?_⟩
  · have hnone' : valid.intervalMinutes = none := hnone
    simp only [hnone', Option.map_none]
  · exact scheduled_after hp hnow hinterval htext

theorem Kept.update (hp : p.Dates) (h : Kept p L before) (hle : L.clock ≤ env.time 1) (hnow : Reading (env.time 1))
    {patch : State.UpdateParams} (hresult : before.update p workspaceRoot env id patch = .ok result)
    (htimely : Timely p workspaceRoot L before env (.update id patch)) :
    Change p L (env.time 1) before result.1 ∧ wokenRefs result.2 = [] := by
  have haccepted : (before.update p workspaceRoot env id patch).isOk = true := by
    rw [hresult]
    rfl
  obtain ⟨r, hr, hresult⟩ := Checks.bind_eq_ok.1 hresult
  obtain ⟨hbound, hasked⟩ := htimely r hr haccepted
  split at hresult
  · cases hresult
  simp only at hresult
  split at hresult
  · cases hresult
  obtain ⟨definition, hdefinition, hresult⟩ := Checks.bind_eq_ok.1 hresult
  cases hresult
  obtain ⟨-, hinterval, hvalid⟩ := validInterval_of_validateRoutine hdefinition
  have hmem := (findRecord_ok hr).1
  obtain ⟨hid, hcount, hsame, hpaused⟩ := @updated_fields p env patch definition (before.objects r)
  have hscheduled := scheduled_updated hp hnow (h.records.scheduled r hmem) patch hvalid (hinterval ▸ hbound)
  have hmodified := (h.unchanged hle).modify hmem hid hcount hscheduled fun hrequested hactive hsome => by
    rcases hasked hrequested with hpause | hevent
    · rw [hpaused hpause] at hactive
      cases hactive
    · rw [hsame, hinterval] at hsome
      exact absurd hevent hsome
  exact ⟨{ hmodified with }, rfl⟩

theorem Kept.remove (h : Kept p L before) (hresult : before.remove workspaceRoot id = .ok result)
    (hle : L.clock ≤ now) : Change p L now before result.1 ∧ wokenRefs result.2 = [] := by
  obtain ⟨r, -, hresult⟩ := Checks.bind_eq_ok.1 hresult
  cases hresult
  exact ⟨{ ((h.unchanged hle).filter (fun r' => decide ((before.objects r').id ≠ (before.objects r).id))
    (before.routineWorkspaces.delete (before.objects r).id)) with }, rfl⟩

theorem Kept.sync (hp : p.Dates) (h : Kept p L before) {env : Env} (hle : L.clock ≤ env.time 0)
    (hnow : Reading (env.time 0)) {botId : JsString} {files : Option (List RoutineDefinition)}
    (hscope : InScope (.sync botId files)) :
    Change p L (env.time 0) before (before.sync p workspaceRoot env botId files).1 ∧
    wokenRefs (before.sync p workspaceRoot env botId files).2 = [] := by
  unfold State.sync
  simp only
  split
  · exact h.applyDefinitions hp hle hnow hscope rfl
  · exact ⟨{ h.unchanged hle with }, rfl⟩

/-- A run that is accepted: the routine is due right away, and a polling pass follows. -/
theorem Kept.run (hp : p.Dates) (h : Kept p L before) (hle : L.clock ≤ env.time 0) (hnow : Reading (env.time 0))
    (hresult : before.run p workspaceRoot env id = .ok result) : ∃ r mid, before.findRecord workspaceRoot id = .ok r ∧
    Ledger.accepted workspaceRoot before id = some r ∧ Change p L (env.time 0) before mid ∧
    Due p (env.time 0) (mid.objects r) ∧ result = mid.tick p workspaceRoot env 1 := by
  obtain ⟨r, hr, hresult⟩ := Checks.bind_eq_ok.1 hresult
  split at hresult <;> cases hresult
  rename_i hsome
  have hmem := (findRecord_ok hr).1
  have hinterval : (before.objects r).intervalMinutes ≠ none := fun hnone => hsome (by rw [hnone]; rfl)
  have hparse : p.dateParse (p.toISOString (env.time 0)) = some (env.time 0) := by
    refine hp _ hnow.1 ?_
    have := hnow.2
    unfold longestInterval at this
    omega
  have hdue : Due p (env.time 0) (State.requested p (env.time 0) (before.objects r)) :=
    ⟨rfl, _, hparse, Int.le_refl _⟩
  have hscheduled := scheduled_requested hp hnow (h.records.scheduled r hmem) hinterval
  refine ⟨r, (before.modify r (State.requested p (env.time 0))).persist, hr, ?_, ?_, ?_, rfl⟩
  · unfold Ledger.accepted
    rw [hr]
    show Option.filter _ (some r) = some r
    rw [Option.filter_some, if_pos]
    cases hi : (before.objects r).intervalMinutes with
    | none => exact absurd hi hinterval
    | some i => rfl
  · exact { ((h.unchanged hle).modify hmem rfl rfl hscheduled fun _ _ _ => hdue) with }
  · show Due p (env.time 0) (Function.update before.objects r _ r)
    rw [Function.update_self]
    exact hdue

/-! ### Wakes that settle -/

theorem increment_ofNat (n : Nat) : increment (JsNumber.ofNat n) = JsNumber.ofNat (n + 1) :=
  JsNumber.ofParts_self (JsNumber.ofNat (n + 1))

theorem tickLoop_objects (env : Env) (now fireAt : Int) (changed : Bool) (ids : List JsString) (s : State) :
    (State.tickLoop p env now fireAt changed ids s).1.objects = s.objects := by
  rcases @tickLoop_spec p env now fireAt changed ids s with ⟨changed', hloop⟩ | ⟨id, rest, r, -, -, hloop⟩
  · rw [hloop]
    cases changed' <;> rfl
  · rw [hloop]

theorem tick_objects (env : Env) (i : Nat) (s : State) : (s.tick p workspaceRoot env i).1.objects = s.objects := by
  unfold State.tick
  split
  · rfl
  · exact tickLoop_objects env _ _ _ _ _

theorem settles_wakes {error : Option JsString} (h : ¬(before.stopped = false ∧ r ∈ before.routines)) :
    (L.settles error before).wakes r = L.wakes r :=
  if_neg fun hcounted => h hcounted.2.2

theorem Kept.settledRecord (hp : p.Dates) (h : Kept p L before) {w : PendingWake} (hw : before.wake = some w)
    (hle : L.clock ≤ now) (hnow : Reading now) (hrunning : before.stopped = false) (hmem : w.ref ∈ before.routines)
    (error : Option JsString) :
    Records p now (L.settles error before) (before.modify w.ref (State.settled p w.fireAt error)) := by
  have hpending := h.flight.pending w hw
  have hfire : Reading w.fireAt := ⟨hpending.fired.1, by have := hpending.passed.1; have := hnow.2; omega⟩
  have hhead : L.inFlight.head? = some w.ref := by
    rw [h.flight.inFlight, hw]
    rfl
  have hrecords := h.records.mono hle
  have hself : (before.modify w.ref (State.settled p w.fireAt error)).objects w.ref =
      State.settled p w.fireAt error (before.objects w.ref) := Function.update_self _ _ _
  have hother : ∀ r, r ≠ w.ref →
      (before.modify w.ref (State.settled p w.fireAt error)).objects r = before.objects r ∧
        (L.settles error before).wakes r = L.wakes r := by
    intro r hne
    refine ⟨Function.update_of_ne hne _ _, if_neg fun hcounted => hne ?_⟩
    rw [hhead] at hcounted
    exact (Option.some.inj hcounted.1).symm
  refine ⟨h.records.bounded, fun r hr => ?_, hrecords.since_le, fun r hr => ?_, fun r hr => ?_,
    fun r hr hasked hactive hsome => ?_⟩
  · by_cases heq : r = w.ref
    · subst heq
      rw [hself]
      exact scheduled_settled hp (h.records.scheduled _ hmem) hfire hpending.fired.2 error
    · rw [(hother r heq).1]
      exact h.records.scheduled r hr
  · by_cases heq : r = w.ref
    · subst heq
      rw [hself]
      cases error with
      | none =>
        have hcounted : (L.settles none before).wakes w.ref = L.wakes w.ref + 1 := if_pos ⟨hhead, rfl, hrunning, hmem⟩
        rw [hcounted, ← increment_ofNat, ← h.records.count _ hmem]
        rfl
      | some message =>
        have hcounted : (L.settles (some message) before).wakes w.ref = L.wakes w.ref :=
          if_neg fun hcounted => by cases hcounted.2.1
        rw [hcounted, ← h.records.count _ hmem]
        rfl
    · rw [(hother r heq).1, (hother r heq).2]
      exact h.records.count r hr
  · have hfresh : before.fresh ≤ r := hr
    have hgone : ¬(before.stopped = false ∧ r ∈ before.routines) := fun hstored => by
      have := h.records.bounded r hstored.2
      omega
    rw [settles_wakes hgone]
    exact h.records.unused r hr
  · by_cases heq : r = w.ref
    · subst heq
      have hrequested : L.requested w.ref = true := hasked
      rw [hpending.requested] at hrequested
      cases hrequested
    · rw [(hother r heq).1] at hactive hsome ⊢
      exact hrecords.due r hr hasked hactive hsome

theorem Kept.settle (hp : p.Dates) (h : Kept p L before) {env : Env} (hle : L.clock ≤ env.time 0)
    (hnow : Reading (env.time 0)) {error : Option JsString} {result : State × List Effect}
    (hresult : before.settleWake p env error = some result)
    (htimely : Timely p workspaceRoot L before env (.settle error)) :
    Records p (env.time 0) ((L.settles error before).begins (env.time 0) (wokenRefs result.2)) result.1 ∧
      Flight (env.time 0) ((L.settles error before).begins (env.time 0) (wokenRefs result.2)) result.1 ∧
      (∀ r record text, .wake r record text ∈ result.2 →
        r ∈ result.1.routines ∧ result.1.objects r = record ∧ Due p (env.time 0) record) ∧
      ∀ r, L.inFlight = [r] → before.stopped = false → r ∈ before.routines →
        ∀ i ∈ (before.objects r).intervalMinutes,
          State.dueAt p (result.1.objects r) = some (L.attempt r + minutesMs i) := by
  obtain ⟨w, hw, rfl⟩ := Option.map_eq_some_iff.1 hresult
  have hpending := h.flight.pending w hw
  have hflight : L.inFlight = [w.ref] := by
    rw [h.flight.inFlight, hw]
    rfl
  have hempty : (L.settles error before).inFlight = [] := by
    show L.inFlight.tail = []
    rw [hflight]
    rfl
  have hwnow : w.now ≤ env.time 0 := hpending.passed.2.trans hle
  have hkept : ¬(before.stopped = false ∧ w.ref ∈ before.routines) →
      Records p (env.time 0) (L.settles error before) before := by
    intro hgone
    have hwakes : (L.settles error before).wakes = L.wakes := by
      funext r
      by_cases heq : r = w.ref
      · subst heq
        exact settles_wakes hgone
      · refine if_neg fun hcounted => heq ?_
        rw [hflight] at hcounted
        exact (Option.some.inj hcounted.1).symm
    have hrecords := h.records.mono hle
    exact ⟨hrecords.bounded, hrecords.scheduled, hrecords.since_le, hwakes ▸ hrecords.count, hwakes ▸ hrecords.unused,
      hrecords.due⟩
  split
  · rename_i hstopped
    have hgone : ¬(before.stopped = false ∧ w.ref ∈ before.routines) := fun hstored => by
      rw [hstopped] at hstored
      cases hstored.1
    have hbegins : (L.settles error before).begins (env.time 0) (wokenRefs []) = L.settles error before :=
        begins_nil _ _
    rw [hbegins]
    refine ⟨{ hkept hgone with }, ⟨h.flight.ready, hempty, (fun w hw => by cases hw), fun w hw => by cases hw⟩,
      (fun r record text hmem => by cases hmem), fun r _ hrunning => ?_⟩
    rw [hstopped] at hrunning
    cases hrunning
  · rename_i hrunning
    have hrunning' : before.stopped = false := by simpa using hrunning
    cases hfind : before.find w.id with
    | none =>
      have hgone : w.ref ∉ before.routines := fun hmem => by
        have := List.find?_eq_none.1 hfind w.ref hmem
        rw [hpending.id] at this
        exact this (decide_eq_true rfl)
      have hrecords : Records p (env.time 0) (L.settles error before) { before with wake := none } :=
        { hkept fun hstored => hgone hstored.2 with }
      obtain ⟨hafter, hafterFlight, hbegins⟩ :=
          hrecords.tickLoop h.flight.ready (h.flight.ticking w hw) hempty hnow.1 hwnow
        env w.changed w.rest
      refine ⟨hafter, hafterFlight, hbegins, fun r hr _ hstored => ?_⟩
      rw [hflight] at hr
      cases hr
      exact absurd hstored hgone
    | some r =>
      obtain ⟨hmem, -⟩ := mem_of_find hfind
      have href : r = w.ref := htimely hrunning' w hw r hfind
      subst href
      have hmodified := h.settledRecord hp hw hle hnow hrunning' hmem error
      have hrecords : Records p (env.time 0) (L.settles error before)
          { before.modify w.ref (State.settled p w.fireAt error) with wake := none } := { hmodified with }
      obtain ⟨hafter, hafterFlight, hbegins⟩ :=
          hrecords.tickLoop h.flight.ready (h.flight.ticking w hw) hempty hnow.1 hwnow
        env true w.rest
      refine ⟨hafter, hafterFlight, hbegins, fun r hr _ hstored i hi => ?_⟩
      rw [hflight] at hr
      cases hr
      have hobject : (State.tickLoop p env w.now (env.time 0) true w.rest
          { before.modify w.ref (State.settled p w.fireAt error) with wake := none }).1.objects w.ref =
          State.settled p w.fireAt error (before.objects w.ref) := by
        rw [tickLoop_objects]
        exact Function.update_self _ _ _
      have hfire : Reading w.fireAt := ⟨hpending.fired.1, by have := hpending.passed.1; have := hnow.2; omega⟩
      show State.dueAt p ((State.tickLoop p env w.now (env.time 0) true w.rest
          { before.modify w.ref (State.settled p w.fireAt error) with wake := none }).1.objects w.ref) = _
      rw [hobject, hpending.attempt]
      exact dueAt_settled hp hfire error hi ((h.records.scheduled _ hmem).interval i hi)

/-! ### Steps -/

variable {effects : List Effect}

theorem not_wake_of_wokenRefs (h : wokenRefs effects = []) {record : RoutineRecord} {text : Option JsString} :
    .wake r record text ∉ effects := by
  intro hmem
  have hr : r ∈ wokenRefs effects := mem_flatMap.2 ⟨_, hmem, mem_singleton.2 rfl⟩
  rw [h] at hr
  cases hr

/-- What a step leaves. -/
abbrev Left (p : Platform) (L L' : Ledger) (op : Op) (env : Env) (before after : State)
    (effects : List Effect) : Prop :=
  Kept p L' after ∧ WakesTimed p L op env before after effects

/-- The end of a step without wakes. -/
theorem Kept.left (h : Kept p L before) {env : Env} (hclock : Clocked L.clock env) (op : Op)
    (hle : L.clock ≤ changeTime env op)
    (hle' : changeTime env op ≤ env.time 2) (hchange : Change p L (changeTime env op) before after)
    {effects : List Effect} (hrefs : wokenRefs effects = []) (hop : ∀ error, op ≠ .settle error) :
    Left p L (((L.changed (changeTime env op) before after).begins (attemptTime env op) (wokenRefs effects)).closes
      (env.time 2) after) op env before after effects := by
  rw [hrefs, begins_nil]
  exact ⟨(hchange.records h.records hle hle').closes (hchange.flight h.flight hle hle') (Int.le_refl _) hclock.last.1,
    (fun r record text hmem => absurd hmem (not_wake_of_wokenRefs hrefs)), fun error r heq => absurd heq (hop error)⟩

theorem changed_congr {now : Int} {mid : State} (h : after.objects = mid.objects) :
    L.changed now before after = L.changed now before mid := by
  unfold Ledger.changed
  rw [h]

theorem Kept.tick (h : Kept p L before) {env : Env} (hclock : Clocked L.clock env) :
    Left p L (L.next workspaceRoot .tick env before (before.tick p workspaceRoot env 0).1
        (before.tick p workspaceRoot env 0).2) .tick env before (before.tick p workspaceRoot env 0).1
      (before.tick p workspaceRoot env 0).2 := by
  have hchange := h.unchanged hclock.first
  have h01 := hclock.second
  have h12 := hclock.third
  have h0 : 0 ≤ env.time 1 := by
    have := h.clock
    have := hclock.first
    omega
  obtain ⟨hrecords, hflight, hbegins⟩ := @Records.tick p workspaceRoot _ _ env 0
    (hchange.records h.records hclock.first h01) (hchange.flight h.flight hclock.first h01) h0 h01
  refine ⟨?_, hbegins, fun error r heq => by cases heq⟩
  show Kept p (((L.changed (env.time 0) before (before.tick p workspaceRoot env 0).1).begins (env.time 1)
    (wokenRefs (before.tick p workspaceRoot env 0).2)).closes (env.time 2) _) _
  rw [changed_congr (tick_objects env 0 before)]
  exact hrecords.closes hflight h12 hclock.last.1

theorem Records.asks (h : Records p c L s) (hr : Due p c (s.objects r)) : Records p c (L.asks (some r)) s := by
  refine { h with due := fun r' hr' hasked hactive hsome => ?_ }
  by_cases heq : r' = r
  · rw [heq]
    exact hr
  · have hasked' : (L.requested r' || decide (some r = some r')) = true := hasked
    rw [Bool.or_eq_true, decide_eq_true_eq, Option.some.injEq] at hasked'
    exact h.due r' hr' (hasked'.resolve_right fun hsame => heq hsame.symm) hactive hsome

theorem Flight.asks (h : Flight c L s) (hr : ∀ w ∈ s.wake, w.ref ≠ r) : Flight c (L.asks (some r)) s := by
  refine { h with pending := fun w hw => { h.pending w hw with requested := ?_ } }
  show (L.requested w.ref || decide (some r = some w.ref)) = false
  rw [(h.pending w hw).requested, Bool.false_or, decide_eq_false_iff_not, Option.some.injEq]
  exact fun heq => hr w hw heq.symm

theorem asks_none (L : Ledger) : L.asks none = L := by
  unfold Ledger.asks
  simp

theorem accepted_of_error {message : JsString} (h : before.run p workspaceRoot env id = .error message) :
    Ledger.accepted workspaceRoot before id = none := by
  unfold Ledger.accepted
  cases hfind : before.findRecord workspaceRoot id with
  | error message' => rfl
  | ok r =>
    have hrun : before.run p workspaceRoot env id = (if (before.objects r).intervalMinutes.isNone then
        .error (js "event routines cannot be run by timer")
        else .ok (((before.modify r (State.requested p (env.time 0))).persist).tick p workspaceRoot env 1)) := by
      unfold State.run
      rw [hfind]
      rfl
    rw [hrun] at h
    split at h
    · rename_i hnone
      show Option.filter _ (some r) = none
      rw [Option.filter_some, if_neg]
      rw [Option.isNone_iff_eq_none] at hnone
      rw [hnone]
      exact Bool.false_ne_true
    · cases h

theorem Kept.runs (hp : p.Dates) (h : Kept p L before) (hclock : Clocked L.clock env)
    (hresult : before.run p workspaceRoot env id = .ok result)
    (htimely : Timely p workspaceRoot L before env (.run id)) :
    Left p L (L.next workspaceRoot (.run id) env before result.1 result.2)
    (.run id) env before result.1 result.2 := by
  have h01 := hclock.second
  have h12 := hclock.third
  have h02 : env.time 0 ≤ env.time 2 := h01.trans h12
  have h0 : Reading (env.time 0) := by
    have := h.clock
    have := hclock.first
    have := hclock.last.2
    exact ⟨by omega, by omega⟩
  obtain ⟨r, mid, hr, haccepted, hchange, hdue, rfl⟩ := h.run hp hclock.first h0 hresult
  have hasked := (hchange.records h.records hclock.first h02).asks (hdue.mono h02)
  have hother : ∀ w ∈ mid.wake, w.ref ≠ r := by
    intro w hw heq
    rw [hchange.wake] at hw
    refine htimely w hw ?_
    rw [heq]
    exact hr
  have haskedFlight := (hchange.flight h.flight hclock.first h02).asks hother
  obtain ⟨hrecords, hflight, hbegins⟩ := @Records.tick p workspaceRoot _ _ env 1 hasked haskedFlight hclock.last.1 h12
  refine ⟨?_, hbegins, fun error r heq => by cases heq⟩
  show Kept p ((((L.changed (env.time 0) before (mid.tick p workspaceRoot env 1).1).asks
    (Ledger.accepted workspaceRoot before id)).begins (env.time 2)
    (wokenRefs (mid.tick p workspaceRoot env 1).2)).closes (env.time 2) _) _
  rw [changed_congr (tick_objects env 1 mid), haccepted]
  exact hrecords.closes hflight (Int.le_refl _) hclock.last.1

/-- What one step keeps. -/
theorem Kept.step (hp : p.Dates) {w w' : World} (h : Kept p L w.state) {op : Op}
    (hstep : w.perform p workspaceRoot env op = some (w', effects)) (hclock : Clocked L.clock env)
    (hscope : InScope op) (htimely : Timely p workspaceRoot L w.state env op) :
    Left p L (L.next workspaceRoot op env w.state w'.state effects) op env w.state w'.state effects := by
  have h01 := hclock.second
  have h12 := hclock.third
  have h02 : env.time 0 ≤ env.time 2 := h01.trans h12
  have hpos := h.clock
  have hfirst := hclock.first
  have hlast := hclock.last.2
  have hread0 : Reading (env.time 0) := ⟨by omega, by omega⟩
  have hread1 : Reading (env.time 1) := ⟨by omega, by omega⟩
  have hsame := h.unchanged hfirst
  cases op with
  | prepare | read | load | todoChanged | settleTodo | restart => exact hscope.elim
  | tick =>
    cases hstep
    exact h.tick hclock
  | settle error =>
    obtain ⟨result, hresult, hreturned⟩ := Option.map_eq_some_iff.1 hstep
    cases hreturned
    obtain ⟨hrecords, hflight, hbegins, hconsumes⟩ := h.settle hp hfirst hread0 hresult htimely
    refine ⟨hrecords.closes hflight h02 hclock.last.1, hbegins, fun error' r heq hr => ?_⟩
    exact hconsumes r hr
  | sync botId files =>
    obtain ⟨hchange, hrefs⟩ := @Kept.sync p workspaceRoot _ _ hp h env hfirst hread0 botId files hscope
    cases hstep
    exact h.left hclock (.sync botId files) hfirst h02 hchange hrefs fun error heq => by cases heq
  | create id input =>
    simp only [World.perform] at hstep
    split at hstep
    · cases hresult : w.state.create p workspaceRoot env id input <;> rw [hresult] at hstep
      case error message =>
        cases hstep
        exact h.left hclock (.create id input) hfirst h02 hsame rfl fun error heq => by cases heq
      case ok result =>
        cases hstep
        obtain ⟨hchange, hrefs⟩ := h.create hp hfirst hread0 hresult
        exact h.left hclock (.create id input) hfirst h02 hchange hrefs fun error heq => by cases heq
    · cases hstep
  | update id patch =>
    have hfirst1 : L.clock ≤ env.time 1 := hfirst.trans h01
    cases hresult : w.state.update p workspaceRoot env id patch <;> simp only [World.perform, hresult] at hstep
    case error message =>
      cases hstep
      exact h.left hclock (.update id patch) hfirst1 h12 (h.unchanged hfirst1) rfl fun error heq => by cases heq
    case ok result =>
      cases hstep
      obtain ⟨hchange, hrefs⟩ := h.update hp hfirst1 hread1 hresult htimely
      exact h.left hclock (.update id patch) hfirst1 h12 hchange hrefs fun error heq => by cases heq
  | run id =>
    cases hresult : w.state.run p workspaceRoot env id <;> simp only [World.perform, hresult] at hstep
    case error message =>
      cases hstep
      have hleft := @Kept.left p L _ _ h env hclock (.run id) hfirst h02 hsame [] rfl fun error heq => by cases heq
      unfold Ledger.next
      simp only [accepted_of_error hresult, asks_none]
      exact hleft
    case ok result =>
      cases hstep
      exact h.runs hp hclock hresult htimely
  | remove id =>
    cases hresult : w.state.remove workspaceRoot id <;> simp only [World.perform, hresult] at hstep
    case error message =>
      cases hstep
      exact h.left hclock (.remove id) hfirst h02 hsame rfl fun error heq => by cases heq
    case ok result =>
      cases hstep
      obtain ⟨hchange, hrefs⟩ := h.remove hresult hfirst
      exact h.left hclock (.remove id) hfirst h02 hchange hrefs fun error heq => by cases heq
  | list botId =>
    cases hstep
    exact h.left hclock (.list botId) hfirst h02 hsame rfl fun error heq => by cases heq
  | lastRunAt botId =>
    cases hstep
    exact h.left hclock (.lastRunAt botId) hfirst h02 hsame rfl fun error heq => by cases heq
  | stop =>
    cases hstep
    have hstopped : Change p L (env.time 0) w.state { w.state with stopped := true } := { hsame with }
    exact h.left hclock .stop hfirst h02 hstopped rfl fun error heq => by cases heq
  | written ok =>
    simp only [World.perform] at hstep
    split at hstep <;> cases hstep
    rename_i text rest hwrites
    have hwritten : Change p L (env.time 0) w.state { w.state with writes := rest } := { hsame with }
    exact h.left hclock (.written ok) hfirst h02 hwritten rfl fun error heq => by cases heq

/-- The timing of routines: along every run of a prepared scheduler whose steps meet the condition, the timing of
every state and of every further step is right. -/
theorem timing (hp : p.Dates) {start : Ledger × World} (hstart : Ready p start.1 start.2.state)
    {labels : List ((Op × Env) × List Effect)} {x : Ledger × World}
    (hrun : Run (TimelyStep p workspaceRoot) start labels x) : Timed p x.1 x.2.state ∧
    ∀ a y, TimelyStep p workspaceRoot x a y → WakesTimed p x.1 a.1.1 a.1.2 x.2.state y.2.state a.2 := by
  have hstep : ∀ x a y, Kept p x.1 x.2.state → TimelyStep p workspaceRoot x a y →
      Left p x.1 y.1 a.1.1 a.1.2 x.2.state y.2.state a.2 := by
    intro x a y hx hxy
    rw [hxy.1.ledger]
    exact hx.step hp hxy.1.step hxy.1.clocked hxy.1.scope hxy.2
  have hkept : Kept p x.1 x.2.state :=
    hrun.invariant (fun x => Kept p x.1 x.2.state) (fun x a y hx hxy => (hstep x a y hx hxy).1) hstart.kept
  exact ⟨hkept.timed, fun a y hxy => (hstep x a y hkept hxy).2⟩

def ledgerStep (p : Platform) (workspaceRoot : JsString) (x : Ledger × World) (a : Op × Env) :
    Option ((Ledger × World) × List Effect) :=
  (World.step p workspaceRoot x.2 a).map fun r =>
    ((x.1.next workspaceRoot a.1 a.2 x.2.state r.1.state r.2, r.1), r.2)

theorem scopedStep_of_ledgerStep {x y : Ledger × World} {a : Op × Env}
    (h : ledgerStep p workspaceRoot x a = some (y, effects)) (hclock : Clocked x.1.clock a.2) (hscope : InScope a.1) :
    ScopedStep p workspaceRoot x (a, effects) y := by
  obtain ⟨r, hr, heq⟩ := Option.map_eq_some_iff.1 h
  cases heq
  exact ⟨hr, rfl, hclock, hscope⟩

theorem clock_of_ledgerStep {x y : Ledger × World} {a : Op × Env}
    (h : ledgerStep p workspaceRoot x a = some (y, effects)) : y.1.clock = a.2.time 2 := by
  obtain ⟨r, -, heq⟩ := Option.map_eq_some_iff.1 h
  cases heq
  rfl

def firstMinutes : List (Int × JsString) :=
  [(0, js "1970-01-01T00:00:00.000Z"), (60000, js "1970-01-01T00:01:00.000Z"),
    (3600000, js "1970-01-01T01:00:00.000Z")]

def minuteDates : Platform where
  toISOString t := ((firstMinutes.find? (·.1 = t)).map (·.2)).getD (natText t.toNat)
  dateParse text := ((firstMinutes.find? (·.2 = text)).map (·.1)).or (some (digitsValue text))
  localeCompare _ _ := 0

theorem minuteDates_dates : minuteDates.Dates := by
  intro t h0 _
  cases hfind : firstMinutes.find? (·.1 = t) with
  | some e =>
    have hmem := mem_of_find?_eq_some hfind
    have htime : e.1 = t := by simpa using List.find?_some hfind
    have hparse : ∀ e ∈ firstMinutes, minuteDates.dateParse e.2 = some e.1 := by decide
    show minuteDates.dateParse (((firstMinutes.find? (·.1 = t)).map (·.2)).getD _) = some t
    rw [hfind, ← htime]
    exact hparse e hmem
  | none =>
    have hdigits : ∀ e ∈ firstMinutes, e.2.all isDigit = false := by decide
    have hnone : firstMinutes.find? (·.2 = natText t.toNat) = none := by
      refine List.find?_eq_none.2 fun e he htext => ?_
      have htext' : e.2 = natText t.toNat := by simpa using htext
      have hall : e.2.all isDigit = true := by
        rw [htext', all_eq_true]
        exact fun u hu => isDigit_of_mem_natText hu
      rw [hdigits e he] at hall
      cases hall
    show ((firstMinutes.find? (·.2 = ((firstMinutes.find? (·.1 = t)).map (·.2)).getD (natText t.toNat))).map (·.1)).or
      (some (digitsValue (((firstMinutes.find? (·.1 = t)).map (·.2)).getD (natText t.toNat)) : Int)) = some t
    rw [hfind]
    show ((firstMinutes.find? (·.2 = natText t.toNat)).map (·.1)).or (some (digitsValue (natText t.toNat) : Int)) =
        some t
    rw [hnone, digitsValue_natText]
    show some (t.toNat : Int) = some t
    rw [Int.toNat_of_nonneg h0]

/-- The surroundings at a time. -/
def envAt (t : Int) : Env := ⟨fun _ => t, true, fun _ => false⟩

def emptyStart : Ledger × World :=
  (⟨0, fun _ => 0, fun _ => 0, fun _ => 0, fun _ => false, []⟩, ⟨none, { State.initial with prepared := true }⟩)

theorem ready_emptyStart : Ready minuteDates emptyStart.1 emptyStart.2.state where
  prepared := rfl
  idle := ⟨rfl, rfl, rfl, rfl⟩
  bounded := fun r hr => by cases hr
  scheduled := fun r hr => by cases hr
  since_le := fun r hr => by cases hr
  clock := Int.le_refl 0
  count := fun r hr => by cases hr
  unused := fun _ _ => rfl
  requested := fun _ => rfl
  inFlight := rfl

def createEvery (minutes : Nat) : Op :=
  .create (js "0123abcd") ⟨js "fox", js "Look around", some (JsNumber.ofNat minutes), none, none, none⟩

/-- The interval of the routine becomes one minute. -/
def shorten : Op := .update (js "0123abcd") ⟨none, some (JsNumber.ofNat 1), none, none, none, none⟩

def twoSteps (first second : Op × Env) : Option ((Ledger × World) × List (List Effect)) :=
  exec (ledgerStep minuteDates (js "/here")) emptyStart [first, second]

theorem exists_of_twoSteps {first second : Op × Env} {x : Ledger × World} {outcomes : List (List Effect)}
    (h : twoSteps first second = some (x, outcomes)) :
    ∃ y effects effects', ledgerStep minuteDates (js "/here") emptyStart first = some (y, effects) ∧
    ledgerStep minuteDates (js "/here") y second = some (x, effects') := by
  unfold twoSteps exec at h
  split at h
  · cases h
  rename_i y effects hfirst
  obtain ⟨⟨x', rest⟩, hrest, heq⟩ := Option.map_eq_some_iff.1 h
  cases heq
  unfold exec at hrest
  split at hrest
  · cases hrest
  rename_i z effects' hsecond
  obtain ⟨⟨x', rest'⟩, hnil, heq⟩ := Option.map_eq_some_iff.1 hrest
  cases heq
  cases hnil
  exact ⟨y, effects, effects', hfirst, hsecond⟩

theorem clocked_envAt {clock t : Int} (hle : clock ≤ t) (ht : Reading t) : Clocked clock (envAt t) :=
  ⟨hle, Int.le_refl t, Int.le_refl t, ht⟩

theorem timing_sample : ∃ labels x, Run (TimelyStep minuteDates (js "/here")) emptyStart labels x ∧
    x.1.inFlight = [0] ∧ Timed minuteDates x.1 x.2.state := by
  obtain ⟨⟨x, outcomes⟩, hx⟩ := Option.isSome_iff_exists.1
    (show (twoSteps (createEvery 1, envAt 0) (.tick, envAt 60000)).isSome = true by decide)
  have hflight : (twoSteps (createEvery 1, envAt 0) (.tick, envAt 60000)).map (·.1.1.inFlight) = some [0] := by
    decide
  rw [hx] at hflight
  obtain ⟨y, effects, effects', hfirst, hsecond⟩ := exists_of_twoSteps hx
  have hclock : y.1.clock = 0 := clock_of_ledgerStep hfirst
  have hcreate : TimelyStep minuteDates (js "/here") emptyStart ((createEvery 1, envAt 0), effects) y :=
    ⟨scopedStep_of_ledgerStep hfirst (clocked_envAt (Int.le_refl 0) ⟨by decide, by decide⟩) trivial, trivial⟩
  have htick : TimelyStep minuteDates (js "/here") y ((.tick, envAt 60000), effects') x :=
    ⟨scopedStep_of_ledgerStep hsecond (clocked_envAt (by rw [hclock]; decide) ⟨by decide, by decide⟩) trivial,
      trivial⟩
  have hrun := Run.cons hcreate (Run.single htick)
  exact ⟨_, x, hrun, Option.some.inj hflight, (timing minuteDates_dates ready_emptyStart hrun).1⟩

/-- An update that shortens the interval leaves the next run where it was. -/
theorem update_keeps_late_run : minuteDates.Dates ∧ Ready minuteDates emptyStart.1 emptyStart.2.state ∧
    ∃ labels x, Run (ScopedStep minuteDates (js "/here")) emptyStart labels x ∧
    ¬ Timed minuteDates x.1 x.2.state := by
  refine ⟨minuteDates_dates, ready_emptyStart, ?_⟩
  obtain ⟨⟨x, outcomes⟩, hx⟩ := Option.isSome_iff_exists.1
    (show (twoSteps (createEvery 60, envAt 0) (shorten, envAt 0)).isSome = true by decide)
  have hend : (twoSteps (createEvery 60, envAt 0) (shorten, envAt 0)).map (fun r =>
      (r.1.2.state.routines, (r.1.2.state.objects 0).state, (r.1.2.state.objects 0).intervalMinutes,
        State.dueAt minuteDates (r.1.2.state.objects 0), r.1.1.since 0)) =
      some ([0], .active, some (JsNumber.ofNat 1), some 3600000, 0) := by
    decide
  rw [hx] at hend
  simp only [Option.map_some, Option.some.injEq, Prod.mk.injEq] at hend
  obtain ⟨hroutines, hstate, hinterval, hdue, hsince⟩ := hend
  obtain ⟨y, effects, effects', hfirst, hsecond⟩ := exists_of_twoSteps hx
  have hclock : y.1.clock = 0 := clock_of_ledgerStep hfirst
  have hcreate := scopedStep_of_ledgerStep hfirst (clocked_envAt (Int.le_refl 0) ⟨by decide, by decide⟩) trivial
  have hshorten := scopedStep_of_ledgerStep hsecond (clocked_envAt (by rw [hclock]) ⟨by decide, by decide⟩) trivial
  refine ⟨_, x, Run.cons hcreate (Run.single hshorten), fun htimed => ?_⟩
  obtain ⟨due, hdue', hle⟩ := htimed.next 0 (by rw [hroutines]; exact List.mem_singleton.2 rfl) hstate _ hinterval
  rw [hdue] at hdue'
  cases hdue'
  rw [hsince] at hle
  exact absurd hle (by decide)

end Wrenyard.Scheduler
