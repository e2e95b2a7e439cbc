import Wrenyard.Exec.Lifecycle

/-!
# Executions under their own ids

A handle looks its execution up by id.  Where a start takes an id that no other start has, and a placeholder is
registered under an id of its own (`fresh`), the table gives a bound execution or nothing under its id, and a bound
execution that is not terminal is running (`named_perform`).
-/

namespace Wrenyard.Exec

open Js Transition

namespace World

variable {cfg : ExecServiceOptions} {w w' : World}

/-- The ids that an operation takes are its own. -/
def fresh (w : World) (now : Nat) : Op → Bool
  | .registerQueued _ id _ => w.entries.all fun e => decide (e.id ≠ id.getD [])
  | .start _ id _ => w.starts.all fun st => decide (w.idOf st.entry ≠ w.resolvedId now id)
  | _ => true

def freshStep (cfg : ExecServiceOptions) (w : World) (a : Op × Nat) : Option World :=
  if w.fresh a.2 a.1 then w.step cfg a else none

abbrev FreshStep (cfg : ExecServiceOptions) : World → Op × Nat → World → Prop := fun w a w' =>
  w.freshStep cfg a = some w'

theorem of_freshStep {a : Op × Nat} (h : FreshStep cfg w a w') : Step cfg w a w' ∧ w.fresh a.2 a.1 = true := by
  unfold FreshStep freshStep at h
  split at h
  · exact ⟨h, by assumption⟩
  · cases h

/-! ### Entries that are on their way -/

def Going (w : World) (a : Nat) : Prop :=
  ∃ e, w.entries[a]? = some e ∧ (e.terminal = true ∨ e.status = .running)

/-- A step that keeps an entry on its way and registers nothing under an id. -/
structure Steady (b : Nat) (id : ExecId) (w w' : World) : Prop where
  going : Going w b → Going w' b
  runs : ∀ a, (id, a) ∈ w'.runs → (id, a) ∈ w.runs

namespace Steady

variable {b : Nat} {id : ExecId} {w'' : World}

theorem of_eq (hentries : w'.entries = w.entries) (hruns : w'.runs = w.runs) : Steady b id w w' where
  going h := by
    unfold Going
    rw [hentries]
    exact h
  runs a h := hruns ▸ h

theorem refl (w : World) : Steady b id w w := of_eq rfl rfl

theorem trans (h : Steady b id w w') (h' : Steady b id w' w'') : Steady b id w w'' :=
  ⟨fun hw => h'.going (h.going hw), fun a ha => h.runs a (h'.runs a ha)⟩

theorem modify (w : World) (a : Nat) {f : ExecEntry → ExecEntry}
    (hf : ∀ e, e.terminal = true ∨ e.status = .running → (f e).terminal = true ∨ (f e).status = .running) :
    Steady b id w (w.modify a f) := by
  refine ⟨fun h => ?_, fun _ h => h⟩
  obtain ⟨e, he, hgoing⟩ := h
  by_cases hab : a = b
  · subst hab
    refine ⟨f e, ?_, hf e hgoing⟩
    show (w.entries.modify a f)[a]? = _
    rw [List.getElem?_modify_eq, he]
    rfl
  · refine ⟨e, ?_, hgoing⟩
    show (w.entries.modify a f)[b]? = _
    rw [List.getElem?_modify, he]
    simp [hab]

theorem enqueue {a : Nat} (hab : a ≠ b) (hid : w.idOf a ≠ id) (onCancel : Bool) :
    Steady b id w (w.enqueue a onCancel) := by
  refine ⟨fun h => ?_, fun a' h => ?_⟩
  · obtain ⟨e, he, hgoing⟩ := h
    refine ⟨e, ?_, hgoing⟩
    show (w.entries.modify a _)[b]? = _
    rw [List.getElem?_modify, he]
    simp [hab]
  · rcases OMap.mem_set h with heq | hmem
    · cases heq
      exact absurd rfl hid
    · exact hmem

/-- Writes register nothing under an id that is not one of theirs. -/
theorem of_write {names : ExecId → Prop} (hnames : ¬ names (w.idOf b)) (h : Write cfg names w w') :
    Steady b (w.idOf b) w w' := by
  cases h with
  | frame hentries hruns => exact of_eq hentries hruns
  | prune => exact ⟨fun h => h, fun _ h => mem_pruneRuns h⟩
  | modify a f _ hgoing => exact modify w a hgoing
  | push entry sequence =>
    refine ⟨fun h => ?_, fun _ h => h⟩
    obtain ⟨e, he, hgoing⟩ := h
    refine ⟨e, ?_, hgoing⟩
    show (w.entries ++ [entry])[b]? = _
    rw [List.getElem?_append_left (List.getElem?_eq_some_iff.1 he).1]
    exact he
  | @enqueue a onCancel _ _ _ hname =>
    have hne : w.idOf a ≠ w.idOf b := fun h0 => hnames (h0 ▸ hname)
    exact enqueue (fun h0 => hne (congrArg w.idOf h0)) hne onCancel

end Steady

theorem idOf_of_moves (h : Moves w w') {a : Nat} (ha : a < w.entries.length) : w'.idOf a = w.idOf a := by
  obtain ⟨e', he', hevolves⟩ := h.entries.grows a _ (List.getElem?_eq_getElem ha)
  rw [idOf_eq he', idOf_eq (List.getElem?_eq_getElem ha)]
  exact hevolves.id

theorem Steady.of_writes {names : ExecId → Prop} {b : Nat} (hb : b < w.entries.length) (hnames : ¬ names (w.idOf b))
    (h : Writes cfg names w w') : Steady b (w.idOf b) w w' := by
  induction h with
  | refl => exact refl w
  | tail hwrites hwrite ih =>
    have hid := idOf_of_moves (Writes.moves hwrites) hb
    refine ih.trans ?_
    rw [← hid] at hnames ⊢
    exact of_write hnames hwrite

/-- A step with fresh ids leaves a start's execution on its way and its id alone, unless it binds a session. -/
theorem steady_perform (h : Invariant w) {now : Nat} {op : Op} (hstep : w.perform cfg now op = some w')
    (hfresh : w.fresh now op = true) {k : Nat} {st : StartRun} (hk : w.starts[k]? = some st) :
    Steady st.entry (w.idOf st.entry) w w' ∨ ∃ j sj, w.starts[j]? = some sj ∧ w' = w.bound cfg j sj := by
  have hlt : st.entry < w.entries.length := h.started st (List.mem_of_getElem? hk)
  rcases writes_perform h.registered hstep with hwrites | ⟨j, sj, hj, -, -, heq⟩
  · left
    refine Steady.of_writes hlt ?_ hwrites
    rintro (⟨client, key, onCancel, rfl, hid⟩ | ⟨client, key, options, rfl, hid⟩)
    · have hne := of_decide_eq_true (List.all_eq_true.1 hfresh _ (List.getElem_mem hlt))
      rw [idOf_eq (List.getElem?_eq_getElem hlt)] at hid
      exact hne hid
    · exact of_decide_eq_true (List.all_eq_true.1 hfresh _ (List.mem_of_getElem? hk)) hid
  · exact .inr ⟨j, sj, hj, heq⟩

theorem bound_perform {now : Nat} {op : Op} (hstep : w.perform cfg now op = some w') {k : Nat} {st' : StartRun}
    (hk : w'.starts[k]? = some st') (hbound : st'.phase = .bound) : ∃ st, w.starts[k]? = some st ∧ st'.entry =
    st.entry ∧ (st.phase = .bound ∨ (w.isTerminal st.entry = false ∧ w' = w.bound cfg k st)) := by
  have hkeep : w'.starts = w.starts → ∃ st, w.starts[k]? = some st ∧ st'.entry = st.entry ∧
      (st.phase = .bound ∨ (w.isTerminal st.entry = false ∧ w' = w.bound cfg k st)) := by
    intro heq
    rw [heq] at hk
    exact ⟨st', hk, rfl, .inl hbound⟩
  have hset : ∀ {j : Nat} {st₁ : StartRun}, w'.starts = w.starts.set j st₁ → st₁.phase ≠ .bound →
      ∃ st, w.starts[k]? = some st ∧ st'.entry = st.entry ∧
        (st.phase = .bound ∨ (w.isTerminal st.entry = false ∧ w' = w.bound cfg k st)) := by
    intro j st₁ heq hphase
    rw [heq] at hk
    rcases Accounts.getElem?_set_cases hk with ⟨rfl, rfl⟩ | ⟨-, hold⟩
    · exact absurd hbound hphase
    · exact ⟨st', hold, rfl, .inl hbound⟩
  cases change_perform hstep with
  | quiet hq => exact hkeep hq.starts
  | begun prepared st _ hb _ _ _ hpending =>
    rw [hb.starts] at hk
    rcases Nat.lt_or_ge k w.starts.length with hlt | hge
    · rw [List.getElem?_append_left hlt] at hk
      exact ⟨st', hk, rfl, .inl hbound⟩
    rw [List.getElem?_append_right hge, List.getElem?_singleton] at hk
    split at hk <;> cases hk
    exact absurd hbound (of_pending hpending).1
  | advanced j st st₁ _ hb _ hp => exact hset hb.starts (of_pending hp).1
  | failed j st error _ hb | late j st _ hb => exact hset hb.starts (by simp)
  | left j st phase es _ hb _ hover =>
    refine hset hb.starts ?_
    intro heq
    change phase = .bound at heq
    rw [heq] at hover
    cases hover
  | bound j st hj hb _ _ hterminal heq =>
    rw [hb.starts] at hk
    rcases Accounts.getElem?_set_cases hk with ⟨rfl, rfl⟩ | ⟨-, hold⟩
    · exact ⟨st, hj, rfl, .inr ⟨hterminal, heq⟩⟩
    · exact ⟨st', hold, rfl, .inl hbound⟩
  | drains c run run' es _ hb | drained c run _ _ hb => exact hkeep hb.starts
  | close heq =>
    subst heq
    exact hkeep (Quiet.requests w w.live).starts
  | closeCancelled i run _ heq | iterated j st _ _ heq =>
    subst heq
    exact hkeep rfl
  | closeWaited i run _ heq =>
    subst heq
    exact hkeep (Quiet.settles w now run.live).starts
  | stepped i hadvance => exact hkeep (advance_keeps hadvance).1

/-- The executions of a service under their ids. -/
structure Named (w : World) : Prop where
  single : ∀ (k k' : Nat) (st st' : StartRun), w.starts[k]? = some st → w.starts[k']? = some st' →
    w.idOf st.entry = w.idOf st'.entry → k = k'
  own : ∀ (k : Nat) (st : StartRun) (a : Nat), w.starts[k]? = some st → st.phase = .bound →
    (w.idOf st.entry, a) ∈ w.runs → a = st.entry
  going : ∀ (k : Nat) (st : StartRun), w.starts[k]? = some st → st.phase = .bound → Going w st.entry

theorem named_initial : Named initial where
  single k k' st st' h := by cases h
  own k st a h := by cases h
  going k st h := by cases h

theorem mem_runs_bound {j : Nat} {sj : StartRun} {run : ExecId × Nat} (h : run ∈ (w.bound cfg j sj).runs) :
    run = (w.idOf sj.entry, sj.entry) ∨ run ∈ w.runs := OMap.mem_set (mem_pruneRuns h)

theorem going_bound {j : Nat} {sj : StartRun} {a : Nat} (h : Going w a ∨ (a = sj.entry ∧ a < w.entries.length)) :
    Going (w.bound cfg j sj) a := by
  have hmodify : ∀ e, w.entries[a]? = some e →
      (w.bound cfg j sj).entries[a]? = some (if sj.entry = a then
        { e with status := .running, queuePosition := none, onCancel := false, session := some w.sessions }
          else e) := by
    intro e he
    show (w.entries.modify sj.entry _)[a]? = _
    rw [List.getElem?_modify, he]
    by_cases heq : sj.entry = a
    · simp [heq]
    · simp [heq]
  by_cases heq : sj.entry = a
  · have hlt : a < w.entries.length := by
      rcases h with ⟨e, he, -⟩ | ⟨-, hlt⟩
      · exact (List.getElem?_eq_some_iff.1 he).1
      · exact hlt
    refine ⟨_, hmodify _ (List.getElem?_eq_getElem hlt), .inr ?_⟩
    rw [if_pos heq]
  · rcases h with ⟨e, he, hgoing⟩ | ⟨ha, -⟩
    · refine ⟨_, hmodify e he, ?_⟩
      rw [if_neg heq]
      exact hgoing
    · exact absurd ha.symm heq

theorem named_perform (hinv : Invariant w) (h : Named w) {now : Nat} {op : Op}
    (hstep : w.perform cfg now op = some w') (hfresh : w.fresh now op = true) : Named w' := by
  obtain ⟨hinv', hmoves⟩ := invariant_perform hinv hstep
  have hid : ∀ {k : Nat} {st : StartRun}, w.starts[k]? = some st → w'.idOf st.entry = w.idOf st.entry := fun hk =>
    idOf_of_moves hmoves (hinv.started _ (List.mem_of_getElem? hk))
  -- a start is an old one, or the new one with an id that no old one has
  have hcases : ∀ {k : Nat} {st' : StartRun}, w'.starts[k]? = some st' →
      (∃ st, w.starts[k]? = some st ∧ st'.entry = st.entry) ∨
        (k = w.starts.length ∧ ∀ (j : Nat) (sj : StartRun), w.starts[j]? = some sj →
          w.idOf sj.entry ≠ w'.idOf st'.entry) := by
    intro k st' hk
    rcases starts_perform hstep hk with ⟨st, hst, hentry, -⟩ |
      ⟨hlength, -, client, id, options, prepared, hop, hprepare, hentry, -, hid'⟩
    · exact .inl ⟨st, hst, hentry⟩
    subst hop
    refine .inr ⟨hlength, fun j sj hj => ?_⟩
    rw [hentry, hid', idOf_prepare hinv.registered hprepare]
    exact of_decide_eq_true (List.all_eq_true.1 hfresh _ (List.mem_of_getElem? hj))
  have hsingle : ∀ (k k' : Nat) (st st' : StartRun), w'.starts[k]? = some st → w'.starts[k']? = some st' →
      w'.idOf st.entry = w'.idOf st'.entry → k = k' := by
    intro k k' st st' hk hk' heq
    rcases hcases hk with ⟨st₀, hst₀, hentry⟩ | ⟨hlength, hne⟩
    · rcases hcases hk' with ⟨st₁, hst₁, hentry'⟩ | ⟨-, hne⟩
      · rw [hentry, hentry', hid hst₀, hid hst₁] at heq
        exact h.single k k' st₀ st₁ hst₀ hst₁ heq
      · rw [hentry, hid hst₀] at heq
        exact absurd heq (hne k st₀ hst₀)
    · rcases hcases hk' with ⟨st₁, hst₁, hentry'⟩ | ⟨hlength', -⟩
      · rw [hentry', hid hst₁] at heq
        exact absurd heq.symm (hne k' st₁ hst₁)
      · rw [hlength, hlength']
  refine ⟨hsingle, fun k st a hk hbound hrun => ?_, fun k st hk hbound => ?_⟩
  · obtain ⟨st₀, hst₀, hentry, hcase⟩ := bound_perform hstep hk hbound
    rw [hentry, hid hst₀] at hrun
    rw [hentry]
    rcases hcase with hbound₀ | ⟨-, heq⟩
    · rcases steady_perform hinv hstep hfresh hst₀ with hsteady | ⟨j, sj, hj, heq⟩
      · exact h.own k st₀ a hst₀ hbound₀ (hsteady.runs a hrun)
      rw [heq] at hrun
      rcases mem_runs_bound hrun with hnew | hold
      · obtain ⟨hname, ha⟩ := Prod.mk.inj hnew
        have hjk := h.single k j st₀ sj hst₀ hj hname
        subst hjk
        rw [hst₀] at hj
        cases hj
        exact ha
      · exact h.own k st₀ a hst₀ hbound₀ hold
    · have hset : (w.idOf st₀.entry, st₀.entry) ∈ w.runs.set (w.idOf st₀.entry) st₀.entry := by
        refine OMap.mem_of_get ?_
        rw [OMap.get_set, if_pos rfl]
      rw [heq] at hrun
      have hmem : (w.idOf st₀.entry, a) ∈ w.runs.set (w.idOf st₀.entry) st₀.entry := mem_pruneRuns hrun
      have hnodup := OMap.nodup_keys_set hinv.nodup (w.idOf st₀.entry) st₀.entry
      have hget := OMap.get_of_mem hnodup hmem
      rw [OMap.get_of_mem hnodup hset] at hget
      cases hget
      rfl
  · obtain ⟨st₀, hst₀, hentry, hcase⟩ := bound_perform hstep hk hbound
    rw [hentry]
    rcases hcase with hbound₀ | ⟨-, heq⟩
    · have hgoing := h.going k st₀ hst₀ hbound₀
      rcases steady_perform hinv hstep hfresh hst₀ with hsteady | ⟨j, sj, -, heq⟩
      · exact hsteady.going hgoing
      · rw [heq]
        exact going_bound (.inl hgoing)
    · rw [heq]
      exact going_bound (.inr ⟨rfl, hinv.started _ (List.mem_of_getElem? hst₀)⟩)

end World

end Wrenyard.Exec
