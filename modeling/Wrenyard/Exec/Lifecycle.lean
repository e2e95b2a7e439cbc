import Wrenyard.Exec.Accounts

/-!
# The life of an execution

What holds in every state that a service reaches, over all orders of its calls and of what it waits for: `Invariant`
collects the table of runs, the entries, the books of sessions and releases and the calls of `close`, and every step
keeps it (`invariant_perform`).  What a whole run shows of an execution is read off the two states at its ends
(`lifecycle`).
-/

namespace Wrenyard.Exec

open Js Transition List

namespace World

variable {cfg : ExecServiceOptions} {w w' : World}

variable {now : Nat} {op : Op}

theorem starts_perform (h : w.perform cfg now op = some w') {k : Nat} {st' : StartRun}
    (hk : w'.starts[k]? = some st') :
    (∃ st, w.starts[k]? = some st ∧ st'.entry = st.entry ∧ (st.phase = .bound → st'.phase = .bound) ∧
      (st'.clientRelease = st.clientRelease ∨ op = .clientPrepared k (.ok st'.clientRelease))) ∨
    (k = w.starts.length ∧ st'.clientRelease = false ∧ ∃ client id options prepared,
      op = .start client id options ∧ w.prepare cfg now (trim client) id = .ok prepared ∧ st'.entry = prepared.2 ∧
        w'.entries.length = prepared.1.entries.length ∧ w'.idOf prepared.2 = prepared.1.idOf prepared.2) := by
  have hkeep : w'.starts = w.starts →
      ∃ st, w.starts[k]? = some st ∧ st'.entry = st.entry ∧ (st.phase = .bound → st'.phase = .bound) ∧
        (st'.clientRelease = st.clientRelease ∨ op = .clientPrepared k (.ok st'.clientRelease)) := by
    intro heq
    rw [heq] at hk
    exact ⟨st', hk, rfl, fun h => h, .inl rfl⟩
  have hset : ∀ {j : Nat} {st st₁ : StartRun}, w.starts[j]? = some st → w'.starts = w.starts.set j st₁ →
      st₁.entry = st.entry → st.phase ≠ .bound →
      (st₁.clientRelease = st.clientRelease ∨ op = .clientPrepared j (.ok st₁.clientRelease)) →
      ∃ st, w.starts[k]? = some st ∧ st'.entry = st.entry ∧ (st.phase = .bound → st'.phase = .bound) ∧
        (st'.clientRelease = st.clientRelease ∨ op = .clientPrepared k (.ok st'.clientRelease)) := by
    intro j st st₁ hj heq hentry hphase hrelease
    rw [heq] at hk
    rcases Accounts.getElem?_set_cases hk with ⟨rfl, rfl⟩ | ⟨-, hold⟩
    · exact ⟨st, hj, hentry, fun hb => absurd hb hphase, hrelease⟩
    · exact ⟨st', hold, rfl, fun h => h, .inl rfl⟩
  cases change_perform h with
  | quiet hq => exact .inl (hkeep hq.starts)
  | begun prepared st hprepare hb hentry _ hrelease _ hlength hid =>
    rw [hb.starts] at hk
    rcases Nat.lt_or_ge k w.starts.length with hlt | hge
    · rw [List.getElem?_append_left hlt] at hk
      exact .inl ⟨st', hk, rfl, fun h => h, .inl rfl⟩
    rw [List.getElem?_append_right hge, List.getElem?_singleton] at hk
    split at hk <;> cases hk
    exact .inr ⟨by omega, hrelease, _, _, _, prepared, rfl, hprepare, hentry, hlength, hid⟩
  | advanced j st st₁ hj hb hp _ _ hentry hrelease =>
    exact .inl (hset hj hb.starts hentry (of_pending hp).1 hrelease)
  | failed j st error hj hb hphase => exact .inl (hset hj hb.starts rfl hphase (.inl rfl))
  | left j st phase es hj hb hover =>
    refine .inl (hset hj hb.starts rfl ?_ (.inl rfl))
    intro heq
    rw [heq] at hover
    cases hover
  | late j st hj hb hp | bound j st hj hb hp => exact .inl (hset hj hb.starts rfl (of_pending hp).1 (.inl rfl))
  | drains c run run' es _ hb | drained c run _ _ hb => exact .inl (hkeep hb.starts)
  | close heq =>
    subst heq
    exact .inl (hkeep (Quiet.requests w w.live).starts)
  | closeCancelled i run _ heq | iterated j st _ _ heq =>
    subst heq
    exact .inl (hkeep rfl)
  | closeWaited i run _ heq =>
    subst heq
    exact .inl (hkeep (Quiet.settles w now run.live).starts)
  | stepped i hadvance => exact .inl (hkeep (advance_keeps hadvance).1)

theorem started_perform (hregistered : Registered w) (hstarted : Started w)
    (h : w.perform cfg now op = some w') : Started w' := by
  have hmoves := moves_perform hregistered hstarted h
  intro st' hst'
  obtain ⟨k, hk⟩ := mem_iff_getElem?.1 hst'
  rcases starts_perform h hk with ⟨st, hst, hentry, -⟩ | ⟨-, -, client, id, options, prepared, -, hprepare,
    hentry, hlength, -⟩
  · rw [hentry]
    exact length_le_of_moves hmoves (hstarted st (mem_of_getElem? hst))
  · rw [hentry, hlength]
    exact prepare_lt hprepare hregistered

/-- The calls of `close` know every registered entry that is not terminal, and none is left once one has resolved. -/
structure Closing (w : World) : Prop where
  closed : ∀ run ∈ w.closes, w.closed = true
  live : ∀ run ∈ w.closes, ∀ a ∈ w.live, a ∈ run.live
  valid : ∀ run ∈ w.closes, ∀ a ∈ run.live, a < w.entries.length
  resolved : ∀ run ∈ w.closes, run.phase = .resolved → ∀ a ∈ run.live, w.isTerminal a = true

variable {a : Nat}

theorem mem_live_of_moves (h : Moves w w') (hclosed : w.closed = true) (ha : a ∈ w'.live) : a ∈ w.live := by
  obtain ⟨⟨id, hrun⟩, hterminal⟩ := mem_live.1 ha
  refine mem_live.2 ⟨⟨id, ?_⟩, ?_⟩
  · rcases h.runs _ hrun with hmem | ⟨hopen, -⟩
    · exact hmem
    · rw [hclosed] at hopen
      cases hopen
  · cases hold : w.isTerminal a with
    | false => rfl
    | true =>
      rw [isTerminal_of_moves h hold] at hterminal
      cases hterminal

theorem Closing.moves (h : Closing w) (hm : Moves w w')
    (hcloses : ∀ run ∈ w'.closes, ∃ old ∈ w.closes, old.live = run.live ∧
      (run.phase = .resolved → old.phase = .resolved)) :
    Closing w' where
  closed run hrun := by
    obtain ⟨old, hold, -⟩ := hcloses run hrun
    exact hm.closed (h.closed old hold)
  live run hrun a ha := by
    obtain ⟨old, hold, hlive, -⟩ := hcloses run hrun
    rw [← hlive]
    exact h.live old hold a (mem_live_of_moves hm (h.closed old hold) ha)
  valid run hrun a ha := by
    obtain ⟨old, hold, hlive, -⟩ := hcloses run hrun
    exact length_le_of_moves hm (h.valid old hold a (hlive ▸ ha))
  resolved run hrun hphase a ha := by
    obtain ⟨old, hold, hlive, hresolved⟩ := hcloses run hrun
    exact isTerminal_of_moves hm (h.resolved old hold (hresolved hphase) a (hlive ▸ ha))

theorem runs_requests (live : List Nat) (w : World) :
    (live.foldl (fun w a => w.modify a fun e => { e with cancelRequested := true }) w).runs = w.runs := by
  induction live generalizing w with
  | nil => rfl
  | cons a live ih => exact ih _

theorem isTerminal_settles {live : List Nat} (ha : a ∈ live) (hlt : a < w.entries.length) :
    (live.foldl (fun w a => w.settle cfg now a .empty) w).isTerminal a = true := by
  induction live generalizing w with
  | nil => cases ha
  | cons b live ih =>
    rcases mem_cons.1 ha with rfl | hmem
    · exact isTerminal_of_moves (moves_settles _ now live) (isTerminal_settle hlt now _)
    · exact ih hmem (length_le_of_moves (moves_settle w now b _) hlt)

theorem closing_perform (h : Closing w) (hregistered : Registered w) (hstarted : Started w)
    (hstep : w.perform cfg now op = some w') : Closing w' := by
  have hmoves := moves_perform hregistered hstarted hstep
  have hkeep : w'.closes = w.closes → Closing w' := fun heq =>
    h.moves hmoves fun run hrun => ⟨run, heq ▸ hrun, rfl, fun h => h⟩
  cases change_perform hstep with
  | quiet hq => exact hkeep hq.closes
  | begun prepared st _ hb | advanced k st st' _ hb | failed k st error _ hb | left k st phase es _ hb 
  | late k st _ hb | bound k st _ hb | drains c run run' es _ hb | drained c run _ _ hb =>
    exact hkeep hb.closes
  | close heq =>
    subst heq
    have hlive : ∀ a ∈ w.close.live, a ∈ w.live := by
      intro a ha
      obtain ⟨⟨id, hmem⟩, hterminal⟩ := mem_live.1 ha
      refine mem_live.2 ⟨⟨id, ?_⟩, ?_⟩
      · exact runs_requests w.live w ▸ hmem
      · cases hold : w.isTerminal a with
        | false => rfl
        | true =>
          rw [isTerminal_of_moves hmoves hold] at hterminal
          cases hterminal
    refine ⟨fun _ _ => rfl, fun run hrun a ha => ?_, fun run hrun a ha => ?_, fun run hrun hphase a ha => ?_⟩
    · rcases mem_append.1 hrun with hmem | hmem
      · exact h.live run hmem a (hlive a ha)
      · rw [mem_singleton.1 hmem]
        exact hlive a ha
    · rcases mem_append.1 hrun with hmem | hmem
      · exact length_le_of_moves hmoves (h.valid run hmem a ha)
      rw [mem_singleton.1 hmem] at ha
      obtain ⟨⟨id, hmem'⟩, -⟩ := mem_live.1 ha
      obtain ⟨e, he, -⟩ := hregistered _ hmem'
      exact length_le_of_moves hmoves (List.getElem?_eq_some_iff.1 he).1
    · rcases mem_append.1 hrun with hmem | hmem
      · exact isTerminal_of_moves hmoves (h.resolved run hmem hphase a ha)
      · rw [mem_singleton.1 hmem] at hphase
        cases hphase
  | closeCancelled i run hrun heq =>
    subst heq
    refine h.moves hmoves fun run' hrun' => ?_
    rcases mem_or_eq_of_mem_set hrun' with hmem | rfl
    · exact ⟨run', hmem, rfl, fun h => h⟩
    · exact ⟨run, mem_of_getElem? hrun, rfl, fun hr => by cases hr⟩
  | closeWaited i run hrun heq =>
    subst heq
    have hold : ∀ run' ∈ (w.settleLive cfg now i run).closes, run' ∈ w.closes ∨
        run' = { run with phase := .resolved } := by
      exact fun run' hrun' => mem_or_eq_of_mem_set hrun'
    have hmem := mem_of_getElem? hrun
    refine ⟨fun run' hrun' => hmoves.closed (h.closed run hmem), fun run' hrun' a ha => ?_, fun run' hrun' a ha => ?_,
      fun run' hrun' hphase a ha => ?_⟩
    · have ha' := mem_live_of_moves hmoves (h.closed run hmem) ha
      rcases hold run' hrun' with hold | rfl
      · exact h.live run' hold a ha'
      · exact h.live run hmem a ha'
    · rcases hold run' hrun' with hold | rfl
      · exact length_le_of_moves hmoves (h.valid run' hold a ha)
      · exact length_le_of_moves hmoves (h.valid run hmem a ha)
    · rcases hold run' hrun' with hold | rfl
      · exact isTerminal_of_moves hmoves (h.resolved run' hold hphase a ha)
      · exact isTerminal_settles ha (h.valid run hmem a ha)
  | iterated k st _ _ heq =>
    subst heq
    exact hkeep rfl
  | stepped i hadvance => exact hkeep (advance_keeps hadvance).2.2.1

/-- What every step keeps. -/
structure Invariant (w : World) : Prop where
  registered : Registered w
  nodup : (OMap.keys w.runs).Nodup
  sound : ∀ (a : Nat) (e : ExecEntry), w.entries[a]? = some e → e.Sound
  started : Started w
  accounts : Accounts w
  closing : Closing w

theorem invariant_initial : Invariant initial where
  registered run h := by cases h
  nodup := List.nodup_nil
  sound a e h := by cases h
  started st h := by cases h
  accounts := Accounts.initial
  closing := ⟨(fun run h => by cases h), (fun run h => by cases h), (fun run h => by cases h),
    fun run h => by cases h⟩

/-- A step keeps the invariant and moves the entries. -/
theorem invariant_perform (h : Invariant w) (hstep : w.perform cfg now op = some w') :
    Invariant w' ∧ Moves w w' := by
  have hmoves := moves_perform h.registered h.started hstep
  refine ⟨⟨h.registered.moves hmoves, hmoves.nodup h.nodup, hmoves.entries.sound h.sound,
    started_perform h.registered h.started hstep, accounts_perform h.accounts hstep,
    closing_perform h.closing h.registered h.started hstep⟩, hmoves⟩

/-- A run keeps the invariant, and moves the entries as its steps do. -/
theorem invariant_run {tr : List (Op × Nat)} (hrun : Run (Step cfg) w tr w') (h : Invariant w) :
    Invariant w' ∧ Moves w w' := by
  induction hrun with
  | nil w => exact ⟨h, Moves.refl w⟩
  | cons hstep _ ih =>
    obtain ⟨hinvariant, hmoves⟩ := invariant_perform h hstep
    obtain ⟨hinvariant', hmoves'⟩ := ih hinvariant
    exact ⟨hinvariant', hmoves.trans hmoves'⟩

theorem completed_spec (h : a ∈ w.completed) : (∃ id, (id, a) ∈ w.runs) ∧ w.isTerminal a = true := by
  unfold completed at h
  rw [Comparator.mem_sort, mem_filter, mem_map] at h
  obtain ⟨⟨run, hrun, rfl⟩, hterminal⟩ := h
  exact ⟨⟨run.1, hrun⟩, hterminal⟩

theorem mem_live_pruneCompleted (hregistered : Registered w) (hnodup : (w.runs.keys).Nodup)
    (ha : a ∈ w.live) : a ∈ (w.pruneCompleted cfg).live := by
  obtain ⟨⟨id, hrun⟩, hterminal⟩ := mem_live.1 ha
  refine mem_live.2 ⟨⟨id, mem_pruneRuns_of_ne hrun fun b hb => ?_⟩, hterminal⟩
  obtain ⟨⟨id', hrun'⟩, hterminal'⟩ := completed_spec hb
  obtain ⟨e, he, hid⟩ := hregistered _ hrun'
  intro heq
  rw [idOf_eq he, hid] at heq
  have hab : some a = some b := by
    rw [← OMap.get_of_mem hnodup hrun, ← OMap.get_of_mem hnodup hrun']
    exact congrArg w.runs.get heq.symm
  cases hab
  rw [hterminal] at hterminal'
  cases hterminal'

/-- A drain loop begins on a live entry of a service that is open. -/
theorem live_of_bound (h : Invariant w) (hstep : w.perform cfg now op = some w') {c : Nat}
    {run : ConsumeRun} (hnew : w.consumers[c]? = none) (hrun : w'.consumers[c]? = some run) :
    w.closed = false ∧ run.entry ∈ w'.live := by
  have hsame : w'.consumers = w.consumers → False := by
    intro heq
    rw [heq, hnew] at hrun
    cases hrun
  have hset : ∀ {d : Nat} {run' : ConsumeRun}, w'.consumers = w.consumers.set d run' → False := by
    intro d run' heq
    have hlength := (List.getElem?_eq_some_iff.1 hrun).1
    rw [heq, length_set] at hlength
    exact absurd hlength (Nat.not_lt.2 (List.getElem?_eq_none_iff.1 hnew))
  cases change_perform hstep with
  | quiet hq => exact (hsame hq.consumers).elim
  | begun prepared st _ hb | advanced k st st' _ hb | failed k st error _ hb | left k st phase es _ hb
  | late k st _ hb =>
    exact (hsame hb.consumers).elim
  | bound k st hk hb hp hopen hterminal heq =>
    have hlt : st.entry < w.entries.length := h.started st (mem_of_getElem? hk)
    have hentry : run.entry = st.entry := by
      rw [hb.consumers] at hrun
      rw [List.getElem?_append_right (List.getElem?_eq_none_iff.1 hnew), List.getElem?_singleton] at hrun
      split at hrun <;> cases hrun
      rfl
    refine ⟨hopen, ?_⟩
    rw [hentry, heq]
    let returned : World := { w with sessions := w.sessions + 1 }
    have hmoves : Moves returned (returned.bind k st w.sessions) := moves_bind hopen hterminal hlt
    have hregistered : Registered (returned.bind k st w.sessions) :=
      Registered.moves (w := returned) h.registered hmoves
    refine mem_live_pruneCompleted hregistered (hmoves.nodup h.nodup) (mem_live.2 ⟨⟨w.idOf st.entry, ?_⟩, ?_⟩)
    · refine OMap.mem_of_get ?_
      show (w.runs.set (w.idOf st.entry) st.entry).get (w.idOf st.entry) = _
      rw [OMap.get_set, if_pos rfl]
    · have hold := (isTerminal_eq_false (List.getElem?_eq_getElem hlt)).1 hterminal
      obtain ⟨e', he', hevolves⟩ := hmoves.entries.grows _ _ (List.getElem?_eq_getElem hlt)
      refine (isTerminal_eq_false he').2 ?_
      change (w.entries.modify st.entry _)[st.entry]? = some e' at he'
      rw [List.getElem?_modify_eq, List.getElem?_eq_getElem hlt] at he'
      cases he'
      exact hold
  | drains d run₁ run₂ es _ hb | drained d run₁ _ _ hb => exact (hset hb.consumers).elim
  | close heq =>
    subst heq
    exact (hsame (Quiet.requests w w.live).consumers).elim
  | closeCancelled i run₁ _ heq | iterated k st _ _ heq =>
    subst heq
    exact (hsame rfl).elim
  | closeWaited i run₁ _ heq =>
    subst heq
    exact (hsame (Quiet.settles w now run₁.live).consumers).elim
  | stepped i hadvance => exact (hsame (advance_keeps hadvance).2.1).elim

/-! ### What a run shows -/

def obtained (st : StartRun) : Preparation → Bool
  | .operation => st.release
  | .client => st.clientRelease

def Ended (w : World) (k : Nat) (st : StartRun) : Prop :=
  st.phase = .rejected ∨ ∃ (c : Nat) (run : ConsumeRun), w.consumers[c]? = some run ∧ run.start = k ∧
    run.phase = .done

def ReleasedOnce (w : World) : Prop :=
  ∀ (k : Nat) (st : StartRun) (p : Preparation), w.starts[k]? = some st →
    w.effects.count (.release k p) ≤ 1 ∧
    (w.effects.count (.release k p) = 1 → obtained st p = true) ∧
    (Ended w k st → obtained st p = true → w.effects.count (.release k p) = 1)

theorem Accounts.releasedOnce (h : Accounts w)
    (hclient : ∀ (k : Nat) (st : StartRun), w.starts[k]? = some st → st.clientRelease = false) : ReleasedOnce w := by
  intro k st p hk
  cases p with
  | client =>
    rw [count_eq_zero.2 (h.client k)]
    refine ⟨Nat.zero_le _, (fun hone => by cases hone), fun _ hobtained => ?_⟩
    have := hclient k st hk
    change st.clientRelease = true at hobtained
    rw [this] at hobtained
    cases hobtained
  | operation =>
    have hdue : ∃ ended, releases w.effects k = due st.release ended ∧ (Ended w k st → ended = true) := by
      by_cases hbound : st.phase = .bound
      · obtain ⟨c, run, hrun, rfl⟩ := h.bound k st hk hbound
        refine ⟨run.phase.isOver, h.drained c run st hrun hk, ?_⟩
        rintro (hrejected | ⟨c', run', hrun', hstart', hdone⟩)
        · rw [hbound] at hrejected
          cases hrejected
        · have hc := h.alone c' c run' run hrun' hrun hstart'
          subst hc
          rw [hrun] at hrun'
          cases hrun'
          rw [hdone]
          rfl
      · refine ⟨st.phase.isOver, h.caught k st hk hbound, ?_⟩
        rintro (hrejected | ⟨c, run, hrun, hstart, -⟩)
        · rw [hrejected]
          rfl
        · obtain ⟨st', hst', hbound', -⟩ := h.drain c run hrun
          rw [hstart, hk] at hst'
          cases hst'
          exact absurd hbound' hbound
    obtain ⟨ended, hcount, hended⟩ := hdue
    change releases w.effects k ≤ 1 ∧ (releases w.effects k = 1 → st.release = true) ∧
      (Ended w k st → st.release = true → releases w.effects k = 1)
    rw [hcount]
    refine ⟨Bool.toNat_le _, fun hone => ?_, fun hend hrelease => ?_⟩
    · cases hrelease : st.release with
      | true => rfl
      | false =>
        rw [hrelease] at hone
        cases hone
    · rw [hended hend, hrelease]
      rfl

def SessionsOwned (w : World) : Prop :=
  ∀ s < w.sessions, ∃ (k : Nat) (st : StartRun), w.starts[k]? = some st ∧ st.session = some s ∧
    ((st.phase = .bound ∧ ∃! c : Nat, ∃ run, w.consumers[c]? = some run ∧ run.session = s) ∨
      (st.phase ≠ .bound ∧ .cancelSession s ∈ w.effects ∧
        ∀ (c : Nat) (run : ConsumeRun), w.consumers[c]? = some run → run.session ≠ s))

theorem Accounts.sessionsOwned (h : Accounts w) : SessionsOwned w := by
  intro s hs
  obtain ⟨k, st, hk, hsession⟩ := h.owner s hs
  have hstart : ∀ (c : Nat) (run : ConsumeRun), w.consumers[c]? = some run → run.session = s →
      run.start = k ∧ st.phase = .bound := by
    intro c run hrun hs'
    obtain ⟨st', hst', hbound, hsession', -⟩ := h.drain c run hrun
    have heq := h.single run.start k st' st s hst' hk (hsession'.trans (congrArg some hs')) hsession
    rw [heq, hk] at hst'
    cases hst'
    exact ⟨heq, hbound⟩
  refine ⟨k, st, hk, hsession, ?_⟩
  by_cases hbound : st.phase = .bound
  · left
    obtain ⟨c, run, hrun, hk'⟩ := h.bound k st hk hbound
    refine ⟨hbound, c, ⟨run, hrun, ?_⟩, ?_⟩
    · obtain ⟨st', hst', -, hsession', -⟩ := h.drain c run hrun
      rw [hk', hk] at hst'
      cases hst'
      rw [hsession] at hsession'
      cases hsession'
      rfl
    · rintro c' ⟨run', hrun', hs'⟩
      exact h.alone c' c run' run hrun' hrun ((hstart c' run' hrun' hs').1.trans hk'.symm)
  · right
    exact ⟨hbound, h.late k st s hk hbound hsession, fun c run hrun hs' => hbound (hstart c run hrun hs').2⟩

/-- A run in which no client's own preparation brings a release gives no start one. -/
theorem clientRelease_run {tr : List (Op × Nat)} (hrun : Run (Step cfg) w tr w')
    (hw : ∀ (k : Nat) (st : StartRun), w.starts[k]? = some st → st.clientRelease = false)
    (htr : ∀ a ∈ tr, ∀ k, a.1 ≠ .clientPrepared k (.ok true)) :
    ∀ (k : Nat) (st : StartRun), w'.starts[k]? = some st → st.clientRelease = false := by
  induction hrun with
  | nil w => exact hw
  | @cons w w₁ w₂ a tr hstep _ ih =>
    refine ih (fun k st hk => ?_) fun b hb => htr b (mem_cons_of_mem _ hb)
    rcases starts_perform hstep hk with ⟨st', hst', -, -, heq | hop⟩ | ⟨-, hfalse, -⟩
    · rw [heq]
      exact hw k st' hst'
    · cases hrelease : st.clientRelease with
      | false => rfl
      | true =>
        rw [hrelease] at hop
        exact absurd hop (htr a (mem_cons_self ..) k)
    · exact hfalse

/-- The life of the executions of one service, over a run and its continuation.  A terminal execution stays as it is;
a cancellation that found it live makes it cancelled; sessions are owned and releases run once; a drain loop begins on
a live entry; and after a resolved `close` nothing is live and no drain loop begins. -/
theorem lifecycle (cfg : ExecServiceOptions) {before after : List (Op × Nat)} {w₁ w₂ : World}
    (h₁ : Run (Step cfg) initial before w₁) (h₂ : Run (Step cfg) w₁ after w₂)
    (hclient : ∀ a ∈ before ++ after, ∀ k, a.1 ≠ .clientPrepared k (.ok true)) :
    (∀ (a : Nat) (e : ExecEntry), w₁.entries[a]? = some e → e.terminal = true →
      ∃ e', w₂.entries[a]? = some e' ∧ e'.terminal = true ∧ e'.status = e.status) ∧
    (∀ (a : Nat) (e : ExecEntry), w₂.entries[a]? = some e →
      (e.terminal = true ↔ e.status = .completed ∨ e.status = .failed ∨ e.status = .cancelled)) ∧
    (∀ (id : ExecId) (now : Nat) (rest : List (Op × Nat)) (a : Nat) (e : ExecEntry),
      after = (.cancel id, now) :: rest →
      w₁.runs.get id = some a → w₁.entries[a]? = some e → e.terminal = false →
      ∃ e', w₂.entries[a]? = some e' ∧ (e'.terminal = true → e'.status = .cancelled)) ∧
    SessionsOwned w₂ ∧
    (∀ (op : Op) (now : Nat) (w : World), w₂.perform cfg now op = some w → ∀ (c : Nat) (run : ConsumeRun),
      w₂.consumers[c]? = none → w.consumers[c]? = some run → run.entry ∈ w.live) ∧
    ReleasedOnce w₂ ∧
    (∀ run ∈ w₁.closes, run.phase = .resolved →
      w₁.live = [] ∧ w₂.live = [] ∧ w₂.consumers.length = w₁.consumers.length) := by
  obtain ⟨hinv₁, -⟩ := invariant_run h₁ invariant_initial
  obtain ⟨hinv₂, hmoves⟩ := invariant_run h₂ hinv₁
  refine ⟨fun a e ha hterminal => ?_, fun a e ha => ?_, fun id now rest a e hafter hget ha hterminal => ?_,
    hinv₂.accounts.sessionsOwned, fun op now w hstep c run hnew hrun => (live_of_bound hinv₂ hstep hnew hrun).2,
    hinv₂.accounts.releasedOnce ?_, fun run hrun hphase => ?_⟩
  · obtain ⟨e', he', hevolves⟩ := hmoves.entries.grows a e ha
    obtain ⟨ht, hstatus, -⟩ := hevolves.terminal hterminal
    exact ⟨e', he', ht, hstatus⟩
  · have hsound := hinv₂.sound a e ha
    cases hterminal : e.terminal with
    | true =>
      refine ⟨fun _ => ?_, fun _ => rfl⟩
      rcases hsound.terminal hterminal with ⟨-, hstatus⟩ | ⟨-, hstatus | hstatus⟩
      · exact .inr (.inr hstatus)
      · exact .inl hstatus
      · exact .inr (.inl hstatus)
    | false =>
      refine ⟨(fun h => by cases h), fun h => ?_⟩
      rcases hsound.pending hterminal with hstatus | hstatus <;> rw [hstatus] at h <;> simp at h
  · subst hafter
    cases h₂ with
    | @cons _ w₃ _ _ _ hstep hrest =>
      obtain ⟨hinv₃, hmoves₃⟩ := invariant_perform hinv₁ hstep
      obtain ⟨-, hmoves'⟩ := invariant_run hrest hinv₃
      have hrequested : ∃ e₃, w₃.entries[a]? = some e₃ ∧ e₃.cancelRequested = true := by
        change some (w₁.answered (w₁.cancel cfg now id)) = some w₃ at hstep
        cases hstep
        unfold cancel
        rw [hget]
        dsimp only
        rw [ha]
        dsimp only
        rw [hterminal, if_neg Bool.false_ne_true]
        have hmodify : (w₁.modify a fun e => { e with cancelRequested := true }).entries[a]? =
            some { e with cancelRequested := true } := by
          show (w₁.entries.modify a _)[a]? = _
          rw [List.getElem?_modify_eq, ha]
          rfl
        cases hsession : e.session with
        | some session => exact ⟨_, hmodify, rfl⟩
        | none =>
          have hsettle := @moves_settle cfg ((w₁.modify a fun e => { e with cancelRequested := true }).emit
            (if e.onCancel then [.onCancel a] else [])) now a .empty
          obtain ⟨e₃, he₃, hevolves⟩ := hsettle.entries.grows a _ hmodify
          exact ⟨e₃, he₃, hevolves.requested rfl⟩
      obtain ⟨e₃, he₃, hrequested⟩ := hrequested
      obtain ⟨e', he', hevolves⟩ := hmoves'.entries.grows a e₃ he₃
      refine ⟨e', he', fun ht => ?_⟩
      rcases (hinv₂.sound a e' he').terminal ht with ⟨-, hstatus⟩ | ⟨hnot, -⟩
      · exact hstatus
      · rw [hevolves.requested hrequested] at hnot
        cases hnot
  · refine clientRelease_run (h₁.append h₂) (fun k st hk => ?_) hclient
    cases hk
  · have hlive : w₁.live = [] := by
      rw [List.eq_nil_iff_forall_not_mem]
      intro a ha
      have hterminal := hinv₁.closing.resolved run hrun hphase a (hinv₁.closing.live run hrun a ha)
      rw [(mem_live.1 ha).2] at hterminal
      cases hterminal
    have hclosed := hinv₁.closing.closed run hrun
    refine ⟨hlive, ?_, hmoves.consumers hclosed⟩
    rw [List.eq_nil_iff_forall_not_mem]
    intro a ha
    have ha₁ := mem_live_of_moves hmoves hclosed ha
    rw [hlive] at ha₁
    cases ha₁

/-- One client that can run, with a `prepare` of its own and no `finalize`. -/
def sampleOptions : ExecServiceOptions := { clients := fun _ => some ⟨true, true, false⟩ }

def sampleStart : List (Op × Nat) :=
  [(.registerQueued (js "codex") (some (js "exec-1")) true, 0),
    (.start (js "codex") (some (js "exec-1")) ⟨true, true, true, false, true⟩, 0), (.prepared 0 (.ok true), 1),
    (.clientPrepared 0 (.ok false), 2), (.started 0 (.ok ()), 3)]

def sampleEnd : List (Op × Nat) :=
  [(.cancel (js "exec-1"), 4), (.event 0 [(js "type", .str (js "finished")), (js "status", .str (js "done"))], 5),
    (.streamEnd 0, 6), (.consumerReleased 0, 7), (.close, 8), (.closeCancelled 0, 9), (.closeWaited 0, 10)]

def bringsNoRelease (a : Op × Nat) : Bool :=
  match a.1 with
  | .clientPrepared _ (.ok release) => !release
  | _ => true

theorem ne_of_bringsNoRelease {a : Op × Nat} (h : bringsNoRelease a = true) (k : Nat) :
    a.1 ≠ .clientPrepared k (.ok true) := by
  intro heq
  unfold bringsNoRelease at h
  rw [heq] at h
  cases h

theorem lifecycle_sample : ∃ w₁ w₂, Run (Step sampleOptions) initial sampleStart w₁ ∧
    Run (Step sampleOptions) w₁ sampleEnd w₂ ∧ SessionsOwned w₂ ∧ ReleasedOnce w₂ ∧ w₂.sessions = 1 ∧
    w₂.entries.map (·.status) = [.cancelled] ∧ w₂.effects.count (.release 0 .operation) = 1 := by
  have hclient : ∀ a ∈ sampleStart ++ sampleEnd, ∀ k, a.1 ≠ .clientPrepared k (.ok true) := fun a ha =>
    ne_of_bringsNoRelease (List.all_eq_true.1 (rfl : (sampleStart ++ sampleEnd).all bringsNoRelease = true) a ha)
  refine ⟨_, _, run_of_steps rfl, run_of_steps rfl, ?_, ?_, rfl, rfl, rfl⟩
  · exact (lifecycle sampleOptions (run_of_steps rfl) (run_of_steps rfl) hclient).2.2.2.1
  · exact (lifecycle sampleOptions (run_of_steps rfl) (run_of_steps rfl) hclient).2.2.2.2.2.1

/-- A client's own preparation brings a release, the execution completes, and that release never runs. -/
theorem client_release_leaks : ∃ w, Run (Step sampleOptions) initial
    [(.start (js "codex") none ⟨false, false, false, false, false⟩, 0), (.clientPrepared 0 (.ok true), 1),
      (.started 0 (.ok ()), 2),
      (.event 0 [(js "type", .str (js "finished")), (js "status", .str (js "done"))], 3), (.streamEnd 0, 4),
      (.consumerReleased 0, 5)] w ∧
    w.entries.map (·.status) = [.completed] ∧ w.effects.count (.release 0 .client) = 0 ∧ ¬ ReleasedOnce w := by
  refine ⟨_, run_of_steps rfl, rfl, rfl, fun h => ?_⟩
  have hone := (h 0 _ .client rfl).2.2 (.inr ⟨0, _, rfl, rfl, rfl⟩) rfl
  cases hone

end World

end Wrenyard.Exec
