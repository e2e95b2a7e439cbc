import Wrenyard.Exec.Changes

/-!
# Sessions and releases

What belongs to a start: the session that its client returned, the drain loop that reads it, and the release of its
operation preparation.  `Accounts` keeps the books: a session belongs to one start, a bound start has exactly one
drain loop, a session that is not bound has been cancelled, and the effects hold one release once the start or its
drain loop is past it.  Every step keeps them (`accounts_perform`).
-/

namespace Wrenyard.Exec

open Js List

namespace World

/-- How often the operation preparation of the `k`-th start was released. -/
def releases (effects : List Effect) (k : Nat) : Nat := effects.count (.release k .operation)

theorem releases_append (xs ys : List Effect) (k : Nat) : releases (xs ++ ys) k = releases xs k + releases ys k :=
  List.count_append ..

theorem releases_eq_zero {effects : List Effect} {k : Nat} (h : Effect.release k .operation ∉ effects) :
    releases effects k = 0 := List.count_eq_zero.2 h

def due (release ended : Bool) : Nat := (release && ended).toNat

/-- The books of a service. -/
structure Accounts (w : World) : Prop where
  owner : ∀ s, s < w.sessions → ∃ (k : Nat) (st : StartRun), w.starts[k]? = some st ∧ st.session = some s
  known : ∀ (k : Nat) (st : StartRun) (s : Nat), w.starts[k]? = some st → st.session = some s → s < w.sessions
  single : ∀ (k k' : Nat) (st st' : StartRun) (s : Nat), w.starts[k]? = some st → w.starts[k']? = some st' →
    st.session = some s →
    st'.session = some s → k = k'
  pending : ∀ (k : Nat) (st : StartRun), w.starts[k]? = some st → st.phase.pending = true → st.session = none
  bound : ∀ (k : Nat) (st : StartRun), w.starts[k]? = some st → st.phase = .bound →
    ∃ (c : Nat) (run : ConsumeRun), w.consumers[c]? = some run ∧ run.start = k
  drain : ∀ (c : Nat) (run : ConsumeRun), w.consumers[c]? = some run →
    ∃ st : StartRun, w.starts[run.start]? = some st ∧ st.phase = .bound ∧ st.session = some run.session ∧
      st.entry = run.entry
  alone : ∀ (c c' : Nat) (run run' : ConsumeRun), w.consumers[c]? = some run → w.consumers[c']? = some run' →
    run.start = run'.start → c = c'
  late : ∀ (k : Nat) (st : StartRun) (s : Nat), w.starts[k]? = some st → st.phase ≠ .bound → st.session = some s →
    Effect.cancelSession s ∈ w.effects
  unborn : ∀ k, w.starts.length ≤ k → releases w.effects k = 0
  caught : ∀ (k : Nat) (st : StartRun), w.starts[k]? = some st → st.phase ≠ .bound →
    releases w.effects k = due st.release st.phase.isOver
  drained : ∀ (c : Nat) (run : ConsumeRun) (st : StartRun), w.consumers[c]? = some run →
    w.starts[run.start]? = some st →
    releases w.effects run.start = due st.release run.phase.isOver
  client : ∀ k, Effect.release k .client ∉ w.effects

namespace Accounts

variable {w w' : World} {effects : List Effect}

theorem initial : Accounts World.initial where
  owner s h := absurd h (Nat.not_lt_zero s)
  known k st s h := by cases h
  single k k' st st' s h := by cases h
  pending k st h := by cases h
  bound k st h := by cases h
  drain c run h := by cases h
  alone c c' run run' h := by cases h
  late k st s h := by cases h
  unborn k _ := rfl
  caught k st h := by cases h
  drained c run st h := by cases h
  client k h := by cases h

theorem quiet (h : Accounts w) (hs : w'.starts = w.starts) (hc : w'.consumers = w.consumers)
    (hn : w'.sessions = w.sessions) (he : w'.effects = w.effects ++ effects)
    (hquiet : ∀ k, Effect.release k .operation ∉ effects) (hclient : ∀ k, Effect.release k .client ∉ effects) :
    Accounts w' where
  owner s hlt := by
    rw [hs]
    exact h.owner s (hn ▸ hlt)
  known k st s hk hst := by
    rw [hn]
    exact h.known k st s (hs ▸ hk) hst
  single k k' st st' s hk hk' := h.single k k' st st' s (hs ▸ hk) (hs ▸ hk')
  pending k st hk := h.pending k st (hs ▸ hk)
  bound k st hk hb := by
    rw [hc]
    exact h.bound k st (hs ▸ hk) hb
  drain c run hrun := by
    rw [hs]
    exact h.drain c run (hc ▸ hrun)
  alone c c' run run' hrun hrun' := h.alone c c' run run' (hc ▸ hrun) (hc ▸ hrun')
  late k st s hk hb hst := by
    rw [he]
    exact mem_append_left _ (h.late k st s (hs ▸ hk) hb hst)
  unborn k hk := by
    rw [he, releases_append, releases_eq_zero (hquiet k), h.unborn k (hs ▸ hk)]
  caught k st hk hb := by
    rw [he, releases_append, releases_eq_zero (hquiet k), h.caught k st (hs ▸ hk) hb, Nat.add_zero]
  drained c run st hrun hst := by
    rw [he, releases_append, releases_eq_zero (hquiet _), h.drained c run st (hc ▸ hrun) (hs ▸ hst), Nat.add_zero]
  client j := by
    rw [he, mem_append]
    rintro (hj | hj)
    · exact h.client j hj
    · exact hclient j hj

theorem getElem?_set_cases {α : Type} {xs : List α} {k j : Nat} {x y : α} (h : (xs.set k x)[j]? = some y) :
    (k = j ∧ y = x) ∨ (k ≠ j ∧ xs[j]? = some y) := by
  rw [List.getElem?_set] at h
  by_cases hkj : k = j
  · rw [if_pos hkj] at h
    split at h <;> cases h
    exact .inl ⟨hkj, rfl⟩
  · rw [if_neg hkj] at h
    exact .inr ⟨hkj, h⟩

theorem getElem?_set_of_some {α : Type} {xs : List α} {k : Nat} {x y : α} (h : xs[k]? = some y) :
    (xs.set k x)[k]? = some x := by
  rw [List.getElem?_set_self (List.getElem?_eq_some_iff.1 h).1]

variable {k : Nat} {st st' : StartRun}

variable (h : Accounts w)
include h

/-- A start that is not bound goes on, with the releases that it runs. -/
theorem setStart (hk : w.starts[k]? = some st) (hs : w'.starts = w.starts.set k st')
    (hc : w'.consumers = w.consumers) (hn : w'.sessions = w.sessions) (he : w'.effects = w.effects ++ effects)
    (hb : st.phase ≠ .bound) (hb' : st'.phase ≠ .bound) (hsession : st'.session = st.session)
    (hpending : st'.phase.pending = true → st.phase.pending = true)
    (hcount : due st.release st.phase.isOver + releases effects k = due st'.release st'.phase.isOver)
    (hquiet : ∀ j, j ≠ k → Effect.release j .operation ∉ effects)
    (hclient : ∀ j, Effect.release j .client ∉ effects) : Accounts w' where
  owner s hlt := by
    rw [hs]
    obtain ⟨j, sj, hj, hsj⟩ := h.owner s (hn ▸ hlt)
    by_cases hjk : j = k
    · subst hjk
      rw [hk] at hj
      cases hj
      exact ⟨j, st', getElem?_set_of_some hk, hsession.trans hsj⟩
    · refine ⟨j, sj, ?_, hsj⟩
      rw [List.getElem?_set_ne (Ne.symm hjk)]
      exact hj
  known j sj s hj hsj := by
    rw [hn]
    rw [hs] at hj
    rcases getElem?_set_cases hj with ⟨-, rfl⟩ | ⟨-, hj⟩
    · exact h.known k st s hk (hsession ▸ hsj)
    · exact h.known j sj s hj hsj
  single i j si sj s hi hj hsi hsj := by
    rw [hs] at hi hj
    rcases getElem?_set_cases hi with ⟨rfl, rfl⟩ | ⟨-, hold⟩
    · rcases getElem?_set_cases hj with ⟨rfl, -⟩ | ⟨-, hj⟩
      · rfl
      · exact h.single k j st sj s hk hj (hsession ▸ hsi) hsj
    · rcases getElem?_set_cases hj with ⟨rfl, rfl⟩ | ⟨-, hj⟩
      · exact h.single i k si st s hold hk hsi (hsession ▸ hsj)
      · exact h.single i j si sj s hold hj hsi hsj
  pending j sj hj hp := by
    rw [hs] at hj
    rcases getElem?_set_cases hj with ⟨rfl, rfl⟩ | ⟨-, hj⟩
    · rw [hsession]
      exact h.pending k st hk (hpending hp)
    · exact h.pending j sj hj hp
  bound j sj hj hphase := by
    rw [hs] at hj
    rw [hc]
    rcases getElem?_set_cases hj with ⟨rfl, rfl⟩ | ⟨-, hj⟩
    · exact absurd hphase hb'
    · exact h.bound j sj hj hphase
  drain c run hrun := by
    rw [hc] at hrun
    rw [hs]
    obtain ⟨sj, hj, hphase, hsession'⟩ := h.drain c run hrun
    have hne : run.start ≠ k := by
      rintro rfl
      rw [hk] at hj
      cases hj
      exact hb hphase
    refine ⟨sj, ?_, hphase, hsession'⟩
    rw [List.getElem?_set_ne (Ne.symm hne)]
    exact hj
  alone c c' run run' hrun hrun' := h.alone c c' run run' (hc ▸ hrun) (hc ▸ hrun')
  late j sj s hj hphase hsj := by
    rw [hs] at hj
    rw [he]
    refine mem_append_left _ ?_
    rcases getElem?_set_cases hj with ⟨rfl, rfl⟩ | ⟨-, hj⟩
    · exact h.late k st s hk hb (hsession ▸ hsj)
    · exact h.late j sj s hj hphase hsj
  unborn j hj := by
    rw [hs, length_set] at hj
    have hne : j ≠ k := by
      rintro rfl
      exact absurd (List.getElem?_eq_some_iff.1 hk).1 (Nat.not_lt.2 hj)
    rw [he, releases_append, releases_eq_zero (hquiet j hne), h.unborn j hj]
  caught j sj hj hphase := by
    rw [hs] at hj
    rw [he, releases_append]
    rcases getElem?_set_cases hj with ⟨rfl, rfl⟩ | ⟨hne, hj⟩
    · rw [h.caught k st hk hb, hcount]
    · rw [releases_eq_zero (hquiet j (Ne.symm hne)), h.caught j sj hj hphase, Nat.add_zero]
  drained c run sj hrun hj := by
    rw [hc] at hrun
    rw [hs] at hj
    obtain ⟨sj', hj', hphase, -⟩ := h.drain c run hrun
    have hne : run.start ≠ k := by
      intro heq
      rw [heq, hk] at hj'
      cases hj'
      exact hb hphase
    rw [List.getElem?_set_ne (Ne.symm hne)] at hj
    rw [he, releases_append, releases_eq_zero (hquiet _ hne), h.drained c run sj hrun hj, Nat.add_zero]
  client j := by
    rw [he, mem_append]
    rintro (hj | hj)
    · exact h.client j hj
    · exact hclient j hj

/-- A new start. -/
theorem push (hs : w'.starts = w.starts ++ [st]) (hc : w'.consumers = w.consumers)
    (hn : w'.sessions = w.sessions) (he : w'.effects = w.effects) (hsession : st.session = none)
    (hpending : st.phase.pending = true) : Accounts w' := by
  have hold : ∀ (j : Nat) (sj : StartRun), w'.starts[j]? = some sj → w.starts[j]? = some sj ∨
      (j = w.starts.length ∧ sj = st) := by
    intro j sj hj
    rw [hs] at hj
    rcases Nat.lt_or_ge j w.starts.length with hlt | hge
    · rw [List.getElem?_append_left hlt] at hj
      exact .inl hj
    rw [List.getElem?_append_right hge, List.getElem?_singleton] at hj
    split at hj <;> cases hj
    exact .inr ⟨by omega, rfl⟩
  have hkeep : ∀ (j : Nat) (sj : StartRun), w.starts[j]? = some sj → w'.starts[j]? = some sj := by
    intro j sj hj
    rw [hs, List.getElem?_append_left (List.getElem?_eq_some_iff.1 hj).1]
    exact hj
  have hphase := of_pending hpending
  refine ⟨fun s hlt => ?_, fun j sj s hj hsj => ?_, fun i j si sj s hi hj hsi hsj => ?_, fun j sj hj hp => ?_,
    fun j sj hj hb => ?_, fun c run hrun => ?_, fun c c' run run' hrun hrun' => ?_, fun j sj s hj hb hsj => ?_,
    fun j hj => ?_, fun j sj hj hb => ?_, fun c run sj hrun hj => ?_, fun j => ?_⟩
  · obtain ⟨j, sj, hj, hsj⟩ := h.owner s (hn ▸ hlt)
    exact ⟨j, sj, hkeep j sj hj, hsj⟩
  · rw [hn]
    rcases hold j sj hj with hj | ⟨-, rfl⟩
    · exact h.known j sj s hj hsj
    · rw [hsession] at hsj
      cases hsj
  · rcases hold i si hi with hi | ⟨-, rfl⟩
    · rcases hold j sj hj with hj | ⟨-, rfl⟩
      · exact h.single i j si sj s hi hj hsi hsj
      · rw [hsession] at hsj
        cases hsj
    · rw [hsession] at hsi
      cases hsi
  · rcases hold j sj hj with hj | ⟨-, rfl⟩
    · exact h.pending j sj hj hp
    · exact hsession
  · rw [hc]
    rcases hold j sj hj with hj | ⟨-, rfl⟩
    · exact h.bound j sj hj hb
    · exact absurd hb hphase.1
  · obtain ⟨sj, hj, hrest⟩ := h.drain c run (hc ▸ hrun)
    exact ⟨sj, hkeep _ _ hj, hrest⟩
  · exact h.alone c c' run run' (hc ▸ hrun) (hc ▸ hrun')
  · rw [he]
    rcases hold j sj hj with hj | ⟨-, rfl⟩
    · exact h.late j sj s hj hb hsj
    · rw [hsession] at hsj
      cases hsj
  · rw [hs, length_append, length_singleton] at hj
    rw [he]
    exact h.unborn j (by omega)
  · rw [he]
    rcases hold j sj hj with hj | ⟨rfl, rfl⟩
    · exact h.caught j sj hj hb
    rw [h.unborn _ (Nat.le_refl _), hphase.2]
    unfold due
    rw [Bool.and_false]
    rfl
  · rw [he]
    rw [hc] at hrun
    obtain ⟨sj', hj', -⟩ := h.drain c run hrun
    rw [hkeep _ _ hj'] at hj
    cases hj
    exact h.drained c run _ hrun hj'
  · rw [he]
    exact h.client j

variable (hk : w.starts[k]? = some st)
include hk

theorem opened {p : StartPhase} (hpending : st.phase.pending = true)
    (hp : p.pending = false) (hs : w'.starts = w.starts.set k { st with session := some w.sessions, phase := p })
    (hn : w'.sessions = w.sessions + 1) :
    (∀ s, s < w'.sessions → ∃ (j : Nat) (sj : StartRun), w'.starts[j]? = some sj ∧ sj.session = some s) ∧
    (∀ (j : Nat) (sj : StartRun) (s : Nat), w'.starts[j]? = some sj → sj.session = some s → s < w'.sessions) ∧
    (∀ (i j : Nat) (si sj : StartRun) (s : Nat), w'.starts[i]? = some si → w'.starts[j]? = some sj →
      si.session = some s → sj.session = some s → i = j) ∧
    (∀ (j : Nat) (sj : StartRun), w'.starts[j]? = some sj → sj.phase.pending = true → sj.session = none) ∧
    ∀ (c : Nat) (run : ConsumeRun), w.consumers[c]? = some run → run.start ≠ k := by
  have hnone := h.pending k st hk hpending
  refine ⟨fun s hlt => ?_, fun j sj s hj hsj => ?_, fun i j si sj s hi hj hsi hsj => ?_, fun j sj hj hpj => ?_, ?_⟩
  · rw [hs]
    rcases Nat.lt_succ_iff_lt_or_eq.1 (hn ▸ hlt) with hlt | rfl
    · obtain ⟨j, sj, hj, hsj⟩ := h.owner s hlt
      have hne : j ≠ k := by
        rintro rfl
        rw [hk] at hj
        cases hj
        rw [hnone] at hsj
        cases hsj
      refine ⟨j, sj, ?_, hsj⟩
      rw [List.getElem?_set_ne (Ne.symm hne)]
      exact hj
    · exact ⟨k, _, getElem?_set_of_some hk, rfl⟩
  · rw [hn]
    rw [hs] at hj
    rcases getElem?_set_cases hj with ⟨-, rfl⟩ | ⟨-, hj⟩
    · cases hsj
      exact Nat.lt_succ_self _
    · exact Nat.lt_succ_of_lt (h.known j sj s hj hsj)
  · rw [hs] at hi hj
    rcases getElem?_set_cases hi with ⟨rfl, rfl⟩ | ⟨-, hi⟩
    · rcases getElem?_set_cases hj with ⟨rfl, -⟩ | ⟨-, hj⟩
      · rfl
      · cases hsi
        exact absurd (h.known j sj _ hj hsj) (Nat.lt_irrefl _)
    rcases getElem?_set_cases hj with ⟨rfl, rfl⟩ | ⟨-, hj⟩
    · cases hsj
      exact absurd (h.known i si _ hi hsi) (Nat.lt_irrefl _)
    · exact h.single i j si sj s hi hj hsi hsj
  · rw [hs] at hj
    rcases getElem?_set_cases hj with ⟨-, rfl⟩ | ⟨-, hj⟩
    · cases hpj.symm.trans hp
    · exact h.pending j sj hj hpj
  · rintro c run hrun rfl
    obtain ⟨sj, hj, hb, -⟩ := h.drain c run hrun
    rw [hk] at hj
    cases hj
    exact (of_pending hpending).1 hb

theorem opened_late (hpending : st.phase.pending = true)
    (hs : w'.starts = w.starts.set k { st with session := some w.sessions, phase := .cancelling })
    (hc : w'.consumers = w.consumers) (hn : w'.sessions = w.sessions + 1)
    (he : w'.effects = w.effects ++ [.cancelSession w.sessions]) : Accounts w' := by
  have hphase := of_pending hpending
  obtain ⟨howner, hknown, hsingle, hfree, hdrain⟩ := h.opened hk hpending rfl hs hn
  have hcount : ∀ j, releases w'.effects j = releases w.effects j := by
    intro j
    rw [he, releases_append, releases_eq_zero (by simp : Effect.release j .operation ∉ [.cancelSession w.sessions]),
      Nat.add_zero]
  refine ⟨howner, hknown, hsingle, hfree, fun j sj hj hb => ?_, fun c run hrun => ?_,
    fun c c' run run' hrun hrun' => ?_, fun j sj s hj hb hsj => ?_,
    fun j hj => ?_, fun j sj hj hb => ?_, fun c run sj hrun hj => ?_, fun j => ?_⟩
  · rw [hs] at hj
    rw [hc]
    rcases getElem?_set_cases hj with ⟨-, rfl⟩ | ⟨-, hj⟩
    · cases hb
    · exact h.bound j sj hj hb
  · rw [hc] at hrun
    rw [hs, List.getElem?_set_ne (Ne.symm (hdrain c run hrun))]
    exact h.drain c run hrun
  · exact h.alone c c' run run' (hc ▸ hrun) (hc ▸ hrun')
  · rw [hs] at hj
    rw [he]
    rcases getElem?_set_cases hj with ⟨-, rfl⟩ | ⟨-, hj⟩
    · cases hsj
      exact mem_append_right _ (mem_singleton.2 rfl)
    · exact mem_append_left _ (h.late j sj s hj hb hsj)
  · rw [hs, length_set] at hj
    rw [hcount]
    exact h.unborn j hj
  · rw [hs] at hj
    rw [hcount]
    rcases getElem?_set_cases hj with ⟨rfl, rfl⟩ | ⟨-, hj⟩
    · rw [h.caught k st hk hphase.1, hphase.2]
      rfl
    · exact h.caught j sj hj hb
  · rw [hc] at hrun
    rw [hs, List.getElem?_set_ne (Ne.symm (hdrain c run hrun))] at hj
    rw [hcount]
    exact h.drained c run sj hrun hj
  · rw [he, mem_append]
    rintro (hj | hj)
    · exact h.client j hj
    · simp at hj

theorem opened_bound (hpending : st.phase.pending = true)
    (hs : w'.starts = w.starts.set k { st with session := some w.sessions, phase := .bound })
    (hc : w'.consumers = w.consumers ++ [⟨st.entry, w.sessions, k, .empty, .draining⟩])
    (hn : w'.sessions = w.sessions + 1) (he : w'.effects = w.effects) : Accounts w' := by
  have hphase := of_pending hpending
  obtain ⟨howner, hknown, hsingle, hfree, hdrain⟩ := h.opened hk hpending rfl hs hn
  have hold : ∀ (c : Nat) (run : ConsumeRun), w'.consumers[c]? = some run → w.consumers[c]? = some run ∨
      (c = w.consumers.length ∧ run = ⟨st.entry, w.sessions, k, .empty, .draining⟩) := by
    intro c run hrun
    rw [hc] at hrun
    rcases Nat.lt_or_ge c w.consumers.length with hlt | hge
    · rw [List.getElem?_append_left hlt] at hrun
      exact .inl hrun
    rw [List.getElem?_append_right hge, List.getElem?_singleton] at hrun
    split at hrun <;> cases hrun
    exact .inr ⟨by omega, rfl⟩
  have hself : w'.starts[k]? = some { st with session := some w.sessions, phase := .bound } := by
    rw [hs]
    exact getElem?_set_of_some hk
  refine ⟨howner, hknown, hsingle, hfree, fun j sj hj hb => ?_, fun c run hrun => ?_,
    fun c c' run run' hrun hrun' heq => ?_, fun j sj s hj hb hsj => ?_,
    fun j hj => ?_, fun j sj hj hb => ?_, fun c run sj hrun hj => ?_, fun j => ?_⟩
  · rw [hs] at hj
    rw [hc]
    rcases getElem?_set_cases hj with ⟨rfl, -⟩ | ⟨-, hj⟩
    · exact ⟨w.consumers.length, _, List.getElem?_concat_length, rfl⟩
    obtain ⟨c, run, hrun, hstart⟩ := h.bound j sj hj hb
    refine ⟨c, run, ?_, hstart⟩
    rw [List.getElem?_append_left (List.getElem?_eq_some_iff.1 hrun).1]
    exact hrun
  · rcases hold c run hrun with hrun | ⟨-, rfl⟩
    · rw [hs, List.getElem?_set_ne (Ne.symm (hdrain c run hrun))]
      exact h.drain c run hrun
    · exact ⟨_, hself, rfl, rfl, rfl⟩
  · rcases hold c run hrun with hrun | ⟨rfl, rfl⟩
    · rcases hold c' run' hrun' with hrun' | ⟨rfl, rfl⟩
      · exact h.alone c c' run run' hrun hrun' heq
      · exact absurd heq (hdrain c run hrun)
    · rcases hold c' run' hrun' with hrun' | ⟨rfl, -⟩
      · exact absurd heq.symm (hdrain c' run' hrun')
      · rfl
  · rw [hs] at hj
    rw [he]
    rcases getElem?_set_cases hj with ⟨-, rfl⟩ | ⟨-, hj⟩
    · exact absurd rfl hb
    · exact h.late j sj s hj hb hsj
  · rw [hs, length_set] at hj
    rw [he]
    exact h.unborn j hj
  · rw [hs] at hj
    rw [he]
    rcases getElem?_set_cases hj with ⟨-, rfl⟩ | ⟨-, hj⟩
    · exact absurd rfl hb
    · exact h.caught j sj hj hb
  · rw [he]
    rcases hold c run hrun with hrun | ⟨-, rfl⟩
    · rw [hs, List.getElem?_set_ne (Ne.symm (hdrain c run hrun))] at hj
      exact h.drained c run sj hrun hj
    rw [hself] at hj
    cases hj
    show releases w.effects k = due st.release ConsumePhase.draining.isOver
    rw [h.caught k st hk hphase.1, hphase.2]
    rfl
  · rw [he]
    exact h.client j

omit hk

/-- A drain loop goes on, with the releases that it runs. -/
theorem setConsumer {c : Nat} {run run' : ConsumeRun} (hrun : w.consumers[c]? = some run)
    (hs : w'.starts = w.starts) (hc : w'.consumers = w.consumers.set c run') (hn : w'.sessions = w.sessions)
    (he : w'.effects = w.effects ++ effects) (hstart : run'.start = run.start) (hsession : run'.session = run.session)
    (hentry : run'.entry = run.entry)
    (hcount : ∀ st, w.starts[run.start]? = some st →
      due st.release run.phase.isOver + releases effects run.start = due st.release run'.phase.isOver)
    (hquiet : ∀ j, j ≠ run.start → Effect.release j .operation ∉ effects)
    (hclient : ∀ j, Effect.release j .client ∉ effects) : Accounts w' where
  owner s hlt := by
    rw [hs]
    exact h.owner s (hn ▸ hlt)
  known k st s hk hst := by
    rw [hn]
    exact h.known k st s (hs ▸ hk) hst
  single k k' st st' s hk hk' := h.single k k' st st' s (hs ▸ hk) (hs ▸ hk')
  pending k st hk := h.pending k st (hs ▸ hk)
  bound k st hk hb := by
    rw [hc]
    obtain ⟨d, rd, hd, hdk⟩ := h.bound k st (hs ▸ hk) hb
    by_cases hcd : c = d
    · subst hcd
      rw [hrun] at hd
      cases hd
      exact ⟨c, run', getElem?_set_of_some hrun, hstart.trans hdk⟩
    · refine ⟨d, rd, ?_, hdk⟩
      rw [List.getElem?_set_ne hcd]
      exact hd
  drain d rd hd := by
    rw [hc] at hd
    rw [hs]
    rcases getElem?_set_cases hd with ⟨-, rfl⟩ | ⟨-, hd⟩
    · rw [hstart, hsession, hentry]
      exact h.drain c run hrun
    · exact h.drain d rd hd
  alone d d' rd rd' hd hd' heq := by
    rw [hc] at hd hd'
    rcases getElem?_set_cases hd with ⟨rfl, rfl⟩ | ⟨-, hold⟩
    · rcases getElem?_set_cases hd' with ⟨rfl, -⟩ | ⟨-, hd'⟩
      · rfl
      · exact h.alone c d' run rd' hrun hd' (hstart.symm.trans heq)
    · rcases getElem?_set_cases hd' with ⟨rfl, rfl⟩ | ⟨-, hd'⟩
      · exact h.alone d c rd run hold hrun (heq.trans hstart)
      · exact h.alone d d' rd rd' hold hd' heq
  late k st s hk hb hst := by
    rw [he]
    exact mem_append_left _ (h.late k st s (hs ▸ hk) hb hst)
  unborn k hk := by
    rw [hs] at hk
    obtain ⟨st, hst, -⟩ := h.drain c run hrun
    have hne : k ≠ run.start := by
      rintro rfl
      exact absurd (List.getElem?_eq_some_iff.1 hst).1 (Nat.not_lt.2 hk)
    rw [he, releases_append, releases_eq_zero (hquiet k hne), h.unborn k hk]
  caught k st hk hb := by
    rw [hs] at hk
    obtain ⟨st', hst', hb', -⟩ := h.drain c run hrun
    have hne : k ≠ run.start := by
      rintro rfl
      rw [hk] at hst'
      cases hst'
      exact hb hb'
    rw [he, releases_append, releases_eq_zero (hquiet k hne), h.caught k st hk hb, Nat.add_zero]
  drained d rd st hd hst := by
    rw [hc] at hd
    rw [hs] at hst
    rw [he, releases_append]
    rcases getElem?_set_cases hd with ⟨-, rfl⟩ | ⟨hne, hd⟩
    · rw [hstart] at hst ⊢
      rw [h.drained c run st hrun hst, hcount st hst]
    · have hother : rd.start ≠ run.start := fun heq => hne (h.alone d c rd run hd hrun heq).symm
      rw [releases_eq_zero (hquiet _ hother), h.drained d rd st hd hst, Nat.add_zero]
  client j := by
    rw [he, mem_append]
    rintro (hj | hj)
    · exact h.client j hj
    · exact hclient j hj

omit h

end Accounts

variable {cfg : ExecServiceOptions} {w w' : World}

theorem Accounts.of_quiet (h : Accounts w) (hq : Quiet w w') : Accounts w' := by
  obtain ⟨es, hes, hquiet⟩ := hq.effects
  exact h.quiet hq.starts hq.consumers hq.sessions hes (fun k => hquiet k _) fun k => hquiet k _

theorem mem_releaseOf {k j : Nat} {st : StartRun} {p : Preparation} (h : Effect.release j p ∈ releaseOf k st) :
    j = k ∧ p = .operation := by
  unfold releaseOf at h
  split at h
  · simpa using h
  · cases h

theorem releases_releaseOf (k : Nat) (st : StartRun) : releases (releaseOf k st) k = due st.release true := by
  unfold releaseOf
  cases st.release with
  | false => rfl
  | true => simp [releases, due]

/-- A step keeps the books. -/
theorem accounts_perform (h : Accounts w) {now : Nat} {op : Op} (hstep : w.perform cfg now op = some w') :
    Accounts w' := by
  have hnone : ∀ (k : Nat) (p : Preparation), Effect.release k p ∉ ([] : List Effect) := fun _ _ hmem => by cases hmem
  cases change_perform hstep with
  | quiet hq => exact h.of_quiet hq
  | begun prepared st hprepare hb hentry hsession hrelease hpending =>
    exact h.push hb.starts hb.consumers hb.sessions (hb.effects.trans (append_nil _)) hsession hpending
  | advanced k st st' hk hb hp hp' hsession =>
    refine h.setStart hk hb.starts hb.consumers hb.sessions hb.effects (of_pending hp).1 (of_pending hp').1 hsession
      (fun _ => hp) ?_ (fun j _ => hnone j _) fun j => hnone j _
    rw [(of_pending hp).2, (of_pending hp').2]
    unfold due
    rw [Bool.and_false, Bool.and_false]
    rfl
  | failed k st error hk hb hphase hover =>
    refine h.setStart hk hb.starts hb.consumers hb.sessions hb.effects hphase (by simp) rfl (fun hp => by cases hp) ?_
      (fun j hj hmem => hj (mem_releaseOf hmem).1) fun j hmem => by cases (mem_releaseOf hmem).2
    rw [hover, releases_releaseOf]
    unfold due
    rw [Bool.and_false]
    exact Nat.zero_add _
  | left k st phase es hk hb hover hover' hquiet =>
    have hphase : st.phase ≠ .bound := fun heq => by
      rw [heq] at hover
      cases hover
    have hphase' : phase ≠ .bound := fun heq => by
      rw [heq] at hover'
      cases hover'
    refine h.setStart hk hb.starts hb.consumers hb.sessions hb.effects hphase hphase' rfl ?_ ?_
      (fun j _ => hquiet j _) fun j => hquiet j _
    · intro hp
      rw [(of_pending hp).2] at hover'
      cases hover'
    · rw [hover, hover', releases_eq_zero (hquiet _ _), Nat.add_zero]
  | late k st hk hb hp => exact h.opened_late hk hp hb.starts hb.consumers hb.sessions hb.effects
  | bound k st hk hb hp =>
    exact h.opened_bound hk hp hb.starts hb.consumers hb.sessions (hb.effects.trans (append_nil _))
  | drains c run run' es hrun hb hstart hsession hentry hover hquiet =>
    refine h.setConsumer hrun hb.starts hb.consumers hb.sessions hb.effects hstart hsession hentry (fun st _ => ?_)
      (fun j _ => hquiet j _) fun j => hquiet j _
    rw [hover, releases_eq_zero (hquiet _ _), Nat.add_zero]
  | drained c run hrun hover hb =>
    obtain ⟨st, hst, -⟩ := h.drain c run hrun
    have heffects := hb.effects
    rw [hst] at heffects
    refine h.setConsumer hrun hb.starts hb.consumers hb.sessions heffects rfl rfl rfl (fun st' hst' => ?_)
      (fun j hj hmem => hj (mem_releaseOf hmem).1) fun j hmem => by cases (mem_releaseOf hmem).2
    rw [hst] at hst'
    cases hst'
    rw [hover]
    show _ + releases (releaseOf run.start st) run.start = _
    rw [releases_releaseOf]
    unfold due
    rw [Bool.and_false]
    exact Nat.zero_add _
  | close heq =>
    subst heq
    have hq := Quiet.requests w w.live
    refine h.quiet hq.starts hq.consumers hq.sessions (append_assoc _ _ _) ?_ ?_
    all_goals
      intro k hmem
      simp at hmem
  | closeCancelled i run _ heq | iterated k st _ _ heq =>
    subst heq
    exact @Accounts.quiet w _ [] h rfl rfl rfl (append_nil _).symm (fun k => hnone k _) fun k => hnone k _
  | closeWaited i run _ heq =>
    subst heq
    have hsettled := h.of_quiet (@Quiet.settles cfg w now run.live)
    exact @Accounts.quiet _ _ [] hsettled rfl rfl rfl (append_nil _).symm (fun k => hnone k _) fun k => hnone k _
  | stepped i hadvance =>
    obtain ⟨hs, hc, -, hn, he⟩ := advance_keeps hadvance
    exact @Accounts.quiet w _ [] h hs hc hn (he.trans (append_nil _).symm) (fun k => hnone k _) fun k => hnone k _

end World

end Wrenyard.Exec
