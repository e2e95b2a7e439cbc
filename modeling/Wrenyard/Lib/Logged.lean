import Mathlib.Data.List.Basic

/-!
# Executions with a log of effects

A handler that changes a store by one effect after another is described by the store it has reached and the effects so
far.  `Evolves` says that every effect was allowed where it occurred.  What each allowed effect keeps holds at the end
(`Evolves.invariant`), and it also holds after a crash, which cuts the log at any point (`Evolves.take`).
-/

namespace Logged

open List

variable {σ ε : Type}

structure Exec (σ ε : Type) where
  store : σ
  log : List ε

variable (after : σ → ε → σ)

/-- One more effect. -/
def push (e : Exec σ ε) (x : ε) : Exec σ ε := ⟨after e.store x, e.log ++ [x]⟩

@[simp] theorem push_store (e : Exec σ ε) (x : ε) : (push after e x).store = after e.store x := rfl

@[simp] theorem push_log (e : Exec σ ε) (x : ε) : (push after e x).log = e.log ++ [x] := rfl

inductive Evolves (Allowed : Exec σ ε → ε → Prop) (e : Exec σ ε) : Exec σ ε → Prop where
  | refl : Evolves Allowed e e
  | push {e' : Exec σ ε} {x : ε} : Evolves Allowed e e' → Allowed e' x → Evolves Allowed e (push after e' x)

namespace Evolves

variable {after} {Allowed : Exec σ ε → ε → Prop} {e e' e'' : Exec σ ε} {s : σ}

theorem trans (h : Evolves after Allowed e e') (h' : Evolves after Allowed e' e'') : Evolves after Allowed e e'' := by
  induction h' with
  | refl => exact h
  | push _ hx ih => exact .push ih hx

theorem single {x : ε} (h : Allowed e x) : Evolves after Allowed e (Logged.push after e x) := .push .refl h

theorem mono {Allowed' : Exec σ ε → ε → Prop} (hallowed : ∀ e x, Allowed e x → Allowed' e x)
    (h : Evolves after Allowed e e') : Evolves after Allowed' e e' := by
  induction h with
  | refl => exact .refl
  | push _ hx ih => exact .push ih (hallowed _ _ hx)

/-- What every allowed effect keeps holds at the end. -/
theorem invariant (P : σ → Prop) (hstep : ∀ e x, Allowed e x → P e.store → P (after e.store x))
    (h : Evolves after Allowed e e') (he : P e.store) : P e'.store := by
  induction h with
  | refl => exact he
  | push _ hx ih => exact hstep _ _ hx ih

theorem related (P : σ → Prop) (R : σ → σ → Prop) (hrefl : ∀ s, R s s)
    (htrans : ∀ s s' s'', R s s' → R s' s'' → R s s'')
    (hstep : ∀ e x, Allowed e x → P e.store → P (after e.store x) ∧ R e.store (after e.store x))
    (h : Evolves after Allowed e e') (he : P e.store) : R e.store e'.store := by
  have hboth : P e'.store ∧ R e.store e'.store := by
    induction h with
    | refl => exact ⟨he, hrefl _⟩
    | push _ hx ih =>
      obtain ⟨hP, hR⟩ := hstep _ _ hx ih.1
      exact ⟨hP, htrans _ _ _ ih.2 hR⟩
  exact hboth.2

variable (h : Evolves after Allowed ⟨s, []⟩ e)
include h

theorem store_eq : e.store = e.log.foldl after s := by
  induction h with
  | refl => rfl
  | push _ _ ih => rw [push_store, push_log, foldl_append, ← ih]; rfl

/-- A crash leaves an execution whose effects were allowed. -/
theorem take (k : Nat) : Evolves after Allowed ⟨s, []⟩ ⟨(e.log.take k).foldl after s, e.log.take k⟩ := by
  induction h with
  | refl =>
    rw [take_nil]
    exact .refl
  | @push e' x h hx ih =>
    rw [push_log]
    by_cases hk : k ≤ e'.log.length
    · rw [take_append_of_le_length hk]
      exact ih
    have hall : (e'.log ++ [x]).take k = e'.log ++ [x] := by
      rw [take_of_length_le]
      rw [length_append, length_singleton]
      omega
    rw [hall, foldl_append, ← h.store_eq]
    exact h.push hx

/-- An execution goes on from each of its prefixes. -/
theorem resume {pre post : List ε} (hlog : e.log = pre ++ post) :
    Evolves after Allowed ⟨pre.foldl after s, pre⟩ e := by
  induction h generalizing post with
  | refl =>
    obtain ⟨rfl, -⟩ := append_eq_nil_iff.mp hlog.symm
    exact .refl
  | @push e' x h hx ih =>
    rcases eq_nil_or_concat post with rfl | ⟨post', y, rfl⟩
    · rw [append_nil] at hlog
      have hstore := (h.push hx).store_eq
      rw [← hlog, ← hstore]
      exact .refl
    · rw [push_log, concat_eq_append, ← append_assoc] at hlog
      exact (ih (append_inj' hlog rfl).1).push hx

theorem allowed_at {pre post : List ε} {x : ε} (hlog : e.log = pre ++ x :: post) :
    Allowed ⟨pre.foldl after s, pre⟩ x := by
  have hpre : e.log.take (pre.length + 1) = pre ++ [x] := by
    rw [hlog, append_cons]
    exact take_left' (by simp)
  have htake := h.take (pre.length + 1)
  rw [hpre] at htake
  generalize hend : (⟨(pre ++ [x]).foldl after s, pre ++ [x]⟩ : Exec σ ε) = last at htake
  cases htake with
  | refl => simp at hend
  | @push e' y h' hy =>
    simp only [Logged.push, Exec.mk.injEq] at hend
    obtain ⟨hl, hx⟩ := append_inj' hend.2 rfl
    have hstore := h'.store_eq
    obtain ⟨store, log⟩ := e'
    simp only at hl hstore
    subst hl
    rw [singleton_inj.mp hx, ← hstore]
    exact hy

omit h

end Evolves

end Logged
