import Mathlib.Data.List.Basic

/-!
# Runs of a labelled transition system

A run of a step relation is a list of labels, each taking the state one step further.  A property that every step
keeps holds at the end of every run (`Run.invariant`), and a preorder that every step respects relates the two ends
(`Run.related`).  A machine that is a function is run on a list of actions by `exec`.
-/

namespace Transition

variable {σ ε : Type}

inductive Run (Step : σ → ε → σ → Prop) : σ → List ε → σ → Prop where
  | nil (s : σ) : Run Step s [] s
  | cons {s s' s'' : σ} {e : ε} {tr : List ε} : Step s e s' → Run Step s' tr s'' → Run Step s (e :: tr) s''

variable {Step Step' : σ → ε → σ → Prop} {s s' s'' : σ} {e : ε} {tr tr' : List ε}

namespace Run

theorem append (h : Run Step s tr s') (h' : Run Step s' tr' s'') : Run Step s (tr ++ tr') s'' := by
  induction h with
  | nil s => exact h'
  | cons hs _ ih => exact Run.cons hs (ih h')

theorem single (h : Step s e s') : Run Step s [e] s' := Run.cons h (Run.nil s')

/-- A run over a concatenation passes through a state between the two parts. -/
theorem split (h : Run Step s (tr ++ tr') s'') : ∃ s', Run Step s tr s' ∧ Run Step s' tr' s'' := by
  induction tr generalizing s with
  | nil => exact ⟨s, Run.nil s, h⟩
  | cons e tr ih =>
    cases h with
    | cons hs h =>
      obtain ⟨s', h1, h2⟩ := ih h
      exact ⟨s', Run.cons hs h1, h2⟩

/-- A run over a list with a given label passes through the two states of that step. -/
theorem split_at (h : Run Step s (tr ++ e :: tr') s'') :
    ∃ before after, Run Step s tr before ∧ Step before e after ∧ Run Step after tr' s'' := by
  obtain ⟨before, h1, h2⟩ := h.split
  cases h2 with
  | cons hs h2 => exact ⟨before, _, h1, hs, h2⟩

theorem mono (hstep : ∀ s e s', Step s e s' → Step' s e s') (h : Run Step s tr s') : Run Step' s tr s' := by
  induction h with
  | nil s => exact Run.nil s
  | cons hs _ ih => exact Run.cons (hstep _ _ _ hs) ih

/-- The labels of a run restrict its steps. -/
theorem restrict (P : ε → Prop) (h : Run Step s tr s') (htr : ∀ e ∈ tr, P e) :
    Run (fun s e s' => Step s e s' ∧ P e) s tr s' := by
  induction h with
  | nil s => exact Run.nil s
  | cons hs _ ih =>
    exact Run.cons ⟨hs, htr _ (List.mem_cons_self ..)⟩ (ih fun e he => htr e (List.mem_cons_of_mem _ he))

variable (Inv : σ → Prop)

/-- What every step keeps holds at the end of every run. -/
theorem invariant (hstep : ∀ s e s', Inv s → Step s e s' → Inv s') (h : Run Step s tr s')
    (hs : Inv s) : Inv s' := by
  induction h with
  | nil s => exact hs
  | cons hs' _ ih => exact ih (hstep _ _ _ hs hs')

/-- What every step keeps of the labels so far and the state holds at the end of every run. -/
theorem history (P : List ε → σ → Prop) (hstep : ∀ tr s e s', P tr s → Step s e s' → P (tr ++ [e]) s')
    (h : Run Step s tr s') (hs : P [] s) : P tr s' := by
  have hall : ∀ before, P before s → P (before ++ tr) s' := by
    clear hs
    induction h with
    | nil s =>
      intro before hb
      rwa [List.append_nil]
    | cons hs' _ ih =>
      intro before hb
      have := ih (before ++ [_]) (hstep before _ _ _ hb hs')
      rwa [List.append_assoc] at this
  exact hall [] hs

theorem always (P : ε → Prop) (hstep : ∀ s e s', Inv s → Step s e s' → Inv s' ∧ P e)
    (h : Run Step s tr s') (hs : Inv s) : ∀ e ∈ tr, P e := by
  induction h with
  | nil s =>
    intro e he
    cases he
  | cons hs' _ ih =>
    obtain ⟨hinv, hlabel⟩ := hstep _ _ _ hs hs'
    intro e he
    rcases List.mem_cons.mp he with rfl | he
    · exact hlabel
    · exact ih hinv e he

theorem related (R : σ → σ → Prop) (P : ε → Prop) (hrefl : ∀ s, R s s)
    (htrans : ∀ s s' s'', R s s' → R s' s'' → R s s'') (hstep : ∀ s e s', Inv s → P e → Step s e s' → Inv s' ∧ R s s')
    (h : Run Step s tr s') (hs : Inv s) (htr : ∀ e ∈ tr, P e) : R s s' := by
  induction h with
  | nil s => exact hrefl s
  | cons hs' _ ih =>
    obtain ⟨hinv, hr⟩ := hstep _ _ _ hs (htr _ (List.mem_cons_self ..)) hs'
    exact htrans _ _ _ hr (ih hinv fun e he => htr e (List.mem_cons_of_mem _ he))

end Run

variable {α ω : Type}

/-- The step relation of a function that yields the next state and an outcome when the action is enabled. -/
def StepOf (step : σ → α → Option (σ × ω)) (s : σ) (e : α × ω) (s' : σ) : Prop := step s e.1 = some (s', e.2)

/-- Run the machine on a list of actions. -/
def exec (step : σ → α → Option (σ × ω)) : σ → List α → Option (σ × List ω)
  | s, [] => some (s, [])
  | s, a :: as =>
    match step s a with
    | none => none
    | some (s', o) => (exec step s' as).map fun r => (r.1, o :: r.2)

variable {step : σ → α → Option (σ × ω)} {as : List α} {s s' : σ}

theorem run_of_exec {os : List ω}
    (h : exec step s as = some (s', os)) : Run (StepOf step) s (as.zip os) s' := by
  induction as generalizing s os with
  | nil =>
    cases h
    exact Run.nil _
  | cons a as ih =>
    unfold exec at h
    split at h
    · cases h
    rename_i s₁ o hstep
    rw [Option.map_eq_some_iff] at h
    obtain ⟨⟨s₂, os'⟩, hexec, heq⟩ := h
    cases heq
    exact Run.cons hstep (ih hexec)

theorem length_of_exec {os : List ω}
    (h : exec step s as = some (s', os)) : os.length = as.length := by
  induction as generalizing s os with
  | nil =>
    cases h
    rfl
  | cons a as ih =>
    unfold exec at h
    split at h
    · cases h
    rw [Option.map_eq_some_iff] at h
    obtain ⟨⟨s₂, os'⟩, hexec, heq⟩ := h
    cases heq
    exact congrArg (· + 1) (ih hexec)

def steps (step : σ → α → Option σ) : σ → List α → Option σ
  | s, [] => some s
  | s, a :: as =>
    match step s a with
    | none => none
    | some s' => steps step s' as

theorem run_of_steps {step : σ → α → Option σ} (h : steps step s as = some s') :
    Run (fun s a s' => step s a = some s') s as s' := by
  induction as generalizing s with
  | nil =>
    cases h
    exact Run.nil _
  | cons a as ih =>
    unfold steps at h
    split at h
    · cases h
    · rename_i s₁ hstep
      exact Run.cons hstep (ih h)

def guarded (allowed : σ → α → Bool) (step : σ → α → Option (σ × ω)) (s : σ) (a : α) : Option (σ × ω) :=
  if allowed s a then step s a else none

theorem stepOf_guarded {allowed : σ → α → Bool} {e : α × ω}
    (h : StepOf (guarded allowed step) s e s') : StepOf step s e s' ∧ allowed s e.1 = true := by
  unfold StepOf guarded at h
  split at h
  · rename_i hallowed
    exact ⟨h, hallowed⟩
  · cases h

/-- A run of the guarded machine is a run of the machine. -/
theorem exec_of_guarded {allowed : σ → α → Bool} {s : σ}
    {r : σ × List ω} (h : exec (guarded allowed step) s as = some r) : exec step s as = some r := by
  induction as generalizing s r with
  | nil => exact h
  | cons a as ih =>
    unfold exec at h ⊢
    unfold guarded at h
    split at h
    · cases h
    rename_i s' o hstep
    split at hstep
    · rw [Option.map_eq_some_iff] at h
      obtain ⟨r', hexec, rfl⟩ := h
      rw [hstep]
      simp only
      rw [ih hexec]
      rfl
    · cases hstep

end Transition
