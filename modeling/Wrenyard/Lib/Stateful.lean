import Mathlib.Data.List.Basic

/-!
# Programs that change a state and may fail

A program reads a state, changes it and ends with a value or with a failure; a failure keeps the changes made before
it.  `Holds P m Q E` says what is true behind the program: `Q` of a value and the state, `E` of a failure and the
state.  The rules follow the ways programs are put together, so that a specification is put together in the same way.
-/

def Stateful (σ ε α : Type) : Type := σ → Except ε α × σ

namespace Stateful

variable {σ ε α β : Type}

/-- Run the second program behind a value of the first. -/
def andThen (m : Stateful σ ε α) (f : α → Stateful σ ε β) : Stateful σ ε β := fun s =>
  match m s with
  | (.ok a, s') => f a s'
  | (.error e, s') => (.error e, s')

instance instMonad : Monad (Stateful σ ε) where
  pure a := fun s => (.ok a, s)
  bind := andThen

def get : Stateful σ ε σ := fun s => (.ok s, s)

def modify (f : σ → σ) : Stateful σ ε Unit := fun s => (.ok (), f s)

def fail (e : ε) : Stateful σ ε α := fun s => (.error e, s)

def check (r : Except ε α) : Stateful σ ε α := fun s => (r, s)

/-- Run a program under a condition. -/
def when (c : Prop) [Decidable c] (m : Stateful σ ε Unit) : Stateful σ ε Unit := if c then m else pure ()

/-- Run a program, and another one before its failure goes on. -/
def onFailure (m : Stateful σ ε α) (cleanup : Stateful σ ε Unit) : Stateful σ ε α := fun s =>
  match m s with
  | (.ok a, s') => (.ok a, s')
  | (.error e, s') => (.error e, (cleanup s').2)

@[simp] theorem pure_apply (a : α) (s : σ) : (pure a : Stateful σ ε α) s = (.ok a, s) := rfl

@[simp] theorem get_apply (s : σ) : (get : Stateful σ ε σ) s = (.ok s, s) := rfl

@[simp] theorem modify_apply (f : σ → σ) (s : σ) : (modify f : Stateful σ ε Unit) s = (.ok (), f s) := rfl

variable {m : Stateful σ ε α} {f : α → Stateful σ ε β} {s s' : σ}

theorem bind_of_ok {a : α} (h : m s = (.ok a, s')) :
    (m >>= f) s = f a s' := by
  show andThen m f s = f a s'
  unfold andThen
  rw [h]

theorem bind_of_error {e : ε} (h : m s = (.error e, s')) :
    (m >>= f) s = (.error e, s') := by
  show andThen m f s = (.error e, s')
  unfold andThen
  rw [h]

/-- What is said of an ending: `Q` of a value, `E` of a failure. -/
def Ends (Q : α → σ → Prop) (E : ε → σ → Prop) : Except ε α × σ → Prop
  | (.ok a, s) => Q a s
  | (.error e, s) => E e s

/-- From a state with `P` the program ends with `Q` of its value or with `E` of its failure. -/
def Holds (P : σ → Prop) (m : Stateful σ ε α) (Q : α → σ → Prop) (E : ε → σ → Prop) : Prop :=
  ∀ s, P s → Ends Q E (m s)

variable {P P' : σ → Prop} {Q Q' : α → σ → Prop} {R : β → σ → Prop} {E E' : ε → σ → Prop}

theorem Ends.mono {r : Except ε α × σ} (h : Ends Q E r) (hQ : ∀ a s, Q a s → Q' a s) (hE : ∀ e s, E e s → E' e s) :
    Ends Q' E' r := by
  obtain ⟨_ | _, s⟩ := r
  · exact hE _ _ h
  · exact hQ _ _ h

namespace Holds

theorem conseq (h : Holds P m Q E) (hP : ∀ s, P' s → P s) (hQ : ∀ a s, Q a s → Q' a s)
    (hE : ∀ e s, E e s → E' e s) : Holds P' m Q' E' :=
  fun s hs => (h s (hP s hs)).mono hQ hE

theorem value {a : α} (h : Holds P m Q E) (hs : P s) (hm : m s = (.ok a, s')) :
    Q a s' := by
  have hend := h s hs
  rw [hm] at hend
  exact hend

theorem failure {e : ε} (h : Holds P m Q E) (hs : P s) (hm : m s = (.error e, s')) :
    E e s' := by
  have hend := h s hs
  rw [hm] at hend
  exact hend

theorem pure {a : α} (h : ∀ s, P s → Q a s) : Holds P (Pure.pure a : Stateful σ ε α) Q E := fun s hs => h s hs

theorem bind (hm : Holds P m Q E) (hf : ∀ a, Holds (Q a) (f a) R E) :
    Holds P (m >>= f) R E := by
  intro s hs
  have hend := hm s hs
  cases hms : m s with
  | mk r s' =>
    rw [hms] at hend
    cases r with
    | ok a =>
      rw [bind_of_ok hms]
      exact hf a s' hend
    | error e =>
      rw [bind_of_error hms]
      exact hend

theorem fail {e : ε} (h : ∀ s, P s → E e s) : Holds P (Stateful.fail e : Stateful σ ε α) Q E := fun s hs => h s hs

theorem modify {f : σ → σ} {Q : Unit → σ → Prop} (h : ∀ s, P s → Q () (f s)) :
    Holds P (Stateful.modify f : Stateful σ ε Unit) Q E :=
  fun s hs => h s hs

theorem check {r : Except ε α} (hok : ∀ a s, r = .ok a → P s → Q a s) (herror : ∀ e s, r = .error e → P s → E e s) :
    Holds P (Stateful.check r) Q E := by
  intro s hs
  cases hr : r with
  | ok a => exact hok a s hr hs
  | error e => exact herror e s hr hs

theorem get_bind {f : σ → Stateful σ ε β} (h : ∀ s, P s → Holds (· = s) (f s) R E) :
    Holds P (Stateful.get >>= f) R E :=
  fun s hs => h s hs s rfl

theorem when {c : Prop} [Decidable c] {m : Stateful σ ε Unit} {Q : Unit → σ → Prop} (hpos : c → Holds P m Q E)
    (hneg : ¬c → ∀ s, P s → Q () s) : Holds P (Stateful.when c m) Q E := by
  unfold Stateful.when
  split
  · rename_i h
    exact hpos h
  · rename_i h
    exact fun s hs => hneg h s hs

theorem onFailure {F : ε → σ → Prop} {cleanup : Stateful σ ε Unit} (hm : Holds P m Q F)
    (hc : ∀ e s, F e s → E e (cleanup s).2) : Holds P (Stateful.onFailure m cleanup) Q E := by
  intro s hs
  have hend := hm s hs
  unfold Stateful.onFailure
  cases hms : m s with
  | mk r s' =>
    rw [hms] at hend
    cases r with
    | ok a => exact hend
    | error e => exact hc e s' hend

end Holds

end Stateful
