import Mathlib.Data.List.Forall2

/-!
# Checks in a row

A validator is a row of checks, each of which passes a value on or ends the row with an error.  What a row of checks
passed, every one of them did (`bind_eq_ok`), and a list passes where each of its elements does (`mapM_eq_ok`).
-/

namespace Checks

variable {ε α β : Type} {f : α → Except ε β}

theorem bind_eq_ok {x : Except ε α} {b : β} :
    x >>= f = .ok b ↔ ∃ a, x = .ok a ∧ f a = .ok b := by
  cases x with
  | error e =>
    constructor
    · exact nofun
    · rintro ⟨a, h, -⟩
      cases h
  | ok a =>
    constructor
    · intro h
      exact ⟨a, rfl, h⟩
    · rintro ⟨a', h, h'⟩
      cases h
      exact h'

theorem bind_congr_ok {x x' : Except ε α} {f g : α → Except ε β} (hx : x = x')
    (h : ∀ a, x = .ok a → f a = g a) : x >>= f = x' >>= g := by
  subst hx
  cases x with
  | error e => rfl
  | ok a => exact h a rfl

theorem mapM_eq_ok {as : List α} {bs : List β} :
    as.mapM f = .ok bs ↔ List.Forall₂ (fun a b => f a = .ok b) as bs := by
  induction as generalizing bs with
  | nil =>
    rw [List.mapM_nil]
    constructor <;> intro h
    · cases h
      exact List.Forall₂.nil
    · cases h
      rfl
  | cons a as ih =>
    rw [List.mapM_cons, bind_eq_ok]
    constructor
    · rintro ⟨b, hb, h⟩
      obtain ⟨bs', hbs, h⟩ := bind_eq_ok.1 h
      cases h
      exact List.Forall₂.cons hb (ih.1 hbs)
    · intro h
      cases h with
      | cons hb hbs => exact ⟨_, hb, bind_eq_ok.2 ⟨_, ih.2 hbs, rfl⟩⟩

theorem exists_of_mem_mapM {as : List α} {bs : List β} (h : as.mapM f = .ok bs) {b : β}
    (hb : b ∈ bs) : ∃ a ∈ as, f a = .ok b := by
  have hall := mapM_eq_ok.1 h
  clear h
  induction hall with
  | nil => cases hb
  | cons hhead _ ih =>
    rcases List.mem_cons.1 hb with rfl | hb
    · exact ⟨_, List.mem_cons_self, hhead⟩
    · obtain ⟨a, ha, hfa⟩ := ih hb
      exact ⟨a, List.mem_cons_of_mem _ ha, hfa⟩

end Checks
