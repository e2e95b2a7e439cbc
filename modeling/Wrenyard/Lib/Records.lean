import Mathlib.Data.List.Basic

/-!
# Reading records chunk by chunk

A reader is fed a stream in chunks of any size.  It folds every record that is ended by the delimiter into a state and
keeps the beginning of the next record.  Feeding a chunk is pushing its symbols one by one (`feed_eq_foldl`), so that
only the text matters and not where it was cut (`feed_append`).
-/

namespace Records

variable {α σ τ : Type} [BEq α] [LawfulBEq α]

structure Reader (α σ : Type) where
  /-- The beginning of a record whose delimiter is still to come. -/
  buffer : List α
  state : σ

def feed (d : α) (consume : σ → List α → σ) (r : Reader α σ) (chunk : List α) : Reader α σ where
  buffer := (((r.buffer ++ chunk).splitOn d).getLast?).getD []
  state := ((r.buffer ++ chunk).splitOn d).dropLast.foldl consume r.state

/-- Feed one symbol. -/
def push (d : α) (consume : σ → List α → σ) (r : Reader α σ) (a : α) : Reader α σ :=
  if a == d then ⟨[], consume r.state r.buffer⟩ else ⟨r.buffer ++ [a], r.state⟩

variable {d : α} {consume : σ → List α → σ} {r : Reader α σ}

@[simp] theorem push_delimiter : push d consume r d = ⟨[], consume r.state r.buffer⟩ := by
  simp [push]

theorem push_of_ne {a : α} (h : a ≠ d) : push d consume r a = ⟨r.buffer ++ [a], r.state⟩ := by
  simp [push, h]

theorem not_mem_buffer_push (h : d ∉ r.buffer) (a : α) : d ∉ (push d consume r a).buffer := by
  by_cases ha : a = d
  · rw [ha]; simp
  · rw [push_of_ne ha]
    simp [h, Ne.symm ha]

variable (chunk : List α)

variable (h : d ∉ r.buffer)
include h

theorem not_mem_buffer_foldl : d ∉ (chunk.foldl (push d consume) r).buffer := by
  induction chunk generalizing r with
  | nil => exact h
  | cons a chunk ih => exact ih (not_mem_buffer_push h a)

theorem feed_eq_foldl : feed d consume r chunk = chunk.foldl (push d consume) r := by
  induction chunk generalizing r with
  | nil => simp [feed, List.splitOn_eq_singleton h]
  | cons a chunk ih =>
    rw [List.foldl_cons, ← ih (not_mem_buffer_push h a)]
    by_cases ha : a = d
    · subst ha
      have hne : chunk.splitOn a ≠ [] := List.splitOn_ne_nil a chunk
      simp only [feed, push_delimiter, List.splitOn_append_cons_self_of_not_mem h, List.nil_append,
        List.dropLast_cons_of_ne_nil hne, List.foldl_cons]
      rw [List.getLast?_cons_of_ne_nil hne]
    · rw [push_of_ne ha]
      simp [feed]

theorem not_mem_buffer_feed : d ∉ (feed d consume r chunk).buffer := by
  rw [feed_eq_foldl chunk h]
  exact not_mem_buffer_foldl chunk h

theorem feed_nil : feed d consume r [] = r := by
  rw [feed_eq_foldl [] h, List.foldl_nil]

omit h

theorem feed_append (xs ys : List α) (h : d ∉ r.buffer) :
    feed d consume (feed d consume r xs) ys = feed d consume r (xs ++ ys) := by
  rw [feed_eq_foldl ys (not_mem_buffer_feed xs h), feed_eq_foldl xs h, feed_eq_foldl (xs ++ ys) h, List.foldl_append]

omit [LawfulBEq α] in
theorem feed_map {consume' : τ → List α → τ} {g : σ → τ}
    (hg : ∀ s record, g (consume s record) = consume' (g s) record) (chunk : List α) :
    feed d consume' ⟨r.buffer, g r.state⟩ chunk =
    ⟨(feed d consume r chunk).buffer, g (feed d consume r chunk).state⟩ := by
  have hfold : ∀ (records : List (List α)) (s : σ), g (records.foldl consume s) = records.foldl consume' (g s) := by
    intro records
    induction records with
    | nil => intro s; rfl
    | cons record records ih => intro s; rw [List.foldl_cons, List.foldl_cons, ← hg, ih]
  simp only [feed, hfold]

end Records
