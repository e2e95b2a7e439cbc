import Mathlib.Data.List.TakeDrop

/-!
# Delimited records

A file of records, each ended by a delimiter that no record contains.  Cutting such a file anywhere leaves the records
whose delimiter is still there, and a fragment without a delimiter (`take_frame`).
-/

namespace Framing

variable {α ι : Type} (d : α) (encode : ι → List α)

/-- The records one after another, each with its delimiter. -/
def frame (items : List ι) : List α := items.flatMap fun i => encode i ++ [d]

/-- The items whose record lies in the first `n` symbols of the file, delimiter included. -/
def complete : List ι → Nat → List ι
  | [], _ => []
  | i :: items, n =>
    if (encode i).length + 1 ≤ n then i :: complete items (n - ((encode i).length + 1)) else []

/-- What the first `n` symbols hold of the first record that is not complete. -/
def fragment : List ι → Nat → List α
  | [], _ => []
  | i :: items, n =>
    if (encode i).length + 1 ≤ n then fragment items (n - ((encode i).length + 1)) else (encode i).take n

variable {d encode}

@[simp] theorem frame_nil : frame d encode [] = [] := rfl

@[simp] theorem frame_cons (i : ι) (items : List ι) :
    frame d encode (i :: items) = encode i ++ d :: frame d encode items := by
  simp [frame]

@[simp] theorem frame_append (xs ys : List ι) :
    frame d encode (xs ++ ys) = frame d encode xs ++ frame d encode ys := by
  simp [frame]

variable (d encode) in
theorem take_frame (items : List ι) (n : Nat) :
    (frame d encode items).take n = frame d encode (complete encode items n) ++ fragment encode items n := by
  induction items generalizing n with
  | nil => simp [complete, fragment]
  | cons i items ih =>
    rw [frame_cons, complete, fragment]
    split
    · rename_i h
      have hcons : encode i ++ d :: frame d encode items = (encode i ++ [d]) ++ frame d encode items := by simp
      have hlen : (encode i ++ [d]).length = (encode i).length + 1 := by simp
      rw [hcons, List.take_append, hlen, List.take_of_length_le (by rw [hlen]; exact h), ih]
      simp
    · rename_i h
      rw [List.take_append_of_le_length (by omega)]
      simp

theorem delimiter_not_mem_fragment (h : ∀ i, d ∉ encode i) (items : List ι) (n : Nat) :
    d ∉ fragment encode items n := by
  induction items generalizing n with
  | nil => simp [fragment]
  | cons i items ih =>
    unfold fragment
    split
    · exact ih _
    · exact fun hm => h i (List.mem_of_mem_take hm)

end Framing
