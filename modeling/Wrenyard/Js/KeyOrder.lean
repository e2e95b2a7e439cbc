import Mathlib.Data.List.Sort
import Wrenyard.Js.Utf8

/-!
# The orders in which keys are visited

`sort()` compares strings by their code units, a database column in its binary collation by the bytes of their UTF-8
encoding, and `Object.keys` lists array indices first and in ascending order.  Proofs only use that each of these
orders lists the same keys.
-/

namespace Js

/-- `keys.sort()`. -/
def sortStrings (keys : List JsString) : List JsString := keys.insertionSort (· ≤ ·)

/-- `ORDER BY key ASC`, by the bytes of the encoding. -/
def orderBinary (keys : List JsString) : List JsString := keys.insertionSort fun a b => encodeUtf8 a ≤ encodeUtf8 b

/-- An array index: a canonical numeral below `2 ^ 32 - 1`. -/
def isArrayIndex (key : JsString) : Bool :=
  key.all isDigit && decide (natText (digitsValue key) = key) && decide (digitsValue key < 2 ^ 32 - 1)

/-- `Object.keys` of an object whose properties were defined in the given order. -/
def ownKeys (keys : List JsString) : List JsString :=
  (keys.filter isArrayIndex).insertionSort (fun a b => digitsValue a ≤ digitsValue b) ++
    keys.filter fun key => !isArrayIndex key

variable {keys : List JsString} {key : JsString}

@[simp] theorem mem_sortStrings : key ∈ sortStrings keys ↔ key ∈ keys :=
  List.mem_insertionSort _

theorem nodup_sortStrings (h : keys.Nodup) : (sortStrings keys).Nodup :=
  (List.perm_insertionSort _ keys).nodup_iff.mpr h

@[simp] theorem mem_orderBinary : key ∈ orderBinary keys ↔ key ∈ keys :=
  List.mem_insertionSort _

@[simp] theorem mem_ownKeys : key ∈ ownKeys keys ↔ key ∈ keys := by
  unfold ownKeys
  rw [List.mem_append, List.mem_insertionSort, List.mem_filter, List.mem_filter]
  cases isArrayIndex key <;> simp

theorem nodup_orderBinary (h : keys.Nodup) : (orderBinary keys).Nodup :=
  (List.perm_insertionSort _ keys).nodup_iff.mpr h

theorem nodup_ownKeys (h : keys.Nodup) : (ownKeys keys).Nodup := by
  unfold ownKeys
  rw [List.nodup_append]
  refine ⟨(List.perm_insertionSort _ _).nodup_iff.mpr (h.filter _), h.filter _, ?_⟩
  rintro a ha b hb rfl
  rw [List.mem_insertionSort, List.mem_filter] at ha
  rw [List.mem_filter, ha.2] at hb
  cases hb.2

end Js
