import Wrenyard.Js.Text

/-!
# The lines of an event stream

Lines end at CRLF, LF or CR.  A reader makes every end of a line a line feed and splits there (`normalizeNewlines`).
-/

namespace Js

open List

namespace EventSource

/-- Every end of a line becomes a line feed. -/
def normalizeNewlines : JsString → JsString
  | [] => []
  | [u] => [if u = cr then lf else u]
  | u :: v :: s =>
    if u = cr then
      if v = lf then lf :: normalizeNewlines s else lf :: normalizeNewlines (v :: s)
    else u :: normalizeNewlines (v :: s)

/-- Induction along the line ends: a line feed behind a carriage return belongs to it. -/
@[elab_as_elim]
theorem lineEnd_induction {motive : JsString → Prop} (nil : motive []) (last : ∀ u, motive [u])
    (crlf : ∀ s, motive s → motive (cr :: lf :: s)) (single : ∀ v s, v ≠ lf → motive (v :: s) → motive (cr :: v :: s))
    (unit : ∀ u v s, u ≠ cr → motive (v :: s) → motive (u :: v :: s)) (s : JsString) : motive s :=
  normalizeNewlines.induct motive nil last crlf single unit s

theorem normalizeNewlines_cons {u : UInt16} (h : u ≠ cr) (s : JsString) :
    normalizeNewlines (u :: s) = u :: normalizeNewlines s := by
  cases s with
  | nil => simp [normalizeNewlines, h]
  | cons v s => rw [normalizeNewlines, if_neg h]

theorem normalizeNewlines_text {t : JsString} (h : cr ∉ t) (s : JsString) :
    normalizeNewlines (t ++ s) = t ++ normalizeNewlines s := by
  induction t with
  | nil => rfl
  | cons u t ih =>
    rw [mem_cons, not_or] at h
    rw [cons_append, normalizeNewlines_cons (Ne.symm h.1), ih h.2]
    rfl

end EventSource

end Js
