import Mathlib.Algebra.GroupWithZero.Nat
import Mathlib.Data.List.DropRight
import Wrenyard.Js.Text

/-!
# The output retained of an execution

The message chunks of an execution are appended under a cap.  Below the cap all of them are kept; above it the head of
the text, a marker and a tail window, each filled to its budget (`Holds`), whatever the chunks were.
-/

namespace Wrenyard.Supervisor

open Js List

def OUTPUT_MAX_CHARS : Nat := 256 * 1024
def OUTPUT_HEAD_CHARS : Nat := 128 * 1024
def OUTPUT_TRUNCATION_MARKER : JsString := js "\n\n[... output truncated ...]\n\n"
def OUTPUT_TAIL_CHARS : Nat := OUTPUT_MAX_CHARS - OUTPUT_HEAD_CHARS - OUTPUT_TRUNCATION_MARKER.length
def OUTPUT_COMPACT_PARTS : Nat := 512

/-- What a registry entry holds of the output. -/
structure Retained where
  outputParts : List JsString
  outputHeadChars : Nat
  outputTailChars : Nat
  outputTruncated : Bool

def Retained.initial : Retained :=
  { outputParts := [], outputHeadChars := 0, outputTailChars := 0, outputTruncated := false }

/-- The round trip through `utf16le`, which keeps every code unit. -/
def detachRetainedText (value : JsString) : JsString := value

/-- The `head` that `truncateOutputText` keeps. -/
def headPart (existing incoming : JsString) : JsString :=
  let headBudget := OUTPUT_HEAD_CHARS
  if existing.length ≥ headBudget then detachRetainedText (existing.take headBudget)
  else detachRetainedText (existing ++ incoming.take (headBudget - existing.length))

/-- The `parts` that `truncateOutputText` keeps behind the marker. -/
def tailParts (existing incoming : JsString) (headFromIncoming : Nat) : List JsString :=
  let tailFromIncoming := min (incoming.length - headFromIncoming) OUTPUT_TAIL_CHARS
  let parts :=
    if tailFromIncoming > 0 then [detachRetainedText (incoming.drop (incoming.length - tailFromIncoming))] else []
  let neededFromExisting := OUTPUT_TAIL_CHARS - tailFromIncoming
  let suffix := detachRetainedText (existing.drop (existing.length - neededFromExisting))
  if neededFromExisting > 0 ∧ suffix.length > 0 then suffix :: parts else parts

/-- Replace the middle of an over-cap sequence with the truncation marker. -/
def truncateOutputText (entry : Retained) (incoming : JsString) : Retained :=
  let existing := entry.outputParts.flatten
  let head := headPart existing incoming
  let parts := tailParts existing incoming (head.length - existing.length)
  { outputParts := head :: OUTPUT_TRUNCATION_MARKER :: parts
    outputHeadChars := head.length
    outputTailChars := (parts.map List.length).sum
    outputTruncated := true }

/-- The loop that keeps `remaining` units of the parts, which it takes from the last one on. -/
def keptParts : List JsString → Nat → List JsString → List JsString
  | [], _, kept => kept
  | part :: parts, remaining, kept =>
    if remaining = 0 then kept
    else if part.length ≤ remaining then keptParts parts (remaining - part.length) (part :: kept)
    else keptParts parts 0 (detachRetainedText (part.drop (part.length - remaining)) :: kept)

/-- Append into the retained tail window of an already-truncated output. -/
def appendOutputTail (entry : Retained) (text : JsString) : Retained :=
  let head := entry.outputParts.headD []
  if entry.outputTailChars + text.length ≤ OUTPUT_TAIL_CHARS then
    let parts := entry.outputParts ++ [detachRetainedText text]
    { entry with
      outputParts :=
        if parts.length - 2 > OUTPUT_COMPACT_PARTS then [head, OUTPUT_TRUNCATION_MARKER, (parts.drop 2).flatten]
        else parts
      outputTailChars := entry.outputTailChars + text.length }
  else if text.length ≥ OUTPUT_TAIL_CHARS then
    { entry with
      outputParts :=
        [head, OUTPUT_TRUNCATION_MARKER, detachRetainedText (text.drop (text.length - OUTPUT_TAIL_CHARS))]
      outputTailChars := OUTPUT_TAIL_CHARS }
  else
    let keep := OUTPUT_TAIL_CHARS - text.length
    let kept := keptParts (entry.outputParts.drop 2).reverse keep [] ++ [detachRetainedText text]
    let kept := if kept.length > OUTPUT_COMPACT_PARTS then [kept.flatten] else kept
    { entry with
      outputParts := head :: OUTPUT_TRUNCATION_MARKER :: kept
      outputTailChars := keep + text.length }

/-- Accumulate one assistant message chunk under a hard code-unit cap. -/
def appendOutputText (entry : Retained) (text : JsString) : Retained :=
  if text.length = 0 then entry
  else if !entry.outputTruncated then
    if entry.outputHeadChars + text.length ≤ OUTPUT_MAX_CHARS then
      let parts := entry.outputParts ++ [detachRetainedText text]
      if parts.length > OUTPUT_COMPACT_PARTS then
        { entry with outputParts := [parts.flatten], outputHeadChars := parts.flatten.length }
      else { entry with outputParts := parts, outputHeadChars := entry.outputHeadChars + text.length }
    else truncateOutputText entry text
  else appendOutputTail entry text

/-- What is retained of `text`: all of it below the cap, else its head and its tail window, both full. -/
inductive Holds (text : JsString) : Retained → Prop
  | whole (parts : List JsString) (hparts : parts.flatten = text) (hcap : text.length ≤ OUTPUT_MAX_CHARS)
      (hcount : parts.length ≤ OUTPUT_COMPACT_PARTS) : Holds text ⟨parts, text.length, 0, false⟩
  | cut (tail : List JsString) (htail : tail.flatten = text.rtake OUTPUT_TAIL_CHARS)
      (hcap : OUTPUT_MAX_CHARS < text.length) (hcount : tail.length ≤ OUTPUT_COMPACT_PARTS) :
      Holds text ⟨text.take OUTPUT_HEAD_CHARS :: OUTPUT_TRUNCATION_MARKER :: tail, OUTPUT_HEAD_CHARS,
        OUTPUT_TAIL_CHARS, true⟩

variable {entry : Retained} {text chunk : JsString}

theorem output_budget : OUTPUT_HEAD_CHARS + OUTPUT_TRUNCATION_MARKER.length + OUTPUT_TAIL_CHARS =
    OUTPUT_MAX_CHARS := by
  decide +kernel

theorem rtake_append {α : Type} (l l' : List α) (n : Nat) :
    (l ++ l').rtake n = l.rtake (n - l'.length) ++ l'.rtake n := by
  unfold List.rtake
  rw [drop_append, length_append]
  by_cases h : n ≤ l'.length
  · have hl : l.length + l'.length - n - l.length = l'.length - n := by omega
    rw [hl, drop_eq_nil_of_le (show l.length ≤ l.length + l'.length - n by omega),
      drop_eq_nil_of_le (show l.length ≤ l.length - (n - l'.length) by omega)]
  · have hl : l.length + l'.length - n = l.length - (n - l'.length) := by omega
    have hz : l.length - (n - l'.length) - l.length = l'.length - n := by omega
    rw [hl, hz]

theorem rtake_of_length_le {α : Type} {l : List α} {n : Nat} (h : l.length ≤ n) : l.rtake n = l := by
  unfold List.rtake
  rw [Nat.sub_eq_zero_of_le h, drop_zero]

/-- A tail window that was filled from the text before is the window of the text after it. -/
theorem rtake_rtake_append {α : Type} (l l' : List α) (n : Nat) : (l.rtake n ++ l').rtake n = (l ++ l').rtake n := by
  rw [rtake_append, rtake_append]
  congr 1
  unfold List.rtake
  rw [drop_drop, length_drop]
  congr 1
  omega

theorem flatten_keptParts (rev : List JsString) (n : Nat) (kept : List JsString) :
    (keptParts rev n kept).flatten = rev.reverse.flatten.rtake n ++ kept.flatten := by
  induction rev generalizing n kept with
  | nil => simp [keptParts, List.rtake]
  | cons part parts ih =>
    simp only [keptParts, reverse_cons, flatten_append, flatten_singleton, rtake_append]
    split
    · next hn => simp [hn, List.rtake]
    split
    · next hle => rw [ih, rtake_of_length_le hle, flatten_cons, append_assoc]
    next hlt =>
    have hz : n - part.length = 0 := by omega
    rw [ih, hz, flatten_cons, append_assoc]
    rfl

theorem Holds.initial : Holds [] Retained.initial := .whole [] rfl (Nat.zero_le _) (Nat.zero_le _)

theorem headPart_eq (text chunk : JsString) : headPart text chunk = (text ++ chunk).take OUTPUT_HEAD_CHARS := by
  unfold headPart detachRetainedText
  rw [take_append]
  dsimp only
  split
  · next hge => rw [Nat.sub_eq_zero_of_le hge, take_zero, append_nil]
  · next hlt => rw [take_of_length_le (Nat.le_of_not_le hlt)]

theorem length_tailParts_le (text chunk : JsString) (n : Nat) :
    (tailParts text chunk n).length ≤ OUTPUT_COMPACT_PARTS := by
  unfold tailParts OUTPUT_COMPACT_PARTS
  dsimp only
  split <;> split <;> simp

theorem flatten_tailParts (hcap : text.length ≤ OUTPUT_MAX_CHARS)
    (hover : OUTPUT_MAX_CHARS < text.length + chunk.length) :
    (tailParts text chunk (OUTPUT_HEAD_CHARS - text.length)).flatten = (text ++ chunk).rtake OUTPUT_TAIL_CHARS := by
  have hbudget := output_budget
  have hpos : 0 < OUTPUT_TAIL_CHARS := by decide +kernel
  unfold tailParts detachRetainedText
  rw [rtake_append]
  by_cases hfit : OUTPUT_TAIL_CHARS ≤ chunk.length - (OUTPUT_HEAD_CHARS - text.length)
  -- the window fits into the chunk behind its share of the head
  · have hzero : OUTPUT_TAIL_CHARS - chunk.length = 0 := by omega
    dsimp only
    rw [Nat.min_eq_right hfit, Nat.sub_self, if_neg (fun h => Nat.lt_irrefl 0 h.1), if_pos hpos, hzero,
      rtake_zero, nil_append, flatten_singleton, List.rtake]
  -- else the head takes nothing of the chunk, as the text would otherwise be below the cap
  · have hall : min (chunk.length - (OUTPUT_HEAD_CHARS - text.length)) OUTPUT_TAIL_CHARS = chunk.length := by omega
    have hchunk : (if chunk.length > 0 then [chunk] else []).flatten = chunk := by
      cases chunk <;> simp
    have hneeded : 0 < OUTPUT_TAIL_CHARS - chunk.length ∧
        0 < (text.drop (text.length - (OUTPUT_TAIL_CHARS - chunk.length))).length := by
      rw [length_drop]
      omega
    simp only [hall, rtake_of_length_le (show chunk.length ≤ OUTPUT_TAIL_CHARS by omega), Nat.sub_self, drop_zero]
    rw [if_pos hneeded, flatten_cons, hchunk, List.rtake]

theorem Holds.truncate (hflat : entry.outputParts.flatten = text) (hcap : text.length ≤ OUTPUT_MAX_CHARS)
    (hover : OUTPUT_MAX_CHARS < text.length + chunk.length) :
    Holds (text ++ chunk) (truncateOutputText entry chunk) := by
  have hbudget := output_budget
  have hlen : ((text ++ chunk).take OUTPUT_HEAD_CHARS).length = OUTPUT_HEAD_CHARS := by
    rw [length_take, length_append]
    omega
  have htail := flatten_tailParts hcap hover
  have hsum : ((tailParts text chunk (OUTPUT_HEAD_CHARS - text.length)).map List.length).sum = OUTPUT_TAIL_CHARS := by
    rw [← length_flatten, htail, List.rtake, length_drop, length_append]
    omega
  unfold truncateOutputText
  simp only [hflat, headPart_eq, hlen, hsum]
  exact .cut _ htail (by rw [length_append]; omega) (length_tailParts_le _ _ _)

theorem Holds.appendTail {tail : List JsString} (htail : tail.flatten = text.rtake OUTPUT_TAIL_CHARS)
    (hcap : OUTPUT_MAX_CHARS < text.length) (hchunk : 0 < chunk.length) :
    Holds (text ++ chunk) (appendOutputTail ⟨text.take OUTPUT_HEAD_CHARS :: OUTPUT_TRUNCATION_MARKER :: tail,
      OUTPUT_HEAD_CHARS, OUTPUT_TAIL_CHARS, true⟩ chunk) := by
  have hbudget := output_budget
  have hhead : text.take OUTPUT_HEAD_CHARS = (text ++ chunk).take OUTPUT_HEAD_CHARS := by
    rw [take_append_of_le_length (by omega)]
  have hcap' : OUTPUT_MAX_CHARS < (text ++ chunk).length := by
    rw [length_append]
    omega
  have hfull : ¬ OUTPUT_TAIL_CHARS + chunk.length ≤ OUTPUT_TAIL_CHARS := by omega
  unfold appendOutputTail
  simp only [hfull, if_false, headD_cons, hhead]
  split
  · next hwide =>
    refine .cut _ ?_ hcap' (by unfold OUTPUT_COMPACT_PARTS; simp)
    have hzero : OUTPUT_TAIL_CHARS - chunk.length = 0 := Nat.sub_eq_zero_of_le hwide
    rw [flatten_singleton, rtake_append, hzero, rtake_zero, nil_append, List.rtake,
      detachRetainedText]
  · next hnarrow =>
    have hlen : OUTPUT_TAIL_CHARS - chunk.length + chunk.length = OUTPUT_TAIL_CHARS := by omega
    have hdrop (head marker : JsString) : (head :: marker :: tail).drop 2 = tail := rfl
    rw [hlen, hdrop]
    have hkept : (keptParts tail.reverse (OUTPUT_TAIL_CHARS - chunk.length) [] ++
        [detachRetainedText chunk]).flatten =
        (text ++ chunk).rtake OUTPUT_TAIL_CHARS := by
      rw [flatten_append, flatten_keptParts, reverse_reverse, htail, flatten_nil, append_nil,
        flatten_singleton, ← rtake_rtake_append, rtake_append,
        rtake_of_length_le (l := chunk) (Nat.le_of_not_le hnarrow), detachRetainedText]
    split
    · exact .cut _ (by rw [flatten_singleton, hkept]) hcap' (by unfold OUTPUT_COMPACT_PARTS; simp)
    · next hfew => exact .cut _ hkept hcap' (Nat.le_of_not_lt hfew)

/-- One chunk keeps the retained output that of the whole text. -/
theorem Holds.append (h : Holds text entry) (chunk : JsString) :
    Holds (text ++ chunk) (appendOutputText entry chunk) := by
  unfold appendOutputText
  split
  · next hempty => rwa [length_eq_zero_iff.1 hempty, append_nil]
  next hchunk =>
  cases h with
  | cut tail htail hcap hcount => exact .appendTail htail hcap (Nat.pos_of_ne_zero hchunk)
  | whole parts hparts hcap hcount =>
    have hflat : (parts ++ [detachRetainedText chunk]).flatten = text ++ chunk := by
      rw [flatten_append, hparts, flatten_singleton]
      rfl
    simp only [Bool.not_false, if_true, hflat]
    split
    · next hfits =>
      rw [← length_append] at *
      split
      · exact .whole _ (flatten_singleton ..) hfits (by unfold OUTPUT_COMPACT_PARTS; simp)
      · next hfew => exact .whole _ hflat hfits (Nat.le_of_not_lt hfew)
    · next hover => exact .truncate hparts hcap (Nat.lt_of_not_le hover)

theorem Holds.foldl (h : Holds text entry) (chunks : List JsString) :
    Holds (text ++ chunks.flatten) (chunks.foldl appendOutputText entry) := by
  induction chunks generalizing text entry with
  | nil => rwa [flatten_nil, append_nil]
  | cons chunk chunks ih =>
    rw [flatten_cons, ← append_assoc]
    exact ih (h.append chunk)

/-- The output retained after any chunks is decided by their text, fits under the cap, and its parts and counters stay
bounded. -/
theorem retained_output (chunks : List JsString) :
    let entry := chunks.foldl appendOutputText Retained.initial
    let text := chunks.flatten
    (entry.outputTruncated = true ↔ OUTPUT_MAX_CHARS < text.length) ∧
      (text.length ≤ OUTPUT_MAX_CHARS → entry.outputParts.flatten = text ∧ entry.outputHeadChars = text.length ∧
        entry.outputTailChars = 0) ∧
      (OUTPUT_MAX_CHARS < text.length → entry.outputHeadChars = OUTPUT_HEAD_CHARS ∧
        entry.outputTailChars = OUTPUT_TAIL_CHARS ∧
        entry.outputParts.flatten =
          text.take OUTPUT_HEAD_CHARS ++ OUTPUT_TRUNCATION_MARKER ++ text.drop (text.length - OUTPUT_TAIL_CHARS) ∧
        ∃ tail, entry.outputParts = text.take OUTPUT_HEAD_CHARS :: OUTPUT_TRUNCATION_MARKER :: tail) ∧
      entry.outputParts.flatten.length ≤ OUTPUT_MAX_CHARS ∧ entry.outputParts.length ≤ OUTPUT_COMPACT_PARTS + 2 := by
  have hbudget := output_budget
  have h := Holds.initial.foldl chunks
  generalize chunks.foldl appendOutputText Retained.initial = entry at h ⊢
  cases h with
  | whole parts hparts hcap hcount =>
    refine ⟨⟨nofun, fun h => absurd h (Nat.not_lt.2 hcap)⟩, fun _ => ⟨hparts, rfl, rfl⟩,
      fun h => absurd h (Nat.not_lt.2 hcap), ?_, Nat.le_add_right_of_le hcount⟩
    rw [hparts]
    exact hcap
  | cut tail htail hcap hcount =>
    refine ⟨⟨fun _ => hcap, fun _ => rfl⟩, fun h => absurd hcap (Nat.not_lt.2 h),
      fun _ => ⟨rfl, rfl, ?_, tail, rfl⟩, ?_,
      Nat.add_le_add_right hcount 2⟩
    · rw [List.flatten_cons, List.flatten_cons, htail, List.append_assoc]
      rfl
    · rw [List.flatten_cons, List.flatten_cons, htail, List.length_append, List.length_append, List.length_take,
        List.rtake, List.length_drop]
      omega

end Wrenyard.Supervisor
