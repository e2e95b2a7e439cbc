import Wrenyard.Exec.ProcessSession
import Wrenyard.Js.Utf8Chunks
import Wrenyard.Supervisor.RetainedOutput

/-!
# The retained tail of an output stream

A `BufferTail` keeps the most recent bytes of a stream, in the chunks they came in.  Whatever the chunks were, it
holds the last `maxBytes` bytes (`Holds.foldl`).  Of a text in UTF-8 it gives back the characters that lie inside
these bytes as a whole: at most three bytes of a cut character stand before them (`exists_cut`).
-/

namespace Wrenyard.Exec.Process.BufferTail

open Js Supervisor List

/-- The loop of `push`, for any ceiling.  Cutting the head brings the bytes to `maxBytes`, which ends it. -/
def evictTo (maxBytes : Nat) : List (List UInt8) → Nat → BufferTail
  | [], bytes => ⟨[], bytes⟩
  | head :: rest, bytes =>
    if maxBytes < bytes then
      let excess := bytes - maxBytes
      if head.length ≤ excess then evictTo maxBytes rest (bytes - head.length)
      else ⟨head.drop excess :: rest, bytes - excess⟩
    else ⟨head :: rest, bytes⟩

def pushTo (maxBytes : Nat) (t : BufferTail) (chunk : List UInt8) : BufferTail :=
  if chunk.length = 0 then t
  else if maxBytes ≤ chunk.length then ⟨[chunk.drop (chunk.length - maxBytes)], maxBytes⟩
  else evictTo maxBytes (t.chunks ++ [chunk]) (t.bytes + chunk.length)

theorem evict_eq (chunks : List (List UInt8)) (bytes : Nat) :
    evict chunks bytes = evictTo maxResultStreamBytes chunks bytes := by
  induction chunks generalizing bytes with
  | nil => rfl
  | cons head rest ih => simp only [evict, evictTo, ih]

/-- The tails of a session have the ceiling of its results. -/
theorem push_eq (t : BufferTail) (chunk : List UInt8) : t.push chunk = t.pushTo maxResultStreamBytes chunk := by
  unfold push pushTo
  rw [evict_eq]

structure Holds (maxBytes : Nat) (stream : List UInt8) (tail : BufferTail) : Prop where
  held : tail.chunks.flatten = stream.rtake maxBytes
  counted : tail.bytes = tail.chunks.flatten.length

variable {maxBytes : Nat} {stream : List UInt8} {tail : BufferTail}

theorem holds_evictTo (chunks : List (List UInt8)) {bytes : Nat} (h : bytes = chunks.flatten.length) :
    Holds maxBytes chunks.flatten (evictTo maxBytes chunks bytes) := by
  induction chunks generalizing bytes with
  | nil => exact ⟨by simp [evictTo, List.rtake], h⟩
  | cons head rest ih =>
    rw [flatten_cons, length_append] at h
    unfold evictTo
    simp only [flatten_cons]
    split
    · split
      · have hnone : maxBytes - rest.flatten.length = 0 := by omega
        have hrest : bytes - head.length = rest.flatten.length := by omega
        obtain ⟨hheld, hcounted⟩ := ih hrest
        refine ⟨?_, hcounted⟩
        rw [hheld, rtake_append, hnone, rtake_zero, nil_append]
      · have hcut : head.length - (maxBytes - rest.flatten.length) = bytes - maxBytes := by omega
        refine ⟨?_, by simp only [flatten_cons, length_append, length_drop]; omega⟩
        rw [rtake_append, rtake_of_length_le (l := rest.flatten) (by omega), List.rtake, hcut, flatten_cons]
    · refine ⟨?_, by rw [flatten_cons, length_append, h]⟩
      rw [rtake_of_length_le (by rw [length_append]; omega), flatten_cons]

theorem Holds.push (h : Holds maxBytes stream tail) (chunk : List UInt8) :
    Holds maxBytes (stream ++ chunk) (tail.pushTo maxBytes chunk) := by
  unfold pushTo
  split
  · next hempty => rwa [length_eq_zero_iff.1 hempty, append_nil]
  split
  · next hwide =>
    have hnone : maxBytes - chunk.length = 0 := by omega
    refine ⟨?_, by simp only [flatten_singleton, length_drop]; omega⟩
    rw [rtake_append, hnone, rtake_zero, nil_append, flatten_singleton, List.rtake]
  · have hbytes : tail.bytes + chunk.length = (tail.chunks ++ [chunk]).flatten.length := by
      rw [flatten_append, length_append, h.counted, flatten_singleton]
    have hevict : Holds maxBytes _ _ := holds_evictTo _ hbytes
    refine ⟨?_, hevict.counted⟩
    rw [hevict.held, flatten_append, flatten_singleton, h.held, rtake_rtake_append]

theorem Holds.foldl (h : Holds maxBytes stream tail) (chunks : List (List UInt8)) :
    Holds maxBytes (stream ++ chunks.flatten) (chunks.foldl (pushTo maxBytes) tail) := by
  induction chunks generalizing stream tail with
  | nil => rwa [flatten_nil, append_nil]
  | cons chunk chunks ih =>
    rw [flatten_cons, ← append_assoc]
    exact ih (h.push chunk)

/-! ### The text of the tail -/

variable {cs front back : List Nat} {c : Nat} {held q : List UInt8} {b : UInt8}

theorem isContinuation_iff (b : UInt8) : IsContinuation b ↔ b.toNat / 0x40 = 2 := by
  unfold IsContinuation
  omega

theorem head_utf8Bytes (hs : IsScalar c) : ∃ b bs, utf8Bytes c = b :: bs ∧ ¬ IsContinuation b ∧ bs.length ≤ 3 := by
  have hlen : (utf8Bytes c).length ≤ 4 := by
    unfold utf8Bytes
    repeat' split
    all_goals simp
  obtain ⟨b, bs, hbytes, hlead⟩ : ∃ b bs, utf8Bytes c = b :: bs ∧ ¬ IsContinuation b := by
    rcases Nat.lt_or_ge c 0x80 with hlt | hge
    · refine ⟨_, _, if_pos hlt, ?_⟩
      rw [IsContinuation, toNat_byte (by omega)]
      omega
    · obtain ⟨b, bs, st, hbytes, hlead, hinside⟩ := utf8Bytes_inside hs hge
      refine ⟨b, bs, hbytes, fun hb => ?_⟩
      unfold IsContinuation at hb
      rw [utf8Lead, if_neg (by omega), if_neg (by simp; omega), if_neg (by simp; omega),
        if_neg (by simp; omega)] at hlead
      cases hlead
  rw [hbytes, length_cons] at hlen
  exact ⟨b, bs, hbytes, hlead, by omega⟩

/-- Before the whole characters of a tail stand at most three bytes of a cut one. -/
theorem exists_cut (hcs : ∀ c ∈ cs, IsScalar c) (h : held <:+ cs.flatMap utf8Bytes) :
    ∃ front back q, cs = front ++ back ∧ held = q ++ back.flatMap utf8Bytes ∧ (∀ b ∈ q, IsContinuation b) ∧
      q.length ≤ 3 := by
  induction cs with
  | nil => exact ⟨[], [], [], rfl, suffix_nil.1 h, by simp, by simp⟩
  | cons c cs ih =>
    have hrest := fun d hd => hcs d (mem_cons_of_mem _ hd)
    obtain ⟨p, hp⟩ := h
    rw [flatMap_cons, append_eq_append_iff] at hp
    rcases hp with ⟨q, hc, hheld⟩ | ⟨p', -, hheld⟩
    · by_cases hp : p = []
      · rw [hp, nil_append] at hc
        exact ⟨[], c :: cs, [], rfl, by rw [hheld, ← hc, flatMap_cons, nil_append], by simp, by simp⟩
      · obtain ⟨b, bs, hbytes, -, hlen⟩ := head_utf8Bytes (hcs c (mem_cons_self ..))
        have hq : q.length ≤ 3 := by
          have := congrArg List.length (hc.symm.trans hbytes)
          have := length_pos_iff.2 hp
          simp only [length_append, length_cons] at *
          omega
        refine ⟨[c], cs, q, rfl, hheld, ?_, hq⟩
        by_cases hnil : q = []
        · simp [hnil]
        · exact (decodeUtf8_cut (hcs c (mem_cons_self ..)) hc hp hnil).2.2
    · obtain ⟨front, back, q, rfl, hq⟩ := ih hrest ⟨p', hheld.symm⟩
      exact ⟨c :: front, back, q, rfl, hq⟩

theorem utf8BoundaryAfter_cut (hback : ∀ c ∈ back, IsScalar c) (hq : ∀ b ∈ q, IsContinuation b)
    (hlen : q.length ≤ 3) :
    (q ++ back.flatMap utf8Bytes).drop (utf8BoundaryAfter (q ++ back.flatMap utf8Bytes)) =
    back.flatMap utf8Bytes := by
  have hskip : q.findIdx? (fun b => b.toNat / 0x40 ≠ 2) = none := by
    rw [List.findIdx?_eq_none_iff]
    intro b hb
    simpa using (isContinuation_iff b).1 (hq b hb)
  have htake : q.take 4 = q := take_of_length_le (by omega)
  unfold utf8BoundaryAfter
  rw [take_append, htake, List.findIdx?_append, hskip, Option.none_or]
  cases back with
  | nil => simp
  | cons c back =>
    obtain ⟨b, bs, hbytes, hlead, -⟩ := head_utf8Bytes (hback c (mem_cons_self ..))
    obtain ⟨n, hn⟩ : ∃ n, 4 - q.length = n + 1 := ⟨3 - q.length, by omega⟩
    rw [isContinuation_iff] at hlead
    rw [flatMap_cons, hbytes, hn, cons_append, take_succ_cons, List.findIdx?_cons, if_pos (by simpa using hlead)]
    simp

theorem toString_cut (hback : ∀ c ∈ back, IsScalar c) (hq : ∀ b ∈ q, IsContinuation b) (hlen : q.length ≤ 3)
    (hheld : tail.chunks.flatten = q ++ back.flatMap utf8Bytes) (hcounted : tail.bytes = tail.chunks.flatten.length) :
    tail.toString = back.flatMap unitsOfPoint := by
  unfold toString
  split
  · next hzero =>
    rw [hcounted, hheld, length_eq_zero_iff, append_eq_nil_iff] at hzero
    rw [← decodeUtf8_points hback, hzero.2]
    rfl
  · rw [hheld, utf8BoundaryAfter_cut hback hq hlen, decodeUtf8_points hback]

/-- No longer tail of whole characters lies inside the bytes. -/
theorem suffix_of_cut (hcs : ∀ c ∈ cs, IsScalar c) (hq : ∀ b ∈ q, IsContinuation b) (hback : back <:+ cs)
    {back' : List Nat} (hback' : back' <:+ cs) (h : back'.flatMap utf8Bytes <:+ q ++ back.flatMap utf8Bytes) :
    back' <:+ back := by
  rcases suffix_or_suffix_of_suffix hback' hback with hle | ⟨front, rfl⟩
  · exact hle
  cases front with
  | nil => exact suffix_rfl
  | cons c front =>
    -- the first byte of the character would be one of a cut character
    obtain ⟨b, bs, hbytes, hlead, -⟩ := head_utf8Bytes (hcs c (hback'.subset (by simp)))
    obtain ⟨p, hp⟩ := h
    rw [flatMap_append, ← append_assoc, append_cancel_right_eq] at hp
    exact absurd (hq b (by rw [← hp, flatMap_cons, hbytes]; simp)) hlead

/-- The tail holds the last `maxBytes` bytes of the stream and counts them.  Of a stream in UTF-8 it is read as the
longest tail of the text, in whole characters, whose bytes it holds. -/
theorem retained_tail (maxBytes : Nat) (chunks : List (List UInt8)) :
    let tail : BufferTail := chunks.foldl (pushTo maxBytes) empty
    let stream := chunks.flatten
    tail.chunks.flatten = stream.drop (stream.length - maxBytes) ∧
      tail.chunks.flatten.length = min maxBytes stream.length ∧ tail.bytes = tail.chunks.flatten.length ∧
      (isUtf8 stream = true → ∃ back, back <:+ codePoints (decodeUtf8 stream) ∧
        tail.toString = back.flatMap unitsOfPoint ∧
        back.flatMap utf8Bytes <:+ tail.chunks.flatten ∧
        ∀ back', back' <:+ codePoints (decodeUtf8 stream) → back'.flatMap utf8Bytes <:+ tail.chunks.flatten →
          back' <:+ back) := by
  have hempty : Holds maxBytes [] empty := ⟨by simp [empty, List.rtake], rfl⟩
  obtain ⟨hheld, hcounted⟩ := hempty.foldl chunks
  rw [List.nil_append] at hheld
  refine ⟨hheld, ?_, hcounted, fun h => ?_⟩
  · rw [hheld, List.rtake, List.length_drop]
    omega
  obtain ⟨cs, hcs, hstream⟩ := isUtf8_iff.1 h
  have hpoints : codePoints (decodeUtf8 chunks.flatten) = cs := by
    rw [hstream, decodeUtf8_points hcs, codePoints_flatMap hcs]
  obtain ⟨front, back, q, hsplit, hcut, hq, hlen⟩ := exists_cut hcs
    (show chunks.flatten.rtake maxBytes <:+ _ from hstream ▸ List.drop_suffix _ _)
  have hback : ∀ c ∈ back, IsScalar c := fun c hc => hcs c (hsplit ▸ List.mem_append_right _ hc)
  have hsuffix : back <:+ cs := ⟨front, hsplit.symm⟩
  rw [hcut] at hheld
  rw [hpoints, hheld]
  exact ⟨back, hsuffix, toString_cut hback hq hlen hheld hcounted, List.suffix_append _ _,
    fun back' hback' => suffix_of_cut hcs hq hsuffix hback'⟩

end Wrenyard.Exec.Process.BufferTail
