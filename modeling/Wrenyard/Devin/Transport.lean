import Wrenyard.Devin.Modes

/-!
# The Devin transport

Framing, modes and the wire codec together (`transport`), and the two ways of cutting a body that matter
(`transport_cuttings`).
-/

namespace Wrenyard.Devin

open Js

/-- A body that stays within the limit of the buffer and has nothing behind its trailer is decoded the same however it
is cut; the two modes answer alike where no text and no reasoning is empty, also where the signal is aborted; and a
message within the size limit is read back field by field. -/
theorem transport :
    (∀ (gunzip : Bytes → Except JsString Bytes) (randomId : Nat → JsString) (status : Nat)
        (chunks chunks' : List Bytes), chunks.flatten = chunks'.flatten → Fits 0 chunks → Fits 0 chunks' →
      behindTrailer chunks.flatten = [] →
      decodeEvents gunzip randomId status chunks = decodeEvents gunzip randomId status chunks') ∧
    (∀ (gunzip : Bytes → Except JsString Bytes) (randomId : Nat → JsString) (status : Nat) (key : JsString)
        (heading : Heading) (chunks : List Bytes),
      (∀ e ∈ decodeEvents gunzip randomId status chunks, e.visible = true) →
      Agree (executeDevin key heading false false (decodeEvents gunzip randomId status chunks))
        (executeDevin key heading false true (decodeEvents gunzip randomId status chunks)) ∧
      ∀ k < (decodeEvents gunzip randomId status chunks).length,
        Agree (executeDevin key heading true false ((decodeEvents gunzip randomId status chunks).take k))
          (executeDevin key heading true true ((decodeEvents gunzip randomId status chunks).take k))) ∧
    (∀ ws : List Write, (∀ w ∈ ws, w.Admissible) →
      ∃ bytes, encode ws = .ok bytes ∧ (bytes.length ≤ maxFrame → parseFields bytes = .ok (ws.map Write.field))) := by
  refine ⟨?_, ?_, fun ws h => parseFields_encode h⟩
  · intro gunzip randomId status chunks chunks' hsame hfits hfits' hbehind
    exact decodeEvents_flatten hsame hfits hfits' hbehind
  · intro gunzip randomId status key heading chunks hvisible
    have hwhole : Whole 0 (decodeEvents gunzip randomId status chunks) := whole_decodeEvents chunks
    refine ⟨agree_whole key heading hwhole hvisible, fun k hk => ?_⟩
    obtain ⟨m, hm⟩ := hwhole.take hk
    exact agree_aborted key heading hm fun e he => hvisible e (List.mem_of_mem_take he)

/-- A text and an empty trailer. -/
def sampleBody : Bytes := [0, 0, 0, 0, 3, 26, 1, 65, 2, 0, 0, 0, 2, 123, 125]

theorem transport_sample :
    decodeEvents .ok (fun _ => js "call_0") 200 [sampleBody.take 6, sampleBody.drop 6] =
        decodeEvents .ok (fun _ => js "call_0") 200 [sampleBody] ∧
      decodeEvents .ok (fun _ => js "call_0") 200 [sampleBody] = [.text (js "A"), .stop (js "stop") none] ∧
      Agree (executeDevin (js "k") ⟨js "id", js "m", 0⟩ false false [.text (js "A"), .stop (js "stop") none])
        (executeDevin (js "k") ⟨js "id", js "m", 0⟩ false true [.text (js "A"), .stop (js "stop") none]) ∧
      Agree (executeDevin (js "k") ⟨js "id", js "m", 0⟩ true false [.text (js "A")])
        (executeDevin (js "k") ⟨js "id", js "m", 0⟩ true true [.text (js "A")]) ∧
      ∃ bytes, encode [.varint 7 5, .bytes 3 [65]] = .ok bytes ∧
        (bytes.length ≤ maxFrame → parseFields bytes = .ok [⟨7, 0, some 5, none⟩, ⟨3, 2, none, some [65]⟩]) := by
  obtain ⟨hcut, hmodes, hcodec⟩ := transport
  have hevents : decodeEvents .ok (fun _ => js "call_0") 200 [sampleBody] =
      [Event.text (js "A"), Event.stop (js "stop") none] := rfl
  have hagree := hmodes .ok (fun _ => js "call_0") 200 (js "k") ⟨js "id", js "m", 0⟩ [sampleBody]
  rw [hevents] at hagree
  obtain ⟨hwhole, habort⟩ := hagree (by decide)
  refine ⟨hcut _ _ _ _ _ rfl (.inl (by decide)) (.inl (by decide)) (by decide), hevents, hwhole, habort 1 (by decide),
    hcodec [.varint 7 5, .bytes 3 [65]] ?_⟩
  intro w hw
  simp only [List.mem_cons, List.not_mem_nil, or_false] at hw
  rcases hw with rfl | rfl
  all_goals exact ⟨by decide, by decide, by decide⟩

def markedBody : Bytes := [0, 0, 0, 0, 10, 26, 3, 239, 187, 191, 26, 3, 239, 187, 191, 2, 0, 0, 0, 2, 123, 125]

/-- A byte behind the trailer, and 40 MiB of empty frames: each body is decoded differently in one chunk and in two.
Behind two texts that are only a byte order mark the stream stalls, while the other mode answers. -/
theorem transport_cuttings :
    ([[2, 0, 0, 0, 2, 123, 125, 0]] : List Bytes).flatten = [[2, 0, 0, 0, 2, 123, 125], [0]].flatten ∧
      decodeEvents .ok (fun _ => []) 200 [[2, 0, 0, 0, 2, 123, 125, 0]] ≠
        decodeEvents .ok (fun _ => []) 200 [[2, 0, 0, 0, 2, 123, 125], [0]] ∧
      (∃ half : Bytes, [half ++ half].flatten = [half, half].flatten ∧ behindTrailer (half ++ half) = [] ∧
        decodeEvents .ok (fun _ => []) 200 [half ++ half] ≠ decodeEvents .ok (fun _ => []) 200 [half, half]) ∧
      decodeEvents .ok (fun _ => []) 200 [markedBody] = [.text [], .text [], .stop (js "stop") none] ∧
      ¬ Agree (executeDevin [] ⟨[], [], 0⟩ false false (decodeEvents .ok (fun _ => []) 200 [markedBody]))
        (executeDevin [] ⟨[], [], 0⟩ false true (decodeEvents .ok (fun _ => []) 200 [markedBody])) := by
  have hhalves : ∀ half : Bytes, [half ++ half].flatten = [half, half].flatten := by
    intro half
    simp
  refine ⟨rfl, ?_, ⟨List.replicate (5 * 2 ^ 22) 0, hhalves _, ?_, ?_⟩, rfl, ?_⟩
  · intro heq
    cases heq
  · rw [List.replicate_append_replicate, ← Nat.mul_add]
    exact behindTrailer_zeros _
  · have hcut := decodeEvents_overflow .ok (fun _ => []) 200 (n := 2 ^ 22) (by decide) (by decide)
    rw [hcut.1, hcut.2]
    intro heq
    have hmessage := congrArg List.head? heq
    exact absurd hmessage (by decide)
  · have hevents : decodeEvents .ok (fun _ => []) 200 [markedBody] =
        [Event.text [], Event.text [], Event.stop (js "stop") none] := rfl
    rw [hevents]
    intro hagree
    cases hagree

end Wrenyard.Devin
