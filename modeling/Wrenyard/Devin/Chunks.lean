import Wrenyard.Devin.Events

/-!
# Cutting an event stream into chunks

The frames that a buffer holds are the same with more bytes behind it, so that the loop over the buffer may stop
anywhere and go on with the next chunk (`drained_append`).  Therefore the events are those of the whole body
(`decodeEvents_eq`), where the buffer stays within its limit (`Fits`) and nothing follows the trailer.
-/

namespace Wrenyard.Devin

open Js List

variable {gunzip : Bytes → Except JsString Bytes} {randomId : Nat → JsString} {status : Nat}

variable {buffer data rest : Bytes} {flags : Nat}

theorem cutFrame_append (h : cutFrame buffer = .frame flags data rest) (more : Bytes) :
    cutFrame (buffer ++ more) = .frame flags data (rest ++ more) := by
  rcases buffer with _ | ⟨f, _ | ⟨a, _ | ⟨b, _ | ⟨c, _ | ⟨d, bs⟩⟩⟩⟩⟩
  any_goals cases h
  · simp only [cutFrame, cons_append] at h ⊢
    by_cases hbig : uint32 a b c d > maxFrame
    · rw [if_pos hbig] at h
      cases h
    rw [if_neg hbig] at h ⊢
    by_cases hshort : bs.length < uint32 a b c d
    · rw [if_pos hshort] at h
      cases h
    rw [if_neg hshort] at h
    have hlong : ¬ (bs ++ more).length < uint32 a b c d := by
      rw [length_append]
      omega
    rw [if_neg hlong, take_append_of_le_length (by omega), drop_append_of_le_length (by omega)]
    cases h
    rfl

theorem cutFrame_append_oversized (h : cutFrame buffer = .oversized) (more : Bytes) :
    cutFrame (buffer ++ more) = .oversized := by
  rcases buffer with _ | ⟨f, _ | ⟨a, _ | ⟨b, _ | ⟨c, _ | ⟨d, bs⟩⟩⟩⟩⟩
  any_goals cases h
  · simp only [cutFrame, cons_append] at h ⊢
    by_cases hbig : uint32 a b c d > maxFrame
    · rw [if_pos hbig]
    · rw [if_neg hbig] at h
      split at h <;> cases h

theorem length_rest (h : cutFrame buffer = .frame flags data rest) : rest.length + 5 ≤ buffer.length := by
  rcases buffer with _ | ⟨f, _ | ⟨a, _ | ⟨b, _ | ⟨c, _ | ⟨d, bs⟩⟩⟩⟩⟩
  any_goals cases h
  · simp only [cutFrame] at h
    split at h
    · cases h
    split at h <;> cases h
    simp only [length_cons, length_drop]
    omega

theorem length_of_short (h : cutFrame buffer = .short) : buffer.length < maxFrame + 5 := by
  rcases buffer with _ | ⟨f, _ | ⟨a, _ | ⟨b, _ | ⟨c, _ | ⟨d, bs⟩⟩⟩⟩⟩
  · decide
  iterate 4 simp [maxFrame]
  · simp only [cutFrame] at h
    split at h
    · cases h
    split at h
    · simp only [length_cons]
      omega
    · cases h

/-! ### The frames of a buffer -/

variable (gunzip randomId) in
/-- The loop over the frames, with fuel for all of them. -/
def drained (d : Decoder) (buffer : Bytes) : List Event × Progress := drain gunzip randomId buffer.length d buffer

variable {d : Decoder}

theorem drain_fuel {fuel : Nat} (h : buffer.length ≤ fuel) :
    drain gunzip randomId fuel d buffer = drained gunzip randomId d buffer := by
  unfold drained
  generalize hn : buffer.length = n at h
  induction n using Nat.strong_induction_on generalizing d buffer fuel with
  | _ n ih =>
    cases n with
    | zero =>
      rw [length_eq_zero_iff.1 hn]
      cases fuel <;> rfl
    | succ n =>
      cases fuel with
      | zero => omega
      | succ fuel =>
        unfold drain
        cases hcut : cutFrame buffer with
        | short => rfl
        | oversized => rfl
        | frame flags data rest =>
          have hlen := length_rest hcut
          have hrest : ∀ d', drain gunzip randomId fuel d' rest = drain gunzip randomId n d' rest := by
            intro d'
            have hfew := ih rest.length (by omega) (d := d') rfl (show rest.length ≤ n by omega)
            have hmany := ih rest.length (by omega) (d := d') rfl (show rest.length ≤ fuel by omega)
            rw [hfew, hmany]
          simp only [hrest]

theorem drained_eq (d : Decoder) (buffer : Bytes) : drained gunzip randomId d buffer =
    match cutFrame buffer with
    | .short => ([], .reading d buffer)
    | .oversized => ([], .failed (js "Devin response frame exceeds 16 MiB"))
    | .frame flags data rest =>
      match onFrame gunzip randomId d flags data with
      | (es, .fields d) => (es ++ (drained gunzip randomId d rest).1, (drained gunzip randomId d rest).2)
      | (es, .trailer) => if rest = [] then (es, .ended d) else (es, .failed (js "Data follows Connect trailer"))
      | (es, .failed e) => (es, .failed e)
      | (es, .returned) => (es, .returned) := by
  cases hcut : cutFrame buffer with
  | short =>
    unfold drained
    cases hn : buffer.length with
    | zero => rfl
    | succ n =>
      unfold drain
      rw [hcut]
  | oversized =>
    unfold drained
    cases hn : buffer.length with
    | zero =>
      rw [length_eq_zero_iff.1 hn] at hcut
      cases hcut
    | succ n =>
      unfold drain
      rw [hcut]
  | frame flags data rest =>
    have hlen := length_rest hcut
    have hrest : ∀ d', drain gunzip randomId (buffer.length - 1) d' rest = drained gunzip randomId d' rest :=
      fun d' => drain_fuel (by omega)
    have hstep : drained gunzip randomId d buffer = drain gunzip randomId (buffer.length - 1 + 1) d buffer := by
      rw [drain_fuel (by omega)]
    rw [hstep]
    unfold drain
    rw [hcut]
    rcases honFrame : onFrame gunzip randomId d flags data with ⟨es, stop⟩
    cases stop <;> simp [honFrame, hrest]

def extend (gunzip : Bytes → Except JsString Bytes) (randomId : Nat → JsString) (more : Bytes)
    (r : List Event × Progress) : List Event × Progress :=
  match r.2 with
  | .reading d buffer =>
    (r.1 ++ (drained gunzip randomId d (buffer ++ more)).1, (drained gunzip randomId d (buffer ++ more)).2)
  | .ended _ => if more = [] then r else (r.1, .failed (js "Data follows Connect trailer"))
  | _ => r

theorem extend_cons (more : Bytes) (es : List Event) (r : List Event × Progress) :
    extend gunzip randomId more (es ++ r.1, r.2) =
    (es ++ (extend gunzip randomId more r).1, (extend gunzip randomId more r).2) := by
  obtain ⟨es', stop⟩ := r
  unfold extend
  cases stop with
  | reading d buffer => simp
  | ended d =>
    by_cases hm : more = []
    · simp [hm]
    · simp [hm]
  | failed e => rfl
  | returned => rfl

theorem drained_append (d : Decoder) (buffer more : Bytes) :
    drained gunzip randomId d (buffer ++ more) = extend gunzip randomId more (drained gunzip randomId d buffer) := by
  generalize hn : buffer.length = n
  induction n using Nat.strong_induction_on generalizing d buffer with
  | _ n ih =>
    cases hcut : cutFrame buffer with
    | short =>
      have hhead : drained gunzip randomId d buffer = ([], .reading d buffer) := by rw [drained_eq, hcut]
      rw [hhead]
      rfl
    | oversized =>
      rw [drained_eq d buffer, drained_eq d (buffer ++ more), hcut, cutFrame_append_oversized hcut]
      rfl
    | frame flags data rest =>
      have hlen := length_rest hcut
      rw [drained_eq d buffer, drained_eq d (buffer ++ more), hcut, cutFrame_append hcut]
      dsimp only
      cases hframe : onFrame gunzip randomId d flags data with
      | mk es stop =>
        cases stop with
        | fields d' =>
          dsimp only
          rw [extend_cons, ih rest.length (by omega) d' rest rfl]
        | trailer =>
          by_cases hrest : rest = []
          · subst hrest
            by_cases hm : more = []
            all_goals simp [extend, hm]
          · simp [extend, hrest]
        | failed e => rfl
        | returned => rfl

variable {d' : Decoder}

theorem short_of_reading (h : (drained gunzip randomId d buffer).2 = .reading d' rest) :
    cutFrame rest = .short ∧ rest.length ≤ buffer.length := by
  generalize hn : buffer.length = n
  induction n using Nat.strong_induction_on generalizing d buffer with
  | _ n ih =>
    rw [drained_eq] at h
    cases hcut : cutFrame buffer <;> rw [hcut] at h
    case short =>
      cases h
      exact ⟨hcut, Nat.le_of_eq hn⟩
    case oversized => cases h
    case frame flags data tail =>
      have hlen := length_rest hcut
      dsimp only at h
      cases hframe : onFrame gunzip randomId d flags data with
      | mk es stop =>
        rw [hframe] at h
        cases stop with
        | fields d'' =>
          have htail := ih tail.length (by omega) h rfl
          exact ⟨htail.1, by omega⟩
        | trailer =>
          dsimp only at h
          split at h <;> cases h
        | failed e => cases h
        | returned => cases h

def behindTrailerFrom : Nat → Bytes → Bytes
  | 0, _ => []
  | fuel + 1, buffer =>
    match cutFrame buffer with
    | .frame flags _ rest => if flags &&& 2 ≠ 0 then rest else behindTrailerFrom fuel rest
    | _ => []

def behindTrailer (body : Bytes) : Bytes := behindTrailerFrom body.length body

theorem behindTrailerFrom_fuel {fuel : Nat} (h : buffer.length ≤ fuel) :
    behindTrailerFrom fuel buffer = behindTrailer buffer := by
  unfold behindTrailer
  generalize hn : buffer.length = n at h
  induction n using Nat.strong_induction_on generalizing buffer fuel with
  | _ n ih =>
    cases n with
    | zero =>
      rw [length_eq_zero_iff.1 hn]
      cases fuel <;> rfl
    | succ n =>
      cases fuel with
      | zero => omega
      | succ fuel =>
        unfold behindTrailerFrom
        cases hcut : cutFrame buffer with
        | short => rfl
        | oversized => rfl
        | frame flags data rest =>
          have hlen := length_rest hcut
          have hfew := ih rest.length (by omega) rfl (show rest.length ≤ n by omega)
          have hmany := ih rest.length (by omega) rfl (show rest.length ≤ fuel by omega)
          dsimp only
          rw [hfew, hmany]

theorem behindTrailer_frame (h : cutFrame buffer = .frame flags data rest) :
    behindTrailer buffer = if flags &&& 2 ≠ 0 then rest else behindTrailer rest := by
  have hlen := length_rest h
  have hstep : behindTrailer buffer = behindTrailerFrom (buffer.length - 1 + 1) buffer := by
    rw [behindTrailerFrom_fuel (by omega)]
  rw [hstep]
  unfold behindTrailerFrom
  rw [h]
  dsimp only
  rw [behindTrailerFrom_fuel (by omega)]

theorem flag_of_trailer {es : List Event} (h : onFrame gunzip randomId d flags data = (es, .trailer)) :
    flags &&& 2 ≠ 0 := by
  intro hflag
  unfold onFrame at h
  split at h
  · cases h
  split at h
  · cases h
  rw [if_neg (not_not.2 hflag)] at h
  split at h
  · cases h
  · split at h <;> cases h

theorem flag_of_fields {es : List Event} (h : onFrame gunzip randomId d flags data = (es, .fields d')) :
    flags &&& 2 = 0 := by
  by_contra hflag
  unfold onFrame at h
  split at h
  · cases h
  · split at h
    · cases h
    · split at h <;> cases h

/-- What lies behind the trailer once a buffer is drained: all that follows, if it ended. -/
theorem behindTrailer_of_drained (more : Bytes) :
    (∀ d' rest, (drained gunzip randomId d buffer).2 = .reading d' rest →
      behindTrailer (buffer ++ more) = behindTrailer (rest ++ more)) ∧
    ∀ d', (drained gunzip randomId d buffer).2 = .ended d' → behindTrailer (buffer ++ more) = more := by
  generalize hn : buffer.length = n
  induction n using Nat.strong_induction_on generalizing d buffer with
  | _ n ih =>
    rw [drained_eq]
    cases hcut : cutFrame buffer with
    | short =>
      refine ⟨?_, fun _ h => by cases h⟩
      intro d' rest h
      cases h
      rfl
    | oversized => exact ⟨fun _ _ h => (by cases h), fun _ h => by cases h⟩
    | frame flags data tail =>
      have hlen := length_rest hcut
      dsimp only
      rw [behindTrailer_frame (cutFrame_append hcut more)]
      cases hframe : onFrame gunzip randomId d flags data with
      | mk es stop =>
        cases stop with
        | fields d'' =>
          rw [if_neg (not_not.2 (flag_of_fields hframe))]
          exact ih tail.length (by omega) rfl
        | trailer =>
          rw [if_pos (flag_of_trailer hframe)]
          by_cases hrest : tail = []
          · simp [hrest]
          · simp [hrest]
        | failed e => exact ⟨fun _ _ h => (by cases h), fun _ h => by cases h⟩
        | returned => exact ⟨fun _ _ h => (by cases h), fun _ h => by cases h⟩

/-- The buffer stays within its limit: the body is small, or each chunk is. -/
def Fits (held : Nat) (chunks : List Bytes) : Prop :=
  held + chunks.flatten.length ≤ maxFrame * 2 ∨ ∀ chunk ∈ chunks, chunk.length ≤ maxFrame - 4

def bodyEvents (gunzip : Bytes → Except JsString Bytes) (randomId : Nat → JsString) (status : Nat) (d : Decoder)
    (body : Bytes) : List Event :=
  (drained gunzip randomId d body).1 ++ settle status (endOfBody status) (drained gunzip randomId d body).2

theorem readFrom_eq {chunks : List Bytes} (hshort : cutFrame buffer = .short) (hfits : Fits buffer.length chunks)
    (hbehind : behindTrailer (buffer ++ chunks.flatten) = []) : readFrom gunzip randomId status d buffer chunks =
    bodyEvents gunzip randomId status d (buffer ++ chunks.flatten) := by
  induction chunks generalizing d buffer with
  | nil =>
    have hhead : drained gunzip randomId d buffer = ([], .reading d buffer) := by rw [drained_eq, hshort]
    unfold bodyEvents readFrom
    rw [flatten_nil, append_nil, hhead]
    rfl
  | cons chunk chunks ih =>
    have hlimit : ¬ buffer.length + chunk.length > maxFrame * 2 := by
      rcases hfits with hfits | hfits
      · rw [flatten_cons, length_append] at hfits
        omega
      have hchunk := hfits chunk mem_cons_self
      have hheld := length_of_short hshort
      unfold maxFrame at hchunk hheld ⊢
      omega
    unfold readFrom
    rw [if_neg hlimit, drain_fuel (Nat.le_refl _)]
    rw [flatten_cons, ← append_assoc] at hbehind ⊢
    unfold bodyEvents
    rw [drained_append d (buffer ++ chunk)]
    generalize hr : drained gunzip randomId d (buffer ++ chunk) = r
    cases hstop : r.2 with
    | reading d' rest =>
      have hreading : (drained gunzip randomId d (buffer ++ chunk)).2 = .reading d' rest := by rw [hr, hstop]
      obtain ⟨hrest, hlen⟩ := short_of_reading hreading
      rw [length_append] at hlen
      have hfits' : Fits rest.length chunks := by
        rcases hfits with hfits | hfits
        · left
          rw [flatten_cons, length_append] at hfits
          omega
        · exact .inr fun c hc => hfits c (mem_cons_of_mem _ hc)
      rw [(behindTrailer_of_drained _).1 _ _ hreading] at hbehind
      have hnext := ih (d := d') hrest hfits' hbehind
      unfold bodyEvents at hnext
      simp only [extend, hstop, append_assoc]
      show r.1 ++ readFrom gunzip randomId status d' rest chunks = _
      rw [hnext]
    | ended d' =>
      have hended : (drained gunzip randomId d (buffer ++ chunk)).2 = .ended d' := by rw [hr, hstop]
      have hnone := (behindTrailer_of_drained chunks.flatten).2 _ hended
      rw [hbehind] at hnone
      simp only [extend, hstop, settle, ← hnone, if_pos]
    | failed e => simp only [extend, hstop, settle]
    | returned => simp only [extend, hstop, settle]

theorem decodeEvents_eq {chunks : List Bytes} (hfits : Fits 0 chunks) (hbehind : behindTrailer chunks.flatten = []) :
    decodeEvents gunzip randomId status chunks = bodyEvents gunzip randomId status .start chunks.flatten :=
  readFrom_eq rfl hfits hbehind

theorem decodeEvents_flatten {chunks chunks' : List Bytes} (hsame : chunks.flatten = chunks'.flatten)
    (hfits : Fits 0 chunks) (hfits' : Fits 0 chunks') (hbehind : behindTrailer chunks.flatten = []) :
    decodeEvents gunzip randomId status chunks = decodeEvents gunzip randomId status chunks' := by
  rw [decodeEvents_eq hfits hbehind, decodeEvents_eq hfits' (hsame ▸ hbehind), hsame]

theorem cutFrame_zeros (n : Nat) :
    cutFrame (List.replicate (5 * (n + 1)) 0) = .frame 0 [] (List.replicate (5 * n) 0) := by
  rw [show 5 * (n + 1) = 5 * n + 1 + 1 + 1 + 1 + 1 by omega]
  simp [replicate_succ, cutFrame, uint32]

theorem behindTrailer_zeros (n : Nat) : behindTrailer (List.replicate (5 * n) 0) = [] := by
  induction n with
  | zero => rfl
  | succ n ih =>
    rw [behindTrailer_frame (cutFrame_zeros n), if_neg (by decide)]
    exact ih

theorem drained_zeros (d : Decoder) (n : Nat) :
    drained gunzip randomId d (List.replicate (5 * n) 0) = ([], .reading d []) := by
  induction n with
  | zero => rfl
  | succ n ih =>
    have hempty : onFrame gunzip randomId d 0 [] = ([], .fields d) := by
      simp [onFrame, parseFields, parseFieldsFrom, onFields]
    rw [drained_eq, cutFrame_zeros]
    dsimp only
    rw [hempty]
    dsimp only
    rw [ih]
    rfl

/-- More empty frames than the buffer holds: an error in one chunk, and a body without a trailer in two. -/
theorem decodeEvents_overflow (gunzip : Bytes → Except JsString Bytes) (randomId : Nat → JsString) (status : Nat)
    {n : Nat} (hhalf : 5 * n ≤ maxFrame * 2) (hwhole : maxFrame * 2 < 5 * n + 5 * n) :
    decodeEvents gunzip randomId status [List.replicate (5 * n) 0 ++ List.replicate (5 * n) 0] =
    [streamFailure status (js "Devin stream buffer exceeds limit")] ∧
    decodeEvents gunzip randomId status [List.replicate (5 * n) 0, List.replicate (5 * n) 0] =
    [streamFailure status (js "Missing Devin Connect trailer")] := by
  have hzeros : ∀ m d, m = 5 * n → drain gunzip randomId m d (List.replicate (5 * n) 0) = ([], .reading d []) := by
    rintro m d rfl
    rw [drain_fuel (by simp), drained_zeros]
  constructor
  · unfold decodeEvents readFrom
    rw [if_pos]
    simpa using hwhole
  · have hfew : ¬ (([] : Bytes).length + (List.replicate (5 * n) (0 : UInt8)).length > maxFrame * 2) := by
      simpa using hhalf
    unfold decodeEvents readFrom
    rw [if_neg hfew, nil_append, hzeros _ _ (by simp)]
    simp only [settle, nil_append]
    unfold readFrom
    rw [if_neg hfew, nil_append, hzeros _ _ (by simp)]
    simp [settle, readFrom, endOfBody]

end Wrenyard.Devin
