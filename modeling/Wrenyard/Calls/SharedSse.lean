import Wrenyard.Js.EventSource

/-!
# Reading a stream of frames

The transport adapters share one reader of server-sent events.  A chunk is appended to the buffer, line ends are
normalised but for a carriage return at its end, and every piece up to a blank line is delivered; what is left when
the stream ends is normalised once more and delivered as one frame.  How the text is cut into chunks does not matter
(`readSseStream_chunks`).  The last step does not look for blank lines again, so a carriage return that ends the text
and a blank line at once is delivered with its frame.
-/

namespace Wrenyard.Calls

open Js Js.EventSource List

/-- `buffer.replace(/\r\n|\r(?!$)/gu, '\n')`: a carriage return at the end may be half of a line end and is kept. -/
def normalizeHeld : JsString → JsString
  | [] => []
  | [u] => [u]
  | u :: v :: s =>
    if u = cr then
      if v = lf then lf :: normalizeHeld s else lf :: normalizeHeld (v :: s)
    else u :: normalizeHeld (v :: s)

/-- The buffer cut at `buffer.indexOf('\n\n')`. -/
def cutFrame : JsString → Option (JsString × JsString)
  | [] => none
  | u :: s => if startsWith (u :: s) [lf, lf] then some ([], s.tail) else (cutFrame s).map fun p => (u :: p.1, p.2)

theorem cutFrame_eq_some {s f r : JsString} (h : cutFrame s = some (f, r)) :
    s = f ++ lf :: lf :: r ∧ ∀ z, cutFrame (f ++ lf :: lf :: z) = some (f, z) := by
  induction s generalizing f with
  | nil => cases h
  | cons u s ih =>
    by_cases hu : startsWith (u :: s) [lf, lf]
    · rw [cutFrame, if_pos hu] at h
      obtain ⟨rfl, rfl⟩ : [] = f ∧ s.tail = r := by simpa using h
      rcases s with _ | ⟨v, s⟩
      · simp [startsWith] at hu
      · simp only [startsWith, isPrefixOf_cons_cons, Bool.and_eq_true, beq_iff_eq] at hu
        refine ⟨by rw [← hu.1, ← hu.2.1]; rfl, fun z => ?_⟩
        simp [cutFrame, startsWith]
    · rw [cutFrame, if_neg hu] at h
      obtain ⟨⟨g, r'⟩, hs, heq⟩ := Option.map_eq_some_iff.mp h
      obtain ⟨rfl, rfl⟩ : u :: g = f ∧ r' = r := by simpa using heq
      obtain ⟨rfl, hz⟩ := ih hs
      refine ⟨rfl, fun z => ?_⟩
      have hne : ¬ startsWith (u :: (g ++ lf :: lf :: z)) [lf, lf] := by
        rcases g with _ | ⟨v, g⟩ <;> simpa [startsWith] using hu
      rw [cons_append, cutFrame, if_neg hne, hz]
      rfl

/-- The `while (boundary !== -1)` loop: the frames handed on and the buffer afterwards. -/
def readFrames (isDone : List JsString → Bool) (delivered : List JsString) (buffer : JsString) :
    List JsString × JsString :=
  match _h : cutFrame buffer with
  | none => (delivered, buffer)
  | some (frame, rest) =>
    if isDone (delivered ++ [frame]) then (delivered ++ [frame], rest)
    else readFrames isDone (delivered ++ [frame]) rest
termination_by buffer.length
decreasing_by rw [(cutFrame_eq_some _h).1]; simp; omega

def readChunks (isDone : List JsString → Bool) (delivered : List JsString) (buffer : JsString) :
    List JsString → List JsString × JsString
  | [] => (delivered, buffer)
  | chunk :: chunks =>
    if isDone delivered then (delivered, buffer)
    else
      let r := readFrames isDone delivered (normalizeHeld (buffer ++ chunk))
      readChunks isDone r.1 r.2 chunks

/-- `decoder.decode()` at the end of the stream: a replacement character for bytes that begin a character. -/
def decodeEnd (incomplete : Bool) : JsString := if incomplete then [0xFFFD] else []

/-- A frame for what is left, unless it is blank. -/
def tailFrames (buffer : JsString) : List JsString := if trim buffer = [] then [] else [buffer]

/-- `readSseStream` on the decoded chunks; `isDone` depends on the frames handed to `onFrame` so far. -/
def readSseStream (isDone : List JsString → Bool) (chunks : List JsString) (incomplete : Bool) : List JsString :=
  let r := readChunks isDone [] [] chunks
  if isDone r.1 then r.1 else r.1 ++ tailFrames (normalizeNewlines (r.2 ++ decodeEnd incomplete))

/-- The maximal pieces between blank lines, and the tail after the last blank line. -/
def pieces (s : JsString) : List JsString × JsString :=
  match _h : cutFrame s with
  | none => ([], s)
  | some (frame, rest) => (frame :: (pieces rest).1, (pieces rest).2)
termination_by s.length
decreasing_by all_goals (rw [(cutFrame_eq_some _h).1]; simp; omega)

/-- Frames are handled in turn until the predicate holds. -/
def deliver (isDone : List JsString → Bool) (delivered : List JsString) : List JsString → List JsString
  | [] => delivered
  | frame :: frames => if isDone delivered then delivered else deliver isDone (delivered ++ [frame]) frames

def framesOf (text : JsString) : List JsString :=
  (pieces (normalizeNewlines text)).1 ++ tailFrames (pieces (normalizeNewlines text)).2

variable {isDone : List JsString → Bool} {delivered : List JsString}

theorem pieces_of_none {s : JsString} (h : cutFrame s = none) : pieces s = ([], s) := by
  rw [pieces]
  split
  · rfl
  · rename_i h'; rw [h] at h'; cases h'

theorem pieces_frame {f r : JsString} (h : ∀ z, cutFrame (f ++ lf :: lf :: z) = some (f, z)) :
    pieces (f ++ lf :: lf :: r) = (f :: (pieces r).1, (pieces r).2) := by
  rw [pieces]
  split
  · rename_i h'; rw [h] at h'; cases h'
  · rename_i h'; rw [h] at h'; cases h'; rfl

theorem cutFrame_tail (s : JsString) : cutFrame (pieces s).2 = none ∧ (pieces s).2 <:+ s := by
  induction s using pieces.induct with
  | case1 s h => rw [pieces_of_none h]; exact ⟨h, suffix_refl s⟩
  | case2 s frame rest h ih =>
    obtain ⟨rfl, hz⟩ := cutFrame_eq_some h
    rw [pieces_frame hz]
    exact ⟨ih.1, ih.2.trans ⟨frame ++ [lf, lf], by simp⟩⟩

theorem deliver_of_done (h : isDone delivered) (frames : List JsString) :
    deliver isDone delivered frames = delivered := by
  cases frames with
  | nil => rfl
  | cons frame frames => rw [deliver, if_pos h]

theorem deliver_append (fs gs : List JsString) :
    deliver isDone delivered (fs ++ gs) = deliver isDone (deliver isDone delivered fs) gs := by
  induction fs generalizing delivered with
  | nil => rfl
  | cons f fs ih =>
    by_cases h : isDone delivered
    · rw [deliver_of_done h, deliver_of_done h, deliver_of_done h]
    · rw [cons_append, deliver, if_neg h, ih, deliver, if_neg h]

theorem readFrames_eq (h : isDone delivered = false) (buffer : JsString) :
    (readFrames isDone delivered buffer).1 = deliver isDone delivered (pieces buffer).1 ∧
    (isDone (readFrames isDone delivered buffer).1 = false →
      (readFrames isDone delivered buffer).2 = (pieces buffer).2) := by
  fun_induction readFrames isDone delivered buffer with
  | case1 delivered buffer hc => rw [pieces_of_none hc]; exact ⟨rfl, fun _ => rfl⟩
  | case2 delivered buffer frame rest hc hd =>
    obtain ⟨rfl, hz⟩ := cutFrame_eq_some hc
    rw [pieces_frame hz, deliver, if_neg (by simp [h]), deliver_of_done hd]
    exact ⟨rfl, fun h' => by simp [hd] at h'⟩
  | case3 delivered buffer frame rest hc hd ih =>
    obtain ⟨rfl, hz⟩ := cutFrame_eq_some hc
    rw [pieces_frame hz, deliver, if_neg (by simp [h])]
    exact ih (by simpa using hd)

variable {u : UInt16}

theorem normalizeHeld_cons (h : u ≠ cr) (s : JsString) : normalizeHeld (u :: s) = u :: normalizeHeld s := by
  cases s with
  | nil => rfl
  | cons v s => rw [normalizeHeld, if_neg h]

theorem normalizeHeld_append (x y : JsString) : normalizeHeld (normalizeHeld x ++ y) = normalizeHeld (x ++ y) := by
  induction x using lineEnd_induction with
  | nil | last u => rfl
  | crlf s ih =>
    have hr (z : JsString) : normalizeHeld (cr :: lf :: z) = lf :: normalizeHeld z := by simp [normalizeHeld]
    rw [hr, cons_append, normalizeHeld_cons (by decide), ih]
    exact (hr (s ++ y)).symm
  | single v s hv ih =>
    have hr (z : JsString) : normalizeHeld (cr :: v :: z) =
        lf :: normalizeHeld (v :: z) := by simp [normalizeHeld, hv]
    rw [hr, cons_append, normalizeHeld_cons (by decide), ih]
    exact (hr (s ++ y)).symm
  | unit u v s hu ih =>
    rw [normalizeHeld_cons hu, cons_append, normalizeHeld_cons hu, ih]
    exact (normalizeHeld_cons hu _).symm

variable (x : JsString)

theorem cr_not_mem_dropLast : cr ∉ (normalizeHeld x).dropLast := by
  have hcons {u : UInt16} {t : JsString} (hu : u ≠ cr) (ht : cr ∉ t.dropLast) : cr ∉ (u :: t).dropLast := by
    cases t with
    | nil => simp
    | cons v t => simpa [Ne.symm hu] using ht
  induction x using lineEnd_induction with
  | nil | last u => simp [normalizeHeld]
  | crlf s ih => simpa [normalizeHeld] using hcons (u := lf) (by decide) ih
  | single v s hv ih => simpa [normalizeHeld, hv] using hcons (u := lf) (by decide) ih
  | unit u v s hu ih => rw [normalizeHeld_cons hu]; exact hcons hu ih

theorem cr_not_mem_normalizeNewlines : cr ∉ normalizeNewlines x := by
  have hne : cr ≠ lf := by decide
  induction x using lineEnd_induction with
  | nil => simp [normalizeNewlines]
  | last u =>
    by_cases hu : u = cr
    · simp [normalizeNewlines, hu, hne]
    · simp [normalizeNewlines, hu, Ne.symm hu]
  | crlf s ih => simp [normalizeNewlines, hne, ih]
  | single v s hv ih => simp [normalizeNewlines, hv, hne, ih]
  | unit u v s hu ih => rw [normalizeNewlines_cons hu]; simp [Ne.symm hu, ih]

theorem normalizeNewlines_append {y : JsString} (hy : y.head? ≠ some lf) :
    normalizeNewlines (x ++ y) = normalizeNewlines x ++ normalizeNewlines y := by
  induction x using lineEnd_induction with
  | nil => rfl
  | last u =>
    rcases y with _ | ⟨v, y⟩
    · simp [normalizeNewlines]
    · have hv : v ≠ lf := by simpa using hy
      by_cases hu : u = cr <;> simp [normalizeNewlines, hu, hv]
  | crlf s ih => simp [normalizeNewlines, ih]
  | single v s hv ih => simpa [normalizeNewlines, hv] using ih
  | unit u v s hu ih => rw [cons_append, normalizeNewlines_cons hu, ih, normalizeNewlines_cons hu]; rfl

theorem normalizeHeld_concat : normalizeHeld (x ++ [cr]) = normalizeNewlines x ++ [cr] := by
  induction x using lineEnd_induction with
  | nil => rfl
  | last u => by_cases hu : u = cr <;> simp [normalizeNewlines, normalizeHeld, hu, show cr ≠ lf by decide]
  | crlf s ih => simp [normalizeNewlines, normalizeHeld, ih]
  | single v s hv ih => simpa [normalizeNewlines, normalizeHeld, hv] using ih
  | unit u v s hu ih => rw [cons_append, normalizeHeld_cons hu, ih, normalizeNewlines_cons hu]; rfl

theorem normalizeHeld_of_getLast {x : JsString} (h : x.getLast? ≠ some cr) :
    normalizeHeld x = normalizeNewlines x := by
  induction x using lineEnd_induction with
  | nil => rfl
  | last u =>
    have hu : u ≠ cr := by simpa using h
    simp [normalizeNewlines, normalizeHeld, hu]
  | crlf s ih =>
    have : s.getLast? ≠ some cr := by rcases s with _ | ⟨v, s⟩ <;> simp_all
    simp [normalizeNewlines, normalizeHeld, ih this]
  | single v s hv ih => simpa [normalizeNewlines, normalizeHeld, hv] using ih (by simpa using h)
  | unit u v s hu ih => rw [normalizeHeld_cons hu, ih (by simpa using h), normalizeNewlines_cons hu]

/-- The frames of a buffer are those of what came first, and those of what it left with the rest. -/
theorem pieces_append {g : JsString → JsString} (hg : ∀ (u : UInt16) s, u ≠ cr → g (u :: s) = u :: g s) {m : JsString}
    (hm : cr ∉ m.dropLast) (y : JsString) :
    pieces (g (m ++ y)) = ((pieces m).1 ++ (pieces (g ((pieces m).2 ++ y))).1,
      (pieces (g ((pieces m).2 ++ y))).2) := by
  have hgs {f : JsString} (hf : cr ∉ f) (s : JsString) : g (f ++ s) = f ++ g s := by
    induction f with
    | nil => rfl
    | cons u f ih =>
      rw [mem_cons, not_or] at hf
      rw [cons_append, hg u _ (Ne.symm hf.1), ih hf.2]
      rfl
  induction m using pieces.induct with
  | case1 m h => rw [pieces_of_none h]; rfl
  | case2 m frame rest h ih =>
    obtain ⟨rfl, hz⟩ := cutFrame_eq_some h
    have hf : cr ∉ frame := fun hmem => hm (by simp [hmem])
    have hrest : cr ∉ rest.dropLast := by
      rcases rest with _ | ⟨v, rest⟩
      · simp
      · intro hmem
        exact hm (by simp [hmem])
    rw [append_assoc, hgs hf, cons_append, cons_append, hg _ _ (by decide), hg _ _ (by decide),
      pieces_frame hz, pieces_frame hz, ih hrest]
    rfl

theorem normalizeHeld_of_held {t : JsString} (h : cr ∉ t.dropLast) : normalizeHeld t = t := by
  induction t with
  | nil => rfl
  | cons u t ih =>
    rcases t with _ | ⟨v, t⟩
    · rfl
    · rw [dropLast_cons_cons, mem_cons, not_or] at h
      rw [normalizeHeld_cons (Ne.symm h.1), ih h.2]

theorem readChunks_of_done (h : isDone delivered) (buffer : JsString) (chunks : List JsString) :
    readChunks isDone delivered buffer chunks = (delivered, buffer) := by
  cases chunks with
  | nil => rfl
  | cons chunk chunks => rw [readChunks, if_pos h]

/-- However the text is cut, the same pieces are delivered and the same text is left. -/
theorem readChunks_eq (chunks : List JsString) {buffer : JsString} (hb : normalizeHeld buffer = buffer)
    (hc : cutFrame buffer = none) :
    (readChunks isDone delivered buffer chunks).1 =
      deliver isDone delivered (pieces (normalizeHeld (buffer ++ chunks.flatten))).1 ∧
    (isDone (readChunks isDone delivered buffer chunks).1 = false →
      (readChunks isDone delivered buffer chunks).2 = (pieces (normalizeHeld (buffer ++ chunks.flatten))).2) := by
  induction chunks generalizing delivered buffer with
  | nil =>
    rw [flatten_nil, append_nil, hb, pieces_of_none hc]
    exact ⟨rfl, fun _ => rfl⟩
  | cons chunk chunks ih =>
    by_cases hd : isDone delivered
    · rw [readChunks_of_done hd, deliver_of_done hd]
      exact ⟨rfl, fun h => by simp [hd] at h⟩
    obtain ⟨h1, h2⟩ := readFrames_eq (by simpa using hd) (normalizeHeld (buffer ++ chunk))
    rw [readChunks, if_neg hd, flatten_cons, ← append_assoc, ← normalizeHeld_append (buffer ++ chunk),
      pieces_append (fun u s hu => normalizeHeld_cons hu s) (cr_not_mem_dropLast _), deliver_append, ← h1]
    have hheld := cr_not_mem_dropLast (buffer ++ chunk)
    generalize normalizeHeld (buffer ++ chunk) = m at h2 hheld ⊢
    obtain ⟨htail, hsuf⟩ := cutFrame_tail m
    by_cases hd' : isDone (readFrames isDone delivered m).1
    · rw [readChunks_of_done hd', deliver_of_done hd']
      exact ⟨rfl, fun h => by simp [hd'] at h⟩
    dsimp only
    rw [h2 (by simpa using hd')]
    refine ih (normalizeHeld_of_held fun hmem => hheld ?_) htail
    obtain ⟨p, hp⟩ := hsuf
    rw [← hp, dropLast_append_of_ne_nil fun h => by simp [h] at hmem]
    exact mem_append_right p hmem

/-- What the reader delivers is a function of the text: it does not depend on how the text was cut. -/
theorem readSseStream_chunks (chunks : List JsString) (incomplete : Bool) :
    readSseStream isDone chunks incomplete =
      deliver isDone [] ((pieces (normalizeHeld chunks.flatten)).1 ++
        tailFrames (normalizeNewlines ((pieces (normalizeHeld chunks.flatten)).2 ++ decodeEnd incomplete))) := by
  obtain ⟨h1, h2⟩ := @readChunks_eq isDone [] chunks [] rfl rfl
  rw [nil_append] at h1 h2
  simp only [readSseStream, deliver_append, ← h1]
  by_cases hd : isDone (readChunks isDone [] [] chunks).1
  · rw [deliver_of_done hd]
    exact if_pos hd
  · rw [if_neg hd, ← h2 (by simpa using hd)]
    unfold tailFrames
    split <;> simp [deliver, hd]

theorem cutFrame_of_not_mem {z : JsString} (h : lf ∉ z) : cutFrame z = none := by
  rcases hc : cutFrame z with _ | ⟨f, r⟩
  · rfl
  · exact absurd (by rw [(cutFrame_eq_some hc).1]; simp) h

theorem cutFrame_cons_eq_none {s : JsString} (h : cutFrame (u :: s) = none) :
    ¬ startsWith (u :: s) [lf, lf] ∧ cutFrame s = none := by
  rw [cutFrame] at h
  split at h
  · cases h
  · exact ⟨‹_›, Option.map_eq_none_iff.mp h⟩

theorem not_startsWith {z : JsString} (h : lf ∉ z) : ¬ startsWith (u :: z) [lf, lf] := by
  rcases z with _ | ⟨v, z⟩
  · simp [startsWith, List.isPrefixOf]
  · rw [mem_cons, not_or] at h
    simp [startsWith, List.isPrefixOf, h.1]

theorem cutFrame_append {w z : JsString} (hw : cutFrame w = none) (hz : lf ∉ z) : cutFrame (w ++ z) = none := by
  induction w with
  | nil => exact cutFrame_of_not_mem hz
  | cons u w ih =>
    obtain ⟨hu, hw⟩ := cutFrame_cons_eq_none hw
    have hne : ¬ startsWith (u :: (w ++ z)) [lf, lf] := by
      rcases w with _ | ⟨v, w⟩
      · exact not_startsWith hz
      · simpa [startsWith] using hu
    rw [cons_append, cutFrame, if_neg hne, ih hw]
    rfl

theorem cutFrame_newline {w z : JsString} (hw : cutFrame w = none) (hz : lf ∉ z) :
    cutFrame (w ++ lf :: z) = if w.getLast? = some lf then some (w.dropLast, z) else none := by
  have hlf : cutFrame (lf :: z) = none := by simp [cutFrame, not_startsWith hz, cutFrame_of_not_mem hz]
  induction w with
  | nil => exact hlf
  | cons u w ih =>
    obtain ⟨hu, hw⟩ := cutFrame_cons_eq_none hw
    rcases w with _ | ⟨v, w⟩
    · by_cases hul : u = lf
      · simp [cutFrame, startsWith, hul]
      · have hne : ¬ startsWith (u :: lf :: z) [lf, lf] := by simpa [startsWith] using Ne.symm hul
        simp [cutFrame, hne, hul, not_startsWith hz, cutFrame_of_not_mem hz]
    · have hne : ¬ startsWith (u :: v :: (w ++ lf :: z)) [lf, lf] := by simpa [startsWith] using hu
      rw [cons_append, cutFrame, if_neg (by exact hne), ih hw, List.getLast?_cons_cons]
      split <;> rfl

theorem deliver_prefix (frames : List JsString) : delivered <+: deliver isDone delivered frames := by
  induction frames generalizing delivered with
  | nil => exact prefix_refl _
  | cons f fs ih =>
    rw [deliver]
    split
    · exact prefix_refl _
    · exact (prefix_append _ [f]).trans ih

/-- The reader delivers the frames of the uncut text, unless the text ends in a lone carriage return that ends a blank
line: then the last frame is delivered with that blank line, if the predicate does not hold before. -/
theorem readSseStream_eq_iff (isDone : List JsString → Bool) (chunks : List JsString) (incomplete : Bool) :
    readSseStream isDone chunks incomplete = deliver isDone [] (framesOf (chunks.flatten ++ decodeEnd incomplete)) ↔
    ∀ text, chunks.flatten = text ++ [cr] → (pieces (normalizeNewlines text)).2.getLast? = some lf →
    isDone (deliver isDone [] (pieces (normalizeNewlines text)).1) := by
  rw [readSseStream_chunks]
  have hlf : lf ∉ decodeEnd incomplete := by cases incomplete <;> decide
  have hcr : cr ∉ decodeEnd incomplete := by cases incomplete <;> decide
  generalize decodeEnd incomplete = d at hlf hcr ⊢
  generalize chunks.flatten = t
  have hhead : d.head? ≠ some lf := fun h => hlf (List.mem_of_head? h)
  have hd : normalizeNewlines d = d := by simpa [normalizeNewlines] using normalizeNewlines_text hcr []
  have hid {m : JsString} (hm : cr ∉ m) (y : JsString) := pieces_append (g := id) (fun _ _ _ => rfl)
    (fun h => hm ((List.dropLast_subset _) h)) y
  simp only [id] at hid
  by_cases ht : t.getLast? = some cr
  · obtain ⟨x, rfl⟩ : ∃ x, t = x ++ [cr] := List.getLast?_eq_some_iff.mp ht
    have hcrd : normalizeNewlines (cr :: d) = lf :: d := by
      rcases d with _ | ⟨v, d⟩
      · simp [normalizeNewlines]
      · rw [normalizeNewlines, if_pos rfl, if_neg (by simpa using hhead), hd]
    have hspec : normalizeNewlines (x ++ [cr] ++ d) = normalizeNewlines x ++ lf :: d := by
      rw [List.append_assoc, List.singleton_append, normalizeNewlines_append x (by simp [cr, lf]), hcrd]
    have hN := cr_not_mem_normalizeNewlines x
    obtain ⟨hw, hsuf⟩ := cutFrame_tail (normalizeNewlines x)
    have hwcr := fun h => hN (hsuf.subset h)
    rw [framesOf, hspec, normalizeHeld_concat, hid hN, hid hN, pieces_of_none (cutFrame_append hw (by decide)),
      List.append_nil, List.append_assoc _ [cr], normalizeNewlines_text hwcr]
    simp only [List.singleton_append, hcrd, List.append_cancel_right_eq, List.append_assoc, forall_eq',
      deliver_append]
    generalize (pieces (normalizeNewlines x)).2 = w at hw ⊢
    generalize deliver isDone [] (pieces (normalizeNewlines x)).1 = fs
    by_cases hlast : w.getLast? = some lf
    · have hcut : pieces (w ++ lf :: d) = ([w.dropLast], d) := by
        have hsome := cutFrame_newline hw hlf
        rw [if_pos hlast] at hsome
        obtain ⟨heq, hz⟩ := cutFrame_eq_some hsome
        rw [heq, pieces_frame hz, pieces_of_none (cutFrame_of_not_mem hlf)]
      rw [hcut]
      refine ⟨fun h _ => ?_, fun h => by simp only [deliver_of_done (h hlast)]⟩
      by_contra hd'
      have hpre : fs ++ [w.dropLast] <+: deliver isDone fs (tailFrames (w ++ lf :: d)) := by
        rw [h, deliver, if_neg hd']
        exact deliver_prefix _
      unfold tailFrames at hpre
      split at hpre
      · have hlen := hpre.length_le
        simp only [deliver, List.length_append, List.length_singleton] at hlen
        omega
      rw [deliver, if_neg hd', deliver, List.prefix_append_right_inj] at hpre
      have hlen := congrArg List.length (List.singleton_inj.mp (hpre.eq_of_length rfl))
      simp only [List.length_dropLast, List.length_append, List.length_cons] at hlen
      omega
    · rw [pieces_of_none (by rw [cutFrame_newline hw hlf, if_neg hlast])]
      exact iff_of_true rfl fun h => absurd h hlast
  · obtain ⟨hw, hsuf⟩ := cutFrame_tail (normalizeNewlines t)
    have hN := cr_not_mem_normalizeNewlines t
    rw [framesOf, normalizeNewlines_append t hhead, hd, normalizeHeld_of_getLast ht, hid hN,
      pieces_of_none (cutFrame_append hw hlf), normalizeNewlines_text fun h => hN (hsuf.subset h), hd,
        List.append_nil]
    exact iff_of_true rfl fun x hx => by simp [hx] at ht

theorem not_readSseStream_eq : ¬ ∀ (isDone : List JsString → Bool) (chunks : List JsString) (incomplete : Bool),
    readSseStream isDone chunks incomplete =
      deliver isDone [] (framesOf (chunks.flatten ++ decodeEnd incomplete)) := by
  intro h
  have hs := h (fun _ => false) [js "data\n\r"] false
  have h1 : pieces (normalizeHeld [js "data\n\r"].flatten) = ([], js "data\n\r") := pieces_of_none (by decide +kernel)
  revert hs
  decide +kernel

end Wrenyard.Calls
