import Mathlib.Data.List.TakeWhile
import Wrenyard.Js.JsonGarbled
import Wrenyard.Lib.Records

/-!
# Frames of the daemon's connection

A message is one line of JSON (`encodeFrame`).  A decoder is fed chunks; it cuts its buffer at the line feeds and
hands every message to `onMessage` (`FrameDecoder.write`).  A line that is no JSON goes to `onError`; where that is
not given, the loop is left by an exception, and the lines behind it stay in the buffer.

A decoder gives back the messages of a stream exactly if every chunk is well-formed UTF-8, since it decodes each chunk
for itself; and a chunk with an invalid line loses none of its messages exactly if `onError` is given or no message
follows that line (`framing`).
-/

namespace Wrenyard.Control

open Js List

inductive NdjsonChunk where
  | buffer (bytes : List UInt8)
  | text (s : JsString)

def NdjsonChunk.toText : NdjsonChunk → JsString
  | .buffer bytes => decodeUtf8 bytes
  | .text s => s

structure NdjsonFrameError where
  message : JsString
  line : JsString
deriving DecidableEq

def encodeFrame (message : Json) : JsString := Json.stringify message ++ [lf]

def decodeFrame (line : JsString) : Except NdjsonFrameError Json :=
  let text := if line.getLast? = some cr then line.dropLast else line
  match Json.parse text with
  | some message => .ok message
  | none => .error ⟨js "Invalid NDJSON frame", text⟩

structure FrameDecoder where
  buffer : JsString
  /-- The messages of the calls of `onMessage`. -/
  delivered : List Json
  /-- The errors and lines of the calls of `onError`. -/
  reported : List (NdjsonFrameError × JsString)
deriving DecidableEq

def createFrameDecoder : FrameDecoder := ⟨[], [], []⟩

namespace FrameDecoder

/-- One line.  `onError` says whether that callback is given; an error goes through without it. -/
def emitLine (onError : Bool) (line : JsString) (d : FrameDecoder) (messages : List Json) :
    Except NdjsonFrameError (FrameDecoder × List Json) :=
  if trim line = [] then .ok (d, messages)
  else
    match decodeFrame line with
    | .ok message => .ok ({ d with delivered := d.delivered ++ [message] }, messages ++ [message])
    | .error error =>
      if onError then .ok ({ d with reported := d.reported ++ [(error, line)] }, messages) else .error error

/-- The loop over the pieces between the line feeds of the buffer; the last piece stays in it. -/
def emitLines (onError : Bool) : List JsString → FrameDecoder → List Json →
    FrameDecoder × Except NdjsonFrameError (List Json)
  | [], d, messages => (d, .ok messages)
  | [rest], d, messages => ({ d with buffer := rest }, .ok messages)
  | line :: rest, d, messages =>
    match emitLine onError line { d with buffer := unlines rest } messages with
    | .ok (d, messages) => emitLines onError rest d messages
    | .error error => ({ d with buffer := unlines rest }, .error error)

/-- `write(chunk)`: the decoder behind it, and what it returns or throws. -/
def write (onError : Bool) (d : FrameDecoder) (chunk : NdjsonChunk) :
    FrameDecoder × Except NdjsonFrameError (List Json) :=
  emitLines onError (lines (d.buffer ++ chunk.toText)) d []

/-- The chunks of a socket, as its `data` events hand them over. -/
def receive (onError : Bool) (d : FrameDecoder) (chunks : List (List UInt8)) : FrameDecoder :=
  chunks.foldl (fun d bytes => (d.write onError (.buffer bytes)).1) d

end FrameDecoder

/-- The line is neither blank nor a message. -/
def isInvalid (line : JsString) : Bool := trim line ≠ [] && (decodeFrame line).toOption.isNone

def messagesOf (ls : List JsString) : List Json :=
  ls.filterMap fun line => if trim line = [] then none else (decodeFrame line).toOption

def errorsOf (ls : List JsString) : List (NdjsonFrameError × JsString) :=
  ls.filterMap fun line =>
    match decodeFrame line with
    | .ok _ => none
    | .error error => if trim line = [] then none else some (error, line)

def completeLines (d : FrameDecoder) (chunk : NdjsonChunk) : List JsString :=
  (lines (d.buffer ++ chunk.toText)).dropLast

def fromInvalid (ls : List JsString) : List JsString := ls.dropWhile fun line => !isInvalid line

theorem messagesOf_append (ks ls : List JsString) : messagesOf (ks ++ ls) = messagesOf ks ++ messagesOf ls :=
  List.filterMap_append

theorem errorsOf_append (ks ls : List JsString) : errorsOf (ks ++ ls) = errorsOf ks ++ errorsOf ls :=
  List.filterMap_append

namespace FrameDecoder

theorem emitLine_reporting (line : JsString) (d : FrameDecoder) (messages : List Json) :
    emitLine true line d messages =
    .ok (⟨d.buffer, d.delivered ++ messagesOf [line], d.reported ++ errorsOf [line]⟩,
      messages ++ messagesOf [line]) := by
  unfold emitLine messagesOf errorsOf
  by_cases hblank : trim line = []
  · cases hd : decodeFrame line <;> simp [hblank, hd]
  · cases hd : decodeFrame line with
    | ok | error => simp [hblank, hd, Except.toOption]

variable {line : JsString}

theorem emitLine_valid (h : isInvalid line = false) (d : FrameDecoder) (messages : List Json) :
    emitLine false line d messages = emitLine true line d messages := by
  unfold isInvalid at h
  unfold emitLine
  by_cases hblank : trim line = []
  · rw [if_pos hblank, if_pos hblank]
  · cases hd : decodeFrame line with
    | ok message => rfl
    | error error => simp [hblank, hd, Except.toOption] at h

theorem emitLine_invalid (h : isInvalid line = true) : ∃ error, errorsOf [line] = [(error, line)] ∧
    messagesOf [line] = [] ∧ ∀ d messages, emitLine false line d messages = .error error := by
  unfold isInvalid at h
  rw [Bool.and_eq_true] at h
  have hblank : ¬ trim line = [] := by simpa using h.1
  cases hd : decodeFrame line with
  | ok message => simp [hd, Except.toOption] at h
  | error error =>
    refine ⟨error, ?_, ?_, ?_⟩
    · simp [errorsOf, hd, hblank]
    · simp [messagesOf, hd, Except.toOption]
    · intro d messages
      simp [emitLine, hblank, hd]

theorem errorsOf_valid (h : isInvalid line = false) : errorsOf [line] = [] := by
  unfold isInvalid at h
  by_cases hblank : trim line = []
  · cases hd : decodeFrame line <;> simp [errorsOf, hd, hblank]
  · cases hd : decodeFrame line with
    | ok message => simp [errorsOf, hd]
    | error error => simp [hblank, hd, Except.toOption] at h

theorem emitLines_reporting {ls : List JsString} (hne : ls ≠ []) (d : FrameDecoder) (messages : List Json) :
    (emitLines true ls d messages).1 =
    ⟨ls.getLast?.getD [], d.delivered ++ messagesOf ls.dropLast, d.reported ++ errorsOf ls.dropLast⟩ := by
  induction ls generalizing d messages with
  | nil => exact absurd rfl hne
  | cons line ls ih =>
    cases ls with
    | nil => simp [emitLines, messagesOf, errorsOf]
    | cons next ls =>
      rw [emitLines, emitLine_reporting]
      · rw [ih (cons_ne_nil next ls)]
        have hdrop : (line :: next :: ls).dropLast = [line] ++ (next :: ls).dropLast := rfl
        rw [hdrop, messagesOf_append, errorsOf_append, append_assoc, append_assoc,
          List.getLast?_cons_of_ne_nil (cons_ne_nil next ls)]
      · exact cons_ne_nil next ls

theorem emitLines_throwing (ls : List JsString) (d : FrameDecoder) (messages : List Json) :
    (emitLines false ls d messages).1.delivered =
        d.delivered ++ messagesOf (ls.dropLast.takeWhile fun line => !isInvalid line) ∧
      (∀ r ∈ (errorsOf ls.dropLast).head?, (emitLines false ls d messages).2 = .error r.1) ∧
      (errorsOf ls.dropLast = [] → emitLines false ls d messages = emitLines true ls d messages) := by
  induction ls generalizing d messages with
  | nil => simp [emitLines, messagesOf, errorsOf]
  | cons line ls ih =>
    cases ls with
    | nil => simp [emitLines, messagesOf, errorsOf]
    | cons next ls =>
      have hdrop : (line :: next :: ls).dropLast = [line] ++ (next :: ls).dropLast := rfl
      have hcons : (line :: next :: ls).dropLast = line :: (next :: ls).dropLast := rfl
      cases hinvalid : isInvalid line with
      | true =>
        obtain ⟨error, herrors, hmessages, hemit⟩ := emitLine_invalid hinvalid
        have hloop : emitLines false (line :: next :: ls) d messages =
            ({ d with buffer := unlines (next :: ls) }, .error error) := by
          rw [emitLines, hemit]
          exact cons_ne_nil next ls
        rw [hloop, hcons, takeWhile_cons_of_neg (by simp [hinvalid]), ← hcons, hdrop, errorsOf_append, herrors]
        refine ⟨by simp [messagesOf], ?_, fun h => by cases h⟩
        intro r hr
        cases hr
        rfl
      | false =>
        have hloop : ∀ onError, emitLines onError (line :: next :: ls) d messages =
            emitLines onError (next :: ls)
              ⟨unlines (next :: ls), d.delivered ++ messagesOf [line], d.reported ++ errorsOf [line]⟩
              (messages ++ messagesOf [line]) := by
          intro onError
          rw [emitLines]
          · cases onError with
            | true => rw [emitLine_reporting]
            | false => rw [emitLine_valid hinvalid, emitLine_reporting]
          · exact cons_ne_nil next ls
        obtain ⟨h1, h2, h3⟩ := ih ⟨unlines (next :: ls), d.delivered ++ messagesOf [line],
            d.reported ++ errorsOf [line]⟩
          (messages ++ messagesOf [line])
        have herrors : errorsOf (line :: next :: ls).dropLast = errorsOf (next :: ls).dropLast := by
          rw [hdrop, errorsOf_append, errorsOf_valid hinvalid, nil_append]
        rw [hloop, hloop, herrors]
        refine ⟨?_, h2, h3⟩
        rw [h1, hcons, takeWhile_cons_of_pos (by simp [hinvalid]), append_assoc, ← messagesOf_append]
        rfl

theorem write_reporting (d : FrameDecoder) (chunk : NdjsonChunk) :
    (d.write true chunk).1 = ⟨(lines (d.buffer ++ chunk.toText)).getLast?.getD [],
      d.delivered ++ messagesOf (completeLines d chunk), d.reported ++ errorsOf (completeLines d chunk)⟩ :=
  emitLines_reporting (lines_ne_nil _) d []

theorem write_throwing (d : FrameDecoder) (chunk : NdjsonChunk) (h : errorsOf (completeLines d chunk) = []) :
    d.write false chunk = d.write true chunk :=
  (emitLines_throwing (lines (d.buffer ++ chunk.toText)) d []).2.2 h

def output (d : FrameDecoder) : List Json × List (NdjsonFrameError × JsString) := (d.delivered, d.reported)

def consume (out : List Json × List (NdjsonFrameError × JsString)) (line : JsString) :
    List Json × List (NdjsonFrameError × JsString) :=
  (out.1 ++ messagesOf [line], out.2 ++ errorsOf [line])

theorem foldl_consume (ls : List JsString) (out : List Json × List (NdjsonFrameError × JsString)) :
    ls.foldl consume out = (out.1 ++ messagesOf ls, out.2 ++ errorsOf ls) := by
  induction ls generalizing out with
  | nil => simp [messagesOf, errorsOf]
  | cons line ls ih =>
    have hcons : line :: ls = [line] ++ ls := rfl
    rw [foldl_cons, ih, hcons, messagesOf_append, errorsOf_append, consume, append_assoc, append_assoc]

def reader (d : FrameDecoder) : Records.Reader UInt16 (List Json × List (NdjsonFrameError × JsString)) :=
  ⟨d.buffer, d.output⟩

theorem reader_write (d : FrameDecoder) (chunk : NdjsonChunk) :
    (d.write true chunk).1.reader = Records.feed lf consume d.reader chunk.toText := by
  rw [write_reporting, Records.feed, foldl_consume]
  rfl

variable (chunks : List (List UInt8))

theorem reader_receive (d : FrameDecoder) (hd : lf ∉ d.buffer) :
    (d.receive true chunks).reader = Records.feed lf consume d.reader (decodeChunks chunks) := by
  induction chunks generalizing d with
  | nil => exact (Records.feed_nil (r := d.reader) hd).symm
  | cons bytes chunks ih =>
    have hfirst := reader_write d (.buffer bytes)
    have hnext : lf ∉ (Records.feed lf consume d.reader (NdjsonChunk.buffer bytes).toText).buffer :=
      Records.not_mem_buffer_feed _ hd
    rw [← hfirst] at hnext
    have hreceive : d.receive true (bytes :: chunks) = (d.write true (.buffer bytes)).1.receive true chunks := rfl
    rw [hreceive, ih _ hnext, hfirst, Records.feed_append (r := d.reader) _ _ hd, decodeChunks_cons]
    rfl

theorem reported_receive (d : FrameDecoder) :
    ∃ more, (d.receive true chunks).reported = d.reported ++ more := by
  induction chunks generalizing d with
  | nil => exact ⟨[], by rw [append_nil]; rfl⟩
  | cons bytes chunks ih =>
    obtain ⟨more, hmore⟩ := ih (d.write true (.buffer bytes)).1
    have hreceive : d.receive true (bytes :: chunks) = (d.write true (.buffer bytes)).1.receive true chunks := rfl
    rw [hreceive, hmore, write_reporting, append_assoc]
    exact ⟨_, rfl⟩

theorem receive_throwing (d : FrameDecoder)
    (h : (d.receive true chunks).reported = d.reported) : d.receive false chunks = d.receive true chunks := by
  induction chunks generalizing d with
  | nil => rfl
  | cons bytes chunks ih =>
    have hreceive : ∀ onError, d.receive onError (bytes :: chunks) =
        (d.write onError (.buffer bytes)).1.receive onError chunks := fun onError => rfl
    obtain ⟨more, hmore⟩ := reported_receive chunks (d.write true (.buffer bytes)).1
    have hwrite := write_reporting d (.buffer bytes)
    rw [hreceive, hmore, hwrite, append_assoc, append_right_eq_self, append_eq_nil_iff] at h
    rw [hreceive, hreceive, write_throwing d (.buffer bytes) h.1]
    apply ih
    rw [hmore, h.2, append_nil]

end FrameDecoder

theorem lines_frames (messages : List Json) :
    lines (messages.flatMap encodeFrame) = messages.map Json.stringify ++ [[]] :=
  lines_flatMap Json.lf_not_mem_stringify messages

theorem decodeFrame_stringify (message : Json) :
    trim (Json.stringify message) ≠ [] ∧ decodeFrame (Json.stringify message) = .ok message.merged := by
  constructor
  · intro hblank
    obtain ⟨u, hu, hspace⟩ := Json.exists_not_isSpace_stringify message
    have hall : (Json.stringify message).dropWhile isSpace = [] := by
      by_contra hne
      have hhead := List.head?_dropWhile_not isSpace (Json.stringify message)
      obtain ⟨v, r, hr⟩ := exists_cons_of_ne_nil hne
      rw [hr] at hhead
      have hv : isSpace v = false := by simpa using hhead
      unfold trim at hblank
      rw [hr, reverse_eq_nil_iff, dropWhile_eq_nil_iff] at hblank
      have := hblank v (by simp)
      rw [hv] at this
      cases this
    rw [dropWhile_eq_nil_iff] at hall
    rw [hall u hu] at hspace
    cases hspace
  · have hcr : (Json.stringify message).getLast? ≠ some cr :=
      fun h => Json.cr_not_mem_stringify message (mem_of_getLast? h)
    unfold decodeFrame
    rw [if_neg hcr]
    simp only [Json.parse_stringify_merged]

theorem messagesOf_frames (messages : List Json) :
    messagesOf (messages.map Json.stringify) = messages.map Json.merged ∧
    errorsOf (messages.map Json.stringify) = [] := by
  induction messages with
  | nil => exact ⟨rfl, rfl⟩
  | cons message messages ih =>
    obtain ⟨hblank, hdecode⟩ := decodeFrame_stringify message
    constructor
    · rw [map_cons, messagesOf, filterMap_cons, if_neg hblank, hdecode]
      exact congrArg (message.merged :: ·) ih.1
    · rw [map_cons, errorsOf, filterMap_cons, hdecode]
      exact ih.2

variable {messages : List Json}

theorem receive_frames {chunks : List (List UInt8)} (h : decodeChunks chunks = messages.flatMap encodeFrame)
    (onError : Bool) : createFrameDecoder.receive onError chunks = ⟨[], messages.map Json.merged, []⟩ := by
  have htrue : createFrameDecoder.receive true chunks = ⟨[], messages.map Json.merged, []⟩ := by
    have hreader := FrameDecoder.reader_receive chunks createFrameDecoder not_mem_nil
    have hfeed : Records.feed lf FrameDecoder.consume createFrameDecoder.reader (decodeChunks chunks) =
        ⟨[], (messages.map Json.merged, [])⟩ := by
      have hlines : (decodeChunks chunks).splitOn lf = messages.map Json.stringify ++ [[]] := by
        rw [h]
        exact lines_frames messages
      unfold Records.feed
      simp only [FrameDecoder.reader, createFrameDecoder, FrameDecoder.output, nil_append, hlines,
        dropLast_concat, List.getLast?_concat, Option.getD_some, FrameDecoder.foldl_consume, messagesOf_frames]
    rw [hfeed] at hreader
    generalize createFrameDecoder.receive true chunks = d at hreader
    obtain ⟨buffer, delivered, reported⟩ := d
    simp only [FrameDecoder.reader, FrameDecoder.output, Records.Reader.mk.injEq, Prod.mk.injEq] at hreader
    rw [hreader.1, hreader.2.1, hreader.2.2]
  cases onError with
  | true => exact htrue
  | false =>
    rw [← htrue]
    apply FrameDecoder.receive_throwing
    rw [htrue]
    rfl

theorem garbled_frames (messages : List Json) {t : JsString} (h : Garbled (messages.flatMap encodeFrame) t) :
    ∃ others : List Json, t = others.flatMap encodeFrame ∧ others.map Json.shape = messages.map Json.shape := by
  induction messages generalizing t with
  | nil =>
    rw [Garbled.eq_nil h]
    exact ⟨[], rfl, rfl⟩
  | cons message messages ih =>
    rw [flatMap_cons, encodeFrame, append_assoc] at h
    obtain ⟨other, t₁, rfl, h₁, hshape⟩ := Json.garbled_stringify message h
    obtain ⟨t₂, rfl, h₂⟩ := garbled_literal (a := [lf]) rfl h₁
    obtain ⟨others, rfl, hshapes⟩ := ih h₂
    refine ⟨other :: others, ?_, ?_⟩
    · rw [flatMap_cons, encodeFrame, append_assoc]
    · rw [map_cons, map_cons, hshape, hshapes]

theorem merged_eq_of_shapes {others : List Json} (hs : others.map Json.shape = messages.map Json.shape)
    (h : others.map Json.merged = messages) : others = messages := by
  induction others generalizing messages with
  | nil => exact h
  | cons other others ih =>
    rw [map_cons] at h
    subst h
    rw [map_cons, map_cons, List.cons.injEq] at hs
    rw [← Json.merged_eq_of_shape hs.1 rfl, ← ih hs.2 rfl]

theorem map_merged_of_distinct (h : ∀ m ∈ messages, m.distinct = true) : messages.map Json.merged = messages :=
  (List.map_congr_left fun m hm => Json.merged_of_distinct m (h m hm)).trans (List.map_id messages)

theorem isWellFormed_frames (messages : List Json) : isWellFormed (messages.flatMap encodeFrame) = true := by
  induction messages with
  | nil => rfl
  | cons message messages ih =>
    rw [flatMap_cons, encodeFrame, append_assoc]
    exact Json.isWellFormed_append (Json.isWellFormed_stringify message) (Json.isWellFormed_append (s := [lf]) rfl ih)

/-- The messages of a stream come out in order, and nothing is left over. -/
def Delivers (onError : Bool) (messages : List JsonValue) (chunks : List (List UInt8)) : Prop :=
  (createFrameDecoder.receive onError chunks).delivered = messages.map Subtype.val ∧
    (createFrameDecoder.receive onError chunks).buffer = []

def Keeps (onError : Bool) (d : FrameDecoder) (chunk : NdjsonChunk) : Prop :=
  (d.write onError chunk).1.delivered = d.delivered ++ messagesOf (completeLines d chunk) ∧
    ∀ r ∈ (errorsOf (completeLines d chunk)).head?,
      r ∈ (d.write onError chunk).1.reported ∨ (d.write onError chunk).2 = .error r.1

instance instDecidableDelivers (onError : Bool) (messages : List JsonValue) (chunks : List (List UInt8)) :
    Decidable (Delivers onError messages chunks) := inferInstanceAs (Decidable (_ ∧ _))

theorem delivers_iff {messages : List JsonValue} {chunks : List (List UInt8)}
    (h : chunks.flatten = encodeUtf8 ((messages.map Subtype.val).flatMap encodeFrame)) (onError : Bool) :
    Delivers onError messages chunks ↔ ∀ chunk ∈ chunks, isUtf8 chunk = true := by
  have hwell := isWellFormed_frames (messages.map Subtype.val)
  have hdistinct : ∀ m ∈ messages.map Subtype.val, Json.distinct m = true := by
    intro m hm
    obtain ⟨v, -, rfl⟩ := mem_map.1 hm
    exact v.property
  constructor
  · rintro ⟨hdelivered, -⟩
    obtain ⟨others, hothers, hshapes⟩ := garbled_frames _ (garbled_decodeChunks hwell h)
    rw [receive_frames hothers] at hdelivered
    rw [merged_eq_of_shapes hshapes hdelivered] at hothers
    exact (decodeChunks_eq_iff hwell h).1 hothers
  · intro hvalid
    have hreceive := receive_frames ((decodeChunks_eq_iff hwell h).2 hvalid) onError
    rw [map_merged_of_distinct hdistinct] at hreceive
    unfold Delivers
    rw [hreceive]
    exact ⟨rfl, rfl⟩

theorem messagesOf_takeWhile (ls : List JsString) :
    messagesOf ls = messagesOf (ls.takeWhile fun line => !isInvalid line) ++ messagesOf (fromInvalid ls) := by
  rw [← messagesOf_append, fromInvalid, takeWhile_append_dropWhile]

theorem keeps_iff (onError : Bool) (d : FrameDecoder) (chunk : NdjsonChunk) :
    Keeps onError d chunk ↔ onError = true ∨ messagesOf (fromInvalid (completeLines d chunk)) = [] := by
  cases onError with
  | true =>
    refine ⟨fun _ => .inl rfl, fun _ => ⟨?_, ?_⟩⟩
    · rw [FrameDecoder.write_reporting]
    · intro r hr
      rw [FrameDecoder.write_reporting]
      exact .inl (mem_append_right _ (mem_of_mem_head? hr))
  | false =>
    obtain ⟨hdelivered, hthrown, -⟩ := FrameDecoder.emitLines_throwing (lines (d.buffer ++ chunk.toText)) d []
    have hdelivered' : (d.write false chunk).1.delivered =
        d.delivered ++ messagesOf ((completeLines d chunk).takeWhile fun line => !isInvalid line) := hdelivered
    have hkept : (d.write false chunk).1.delivered = d.delivered ++ messagesOf (completeLines d chunk) ↔
        messagesOf (fromInvalid (completeLines d chunk)) = [] := by
      rw [hdelivered', messagesOf_takeWhile (completeLines d chunk), append_cancel_left_eq,
        self_eq_append_right]
    constructor
    · rintro ⟨h, -⟩
      exact .inr (hkept.1 h)
    · rintro (h | h)
      · cases h
      · exact ⟨hkept.2 h, fun r hr => .inr (hthrown r hr)⟩

/-- A stream is delivered exactly if every chunk is well-formed UTF-8, so that no cut falls inside a character.  An
invalid line costs no message of its chunk exactly if `onError` is given or no message follows it. -/
theorem framing {messages : List JsonValue} {chunks : List (List UInt8)}
    (h : chunks.flatten = encodeUtf8 ((messages.map Subtype.val).flatMap encodeFrame)) (onError : Bool) :
    (Delivers onError messages chunks ↔ ∀ chunk ∈ chunks, isUtf8 chunk = true) ∧
    ∀ (d : FrameDecoder) (chunk : NdjsonChunk), Keeps onError d chunk ↔ onError = true ∨
    messagesOf (fromInvalid (completeLines d chunk)) = [] :=
  ⟨delivers_iff h onError, keeps_iff onError⟩

/-- A message with one character of two bytes. -/
def accented : JsonValue := ⟨.str [0xE9], rfl⟩

theorem framing_accented : [[0x22, 0xC3, 0xA9], [0x22, 0x0A]].flatten =
    encodeUtf8 (([accented].map Subtype.val).flatMap encodeFrame) ∧
    Delivers false [accented] [[0x22, 0xC3, 0xA9], [0x22, 0x0A]] :=
  ⟨by decide, (framing (by decide) false).1.2 (by decide)⟩

/-- The bytes of the character in two chunks: two U+FFFD are delivered.  A message behind an invalid line of its chunk
is not delivered with it. -/
theorem cut_character : [[0x22, 0xC3], [0xA9, 0x22, 0x0A]].flatten =
    encodeUtf8 (([accented].map Subtype.val).flatMap encodeFrame) ∧
    (createFrameDecoder.receive false [[0x22, 0xC3], [0xA9, 0x22, 0x0A]]).delivered = [.str [0xFFFD, 0xFFFD]] ∧
    ¬ Delivers false [accented] [[0x22, 0xC3], [0xA9, 0x22, 0x0A]] ∧
    (createFrameDecoder.write false (.text [0x78, lf, 0x31, lf])).1 = ⟨[0x31, lf], [], []⟩ ∧
    ¬ Keeps false createFrameDecoder (.text [0x78, lf, 0x31, lf]) := by
  refine ⟨by decide, by decide, by decide, by decide, ?_⟩
  rintro ⟨h, -⟩
  exact absurd h (by decide)

end Wrenyard.Control
