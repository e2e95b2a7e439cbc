import Wrenyard.Lib.Framing
import Wrenyard.Session.Reload

/-!
# The timeline file

A session's timeline is a file of JSON lines.  `parseSessionFile` reads it back byte by byte; the only thing it
tolerates is a last line without its newline, whose offset it reports so that the caller can truncate it.

Cutting a timeline at any byte leaves the events whose line is complete (`parseSessionFile_take`).
-/

namespace Wrenyard.Session

open Js Framing List

/-- One line of the timeline, without its newline. -/
def lineOf (o : EventObject) : List UInt8 := encodeUtf8 (Json.stringify (.obj o.members))

def timelineBytes (os : List EventObject) : List UInt8 := frame 10 lineOf os

def parseEventLine (file : JsString) (offset : Nat) (line : JsString) : Except JsString Rec :=
  let invalid := js "session ledger has an invalid event at " ++ file ++ js " byte " ++ natText offset
  match Json.parse line with
  | none =>
    .error (js "session ledger is corrupt at " ++ file ++ js " byte " ++ natText offset ++
      js "; refusing to discard it")
  | some (.obj event) =>
    if isNumber (OMap.get event (js "seq")) && isString (OMap.get event (js "at")) &&
        isString (OMap.get event (js "type")) then
      .ok event
    else .error invalid
  | some _ => .error invalid

section

variable (dateParse : JsString → Option Int) (file : JsString)

/-- The scan of `parseSessionFile`: `offset` is where the current line starts and `line` its bytes so far. -/
def scanLines (offset : Nat) (line : List UInt8) : List UInt8 → Except JsString (List Rec × Option Nat)
  | [] => .ok ([], if line = [] then none else some offset)
  | b :: rest =>
    if b ≠ 10 then scanLines offset (line ++ [b]) rest
    else
      let text := stripCr (decodeUtf8 line)
      if trim text = [] then scanLines (offset + line.length + 1) [] rest
      else do
        let event ← parseEventLine file offset text
        let (events, tornFrom) ← scanLines (offset + line.length + 1) [] rest
        return (normalizeStoredEvent dateParse event :: events, tornFrom)

/-- Parse a timeline, dropping only a torn (newline-less) final fragment. -/
def parseSessionFile (buffer : List UInt8) : Except JsString (List Rec × Option Nat) :=
  scanLines dateParse file 0 [] buffer

end

def previousSeq (events : List Rec) : Nat :=
  match events.getLast? with
  | some event => (number (event.get (js "seq"))).whole
  | none => 0

theorem newline_not_mem_lineOf (o : EventObject) : (10 : UInt8) ∉ lineOf o :=
  lf_not_mem_encodeUtf8 (Json.lf_not_mem_stringify _)

theorem decode_lineOf (o : EventObject) : decodeUtf8 (lineOf o) = Json.stringify (.obj o.members) :=
  decodeUtf8_encodeUtf8 (Json.isWellFormed_stringify _)

private theorem stripCr_stringify (ms : Rec) : stripCr (Json.stringify (.obj ms)) = Json.stringify (.obj ms) := by
  obtain ⟨t, ht⟩ := Json.stringify_obj_braces ms
  rw [stripCr, ht, if_neg]
  rw [← cons_append, List.getLast?_concat]
  decide

private theorem trim_stringify_ne_nil (ms : Rec) : trim (Json.stringify (.obj ms)) ≠ [] := by
  obtain ⟨t, ht⟩ := Json.stringify_obj_braces ms
  have hdrop : (123 :: (t ++ [125])).dropWhile isSpace = 123 :: (t ++ [125]) :=
    dropWhile_cons_of_neg (by decide)
  rw [trim, ht, hdrop, ← cons_append, reverse_append, reverse_singleton, singleton_append,
    dropWhile_cons_of_neg (by decide)]
  simp

theorem parseEventLine_stringify (file : JsString) (offset : Nat) (o : EventObject) :
    parseEventLine file offset (Json.stringify (.obj o.members)) = .ok o.members := by
  rw [parseEventLine, o.parse_stringify]
  dsimp only
  rw [o.get_members, o.get_members, o.get_members]
  rfl

variable (dateParse : JsString → Option Int) (file : JsString)

private theorem scanLines_append {bytes : List UInt8} (h : (10 : UInt8) ∉ bytes) (offset : Nat)
    (line rest : List UInt8) :
    scanLines dateParse file offset line (bytes ++ rest) = scanLines dateParse file offset (line ++ bytes) rest := by
  induction bytes generalizing line with
  | nil => simp
  | cons b bytes ih =>
    simp only [mem_cons, not_or] at h
    rw [cons_append, scanLines, if_pos (Ne.symm h.1), ih h.2]
    simp

variable (os : List EventObject)

private theorem scanLines_timeline {torn : List UInt8} (ht : (10 : UInt8) ∉ torn)
    (offset : Nat) :
    scanLines dateParse file offset [] (timelineBytes os ++ torn) =
      .ok (os.map fun o => (o.reload dateParse).members,
        if torn = [] then none else some (offset + (timelineBytes os).length)) := by
  induction os generalizing offset with
  | nil =>
    have h := scanLines_append dateParse file ht offset [] []
    simp only [append_nil, nil_append] at h
    rw [timelineBytes, frame_nil, nil_append, h, scanLines]
    simp
  | cons o os ih =>
    rw [timelineBytes, frame_cons, append_assoc, scanLines_append dateParse file (newline_not_mem_lineOf o),
      nil_append, cons_append, scanLines, if_neg (by simp)]
    rw [decode_lineOf, stripCr_stringify, if_neg (trim_stringify_ne_nil _), parseEventLine_stringify]
    change (do
      let (events, tornFrom) ← scanLines dateParse file (offset + (lineOf o).length + 1) [] (timelineBytes os ++ torn)
      return (normalizeStoredEvent dateParse o.members :: events, tornFrom)) = _
    have hoffset : offset + (lineOf o).length + 1 + (timelineBytes os).length =
        offset + (lineOf o ++ 10 :: frame 10 lineOf os).length := by
      rw [length_append, length_cons, timelineBytes]
      omega
    rw [ih, hoffset]
    rfl

theorem parseSessionFile_append {torn : List UInt8} (ht : (10 : UInt8) ∉ torn) :
    parseSessionFile dateParse file (timelineBytes os ++ torn) =
      .ok (os.map fun o => (o.reload dateParse).members,
        if torn = [] then none else some (timelineBytes os).length) := by
  rw [parseSessionFile, scanLines_timeline dateParse file os ht, Nat.zero_add]

/-- The events whose line, newline included, lies in the first `n` bytes of the timeline. -/
def survivors (os : List EventObject) (n : Nat) : List EventObject := complete lineOf os n

variable (n : Nat)

private theorem take_timelineBytes :
    (timelineBytes os).take n = timelineBytes (survivors os n) ++ fragment lineOf os n := take_frame 10 lineOf os n

/-- A timeline cut at any byte reads as the events whose line is complete, and reports a torn line when there is
one. -/
theorem parseSessionFile_take :
    parseSessionFile dateParse file ((timelineBytes os).take n) =
      .ok ((survivors os n).map fun o => (o.reload dateParse).members,
        if (timelineBytes os).take n = timelineBytes (survivors os n) then none
        else some (timelineBytes (survivors os n)).length) := by
  rw [take_timelineBytes, parseSessionFile_append dateParse file _
    (delimiter_not_mem_fragment newline_not_mem_lineOf os n)]
  simp only [append_right_eq_self]

/-- Truncating at the torn line leaves the lines of the survivors. -/
theorem take_tornFrom :
    ((timelineBytes os).take n).take
      ((if (timelineBytes os).take n = timelineBytes (survivors os n) then none
        else some (timelineBytes (survivors os n)).length).getD ((timelineBytes os).take n).length) =
      timelineBytes (survivors os n) := by
  split
  · rename_i h
    rw [Option.getD_none, take_length, h]
  · rw [Option.getD_some, take_timelineBytes, take_left]

def SameEvents (events : List Rec) (os : List EventObject) : Prop :=
  List.Forall₂ (fun event o => event.Perm o.members) events os

theorem sameEvents_reload_iff :
    SameEvents (os.map fun o => (o.reload dateParse).members) os ↔ ∀ o ∈ os, o.event.recalledInStep = false := by
  unfold SameEvents
  rw [forall₂_map_left_iff, forall₂_same]
  constructor <;> intro h o ho
  · exact (perm_normalize_iff dateParse o).mp ((h o ho).trans o.perm)
  · exact ((perm_normalize_iff dateParse o).mpr (h o ho)).trans o.perm.symm

theorem previousSeq_reload :
    previousSeq (os.map fun o => (o.reload dateParse).members) = (os.getLast?.map fun o => o.event.seq).getD 0 := by
  rw [previousSeq, List.getLast?_map]
  cases os.getLast? with
  | none => rfl
  | some o =>
    have hseq : (o.reload dateParse).members.get (js "seq") = some (.num (.ofNat o.event.seq)) := by
      rw [EventObject.get_members]
      change some (Json.num (.ofNat o.event.reload.seq)) = _
      rw [LedgerEvent.reload_seq]
    dsimp only [Option.map_some]
    rw [hseq]
    rfl

/-- What is expected of a timeline cut after `n` bytes: it reads as the surviving events, unaltered, and reports a
torn line exactly when the cut is inside one; and when that line is truncated and `d` is appended, the file reads as
the survivors and the new event, whose sequence number is one above theirs. -/
def CrashConsistent (os : List EventObject) (n : Nat) (d : DraftObject) (time : JsString) : Prop :=
  ∃ events tornFrom, parseSessionFile dateParse file ((timelineBytes os).take n) = .ok (events, tornFrom) ∧
    SameEvents events (survivors os n) ∧
    tornFrom = (if (timelineBytes os).take n = timelineBytes (survivors os n) then none
      else some (timelineBytes (survivors os n)).length) ∧
    ∃ next events', next = d.stamp (previousSeq events + 1) time ∧
      next.event.seq = ((survivors os n).getLast?.map fun o => o.event.seq).getD 0 + 1 ∧
      parseSessionFile dateParse file
        (((timelineBytes os).take n).take (tornFrom.getD ((timelineBytes os).take n).length) ++
          (lineOf next ++ [10])) =
          .ok (events', none) ∧
      SameEvents events' (survivors os n ++ [next])

/-- The timeline after the truncation and one more append. -/
private theorem parseSessionFile_appended (next : EventObject) :
    parseSessionFile dateParse file (timelineBytes (survivors os n) ++ (lineOf next ++ [10])) =
    .ok ((survivors os n ++ [next]).map fun o => (o.reload dateParse).members, none) := by
  have h := parseSessionFile_append dateParse file (survivors os n ++ [next])
      (show (10 : UInt8) ∉ [] from not_mem_nil)
  rw [append_nil, timelineBytes, frame_append, frame_cons, frame_nil] at h
  exact h

private theorem reads_survivors {os : List EventObject} {n : Nat} {events : List Rec} {tornFrom : Option Nat}
    (h : parseSessionFile dateParse file ((timelineBytes os).take n) = .ok (events, tornFrom)) :
    events = (survivors os n).map fun o => (o.reload dateParse).members := by
  rw [parseSessionFile_take] at h
  exact (congrArg Prod.fst (Except.ok.inj h)).symm

variable {dateParse file} in
theorem CrashConsistent.survivors_unaltered {os : List EventObject} {n : Nat} {d : DraftObject} {time : JsString}
    (h : CrashConsistent dateParse file os n d time) : ∀ o ∈ survivors os n, o.event.recalledInStep = false := by
  obtain ⟨events, tornFrom, hparse, hsame, -⟩ := h
  rw [reads_survivors dateParse file hparse, sameEvents_reload_iff] at hsame
  exact hsame

/-- A crash at any byte is recovered from, unless a surviving event or the next one is a recalled memory that carries
a step. -/
theorem crashConsistent_iff (os : List EventObject) (n : Nat) (d : DraftObject) (time : JsString) :
    CrashConsistent dateParse file os n d time ↔ (∀ o ∈ survivors os n, o.event.recalledInStep = false) ∧
    d.draft.recalledInStep = false := by
  have hdraft (seq : Nat) : (d.stamp seq time).event.recalledInStep = d.draft.recalledInStep := rfl
  constructor
  · intro h
    refine ⟨h.survivors_unaltered, ?_⟩
    obtain ⟨events, tornFrom, -, -, htorn, next, events', hnext, -, hparse, hsame⟩ := h
    rw [htorn, take_tornFrom, parseSessionFile_appended] at hparse
    have hevents := congrArg Prod.fst (Except.ok.inj hparse)
    dsimp only at hevents
    rw [← hevents, sameEvents_reload_iff] at hsame
    rw [← hdraft, ← hnext]
    exact hsame next (by simp)
  · rintro ⟨hold, hnew⟩
    let next := d.stamp (previousSeq ((survivors os n).map fun o => (o.reload dateParse).members) + 1) time
    refine ⟨_, _, parseSessionFile_take dateParse file os n, (sameEvents_reload_iff dateParse _).mpr hold, rfl,
      next, (survivors os n ++ [next]).map fun o => (o.reload dateParse).members, rfl, ?_, ?_, ?_⟩
    · exact congrArg (· + 1) (previousSeq_reload dateParse _)
    · rw [take_tornFrom, parseSessionFile_appended]
    · rw [sameEvents_reload_iff]
      intro o ho
      rw [List.mem_append, List.mem_singleton] at ho
      rcases ho with ho | rfl
      · exact hold o ho
      · rw [hdraft, hnew]

/-- The whole timeline of one recalled memory does not come back as it was written. -/
theorem stepRecall_not_crashConsistent :
    ¬ ∀ (dateParse : JsString → Option Int) (file : JsString) (os : List EventObject) (n : Nat) (d : DraftObject)
      (time : JsString), CrashConsistent dateParse file os n d time := by
  intro h
  have hc := h (fun _ => none) [] [.ofEvent stepRecall] ((lineOf (.ofEvent stepRecall)).length + 1)
    ⟨stepRecall.toLedgerEventDraft, _, List.Perm.refl _⟩ []
  have hs := hc.survivors_unaltered (EventObject.ofEvent stepRecall) (by simp [survivors, complete])
  exact absurd hs (by decide)

end Wrenyard.Session
