import Wrenyard.Js.Text
import Wrenyard.Lib.Records

/-!
# Reading server-sent events

The gateway reads the `data` lines of a stream with one regular expression, in two places: `SseDataReader` feeds the
observer of a response, chunk by chunk, and `frameData` reads one frame that is about to be relayed.  What the reader
hands out is a function of the text it was fed, the payloads of its complete events (`handed_feed_start`).
-/

namespace Wrenyard.Gateway

open Js

/-- `line.slice(5)` without the one white space that `\s?` takes. -/
def skipOneSpace : JsString → JsString
  | [] => []
  | u :: s => if isSpace u then s else u :: s

/-- `/^data:\s?(.*)$/u.exec(line)`.  Giving the white space back never helps the rest to match. -/
def dataField (line : JsString) : Option JsString :=
  if startsWith line (js "data:") then
    if (skipOneSpace (line.drop 5)).any isLineTerminator then none else some (skipOneSpace (line.drop 5))
  else none

def joinData (dataLines : List JsString) : Option JsString := if dataLines = [] then none
    else some (unlines dataLines)

/-- The joined `data` payload of one complete frame. -/
def frameData (frame : JsString) : Option JsString :=
  joinData ((lines frame).filterMap fun line => dataField (stripCr line))

section Reader

variable {σ : Type}

structure OpenEvent (σ : Type) where
  dataLines : List JsString
  handed : σ

/-- The reader, with the state behind its `onData`. -/
abbrev SseDataReader (σ : Type) := Records.Reader UInt16 (OpenEvent σ)

variable (onData : σ → JsString → σ)

def flush (e : OpenEvent σ) : OpenEvent σ :=
  match joinData e.dataLines with
  | none => e
  | some payload => ⟨[], onData e.handed payload⟩

def consumeLine (e : OpenEvent σ) (raw : JsString) : OpenEvent σ :=
  if stripCr raw = [] then flush onData e
  else if startsWith (stripCr raw) [58] then e
  else
    match dataField (stripCr raw) with
    | some data => { e with dataLines := e.dataLines ++ [data] }
    | none => e

namespace SseDataReader

def start (s : σ) : SseDataReader σ := ⟨[], ⟨[], s⟩⟩

def feed (r : SseDataReader σ) (chunk : JsString) : SseDataReader σ := Records.feed lf (consumeLine onData) r chunk

/-- `reader.end()`: a trailing line and an event left open are read to their end. -/
def atEnd (r : SseDataReader σ) : SseDataReader σ :=
  ⟨[], flush onData (if r.buffer = [] then r.state else consumeLine onData r.state r.buffer)⟩

end SseDataReader

end Reader

def completeLines (text : JsString) : List JsString := (lines text).dropLast.map stripCr

def completeBlocks (text : JsString) : List (List JsString) := ((completeLines text).splitOn []).dropLast

def blockData (block : List JsString) : Option JsString := joinData (block.filterMap dataField)

def payloadsOf (text : JsString) : List JsString := (completeBlocks text).filterMap blockData

section Reader

variable {σ : Type} {onData : σ → JsString → σ}

def consumeBlock (onData : σ → JsString → σ) (s : σ) (block : List JsString) : σ :=
  match blockData block with
  | none => s
  | some payload => onData s payload

theorem foldl_consumeBlock (blocks : List (List JsString)) (s : σ) :
    blocks.foldl (consumeBlock onData) s = (blocks.filterMap blockData).foldl onData s := by
  induction blocks generalizing s with
  | nil => rfl
  | cons block blocks ih =>
    rw [List.foldl_cons, ih, consumeBlock]
    cases h : blockData block with
    | none => rw [List.filterMap_cons_none h]
    | some payload => rw [List.filterMap_cons_some h, List.foldl_cons]

theorem dataField_of_comment {line : JsString} (h : startsWith line [58] = true) : dataField line = none := by
  have hno : startsWith line (js "data:") = false := by
    cases line with
    | nil => rfl
    | cons u line =>
      have hu : (58 : UInt16) = u := by simpa [startsWith] using h
      subst hu
      rfl
  rw [dataField, hno]
  rfl

def openEventOf (r : Records.Reader JsString σ) : OpenEvent σ := ⟨r.buffer.filterMap dataField, r.state⟩

private theorem flush_openEventOf (r : Records.Reader JsString σ) :
    flush onData (openEventOf r) = ⟨[], consumeBlock onData r.state r.buffer⟩ := by
  have hdata : joinData (openEventOf r).dataLines = blockData r.buffer := rfl
  rw [flush, consumeBlock, hdata]
  cases h : blockData r.buffer with
  | none =>
    have hnil : r.buffer.filterMap dataField = [] := by
      by_contra hne
      rw [blockData, joinData, if_neg hne] at h
      cases h
    simp [openEventOf, hnil]
  | some payload => rfl

theorem consumeLine_openEventOf (r : Records.Reader JsString σ) (raw : JsString) :
    consumeLine onData (openEventOf r) raw = openEventOf (Records.push [] (consumeBlock onData) r (stripCr raw)) := by
  rw [consumeLine]
  split
  · rename_i hblank
    rw [hblank, Records.push_delimiter, flush_openEventOf]
    rfl
  rename_i hblank
  rw [Records.push_of_ne hblank]
  split
  · rename_i hcomment
    simp [openEventOf, dataField_of_comment hcomment]
  · cases h : dataField (stripCr raw) with
    | none | some => simp [openEventOf, h]

private theorem foldl_consumeLine (raws : List JsString) (r : Records.Reader JsString σ) :
    raws.foldl (consumeLine onData) (openEventOf r) =
    openEventOf ((raws.map stripCr).foldl (Records.push [] (consumeBlock onData)) r) := by
  induction raws generalizing r with
  | nil => rfl
  | cons raw raws ih => rw [List.foldl_cons, consumeLine_openEventOf, ih, List.map_cons, List.foldl_cons]

theorem handed_feed_start (s : σ) (text : JsString) :
    ((SseDataReader.start s).feed onData text).state.handed = (payloadsOf text).foldl onData s := by
  have hstart : (⟨[], s⟩ : OpenEvent σ) = openEventOf ⟨[], s⟩ := rfl
  have hbuffer : ([] : JsString) ∉ (⟨[], s⟩ : Records.Reader JsString σ).buffer := by simp
  have hlines : ((SseDataReader.start s).feed onData text).state =
      (lines text).dropLast.foldl (consumeLine onData) ⟨[], s⟩ := rfl
  rw [hlines, hstart, foldl_consumeLine, ← Records.feed_eq_foldl _ hbuffer, payloadsOf, ← foldl_consumeBlock]
  rfl

namespace SseDataReader

variable {r : SseDataReader σ}

theorem lf_not_mem_feed (h : lf ∉ r.buffer) (chunk : JsString) :
    lf ∉ (r.feed onData chunk).buffer := Records.not_mem_buffer_feed chunk h

theorem feed_append (h : lf ∉ r.buffer) (xs ys : JsString) :
    (r.feed onData xs).feed onData ys = r.feed onData (xs ++ ys) := Records.feed_append xs ys h

theorem feed_nil (h : lf ∉ r.buffer) : r.feed onData [] = r := Records.feed_nil h

theorem atEnd_of_empty (hb : r.buffer = []) (hd : r.state.dataLines = []) :
    r.atEnd onData = r := by
  obtain ⟨buffer, dataLines, handed⟩ := r
  subst hb hd
  rfl

theorem empty_of_handed_ne (h : lf ∉ r.buffer) {u : UInt16}
    (hne : (r.feed onData [u]).state.handed ≠ r.state.handed) :
    u = lf ∧ stripCr r.buffer = [] ∧ (r.feed onData [u]).buffer = [] ∧ (r.feed onData [u]).state.dataLines = [] := by
  have hpush : r.feed onData [u] = Records.push lf (consumeLine onData) r u := by
    rw [feed, Records.feed_eq_foldl [u] h]
    rfl
  rw [hpush] at hne ⊢
  by_cases hu : u = lf
  · subst hu
    rw [Records.push_delimiter] at hne ⊢
    by_cases hblank : stripCr r.buffer = []
    · refine ⟨rfl, hblank, rfl, ?_⟩
      rw [consumeLine, if_pos hblank, flush] at hne ⊢
      cases hj : joinData r.state.dataLines with
      | none => rw [hj] at hne; exact absurd rfl hne
      | some payload => rfl
    · rw [consumeLine, if_neg hblank] at hne
      split at hne
      · exact absurd rfl hne
      · split at hne <;> exact absurd rfl hne
  · rw [Records.push_of_ne hu] at hne
    exact absurd rfl hne

end SseDataReader

end Reader

end Wrenyard.Gateway
