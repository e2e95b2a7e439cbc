import Wrenyard.Lib.Assembly
import Wrenyard.Session.PromptIndex

/-!
# The reasoning context as a stream of items

`renderReasonContext` gathers record texts in a string buffer.  Here the same request is assembled from items that
keep their source: which event a record text renders, which occurrence a tool call replays, and which result a tool
message delivers.  Forgetting the sources gives back the request (`renderReasonContext_eq`), so the order and the
number of things in the request can be read off the items.
-/

namespace Wrenyard.Session

open Js Assembly List

/-- The record text of the event number `index`. -/
structure EventRecord where
  index : Nat
  text : JsString

inductive SourcedPart where
  | text (records : List EventRecord)
  | imageUrl (url : JsString)

inductive SourcedMessage where
  | user (content : List SourcedPart)
  | assistant (content : JsString) (toolCalls : List (StartOccurrence × ToolCall))
  /-- The answer to the call of `start`: the result `finish`, or that the action is running. -/
  | tool (start : StartOccurrence) (finish : Option FinishOccurrence) (content : JsString)

def SourcedPart.erase : SourcedPart → ModelContentPart
  | .text records => .text (unlines (records.map (·.text)) ++ [lf])
  | .imageUrl url => .imageUrl url

def SourcedMessage.erase : SourcedMessage → ModelMessage
  | .user content => .user (content.map SourcedPart.erase)
  | .assistant content toolCalls => .assistant content (toolCalls.map Prod.snd)
  | .tool start _ content => .tool start.callId content

abbrev EmittedItem := Item EventRecord SourcedPart SourcedMessage

def Occurrences.deliveredBy (o : Occurrences) (start : StartOccurrence) : Option FinishOccurrence :=
  if o.arrivedLate start then none else o.finishFor start

/-- The occurrences a reasoning output of the step replays as tool calls. -/
def Occurrences.callsOf (o : Occurrences) (key : JsString) : List StartOccurrence := o.starts.filter (·.key == key)

section

variable (encodeLength : JsString → Nat) (images : JsString → Option JsString) (floor : Option Nat)

def recordOf (index : Nat) (event : LedgerEvent) : EmittedItem :=
  .record ⟨index, (render encodeLength floor event).getD []⟩

def answerOf (o : Occurrences) (start : StartOccurrence) : SourcedMessage :=
  .tool start (o.deliveredBy start) (toolResult encodeLength floor o start)

def outputOf (o : Occurrences) (event : LedgerEvent) (r : ReasoningCompletedEvent) : SourcedMessage :=
  let reduced := isReduced floor event
  .assistant
    (if reduced then cutReleasedChars r.text REDUCED_TEXT_LIMIT REDUCED_TEXT_HEAD REDUCED_TEXT_TAIL else r.text)
    ((o.callsOf event.key).map fun start => (start, toolCallOf reduced start))

theorem toolResult_eq (o : Occurrences) (start : StartOccurrence) :
    toolResult encodeLength floor o start =
      match o.deliveredBy start with
      | none => ACTION_RUNNING
      | some finish => actionResultText encodeLength finish.finished (isReduced floor finish.event) := by
  unfold toolResult Occurrences.deliveredBy
  cases o.finishFor start with
  | none => rw [ite_self]
  | some finish => cases o.arrivedLate start <;> rfl

def emit (o : Occurrences) (index : Nat) (event : LedgerEvent) : List EmittedItem :=
  match event.body with
  | .filesAttached f =>
    if isReduced floor event then [recordOf encodeLength floor index event]
    else .record ⟨index, renderFiles event f⟩ :: (f.files.filterMap (imageOf images)).map (.part ∘ .imageUrl)
  | .reasoningThinking _ => []
  | .actionStarted _ => if (o.startAt index).any o.isNative then [] else [recordOf encodeLength floor index event]
  | .reasoningCompleted r =>
    if r.text = [] ∧ o.callsOf event.key = [] then []
    else
      .close :: .message (outputOf floor o event r) ::
        (o.callsOf event.key).map (.message ∘ answerOf encodeLength floor o)
  | .actionFinished f =>
    if f.afterInterrupt = some true then []
    else if (o.startFor index).any fun start => o.isNative start && !o.arrivedLate start then []
    else [recordOf encodeLength floor index event]
  | .stepStarted _ => [recordOf encodeLength floor index event, .close]
  | .contextCompacted c => [.record ⟨index, renderCompactionBlock c⟩]
  | _ => ((render encodeLength floor event).map fun text => .record ⟨index, text⟩).toList

def emitFrom (o : Occurrences) : Nat → List LedgerEvent → List EmittedItem
  | _, [] => []
  | index, event :: events => emit encodeLength images floor o index event ++ emitFrom o (index + 1) events

end

def sourcedReasonContext (encodeLength : JsString → Nat) (images : JsString → Option JsString)
    (allowImages : Option Bool) (events : List LedgerEvent) : List SourcedMessage :=
  let images := if allowImages = some false then fun _ => none else images
  let o := Occurrences.ofEvents (contextEvents events)
  assemble .text .user (emitFrom encodeLength images (reducedFloor events) o 0 (contextEvents events))

private theorem tag_ne_nil (name : String) (attributes : List Attribute) (body : Option JsString) :
    tag name attributes body ≠ [] := by
  unfold tag
  have hopen : js "<" = [60] := rfl
  cases body <;> simp [hopen]

private theorem unlines_cons_ne_nil {line : JsString} (h : line ≠ []) (rest : List JsString) :
    unlines (line :: rest) ≠ [] := by
  unfold unlines
  cases rest with
  | nil => simpa using h
  | cons next rest => simp [intercalate_cons_cons]

private theorem filesRecord_ne_nil (e : LedgerEvent) (f : FilesAttachedEvent) (body : List JsString) :
    filesRecord e f body ≠ [] := unlines_cons_ne_nil (tag_ne_nil _ _ _) _

private theorem docContentRecord_ne_nil (e : LedgerEvent) (d : DocumentContentEvent) (body : JsString) :
    docContentRecord e d body ≠ [] := by
  exact tag_ne_nil _ _ _

private theorem renderEventText_ne_nil {encodeLength : JsString → Nat} {reduced : Bool} {e : LedgerEvent}
    {text : JsString} (h : renderEventText encodeLength reduced e = some text) : text ≠ [] := by
  unfold renderEventText at h
  split at h <;> try (cases h; exact tag_ne_nil _ _ _)
  · -- `document.found`
    cases h
    split
    all_goals exact unlines_cons_ne_nil (tag_ne_nil _ _ _) _
  · -- `document.content`
    cases h
    split
    all_goals exact docContentRecord_ne_nil _ _ _
  · -- `files.attached`
    cases h
    split
    all_goals exact filesRecord_ne_nil _ _ _
  · -- `action.finished`
    split at h <;> cases h
    exact tag_ne_nil _ _ _
  · -- `system.notice`
    split at h
    · cases h
      exact tag_ne_nil _ _ _
    · split at h <;> cases h
      exact tag_ne_nil _ _ _
    · split at h <;> cases h
      exact tag_ne_nil _ _ _
  · cases h

/-! ### The builder follows the items -/

structure Builds (b : MessageBuilder) (s : State EventRecord SourcedPart SourcedMessage) : Prop where
  messages : b.messages = s.messages.map SourcedMessage.erase
  parts : b.parts = s.parts.map SourcedPart.erase
  buffer : b.buffer = unlines (s.records.map (·.text))
  texts : ∀ r ∈ s.records, r.text ≠ []

private theorem unlines_snoc {ls : List JsString} (hne : ls ≠ []) (l : JsString) :
    unlines (ls ++ [l]) = unlines ls ++ [lf] ++ l := by
  induction ls with
  | nil => exact absurd rfl hne
  | cons a ls ih =>
    cases ls with
    | nil => simp [unlines, intercalate_cons_cons]
    | cons b ls =>
      have := ih (cons_ne_nil b ls)
      simp only [unlines, cons_append, intercalate_cons_cons, append_assoc] at this ⊢
      rw [this]

variable {b : MessageBuilder} {s : State EventRecord SourcedPart SourcedMessage}

variable (h : Builds b s)
include h

private theorem Builds.buffer_eq_nil : b.buffer = [] ↔ s.records = [] := by
  rw [h.buffer]
  constructor <;> intro hnil
  · rcases hr : s.records with _ | ⟨r, rest⟩
    · rfl
    · rw [hr, map_cons] at hnil
      have hne := h.texts r (by rw [hr]; exact mem_cons_self ..)
      exact absurd hnil (unlines_cons_ne_nil hne _)
  · rw [hnil]
    rfl

private theorem Builds.pushText {index : Nat} {text : JsString} (ht : text ≠ []) :
    Builds (b.pushText text) (s.step .text .user (.record ⟨index, text⟩)) where
  messages := h.messages
  parts := h.parts
  buffer := by
    change (if b.buffer = [] then text else b.buffer ++ [lf] ++ text) = unlines ((s.records ++ [_]).map _)
    rw [map_append, map_singleton]
    by_cases hr : s.records = []
    · rw [if_pos (h.buffer_eq_nil.2 hr), hr]
      exact intercalate_singleton.symm
    · rw [if_neg (fun hb => hr (h.buffer_eq_nil.1 hb)), unlines_snoc (fun hm => hr (map_eq_nil_iff.1 hm)), h.buffer]
  texts r hr := by
    rcases mem_append.1 hr with hr | hr
    · exact h.texts r hr
    · rw [mem_singleton.1 hr]
      exact ht

private theorem Builds.flushText : Builds b.flushText (s.flush .text) := by
  unfold MessageBuilder.flushText State.flush
  by_cases hr : s.records = []
  · rw [if_pos hr, if_pos (h.buffer_eq_nil.2 hr)]
    exact ⟨h.messages, h.parts, by rw [hr]; rfl, h.texts⟩
  rw [if_neg hr, if_neg (fun hb => hr (h.buffer_eq_nil.1 hb))]
  refine ⟨h.messages, ?_, rfl, fun r hr => by cases hr⟩
  rw [map_append, h.parts, h.buffer]
  rfl

private theorem Builds.endUserMessage : Builds b.endUserMessage (s.step .text .user .close) := by
  have hf := h.flushText
  have hparts : b.flushText.parts = [] ↔ (s.flush .text).parts = [] := by
    rw [hf.parts]
    exact map_eq_nil_iff
  change Builds _ (s.close .text .user)
  unfold MessageBuilder.endUserMessage State.close
  dsimp only
  by_cases hp : (s.flush .text).parts = []
  · rw [if_pos hp, if_pos (hparts.2 hp)]
    exact ⟨hf.messages, by rw [hp]; rfl, hf.buffer, hf.texts⟩
  rw [if_neg hp, if_neg (fun hb => hp (hparts.1 hb))]
  refine ⟨?_, rfl, rfl, fun r hr => by cases hr⟩
  rw [hf.messages, hf.parts, State.flush_messages, map_append]
  rfl

private theorem Builds.pushImage (url : JsString) :
    Builds (b.pushImage url) (s.step .text .user (.part (.imageUrl url))) where
  messages := h.flushText.messages
  parts := by
    change b.flushText.parts ++ [_] = ((s.flush SourcedPart.text).parts ++ [_]).map _
    rw [map_append, h.flushText.parts]
    rfl
  buffer := h.flushText.buffer
  texts := h.flushText.texts

private theorem Builds.push (m : SourcedMessage) : Builds (b.push m.erase) (s.step .text .user (.message m)) where
  messages := by
    change b.messages ++ [_] = (s.messages ++ [_]).map _
    rw [map_append, h.messages]
    rfl
  parts := h.parts
  buffer := h.buffer
  texts := h.texts

omit h

section

variable {encodeLength : JsString → Nat} {images : JsString → Option JsString} {floor : Option Nat} {o : Occurrences}

private theorem Builds.pushRecord (h : Builds b s) {index : Nat} {event : LedgerEvent}
    (hsome : (render encodeLength floor event).isSome = true) :
    Builds (b.pushText ((render encodeLength floor event).getD []))
      (s.step .text .user (recordOf encodeLength floor index event)) := by
  obtain ⟨text, htext⟩ := Option.isSome_iff_exists.1 hsome
  unfold recordOf
  rw [htext]
  exact h.pushText (renderEventText_ne_nil htext)

private theorem Builds.appendEvent (h : Builds b s) (index : Nat) (event : LedgerEvent) :
    Builds (appendEvent encodeLength images floor o b index event)
      (s.run .text .user (emit encodeLength images floor o index event)) := by
  have hdefault : Builds ((render encodeLength floor event).elim b b.pushText)
      (s.run .text .user ((render encodeLength floor event).map fun text => Item.record ⟨index, text⟩).toList) := by
    cases hr : render encodeLength floor event with
    | none => exact h
    | some text => exact h.pushText (renderEventText_ne_nil hr)
  have hrender : ∀ {text : JsString}, renderEventText encodeLength (isReduced floor event) event = some text →
      (render encodeLength floor event).isSome = true := by
    intro text ht
    rw [render, ht]
    rfl
  unfold Session.appendEvent emit
  cases hb : event.body with
  | filesAttached f =>
    dsimp only
    by_cases hr : isReduced floor event = true
    · rw [if_pos hr, if_pos hr]
      exact h.pushRecord (hrender (by rw [renderEventText, hb]))
    rw [if_neg hr, if_neg hr]
    have hfiles : ∀ (urls : List JsString) {b : MessageBuilder} {s : State EventRecord SourcedPart SourcedMessage},
        Builds b s → Builds (urls.foldl (·.pushImage ·) b) (s.run .text .user (urls.map (.part ∘ .imageUrl))) := by
      intro urls
      induction urls with
      | nil => exact fun h => h
      | cons url urls ih => exact fun h => ih (h.pushImage url)
    exact hfiles _ (h.pushText (filesRecord_ne_nil _ _ _))
  | actionStarted a =>
    dsimp only
    split
    · exact h
    · exact h.pushRecord (hrender (by rw [renderEventText, hb]))
  | reasoningCompleted r =>
    dsimp only
    change Builds (if r.text = [] ∧ o.callsOf event.key = [] then _ else _) _
    split
    · exact h
    have hcalls : ∀ (calls : List StartOccurrence) {b : MessageBuilder}
        {s : State EventRecord SourcedPart SourcedMessage}, Builds b s →
        Builds (calls.foldl (fun b start => b.push (.tool start.callId (toolResult encodeLength floor o start))) b)
          (s.run .text .user (calls.map (.message ∘ answerOf encodeLength floor o))) := by
      intro calls
      induction calls with
      | nil => exact fun h => h
      | cons start calls ih => exact fun h => ih (h.push (answerOf encodeLength floor o start))
    have houtput := h.endUserMessage.push (outputOf floor o event r)
    have herase : (outputOf floor o event r).erase = .assistant
        (if isReduced floor event then cutReleasedChars r.text REDUCED_TEXT_LIMIT REDUCED_TEXT_HEAD REDUCED_TEXT_TAIL
          else r.text) ((o.callsOf event.key).map (toolCallOf (isReduced floor event))) := by
      rw [outputOf, SourcedMessage.erase, map_map]
      rfl
    rw [herase] at houtput
    exact hcalls _ houtput
  | actionFinished f =>
    dsimp only
    split
    · exact h
    rename_i hafter
    split
    · exact h
    refine h.pushRecord ?_
    rw [render, renderEventText, hb]
    dsimp only
    rw [if_neg hafter]
    rfl
  | stepStarted st =>
    exact (h.pushRecord (hrender (by rw [renderEventText, hb]))).endUserMessage
  | contextCompacted c => exact h.pushText (tag_ne_nil _ _ _)
  | reasoningThinking t => exact h
  | _ =>
    revert hdefault
    cases render encodeLength floor event <;> exact fun hdefault => hdefault

private theorem Builds.appendEvents (h : Builds b s) (index : Nat) (events : List LedgerEvent) :
    Builds (appendEvents encodeLength images floor o b index events)
      (s.run .text .user (emitFrom encodeLength images floor o index events)) := by
  induction events generalizing b s index with
  | nil => exact h
  | cons event events ih =>
    rw [emitFrom, State.run_append]
    exact ih (h.appendEvent index event) (index + 1)

end

/-- The request is the assembled stream without its sources. -/
theorem renderReasonContext_eq (encodeLength : JsString → Nat) (images : JsString → Option JsString)
    (allowImages : Option Bool) (events : List LedgerEvent) :
    renderReasonContext encodeLength images allowImages events =
    (sourcedReasonContext encodeLength images allowImages events).map SourcedMessage.erase := by
  have hempty : Builds .empty .empty := ⟨rfl, rfl, rfl, fun r hr => by cases hr⟩
  exact (hempty.appendEvents 0 (contextEvents events)).endUserMessage.messages

end Wrenyard.Session
