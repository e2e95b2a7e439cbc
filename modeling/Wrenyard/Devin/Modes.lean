import Wrenyard.Devin.Answer
import Wrenyard.Devin.Chunks

/-!
# One message in two modes

What `decodeEvents` yields is a message: tool calls are numbered in order, arguments follow their call, and the last
event alone stops it or reports an error (`whole_decodeEvents`).  On such events the loop of the completion and the
fold over the chunks go in step (`Matches`), so that the two answers agree where every event has a chunk
(`agree_whole`), also where the signal is aborted after some events (`agree_aborted`).
-/

namespace Wrenyard.Devin

open Js List

def toolsAfter (n : Nat) : List Event → Option Nat
  | [] => some n
  | .text _ :: es | .reasoning _ :: es => toolsAfter n es
  | .tool index _ _ :: es => if index = n then toolsAfter (n + 1) es else none
  | .args index _ :: es => if index < n then toolsAfter n es else none
  | .stop _ _ :: _ | .error _ :: _ => none

theorem toolsAfter_append (n : Nat) (es es' : List Event) :
    toolsAfter n (es ++ es') = (toolsAfter n es).bind fun m => toolsAfter m es' := by
  induction es generalizing n with
  | nil => rfl
  | cons e es ih =>
    cases e with
    | text part => exact ih n
    | reasoning part => exact ih n
    | tool index id name =>
      simp only [cons_append, toolsAfter]
      by_cases h : index = n
      · rw [if_pos h, if_pos h, ih]
      · rw [if_neg h, if_neg h]; rfl
    | args index text =>
      simp only [cons_append, toolsAfter]
      by_cases h : index < n
      · rw [if_pos h, if_pos h, ih]
      · rw [if_neg h, if_neg h]; rfl
    | stop reason usage => rfl
    | error failure => rfl

/-- A message behind a number of tool calls, up to its end. -/
inductive Whole : Nat → List Event → Prop where
  | stop (n : Nat) {reason : JsString} (usage : Option Usage) : reason ≠ [] → Whole n [.stop reason usage]
  | error (n : Nat) (failure : Failure) : Whole n [.error failure]
  | cons {n m : Nat} {e : Event} {es : List Event} : toolsAfter n [e] = some m → Whole m es → Whole n (e :: es)

variable {n m : Nat} {es : List Event}

theorem Whole.append {es' : List Event} (h : toolsAfter n es = some m) (h' : Whole m es') : Whole n (es ++ es') := by
  induction es generalizing n with
  | nil =>
    cases h
    exact h'
  | cons e es ih =>
    have hsplit := toolsAfter_append n [e] es
    rw [singleton_append, h] at hsplit
    obtain ⟨k, hk, hrest⟩ := Option.bind_eq_some_iff.1 hsplit.symm
    exact Whole.cons hk (ih hrest)

/-- The events before the last one are inside the message. -/
theorem Whole.take {n : Nat} {es : List Event} (h : Whole n es) {k : Nat} (hk : k < es.length) :
    ∃ m, toolsAfter n (es.take k) = some m := by
  induction h generalizing k with
  | stop n | error n =>
    have hzero : k = 0 := by simpa using hk
    subst hzero
    exact ⟨n, rfl⟩
  | cons he hes ih =>
    rename_i n m e es
    cases k with
    | zero => exact ⟨n, rfl⟩
    | succ k =>
      obtain ⟨p, hp⟩ := ih (by simpa using hk)
      refine ⟨p, ?_⟩
      rw [take_succ_cons, ← singleton_append, toolsAfter_append, he]
      exact hp

/-! ### What the decoder yields -/

variable {gunzip : Bytes → Except JsString Bytes} {randomId : Nat → JsString} {status : Nat}

def Known (d : Decoder) : Prop := ∀ id index, OMap.get d.toolIds id = some index → index < d.tools

/-- Events of a step are inside the message, and the decoder counts the calls. -/
def Inside (d : Decoder) (r : Yields Decoder) : Prop :=
  ∃ m, toolsAfter d.tools r.1 = some m ∧ ∀ d', r.2 = .ok d' → Known d' ∧ m = d'.tools

variable {d : Decoder}

variable (hd : Known d)
include hd

theorem inside_onTool (t : ToolFields) : Inside d (onTool randomId d t) := by
  unfold onTool
  dsimp only
  generalize hknown : (if t.id ≠ [] then d.toolIds.get t.id else none) = known
  split
  · generalize (if t.id = [] then randomId d.tools else t.id) = name
    refine ⟨d.tools + 1, ?_, ?_⟩
    · by_cases ha : t.args = []
      all_goals simp [ha, toolsAfter]
    · rintro d' ⟨⟩
      refine ⟨fun id index h => ?_, rfl⟩
      rw [OMap.get_set] at h
      by_cases heq : name = id
      · rw [if_pos heq] at h
        cases h
        exact Nat.lt_succ_self _
      · rw [if_neg heq] at h
        exact Nat.lt_succ_of_lt (hd id index h)
  · split
    · exact ⟨d.tools, rfl, fun d' h => by cases h; exact ⟨hd, rfl⟩⟩
    generalize hindex : (known.orElse fun _ => if t.id ≠ [] ∨ d.tools = 0 then none else some (d.tools - 1)) = index
    cases index with
    | none => exact ⟨d.tools, rfl, fun d' h => by cases h⟩
    | some index =>
      have hlt : index < d.tools := by
        cases known with
        | some i =>
          cases hindex
          split at hknown
          · exact hd _ _ hknown
          · cases hknown
        | none =>
          have hlatest : (if t.id ≠ [] ∨ d.tools = 0 then none else some (d.tools - 1)) = some index := hindex
          split at hlatest <;> cases hlatest
          omega
      exact ⟨d.tools, by simp [toolsAfter, hlt], fun d' h => by cases h; exact ⟨hd, rfl⟩⟩

theorem known_usageField (f : Field) : Known (usageField d f) ∧ (usageField d f).tools = d.tools := by
  unfold usageField
  split
  · split_ifs <;> exact ⟨hd, rfl⟩
  · exact ⟨hd, rfl⟩

theorem known_usage (fields : List Field) :
    Known (fields.foldl usageField d) ∧ (fields.foldl usageField d).tools = d.tools := by
  induction fields generalizing d with
  | nil => exact ⟨hd, rfl⟩
  | cons f fields ih =>
    obtain ⟨hk, ht⟩ := known_usageField hd f
    obtain ⟨hk', ht'⟩ := ih hk
    exact ⟨hk', ht'.trans ht⟩

theorem inside_onField (f : Field) : Inside d (onField randomId d f) := by
  unfold onField
  by_cases h3 : (f.num = 3 ∨ f.num = 9) ∧ f.wire = 2 ∧ f.data.getD [] ≠ []
  · rw [if_pos h3]
    split
    · exact ⟨d.tools, rfl, fun d' h => by cases h⟩
    · refine ⟨d.tools, ?_, fun d' h => by cases h; exact ⟨hd, rfl⟩⟩
      by_cases hn : f.num = 3
      all_goals simp [hn, toolsAfter]
  rw [if_neg h3]
  by_cases h6 : f.num = 6 ∧ f.wire = 2 ∧ f.data ≠ none
  · rw [if_pos h6]
    split
    · exact ⟨d.tools, rfl, fun d' h => by cases h⟩
    · exact inside_onTool hd _
  rw [if_neg h6]
  by_cases h5 : f.num = 5 ∧ f.wire = 0
  · rw [if_pos h5]
    exact ⟨d.tools, rfl, fun d' h => by cases h; exact ⟨hd, rfl⟩⟩
  rw [if_neg h5]
  split
  · refine ⟨d.tools, rfl, fun d' h => ?_⟩
    cases hparse : parseFields (f.data.getD []) <;> rw [hparse] at h
    case error e => cases h
    case ok fields =>
      cases h
      obtain ⟨hk, ht⟩ := known_usage hd fields
      exact ⟨hk, ht.symm⟩
  · exact ⟨d.tools, rfl, fun d' h => by cases h; exact ⟨hd, rfl⟩⟩

theorem inside_onFields (fields : List Field) : Inside d (onFields randomId d fields) := by
  induction fields generalizing d with
  | nil => exact ⟨d.tools, rfl, fun d' h => by cases h; exact ⟨hd, rfl⟩⟩
  | cons f fields ih =>
    have hfield : Inside d (onField randomId d f) := inside_onField hd f
    obtain ⟨m, hm, hok⟩ := hfield
    unfold onFields
    generalize hr : onField randomId d f = r at hm hok
    obtain ⟨es, result⟩ := r
    cases result with
    | error e => exact ⟨m, hm, fun d' h => by cases h⟩
    | ok d₁ =>
      obtain ⟨hk, rfl⟩ := hok d₁ rfl
      obtain ⟨p, hp, hok'⟩ := ih hk
      refine ⟨p, ?_, hok'⟩
      rw [toolsAfter_append, hm]
      exact hp

omit hd

inductive Drained (n : Nat) : List Event × Progress → Prop where
  | reading {es : List Event} {d : Decoder} (buffer : Bytes) : toolsAfter n es = some d.tools → Known d →
      Drained n (es, .reading d buffer)
  | ended {es : List Event} {d : Decoder} : toolsAfter n es = some d.tools → Drained n (es, .ended d)
  | failed {es : List Event} {m : Nat} (message : JsString) : toolsAfter n es = some m →
      Drained n (es, .failed message)
  | returned {es : List Event} : Whole n es → Drained n (es, .returned)

theorem Drained.append (h : toolsAfter n es = some m) {r : List Event × Progress} (hr : Drained m r) :
    Drained n (es ++ r.1, r.2) := by
  have happend : ∀ {es' : List Event} {p : Nat}, toolsAfter m es' = some p → toolsAfter n (es ++ es') = some p := by
    intro es' p hp
    rw [toolsAfter_append, h]
    exact hp
  cases hr with
  | reading buffer hes hk => exact .reading buffer (happend hes) hk
  | ended hes => exact .ended (happend hes)
  | failed message hes => exact .failed message (happend hes)
  | returned hes => exact .returned (Whole.append h hes)

inductive Framed (n : Nat) : List Event × FrameEnd → Prop where
  | fields {es : List Event} {d : Decoder} : toolsAfter n es = some d.tools → Known d → Framed n (es, .fields d)
  | trailer : Framed n ([], .trailer)
  | failed {es : List Event} {m : Nat} (message : JsString) : toolsAfter n es = some m →
      Framed n (es, .failed message)
  | returned (failure : Failure) : Framed n ([.error failure], .returned)

theorem framed_onFrame (hd : Known d) (flags : Nat) (data : Bytes) :
    Framed d.tools (onFrame gunzip randomId d flags data) := by
  unfold onFrame
  split
  · exact .failed _ rfl
  split
  · exact .failed _ rfl
  split
  · split
    · exact .returned _
    · exact .trailer
  split
  · exact .failed _ rfl
  rename_i fields hfields
  have hinside : Inside d (onFields randomId d fields) := inside_onFields hd fields
  obtain ⟨m, hm, hok⟩ := hinside
  generalize onFields randomId d fields = r at hm hok
  obtain ⟨es, result⟩ := r
  cases result with
  | error e => exact .failed e hm
  | ok d' =>
    obtain ⟨hk, rfl⟩ := hok d' rfl
    exact .fields hm hk

theorem drained_inside (hd : Known d) (buffer : Bytes) : Drained d.tools (drained gunzip randomId d buffer) := by
  generalize hn : buffer.length = n
  induction n using Nat.strong_induction_on generalizing d buffer with
  | _ n ih =>
    rw [drained_eq]
    cases hcut : cutFrame buffer with
    | short => exact .reading buffer rfl hd
    | oversized => exact .failed _ rfl
    | frame flags data rest =>
      have hlen := length_rest hcut
      have hframe : Framed d.tools (onFrame gunzip randomId d flags data) := framed_onFrame hd flags data
      dsimp only
      generalize onFrame gunzip randomId d flags data = r at hframe
      cases hframe with
      | fields hes hk => exact Drained.append hes (ih rest.length (by omega) hk rest rfl)
      | trailer =>
        dsimp only
        split
        · exact .ended rfl
        · exact .failed _ rfl
      | failed e hes => exact .failed e hes
      | returned failure => exact .returned (.error _ failure)

theorem stop_reason_ne_nil (d : Decoder) (n : Nat) : Whole n [stopEvent d] := by
  apply Whole.stop
  split_ifs <;> decide

theorem whole_readFrom (hd : Known d) (buffer : Bytes) (chunks : List Bytes) :
    Whole d.tools (readFrom gunzip randomId status d buffer chunks) := by
  induction chunks generalizing d buffer with
  | nil => exact .error _ _
  | cons chunk chunks ih =>
    unfold readFrom
    split
    · exact .error _ _
    rw [drain_fuel (Nat.le_refl _)]
    have hdrained : Drained d.tools (drained gunzip randomId d (buffer ++ chunk)) := drained_inside hd _
    generalize drained gunzip randomId d (buffer ++ chunk) = r at hdrained
    cases hdrained with
    | reading rest hes hk => exact Whole.append hes (ih hk rest)
    | ended hes => exact Whole.append hes (stop_reason_ne_nil _ _)
    | failed message hes => exact Whole.append hes (.error _ _)
    | returned hes =>
      dsimp only [settle]
      rw [append_nil]
      exact hes

/-- The events of every body are a message. -/
theorem whole_decodeEvents (chunks : List Bytes) : Whole 0 (decodeEvents gunzip randomId status chunks) := by
  have hstart : Known .start := by
    intro id index h
    cases h
  exact whole_readFrom hstart [] chunks

/-! ### The two loops in step -/

/-- What a client has folded, and what the loop of the completion has collected, inside a message. -/
structure Matches (n : Nat) (c : Collected) (f : Completion) : Prop where
  content : f.content = c.content.flatten
  reasoning : f.reasoning = if c.reasoning ≠ [] then some c.reasoning.flatten else none
  calls : f.calls = c.calls
  count : c.calls.length = n
  whole : ∀ call ∈ c.calls, call ≠ none
  finish : c.finish = js "stop" ∧ f.finish = none
  usage : c.usage = none ∧ f.usage = none

variable (key : JsString) (heading : Heading)

theorem matches_start : Matches 0 .start
    (foldChunks [chunk heading [(js "role", .str (js "assistant"))] none none]) :=
  ⟨rfl, rfl, rfl, rfl, (fun _ h => by cases h), ⟨rfl, rfl⟩, ⟨rfl, rfl⟩⟩

variable (f : Completion)

theorem foldChunk_content (part : JsString) :
    foldChunk f (chunk heading [(js "content", .str part)] none none) = { f with content := f.content ++ part } := rfl

theorem foldChunk_reasoning (part : JsString) :
    foldChunk f (chunk heading [(js "reasoning_content", .str part)] none none) =
      { f with content := f.content ++ [], reasoning := some (f.reasoning.getD [] ++ part) } := rfl

theorem foldChunk_tool (index : Nat) (id name : JsString) :
    foldChunk f (chunk heading [(js "tool_calls", .arr [.obj [(js "index", .ofNat index), (js "id", .str id),
      (js "type", .str (js "function")),
      (js "function", .obj [(js "name", .str name), (js "arguments", .str [])])]])] none none) =
    { f with content := f.content ++ [], calls := assign f.calls index ⟨id, name, []⟩ } := rfl

theorem foldChunk_args (index : Nat) (text : JsString) :
    foldChunk f (chunk heading [(js "tool_calls", .arr [.obj [(js "index", .ofNat index),
      (js "function", .obj [(js "arguments", .str text)])]])] none none) =
    { f with
      content := f.content ++ []
      calls := f.calls.modify index fun call => call.map fun call =>
        { call with arguments := call.arguments ++ text } } :=
  rfl

theorem foldChunk_stop (reason : JsString) (usage : Option Usage) :
    foldChunk f (chunk heading [] (some reason) usage) =
      { f with
        content := f.content ++ []
        finish := some reason
        usage := (usage.map usageJson).orElse fun _ => f.usage } := by
  cases usage <;> rfl

theorem length_assign {α : Type} (array : List (Option α)) (value : α) :
    assign array array.length value = array ++ [some value] := by
  unfold assign
  simp

variable {c : Collected}

theorem chunkOf_text {part : JsString} (hvisible : (Event.text part).visible = true) :
    part ≠ [] ∧ chunkOf heading (.text part) = some (chunk heading [(js "content", .str part)] none none) := by
  have hp : part ≠ [] := by simpa [Event.visible] using hvisible
  exact ⟨hp, if_pos hp⟩

theorem chunkOf_reasoning {part : JsString} (hvisible : (Event.reasoning part).visible = true) :
    part ≠ [] ∧
      chunkOf heading (.reasoning part) = some (chunk heading [(js "reasoning_content", .str part)] none none) := by
  have hp : part ≠ [] := by simpa [Event.visible] using hvisible
  exact ⟨hp, if_pos hp⟩

/-- Both loops take an event of the message that has a chunk, and stay in step. -/
theorem matches_event {f : Completion} (h : Matches n c f) {e : Event} (he : toolsAfter n [e] = some m)
    (hvisible : e.visible = true) :
    ∃ c' sent, collect c e = some c' ∧ chunkOf heading e = some sent ∧ Matches m c' (foldChunk f sent) := by
  cases e with
  | text part =>
    cases he
    obtain ⟨hp, hchunk⟩ := chunkOf_text heading hvisible
    refine ⟨{ c with content := c.content ++ [part] }, _, by simp [collect, hp], hchunk, ?_⟩
    rw [foldChunk_content]
    exact ⟨by simp [h.content], h.reasoning, h.calls, h.count, h.whole, h.finish, h.usage⟩
  | reasoning part =>
    cases he
    obtain ⟨hp, hchunk⟩ := chunkOf_reasoning heading hvisible
    refine ⟨{ c with reasoning := c.reasoning ++ [part] }, _, by simp [collect, hp], hchunk, ?_⟩
    rw [foldChunk_reasoning]
    refine ⟨by simp [h.content], ?_, h.calls, h.count, h.whole, h.finish, h.usage⟩
    rw [h.reasoning]
    by_cases hr : c.reasoning = []
    · simp [hr]
    · simp [hr]
  | tool index id name =>
    simp only [toolsAfter] at he
    by_cases hi : index = n
    · rw [if_pos hi] at he
      cases he
      refine ⟨{ c with calls := assign c.calls index ⟨id, name, []⟩ }, _, rfl, rfl, ?_⟩
      have hassign : assign c.calls index (⟨id, name, []⟩ : ToolCall) = c.calls ++ [some ⟨id, name, []⟩] := by
        rw [hi, ← h.count, length_assign]
      rw [foldChunk_tool]
      refine ⟨by simp [h.content], h.reasoning, by rw [h.calls], ?_, ?_, h.finish, h.usage⟩
      · simp [hassign, h.count]
      · intro call hcall
        rw [hassign, mem_append, mem_singleton] at hcall
        rcases hcall with hcall | rfl
        · exact h.whole call hcall
        · simp
    · rw [if_neg hi] at he
      cases he
  | args index text =>
    simp only [toolsAfter] at he
    by_cases hi : index < n
    · rw [if_pos hi] at he
      cases he
      have hlt : index < c.calls.length := by rw [h.count]; exact hi
      obtain ⟨call, hcall⟩ := Option.ne_none_iff_exists'.1 (h.whole _ (getElem_mem hlt))
      have hget : c.calls[index]? = some (some call) := by rw [List.getElem?_eq_getElem hlt, hcall]
      have hmodify : c.calls.modify index (fun call => call.map fun call =>
          { call with arguments := call.arguments ++ text }) =
          c.calls.set index (some { call with arguments := call.arguments ++ text }) := by
        rw [modify_eq_set_getElem?, hget]
        rfl
      refine ⟨{ c with calls := c.calls.set index (some { call with arguments := call.arguments ++ text }) }, _, ?_,
        rfl,
        ?_⟩
      · simp [collect, hget]
      · rw [foldChunk_args]
        refine ⟨by simp [h.content], h.reasoning, ?_, by simp [h.count], ?_, h.finish, h.usage⟩
        · rw [h.calls, hmodify]
        · intro call' hcall'
          rcases mem_or_eq_of_mem_set hcall' with hcall' | rfl
          · exact h.whole call' hcall'
          · simp
    · rw [if_neg hi] at he
      cases he
  | stop | error => cases he

theorem readCall_callJson (call : Option ToolCall) : readCall (callJson call) = call := by
  cases call <;> rfl

theorem readCompletion_body (c : Collected) : readCompletion (completionBody heading c) =
    ⟨c.content.flatten, if c.reasoning ≠ [] then some c.reasoning.flatten else none, c.calls, some c.finish,
      c.usage.map usageJson⟩ := by
  have hcalls : (c.calls.map callJson).map readCall = c.calls := by
    rw [map_map]
    have hid : readCall ∘ callJson = id := funext readCall_callJson
    rw [hid, map_id]
  obtain ⟨content, reasoning, calls, finish, usage⟩ := c
  cases calls with
  | nil => cases reasoning <;> cases usage <;> rfl
  | cons call calls =>
    have hlist : readCompletion (completionBody heading ⟨content, reasoning, call :: calls, finish, usage⟩) =
        ⟨content.flatten, if reasoning ≠ [] then some reasoning.flatten else none,
          ((call :: calls).map callJson).map readCall, some finish, usage.map usageJson⟩ := by
      cases reasoning <;> cases usage <;> rfl
    rw [hlist, hcalls]

theorem failed_agree (response : Option (Nat × Json)) : Agree (failed response) (failed response) := by
  cases response with
  | none => exact .thrown
  | some r => exact .failure r.1 r.2

theorem complete_event (aborted : Bool) {c' : Collected} {e : Event} (he : toolsAfter n [e] = some m)
    (hc : collect c e = some c') : complete key heading aborted c (e :: es) = complete key heading aborted c' es := by
  cases e with
  | error failure => cases he
  | _ => simp only [complete, hc]

variable {sent : List Json}

theorem stream_event (aborted : Bool) {e : Event} (he : toolsAfter n [e] = some m) {sent' : Json}
    (hchunk : chunkOf heading e = some sent') :
    stream key heading aborted sent (e :: es) = stream key heading aborted (sent ++ [sent']) es := by
  cases e with
  | error failure => cases he
  | _ => simp only [stream, hchunk]

/-- What is folded of a further chunk. -/
theorem Matches.snoc {sent' : Json} (h : Matches n c (foldChunk (foldChunks sent) sent')) :
    Matches n c (foldChunks (sent ++ [sent'])) := by
  unfold foldChunks at h ⊢
  rw [foldl_append]
  exact h

theorem agree_rest (h : Matches n c (foldChunks sent)) (hes : Whole n es) (hvisible : ∀ e ∈ es, e.visible = true) :
    Agree (complete key heading false c es) (stream key heading false sent es) := by
  induction hes generalizing c sent with
  | stop n usage hr =>
    simp only [complete, collect, stream, if_pos hr, chunkOf]
    apply Agree.message
    unfold foldChunks
    rw [foldl_append, foldl_cons, foldl_nil, foldChunk_stop, readCompletion_body]
    have hfold : sent.foldl foldChunk ⟨[], none, [], none, none⟩ = foldChunks sent := rfl
    rw [hfold, h.content, h.reasoning, h.calls, h.usage.2, append_nil]
    cases usage <;> rfl
  | error n failure =>
    simp only [complete, stream]
    cases failureResponse key failure with
    | none => exact .broken sent
    | some r => exact .cutOff r.1 r.2 sent
  | cons he hes ih =>
    rename_i n m e es
    obtain ⟨c', sent', hc, hchunk, hnext⟩ := matches_event heading h he (hvisible e mem_cons_self)
    rw [complete_event key heading false he hc, stream_event key heading false he hchunk]
    exact ih hnext.snoc fun e' he' => hvisible e' (mem_cons_of_mem e he')

/-- The two answers to the events of a message agree where each has a chunk. -/
theorem agree_whole (hes : Whole 0 es) (hvisible : ∀ e ∈ es, e.visible = true) :
    Agree (executeDevin key heading false false es) (executeDevin key heading false true es) := by
  have hrest := agree_rest key heading (matches_start heading) hes hvisible
  cases es with
  | nil => cases hes
  | cons e es =>
    cases e with
    | error failure => exact failed_agree _
    | text part => exact hrest
    | reasoning part => exact hrest
    | tool index id name => exact hrest
    | args index text => exact hrest
    | stop reason usage => exact hrest

theorem aborted_rest (h : Matches n c (foldChunks sent)) (hes : toolsAfter n es = some m)
    (hvisible : ∀ e ∈ es, e.visible = true) :
    complete key heading true c es = .thrown ∧ ∃ chunks, stream key heading true sent es = .broken chunks := by
  induction es generalizing n c sent with
  | nil => exact ⟨rfl, sent, rfl⟩
  | cons e es ih =>
    have hsplit := toolsAfter_append n [e] es
    rw [singleton_append, hes] at hsplit
    obtain ⟨k, he, hrest⟩ := Option.bind_eq_some_iff.1 hsplit.symm
    obtain ⟨c', sent', hc, hchunk, hnext⟩ := matches_event heading h he (hvisible e mem_cons_self)
    rw [complete_event key heading true he hc, stream_event key heading true he hchunk]
    exact ih hnext.snoc hrest fun e' he' => hvisible e' (mem_cons_of_mem e he')

theorem agree_aborted (hes : toolsAfter 0 es = some m) (hvisible : ∀ e ∈ es, e.visible = true) :
    Agree (executeDevin key heading true false es) (executeDevin key heading true true es) := by
  obtain ⟨hcomplete, chunks, hstream⟩ := aborted_rest key heading (matches_start heading) hes hvisible
  cases es with
  | nil => exact .thrown
  | cons e es =>
    have hmodes : executeDevin key heading true false (e :: es) = .thrown ∧
        executeDevin key heading true true (e :: es) = .broken chunks := by
      cases e <;> first | exact ⟨hcomplete, hstream⟩ | cases hes
    rw [hmodes.1, hmodes.2]
    exact .broken chunks

end Wrenyard.Devin
