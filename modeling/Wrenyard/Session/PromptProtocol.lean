import Wrenyard.Session.PromptAppend

/-!
# The tool-call protocol of the request

A provider accepts a request only if every assistant message with tool calls is followed at once by their answers, in
order, if no other answer occurs, and if no call id is used twice.  `answersCalls` reads the first two off a message
list.  The third rests on the form of the ids: the first occurrence of an action id is called by the id itself, which
has no underscore, and every later one by an id that ends in the sequence number of its own event.
-/

namespace Wrenyard.Session

open Js Assembly List

/-- The messages first answer the pending calls, in order, and then answer the calls of every assistant message in the
same way; there is no other tool message. -/
def answersCalls : List JsString → List ModelMessage → Bool
  | pending, [] => pending.isEmpty
  | [], .tool _ _ :: _ => false
  | next :: pending, .tool id _ :: rest => id == next && answersCalls pending rest
  | pending, .user _ :: rest => pending.isEmpty && answersCalls [] rest
  | pending, .assistant _ toolCalls :: rest => pending.isEmpty && answersCalls (toolCalls.map (·.id)) rest

def ModelMessage.callIds : ModelMessage → List JsString
  | .assistant _ toolCalls => toolCalls.map (·.id)
  | _ => []

/-- The ids the engine gives: `/^a(\d+)$/`. -/
def isEngineId : JsString → Bool
  | [] => false
  | u :: digits => u == 97 && digits != [] && digits.all isDigit

def LedgerEvent.turnStep (event : LedgerEvent) : Nat × Nat := (event.turn.getD 0, event.step.getD 0)

def OneOutputPerStep (events : List LedgerEvent) : Prop :=
  events.Pairwise fun e f => e.isReasoningCompleted = true → f.isReasoningCompleted = true → e.turnStep ≠ f.turnStep

theorem answersCalls_append {pending : List JsString} {xs : List ModelMessage} (h : answersCalls pending xs = true)
    (ys : List ModelMessage) : answersCalls pending (xs ++ ys) = answersCalls [] ys := by
  induction xs generalizing pending with
  | nil =>
    rw [answersCalls, List.isEmpty_iff] at h
    rw [h, List.nil_append]
  | cons m xs ih =>
    cases m with
    | user | assistant =>
      rw [answersCalls, Bool.and_eq_true] at h
      rw [List.cons_append, answersCalls, h.1, Bool.true_and]
      exact ih h.2
    | tool id content =>
      cases pending with
      | nil => cases h
      | cons next pending =>
        rw [answersCalls, Bool.and_eq_true] at h
        rw [List.cons_append, answersCalls, h.1, Bool.true_and]
        exact ih h.2

theorem answersCalls_tools {α : Type} (calls : List α) (id content : α → JsString) :
    answersCalls (calls.map id) (calls.map fun c => .tool (id c) (content c)) = true := by
  induction calls with
  | nil => rfl
  | cons c calls ih =>
    rw [map_cons, map_cons, answersCalls, ih]
    simp

section

variable {encodeLength : JsString → Nat} {images : JsString → Option JsString} {floor : Option Nat} {o : Occurrences}
  {s : State EventRecord SourcedPart SourcedMessage}

/-- The finished messages keep the protocol. -/
private def Answered (s : State EventRecord SourcedPart SourcedMessage) : Prop :=
  answersCalls [] (s.messages.map SourcedMessage.erase) = true

private theorem Answered.append (h : Answered s) {messages : List SourcedMessage}
    (hm : answersCalls [] (messages.map SourcedMessage.erase) = true) {parts : List SourcedPart}
    {records : List EventRecord} : Answered ⟨s.messages ++ messages, parts, records⟩ := by
  unfold Answered
  rw [map_append, answersCalls_append h]
  exact hm

private theorem Answered.close (h : Answered s) : Answered (s.close .text .user) := by
  unfold State.close
  split
  · unfold Answered
    rw [State.flush_messages]
    exact h
  · exact h.append rfl

private theorem Answered.quiet (h : Answered s) {items : List EmittedItem} (hq : ∀ i ∈ items, ∀ m, i ≠ .message m) :
    Answered (s.run .text .user items) := by
  induction items generalizing s with
  | nil => exact h
  | cons i items ih =>
    have hstep : Answered (s.step .text .user i) := by
      cases i with
      | record r => exact h
      | part p =>
        change answersCalls [] ((s.flush SourcedPart.text).messages.map _) = true
        rw [State.flush_messages]
        exact h
      | close => exact h.close
      | message m => exact absurd rfl (hq _ (mem_cons_self ..) m)
    exact ih hstep fun i hi => hq i (mem_cons_of_mem _ hi)

private theorem run_messages (s : State EventRecord SourcedPart SourcedMessage) (messages : List SourcedMessage) :
    s.run .text .user (messages.map .message) = { s with messages := s.messages ++ messages } := by
  induction messages generalizing s with
  | nil => simp
  | cons m messages ih =>
    rw [map_cons, State.run_cons, ih]
    simp [State.step]

private theorem toolCallOf_id (reduced : Bool) (start : StartOccurrence) :
    (toolCallOf reduced start).id = start.callId := by
  unfold toolCallOf
  split <;> rfl

variable {event : LedgerEvent}

theorem emit_quiet (h : event.isReasoningCompleted = false) (index : Nat) :
    ∀ i ∈ emit encodeLength images floor o index event, ∀ m, i ≠ .message m := by
  intro i hi m heq
  subst heq
  unfold emit at hi
  cases hb : event.body with
  | reasoningCompleted r =>
    rw [LedgerEvent.isReasoningCompleted, hb] at h
    cases h
  | _ =>
    rw [hb] at hi
    revert hi
    dsimp only
    try split
    all_goals simp [recordOf]

private theorem Answered.output (h : Answered s) (event : LedgerEvent) (r : ReasoningCompletedEvent) :
    Answered (s.run .text .user (.close :: .message (outputOf floor o event r) ::
      (o.callsOf event.key).map (.message ∘ answerOf encodeLength floor o))) := by
  have hitems : (Item.message (outputOf floor o event r) ::
      (o.callsOf event.key).map (.message ∘ answerOf encodeLength floor o) : List EmittedItem) =
      (outputOf floor o event r :: (o.callsOf event.key).map (answerOf encodeLength floor o)).map .message := by
    rw [map_cons, map_map]
  rw [State.run_cons, hitems, run_messages]
  refine h.close.append ?_
  have hcalls : ((o.callsOf event.key).map fun start => (start, toolCallOf (isReduced floor event) start)).map
      (fun call => call.2.id) = (o.callsOf event.key).map (·.callId) := by
    rw [map_map]
    exact map_congr_left fun start _ => toolCallOf_id _ start
  rw [map_cons, map_map, outputOf, SourcedMessage.erase, answersCalls, map_map]
  change answersCalls (List.map (fun call : StartOccurrence × ToolCall => call.2.id) _) _ = true
  rw [hcalls]
  exact answersCalls_tools _ _ _

private theorem Answered.emit (h : Answered s) (index : Nat) (event : LedgerEvent) :
    Answered (s.run .text .user (emit encodeLength images floor o index event)) := by
  cases hc : event.isReasoningCompleted with
  | false => exact h.quiet (emit_quiet hc index)
  | true =>
    unfold LedgerEvent.isReasoningCompleted at hc
    split at hc
    · rename_i r hb
      rw [Session.emit.eq_def, hb]
      dsimp only
      split
      · exact h
      · exact h.output event r
    · cases hc

private theorem Answered.emitFrom (h : Answered s) (index : Nat) (events : List LedgerEvent) :
    Answered (s.run .text .user (emitFrom encodeLength images floor o index events)) := by
  induction events generalizing s index with
  | nil => exact h
  | cons event events ih =>
    rw [Session.emitFrom, State.run_append]
    exact ih (h.emit index event) (index + 1)

def Occurrences.callsAt (o : Occurrences) (floor : Option Nat) (event : LedgerEvent) :
    List (StartOccurrence × ToolCall) :=
  if event.isReasoningCompleted then
    (o.callsOf event.key).map fun start => (start, toolCallOf (isReduced floor event) start)
  else []

def SourcedMessage.calls : SourcedMessage → List (StartOccurrence × ToolCall)
  | .assistant _ toolCalls => toolCalls
  | _ => []

private theorem calls_emit (index : Nat) (event : LedgerEvent) :
    (emit encodeLength images floor o index event).flatMap
    (Item.content SourcedMessage.calls (fun _ => []) fun _ => []) =
      o.callsAt floor event := by
  unfold Occurrences.callsAt
  cases hc : event.isReasoningCompleted with
  | false =>
    rw [if_neg Bool.false_ne_true, flatMap_eq_nil_iff]
    intro i hi
    have hquiet := emit_quiet hc index i hi
    cases i with
    | message m => exact absurd rfl (hquiet m)
    | _ => rfl
  | true =>
    unfold LedgerEvent.isReasoningCompleted at hc
    split at hc
    · rename_i r hb
      rw [emit.eq_def, hb]
      dsimp only
      split
      · rename_i hnone
        rw [hnone.2]
        rfl
      have hanswers : ((o.callsOf event.key).map (.message ∘ answerOf encodeLength floor o) :
          List EmittedItem).flatMap
          (Item.content SourcedMessage.calls (fun _ => []) fun _ => []) = [] := by
        rw [flatMap_eq_nil_iff]
        intro i hi
        obtain ⟨start, _, rfl⟩ := mem_map.1 hi
        rfl
      rw [flatMap_cons, flatMap_cons, hanswers, append_nil]
      rfl
    · cases hc

private theorem calls_emitFrom (index : Nat) (events : List LedgerEvent) :
    (emitFrom encodeLength images floor o index events).flatMap
      (Item.content SourcedMessage.calls (fun _ => []) fun _ => []) = events.flatMap (o.callsAt floor) := by
  induction events generalizing index with
  | nil => rfl
  | cons event events ih => rw [emitFrom, flatMap_append, calls_emit, ih, flatMap_cons]

end

/-- The request makes the calls of its reasoning outputs, each once. -/
theorem perm_sourcedCalls (encodeLength : JsString → Nat) (images : JsString → Option JsString)
    (allowImages : Option Bool) (events : List LedgerEvent) :
    ((sourcedReasonContext encodeLength images allowImages events).flatMap SourcedMessage.calls).Perm
      ((contextEvents events).flatMap
        ((Occurrences.ofEvents (contextEvents events)).callsAt (reducedFloor events))) := by
  rw [← calls_emitFrom 0]
  exact perm_assemble (fun _ => by simp) (fun _ => by simp [SourcedMessage.calls]) _

/-! ### Call ids -/

private theorem stepKey_inj {turn step turn' step' : Option Nat} (h : stepKey turn step = stepKey turn' step') :
    turn.getD 0 = turn'.getD 0 ∧ step.getD 0 = step'.getD 0 := by
  have hspan : ∀ a b : Nat, (natText a ++ js ":" ++ natText b).span isDigit = (natText a, js ":" ++ natText b) := by
    intro a b
    rw [append_assoc]
    refine span_natText_append a _ fun u hu => ?_
    cases hu
    rfl
  have heq := congrArg (List.span isDigit) h
  rw [stepKey, stepKey, hspan, hspan, Prod.mk.injEq] at heq
  exact ⟨natText_inj heq.1, natText_inj (append_cancel_left heq.2)⟩

theorem LedgerEvent.turnStep_eq_of_key {e f : LedgerEvent} (h : e.key = f.key) : e.turnStep = f.turnStep := by
  obtain ⟨hturn, hstep⟩ := stepKey_inj h
  rw [turnStep, turnStep, hturn, hstep]

def reusedId (event : LedgerEvent) (id : JsString) : JsString :=
  id ++ js "_" ++ natText (event.turn.getD 0) ++ js "_" ++ natText (event.step.getD 0) ++ js "_" ++ natText event.seq

private theorem underscore_not_mem_digits {ds : JsString} (h : ds.all isDigit = true) : (95 : UInt16) ∉ ds := by
  intro hmem
  have := all_eq_true.1 h 95 hmem
  cases this

private theorem underscore_not_mem_engineId {id : JsString} (h : isEngineId id = true) : (95 : UInt16) ∉ id := by
  cases id with
  | nil => exact not_mem_nil
  | cons u digits =>
    unfold isEngineId at h
    rw [Bool.and_eq_true, Bool.and_eq_true, beq_iff_eq] at h
    rw [mem_cons, not_or]
    refine ⟨?_, underscore_not_mem_digits h.2⟩
    rw [h.1.1]
    decide

private theorem underscore_not_mem_natText (n : Nat) : (95 : UInt16) ∉ natText n :=
  underscore_not_mem_digits (List.all_eq_true.2 fun _ hu => isDigit_of_mem_natText hu)

private theorem reusedId_seq {e f : LedgerEvent} {id id' : JsString} (h : reusedId e id = reusedId f id') :
    e.seq = f.seq := by
  have hlast : ∀ (event : LedgerEvent) (id : JsString),
      (reusedId event id).reverse.takeWhile (· ≠ 95) = (natText event.seq).reverse := by
    intro event id
    unfold reusedId
    rw [reverse_append, reverse_append, takeWhile_append_of_pos]
    · exact append_nil _
    · intro u hu
      rw [mem_reverse] at hu
      rw [decide_eq_true_eq]
      rintro rfl
      exact underscore_not_mem_natText _ hu
  have heq := congrArg (fun s : JsString => s.reverse.takeWhile (· ≠ 95)) h
  rw [hlast, hlast] at heq
  exact natText_inj (reverse_injective heq)

private theorem mem_reusedId (event : LedgerEvent) (id : JsString) : (95 : UInt16) ∈ reusedId event id := by
  exact mem_append_left _ (mem_append_right _ (by decide))

namespace Occurrences

private structure CallIds (o : Occurrences) (events : List LedgerEvent) : Prop where
  fresh : ∀ id, o.occurrences id = 0 → ∀ e ∈ events, ∀ a, e.body = .actionStarted a → a.id ≠ id
  ofStart : ∀ s ∈ o.starts, ∃ e ∈ events, ∃ a, e.body = .actionStarted a ∧
    (s.callId = a.id ∨ s.callId = reusedId e a.id)
  nodup : (o.starts.map (·.callId)).Nodup

private theorem callId_startOf (o : Occurrences) (event : LedgerEvent) (a : ActionStartedEvent) :
    (o.startOf event a).callId = if o.occurrences a.id = 0 then a.id else reusedId event a.id := rfl

variable {events : List LedgerEvent}

private theorem CallIds.add {o : Occurrences} (h : o.CallIds events)
    (hlt : ∀ e ∈ events, e.seq < event.seq)
    (hids : ∀ e ∈ events ++ [event], ∀ a, e.body = .actionStarted a → isEngineId a.id = true) :
    (o.add event).CallIds (events ++ [event]) := by
  have hold : ∀ s ∈ o.starts, ∃ e ∈ events ++ [event], ∃ a, e.body = .actionStarted a ∧
      (s.callId = a.id ∨ s.callId = reusedId e a.id) := by
    intro s hs
    obtain ⟨e, he, hrest⟩ := h.ofStart s hs
    exact ⟨e, mem_append_left _ he, hrest⟩
  have hevent : event ∈ events ++ [event] := mem_append_right _ (mem_singleton.2 rfl)
  rcases add_starts o event with ⟨hno, hsame⟩ | ⟨a, ha, hnew⟩
  · have hocc : (o.add event).occurrences = o.occurrences := by
      unfold Occurrences.add
      unfold LedgerEvent.isActionStarted at hno
      split <;> simp_all
    refine ⟨?_, by rwa [hsame], by rw [hsame]; exact h.nodup⟩
    intro id hid e he b hb
    rw [hocc] at hid
    rcases mem_append.1 he with he | he
    · exact h.fresh id hid e he b hb
    · rw [mem_singleton.1 he] at hb
      rw [LedgerEvent.isActionStarted, hb] at hno
      cases hno
  · have hocc : (o.add event).occurrences = Function.update o.occurrences a.id (o.occurrences a.id + 1) := by
      rw [Occurrences.add, ha]
    refine ⟨?_, ?_, ?_⟩
    · intro id hid e he b hb
      have hne : id ≠ a.id := by
        rintro rfl
        rw [hocc, Function.update_self] at hid
        exact Nat.succ_ne_zero _ hid
      rw [hocc, Function.update_of_ne hne] at hid
      rcases mem_append.1 he with he | he
      · exact h.fresh id hid e he b hb
      · rw [mem_singleton.1 he, ha] at hb
        cases hb
        exact hne.symm
    · intro s hs
      rw [hnew, mem_append, mem_singleton] at hs
      rcases hs with hs | rfl
      · exact hold s hs
      refine ⟨event, hevent, a, ha, ?_⟩
      rw [callId_startOf]
      split
      · exact .inl rfl
      · exact .inr rfl
    · rw [hnew, map_append, nodup_append]
      refine ⟨h.nodup, nodup_singleton _, ?_⟩
      rintro x hx y hy rfl
      rw [map_singleton, mem_singleton, callId_startOf] at hy
      obtain ⟨s, hs, rfl⟩ := mem_map.1 hx
      obtain ⟨e, he, b, hb, hcall⟩ := h.ofStart s hs
      have hbid := underscore_not_mem_engineId (hids e (mem_append_left _ he) b hb)
      have haid := underscore_not_mem_engineId (hids event hevent a ha)
      -- two bare ids are of different actions, a bare id has no underscore, and a reused id ends in its own number
      split at hy
      · rename_i hzero
        rcases hcall with hcall | hcall
        · exact h.fresh a.id hzero e he b hb (hcall.symm.trans hy)
        · exact haid (hy ▸ hcall ▸ mem_reusedId e b.id)
      · rcases hcall with hcall | hcall
        · exact hbid (hcall ▸ hy ▸ mem_reusedId event a.id)
        · exact Nat.ne_of_lt (hlt e he) (reusedId_seq (hcall.symm.trans hy))

/-- The call ids of a timeline are pairwise distinct. -/
theorem nodup_callIds (hseq : Increasing events)
    (hids : ∀ e ∈ events, ∀ a, e.body = .actionStarted a → isEngineId a.id = true) :
    ((ofEvents events).starts.map (·.callId)).Nodup := by
  have hall : (ofEvents events).CallIds events := by
    induction events using List.reverseRecOn with
    | nil =>
      constructor
      · intro _ _ e he
        cases he
      · intro s hs
        cases hs
      · exact nodup_nil
    | append_singleton events event ih =>
      obtain ⟨hseq', _, hlt⟩ := pairwise_append.1 hseq
      rw [ofEvents_snoc]
      exact (ih hseq' fun e he => hids e (mem_append_left _ he)).add
        (fun e he => hlt e he event (mem_singleton.2 rfl)) hids
  exact hall.nodup

/-- A call replays an occurrence under its id. -/
theorem mem_callsAt {o : Occurrences} {floor : Option Nat} {call : StartOccurrence × ToolCall}
    (h : call ∈ o.callsAt floor event) : call.1 ∈ o.starts ∧ call.2.id = call.1.callId := by
  unfold callsAt at h
  split at h
  · obtain ⟨start, hstart, rfl⟩ := mem_map.1 h
    exact ⟨mem_of_mem_filter hstart, toolCallOf_id _ start⟩
  · cases h

/-- With one output per step, no occurrence is called twice. -/
theorem nodup_calls (honce : OneOutputPerStep events) (floor : Option Nat) :
    ((events.flatMap ((ofEvents events).callsAt floor)).map Prod.fst).Nodup := by
  have h := indexes_ofEvents events
  have hnodup : (ofEvents events).starts.Nodup := by
    refine h.startIndexes.imp ?_
    rintro s t hlt rfl
    exact Nat.lt_irrefl _ hlt
  have hfst : ∀ event, ((ofEvents events).callsAt floor event).map Prod.fst =
      if event.isReasoningCompleted then (ofEvents events).callsOf event.key else [] := by
    intro event
    unfold callsAt
    split
    · rw [map_map]
      exact map_id _
    · rfl
  rw [map_flatMap, nodup_flatMap]
  refine ⟨?_, honce.imp ?_⟩
  · intro event _
    rw [hfst]
    split
    · exact hnodup.filter _
    · exact nodup_nil
  · intro e f hne
    show List.Disjoint _ _
    dsimp only
    rw [hfst, hfst]
    split
    · rename_i he
      split
      · rename_i hf
        intro start hse hsf
        have hke := beq_iff_eq.1 (mem_filter.1 hse).2
        have hkf := beq_iff_eq.1 (mem_filter.1 hsf).2
        exact hne he hf (LedgerEvent.turnStep_eq_of_key (hke.symm.trans hkf))
      · exact disjoint_nil_right _
    · exact disjoint_nil_left _

end Occurrences

theorem contextEvents_sublist (events : List LedgerEvent) : (contextEvents events).Sublist events := by
  unfold contextEvents
  split
  · exact List.Sublist.refl _
  · exact filter_sublist

/-- Every assistant message is followed by the answers to its calls, in order, there is no other tool message, and no
call id occurs twice. -/
theorem renderReasonContext_toolProtocol (encodeLength : JsString → Nat) (images : JsString → Option JsString)
    (allowImages : Option Bool) (events : List LedgerEvent) (hseq : Increasing events)
    (honce : OneOutputPerStep events) (hids : ∀ e ∈ events, ∀ a, e.body = .actionStarted a → isEngineId a.id = true) :
    answersCalls [] (renderReasonContext encodeLength images allowImages events) = true ∧
    ((renderReasonContext encodeLength images allowImages events).flatMap ModelMessage.callIds).Nodup := by
  rw [renderReasonContext_eq]
  constructor
  · have hempty : Answered .empty := rfl
    exact (hempty.emitFrom 0 (contextEvents events)).close
  · obtain ⟨context, hcontext⟩ : ∃ context, contextEvents events = context := ⟨_, rfl⟩
    have hsub := contextEvents_sublist events
    have hperm := perm_sourcedCalls encodeLength images allowImages events
    rw [hcontext] at hsub hperm
    have hcalls := Occurrences.nodup_calls (honce.sublist hsub) (reducedFloor events)
    have hcallIds := Occurrences.nodup_callIds (hseq.sublist hsub) fun e he => hids e (hsub.subset he)
    -- the ids of the calls are those of their occurrences
    have hmap : ((context.flatMap ((Occurrences.ofEvents context).callsAt (reducedFloor events))).map
        fun call => call.2.id) =
        ((context.flatMap ((Occurrences.ofEvents context).callsAt (reducedFloor events))).map Prod.fst).map
          (·.callId) := by
      rw [List.map_map]
      refine List.map_congr_left fun call hcall => ?_
      obtain ⟨e, _, hcall⟩ := List.mem_flatMap.1 hcall
      exact (Occurrences.mem_callsAt hcall).2
    have hstarts : ∀ start ∈ (context.flatMap ((Occurrences.ofEvents context).callsAt (reducedFloor events))).map
        Prod.fst, start ∈ (Occurrences.ofEvents context).starts := by
      intro start hstart
      obtain ⟨call, hcall, rfl⟩ := List.mem_map.1 hstart
      obtain ⟨e, _, hcall⟩ := List.mem_flatMap.1 hcall
      exact (Occurrences.mem_callsAt hcall).1
    have hids' : ((sourcedReasonContext encodeLength images allowImages events).map SourcedMessage.erase).flatMap
        ModelMessage.callIds =
        ((sourcedReasonContext encodeLength images allowImages events).flatMap SourcedMessage.calls).map
          fun call => call.2.id := by
      rw [List.flatMap_map, List.map_flatMap]
      congr 1
      funext m
      cases m with
      | assistant content toolCalls => exact List.map_map
      | user | tool => rfl
    rw [hids', (hperm.map _).nodup_iff, hmap]
    refine hcalls.map_on fun s hs t ht heq => ?_
    exact List.inj_on_of_nodup_map hcallIds (hstarts s hs) (hstarts t ht) heq

/-- A recovered session that uses the id `a1` again. -/
def reusedAction : List LedgerEvent :=
  [stepEvent 1 1 (.actionStarted ⟨js "a1", js "t1.1", .search, js "x", none, none⟩),
    stepEvent 2 1 (.reasoningCompleted ⟨js "s1", js "y", none⟩),
    stepEvent 3 2 (.actionStarted ⟨js "a1", js "t1.2", .search, js "x", none, none⟩),
    stepEvent 4 2 (.reasoningCompleted ⟨js "s2", js "y", none⟩)]

theorem renderReasonContext_reusedAction :
    Increasing reusedAction ∧ OneOutputPerStep reusedAction ∧
      (∀ e ∈ reusedAction, ∀ a, e.body = .actionStarted a → isEngineId a.id = true) ∧
      answersCalls [] (renderReasonContext List.length (fun _ => none) none reusedAction) = true ∧
      ((renderReasonContext List.length (fun _ => none) none reusedAction).flatMap ModelMessage.callIds).Nodup := by
  have hseq : Increasing reusedAction := by
    unfold Increasing
    decide
  have honce : OneOutputPerStep reusedAction := by
    unfold OneOutputPerStep
    decide
  have hids : ∀ e ∈ reusedAction, ∀ a, e.body = .actionStarted a → isEngineId a.id = true := by
    intro e he a ha
    simp only [reusedAction, List.mem_cons, List.not_mem_nil, or_false] at he
    rcases he with rfl | rfl | rfl | rfl <;> cases ha <;> rfl
  exact ⟨hseq, honce, hids,
    renderReasonContext_toolProtocol List.length (fun _ => none) none reusedAction hseq honce hids⟩

end Wrenyard.Session
