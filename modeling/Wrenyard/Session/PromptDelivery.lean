import Wrenyard.Session.PromptProtocol

/-!
# Every action and every result is delivered once

An action above the compaction floor is in the request once, as a tool call or as an `<action>` record; its result
once, as the content of the tool message of its own occurrence or as an `<action-result>` record.  The counts are
taken over the messages with their sources, and `Faithful` says that a source is what the message shows.  A finish is
resolved to a start with its id, in its turn and step (`resolved_pair`).
-/

namespace Wrenyard.Session

open Js Assembly Occurrences List

def SourcedPart.records : SourcedPart → List EventRecord
  | .text records => records
  | .imageUrl _ => []

def SourcedMessage.records : SourcedMessage → List EventRecord
  | .user content => content.flatMap SourcedPart.records
  | _ => []

def SourcedMessage.answers : SourcedMessage → List (StartOccurrence × Option FinishOccurrence × JsString)
  | .tool start finish content => [(start, finish, content)]
  | _ => []

/-- How often the event number `index` is in the request as a record. -/
def recordCount (messages : List SourcedMessage) (index : Nat) : Nat :=
  (messages.flatMap SourcedMessage.records).countP (·.index == index)

/-- How often the action started by the event number `index` is in the request as a tool call. -/
def callCount (messages : List SourcedMessage) (index : Nat) : Nat :=
  (messages.flatMap SourcedMessage.calls).countP (·.1.index == index)

/-- How often the result that is the event number `index` is in the request as the content of a tool message. -/
def resultCount (messages : List SourcedMessage) (index : Nat) : Nat :=
  (messages.flatMap SourcedMessage.answers).countP fun answer => answer.2.1.any (·.index == index)

section

variable (encodeLength : JsString → Nat) (floor : Option Nat)

def recordText (event : LedgerEvent) : Option JsString :=
  match event.body with
  | .contextCompacted c => some (renderCompactionBlock c)
  | _ => render encodeLength floor event

/-- The sources of a message are what it shows: a record is the text of its event, a call replays its occurrence, and
a tool message has the content of the result it delivers, which is the one resolved for its occurrence. -/
def Faithful (events : List LedgerEvent) : SourcedMessage → Prop
  | .user content => ∀ part ∈ content, ∀ r ∈ part.records,
      ∃ e, events[r.index]? = some e ∧ recordText encodeLength floor e = some r.text
  | .assistant _ toolCalls => ∀ call ∈ toolCalls, call.1 ∈ (Occurrences.ofEvents events).starts ∧
      ∃ reduced, call.2 = toolCallOf reduced call.1
  | .tool start none content => start ∈ (Occurrences.ofEvents events).starts ∧ content = ACTION_RUNNING
  | .tool start (some finish) content => (start, finish) ∈ (Occurrences.ofEvents events).resolved.pairs ∧
      content = actionResultText encodeLength finish.finished (isReduced floor finish.event)

end

private theorem find?_key_iff {α : Type} {l : List α} {key : α → Nat} (hinj : ∀ a ∈ l, ∀ b ∈ l, key a = key b → a = b)
    {n : Nat} {a : α} : l.find? (fun x => key x == n) = some a ↔ a ∈ l ∧ key a = n := by
  constructor
  · intro hfind
    have hkey := List.find?_some hfind
    exact ⟨mem_of_find?_eq_some hfind, beq_iff_eq.1 hkey⟩
  · rintro ⟨ha, rfl⟩
    have hfound : (l.find? fun x => key x == key a).isSome = true := by
      rw [List.find?_isSome]
      exact ⟨a, ha, beq_self_eq_true _⟩
    obtain ⟨b, hb⟩ := Option.isSome_iff_exists.1 hfound
    have hkey := List.find?_some hb
    rw [hb, hinj b (mem_of_find?_eq_some hb) a ha (beq_iff_eq.1 hkey)]

private theorem append_natText_inj {u v : JsString} {m n : Nat}
    (h : u ++ js ":" ++ natText m = v ++ js ":" ++ natText n) : u = v ∧ m = n := by
  have hlast : ∀ (u : JsString) (n : Nat),
      (u ++ js ":" ++ natText n).reverse.takeWhile isDigit = (natText n).reverse := by
    intro u n
    rw [reverse_append, takeWhile_append_of_pos fun c hc => isDigit_of_mem_natText (mem_reverse.1 hc), reverse_append]
    exact append_nil _
  have heq := congrArg (fun s : JsString => s.reverse.takeWhile isDigit) h
  rw [hlast, hlast] at heq
  have hmn := natText_inj (reverse_injective heq)
  subst hmn
  exact ⟨append_cancel_right (append_cancel_right h), rfl⟩

private theorem occurrenceKey_inj {id id' key : JsString} {turn step turn' step' : Option Nat}
    (h : occurrenceKey id turn step = some key) (h' : occurrenceKey id' turn' step' = some key) :
    id = id' ∧ turn = turn' ∧ step = step' := by
  unfold occurrenceKey at h h'
  split at h <;> cases h
  split at h'
  · obtain ⟨hrest, rfl⟩ := append_natText_inj (Option.some.inj h')
    obtain ⟨rfl, rfl⟩ := append_natText_inj hrest
    exact ⟨rfl, rfl, rfl⟩
  · cases h'

namespace Occurrences

section

variable {events : List LedgerEvent} {m : Fifo.Matching JsString StartOccurrence FinishOccurrence} {key : JsString}

/-- The start is an `action.started` of the timeline with this key. -/
def OpensUnder (events : List LedgerEvent) (s : StartOccurrence) (key : JsString) : Prop :=
  ∃ e a, events[s.index]? = some e ∧ e.body = .actionStarted a ∧ occurrenceKey a.id e.turn e.step = some key

/-- What waits under a key was started with it, and the start and the finish of a pair have one key. -/
structure Keyed (events : List LedgerEvent) (m : Fifo.Matching JsString StartOccurrence FinishOccurrence) : Prop where
  waiting : ∀ key, ∀ s ∈ m.waiting key, OpensUnder events s key
  pairs : ∀ p ∈ m.pairs, ∃ key, OpensUnder events p.1 key ∧
    occurrenceKey p.2.finished.id p.2.event.turn p.2.event.step = some key

private theorem Keyed.snoc (h : Keyed events m) (event : LedgerEvent) : Keyed (events ++ [event]) m := by
  have hkeep : ∀ {s : StartOccurrence} {key}, OpensUnder events s key → OpensUnder (events ++ [event]) s key := by
    rintro s key ⟨e, a, he, hrest⟩
    exact ⟨e, a, (List.getElem?_append_left (List.getElem?_eq_some_iff.1 he).1).trans he, hrest⟩
  refine ⟨fun key s hs => hkeep (h.waiting key s hs), fun p hp => ?_⟩
  obtain ⟨key, hopens, hcloses⟩ := h.pairs p hp
  exact ⟨key, hkeep hopens, hcloses⟩

private theorem Keyed.opened (h : Keyed events m) {s : StartOccurrence} (hs : OpensUnder events s key) :
    Keyed events (m.opened key s) := by
  refine ⟨fun key' t ht => ?_, h.pairs⟩
  rcases Fifo.Matching.mem_opened.1 ht with hold | ⟨rfl, rfl⟩
  · exact h.waiting key' t hold
  · exact hs

private theorem Keyed.closed (h : Keyed events m) {f : FinishOccurrence}
    (hf : occurrenceKey f.finished.id f.event.turn f.event.step = some key) : Keyed events (m.closed key f) := by
  refine ⟨fun key' t ht => h.waiting key' t (Fifo.Matching.mem_closed_waiting ht), fun p hp => ?_⟩
  rcases Fifo.Matching.mem_closed_pairs hp with hold | ⟨hwaiting, rfl⟩
  · exact h.pairs p hold
  · exact ⟨key, h.waiting key p.1 hwaiting, hf⟩

private theorem keyed_ofEvents (events : List LedgerEvent) : Keyed events (ofEvents events).resolved := by
  induction events using List.reverseRecOn with
  | nil => exact ⟨(fun _ _ hs => by cases hs), fun _ hp => by cases hp⟩
  | append_singleton events event ih =>
    have hnext := (indexes_ofEvents events).next
    rw [ofEvents_snoc]
    unfold add
    split
    · rename_i a ha
      dsimp only
      split
      · exact ih.snoc event
      · rename_i key hkey
        refine (ih.snoc event).opened ⟨event, a, ?_, ha, hkey⟩
        rw [startOf, hnext, List.getElem?_concat_length]
    · dsimp only
      split
      · exact ih.snoc event
      · split
        · exact ih.snoc event
        · rename_i key hkey
          exact (ih.snoc event).closed hkey
    all_goals exact ih.snoc event

/-- The start and the finish of a resolved pair have one id, one turn and one step. -/
theorem resolved_pair {p : StartOccurrence × FinishOccurrence} (hp : p ∈ (ofEvents events).resolved.pairs) :
    ∃ e a, events[p.1.index]? = some e ∧ e.body = .actionStarted a ∧ a.id = p.2.finished.id ∧
      e.turn = p.2.event.turn ∧ e.step = p.2.event.step := by
  obtain ⟨key, ⟨e, a, he, ha, hopens⟩, hcloses⟩ := (keyed_ofEvents events).pairs p hp
  exact ⟨e, a, he, ha, occurrenceKey_inj hopens hcloses⟩

end

variable {o : Occurrences} {events : List LedgerEvent}

variable {s : StartOccurrence}

theorem Indexes.start_ext (h : o.Indexes events) {t : StartOccurrence} (hs : s ∈ o.starts) (ht : t ∈ o.starts)
    (hi : s.index = t.index) : s = t := by
  have hnodup : (o.starts.map (·.index)).Nodup := pairwise_map.2 (h.startIndexes.imp Nat.ne_of_lt)
  exact inj_on_of_nodup_map hnodup hs ht hi

variable {p : StartOccurrence × FinishOccurrence}

variable (h : o.Indexes events)
include h

variable (hp : p ∈ o.resolved.pairs)
include hp

theorem Indexes.mem_starts : p.1 ∈ o.starts := h.held _ (.inr ⟨p.2, hp⟩)

theorem Indexes.pair_ext_start {q : StartOccurrence × FinishOccurrence}
    (hq : q ∈ o.resolved.pairs) (hi : p.1.index = q.1.index) : p = q :=
  List.inj_on_of_nodup_map h.distinct.opens hp hq (h.start_ext (h.mem_starts hp) (h.mem_starts hq) hi)

theorem Indexes.pair_ext_finish {q : StartOccurrence × FinishOccurrence}
    (hq : q ∈ o.resolved.pairs) (hi : p.2.index = q.2.index) : p = q := by
  obtain ⟨_, hpe, hpf⟩ := h.ofPair p hp
  obtain ⟨_, hqe, hqf⟩ := h.ofPair q hq
  have hevent : p.2.event = q.2.event := by
    rw [hi, hqe] at hpe
    exact (Option.some.inj hpe).symm
  have hfinished : p.2.finished = q.2.finished := by
    rw [hevent, hqf] at hpf
    exact (Option.some.inj hpf).symm
  have hfinish : p.2 = q.2 := by
    rcases p with ⟨_, _, _, _⟩
    rcases q with ⟨_, _, _, _⟩
    cases hi
    cases hevent
    cases hfinished
    rfl
  exact inj_on_of_nodup_map h.distinct.closes hp hq hfinish

omit hp

theorem Indexes.finishFor_iff (hs : s ∈ o.starts) {f : FinishOccurrence} :
    o.finishFor s = some f ↔ (s, f) ∈ o.resolved.pairs := by
  unfold finishFor
  rw [Option.map_eq_some_iff]
  constructor
  · rintro ⟨p, hp, rfl⟩
    obtain ⟨hmem, hi⟩ := (find?_key_iff fun a ha b hb => h.pair_ext_start ha hb).1 hp
    rw [← h.start_ext (h.mem_starts hmem) hs hi]
    exact hmem
  · intro hp
    exact ⟨(s, f), (find?_key_iff fun a ha b hb => h.pair_ext_start ha hb).2 ⟨hp, rfl⟩, rfl⟩

variable {index : Nat}

theorem Indexes.startFor_iff :
    o.startFor index = some s ↔ ∃ f, (s, f) ∈ o.resolved.pairs ∧ f.index = index := by
  unfold startFor
  rw [Option.map_eq_some_iff]
  constructor
  · rintro ⟨p, hp, rfl⟩
    obtain ⟨hmem, hi⟩ := (find?_key_iff fun a ha b hb => h.pair_ext_finish ha hb).1 hp
    exact ⟨p.2, hmem, hi⟩
  · rintro ⟨f, hp, rfl⟩
    exact ⟨(s, f), (find?_key_iff fun a ha b hb => h.pair_ext_finish ha hb).2 ⟨hp, rfl⟩, rfl⟩

theorem Indexes.startAt_iff : o.startAt index = some s ↔ s ∈ o.starts ∧ s.index = index :=
  find?_key_iff fun _ ha _ hb => h.start_ext ha hb

theorem Indexes.isNative_iff (hs : s ∈ o.starts) :
    o.isNative s = true ↔ ∃ e ∈ events, e.isReasoningCompleted = true ∧ s ∈ o.callsOf e.key := by
  unfold isNative callsOf
  rw [decide_eq_true_eq, h.completedSteps]
  simp only [mem_filter, beq_iff_eq]
  constructor
  · rintro ⟨e, he, hc, hk⟩
    exact ⟨e, he, hc, hs, hk.symm⟩
  · rintro ⟨e, he, hc, _, hk⟩
    exact ⟨e, he, hc, hk.symm⟩

omit h

end Occurrences

/-! ### Records -/

section

variable {encodeLength : JsString → Nat} {images : JsString → Option JsString} {floor : Option Nat} {o : Occurrences}
  {events : List LedgerEvent}

private def recordsOf (item : EmittedItem) : List EventRecord :=
  item.content SourcedMessage.records SourcedPart.records fun r => [r]

private theorem recordsOf_answers (calls : List StartOccurrence) :
    (calls.map (.message ∘ answerOf encodeLength floor o)).flatMap recordsOf = [] := by
  rw [flatMap_eq_nil_iff]
  intro item hitem
  obtain ⟨start, _, rfl⟩ := mem_map.1 hitem
  rfl

private theorem mem_records_emit {event : LedgerEvent} {r : EventRecord}
    (hr : r ∈ (emit encodeLength images floor o index event).flatMap recordsOf) :
    r.index = index ∧ recordText encodeLength floor event = some r.text := by
  have hrecord : (renderEventText encodeLength (isReduced floor event) event).isSome = true →
      r ∈ [recordOf encodeLength floor index event].flatMap recordsOf →
      r.index = index ∧ render encodeLength floor event = some r.text := by
    intro hsome hr
    obtain ⟨text, htext⟩ := Option.isSome_iff_exists.1 hsome
    change r ∈ [(⟨index, (render encodeLength floor event).getD []⟩ : EventRecord)] at hr
    rw [mem_singleton.1 hr, render, htext]
    exact ⟨rfl, rfl⟩
  have hdefault : r ∈ (((render encodeLength floor event).map fun text =>
        (.record ⟨index, text⟩ : EmittedItem)).toList).flatMap recordsOf →
      r.index = index ∧ render encodeLength floor event = some r.text := by
    intro hr
    cases htext : render encodeLength floor event <;> rw [htext] at hr
    case none => cases hr
    case some text =>
      change r ∈ [(⟨index, text⟩ : EventRecord)] at hr
      rw [mem_singleton.1 hr]
      exact ⟨rfl, rfl⟩
  unfold emit at hr
  unfold recordText
  cases hb : event.body with
  | filesAttached f =>
    rw [hb] at hr
    dsimp only at hr ⊢
    split at hr
    · exact hrecord (by rw [renderEventText, hb]; rfl) hr
    rename_i hfull
    have himages : ((f.files.filterMap (imageOf images)).map (.part ∘ .imageUrl)).flatMap recordsOf = [] := by
      rw [flatMap_eq_nil_iff]
      intro item hitem
      obtain ⟨url, _, rfl⟩ := mem_map.1 hitem
      rfl
    rw [flatMap_cons, himages, append_nil] at hr
    change r ∈ [(⟨index, renderFiles event f⟩ : EventRecord)] at hr
    rw [mem_singleton.1 hr, render, renderEventText, hb]
    dsimp only
    rw [if_neg hfull]
    exact ⟨rfl, rfl⟩
  | actionStarted a =>
    rw [hb] at hr
    dsimp only at hr ⊢
    split at hr
    · cases hr
    · exact hrecord (by rw [renderEventText, hb]; rfl) hr
  | reasoningCompleted c =>
    rw [hb] at hr
    dsimp only at hr
    split at hr
    · cases hr
    · rw [flatMap_cons, flatMap_cons, recordsOf_answers] at hr
      cases hr
  | actionFinished f =>
    rw [hb] at hr
    dsimp only at hr ⊢
    split at hr
    · cases hr
    rename_i hafter
    split at hr
    · cases hr
    refine hrecord ?_ hr
    rw [renderEventText, hb]
    dsimp only
    rw [if_neg hafter]
    rfl
  | stepStarted st =>
    rw [hb] at hr
    exact hrecord (by rw [renderEventText, hb]; rfl) hr
  | contextCompacted c =>
    rw [hb] at hr
    change r ∈ [(⟨index, renderCompactionBlock c⟩ : EventRecord)] at hr
    rw [mem_singleton.1 hr]
    exact ⟨rfl, rfl⟩
  | reasoningThinking t =>
    rw [hb] at hr
    cases hr
  | _ =>
    rw [hb] at hr
    exact hdefault hr

private theorem mem_records_emitFrom {r : EventRecord}
    (hr : r ∈ (emitFrom encodeLength images floor o index events).flatMap recordsOf) :
    ∃ i e, events[i]? = some e ∧ r.index = index + i ∧ recordText encodeLength floor e = some r.text := by
  induction events generalizing index with
  | nil => cases hr
  | cons event events ih =>
    rw [emitFrom, flatMap_append, mem_append] at hr
    rcases hr with hr | hr
    · obtain ⟨hi, htext⟩ := mem_records_emit hr
      exact ⟨0, event, rfl, hi, htext⟩
    · obtain ⟨i, e, he, hi, htext⟩ := ih hr
      exact ⟨i + 1, e, he, by omega, htext⟩

/-- The records of one event in the stream are those it emits. -/
private theorem countP_records_emitFrom (encodeLength : JsString → Nat) (images : JsString → Option JsString)
    (floor : Option Nat) (o : Occurrences) {i : Nat} {event : LedgerEvent} (hevent : events[i]? = some event)
    (index : Nat) :
    ((emitFrom encodeLength images floor o index events).flatMap recordsOf).countP (·.index == index + i) =
    ((emit encodeLength images floor o (index + i) event).flatMap recordsOf).length := by
  induction events generalizing index i with
  | nil => simp at hevent
  | cons head events ih =>
    rw [emitFrom, flatMap_append, countP_append]
    cases i with
    | zero =>
      cases hevent
      have hrest : ((emitFrom encodeLength images floor o (index + 1) events).flatMap recordsOf).countP
          (·.index == index + 0) = 0 := by
        rw [countP_eq_zero]
        intro r hr heq
        obtain ⟨j, _, _, hj, _⟩ := mem_records_emitFrom hr
        have := beq_iff_eq.1 heq
        omega
      rw [hrest]
      refine countP_eq_length.2 fun r hr => ?_
      exact beq_iff_eq.2 (mem_records_emit hr).1
    | succ i =>
      have hhead : ((emit encodeLength images floor o index head).flatMap recordsOf).countP
          (·.index == index + (i + 1)) = 0 := by
        rw [countP_eq_zero]
        intro r hr heq
        have := beq_iff_eq.1 heq
        rw [(mem_records_emit hr).1] at this
        omega
      have hi : index + (i + 1) = index + 1 + i := by omega
      rw [hhead, Nat.zero_add, hi]
      exact ih hevent (index + 1)

end

def Occurrences.callStarts (o : Occurrences) (events : List LedgerEvent) : List StartOccurrence :=
  events.flatMap fun event => if event.isReasoningCompleted then o.callsOf event.key else []

private theorem mem_callStarts {o : Occurrences} {events : List LedgerEvent} (h : o.Indexes events)
    {start : StartOccurrence} : start ∈ o.callStarts events ↔ start ∈ o.starts ∧ o.isNative start = true := by
  unfold Occurrences.callStarts
  rw [mem_flatMap]
  constructor
  · rintro ⟨e, he, hstart⟩
    split at hstart
    · rename_i hc
      have hs : start ∈ o.starts := mem_of_mem_filter hstart
      exact ⟨hs, (h.isNative_iff hs).2 ⟨e, he, hc, hstart⟩⟩
    · cases hstart
  · rintro ⟨hs, hnative⟩
    obtain ⟨e, he, hc, hstart⟩ := (h.isNative_iff hs).1 hnative
    exact ⟨e, he, by rw [if_pos hc]; exact hstart⟩

section

variable {encodeLength : JsString → Nat} {images : JsString → Option JsString} {floor : Option Nat} {o : Occurrences}

private theorem fst_callsAt (floor : Option Nat) (events : List LedgerEvent) :
    (events.flatMap (o.callsAt floor)).map Prod.fst = o.callStarts events := by
  rw [map_flatMap]
  congr 1
  funext event
  unfold Occurrences.callsAt
  split
  · rw [map_map]
    exact map_id _
  · rfl

private def answersOf (item : EmittedItem) : List (StartOccurrence × Option FinishOccurrence × JsString) :=
  item.content SourcedMessage.answers (fun _ => []) fun _ => []

private theorem answers_emit (index : Nat) (event : LedgerEvent) :
    (emit encodeLength images floor o index event).flatMap answersOf =
      (if event.isReasoningCompleted then o.callsOf event.key else []).map fun start =>
        (start, o.deliveredBy start, toolResult encodeLength floor o start) := by
  cases hc : event.isReasoningCompleted with
  | false =>
    rw [if_neg Bool.false_ne_true, map_nil, flatMap_eq_nil_iff]
    intro item hitem
    have hquiet := emit_quiet hc index item hitem
    cases item with
    | message m => exact absurd rfl (hquiet m)
    | _ => rfl
  | true =>
    unfold LedgerEvent.isReasoningCompleted at hc
    split at hc
    · rename_i r hb
      rw [emit.eq_def, hb]
      dsimp only
      split
      · rename_i hnone
        rw [hnone.2]
        rfl
      · rw [flatMap_cons, flatMap_cons, flatMap_map]
        exact flatMap_pure_eq_map ..
    · cases hc

private theorem answers_emitFrom (index : Nat) (events : List LedgerEvent) :
    (emitFrom encodeLength images floor o index events).flatMap answersOf =
    (o.callStarts events).map fun start => (start, o.deliveredBy start, toolResult encodeLength floor o start) := by
  induction events generalizing index with
  | nil => rfl
  | cons event events ih =>
    rw [emitFrom, flatMap_append, answers_emit, ih, ← map_append]
    rfl

end

private theorem countP_eq_one {α : Type} [DecidableEq α] {l : List α} (hl : l.Nodup) {p : α → Bool} {a : α}
    (ha : a ∈ l)
    (hp : p a = true) (huniq : ∀ b ∈ l, p b = true → b = a) : l.countP p = 1 := by
  have hcongr : l.countP p = l.countP (· == a) := by
    refine countP_congr fun b hb => ?_
    rw [beq_iff_eq]
    constructor
    · exact huniq b hb
    · rintro rfl
      exact hp
  rw [hcongr]
  exact count_eq_one_of_mem hl ha

section

variable {encodeLength : JsString → Nat} {images : JsString → Option JsString} {floor : Option Nat}
  {events : List LedgerEvent} {i : Nat} {event : LedgerEvent}

/-- A result is in the calls' answers exactly when it is no record. -/
private theorem finish_delivered (honce : (((Occurrences.ofEvents events).callStarts events)).Nodup)
    {f : ActionFinishedEvent} (hfinish : event.finish? = some f) :
    let o := Occurrences.ofEvents events
    let results := (o.callStarts events).countP fun start => (o.deliveredBy start).any (·.index == i)
    let records := ((emit encodeLength images floor o i event).flatMap recordsOf).length
    (results = 1 ∧ records = 0) ∨ (results = 0 ∧ records = 1) := by
  intro o results records
  have h := indexes_ofEvents events
  have hemit : emit encodeLength images floor o i event =
      if (o.startFor i).any fun start => o.isNative start && !o.arrivedLate start then []
      else [recordOf encodeLength floor i event] := by
    unfold LedgerEvent.finish? at hfinish
    split at hfinish
    · rename_i g hb
      split at hfinish
      · cases hfinish
      · rename_i hafter
        rw [emit.eq_def, hb]
        exact if_neg hafter
    · cases hfinish
  -- an answer that delivers the result is the answer of the start it is resolved with
  have hdelivers : ∀ start ∈ o.callStarts events, (o.deliveredBy start).any (·.index == i) = true →
      o.startFor i = some start ∧ o.isNative start = true ∧ o.arrivedLate start = false := by
    intro start hstart hany
    obtain ⟨hs, hnative⟩ := (mem_callStarts h).1 hstart
    unfold Occurrences.deliveredBy at hany
    split at hany
    · cases hany
    rename_i hlate
    rw [Option.any_eq_true] at hany
    obtain ⟨finish, hf, hi⟩ := hany
    refine ⟨h.startFor_iff.2 ⟨finish, (h.finishFor_iff hs).1 hf, beq_iff_eq.1 hi⟩, hnative, ?_⟩
    rwa [Bool.not_eq_true] at hlate
  by_cases hcond : ((o.startFor i).any fun start => o.isNative start && !o.arrivedLate start) = true
  · left
    rw [if_pos hcond] at hemit
    refine ⟨?_, by change ((emit _ _ _ _ _ _).flatMap recordsOf).length = 0; rw [hemit]; rfl⟩
    rw [Option.any_eq_true] at hcond
    obtain ⟨start, hstart, hok⟩ := hcond
    rw [Bool.and_eq_true, Bool.not_eq_true'] at hok
    obtain ⟨finish, hpair, hi⟩ := h.startFor_iff.1 hstart
    have hs := h.mem_starts hpair
    refine countP_eq_one honce ((mem_callStarts h).2 ⟨hs, hok.1⟩) ?_ ?_
    · rw [Occurrences.deliveredBy, hok.2, if_neg Bool.false_ne_true, (h.finishFor_iff hs).2 hpair]
      exact beq_iff_eq.2 hi
    · intro other hother hany
      have := (hdelivers other hother hany).1
      rw [hstart] at this
      exact (Option.some.inj this).symm
  · right
    rw [if_neg hcond] at hemit
    refine ⟨?_, by change ((emit _ _ _ _ _ _).flatMap recordsOf).length = 1; rw [hemit]; rfl⟩
    refine countP_eq_zero.2 fun start hstart hany => hcond ?_
    obtain ⟨hfor, hnative, hlate⟩ := hdelivers start hstart hany
    rw [hfor, Option.any_some, hnative, hlate]
    rfl

/-- An action is a call exactly when it is no record. -/
private theorem start_delivered (honce : (((Occurrences.ofEvents events).callStarts events)).Nodup)
    (hevent : events[i]? = some event) (hstarted : event.isActionStarted = true) :
    let o := Occurrences.ofEvents events
    let calls := (o.callStarts events).countP (·.index == i)
    let records := ((emit encodeLength images floor o i event).flatMap recordsOf).length
    (calls = 1 ∧ records = 0) ∨ (calls = 0 ∧ records = 1) := by
  intro o calls records
  have h := indexes_ofEvents events
  obtain ⟨start, hs, hi⟩ := h.startOfEvent i event hevent hstarted
  have hat : o.startAt i = some start := h.startAt_iff.2 ⟨hs, hi⟩
  have hemit : emit encodeLength images floor o i event =
      if o.isNative start then [] else [recordOf encodeLength floor i event] := by
    obtain ⟨a, ha⟩ := LedgerEvent.isActionStarted_iff.1 hstarted
    rw [emit.eq_def, ha]
    rw [hat]
    rfl
  have hsame : ∀ other ∈ o.callStarts events, (other.index == i) = true → other = start := by
    intro other hother hoi
    exact h.start_ext ((mem_callStarts h).1 hother).1 hs ((beq_iff_eq.1 hoi).trans hi.symm)
  by_cases hnative : o.isNative start = true
  · left
    rw [if_pos hnative] at hemit
    refine ⟨?_, by change ((emit _ _ _ _ _ _).flatMap recordsOf).length = 0; rw [hemit]; rfl⟩
    exact countP_eq_one honce ((mem_callStarts h).2 ⟨hs, hnative⟩) (beq_iff_eq.2 hi) hsame
  right
  rw [if_neg hnative] at hemit
  refine ⟨?_, by change ((emit _ _ _ _ _ _).flatMap recordsOf).length = 1; rw [hemit]; rfl⟩
  refine countP_eq_zero.2 fun other hother hoi => hnative ?_
  rw [← hsame other hother hoi]
  exact ((mem_callStarts h).1 hother).2

end

section

variable {encodeLength : JsString → Nat} {images : JsString → Option JsString} {allowImages : Option Bool}
  {events : List LedgerEvent}

private theorem perm_records :
    ((sourcedReasonContext encodeLength images allowImages events).flatMap SourcedMessage.records).Perm
      ((emitFrom encodeLength (if allowImages = some false then fun _ => none else images) (reducedFloor events)
        (ofEvents (contextEvents events)) 0 (contextEvents events)).flatMap recordsOf) := by
  have hpart : ∀ rs, SourcedPart.records (.text rs) = rs.flatMap fun r => [r] :=
    fun rs => (flatMap_singleton' rs).symm
  have hmessage : ∀ ps, SourcedMessage.records (.user ps) = ps.flatMap SourcedPart.records := fun _ => rfl
  exact perm_assemble hpart hmessage _

private theorem perm_answers :
    ((sourcedReasonContext encodeLength images allowImages events).flatMap SourcedMessage.answers).Perm
      (((ofEvents (contextEvents events)).callStarts (contextEvents events)).map fun start =>
        (start, (ofEvents (contextEvents events)).deliveredBy start,
          toolResult encodeLength (reducedFloor events) (ofEvents (contextEvents events)) start)) := by
  rw [← answers_emitFrom 0]
  exact perm_assemble (fun _ => by simp) (fun _ => by simp [SourcedMessage.answers]) _

/-- What a message of the request shows is what its sources say. -/
private theorem faithful_of_mem {m : SourcedMessage}
    (hm : m ∈ sourcedReasonContext encodeLength images allowImages events) :
    Faithful encodeLength (reducedFloor events) (contextEvents events) m := by
  have h := indexes_ofEvents (contextEvents events)
  cases m with
  | user content =>
    intro part hpart r hr
    have hmem : r ∈ (sourcedReasonContext encodeLength images allowImages events).flatMap SourcedMessage.records :=
      mem_flatMap.2 ⟨_, hm, mem_flatMap.2 ⟨part, hpart, hr⟩⟩
    obtain ⟨i, e, he, hi, htext⟩ := mem_records_emitFrom (perm_records.mem_iff.1 hmem)
    rw [Nat.zero_add] at hi
    exact ⟨e, by rw [hi]; exact he, htext⟩
  | assistant content toolCalls =>
    intro call hcall
    have hmem : call ∈ (sourcedReasonContext encodeLength images allowImages events).flatMap SourcedMessage.calls :=
      mem_flatMap.2 ⟨_, hm, hcall⟩
    obtain ⟨e, _, hat⟩ := mem_flatMap.1 ((perm_sourcedCalls ..).mem_iff.1 hmem)
    refine ⟨(mem_callsAt hat).1, ?_⟩
    unfold callsAt at hat
    split at hat
    · obtain ⟨start, _, rfl⟩ := mem_map.1 hat
      exact ⟨_, rfl⟩
    · cases hat
  | tool start finish content =>
    have hmem : (start, finish, content) ∈
        (sourcedReasonContext encodeLength images allowImages events).flatMap SourcedMessage.answers :=
      mem_flatMap.2 ⟨_, hm, mem_singleton.2 rfl⟩
    obtain ⟨start', hstart, heq⟩ := mem_map.1 (perm_answers.mem_iff.1 hmem)
    cases heq
    have hs := ((mem_callStarts h).1 hstart).1
    rw [toolResult_eq]
    cases hd : (ofEvents (contextEvents events)).deliveredBy start with
    | none => exact ⟨hs, rfl⟩
    | some finish =>
      unfold deliveredBy at hd
      split at hd
      · cases hd
      · exact ⟨(h.finishFor_iff hs).1 hd, rfl⟩

end

/-- The request is the sourced one without its sources, and these are what it shows.  No occurrence has two tool
messages.  Every result above the floor that did not come after an interrupt is in the request once, as the content of
the tool message of its occurrence or as a record; every action above the floor once, as a tool call or as a
record. -/
theorem renderReasonContext_delivers (encodeLength : JsString → Nat) (images : JsString → Option JsString)
    (allowImages : Option Bool) (events : List LedgerEvent) (honce : OneOutputPerStep events) :
    let messages := sourcedReasonContext encodeLength images allowImages events
    renderReasonContext encodeLength images allowImages events = messages.map SourcedMessage.erase ∧
    (∀ m ∈ messages, Faithful encodeLength (reducedFloor events) (contextEvents events) m) ∧
    ((messages.flatMap SourcedMessage.answers).map Prod.fst).Nodup ∧
    (∀ i e f, (contextEvents events)[i]? = some e → e.finish? = some f →
      (resultCount messages i = 1 ∧ recordCount messages i = 0) ∨
        (resultCount messages i = 0 ∧ recordCount messages i = 1)) ∧
    ∀ i e, (contextEvents events)[i]? = some e → e.isActionStarted = true →
      (callCount messages i = 1 ∧ recordCount messages i = 0) ∨
        (callCount messages i = 0 ∧ recordCount messages i = 1) := by
  intro messages
  have hnodup : ((ofEvents (contextEvents events)).callStarts (contextEvents events)).Nodup := by
    rw [← fst_callsAt (reducedFloor events)]
    exact nodup_calls (honce.sublist (contextEvents_sublist events)) _
  have hresults : ∀ i, resultCount messages i =
      ((ofEvents (contextEvents events)).callStarts (contextEvents events)).countP fun start =>
        ((ofEvents (contextEvents events)).deliveredBy start).any (·.index == i) := by
    intro i
    rw [resultCount, perm_answers.countP_eq, List.countP_map]
    rfl
  have hcalls : ∀ i, callCount messages i =
      ((ofEvents (contextEvents events)).callStarts (contextEvents events)).countP (·.index == i) := by
    intro i
    rw [callCount, (perm_sourcedCalls ..).countP_eq, ← fst_callsAt (reducedFloor events), List.countP_map]
    rfl
  have hrecords : ∀ {i e}, (contextEvents events)[i]? = some e → recordCount messages i =
      ((emit encodeLength (if allowImages = some false then fun _ => none else images) (reducedFloor events)
        (ofEvents (contextEvents events)) i e).flatMap recordsOf).length := by
    intro i e he
    have hcount := countP_records_emitFrom encodeLength (if allowImages = some false then fun _ => none else images)
      (reducedFloor events) (ofEvents (contextEvents events)) he 0
    rw [Nat.zero_add] at hcount
    rw [recordCount, perm_records.countP_eq]
    exact hcount
  refine ⟨renderReasonContext_eq .., fun m hm => faithful_of_mem hm, ?_, ?_, ?_⟩
  · rw [(perm_answers.map _).nodup_iff, List.map_map]
    exact (List.map_id _).symm ▸ hnodup
  · intro i e f he hf
    rw [hresults, hrecords he]
    exact finish_delivered hnodup hf
  · intro i e he hstarted
    rw [hcalls, hrecords he]
    exact start_delivered hnodup he hstarted

theorem renderReasonContext_delivers_lateResult : OneOutputPerStep (runningAction ++ lateResult) ∧
    recordCount (sourcedReasonContext List.length (fun _ => none) none (runningAction ++ lateResult)) 4 = 1 := by
  have honce : OneOutputPerStep (runningAction ++ lateResult) := by
    unfold OneOutputPerStep
    decide
  obtain ⟨_, _, _, hfinish, _⟩ := renderReasonContext_delivers List.length (fun _ => none) none
    (runningAction ++ lateResult) honce
  refine ⟨honce, ?_⟩
  rcases hfinish 4 _ _ rfl rfl with ⟨hone, _⟩ | ⟨_, hone⟩
  · exact absurd hone (by decide)
  · exact hone

end Wrenyard.Session
