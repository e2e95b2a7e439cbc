import Mathlib.Data.List.Induction
import Wrenyard.Js.Json

/-!
# Replay history of one execution

History is append-only and evicted oldest-first under two independent ceilings, on the number of records and on their
approximated bytes.  `Holds` relates a buffer to everything that was ever appended: what is retained is the rest of it
after the evicted events, numbered from one.  From it, reading after a valid cursor gives exactly the later events
where none of them was evicted, and a gap where one was (`read_holds`).
-/

namespace Wrenyard.Exec

open Js List

abbrev ExecId := JsString

structure ExecEventEnvelope where
  id : ExecId
  seq : Nat
  event : Json

inductive ExecReplayEviction where
  | count
  | bytes

inductive ExecReplayResult where
  | events (events : List ExecEventEnvelope) (nextSeq : Nat)
  | cursorExpired (oldestRetainedSeq : Nat)

mutual

/-- `measure(value, depth)`. -/
def measure (depth : Nat) : Json → Nat
  | .str s => if depth > 8 then 1 else s.length * 2
  | .num _ | .bool _ | .null => if depth > 8 then 1 else 8
  | .arr items => if depth > 8 then 1 else 2 + measureItems depth items
  | .obj members => if depth > 8 then 1 else 2 + measureMembers depth members

def measureItems (depth : Nat) : List Json → Nat
  | [] => 0
  | item :: items => measure (depth + 1) item + 1 + measureItems depth items

def measureMembers (depth : Nat) : List (JsString × Json) → Nat
  | [] => 0
  | (key, item) :: members => key.length + measure (depth + 1) item + 2 + measureMembers depth members

end

/-- Cheap upper bound on the retained size of one event record. -/
def estimateBytes (value : Json) : Nat := measure 0 value

/-- `Math.max(1, Math.trunc(n))`; infinity is no limit. -/
def limitOf (n : Option JsNumber) : Option Nat := n.map fun n => max 1 (if n.negative then 0 else n.whole)

/-- `n > limit`. -/
def exceeds (n : Nat) (limit : Option Nat) : Bool := limit.any (· < n)

structure ExecReplayBuffer where
  maxEvents : Option Nat
  maxBytes : Option Nat
  records : List ExecEventEnvelope
  recordBytes : List Nat
  bytes : Nat
  nextSeq : Nat

namespace ExecReplayBuffer

/-- A new buffer under the two bounds of its options. -/
def create (maxEvents maxBytes : Option JsNumber) : ExecReplayBuffer :=
  ⟨limitOf maxEvents, limitOf maxBytes, [], [], 0, 1⟩

variable (b : ExecReplayBuffer)

/-- Sequence number of the oldest retained record, or `nextSeq` when empty. -/
def oldestRetainedSeq : Nat :=
  match b.records with
  | [] => b.nextSeq
  | record :: _ => record.seq

def evictOldest : ExecReplayBuffer :=
  { b with records := b.records.tail, recordBytes := b.recordBytes.tail, bytes := b.bytes - b.recordBytes.headD 0 }

def evictWhile (tooLarge : ExecReplayBuffer → Bool) (reason : ExecReplayEviction) :
    Nat → ExecReplayBuffer → ExecReplayBuffer × List (Nat × ExecReplayEviction)
  | 0, b => (b, [])
  | fuel + 1, b =>
    if tooLarge b then
      let rest := evictWhile tooLarge reason fuel b.evictOldest
      (rest.1, (b.oldestRetainedSeq, reason) :: rest.2)
    else (b, [])

def overCount : Bool := exceeds b.records.length b.maxEvents

def overBytes : Bool := exceeds b.bytes b.maxBytes && decide (0 < b.records.length)

/-- Trim history back within both ceilings; no loop takes more turns than there are records. -/
def trim : ExecReplayBuffer × List (Nat × ExecReplayEviction) :=
  let counted := evictWhile overCount .count b.records.length b
  let sized := evictWhile overBytes .bytes counted.1.records.length counted.1
  (sized.1, counted.2 ++ sized.2)

def append (id : ExecId) (event : Json) : ExecReplayBuffer × List (Nat × ExecReplayEviction) :=
  trim { b with
    records := b.records ++ [⟨id, b.nextSeq, event⟩]
    recordBytes := b.recordBytes ++ [estimateBytes event]
    bytes := b.bytes + estimateBytes event
    nextSeq := b.nextSeq + 1 }

/-- Read every retained event after `afterSeq`; nothing for a cursor that is not valid. -/
def read (afterSeq : Int) : Option ExecReplayResult :=
  if afterSeq < 0 ∨ maxSafeInteger < afterSeq ∨ (b.nextSeq : Int) ≤ afterSeq then none
  else if afterSeq < (b.oldestRetainedSeq : Int) - 1 then some (.cursorExpired b.oldestRetainedSeq)
  else
    let events := b.records.filter fun record => decide (afterSeq < record.seq)
    some (.events events (events.getLast?.elim afterSeq.toNat (·.seq)))

/-! ### What was appended -/

/-- The records of appended events, numbered from `first`. -/
def numbered (id : ExecId) : Nat → List Json → List ExecEventEnvelope
  | _, [] => []
  | first, event :: events => ⟨id, first, event⟩ :: numbered id (first + 1) events

@[simp] theorem length_numbered (id : ExecId) (first : Nat) (events : List Json) :
    (numbered id first events).length = events.length := by
  induction events generalizing first with
  | nil => rfl
  | cons event events ih => simp [numbered, ih]

theorem numbered_append (id : ExecId) (first : Nat) (xs ys : List Json) :
    numbered id first (xs ++ ys) = numbered id first xs ++ numbered id (first + xs.length) ys := by
  induction xs generalizing first with
  | nil => simp [numbered]
  | cons x xs ih =>
    simp only [cons_append, numbered, ih, length_cons]
    congr 3
    omega

theorem filter_numbered (id : ExecId) (first : Nat) (events : List Json) (c : Nat) :
    ((numbered id first events).filter fun record => decide ((c : Int) < record.seq)) =
      numbered id (max first (c + 1)) (events.drop (c + 1 - first)) := by
  induction events generalizing first with
  | nil => simp [numbered]
  | cons event events ih =>
    have hcons : numbered id first (event :: events) = ⟨id, first, event⟩ :: numbered id (first + 1) events := rfl
    rw [hcons, filter_cons, ih]
    by_cases h : c < first
    · have h1 : max first (c + 1) = first := by omega
      have h2 : max (first + 1) (c + 1) = first + 1 := by omega
      have h3 : c + 1 - first = 0 := by omega
      have h4 : c + 1 - (first + 1) = 0 := by omega
      have h5 : (c : Int) < first := by omega
      simp only [h1, h2, h3, h4, h5, decide_true, if_true, drop_zero, hcons]
    · have h1 : max (first + 1) (c + 1) = max first (c + 1) := by omega
      have h2 : c + 1 - first = (c + 1 - (first + 1)) + 1 := by omega
      have h3 : ¬ (c : Int) < first := by omega
      simp only [h1, h2, h3, decide_false, Bool.false_eq_true, if_false, drop_succ_cons]

structure Holds (id : ExecId) (appended : List Json) (b : ExecReplayBuffer) : Prop where
  next : b.nextSeq = appended.length + 1
  oldest : 1 ≤ b.oldestRetainedSeq ∧ b.oldestRetainedSeq ≤ b.nextSeq
  records : b.records = numbered id b.oldestRetainedSeq (appended.drop (b.oldestRetainedSeq - 1))
  sizes : b.recordBytes = b.records.map fun record => estimateBytes record.event
  bytes : b.bytes = (b.records.map fun record => estimateBytes record.event).foldr (· + ·) 0

variable {id : ExecId} {appended : List Json} {b : ExecReplayBuffer}

theorem Holds.length (h : Holds id appended b) :
    b.records.length + b.oldestRetainedSeq = b.nextSeq := by
  have hlength := congrArg List.length h.records
  rw [length_numbered, length_drop] at hlength
  have := h.next
  have := h.oldest
  omega

theorem Holds.evictOldest (h : Holds id appended b) (hne : b.records ≠ []) :
    Holds id appended b.evictOldest ∧ b.evictOldest.oldestRetainedSeq = b.oldestRetainedSeq + 1 := by
  have hlength := h.length
  cases hrecords : b.records with
  | nil => exact absurd hrecords hne
  | cons record rest =>
    have hdrop : ∃ event events, appended.drop (b.oldestRetainedSeq - 1) = event :: events := by
      cases hd : appended.drop (b.oldestRetainedSeq - 1) with
      | nil =>
        have hrec := h.records
        rw [hd, hrecords] at hrec
        cases hrec
      | cons event events => exact ⟨event, events, rfl⟩
    obtain ⟨event, events, hevents⟩ := hdrop
    have hrec := h.records
    rw [hevents, hrecords] at hrec
    obtain ⟨-, hrest⟩ := List.cons.inj hrec
    have hnext : appended.drop (b.oldestRetainedSeq + 1 - 1) = events := by
      have htail := congrArg List.tail hevents
      rw [tail_drop, tail_cons] at htail
      have hpos := h.oldest.1
      rw [← htail]
      congr 1
      omega
    have hseq : b.evictOldest.oldestRetainedSeq = b.oldestRetainedSeq + 1 := by
      show (match b.records.tail with
        | [] => b.nextSeq
        | record :: _ => record.seq) = _
      rw [hrecords, tail_cons]
      cases events with
      | nil =>
        rw [hrest]
        rw [hrecords, hrest] at hlength
        simp only [numbered, length_cons, length_nil] at hlength ⊢
        omega
      | cons e es => rw [hrest]; rfl
    refine ⟨⟨h.next, ?_, ?_, ?_, ?_⟩, hseq⟩
    · rw [hseq]
      show 1 ≤ b.oldestRetainedSeq + 1 ∧ b.oldestRetainedSeq + 1 ≤ b.nextSeq
      rw [hrecords, length_cons] at hlength
      omega
    · rw [hseq, hnext]
      show b.records.tail = _
      rw [hrecords, tail_cons, hrest]
    · show b.recordBytes.tail = b.records.tail.map _
      rw [h.sizes, map_tail]
    · show b.bytes - b.recordBytes.headD 0 =
          (b.records.tail.map fun record => estimateBytes record.event).foldr (· + ·) 0
      rw [h.bytes, h.sizes, hrecords]
      simp

theorem evictWhile_holds {id : ExecId} {appended : List Json} {tooLarge : ExecReplayBuffer → Bool}
    {reason : ExecReplayEviction} (hempty : ∀ b, b.records = [] → tooLarge b = false) (fuel : Nat)
    {b : ExecReplayBuffer} (h : Holds id appended b) (hfuel : b.records.length ≤ fuel) :
    Holds id appended (evictWhile tooLarge reason fuel b).1 ∧ tooLarge (evictWhile tooLarge reason fuel b).1 = false ∧
    b.oldestRetainedSeq ≤ (evictWhile tooLarge reason fuel b).1.oldestRetainedSeq ∧
    (evictWhile tooLarge reason fuel b).1.maxEvents = b.maxEvents ∧ (evictWhile tooLarge reason fuel b).1.maxBytes =
    b.maxBytes ∧ (evictWhile tooLarge reason fuel b).1.records.length ≤ b.records.length ∧
    ∀ seq, seq ∈ (evictWhile tooLarge reason fuel b).2.map Prod.fst ↔ b.oldestRetainedSeq ≤ seq ∧
    seq < (evictWhile tooLarge reason fuel b).1.oldestRetainedSeq := by
  induction fuel generalizing b with
  | zero =>
    have hnil : b.records = [] := length_eq_zero_iff.1 (Nat.le_zero.1 hfuel)
    refine ⟨h, hempty b hnil, Nat.le_refl _, rfl, rfl, Nat.le_refl _, fun seq => ?_⟩
    have hloop : evictWhile tooLarge reason 0 b = (b, []) := rfl
    rw [hloop]
    simp only [map_nil, not_mem_nil, false_iff, not_and, Nat.not_lt]
    exact fun hle => hle
  | succ fuel ih =>
    cases hover : tooLarge b with
    | false =>
      have hloop : evictWhile tooLarge reason (fuel + 1) b = (b, []) := by
        unfold evictWhile
        rw [hover]
        rfl
      rw [hloop]
      refine ⟨h, hover, Nat.le_refl _, rfl, rfl, Nat.le_refl _, fun seq => ?_⟩
      simp only [map_nil, not_mem_nil, false_iff, not_and, Nat.not_lt]
      exact fun hle => hle
    | true =>
      have hne : b.records ≠ [] := fun hnil => by
        rw [hempty b hnil] at hover
        cases hover
      obtain ⟨hevicted, hseq⟩ := h.evictOldest hne
      have htail : b.evictOldest.records.length + 1 = b.records.length := by
        show b.records.tail.length + 1 = _
        rw [length_tail]
        have := length_pos_of_ne_nil hne
        omega
      obtain ⟨hholds, hstop, hle, hevents, hbytes, hlength, hmem⟩ := ih hevicted (by omega)
      have hloop : evictWhile tooLarge reason (fuel + 1) b =
          ((evictWhile tooLarge reason fuel b.evictOldest).1,
            (b.oldestRetainedSeq, reason) :: (evictWhile tooLarge reason fuel b.evictOldest).2) := by
        rw [evictWhile, hover]
        rfl
      rw [hloop]
      dsimp only
      refine ⟨hholds, hstop, by omega, hevents, hbytes, by omega, fun seq => ?_⟩
      rw [map_cons, mem_cons, hmem, hseq]
      omega

def Bounded (b : ExecReplayBuffer) : Prop :=
  (∀ limit ∈ b.maxEvents, b.records.length ≤ limit) ∧ (∀ limit ∈ b.maxBytes, b.bytes ≤ limit)

theorem exceeds_eq_false {n : Nat} {limit : Option Nat} : exceeds n limit = false ↔ ∀ m ∈ limit, n ≤ m := by
  cases limit with
  | none | some => simp [exceeds]

theorem overCount_of_nil (b : ExecReplayBuffer) (h : b.records = []) : overCount b = false := by
  unfold overCount
  rw [h, exceeds_eq_false]
  exact fun _ _ => Nat.zero_le _

theorem overBytes_of_nil (b : ExecReplayBuffer) (h : b.records = []) : overBytes b = false := by
  unfold overBytes
  rw [h]
  simp

theorem bytes_le_of_overBytes (h : Holds id appended b) (hstop : overBytes b = false) :
    ∀ limit ∈ b.maxBytes, b.bytes ≤ limit := by
  unfold overBytes at hstop
  rw [Bool.and_eq_false_iff] at hstop
  rcases hstop with hstop | hstop
  · exact exceeds_eq_false.1 hstop
  have hnil := length_eq_zero_iff.1 (Nat.eq_zero_of_not_pos (of_decide_eq_false hstop))
  have hzero := h.bytes
  rw [hnil] at hzero
  intro limit _
  rw [hzero]
  exact Nat.zero_le _

theorem append_holds (h : Holds id appended b) (event : Json) :
    Holds id (appended ++ [event]) (b.append id event).1 ∧ Bounded (b.append id event).1 ∧
    (b.append id event).1.maxEvents = b.maxEvents ∧ (b.append id event).1.maxBytes = b.maxBytes ∧
    b.oldestRetainedSeq ≤ (b.append id event).1.oldestRetainedSeq ∧ ∀ seq, seq ∈ (b.append id event).2.map Prod.fst ↔
    b.oldestRetainedSeq ≤ seq ∧ seq < (b.append id event).1.oldestRetainedSeq := by
  have hnext := h.next
  have holdest := h.oldest
  let pushed : ExecReplayBuffer := { b with
    records := b.records ++ [⟨id, b.nextSeq, event⟩]
    recordBytes := b.recordBytes ++ [estimateBytes event]
    bytes := b.bytes + estimateBytes event
    nextSeq := b.nextSeq + 1 }
  have hsame : pushed.oldestRetainedSeq = b.oldestRetainedSeq := by
    show (match b.records ++ [⟨id, b.nextSeq, event⟩] with
      | [] => b.nextSeq + 1
      | record :: _ => record.seq) = b.oldestRetainedSeq
    unfold oldestRetainedSeq
    cases b.records <;> rfl
  have hpushed : Holds id (appended ++ [event]) pushed := by
    refine ⟨?_, ?_, ?_, ?_, ?_⟩
    · show b.nextSeq + 1 = _
      rw [length_append, length_singleton, hnext]
    · rw [hsame]
      show 1 ≤ b.oldestRetainedSeq ∧ b.oldestRetainedSeq ≤ b.nextSeq + 1
      omega
    · rw [hsame, drop_append_of_le_length (by omega), numbered_append, ← h.records]
      show b.records ++ [⟨id, b.nextSeq, event⟩] = b.records ++ numbered id _ [event]
      have hseq : b.oldestRetainedSeq + (appended.drop (b.oldestRetainedSeq - 1)).length = b.nextSeq := by
        rw [length_drop]
        omega
      rw [hseq]
      rfl
    · show b.recordBytes ++ [estimateBytes event] = _
      rw [h.sizes, map_append]
      rfl
    · show b.bytes + estimateBytes event = _
      rw [h.bytes, map_append, foldr_append]
      have hsum : ∀ (xs : List Nat) (y : Nat), xs.foldr (· + ·) y = xs.foldr (· + ·) 0 + y := by
        intro xs y
        induction xs with
        | nil => simp
        | cons x xs ih => rw [foldr_cons, foldr_cons, ih]; omega
      rw [hsum _ (List.foldr _ _ _)]
      rfl
  obtain ⟨hcounted, hcountStop, hcountLe, hcountEvents, hcountBytes, -, hcountMem⟩ :=
    @evictWhile_holds id _ overCount .count overCount_of_nil pushed.records.length pushed hpushed (Nat.le_refl _)
  obtain ⟨hsized, hsizeStop, hsizeLe, hsizeEvents, hsizeBytes, hsizeLength, hsizeMem⟩ :=
    @evictWhile_holds id _ overBytes .bytes overBytes_of_nil _ _ hcounted (Nat.le_refl _)
  refine ⟨hsized, ⟨fun limit hlimit => ?_, fun limit hlimit => ?_⟩, hsizeEvents.trans hcountEvents,
    hsizeBytes.trans hcountBytes, ?_, fun seq => ?_⟩
  · have hlimit' : limit ∈ (evictWhile overCount .count pushed.records.length pushed).1.maxEvents := by
      rw [← hsizeEvents]
      exact hlimit
    exact Nat.le_trans hsizeLength (exceeds_eq_false.1 hcountStop limit hlimit')
  · exact bytes_le_of_overBytes hsized hsizeStop limit hlimit
  · rw [← hsame]
    exact Nat.le_trans hcountLe hsizeLe
  · show seq ∈ ((evictWhile overCount .count pushed.records.length pushed).2 ++ _).map Prod.fst ↔ _
    rw [map_append, mem_append, hcountMem, hsizeMem, hsame]
    have hle : b.oldestRetainedSeq ≤ _ := hsame ▸ hcountLe
    constructor
    · rintro (hmem | hmem)
      · exact ⟨hmem.1, Nat.lt_of_lt_of_le hmem.2 hsizeLe⟩
      · exact ⟨Nat.le_trans hle hmem.1, hmem.2⟩
    · intro hmem
      rcases Nat.lt_or_ge seq
        (evictWhile overCount .count pushed.records.length pushed).1.oldestRetainedSeq with hlt | hge
      · exact .inl ⟨hmem.1, hlt⟩
      · exact .inr ⟨hge, hmem.2⟩

/-- Reading after a valid cursor: the later events where none was evicted, a gap where one was. -/
theorem read_holds (h : Holds id appended b) {c : Nat} (hc : c ≤ appended.length)
    (hsafe : (c : Int) ≤ maxSafeInteger) :
    b.read c = if c + 1 < b.oldestRetainedSeq then some (.cursorExpired b.oldestRetainedSeq)
      else some (.events (numbered id (c + 1) (appended.drop c)) appended.length) := by
  have hnext := h.next
  have holdest := h.oldest
  unfold read
  rw [if_neg (by omega)]
  by_cases hgap : c + 1 < b.oldestRetainedSeq
  · rw [if_pos (by omega), if_pos hgap]
  rw [if_neg (by omega), if_neg hgap]
  have hevents : (b.records.filter fun record => decide ((c : Int) < record.seq)) =
      numbered id (c + 1) (appended.drop c) := by
    rw [h.records, filter_numbered, drop_drop]
    congr 1
    · omega
    · congr 1
      omega
  rw [hevents]
  have hlast : (numbered id (c + 1) (appended.drop c)).getLast?.elim (c : Int).toNat (·.seq) = appended.length := by
    rcases eq_nil_or_concat (appended.drop c) with hnil | ⟨init, last, hlast⟩
    · rw [hnil]
      have := congrArg List.length hnil
      rw [length_drop, length_nil] at this
      show Int.toNat c = _
      omega
    · have hlength := congrArg List.length hlast
      rw [hlast, concat_eq_append, numbered_append]
      rw [length_drop, length_concat] at hlength
      show (numbered id (c + 1) init ++ [(⟨id, c + 1 + init.length, last⟩ : ExecEventEnvelope)]).getLast?.elim _ _ = _
      rw [List.getLast?_concat]
      show c + 1 + init.length = _
      omega
  dsimp only
  rw [hlast]

theorem holds_create (id : ExecId) (maxEvents maxBytes : Option JsNumber) : Holds id [] (create maxEvents maxBytes) :=
  ⟨rfl, ⟨Nat.le_refl 1, Nat.le_refl 1⟩, rfl, rfl, rfl⟩

theorem bounded_create (maxEvents maxBytes : Option JsNumber) : Bounded (create maxEvents maxBytes) :=
  ⟨fun _ _ => Nat.zero_le _, fun _ _ => Nat.zero_le _⟩

def appendAll (id : ExecId) (b : ExecReplayBuffer) (events : List Json) : ExecReplayBuffer × List Nat :=
  events.foldl (fun acc event =>
    ((acc.1.append id event).1, acc.2 ++ (acc.1.append id event).2.map Prod.fst)) (b, [])

/-- After any appends the bounds hold, and the dropped sequence numbers are those before the oldest retained one. -/
theorem appendAll_holds (id : ExecId) (maxEvents maxBytes : Option JsNumber) (events : List Json) :
    Holds id events (appendAll id (create maxEvents maxBytes) events).1 ∧
    Bounded (appendAll id (create maxEvents maxBytes) events).1 ∧
    ∀ seq, seq ∈ (appendAll id (create maxEvents maxBytes) events).2 ↔ 1 ≤ seq ∧
    seq < (appendAll id (create maxEvents maxBytes) events).1.oldestRetainedSeq := by
  induction events using List.reverseRecOn with
  | nil =>
    refine ⟨holds_create id _ _, bounded_create _ _, fun seq => ?_⟩
    show seq ∈ [] ↔ 1 ≤ seq ∧ seq < 1
    simp only [not_mem_nil, false_iff]
    omega
  | append_singleton events event ih =>
    obtain ⟨hholds, -, hmem⟩ := ih
    obtain ⟨hholds', hbounded, -, -, hle, hmem'⟩ := append_holds hholds event
    have hlast : appendAll id (create maxEvents maxBytes) (events ++ [event]) =
        (((appendAll id (create maxEvents maxBytes) events).1.append id event).1,
          (appendAll id (create maxEvents maxBytes) events).2 ++
            ((appendAll id (create maxEvents maxBytes) events).1.append id event).2.map Prod.fst) := by
      unfold appendAll
      rw [foldl_concat]
    rw [hlast]
    refine ⟨hholds', hbounded, fun seq => ?_⟩
    rw [mem_append, hmem, hmem']
    have := hholds.oldest.1
    dsimp only
    omega

end ExecReplayBuffer

end Wrenyard.Exec
