import Wrenyard.Control.JsonRpcClient
import Wrenyard.Lib.Transition

/-!
# The table of pending requests

A row of the table belongs to the one request that has its key and has not settled, as long as the ids that a client
is given are fresh (`Table`).  Every step keeps this, and a request settles in it only for a cause: the response that
bears its id, its timer, its own send, or what closes the client (`table_perform`).
-/

namespace Wrenyard.Control

open Js List Option

namespace State

variable {cfg : JsonRpcClientOptions} {st st' : State}

def Untimed (st : State) (k : Nat) : Prop := ∀ r, st.requests[k]? = some r → r.timeoutMs = some none

theorem keyOf_settle (k : Nat) (o : Outcome) (j : Nat) : (st.settle k o).keyOf j = st.keyOf j := by
  unfold keyOf settle
  rw [List.getElem?_modify]
  split <;> cases st.requests[j]? <;> rfl

theorem outcomes_settle_self {k : Nat} (hk : k < st.requests.length) (o : Outcome) :
    (st.settle k o).outcomes k = st.outcomes k ++ [o] := by
  unfold outcomes settle
  rw [List.getElem?_modify_eq, List.getElem?_eq_getElem hk]
  rfl

theorem outcomes_settle_of_ne {j k : Nat} (h : k ≠ j) (o : Outcome) : (st.settle k o).outcomes j = st.outcomes j := by
  unfold outcomes settle
  simp only [List.getElem?_modify_ne _ _ h]

theorem untimed_settle (k : Nat) (o : Outcome) (j : Nat) : (st.settle k o).Untimed j ↔ st.Untimed j := by
  unfold Untimed settle
  simp only [List.getElem?_modify]
  cases st.requests[j]? with
  | none => simp
  | some r => split <;> simp

variable {key : JsString}

theorem lt_of_keyOf {k : Nat} (h : st.keyOf k = some key) : k < st.requests.length := by
  by_contra hge
  unfold keyOf at h
  rw [List.getElem?_eq_none (by omega)] at h
  cases h

variable {r : Request}

theorem keyOf_eq {k : Nat} (h : st.requests[k]? = some r) : st.keyOf k = r.id.map pendingKey := by
  unfold keyOf
  rw [h]
  rfl

theorem outcomes_eq {k : Nat} (h : st.requests[k]? = some r) : st.outcomes k = r.outcomes := by
  unfold outcomes
  rw [h]
  rfl

/-! ### The table -/

structure Table (cfg : JsonRpcClientOptions) (st : State) : Prop where
  rows : ∀ key k, st.pending.get key = some k → st.keyOf k = some key ∧ st.outcomes k = []
  owed : ∀ k key, st.keyOf k = some key → st.outcomes k = [] → st.pending.get key = some k ∧
    (¬ st.Untimed k → k ∈ st.timers)
  once : ∀ k, (st.outcomes k).length ≤ 1
  timers : ∀ k ∈ st.timers, ∃ key, st.keyOf k = some key ∧ st.pending.get key = some k
  sending : ∀ k ∈ st.sending, ∃ key, st.keyOf k = some key ∧ ∀ j, st.pending.get key = some j → j = k
  keys : st.pending.keys.Nodup
  numbers : cfg.idFactory = false → ∀ k key, st.keyOf k = some key →
    ∃ i < st.nextNumericId, key = pendingKey (.num (.ofNat i))
  closed : st.closedError.isSome = true → st.pending = []

variable (h : Table cfg st)
include h

/-- Only what the table is about counts. -/
theorem Table.congr (hkey : ∀ j, st'.keyOf j = st.keyOf j) (hout : ∀ j, st'.outcomes j = st.outcomes j)
    (huntimed : ∀ j key, st.keyOf j = some key → (st'.Untimed j ↔ st.Untimed j)) (hpending : st'.pending = st.pending)
    (htimers : st'.timers = st.timers) (hsending : ∀ j ∈ st'.sending, j ∈ st.sending)
    (hnext : st'.nextNumericId = st.nextNumericId) (hclosed : st'.closedError = st.closedError) : Table cfg st' where
  rows key k hk := by
    rw [hpending] at hk
    rw [hkey, hout]
    exact h.rows key k hk
  owed k key hk ho := by
    rw [hkey] at hk
    rw [hout] at ho
    rw [hpending, htimers, huntimed k key hk]
    exact h.owed k key hk ho
  once k := by
    rw [hout]
    exact h.once k
  timers k hk := by
    rw [htimers] at hk
    rw [hpending, hkey]
    exact h.timers k hk
  sending k hk := by
    rw [hpending, hkey]
    exact h.sending k (hsending k hk)
  keys := by
    rw [hpending]
    exact h.keys
  numbers hf k key hk := by
    rw [hkey] at hk
    rw [hnext]
    exact h.numbers hf k key hk
  closed hc := by
    rw [hclosed] at hc
    rw [hpending]
    exact h.closed hc

theorem Table.settle_waiting {k : Nat} (hkey : st.keyOf k = none) (hout : st.outcomes k = [])
    (o : Outcome) : Table cfg (st.settle k o) := by
  have hne : ∀ j key, st.keyOf j = some key → k ≠ j := by
    rintro j key hj rfl
    rw [hkey] at hj
    cases hj
  constructor
  · intro key j hj
    obtain ⟨h1, h2⟩ := h.rows key j hj
    exact ⟨by rw [keyOf_settle, h1], by rw [outcomes_settle_of_ne (hne j key h1), h2]⟩
  · intro j key hj ho
    rw [keyOf_settle] at hj
    rw [outcomes_settle_of_ne (hne j key hj)] at ho
    rw [untimed_settle]
    exact h.owed j key hj ho
  · intro j
    by_cases hj : k = j
    · subst hj
      by_cases hlt : k < st.requests.length
      · rw [outcomes_settle_self hlt, hout]
        exact Nat.le_refl 1
      · unfold outcomes settle
        rw [List.getElem?_eq_none (by rw [length_modify]; omega)]
        exact Nat.zero_le 1
    · rw [outcomes_settle_of_ne hj]
      exact h.once j
  · intro j hj
    obtain ⟨key, h1, h2⟩ := h.timers j hj
    exact ⟨key, by rw [keyOf_settle, h1], h2⟩
  · intro j hj
    obtain ⟨key, h1, h2⟩ := h.sending j hj
    exact ⟨key, by rw [keyOf_settle, h1], h2⟩
  · exact h.keys
  · intro hf j key hj
    rw [keyOf_settle] at hj
    exact h.numbers hf j key hj
  · exact h.closed

theorem Table.takeRow {k : Nat} (hrow : st.pending.get key = some k) (o : Outcome) :
    Table cfg (settle { st.clearTimeout k with pending := st.pending.delete key } k o) := by
  obtain ⟨hkey, hout⟩ := h.rows key k hrow
  have hlt := lt_of_keyOf hkey
  have hne : ∀ j key', st.pending.get key' = some j → key ≠ key' → k ≠ j := by
    rintro j key' hj hdiff rfl
    rw [(h.rows key' k hj).1] at hkey
    exact hdiff (Option.some.inj hkey).symm
  have hself : (settle { st.clearTimeout k with pending := st.pending.delete key } k o).outcomes k = [o] := by
    have := @outcomes_settle_self { st.clearTimeout k with pending := st.pending.delete key } k hlt o
    rw [this]
    exact congrArg (· ++ [o]) hout
  have hother : ∀ j, k ≠ j →
      (settle { st.clearTimeout k with pending := st.pending.delete key } k o).outcomes j = st.outcomes j :=
    fun j hj => outcomes_settle_of_ne hj o
  have hkeys : ∀ j, (settle { st.clearTimeout k with pending := st.pending.delete key } k o).keyOf j = st.keyOf j :=
    fun j => keyOf_settle k o j
  constructor
  · intro key' j hj
    have hj' : (st.pending.delete key).get key' = some j := hj
    rw [OMap.get_delete] at hj'
    split at hj'
    · cases hj'
    rename_i hdiff
    obtain ⟨h1, h2⟩ := h.rows key' j hj'
    rw [hkeys, hother j (hne j key' hj' hdiff)]
    exact ⟨h1, h2⟩
  · intro j key' hj ho
    rw [hkeys] at hj
    have hjk : k ≠ j := by
      rintro rfl
      rw [hself] at ho
      cases ho
    rw [hother j hjk] at ho
    obtain ⟨h1, h2⟩ := h.owed j key' hj ho
    have hdiff : key ≠ key' := by
      rintro rfl
      rw [h1] at hrow
      exact hjk (Option.some.inj hrow).symm
    refine ⟨?_, fun hun => ?_⟩
    · have : (st.pending.delete key).get key' = some j := by rw [OMap.get_delete, if_neg hdiff, h1]
      exact this
    · rw [untimed_settle] at hun
      exact mem_filter.2 ⟨h2 hun, by simpa using Ne.symm hjk⟩
  · intro j
    by_cases hj : k = j
    · subst hj
      rw [hself]
      exact Nat.le_refl 1
    · rw [hother j hj]
      exact h.once j
  · intro j hj
    obtain ⟨hmem, hjk⟩ := mem_filter.1 hj
    obtain ⟨key', h1, h2⟩ := h.timers j hmem
    have hdiff : key ≠ key' := by
      rintro rfl
      rw [h2] at hrow
      rw [Option.some.inj hrow] at hjk
      simp at hjk
    refine ⟨key', by rw [hkeys, h1], ?_⟩
    have : (st.pending.delete key).get key' = some j := by rw [OMap.get_delete, if_neg hdiff, h2]
    exact this
  · intro j hj
    obtain ⟨key', h1, h2⟩ := h.sending j hj
    refine ⟨key', by rw [hkeys, h1], fun i hi => ?_⟩
    have hi' : (st.pending.delete key).get key' = some i := hi
    rw [OMap.get_delete] at hi'
    split at hi'
    · cases hi'
    · exact h2 i hi'
  · exact OMap.nodup_keys_delete h.keys key
  · intro hf j key' hj
    rw [hkeys] at hj
    exact h.numbers hf j key' hj
  · intro hc
    have hnil := h.closed hc
    rw [hnil] at hrow
    cases hrow

theorem Table.settleRow (key : JsString) (o : Outcome) : Table cfg (st.settleRow key o) := by
  unfold State.settleRow
  split
  · exact h
  · rename_i k hrow
    exact h.takeRow hrow o

omit h

/-- Requests settle in one step at most once, and only as `P` says. -/
def Settled (P : Nat → Outcome → Prop) (st st' : State) : Prop :=
  ∀ j, st'.outcomes j = st.outcomes j ∨ st.outcomes j = [] ∧ ∃ o, st'.outcomes j = [o] ∧ P j o

theorem Settled.refl (P : Nat → Outcome → Prop) (st : State) : Settled P st st := fun _ => .inl rfl

variable {P : Nat → Outcome → Prop}

theorem Settled.trans {st'' : State} (h : Settled P st st') (h' : Settled P st' st'') : Settled P st st'' := by
  intro j
  rcases h j with heq | ⟨hnil, o, ho, hP⟩
  · rcases h' j with heq' | ⟨hnil', hex⟩
    · exact .inl (heq'.trans heq)
    · exact .inr ⟨heq ▸ hnil', hex⟩
  rcases h' j with heq' | ⟨hnil', -⟩
  · exact .inr ⟨hnil, o, heq'.trans ho, hP⟩
  · rw [ho] at hnil'
    cases hnil'

theorem Settled.mono {Q : Nat → Outcome → Prop} (h : Settled P st st') (hPQ : ∀ j o, P j o → Q j o) :
    Settled Q st st' := by
  intro j
  rcases h j with heq | ⟨hnil, o, ho, hP⟩
  · exact .inl heq
  · exact .inr ⟨hnil, o, ho, hPQ j o hP⟩

theorem settled_settle {P : Nat → Outcome → Prop} {k : Nat} (hout : st.outcomes k = []) {o : Outcome} (hP : P k o) :
    Settled P st (st.settle k o) := by
  intro j
  by_cases hj : k = j
  · subst hj
    by_cases hlt : k < st.requests.length
    · exact .inr ⟨hout, o, by rw [outcomes_settle_self hlt, hout]; rfl, hP⟩
    · left
      unfold outcomes settle
      rw [List.getElem?_eq_none (by rw [length_modify]; omega), List.getElem?_eq_none (by omega)]
  · exact .inl (outcomes_settle_of_ne hj o)

theorem Table.settled_settleRow (h : Table cfg st) {o : Outcome}
    (hP : ∀ k, st.pending.get key = some k → P k o) : Settled P st (st.settleRow key o) := by
  unfold State.settleRow
  split
  · exact .refl P st
  · rename_i k hrow
    exact @settled_settle { st.clearTimeout k with pending := st.pending.delete key } P k (h.rows key k hrow).2 o
      (hP k hrow)

/-- The body of the loop of `clearPending`. -/
def rejectRow (error : Failure) (st : State) (row : JsString × Nat) : State :=
  (st.clearTimeout row.2).settle row.2 (.error error)

theorem foldl_rejectRow {error : Failure} {g : State → State}
    (hg : ∀ st row, rejectRow error (g st) row = g (rejectRow error st row)) (rows : OMap JsString Nat) (st : State) :
    rows.foldl (rejectRow error) (g st) = g (rows.foldl (rejectRow error) st) := by
  induction rows generalizing st with
  | nil => rfl
  | cons row rows ih => rw [foldl_cons, foldl_cons, hg, ih]

theorem clearPending_eq (h : st.pending.keys.Nodup) (error : Failure) :
    st.clearPending error = st.pending.keys.foldl (fun st key => st.settleRow key (.error error)) st := by
  have hloop : ∀ (rows : OMap JsString Nat) (st : State), st.pending = rows → rows.keys.Nodup →
      { rows.foldl (rejectRow error) st with pending := [] } =
        rows.keys.foldl (fun st key => st.settleRow key (.error error)) st := by
    intro rows
    induction rows with
    | nil =>
      intro st hst _
      cases st
      cases hst
      rfl
    | cons row rows ih =>
      intro st hst hn
      have hkeys : OMap.keys (row :: rows) = row.1 :: OMap.keys rows := rfl
      rw [hkeys] at hn ⊢
      rw [nodup_cons] at hn
      have hget : st.pending.get row.1 = some row.2 := by rw [hst, OMap.get_cons, if_pos rfl]
      have hdelete : st.pending.delete row.1 = rows := by
        rw [hst]
        unfold OMap.delete
        rw [filter_cons_of_neg (by simp), filter_eq_self.2]
        intro e he
        have : e.1 ≠ row.1 := fun heq => hn.1 (heq ▸ mem_map_of_mem he)
        simpa using this
      have hrow : st.settleRow row.1 (.error error) = { rejectRow error st row with pending := rows } := by
        unfold State.settleRow
        rw [hget]
        show settle { st.clearTimeout row.2 with pending := st.pending.delete row.1 } row.2 (.error error) = _
        rw [hdelete]
        rfl
      have hrest := ih { rejectRow error st row with pending := rows } rfl hn.2
      rw [@foldl_rejectRow error (fun st => { st with pending := rows }) (fun _ _ => rfl)] at hrest
      rw [foldl_cons, foldl_cons, hrow, ← hrest]
  exact hloop st.pending st rfl h

theorem Table.clearPending (h : Table cfg st) (error : Failure) : Table cfg (st.clearPending error) ∧
    Settled (fun k o => (∃ key, st.pending.get key = some k) ∧ o = .error error) st (st.clearPending error) := by
  have hloop : ∀ (keys : List JsString) (st₁ : State), Table cfg st₁ →
      (∀ key k, st₁.pending.get key = some k → st.pending.get key = some k) →
      Table cfg (keys.foldl (fun st key => st.settleRow key (.error error)) st₁) ∧
        Settled (fun k o => (∃ key, st.pending.get key = some k) ∧ o = .error error) st₁
          (keys.foldl (fun st key => st.settleRow key (.error error)) st₁) := by
    intro keys
    induction keys with
    | nil => exact fun st₁ h₁ _ => ⟨h₁, .refl _ st₁⟩
    | cons key keys ih =>
      intro st₁ h₁ hsub
      have hrow : Settled (fun k o => (∃ key, st.pending.get key = some k) ∧ o = .error error) st₁
          (st₁.settleRow key (.error error)) := h₁.settled_settleRow fun k hk => ⟨⟨key, hsub key k hk⟩, rfl⟩
      have hsub' : ∀ key' k, (st₁.settleRow key (.error error)).pending.get key' = some k →
          st.pending.get key' = some k := by
        intro key' k hk
        unfold State.settleRow at hk
        split at hk
        · exact hsub key' k hk
        have hk' : (st₁.pending.delete key).get key' = some k := hk
        rw [OMap.get_delete] at hk'
        split at hk'
        · cases hk'
        · exact hsub key' k hk'
      obtain ⟨h1, h2⟩ := ih _ (h₁.settleRow key (.error error)) hsub'
      exact ⟨h1, hrow.trans h2⟩
  rw [clearPending_eq h.keys]
  exact hloop st.pending.keys st h fun _ _ hk => hk

variable (error : Failure)

theorem clearPending_frame : (st.clearPending error).closedError = st.closedError ∧
    (st.clearPending error).handshake = st.handshake ∧ (st.clearPending error).effects = st.effects ∧
    (st.clearPending error).notices = st.notices ∧ (st.clearPending error).requests.length = st.requests.length ∧
    ∀ j, (st.clearPending error).keyOf j = st.keyOf j := by
  have hloop : ∀ (rows : OMap JsString Nat) (st : State),
      (rows.foldl (rejectRow error) st).closedError = st.closedError ∧
      (rows.foldl (rejectRow error) st).handshake = st.handshake ∧
      (rows.foldl (rejectRow error) st).effects = st.effects ∧ (rows.foldl (rejectRow error) st).notices =
        st.notices ∧
      (rows.foldl (rejectRow error) st).requests.length = st.requests.length ∧
      ∀ j, (rows.foldl (rejectRow error) st).keyOf j = st.keyOf j := by
    intro rows
    induction rows with
    | nil => exact fun st => ⟨rfl, rfl, rfl, rfl, rfl, fun _ => rfl⟩
    | cons row rows ih =>
      intro st
      obtain ⟨h1, h2, h3, h4, h5, h6⟩ := ih (rejectRow error st row)
      refine ⟨h1, h2, h3, h4, ?_, fun j => (h6 j).trans (keyOf_settle _ _ j)⟩
      rw [foldl_cons, h5]
      exact length_modify ..
  exact hloop st.pending st

/-! ### Sending -/

theorem pendingKey_ofNat_inj {m n : Nat}
    (h : pendingKey (.num (.ofNat m)) = pendingKey (.num (.ofNat n))) : m = n := by
  unfold pendingKey at h
  rw [append_cancel_left_eq] at h
  exact congrArg JsNumber.whole (Json.text_inj h)

def FreshId (cfg : JsonRpcClientOptions) (st : State) (provided : Option JsonRpcId) : Prop :=
  provided.isSome = cfg.idFactory ∧ ∀ id ∈ provided, st.pending.get (pendingKey id) = none ∧
    ∀ k ∈ st.sending, st.keyOf k ≠ some (pendingKey id)

/-- The id of a request that is sent now, and the counter after it. -/
def NewId (st : State) (provided : Option JsonRpcId) (id : JsonRpcId) (next : Nat) : Prop :=
  provided = some id ∧ next = st.nextNumericId ∨
    provided = none ∧ id = .num (.ofNat st.nextNumericId) ∧ next = st.nextNumericId + 1

variable {provided : Option JsonRpcId}

theorem Table.newKey (h : Table cfg st) (hfresh : FreshId cfg st provided) {id : JsonRpcId} {next : Nat}
    (hid : NewId st provided id next) :
    st.pending.get (pendingKey id) = none ∧ ∀ k ∈ st.sending, st.keyOf k ≠ some (pendingKey id) := by
  rcases hid with ⟨rfl, -⟩ | ⟨rfl, rfl, -⟩
  · exact hfresh.2 id rfl
  have hnew : ∀ k, st.keyOf k ≠ some (pendingKey (.num (.ofNat st.nextNumericId))) := by
    intro k hk
    obtain ⟨i, hi, heq⟩ := h.numbers hfresh.1.symm k _ hk
    have := pendingKey_ofNat_inj heq
    omega
  refine ⟨?_, fun k _ => hnew k⟩
  cases hget : st.pending.get (pendingKey (.num (.ofNat st.nextNumericId))) with
  | none => rfl
  | some k => exact absurd (h.rows _ k hget).1 (hnew k)

/-- The state once the request `k` has its id and its row. -/
def withRow (st : State) (k : Nat) (r : Request) (id : JsonRpcId) (next : Nat) : State :=
  { st with
    requests := st.requests.modify k fun r => { r with id := some id }
    pending := st.pending.set (pendingKey id) k
    timers := if r.timeoutMs = some none then st.timers else k :: st.timers
    sending := k :: st.sending
    nextNumericId := next
    effects := st.effects ++ [.request k (requestFrame r.method r.params (some id))] }

theorem sendRequest_open (hclosed : st.closedError = none) (k : Nat) (r : Request) (provided : Option JsonRpcId) :
    ∃ id next, NewId st provided id next ∧ st.sendRequest k r provided = st.withRow k r id next := by
  unfold sendRequest
  rw [hclosed]
  cases provided with
  | some id => exact ⟨id, st.nextNumericId, .inl ⟨rfl, rfl⟩, rfl⟩
  | none => exact ⟨_, st.nextNumericId + 1, .inr ⟨rfl, rfl, rfl⟩, rfl⟩

theorem sendRequest_closed {error : Failure} (hclosed : st.closedError = some error) (k : Nat) (r : Request)
    (provided : Option JsonRpcId) : st.sendRequest k r provided = st.settle k (.error error) := by
  unfold sendRequest
  rw [hclosed]

section Row

variable {k : Nat} {r : Request} {id : JsonRpcId} {next : Nat}

theorem keyOf_withRow_self (hr : st.requests[k]? = some r) :
    (st.withRow k r id next).keyOf k = some (pendingKey id) := by
  unfold keyOf withRow
  rw [List.getElem?_modify_eq, hr]
  rfl

theorem keyOf_withRow_of_ne {j : Nat} (h : k ≠ j) : (st.withRow k r id next).keyOf j = st.keyOf j := by
  unfold keyOf withRow
  simp only [List.getElem?_modify_ne _ _ h]

theorem outcomes_withRow (j : Nat) : (st.withRow k r id next).outcomes j = st.outcomes j := by
  unfold outcomes withRow
  rw [List.getElem?_modify]
  split <;> cases st.requests[j]? <;> rfl

theorem untimed_withRow (j : Nat) : (st.withRow k r id next).Untimed j ↔ st.Untimed j := by
  unfold Untimed withRow
  simp only [List.getElem?_modify]
  cases st.requests[j]? with
  | none => simp
  | some r => split <;> simp

theorem Table.withRow (h : Table cfg st) (hr : st.requests[k]? = some r) (hid : r.id = none)
    (hout : r.outcomes = []) (hclosed : st.closedError = none) (hfresh : FreshId cfg st provided)
    (hnew : NewId st provided id next) : Table cfg (st.withRow k r id next) := by
  obtain ⟨hrow, hsending⟩ := h.newKey hfresh hnew
  have hnone : st.keyOf k = none := by rw [keyOf_eq hr, hid]; rfl
  have hne : ∀ {j key}, st.keyOf j = some key → k ≠ j := by
    rintro j key hj rfl
    rw [hnone] at hj
    cases hj
  have hget : ∀ key, (st.withRow k r id next).pending.get key =
      if pendingKey id = key then some k else st.pending.get key := by
    intro key
    exact OMap.get_set ..
  have hkeys : ∀ {j key}, (st.withRow k r id next).keyOf j = some key →
      j = k ∧ key = pendingKey id ∨ k ≠ j ∧ st.keyOf j = some key := by
    intro j key hj
    by_cases hjk : k = j
    · subst hjk
      rw [keyOf_withRow_self hr] at hj
      exact .inl ⟨rfl, (Option.some.inj hj).symm⟩
    · rw [keyOf_withRow_of_ne hjk] at hj
      exact .inr ⟨hjk, hj⟩
  constructor
  · intro key j hj
    rw [hget] at hj
    rw [outcomes_withRow]
    split at hj
    · rename_i heq
      cases hj
      subst heq
      exact ⟨keyOf_withRow_self hr, by rw [outcomes_eq hr, hout]⟩
    · obtain ⟨h1, h2⟩ := h.rows key j hj
      rw [keyOf_withRow_of_ne (hne h1)]
      exact ⟨h1, h2⟩
  · intro j key hj ho
    rw [outcomes_withRow] at ho
    rw [hget, untimed_withRow]
    rcases hkeys hj with ⟨rfl, rfl⟩ | ⟨hjk, hj⟩
    · refine ⟨if_pos rfl, fun hun => ?_⟩
      have ht : r.timeoutMs ≠ some none := by
        intro ht
        refine hun fun r' hr' => ?_
        rw [hr] at hr'
        cases hr'
        exact ht
      show j ∈ if r.timeoutMs = some none then st.timers else j :: st.timers
      rw [if_neg ht]
      exact mem_cons_self ..
    · obtain ⟨h1, h2⟩ := h.owed j key hj ho
      refine ⟨?_, fun hun => ?_⟩
      · rw [if_neg, h1]
        rintro rfl
        rw [hrow] at h1
        cases h1
      · show j ∈ if r.timeoutMs = some none then st.timers else k :: st.timers
        split
        · exact h2 hun
        · exact mem_cons_of_mem _ (h2 hun)
  · intro j
    rw [outcomes_withRow]
    exact h.once j
  · intro j hj
    have hj' : j = k ∨ j ∈ st.timers := by
      have hmem : j ∈ if r.timeoutMs = some none then st.timers else k :: st.timers := hj
      split at hmem
      · exact .inr hmem
      · exact mem_cons.1 hmem
    by_cases hjk : k = j
    · subst hjk
      exact ⟨pendingKey id, keyOf_withRow_self hr, by rw [hget, if_pos rfl]⟩
    obtain ⟨key, h1, h2⟩ := h.timers j (hj'.resolve_left (Ne.symm hjk))
    refine ⟨key, by rw [keyOf_withRow_of_ne hjk, h1], ?_⟩
    rw [hget, if_neg, h2]
    rintro rfl
    rw [hrow] at h2
    cases h2
  · intro j hj
    have hj' : j = k ∨ j ∈ st.sending := mem_cons.1 hj
    by_cases hjk : k = j
    · subst hjk
      refine ⟨pendingKey id, keyOf_withRow_self hr, fun i hi => ?_⟩
      rw [hget, if_pos rfl] at hi
      exact (Option.some.inj hi).symm
    have hmem := hj'.resolve_left (Ne.symm hjk)
    obtain ⟨key, h1, h2⟩ := h.sending j hmem
    refine ⟨key, by rw [keyOf_withRow_of_ne hjk, h1], fun i hi => ?_⟩
    rw [hget] at hi
    split at hi
    · rename_i heq
      exact absurd (heq ▸ h1) (hsending j hmem)
    · exact h2 i hi
  · exact OMap.nodup_keys_set h.keys _ k
  · intro hf j key hj
    have hprovided : provided = none := by
      have := hfresh.1
      rw [hf] at this
      exact not_isSome_iff_eq_none.1 (by rw [this]; exact Bool.false_ne_true)
    rcases hnew with ⟨hsome, -⟩ | ⟨-, rfl, rfl⟩
    · rw [hprovided] at hsome
      cases hsome
    rcases hkeys hj with ⟨-, rfl⟩ | ⟨-, hj⟩
    · exact ⟨st.nextNumericId, Nat.lt_succ_self _, rfl⟩
    · obtain ⟨i, hi, heq⟩ := h.numbers hf j key hj
      exact ⟨i, Nat.lt_succ_of_lt hi, heq⟩
  · intro hc
    have hc' : st.closedError.isSome = true := hc
    rw [hclosed] at hc'
    cases hc'

end Row

/-- Sending a request that waits: it has its row, or the client is closed and it is refused. -/
theorem Table.sendRequest (h : Table cfg st) {k : Nat} (hr : st.requests[k]? = some r)
    (hid : r.id = none) (hout : r.outcomes = []) (hfresh : FreshId cfg st provided) :
    Table cfg (st.sendRequest k r provided) ∧
      Settled (fun j o => j = k ∧ ∃ error, st.closedError = some error ∧ o = .error error) st
        (st.sendRequest k r provided) := by
  have houtcomes : st.outcomes k = [] := by rw [outcomes_eq hr, hout]
  cases hclosed : st.closedError with
  | some error =>
    rw [sendRequest_closed hclosed]
    refine ⟨h.settle_waiting ?_ houtcomes _, settled_settle houtcomes ⟨rfl, error, rfl, rfl⟩⟩
    rw [keyOf_eq hr, hid]
    rfl
  | none =>
    obtain ⟨id, next, hnew, heq⟩ := sendRequest_open hclosed k r provided
    rw [heq]
    exact ⟨h.withRow hr hid hout hclosed hfresh hnew, fun j => .inl (outcomes_withRow j)⟩

section Append

variable (r : Request)

theorem keyOf_append (hid : r.id = none) (j : Nat) : { st with requests := st.requests ++ [r] }.keyOf j =
    st.keyOf j := by
  unfold keyOf
  rcases Nat.lt_trichotomy j st.requests.length with hlt | rfl | hgt
  · simp only [List.getElem?_append_left hlt]
  · simp only [List.getElem?_concat_length, bind_some, hid]
    rw [List.getElem?_eq_none (Nat.le_refl _)]
    rfl
  · rw [List.getElem?_eq_none (by simp; omega), List.getElem?_eq_none (by omega)]

theorem outcomes_append (hout : r.outcomes = []) (j : Nat) :
    { st with requests := st.requests ++ [r] }.outcomes j = st.outcomes j := by
  unfold outcomes
  rcases Nat.lt_trichotomy j st.requests.length with hlt | rfl | hgt
  · simp only [List.getElem?_append_left hlt]
  · simp only [List.getElem?_concat_length, map_some, hout]
    rw [List.getElem?_eq_none (Nat.le_refl _)]
    rfl
  · rw [List.getElem?_eq_none (by simp; omega), List.getElem?_eq_none (by omega)]

theorem Table.append (h : Table cfg st) (hid : r.id = none) (hout : r.outcomes = []) :
    Table cfg { st with requests := st.requests ++ [r] } := by
  refine h.congr (keyOf_append r hid) (outcomes_append r hout) ?_ rfl rfl (fun _ hj => hj) rfl rfl
  intro j key hj
  unfold Untimed
  simp only [List.getElem?_append_left (lt_of_keyOf hj)]

/-- A new request that is sent at once. -/
theorem Table.sendNew (h : Table cfg st) (hid : r.id = none) (hout : r.outcomes = [])
    (hfresh : FreshId cfg st provided) : Table cfg (st.sendNew r provided) ∧
      Settled (fun j o => j = st.requests.length ∧ ∃ error, st.closedError = some error ∧ o = .error error) st
        (st.sendNew r provided) := by
  have happend := h.append r hid hout
  have hfresh' : FreshId cfg { st with requests := st.requests ++ [r] } provided := by
    refine ⟨hfresh.1, fun id hmem => ⟨(hfresh.2 id hmem).1, fun k hk => ?_⟩⟩
    rw [keyOf_append r hid]
    exact (hfresh.2 id hmem).2 k hk
  have hget : { st with requests := st.requests ++ [r] }.requests[st.requests.length]? = some r :=
    List.getElem?_concat_length
  obtain ⟨h1, h2⟩ := happend.sendRequest hget hid hout hfresh'
  refine ⟨h1, fun j => ?_⟩
  have := h2 j
  rwa [outcomes_append r hout] at this

end Append

theorem close_eq :
    st.close error = { st.clearPending error with closedError := some (st.closedError.getD error) } := by
  have hloop := @foldl_rejectRow error (fun s => { s with closedError := some (st.closedError.getD error) })
    (fun _ _ => rfl) st.pending st
  show { st.pending.foldl (rejectRow error) { st with closedError := some (st.closedError.getD error) } with
    pending := [] } = _
  rw [hloop]
  rfl

variable (h : Table cfg st)
include h

/-- The handshake, the notifications and what goes out are not part of the table. -/
theorem Table.frame (handshake : Handshake) (notices : List Notice) (effects : List Effect) :
    Table cfg { st with handshake := handshake, notices := notices, effects := effects } :=
  h.congr (fun _ => rfl) (fun _ => rfl) (fun _ _ _ => Iff.rfl) rfl rfl (fun _ hj => hj) rfl rfl

theorem Table.close : Table cfg (st.close error) ∧
    Settled (fun k o => (∃ key, st.pending.get key = some k) ∧ o = .error error) st (st.close error) := by
  obtain ⟨h1, h2⟩ := h.clearPending error
  rw [close_eq]
  exact ⟨⟨h1.rows, h1.owed, h1.once, h1.timers, h1.sending, h1.keys, h1.numbers, fun _ => rfl⟩, h2⟩

theorem Table.startHandshake (hfresh : FreshId cfg st provided) :
    Table cfg (st.startHandshake cfg provided) ∧
      Settled (fun _ o => ∃ error, st.closedError = some error ∧ o = .error error) st
        (st.startHandshake cfg provided) := by
  unfold State.startHandshake
  split
  · obtain ⟨h1, h2⟩ := h.sendNew (handshakeRequest cfg) rfl rfl hfresh
    have h3 : Settled (fun _ o => ∃ error, st.closedError = some error ∧ o = .error error) st
        (st.sendNew (handshakeRequest cfg) provided) := h2.mono fun j o ho => ho.2
    exact ⟨h1.frame _ _ _, h3⟩
  · exact ⟨h, .refl _ st⟩

theorem Table.handshakeThen (o : Outcome) : Table cfg (st.handshakeThen cfg o) ∧
    Settled (fun k o' => (∃ key, st.pending.get key = some k) ∧ ∃ result, o = .ok result ∧
      o' = .error (.error (protocolVersionMismatchMessage cfg.version (daemonVersion result)))) st
      (st.handshakeThen cfg o) := by
  unfold State.handshakeThen
  split
  · exact ⟨h.frame _ _ _, .refl _ st⟩
  rename_i result
  split
  · exact ⟨h.frame _ _ _, .refl _ st⟩
  obtain ⟨h1, h2⟩ := h.clearPending
    (.error (protocolVersionMismatchMessage cfg.version (daemonVersion result)))
  refine ⟨h1.frame _ _ _, ?_⟩
  intro k
  rcases h2 k with heq | ⟨hnil, o', ho, hrow, rfl⟩
  · exact .inl heq
  · exact .inr ⟨hnil, _, ho, hrow, result, rfl, rfl⟩

theorem Table.sendNotice (j : Nat) (n : Notice) : Table cfg (st.sendNotice j n) ∧
    (st.sendNotice j n).requests = st.requests := by
  unfold State.sendNotice
  split
  all_goals exact ⟨h.frame _ _ _, rfl⟩

omit h

theorem settled_of_requests (P : Nat → Outcome → Prop) (h : st'.requests = st.requests) : Settled P st st' := by
  intro j
  left
  unfold outcomes
  rw [h]

end State

/-! ### Steps -/

open State

variable {cfg : JsonRpcClientOptions} {st st' : State}

inductive Cause (cfg : JsonRpcClientOptions) (st : State) : Op → Nat → Outcome → Prop where
  /-- The response with the key of its row. -/
  | response {message : Json} {id : JsonRpcId} {members : List (JsString × Json)} {k : Nat} :
      responseOf message = some (id, members) → st.keyOf k = some (pendingKey id) →
      Cause cfg st (.incoming message) k (answer id members)
  | timeout {k : Nat} {r : Request} {id : JsonRpcId} : st.requests[k]? = some r → r.id = some id →
      Cause cfg st (.timeout k) k (.error (operationTimeout id r.method (r.deadline cfg)))
  | sendFailed (k : Nat) (error : Failure) : Cause cfg st (.sendFailed k error) k (.error error)
  | cleared (k : Nat) (error : Option Failure) : Cause cfg st (.clearPending error) k (.error (closedFailure error))
  | closed (k : Nat) (error : Option Failure) : Cause cfg st (.close error) k (.error (closedFailure error))
  | disposed (k : Nat) (error : Option Failure) : Cause cfg st (.dispose error) k (.error (disposedFailure error))
  /-- The request was about to be sent, and the client is closed. -/
  | refused {op : Op} {error : Failure} (k : Nat) : st.closedError = some error → Cause cfg st op k (.error error)
  /-- It waited for a handshake that has failed. -/
  | handshake {k : Nat} {provided : Option JsonRpcId} {error : Failure} : st.handshake = .failed error →
      Cause cfg st (.proceed k provided) k (.error error)
  /-- The daemon speaks another version. -/
  | mismatch {k j : Nat} {result : Json} : st.handshake = .sent j → st.outcomes j = [.ok result] →
      Cause cfg st .handshakeThen k
        (.error (.error (protocolVersionMismatchMessage cfg.version (daemonVersion result))))
  | aborted {k : Nat} {error : Failure} : st.handshake = .failing error →
      Cause cfg st .handshakeCatch k (.error error)

/-- A step keeps the table, and settles requests only for a cause. -/
theorem table_perform (h : Table cfg st) {op : Op} (hallowed : op.Allowed cfg st)
    (hp : perform cfg st op = some st') :
    Table cfg st' ∧ Settled (Cause cfg st op) st st' := by
  cases op with
  | request method params timeoutMs provided =>
    have hfresh : FreshId cfg st provided := hallowed
    simp only [perform] at hp
    split at hp
    · cases hp
      obtain ⟨h1, h2⟩ := h.startHandshake hfresh
      refine ⟨h1.append _ rfl rfl, fun j => ?_⟩
      rw [outcomes_append _ rfl]
      exact h2.mono (by rintro k o ⟨error, hclosed, rfl⟩; exact .refused k hclosed) j
    · cases hp
      obtain ⟨h1, h2⟩ := h.sendNew ⟨method, params, timeoutMs, true, none, []⟩ rfl rfl hfresh
      exact ⟨h1, h2.mono (by rintro k o ⟨-, error, hclosed, rfl⟩; exact .refused k hclosed)⟩
  | handshake provided =>
    have hfresh : FreshId cfg st provided := hallowed
    cases hp
    obtain ⟨h1, h2⟩ := h.startHandshake hfresh
    exact ⟨h1, h2.mono (by rintro k o ⟨error, hclosed, rfl⟩; exact .refused k hclosed)⟩
  | notify method params provided =>
    have hfresh : FreshId cfg st provided := hallowed
    simp only [perform] at hp
    split at hp
    · cases hp
      obtain ⟨h1, h2⟩ := h.startHandshake hfresh
      exact ⟨h1.frame _ _ _, h2.mono (by rintro k o ⟨error, hclosed, rfl⟩; exact .refused k hclosed)⟩
    cases hp
    obtain ⟨h1, h2⟩ := (h.frame st.handshake (st.notices ++ [⟨method, params, true, none⟩]) st.effects).sendNotice
      st.notices.length ⟨method, params, true, none⟩
    exact ⟨h1, settled_of_requests _ h2⟩
  | proceed k provided =>
    have hfresh : FreshId cfg st provided := hallowed
    obtain ⟨r, hr, hp⟩ := bind_eq_some_iff.1 hp
    split at hp
    · rename_i hwaits
      obtain ⟨-, -, hid, hout⟩ := hwaits
      rw [List.isEmpty_iff] at hout
      split at hp
      · cases hp
        obtain ⟨h1, h2⟩ := h.sendRequest hr hid hout hfresh
        exact ⟨h1, h2.mono (by rintro j o ⟨-, error, hclosed, rfl⟩; exact .refused j hclosed)⟩
      · rename_i error hfailed
        cases hp
        have houtcomes : st.outcomes k = [] := by rw [outcomes_eq hr, hout]
        exact ⟨h.settle_waiting (by rw [keyOf_eq hr, hid]; rfl) houtcomes _,
          settled_settle houtcomes (.handshake hfailed)⟩
      · cases hp
    · cases hp
  | proceedNotify j =>
    obtain ⟨n, -, hp⟩ := bind_eq_some_iff.1 hp
    split at hp
    · split at hp
      · cases hp
        obtain ⟨h1, h2⟩ := h.sendNotice j n
        exact ⟨h1, settled_of_requests _ h2⟩
      · cases hp
        exact ⟨h.frame _ _ _, settled_of_requests _ rfl⟩
      · cases hp
    · cases hp
  | incoming message =>
    cases hp
    unfold handleMessage
    split
    · exact ⟨h, .refl _ st⟩
    · rename_i id members hresponse
      exact ⟨h.settleRow _ _, h.settled_settleRow fun k hk => .response hresponse (h.rows _ k hk).1⟩
  | timeout k =>
    obtain ⟨r, hr, hp⟩ := bind_eq_some_iff.1 hp
    obtain ⟨id, hid, hp⟩ := bind_eq_some_iff.1 hp
    split at hp
    · rename_i htimer
      obtain ⟨key, hkey, hrow⟩ := h.timers k htimer
      have heq : key = pendingKey id := by
        rw [keyOf_eq hr, hid] at hkey
        exact (Option.some.inj hkey).symm
      subst heq
      have hhas : (st.clearTimeout k).pending.has (pendingKey id) = true := by
        unfold OMap.has
        have hget : (st.clearTimeout k).pending.get (pendingKey id) = some k := hrow
        rw [hget]
        rfl
      rw [if_pos hhas] at hp
      cases hp
      exact ⟨h.takeRow hrow _, @settled_settle { st.clearTimeout k with
        pending := st.pending.delete (pendingKey id) } _ k (h.rows _ k hrow).2 _ (.timeout hr hid)⟩
    · cases hp
  | sendFailed k error =>
    obtain ⟨r, hr, hp⟩ := bind_eq_some_iff.1 hp
    obtain ⟨id, hid, hp⟩ := bind_eq_some_iff.1 hp
    split at hp
    · rename_i hsending
      cases hp
      have hframe : Table cfg { st with sending := st.sending.filter (· ≠ k) } :=
        h.congr (fun _ => rfl) (fun _ => rfl) (fun _ _ _ => Iff.rfl) rfl rfl
          (fun _ hj => (List.mem_filter.1 hj).1) rfl rfl
      obtain ⟨key, hkey, hown⟩ := h.sending k hsending
      rw [keyOf_eq hr, hid] at hkey
      refine ⟨hframe.settleRow _ _, hframe.settled_settleRow fun j hj => ?_⟩
      rw [← Option.some.inj hkey] at hown
      rw [hown j hj]
      exact .sendFailed k error
    · cases hp
  | sent k =>
    simp only [perform] at hp
    split at hp <;> cases hp
    exact ⟨h.congr (fun _ => rfl) (fun _ => rfl) (fun _ _ _ => Iff.rfl) rfl rfl
      (fun _ hj => (List.mem_filter.1 hj).1) rfl rfl, settled_of_requests _ rfl⟩
  | handshakeThen =>
    simp only [perform] at hp
    split at hp
    · rename_i k hsent
      obtain ⟨r, hr, hp⟩ := bind_eq_some_iff.1 hp
      obtain ⟨o, ho, hp⟩ := bind_eq_some_iff.1 hp
      cases hp
      obtain ⟨h1, h2⟩ := h.handshakeThen o
      refine ⟨h1, h2.mono ?_⟩
      rintro j o' ⟨-, result, rfl, rfl⟩
      refine .mismatch hsent ?_
      have honce := h.once k
      rw [outcomes_eq hr] at honce ⊢
      obtain ⟨rest, hrest⟩ := List.head?_eq_some_iff.1 ho
      rw [hrest] at honce ⊢
      rw [List.length_cons] at honce
      rw [List.length_eq_zero_iff.1 (by omega : rest.length = 0)]
    · cases hp
  | handshakeCatch =>
    simp only [perform] at hp
    split at hp <;> cases hp
    rename_i error hfailing
    obtain ⟨h1, h2⟩ := h.close error
    exact ⟨h1.frame _ _ _, h2.mono (by rintro k o ⟨-, rfl⟩; exact .aborted hfailing)⟩
  | clearPending error =>
    cases hp
    obtain ⟨h1, h2⟩ := h.clearPending (closedFailure error)
    exact ⟨h1, h2.mono (by rintro k o ⟨-, rfl⟩; exact .cleared k error)⟩
  | close error =>
    cases hp
    obtain ⟨h1, h2⟩ := h.close (closedFailure error)
    exact ⟨h1, h2.mono (by rintro k o ⟨-, rfl⟩; exact .closed k error)⟩
  | dispose error =>
    cases hp
    obtain ⟨h1, h2⟩ := h.close (disposedFailure error)
    exact ⟨h1, h2.mono (by rintro k o ⟨-, rfl⟩; exact .disposed k error)⟩

end Wrenyard.Control
