import Wrenyard.Control.PendingTable

/-!
# Requests and their responses

Nothing but the handshake goes out before it has succeeded (`Gate`).  With the table of pending requests this gives
what holds in every run of a client: a request settles at most once and for a cause, two pending requests have
different ids, and when a client is closed and its continuations have run, every request has settled (`matching`).
-/

namespace Wrenyard.Control

open Js Transition State List Option

variable {cfg : JsonRpcClientOptions} {st st' : State}

/-! ### The handshake comes first -/

/-- Requests keep their ids, and what has settled stays settled. -/
structure Grown (st st' : State) : Prop where
  length : st'.requests.length = st.requests.length
  kept : ∀ (k : Nat) (r' : Request), st'.requests[k]? = some r' → ∃ r : Request, st.requests[k]? = some r ∧
    r'.business = r.business ∧ r'.id = r.id ∧ (r'.outcomes = [] → r.outcomes = [])

theorem Grown.of_requests (h : st'.requests = st.requests) : Grown st st' where
  length := by rw [h]
  kept k r' hk := ⟨r', by rw [← h, hk], rfl, rfl, fun ho => ho⟩

theorem Grown.trans {st'' : State} (h : Grown st st') (h' : Grown st' st'') : Grown st st'' where
  length := h'.length.trans h.length
  kept k r'' hk := by
    obtain ⟨r', hr', hb', hid', ho'⟩ := h'.kept k r'' hk
    obtain ⟨r, hr, hb, hid, ho⟩ := h.kept k r' hr'
    exact ⟨r, hr, hb'.trans hb, hid'.trans hid, fun hnil => ho (ho' hnil)⟩

theorem Grown.settle (st : State) (k : Nat) (o : Outcome) : Grown st (st.settle k o) where
  length := List.length_modify ..
  kept j r' hj := by
    unfold State.settle at hj
    rw [List.getElem?_modify] at hj
    obtain ⟨r, hr, rfl⟩ := map_eq_some_iff.1 hj
    refine ⟨r, hr, ?_⟩
    split
    · exact ⟨rfl, rfl, fun hnil => (append_eq_nil_iff.1 hnil).1⟩
    · exact ⟨rfl, rfl, fun hnil => hnil⟩

theorem Grown.settleRow (st : State) (key : JsString) (o : Outcome) : Grown st (st.settleRow key o) := by
  unfold State.settleRow
  split
  · exact .of_requests rfl
  · rename_i k _
    have hframe : Grown st { st.clearTimeout k with pending := st.pending.delete key } := .of_requests rfl
    exact hframe.trans (.settle _ k o)

theorem Grown.clearPending (st : State) (error : Failure) : Grown st (st.clearPending error) := by
  have hloop : ∀ (rows : OMap JsString Nat) (st : State), Grown st (rows.foldl (rejectRow error) st) := by
    intro rows
    induction rows with
    | nil => exact fun st => .of_requests rfl
    | cons row rows ih =>
      intro st
      have hframe : Grown st (st.clearTimeout row.2) := .of_requests rfl
      exact (hframe.trans (.settle _ row.2 (.error error))).trans (ih (rejectRow error st row))
  have hnil : Grown (st.pending.foldl (rejectRow error) st) (st.clearPending error) := .of_requests rfl
  exact (hloop st.pending st).trans hnil

/-- What the handshake holds back.  The request `out` is about to be sent. -/
structure Gate (cfg : JsonRpcClientOptions) (out : Option Nat) (st : State) : Prop where
  sent : ∀ k, st.handshake = .sent k → ∃ r : Request, st.requests[k]? = some r ∧ r.business = false ∧
    (r.outcomes = [] → r.id ≠ none)
  waiting : ∀ (k : Nat) (r : Request), out ≠ some k → st.requests[k]? = some r → r.id = none → r.outcomes = [] →
    cfg.handshakeEnabled = true ∧ r.business = true ∧ st.handshake ≠ .idle
  gated : cfg.handshakeEnabled = true → st.handshake = .completed ∨
    (∀ (k : Nat) (r : Request), st.requests[k]? = some r → r.business = true → r.id = none) ∧
      ∀ j frame, Effect.notification j frame ∉ st.effects
  effects : ∀ k frame, Effect.request k frame ∈ st.effects → ∃ r : Request, st.requests[k]? = some r ∧ r.id ≠ none

variable {out : Option Nat}

theorem Gate.grown (h : Gate cfg out st) (hg : Grown st st') (hhandshake : st'.handshake = st.handshake)
    (heffects : st'.effects = st.effects) : Gate cfg out st' := by
  have hget : ∀ (k : Nat) (r : Request), st.requests[k]? = some r → ∃ r' : Request, st'.requests[k]? = some r' ∧
      r'.business = r.business ∧ r'.id = r.id ∧ (r'.outcomes = [] → r.outcomes = []) := by
    intro k r hr
    have hlt : k < st'.requests.length := by
      rw [hg.length]
      exact (List.getElem?_eq_some_iff.1 hr).1
    obtain ⟨r₀, hr₀, hrest⟩ := hg.kept k _ (List.getElem?_eq_getElem hlt)
    rw [hr] at hr₀
    cases hr₀
    exact ⟨_, List.getElem?_eq_getElem hlt, hrest⟩
  constructor
  · intro k hk
    rw [hhandshake] at hk
    obtain ⟨r, hr, hb, hid⟩ := h.sent k hk
    obtain ⟨r', hr', hb', hid', ho'⟩ := hget k r hr
    exact ⟨r', hr', hb'.trans hb, fun hnil => hid' ▸ hid (ho' hnil)⟩
  · intro k r' hout hr' hid ho
    obtain ⟨r, hr, hb, hid', ho'⟩ := hg.kept k r' hr'
    rw [hhandshake, hb]
    exact h.waiting k r hout hr (hid' ▸ hid) (ho' ho)
  · intro hen
    rw [hhandshake, heffects]
    rcases h.gated hen with hc | ⟨hids, hnotes⟩
    · exact .inl hc
    refine .inr ⟨fun k r' hr' hb => ?_, hnotes⟩
    obtain ⟨r, hr, hb', hid', -⟩ := hg.kept k r' hr'
    rw [hid']
    exact hids k r hr (hb' ▸ hb)
  · intro k frame hmem
    rw [heffects] at hmem
    obtain ⟨r, hr, hid⟩ := h.effects k frame hmem
    obtain ⟨r', hr', -, hid', -⟩ := hget k r hr
    exact ⟨r', hr', hid' ▸ hid⟩

/-- A new record, which may be about to be sent. -/
theorem Gate.append (h : Gate cfg none st) (r : Request) (hid : r.id = none)
    (hout : out = some st.requests.length ∨
      out = none ∧ cfg.handshakeEnabled = true ∧ r.business = true ∧ st.handshake ≠ .idle) :
    Gate cfg out { st with requests := st.requests ++ [r] } := by
  have hcases : ∀ {k : Nat} {r' : Request}, (st.requests ++ [r])[k]? = some r' →
      st.requests[k]? = some r' ∨ k = st.requests.length ∧ r' = r := by
    intro k r' hk
    rcases Nat.lt_or_ge k st.requests.length with hlt | hge
    · rw [List.getElem?_append_left hlt] at hk
      exact .inl hk
    rw [List.getElem?_append_right hge, List.getElem?_singleton] at hk
    split at hk
    · exact .inr ⟨by omega, (Option.some.inj hk).symm⟩
    · cases hk
  have hleft : ∀ {k : Nat} {r' : Request}, st.requests[k]? = some r' → (st.requests ++ [r])[k]? = some r' :=
    fun hk => List.getElem?_append_left (List.getElem?_eq_some_iff.1 hk).1 ▸ hk
  constructor
  · intro k hk
    obtain ⟨r', hr', hrest⟩ := h.sent k hk
    exact ⟨r', hleft hr', hrest⟩
  · intro k r' hk hr' hid' ho
    rcases hcases hr' with hold | ⟨rfl, rfl⟩
    · exact h.waiting k r' (by simp) hold hid' ho
    · rcases hout with rfl | ⟨-, hrest⟩
      · exact absurd rfl hk
      · exact hrest
  · intro hen
    rcases h.gated hen with hc | ⟨hids, hnotes⟩
    · exact .inl hc
    refine .inr ⟨fun k r' hr' hb => ?_, hnotes⟩
    rcases hcases hr' with hold | ⟨-, rfl⟩
    · exact hids k r' hold hb
    · exact hid
  · intro k frame hmem
    obtain ⟨r', hr', hid'⟩ := h.effects k frame hmem
    exact ⟨r', hleft hr', hid'⟩

/-- Sending a request that the handshake does not hold back. -/
theorem Gate.sendRequest {k : Nat} (h : Gate cfg out st) (hout : out = none ∨ out = some k)
    {r : Request} (hr : st.requests[k]? = some r)
    (hok : r.business = true → cfg.handshakeEnabled = true → st.handshake = .completed)
    (provided : Option JsonRpcId) : Gate cfg none (st.sendRequest k r provided) ∧
    (st.sendRequest k r provided).handshake = st.handshake ∧ (st.sendRequest k r provided).requests.length =
    st.requests.length ∧ ∃ r' : Request, (st.sendRequest k r provided).requests[k]? = some r' ∧ r'.business =
    r.business ∧ (r'.outcomes = [] → r'.id ≠ none) := by
  have hkeep : ∀ j, out ≠ some j ∨ j = k := by
    intro j
    rcases hout with rfl | rfl
    · exact .inl (by simp)
    · by_cases hj : j = k
      · exact .inr hj
      · exact .inl (by simpa using Ne.symm hj)
  cases hclosed : st.closedError with
  | some error =>
    rw [sendRequest_closed hclosed]
    have hg := h.grown (.settle st k (.error error)) rfl rfl
    have hself : (st.settle k (.error error)).requests[k]? =
        some { r with outcomes := r.outcomes ++ [.error error] } := by
      unfold State.settle
      rw [List.getElem?_modify_eq, hr]
      rfl
    refine ⟨⟨hg.sent, ?_, hg.gated, hg.effects⟩, rfl, length_modify .., _, hself, rfl, ?_⟩
    · intro j r' _ hj hid ho
      rcases hkeep j with hne | rfl
      · exact hg.waiting j r' hne hj hid ho
      · rw [hself] at hj
        cases hj
        exact absurd ho (by simp)
    · intro hnil
      exact absurd hnil (by simp)
  | none =>
    obtain ⟨id, next, -, heq⟩ := sendRequest_open hclosed k r provided
    rw [heq]
    have hself : (st.withRow k r id next).requests[k]? = some { r with id := some id } := by
      unfold withRow
      rw [List.getElem?_modify_eq, hr]
      rfl
    have hother : ∀ j, k ≠ j → (st.withRow k r id next).requests[j]? = st.requests[j]? := by
      intro j hj
      exact List.getElem?_modify_ne _ _ hj
    have hid' : ({ r with id := some id } : Request).id ≠ none := by simp
    refine ⟨⟨?_, ?_, ?_, ?_⟩, rfl, length_modify .., _, hself, rfl, fun _ => hid'⟩
    · intro j hj
      obtain ⟨r', hr', hb, hid⟩ := h.sent j hj
      by_cases hjk : k = j
      · subst hjk
        rw [hr] at hr'
        cases hr'
        exact ⟨_, hself, hb, fun _ => hid'⟩
      · exact ⟨r', by rw [hother j hjk, hr'], hb, hid⟩
    · intro j r' _ hj hid ho
      by_cases hjk : k = j
      · subst hjk
        rw [hself] at hj
        cases hj
        exact absurd hid hid'
      · rw [hother j hjk] at hj
        exact h.waiting j r' ((hkeep j).resolve_right (Ne.symm hjk)) hj hid ho
    · intro hen
      rcases h.gated hen with hc | ⟨hids, hnotes⟩
      · exact .inl hc
      by_cases hb : r.business = true
      · exact .inl (hok hb hen)
      refine .inr ⟨fun j r' hj hb' => ?_, fun j frame hmem => ?_⟩
      · by_cases hjk : k = j
        · subst hjk
          rw [hself] at hj
          cases hj
          exact absurd hb' hb
        · rw [hother j hjk] at hj
          exact hids j r' hj hb'
      · rcases mem_append.1 hmem with hmem | hmem
        · exact hnotes j frame hmem
        · rw [mem_singleton] at hmem
          cases hmem
    · intro j frame hmem
      rcases mem_append.1 hmem with hmem | hmem
      · obtain ⟨r', hr', hid⟩ := h.effects j frame hmem
        by_cases hjk : k = j
        · subst hjk
          exact ⟨_, hself, hid'⟩
        · exact ⟨r', by rw [hother j hjk, hr'], hid⟩
      · rw [mem_singleton] at hmem
        cases hmem
        exact ⟨_, hself, hid'⟩

variable (h : Gate cfg none st)
include h

theorem Gate.sendNew {r : Request} (hid : r.id = none)
    (hok : r.business = true → cfg.handshakeEnabled = true → st.handshake = .completed)
    (provided : Option JsonRpcId) : Gate cfg none (st.sendNew r provided) ∧ (st.sendNew r provided).handshake =
    st.handshake ∧ ∃ r' : Request, (st.sendNew r provided).requests[st.requests.length]? = some r' ∧ r'.business =
    r.business ∧ (r'.outcomes = [] → r'.id ≠ none) := by
  have hget : { st with requests := st.requests ++ [r] }.requests[st.requests.length]? = some r :=
    List.getElem?_concat_length
  obtain ⟨h1, h2, -, h3⟩ := (h.append r hid (.inl rfl)).sendRequest (.inr rfl) hget hok provided
  exact ⟨h1, h2, h3⟩

theorem Gate.startHandshake (provided : Option JsonRpcId) :
    Gate cfg none (st.startHandshake cfg provided) ∧ (st.startHandshake cfg provided).handshake ≠ .idle := by
  unfold State.startHandshake
  split
  · rename_i hidle
    obtain ⟨h1, h2, r', hr', hb, hid⟩ := h.sendNew (r := handshakeRequest cfg) rfl (fun hb => by cases hb) provided
    rw [hidle] at h2
    refine ⟨⟨?_, ?_, ?_, h1.effects⟩, by simp⟩
    · intro k hk
      cases hk
      exact ⟨r', hr', hb, hid⟩
    · intro k r hk hr hid ho
      exact absurd h2 (h1.waiting k r hk hr hid ho).2.2
    · intro hen
      rcases h1.gated hen with hc | hright
      · rw [h2] at hc
        cases hc
      · exact .inr hright
  · rename_i hstarted
    exact ⟨h, fun hidle => hstarted hidle⟩

theorem Gate.setHandshake {x : Handshake} (hidle : x ≠ .idle) (hsent : ∀ k, x ≠ .sent k)
    (hc : st.handshake ≠ .completed) : Gate cfg none { st with handshake := x } where
  sent k hk := absurd hk (hsent k)
  waiting k r hk hr hid ho := by
    obtain ⟨h1, h2, -⟩ := h.waiting k r hk hr hid ho
    exact ⟨h1, h2, hidle⟩
  gated hen := by
    rcases h.gated hen with hcompleted | hright
    · exact absurd hcompleted hc
    · exact .inr hright
  effects := h.effects

theorem Gate.sendNotice (hok : cfg.handshakeEnabled = true → st.handshake = .completed) (j : Nat)
    (n : Notice) : Gate cfg none (st.sendNotice j n) := by
  unfold State.sendNotice
  split
  · exact h.grown (.of_requests rfl) rfl rfl
  refine ⟨h.sent, h.waiting, fun hen => .inl (hok hen), ?_⟩
  intro k frame hmem
  rcases mem_append.1 hmem with hmem | hmem
  · exact h.effects k frame hmem
  · rw [mem_singleton] at hmem
    cases hmem

theorem Gate.clearPending (error : Failure) : Gate cfg none (st.clearPending error) :=
  h.grown (.clearPending st error) (clearPending_frame error).2.1 (clearPending_frame error).2.2.1

theorem Gate.close (error : Failure) : Gate cfg none (st.close error) := by
  rw [close_eq]
  exact (h.clearPending error).grown (.of_requests rfl) rfl rfl

/-- No step lets a request through before the handshake. -/
theorem gate_perform {op : Op} (hp : perform cfg st op = some st') : Gate cfg none st' := by
  cases op <;> simp only [perform, ite_none_right_eq_some, Option.some.injEq] at hp
  case request method params timeoutMs provided =>
    split at hp
    · rename_i hen
      cases hp
      obtain ⟨h1, h2⟩ := h.startHandshake provided
      exact h1.append _ rfl (.inr ⟨rfl, hen, rfl, h2⟩)
    · rename_i hen
      cases hp
      exact (h.sendNew rfl (fun _ hen' => absurd hen' hen) provided).1
  case handshake provided =>
    cases hp
    exact (h.startHandshake provided).1
  case notify method params provided =>
    split at hp
    · cases hp
      exact (h.startHandshake provided).1.grown (.of_requests rfl) rfl rfl
    rename_i hen
    cases hp
    have hframe : Gate cfg none { st with notices := st.notices ++ [⟨method, params, true, none⟩] } :=
      h.grown (.of_requests rfl) rfl rfl
    exact hframe.sendNotice (fun hen' => absurd hen' hen) _ _
  case proceed k provided =>
    obtain ⟨r, hr, hp⟩ := bind_eq_some_iff.1 hp
    split at hp
    · split at hp
      · rename_i hcompleted
        cases hp
        exact (h.sendRequest (.inl rfl) hr (fun _ _ => hcompleted) provided).1
      · cases hp
        exact h.grown (.settle st k _) rfl rfl
      · cases hp
    · cases hp
  case proceedNotify j =>
    obtain ⟨n, -, hp⟩ := bind_eq_some_iff.1 hp
    split at hp
    · split at hp
      · rename_i hcompleted
        cases hp
        exact h.sendNotice (fun _ => hcompleted) j n
      · cases hp
        exact h.grown (.of_requests rfl) rfl rfl
      · cases hp
    · cases hp
  case incoming message =>
    cases hp
    unfold handleMessage
    split
    · exact h
    refine h.grown (.settleRow st _ _) ?_ ?_
    all_goals
      unfold State.settleRow
      split <;> rfl
  case timeout k =>
    obtain ⟨r, -, hp⟩ := bind_eq_some_iff.1 hp
    obtain ⟨id, -, hp⟩ := bind_eq_some_iff.1 hp
    have hframe : Gate cfg none (st.clearTimeout k) := h.grown (.of_requests rfl) rfl rfl
    split at hp
    · split at hp
      · cases hp
        have hdelete : Gate cfg none { st.clearTimeout k with
            pending := (st.clearTimeout k).pending.delete (pendingKey id) } := hframe.grown (.of_requests rfl) rfl rfl
        exact hdelete.grown (.settle _ k _) rfl rfl
      · cases hp
        exact hframe
    · cases hp
  case sendFailed k error =>
    obtain ⟨r, -, hp⟩ := bind_eq_some_iff.1 hp
    obtain ⟨id, -, hp⟩ := bind_eq_some_iff.1 hp
    split at hp <;> cases hp
    have hframe : Gate cfg none { st with sending := st.sending.filter (· ≠ k) } := h.grown (.of_requests rfl) rfl rfl
    refine hframe.grown (.settleRow _ _ _) ?_ ?_
    all_goals
      unfold State.rejectPending State.settleRow
      split <;> rfl
  case sent k =>
    obtain ⟨-, rfl⟩ := hp
    exact h.grown (.of_requests rfl) rfl rfl
  case handshakeThen =>
    split at hp
    · rename_i k hsent
      obtain ⟨r, -, hp⟩ := bind_eq_some_iff.1 hp
      obtain ⟨o, -, hp⟩ := bind_eq_some_iff.1 hp
      cases hp
      have hc : st.handshake ≠ .completed := by
        rw [hsent]
        exact fun heq => by cases heq
      unfold State.handshakeThen
      split
      · exact h.setHandshake (by simp) (by simp) hc
      rename_i result _
      split
      · exact h.setHandshake (by simp) (by simp) hc
      refine (h.clearPending (.error (protocolVersionMismatchMessage cfg.version
        (daemonVersion result)))).setHandshake
        (by simp) (by simp) ?_
      rw [(clearPending_frame _).2.1]
      exact hc
    · cases hp
  case handshakeCatch =>
    split at hp <;> cases hp
    rename_i error hfailing
    have hg := h.close error
    have hc : (st.close error).handshake ≠ .completed := by
      rw [close_eq]
      show (st.clearPending error).handshake ≠ .completed
      rw [(clearPending_frame error).2.1, hfailing]
      exact fun heq => by cases heq
    have hg' := hg.setHandshake (x := .failed error) (by simp) (by simp) hc
    refine ⟨hg'.sent, hg'.waiting, ?_, ?_⟩
    · intro hen
      rcases hg'.gated hen with hcompleted | ⟨hids, hnotes⟩
      · exact .inl hcompleted
      refine .inr ⟨hids, fun j frame hmem => ?_⟩
      rcases mem_append.1 hmem with hmem | hmem
      · exact hnotes j frame hmem
      · rw [mem_singleton] at hmem
        cases hmem
    · intro k frame hmem
      rcases mem_append.1 hmem with hmem | hmem
      · exact hg'.effects k frame hmem
      · rw [mem_singleton] at hmem
        cases hmem
  case clearPending error =>
    cases hp
    exact h.clearPending _
  case close | dispose =>
    cases hp
    exact h.close _

omit h

/-! ### Runs -/

theorem table_initial : Table cfg State.initial where
  rows key k h := by cases h
  owed k key h := by cases h
  once k := Nat.zero_le 1
  timers k h := by cases h
  sending k h := by cases h
  keys := List.nodup_nil
  numbers _ k key h := by cases h
  closed h := by cases h

theorem gate_initial : Gate cfg none State.initial where
  sent k h := by cases h
  waiting k r _ h := by cases h
  gated _ := .inr ⟨(fun k r h => by cases h), (fun j frame h => by cases h)⟩
  effects k frame h := by cases h

/-- No continuation is left to run. -/
def Quiet (cfg : JsonRpcClientOptions) (st : State) : Prop :=
  perform cfg st .handshakeThen = none ∧ perform cfg st .handshakeCatch = none ∧
    ∀ k provided, perform cfg st (.proceed k provided) = none

structure Matched (cfg : JsonRpcClientOptions) (st : State) : Prop where
  /-- A promise settles at most once. -/
  once : ∀ k, (st.outcomes k).length ≤ 1
  /-- The table has the requests that were sent and have not settled. -/
  pending : ∀ key k, st.pending.get key = some k ↔ st.keyOf k = some key ∧ st.outcomes k = []
  /-- Two requests in it have different ids. -/
  distinct : ∀ j k key, st.keyOf j = some key → st.keyOf k = some key → st.outcomes j = [] →
    st.outcomes k = [] → j = k
  /-- Each has its timer, unless it has opted out. -/
  armed : ∀ k key, st.keyOf k = some key → st.outcomes k = [] → k ∈ st.timers ∨ st.Untimed k
  /-- A request that was not sent and has not settled waits for the handshake. -/
  waiting : ∀ (k : Nat) (r : Request), st.requests[k]? = some r → r.id = none → r.outcomes = [] →
    cfg.handshakeEnabled = true ∧ r.business = true ∧ st.handshake ≠ .idle
  /-- Nothing but the handshake goes out before it has succeeded. -/
  held : cfg.handshakeEnabled = true → st.handshake ≠ .completed →
    (∀ k frame, Effect.request k frame ∈ st.effects → ∃ r : Request, st.requests[k]? = some r ∧ r.business = false) ∧
      ∀ j frame, Effect.notification j frame ∉ st.effects
  /-- A closed client has an empty table, and every promise has settled once its continuations have run. -/
  closed : st.closedError.isSome = true → st.pending = [] ∧
    (Quiet cfg st → ∀ k < st.requests.length, (st.outcomes k).length = 1)

theorem settled_of_quiet (ht : Table cfg st) (hg : Gate cfg none st) (hclosed : st.closedError.isSome = true)
    (hquiet : Quiet cfg st) {k : Nat} (hk : k < st.requests.length) : (st.outcomes k).length = 1 := by
  have hpending := ht.closed hclosed
  have hsettled : ∀ {j : Nat} {r : Request}, st.requests[j]? = some r → r.id ≠ none → r.outcomes ≠ [] := by
    intro j r hr hid hnil
    obtain ⟨id, hid⟩ := ne_none_iff_exists'.1 hid
    have hkey : st.keyOf j = some (pendingKey id) := by rw [keyOf_eq hr, hid]; rfl
    have hrow := (ht.owed j _ hkey (by rw [outcomes_eq hr, hnil])).1
    rw [hpending] at hrow
    cases hrow
  have hr : st.requests[k]? = some st.requests[k] := List.getElem?_eq_getElem hk
  by_contra hne
  have honce := ht.once k
  rw [outcomes_eq hr] at honce hne
  have hnil : st.requests[k].outcomes = [] := length_eq_zero_iff.1 (by omega)
  have hid : st.requests[k].id = none := by
    by_contra hid
    exact hsettled hr hid hnil
  obtain ⟨hen, hb, hidle⟩ := hg.waiting k _ (by simp) hr hid hnil
  obtain ⟨hthen, hcatch, hproceed⟩ := hquiet
  have hgo := hproceed k none
  simp only [perform, hr, bind_eq_bind, bind_some, hen, hb, hid, hnil, isEmpty_nil, and_self,
    ↓reduceIte] at hgo
  cases hh : st.handshake with
  | idle => exact hidle hh
  | sent j =>
    obtain ⟨r, hr', -, hid'⟩ := hg.sent j hh
    have hout : r.outcomes ≠ [] := fun ho => hsettled hr' (hid' ho) ho
    obtain ⟨o, rest, ho⟩ := exists_cons_of_ne_nil hout
    simp only [perform, hh, hr', bind_eq_bind, bind_some, ho, List.head?_cons] at hthen
    cases hthen
  | failing error =>
    simp only [perform, hh] at hcatch
    cases hcatch
  | completed | failed =>
    simp only [hh] at hgo
    cases hgo

theorem matched_of_invariants (ht : Table cfg st) (hg : Gate cfg none st) : Matched cfg st where
  once := ht.once
  pending key k := ⟨ht.rows key k, fun h => (ht.owed k key h.1 h.2).1⟩
  distinct j k key hj hk hoj hok := by
    have h1 := (ht.owed j key hj hoj).1
    rw [(ht.owed k key hk hok).1] at h1
    exact (Option.some.inj h1).symm
  armed k key hk ho := by
    by_cases hun : st.Untimed k
    · exact .inr hun
    · exact .inl ((ht.owed k key hk ho).2 hun)
  waiting k r hr hid ho := hg.waiting k r (by simp) hr hid ho
  held hen hc := by
    obtain ⟨hids, hnotes⟩ := (hg.gated hen).resolve_left hc
    refine ⟨fun k frame hmem => ?_, hnotes⟩
    obtain ⟨r, hr, hid⟩ := hg.effects k frame hmem
    refine ⟨r, hr, ?_⟩
    by_contra hb
    exact hid (hids k r hr (by simpa using hb))
  closed hclosed := ⟨ht.closed hclosed, fun hquiet _ hk => settled_of_quiet ht hg hclosed hquiet hk⟩

/-- A response settles the request with its id. -/
theorem answered (ht : Table cfg st) {message : Json} {id : JsonRpcId} {members : List (JsString × Json)} {k : Nat}
    (hresponse : responseOf message = some (id, members)) (hkey : st.keyOf k = some (pendingKey id))
    (hout : st.outcomes k = []) : ∃ st', perform cfg st (.incoming message) = some st' ∧ st'.outcomes k =
    [answer id members] := by
  have hrow := (ht.owed k _ hkey hout).1
  refine ⟨_, rfl, ?_⟩
  unfold handleMessage
  rw [hresponse]
  show (st.settleRow (pendingKey id) (answer id members)).outcomes k = _
  unfold State.settleRow
  rw [hrow]
  have := @outcomes_settle_self { st.clearTimeout k with pending := st.pending.delete (pendingKey id) } k
    (lt_of_keyOf hkey) (answer id members)
  rw [show (settle { st.clearTimeout k with pending := st.pending.delete (pendingKey id) } k
    (answer id members)).outcomes
    k = st.outcomes k ++ [answer id members] from this, hout]
  rfl

/-- In every run of a client whose ids are fresh, each promise settles at most once, with the first response that
bears its id while it is pending or with its timeout, its send failure or what has closed the client; nothing but the
handshake goes out before it has succeeded, and a closed client owes nothing. -/
theorem matching {tr : List Op} (h : Run (Step cfg) State.initial tr st) : Matched cfg st ∧
    (∀ op st', Step cfg st op st' → Settled (Cause cfg st op) st st') ∧ ∀ message id members k, responseOf message =
    some (id, members) → st.keyOf k = some (pendingKey id) → st.outcomes k = [] →
    ∃ st', perform cfg st (.incoming message) = some st' ∧ st'.outcomes k = [answer id members] := by
  have hinv : Table cfg st ∧ Gate cfg none st := by
    refine Run.invariant (fun st => Table cfg st ∧ Gate cfg none st) ?_ h ⟨table_initial, gate_initial⟩
    rintro s op s' ⟨ht, hg⟩ ⟨hallowed, hp⟩
    exact ⟨(table_perform ht hallowed hp).1, gate_perform hg hp⟩
  obtain ⟨ht, hg⟩ := hinv
  exact ⟨matched_of_invariants ht hg, fun op st' hstep => (table_perform ht hstep.1 hstep.2).2,
    fun message id members k hresponse hkey hout => answered ht hresponse hkey hout⟩

def resultMessage (id : Nat) (result : Json) : Json :=
  .obj [(js "jsonrpc", .str (js "2.0")), (js "id", .ofNat id), (js "result", result)]

theorem matching_sample : ∃ st, Run (Step ⟨none, false, none, none⟩) State.initial
    [.request (js "task.list") none none none, .incoming (resultMessage 1 (.obj [(js "protocolVersion", .ofNat 2)])),
      .handshakeThen, .proceed 1 none, .incoming (resultMessage 2 .null), .close none] st ∧
    Matched ⟨none, false, none, none⟩ st ∧ st.outcomes 1 = [.ok .null] := by
  have hrun : ∃ st, Run (Step ⟨none, false, none, none⟩) State.initial
      [.request (js "task.list") none none none,
        .incoming (resultMessage 1 (.obj [(js "protocolVersion", .ofNat 2)])),
        .handshakeThen, .proceed 1 none, .incoming (resultMessage 2 .null), .close none] st ∧
      st.outcomes 1 = [.ok .null] := by
    refine ⟨_, .cons ⟨⟨rfl, fun id hid => by cases hid⟩, rfl⟩ (.cons ⟨trivial, rfl⟩ (.cons ⟨trivial, rfl⟩
      (.cons ⟨⟨rfl, fun id hid => by cases hid⟩, rfl⟩ (.cons ⟨trivial, rfl⟩ (.cons ⟨trivial, rfl⟩ (.nil _)))))), ?_⟩
    rfl
  obtain ⟨st, hrun, hout⟩ := hrun
  exact ⟨st, hrun, (matching hrun).1, hout⟩

/-- With an `idFactory` that repeats an id, the response to the first of two requests settles the second one, and
nothing ever settles the first one; and with the handshake switched off, both go out without one. -/
theorem repeated_id : ∃ st, Run (fun st op st' => perform ⟨none, true, none, some false⟩ st op =
    some st') State.initial
    [.request (js "a") none (some none) (some (.num (.ofNat 1))), .request (js "b") none (some none)
      (some (.num (.ofNat 1))), .incoming (resultMessage 1 .null), .close none] st ∧
    st.keyOf 0 = some (pendingKey (.num (.ofNat 1))) ∧ st.outcomes 0 = [] ∧ st.outcomes 1 = [.ok .null] ∧
    st.closedError.isSome = true ∧ st.pending = [] ∧ st.timers = [] ∧ st.effects.length = 2 ∧
    st.handshake = .idle :=
  ⟨_, run_of_steps rfl, rfl, rfl, rfl, rfl, rfl, rfl, rfl, rfl⟩

end Wrenyard.Control
