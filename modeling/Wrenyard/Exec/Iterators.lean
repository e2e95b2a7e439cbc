import Wrenyard.Exec.Names

/-!
# Iterators of a handle

An iterator reads a slice, yields it event by event, checks the status and sleeps, in separate steps.  At any time it
has yielded the replayable events among the first ones recorded, each once and in order, and the slice that it still
has is the next part (`Iterator.Reads`).  It makes its last read once the execution is terminal, so that at its end it
has yielded all that was recorded before (`replay_reads`).
-/

namespace Wrenyard.Exec

open Js Transition ExecReplayBuffer List

namespace Iterator

def rest (it : Iterator) : List ExecEventEnvelope :=
  match it.phase with
  | .batch rest | .remaining rest => rest
  | _ => []

/-- Whether an iterator has made its last read. -/
def final (it : Iterator) : Bool :=
  match it.phase with
  | .remaining _ | .ended => true
  | _ => false

structure Reads (it : Iterator) (e : ExecEntry) : Prop where
  bounded : it.cursor + it.rest.length ≤ e.recorded.length
  yielded : it.yielded = (e.recorded.take it.cursor).filter agentEventOf
  rest : it.rest = numbered e.id (it.cursor + 1) ((e.recorded.drop it.cursor).take it.rest.length)
  final : it.final = true → e.terminal = true

namespace Reads

variable {it it' : Iterator} {e e' : ExecEntry}

theorem evolves (h : Reads it e) (he : e.Evolves e') : Reads it e' := by
  obtain ⟨later, hlater⟩ := he.recorded
  have hcursor : it.cursor ≤ e.recorded.length := Nat.le_trans (Nat.le_add_right _ _) h.bounded
  refine ⟨?_, ?_, ?_, fun hfinal => (he.terminal (h.final hfinal)).1⟩
  · rw [← hlater, length_append]
    exact Nat.le_trans h.bounded (Nat.le_add_right _ _)
  · rw [← hlater, take_append_of_le_length hcursor]
    exact h.yielded
  · have hle : it.rest.length ≤ (e.recorded.drop it.cursor).length := by
      rw [length_drop]
      have := h.bounded
      omega
    rw [← hlater, drop_append_of_le_length hcursor, take_append_of_le_length hle, he.id]
    exact h.rest

theorem of_empty (h : Reads it e) (hcursor : it'.cursor = it.cursor) (hyielded : it'.yielded = it.yielded)
    (hrest : it'.rest = []) (hfinal : it'.final = true → e.terminal = true) : Reads it' e := by
  refine ⟨?_, ?_, ?_, hfinal⟩
  · rw [hcursor, hrest]
    exact Nat.le_trans (Nat.le_add_right _ _) h.bounded
  · rw [hcursor, hyielded]
    exact h.yielded
  · rw [hrest, length_nil, take_zero]
    rfl

theorem of_read (h : Reads it e) (hcursor : it'.cursor = it.cursor) (hyielded : it'.yielded = it.yielded)
    (hrest : it'.rest = numbered e.id (it.cursor + 1) (e.recorded.drop it.cursor))
    (hfinal : it'.final = true → e.terminal = true) :
    Reads it' e ∧ it'.cursor + it'.rest.length = e.recorded.length := by
  have hcursor' : it.cursor ≤ e.recorded.length := Nat.le_trans (Nat.le_add_right _ _) h.bounded
  have hlength : it'.cursor + it'.rest.length = e.recorded.length := by
    rw [hcursor, hrest, length_numbered, length_drop]
    omega
  refine ⟨⟨Nat.le_of_eq hlength, ?_, ?_, hfinal⟩, hlength⟩
  · rw [hcursor, hyielded]
    exact h.yielded
  · rw [hcursor, hrest, length_numbered, take_length]

/-- An iterator takes the next record. -/
theorem take (h : Reads it e) {envelope : ExecEventEnvelope} {rest : List ExecEventEnvelope}
    (hhas : it.rest = envelope :: rest) (hcursor : it'.cursor = (World.takeRecord it envelope).cursor)
    (hyielded : it'.yielded = (World.takeRecord it envelope).yielded) (hrest : it'.rest = rest)
    (hfinal : it'.final = it.final) : Reads it' e ∧ it'.cursor + it'.rest.length = it.cursor + it.rest.length := by
  have hbounded := h.bounded
  have hslice := h.rest
  rw [hhas, length_cons] at hbounded hslice
  obtain ⟨x, xs, hdrop⟩ : ∃ x xs, e.recorded.drop it.cursor = x :: xs := by
    cases hd : e.recorded.drop it.cursor with
    | nil =>
      have := congrArg List.length hd
      rw [length_drop, length_nil] at this
      omega
    | cons x xs => exact ⟨x, xs, rfl⟩
  rw [hdrop, take_succ_cons] at hslice
  obtain ⟨henvelope, htail⟩ := List.cons.inj hslice
  have hseq : it'.cursor = it.cursor + 1 := by
    rw [hcursor]
    show envelope.seq = _
    rw [henvelope]
  have hnext : e.recorded.drop (it.cursor + 1) = xs := by
    rw [← tail_drop, hdrop, tail_cons]
  have htake : e.recorded.take (it.cursor + 1) = e.recorded.take it.cursor ++ [x] := by
    rw [take_add, hdrop]
    rfl
  have hlength : it'.cursor + it'.rest.length = it.cursor + it.rest.length := by
    rw [hseq, hrest, hhas, length_cons]
    omega
  refine ⟨⟨?_, ?_, ?_, fun hf => h.final (hfinal ▸ hf)⟩, hlength⟩
  · rw [hlength]
    exact h.bounded
  · rw [hyielded, hseq, htake, filter_append]
    show (if agentEventOf envelope.event then it.yielded ++ [envelope.event] else it.yielded) = _
    rw [henvelope, h.yielded]
    show (if agentEventOf x then _ ++ [x] else _) = _
    split
    · rename_i hx
      rw [filter_cons_of_pos hx]
      rfl
    · rename_i hx
      rw [filter_cons_of_neg hx, filter_nil, append_nil]
  · rw [hrest, hseq, hnext]
    exact htail

end Reads

end Iterator

namespace World

variable {cfg : ExecServiceOptions} {w w' : World}

def Iterating (w : World) : Prop :=
  ∀ (i : Nat) (it : Iterator), w.iterators[i]? = some it →
    (∃ (k : Nat) (st : StartRun), w.starts[k]? = some st ∧ st.phase = .bound ∧ st.entry = it.entry) ∧
    ∃ e, w.entries[it.entry]? = some e ∧ it.Reads e

variable {st : StartRun}

theorem bound_kept {now : Nat} {op : Op} (hstep : w.perform cfg now op = some w') {k : Nat}
    (hk : w.starts[k]? = some st) (hbound : st.phase = .bound) : w'.starts[k]? = some st := by
  have hset : ∀ {j : Nat} {sj st₁ : StartRun}, w.starts[j]? = some sj → sj.phase ≠ .bound →
      w'.starts = w.starts.set j st₁ → w'.starts[k]? = some st := by
    intro j sj st₁ hj hphase heq
    have hne : j ≠ k := by
      rintro rfl
      rw [hk] at hj
      cases hj
      exact hphase hbound
    rw [heq, List.getElem?_set_ne hne]
    exact hk
  cases change_perform hstep with
  | quiet hq => exact hq.starts ▸ hk
  | begun prepared st₁ _ hb =>
    rw [hb.starts, List.getElem?_append_left (List.getElem?_eq_some_iff.1 hk).1]
    exact hk
  | advanced j sj st₁ hj hb hp | late j sj hj hb hp | bound j sj hj hb hp => exact hset hj (of_pending hp).1 hb.starts
  | failed j sj error hj hb hphase => exact hset hj hphase hb.starts
  | left j sj phase es hj hb hover =>
    refine hset hj ?_ hb.starts
    intro heq
    rw [heq] at hover
    cases hover
  | drains c run run' es _ hb | drained c run _ _ hb => exact hb.starts ▸ hk
  | close heq =>
    subst heq
    have hstarts := (Quiet.requests w w.live).starts
    exact hstarts ▸ hk
  | closeCancelled i run _ heq | iterated j sj _ _ heq =>
    subst heq
    exact hk
  | closeWaited i run _ heq =>
    subst heq
    have hstarts := (@Quiet.settles cfg w now run.live).starts
    exact hstarts ▸ hk
  | stepped i hadvance => exact (advance_keeps hadvance).1 ▸ hk

theorem events_spec (hinv : Invariant w) (hnamed : Named w) {k : Nat} {e : ExecEntry} {c : Nat}
    {slice : List ExecEventEnvelope} (hk : w.starts[k]? = some st) (hbound : st.phase = .bound)
    (he : w.entries[st.entry]? = some e) (hc : c ≤ e.recorded.length)
    (h : w.events (w.idOf st.entry) c = some slice) :
    w.runs.get (w.idOf st.entry) = some st.entry ∧ slice = numbered e.id (c + 1) (e.recorded.drop c) := by
  unfold events at h
  split at h
  · cases h
  rename_i e' hfound
  obtain ⟨a, hget, ha⟩ := Option.bind_eq_some_iff.1 hfound
  have hown := hnamed.own k st a hk hbound (OMap.mem_of_get hget)
  subst hown
  rw [he] at ha
  cases ha
  refine ⟨hget, ?_⟩
  have hholds := (hinv.sound _ e he).history
  by_cases hsafe : (c : Int) ≤ maxSafeInteger
  · rw [read_holds hholds hc hsafe] at h
    split at h
    · rename_i heq
      split at heq <;> cases heq
      cases h
      rfl
    · cases h
  · have hread : e.replay.read c = none := by
      unfold ExecReplayBuffer.read
      rw [if_pos (by omega)]
    rw [hread] at h
    cases h

/-- A turn of an iterator keeps what it has read. -/
theorem advance_reads (hinv : Invariant w) (hnamed : Named w) {i : Nat} (hstep : w.advance i = some w')
    {it : Iterator}
    (hi : w.iterators[i]? = some it) {k : Nat} (hk : w.starts[k]? = some st) (hbound : st.phase = .bound)
    (hentry : st.entry = it.entry) {e : ExecEntry} (he : w.entries[it.entry]? = some e) (hreads : it.Reads e) :
    ∃ it', w'.iterators = w.iterators.set i it' ∧ it'.entry = it.entry ∧ it'.Reads e ∧
      (it'.final = true → (it.final = true ∧ it'.cursor + it'.rest.length = it.cursor + it.rest.length) ∨
        it'.cursor + it'.rest.length = e.recorded.length) := by
  have hcursor : it.cursor ≤ e.recorded.length := Nat.le_trans (Nat.le_add_right _ _) hreads.bounded
  have hevents : ∀ {slice : List ExecEventEnvelope}, w.events (w.idOf it.entry) it.cursor = some slice →
      w.runs.get (w.idOf it.entry) = some it.entry ∧
        slice = numbered e.id (it.cursor + 1) (e.recorded.drop it.cursor) := by
    intro slice hslice
    rw [← hentry] at hslice he ⊢
    exact events_spec hinv hnamed hk hbound he hcursor hslice
  unfold advance at hstep
  rw [hi] at hstep
  dsimp only at hstep
  split at hstep
  · split at hstep
    · cases hstep
      refine ⟨_, rfl, rfl, ?_, fun hf => by cases hf⟩
      exact hreads.of_empty rfl rfl rfl fun hf => by cases hf
    rename_i batch hbatch
    cases hstep
    refine ⟨_, rfl, rfl, ?_, fun hf => by cases hf⟩
    exact (@Iterator.Reads.of_read it { it with phase := .batch batch } e hreads rfl rfl (hevents hbatch).2
      fun hf => by cases hf).1
  · rename_i envelope rest hphase
    cases hstep
    have hhas : it.rest = envelope :: rest := by
      unfold Iterator.rest
      rw [hphase]
    have hfinal : it.final = false := by
      unfold Iterator.final
      rw [hphase]
    refine ⟨_, rfl, rfl, ?_, fun hf => by cases hf⟩
    exact (@Iterator.Reads.take it
      { takeRecord it envelope with phase := .batch rest } e hreads envelope rest hhas rfl rfl
      rfl hfinal.symm).1
  · split at hstep
    · cases hstep
      refine ⟨_, rfl, rfl, ?_, fun hf => by cases hf⟩
      exact hreads.of_empty rfl rfl rfl fun hf => by cases hf
    rename_i hstatus
    split at hstep
    · cases hstep
      refine ⟨_, rfl, rfl, ?_, fun hf => by cases hf⟩
      exact hreads.of_empty rfl rfl rfl fun hf => by cases hf
    rename_i rest hrest
    cases hstep
    obtain ⟨hget, hslice⟩ := hevents hrest
    have hterminal : e.terminal = true := by
      have hgoing := hnamed.going k st hk hbound
      rw [hentry] at hgoing
      obtain ⟨e', he', hgoing⟩ := hgoing
      rw [he] at he'
      cases he'
      rcases hgoing with hterminal | hrunning
      · exact hterminal
      refine absurd ?_ hstatus
      unfold getStatus
      rw [hget]
      show (w.entries[it.entry]?).map _ = _
      rw [he, ← hrunning]
      rfl
    obtain ⟨hreads', hlength⟩ := @Iterator.Reads.of_read it { it with phase := .remaining rest } e hreads rfl rfl
      hslice fun _ => hterminal
    exact ⟨_, rfl, rfl, hreads', fun _ => .inr hlength⟩
  · split at hstep <;> cases hstep
    refine ⟨_, rfl, rfl, ?_, fun hf => by cases hf⟩
    exact hreads.of_empty rfl rfl rfl fun hf => by cases hf
  · rename_i envelope rest hphase
    cases hstep
    have hhas : it.rest = envelope :: rest := by
      unfold Iterator.rest
      rw [hphase]
    have hfinal : it.final = true := by
      unfold Iterator.final
      rw [hphase]
    obtain ⟨hreads', hlength⟩ := @Iterator.Reads.take it
        { takeRecord it envelope with phase := .remaining rest } e hreads
      envelope rest hhas rfl rfl rfl hfinal.symm
    exact ⟨_, rfl, rfl, hreads', fun _ => .inl ⟨hfinal, hlength⟩⟩
  · rename_i hphase
    cases hstep
    have hhas : it.rest = [] := by
      unfold Iterator.rest
      rw [hphase]
    have hfinal : it.final = true := by
      unfold Iterator.final
      rw [hphase]
    refine ⟨_, rfl, rfl, ?_, fun _ => .inl ⟨hfinal, ?_⟩⟩
    · exact hreads.of_empty rfl rfl rfl fun _ => hreads.final hfinal
    · rw [hhas]
      rfl
  · cases hstep
  · cases hstep

theorem iterators_perform {now : Nat} {op : Op} (hstep : w.perform cfg now op = some w') :
    w'.iterators = w.iterators ∨
    (∃ (k : Nat) (st : StartRun), w.starts[k]? = some st ∧ st.phase = .bound ∧
      w' = { w with iterators := w.iterators ++ [⟨st.entry, 0, [], .reading⟩] }) ∨
    ∃ i, w.advance i = some w' := by
  cases change_perform hstep with
  | quiet hq => exact .inl hq.iterators
  | begun prepared st _ hb | advanced k st st' _ hb | failed k st error _ hb | left k st phase es _ hb 
  | late k st _ hb | bound k st _ hb | drains c run run' es _ hb | drained c run _ _ hb =>
    exact .inl hb.iterators
  | close heq =>
    subst heq
    exact .inl (Quiet.requests w w.live).iterators
  | closeCancelled i run _ heq =>
    subst heq
    exact .inl rfl
  | closeWaited i run _ heq =>
    subst heq
    exact .inl (Quiet.settles w now run.live).iterators
  | iterated k st hk hbound heq => exact .inr (.inl ⟨k, st, hk, hbound, heq⟩)
  | stepped i hadvance => exact .inr (.inr ⟨i, hadvance⟩)

/-- Once an iterator has made its last read, the first `m` recorded events are behind it or at hand. -/
def Covers (w : World) (i a m : Nat) : Prop :=
  ∀ it, w.iterators[i]? = some it → it.entry = a → it.final = true → m ≤ it.cursor + it.rest.length

/-- At least `m` events are recorded. -/
def Recorded (w : World) (a m : Nat) : Prop := ∃ e, w.entries[a]? = some e ∧ m ≤ e.recorded.length

theorem Recorded.moves {a m : Nat} (h : Recorded w a m) (hm : Moves w w') : Recorded w' a m := by
  obtain ⟨e, he, hle⟩ := h
  obtain ⟨e', he', hevolves⟩ := hm.entries.grows a e he
  exact ⟨e', he', Nat.le_trans hle hevolves.recorded.length_le⟩

theorem iterating_perform (hinv : Invariant w) (hnamed : Named w) (h : Iterating w) {now : Nat} {op : Op}
    (hstep : w.perform cfg now op = some w') :
    Iterating w' ∧ ∀ i a m, Recorded w a m → Covers w i a m → Covers w' i a m := by
  obtain ⟨-, hmoves⟩ := invariant_perform hinv hstep
  have hkeep : ∀ {it : Iterator} {e : ExecEntry}, w.entries[it.entry]? = some e → it.Reads e →
      ∃ e', w'.entries[it.entry]? = some e' ∧ it.Reads e' := by
    intro it e he hreads
    obtain ⟨e', he', hevolves⟩ := hmoves.entries.grows _ _ he
    exact ⟨e', he', hreads.evolves hevolves⟩
  have hbound : ∀ {it : Iterator}, (∃ (k : Nat) (st : StartRun), w.starts[k]? = some st ∧ st.phase = .bound ∧
      st.entry = it.entry) → ∃ (k : Nat) (st : StartRun), w'.starts[k]? = some st ∧ st.phase = .bound ∧
      st.entry = it.entry := by
    rintro it ⟨k, st, hk, hb, hentry⟩
    exact ⟨k, st, bound_kept hstep hk hb, hb, hentry⟩
  rcases iterators_perform hstep with heq | ⟨k, st, hk, hb, heq⟩ | ⟨i, hadvance⟩
  · refine ⟨fun i it hi => ?_, fun i a m _ hcovers it hi => ?_⟩ <;> rw [heq] at hi
    · obtain ⟨hst, e, he, hreads⟩ := h i it hi
      exact ⟨hbound hst, hkeep he hreads⟩
    · exact hcovers it hi
  · have hcases : ∀ {j : Nat} {it : Iterator}, w'.iterators[j]? = some it →
        w.iterators[j]? = some it ∨ it = ⟨st.entry, 0, [], .reading⟩ := by
      intro j it hj
      have hiterators : w'.iterators = w.iterators ++ [⟨st.entry, 0, [], .reading⟩] := by rw [heq]
      rw [hiterators] at hj
      rcases Nat.lt_or_ge j w.iterators.length with hlt | hge
      · rw [List.getElem?_append_left hlt] at hj
        exact .inl hj
      rw [List.getElem?_append_right hge, List.getElem?_singleton] at hj
      split at hj <;> cases hj
      exact .inr rfl
    refine ⟨fun j it hj => ?_, fun j a m _ hcovers it hj ha hfinal => ?_⟩
    · rcases hcases hj with hold | rfl
      · obtain ⟨hst, e, he, hreads⟩ := h j it hold
        exact ⟨hbound hst, hkeep he hreads⟩
      have hlt := hinv.started st (mem_of_getElem? hk)
      refine ⟨hbound ⟨k, st, hk, hb, rfl⟩, hkeep (List.getElem?_eq_getElem hlt) ⟨Nat.zero_le _, rfl, rfl, ?_⟩⟩
      intro hf
      cases hf
    · rcases hcases hj with hold | rfl
      · exact hcovers it hold ha hfinal
      · cases hfinal
  · cases hi : w.iterators[i]? with
    | none =>
      unfold advance at hadvance
      rw [hi] at hadvance
      cases hadvance
    | some it =>
      obtain ⟨⟨k, st, hk, hb, hentry⟩, e, he, hreads⟩ := h i it hi
      obtain ⟨it', hset, hsame, hreads', hfinal'⟩ := advance_reads hinv hnamed hadvance hi hk hb hentry he hreads
      refine ⟨fun j itj hj => ?_, fun j a m hrecorded hcovers itj hj ha hfinal => ?_⟩ <;> rw [hset] at hj
      · rcases Accounts.getElem?_set_cases hj with ⟨-, rfl⟩ | ⟨-, hold⟩
        · rw [← hsame] at he hentry
          exact ⟨hbound ⟨k, st, hk, hb, hentry⟩, hkeep he hreads'⟩
        · obtain ⟨hst, ej, hej, hreadsj⟩ := h j itj hold
          exact ⟨hbound hst, hkeep hej hreadsj⟩
      · rcases Accounts.getElem?_set_cases hj with ⟨rfl, rfl⟩ | ⟨-, hold⟩
        · rcases hfinal' hfinal with ⟨hf, hlength⟩ | hlength
          · rw [hlength]
            exact hcovers it hi (hsame ▸ ha) hf
          obtain ⟨e₁, he₁, hle⟩ := hrecorded
          rw [← ha, hsame, he] at he₁
          cases he₁
          rw [hlength]
          exact hle
        · exact hcovers itj hold ha hfinal

/-- What every step with fresh ids keeps. -/
structure Reading (w : World) : Prop where
  invariant : Invariant w
  named : Named w
  iterating : Iterating w

theorem reading_initial : Reading initial :=
  ⟨invariant_initial, named_initial, fun i it h => by cases h⟩

theorem reading_run {tr : List (Op × Nat)} (hrun : Run (FreshStep cfg) w tr w') (h : Reading w) :
    Reading w' ∧ Moves w w' ∧ ∀ i a m, Recorded w a m → Covers w i a m → Covers w' i a m := by
  induction hrun with
  | nil w => exact ⟨h, Moves.refl w, fun _ _ _ _ hc => hc⟩
  | cons hfresh _ ih =>
    have hstep := of_freshStep hfresh
    obtain ⟨hinv, hmoves⟩ := invariant_perform h.invariant hstep.1
    have hnamed := named_perform h.invariant h.named hstep.1 hstep.2
    obtain ⟨hiterating, hcovers⟩ := iterating_perform h.invariant h.named h.iterating hstep.1
    obtain ⟨hreading, hmoves', hcovers'⟩ := ih ⟨hinv, hnamed, hiterating⟩
    exact ⟨hreading, hmoves.trans hmoves', fun i a m hr hc => hcovers' i a m (hr.moves hmoves) (hcovers i a m hr hc)⟩

/-- A reader gets an event of its own execution. -/
def sampleReading : List (Op × Nat) :=
  [(.start (js "codex") none ⟨false, false, false, false, false⟩, 0), (.clientPrepared 0 (.ok false), 1),
    (.started 0 (.ok ()), 2), (.iterate 0, 3),
    (.event 0 [(js "type", .str (js "reasoning")), (js "text", .str (js "a"))], 4)]

/-- The service is closed without waiting longer, and the iterator ends. -/
def sampleClosing : List (Op × Nat) :=
  [(.close, 5), (.closeCancelled 0, 6), (.closeWaited 0, 7), (.advance 0, 8), (.advance 0, 9), (.advance 0, 10),
    (.advance 0, 11)]

end World

end Wrenyard.Exec
