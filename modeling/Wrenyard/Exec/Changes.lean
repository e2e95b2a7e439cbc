import Wrenyard.Exec.Moves

/-!
# What a step does to the calls in flight

Beside the entries and the table of runs a service has calls in flight: starts, drain loops, calls of `close` and
iterators.  Many steps leave these alone (`Quiet`); `Change` lists what the others do, and every step is one of them
(`change_perform`).
-/

namespace Wrenyard.Exec

open Js List Option

/-- Whether the start has yet to learn of a session. -/
def StartPhase.pending : StartPhase → Bool
  | .preparing | .clientPreparing | .starting => true
  | _ => false

/-- Whether the `catch` of the start has run its release. -/
def StartPhase.isOver : StartPhase → Bool
  | .releasing _ | .finalizing _ | .rejected => true
  | _ => false

/-- Whether the `finally` of the drain loop has run its release. -/
def ConsumePhase.isOver : ConsumePhase → Bool
  | .releasing | .finalizing | .done => true
  | .draining | .cancelling => false

namespace World

/-- A step that keeps the starts, the drain loops, the calls of `close` and the iterators, and runs no release. -/
structure Quiet (w w' : World) : Prop where
  starts : w'.starts = w.starts
  consumers : w'.consumers = w.consumers
  closes : w'.closes = w.closes
  iterators : w'.iterators = w.iterators
  sessions : w'.sessions = w.sessions
  closed : w'.closed = w.closed
  effects : ∃ es, w'.effects = w.effects ++ es ∧ ∀ k p, Effect.release k p ∉ es

variable {cfg : ExecServiceOptions} {w w' w'' : World}

variable {now : Nat}

namespace Quiet

theorem of_eq (hs : w'.starts = w.starts) (hc : w'.consumers = w.consumers) (hcl : w'.closes = w.closes)
    (hi : w'.iterators = w.iterators) (hn : w'.sessions = w.sessions) (hclosed : w'.closed = w.closed)
    (he : w'.effects = w.effects) : Quiet w w' :=
  ⟨hs, hc, hcl, hi, hn, hclosed, [], by rw [he, List.append_nil], fun _ _ h => by cases h⟩

theorem refl (w : World) : Quiet w w := of_eq rfl rfl rfl rfl rfl rfl rfl

theorem trans (h : Quiet w w') (h' : Quiet w' w'') : Quiet w w'' := by
  obtain ⟨es, hes, hquiet⟩ := h.effects
  obtain ⟨es', hes', hquiet'⟩ := h'.effects
  refine ⟨h'.starts.trans h.starts, h'.consumers.trans h.consumers, h'.closes.trans h.closes,
    h'.iterators.trans h.iterators, h'.sessions.trans h.sessions, h'.closed.trans h.closed, es ++ es', ?_, ?_⟩
  · rw [hes', hes, append_assoc]
  · intro k p hmem
    rcases mem_append.1 hmem with hmem | hmem
    · exact hquiet k p hmem
    · exact hquiet' k p hmem

theorem modify (w : World) (a : Nat) (f : ExecEntry → ExecEntry) : Quiet w (w.modify a f) :=
  of_eq rfl rfl rfl rfl rfl rfl rfl

theorem emit {es : List Effect} (h : ∀ k p, Effect.release k p ∉ es) : Quiet w (w.emit es) :=
  ⟨rfl, rfl, rfl, rfl, rfl, rfl, es, rfl, h⟩

theorem pruneCompleted (w : World) : Quiet w (w.pruneCompleted cfg) := of_eq rfl rfl rfl rfl rfl rfl rfl

theorem settle (w : World) (now a : Nat) (observed : ObservedFacts) : Quiet w (w.settle cfg now a observed) := by
  unfold World.settle
  split
  · exact refl w
  · exact (modify w a _).trans (pruneCompleted _)

theorem prepare {clientId : JsString} {id : Option ExecId} {prepared : World × Nat}
    (h : w.prepare cfg now clientId id = .ok prepared) : Quiet w prepared.1 := by
  rcases prepare_ok h with ⟨heq, -⟩ | ⟨-, entry, -, -, -, -, sequence, heq⟩
  · rw [heq]
    exact refl w
  · rw [heq]
    exact of_eq rfl rfl rfl rfl rfl rfl rfl

theorem answered {result : Except JsString World} (h : ∀ w', result = .ok w' → Quiet w w') :
    Quiet w (w.answered result) := by
  cases result with
  | error _ => exact refl w
  | ok w' => exact h w' rfl

theorem registerQueued {client : JsString} {id : Option ExecId} {onCancel : Bool}
    (h : w.registerQueued cfg now client id onCancel = .ok w') : Quiet w w' := by
  unfold World.registerQueued at h
  split at h
  · cases h
  split at h
  · cases h
  split at h
  · cases h
  cases hprepare : w.prepare cfg now (trim client) id <;> rw [hprepare] at h
  case error e => cases h
  case ok prepared =>
    cases h
    exact (prepare hprepare).trans (of_eq rfl rfl rfl rfl rfl rfl rfl)

theorem cancel {id : ExecId} (h : w.cancel cfg now id = .ok w') : Quiet w w' := by
  unfold World.cancel at h
  split at h
  · cases h
  rename_i a hget
  split at h
  · cases h
    exact refl w
  split at h
  · cases h
    exact refl w
  split at h
  · cases h
    exact (modify w a _).trans (emit fun k p hmem => by simp at hmem)
  · cases h
    refine ((modify w a _).trans (emit fun k p hmem => ?_)).trans (settle _ now _ _)
    split at hmem <;> simp at hmem

theorem setQueuePosition (w : World) (id : ExecId) (position : Option Nat) :
    Quiet w (w.setQueuePosition id position) := by
  unfold World.setQueuePosition
  split
  · exact refl w
  · split
    · exact refl w
    · exact modify w _ _

theorem failStart (w : World) (now : Nat) (id : ExecId) (error : Option JsString) :
    Quiet w (w.failStart cfg now id error) := by
  unfold World.failStart
  split
  · exact refl w
  · exact settle w now _ _

theorem settles (w : World) (now : Nat) (live : List Nat) :
    Quiet w (live.foldl (fun w a => w.settle cfg now a .empty) w) := by
  induction live generalizing w with
  | nil => exact refl w
  | cons a live ih =>
    exact (settle w now a _).trans (ih _)

theorem requests (w : World) (live : List Nat) :
    Quiet w (live.foldl (fun w a => w.modify a fun e => { e with cancelRequested := true }) w) := by
  induction live generalizing w with
  | nil => exact refl w
  | cons a live ih =>
    exact (modify w a _).trans (ih _)

end Quiet

@[simp] theorem settle_starts (w : World) (now a : Nat) (observed : ObservedFacts) :
    (w.settle cfg now a observed).starts = w.starts := (Quiet.settle w now a observed).starts

@[simp] theorem settle_consumers (w : World) (now a : Nat) (observed : ObservedFacts) :
    (w.settle cfg now a observed).consumers = w.consumers := (Quiet.settle w now a observed).consumers

@[simp] theorem settle_closes (w : World) (now a : Nat) (observed : ObservedFacts) :
    (w.settle cfg now a observed).closes = w.closes := (Quiet.settle w now a observed).closes

@[simp] theorem settle_iterators (w : World) (now a : Nat) (observed : ObservedFacts) :
    (w.settle cfg now a observed).iterators = w.iterators := (Quiet.settle w now a observed).iterators

@[simp] theorem settle_sessions (w : World) (now a : Nat) (observed : ObservedFacts) :
    (w.settle cfg now a observed).sessions = w.sessions := (Quiet.settle w now a observed).sessions

@[simp] theorem settle_closed (w : World) (now a : Nat) (observed : ObservedFacts) :
    (w.settle cfg now a observed).closed = w.closed := (Quiet.settle w now a observed).closed

@[simp] theorem settle_effects (w : World) (now a : Nat) (observed : ObservedFacts) :
    (w.settle cfg now a observed).effects = w.effects := by
  unfold settle
  split <;> rfl

structure Books (w w' : World) (starts : List StartRun) (consumers : List ConsumeRun) (sessions : Nat)
    (effects : List Effect) : Prop where
  starts : w'.starts = starts
  consumers : w'.consumers = consumers
  sessions : w'.sessions = sessions
  effects : w'.effects = w.effects ++ effects
  closes : w'.closes = w.closes
  iterators : w'.iterators = w.iterators
  closed : w'.closed = w.closed

def releaseOf (k : Nat) (st : StartRun) : List Effect := if st.release then [.release k .operation] else []

/-- What an operation does to the calls in flight. -/
inductive Change (cfg : ExecServiceOptions) (now : Nat) (w w' : World) : Op → Prop where
  | quiet {op : Op} : Quiet w w' → Change cfg now w w' op
  /-- A new start. -/
  | begun {client : JsString} {id : Option ExecId} {options : ExecStartOptions} (prepared : World × Nat)
      (st : StartRun) : w.prepare cfg now (trim client) id = .ok prepared →
      Books w w' (w.starts ++ [st]) w.consumers w.sessions [] → st.entry = prepared.2 → st.session = none →
      st.clientRelease = false → st.phase.pending = true → w'.entries.length = prepared.1.entries.length →
      w'.idOf prepared.2 = prepared.1.idOf prepared.2 → Change cfg now w w' (.start client id options)
  /-- A preparation is there. -/
  | advanced {op : Op} (k : Nat) (st st' : StartRun) : w.starts[k]? = some st →
      Books w w' (w.starts.set k st') w.consumers w.sessions [] → st.phase.pending = true →
      st'.phase.pending = true → st'.session = st.session → st'.entry = st.entry →
      (st'.clientRelease = st.clientRelease ∨ op = .clientPrepared k (.ok st'.clientRelease)) →
      Change cfg now w w' op
  /-- A start enters its `catch`. -/
  | failed {op : Op} (k : Nat) (st : StartRun) (error : JsString) : w.starts[k]? = some st →
      Books w w' (w.starts.set k { st with phase := .releasing error }) w.consumers w.sessions (releaseOf k st) →
      st.phase ≠ .bound → st.phase.isOver = false → Change cfg now w w' op
  /-- A start goes on in its `catch`. -/
  | left {op : Op} (k : Nat) (st : StartRun) (phase : StartPhase) (effects : List Effect) : w.starts[k]? = some st →
      Books w w' (w.starts.set k { st with phase := phase }) w.consumers w.sessions effects → st.phase.isOver = true →
      phase.isOver = true → (∀ j p, Effect.release j p ∉ effects) → Change cfg now w w' op
  /-- A session came too late. -/
  | late {op : Op} (k : Nat) (st : StartRun) : w.starts[k]? = some st →
      Books w w' (w.starts.set k { st with session := some w.sessions, phase := .cancelling }) w.consumers
        (w.sessions + 1) [.cancelSession w.sessions] → st.phase.pending = true → Change cfg now w w' op
  /-- A session is bound. -/
  | bound {op : Op} (k : Nat) (st : StartRun) : w.starts[k]? = some st →
      Books w w' (w.starts.set k { st with session := some w.sessions, phase := .bound })
        (w.consumers ++ [⟨st.entry, w.sessions, k, .empty, .draining⟩]) (w.sessions + 1) [] →
      st.phase.pending = true → w.closed = false → w.isTerminal st.entry = false →
      w' = ((({ w with sessions := w.sessions + 1 } : World).bind k st w.sessions).pruneCompleted cfg) →
      Change cfg now w w' op
  /-- A drain loop goes on. -/
  | drains {op : Op} (c : Nat) (run run' : ConsumeRun) (effects : List Effect) : w.consumers[c]? = some run →
      Books w w' w.starts (w.consumers.set c run') w.sessions effects → run'.start = run.start →
      run'.session = run.session → run'.entry = run.entry → run'.phase.isOver = run.phase.isOver →
      (∀ j p, Effect.release j p ∉ effects) → Change cfg now w w' op
  /-- A drain loop has come to its `finally`. -/
  | drained {op : Op} (c : Nat) (run : ConsumeRun) : w.consumers[c]? = some run → run.phase.isOver = false →
      Books w w' w.starts (w.consumers.set c { run with phase := .releasing }) w.sessions
        ((w.starts[run.start]?).elim [] (releaseOf run.start)) → Change cfg now w w' op
  | close : w' = w.close → Change cfg now w w' .close
  | closeCancelled (i : Nat) (run : CloseRun) : w.closes[i]? = some run →
      w' = { w with closes := w.closes.set i { run with phase := .waiting } } →
      Change cfg now w w' (.closeCancelled i)
  | closeWaited (i : Nat) (run : CloseRun) : w.closes[i]? = some run → w' = w.settleLive cfg now i run →
      Change cfg now w w' (.closeWaited i)
  | iterated (k : Nat) (st : StartRun) : w.starts[k]? = some st → st.phase = .bound →
      w' = { w with iterators := w.iterators ++ [⟨st.entry, 0, [], .reading⟩] } → Change cfg now w w' (.iterate k)
  | stepped (i : Nat) : w.advance i = some w' → Change cfg now w w' (.advance i)

theorem pending_launchPhase (client : JsString) : (launchPhase cfg client).pending = true := by
  unfold launchPhase
  split <;> rfl

theorem of_pending {phase : StartPhase} (h : phase.pending = true) : phase ≠ .bound ∧ phase.isOver = false := by
  cases phase <;> simp [StartPhase.pending, StartPhase.isOver] at h ⊢

theorem change_start {client : JsString} {id : Option ExecId} {options : ExecStartOptions}
    (h : w.start cfg now client id options = .ok w') : Change cfg now w w' (.start client id options) := by
  unfold start at h
  split at h
  · cases h
  split at h
  · cases h
  rename_i prepared hprepare
  have hphase : (if options.prepare then StartPhase.preparing else launchPhase cfg (trim client)).pending = true := by
    split
    · rfl
    · exact pending_launchPhase _
  have heq : prepared.1.starts = w.starts ∧ prepared.1.consumers = w.consumers ∧ prepared.1.closes = w.closes ∧
      prepared.1.iterators = w.iterators ∧ prepared.1.sessions = w.sessions ∧ prepared.1.closed = w.closed ∧
      prepared.1.effects = w.effects := by
    rcases prepare_ok hprepare with ⟨heq, -⟩ | ⟨-, entry, -, -, -, -, sequence, heq⟩ <;> rw [heq] <;>
      exact ⟨rfl, rfl, rfl, rfl, rfl, rfl, rfl⟩
  obtain ⟨hs, hc, hcl, hi, hn, hclosed, he⟩ := heq
  dsimp only at h
  split at h
  · split at h <;> cases h
    refine .begun prepared _ hprepare ⟨congrArg (· ++ [_]) hs, hc, hn, ?_, hcl, hi, hclosed⟩ rfl rfl rfl hphase ?_
      ?_
    · rw [append_nil]
      exact he
    · show ((prepared.1.entries.modify _ _).modify _ _).length = _
      rw [length_modify, length_modify]
    · have hwake : ((prepared.1.enqueue prepared.2 options.onCancel).modify prepared.2 (·.wake)).idOf prepared.2 =
          (prepared.1.enqueue prepared.2 options.onCancel).idOf prepared.2 := idOf_modify fun _ => rfl
      exact hwake.trans (idOf_enqueue ..)
  · cases h
    refine .begun prepared _ hprepare ⟨congrArg (· ++ [_]) hs, hc, hn, ?_, hcl, hi, hclosed⟩ rfl rfl rfl hphase rfl
      rfl
    rw [append_nil]
    exact he

theorem books_reject (w : World) (now k : Nat) (st : StartRun) (error : JsString) :
    Books w (w.reject cfg now k st error) (w.starts.set k { st with phase := .rejected }) w.consumers w.sessions
    [] := by
  unfold reject
  split
  · exact ⟨settle_starts .., settle_consumers .., settle_sessions .., by rw [settle_effects, append_nil]; rfl,
      settle_closes .., settle_iterators .., settle_closed ..⟩
  · exact ⟨rfl, rfl, rfl, (append_nil _).symm, rfl, rfl, rfl⟩

theorem change_drained {c : Nat} {run : ConsumeRun} {op : Op} (hrun : w.consumers[c]? = some run)
    (hover : run.phase.isOver = false) : Change cfg now w (w.drained cfg now c run) op := by
  refine .drained c run hrun hover ⟨settle_starts .., ?_, settle_sessions .., ?_, settle_closes ..,
    settle_iterators ..,
    settle_closed ..⟩
  · show (w.settle cfg now _ _).consumers.set c _ = _
    rw [settle_consumers]
  · show (w.settle cfg now _ _).effects ++ _ = _
    rw [settle_effects]
    cases w.starts[run.start]? with
    | none => rfl
    | some st => rfl

theorem change_perform {op : Op} (h : w.perform cfg now op = some w') : Change cfg now w w' op := by
  cases op <;> simp only [perform] at h
  case registerQueued client id onCancel =>
    cases h
    exact .quiet (Quiet.answered fun w' h => Quiet.registerQueued h)
  case start client id options =>
    cases h
    cases hstart : w.start cfg now client id options with
    | error _ => exact .quiet (Quiet.refl w)
    | ok w' => exact change_start hstart
  case prepared k outcome =>
    obtain ⟨st, hst, h⟩ := bind_eq_some_iff.1 h
    split at h
    · rename_i release hphase _
      cases h
      exact .advanced k st _ hst ⟨rfl, rfl, rfl, (append_nil _).symm, rfl, rfl, rfl⟩ (by rw [hphase]; rfl)
        (pending_launchPhase _) rfl rfl (.inl rfl)
    · rename_i e hphase _
      cases h
      exact .failed k st e hst ⟨rfl, rfl, rfl, rfl, rfl, rfl, rfl⟩ (by rw [hphase]; simp) (by rw [hphase]; rfl)
    · cases h
  case clientPrepared k outcome =>
    obtain ⟨st, hst, h⟩ := bind_eq_some_iff.1 h
    split at h
    · rename_i release hphase _
      cases h
      exact .advanced k st _ hst ⟨rfl, rfl, rfl, (append_nil _).symm, rfl, rfl, rfl⟩ (by rw [hphase]; rfl)
        rfl rfl rfl (.inr rfl)
    · rename_i e hphase _
      cases h
      exact .failed k st e hst ⟨rfl, rfl, rfl, rfl, rfl, rfl, rfl⟩ (by rw [hphase]; simp) (by rw [hphase]; rfl)
    · cases h
  case started k outcome =>
    obtain ⟨st, hst, h⟩ := bind_eq_some_iff.1 h
    split at h
    · rename_i hphase _
      cases h
      have hpending : st.phase.pending = true := by
        rw [hphase]
        rfl
      unfold opened
      split
      · exact .late k st hst ⟨rfl, rfl, rfl, rfl, rfl, rfl, rfl⟩ hpending
      · rename_i hlive
        obtain ⟨hopen, hterminal⟩ := Bool.or_eq_false_iff.1 (Bool.eq_false_iff.2 hlive)
        exact .bound k st hst ⟨rfl, rfl, rfl, (append_nil _).symm, rfl, rfl, rfl⟩ hpending hopen hterminal rfl
    · rename_i e hphase _
      cases h
      exact .failed k st e hst ⟨rfl, rfl, rfl, rfl, rfl, rfl, rfl⟩ (by rw [hphase]; simp) (by rw [hphase]; rfl)
    · cases h
  case lateCancelled k error =>
    obtain ⟨st, hst, h⟩ := bind_eq_some_iff.1 h
    obtain ⟨hphase, rfl⟩ := ite_some_none_eq_some.1 h
    exact .failed k st _ hst ⟨rfl, rfl, rfl, rfl, rfl, rfl, rfl⟩ (by rw [hphase]; simp) (by rw [hphase]; rfl)
  case released k =>
    obtain ⟨st, hst, h⟩ := bind_eq_some_iff.1 h
    split at h
    · rename_i error hphase
      split at h
      · cases h
        exact .left k st (.finalizing error) _ hst ⟨rfl, rfl, rfl, rfl, rfl, rfl, rfl⟩ (by rw [hphase]; rfl) rfl
          fun _ _ hmem => by simp at hmem
      cases h
      have hbooks := @books_reject cfg (w.emit [.streamClosed k]) now k st error
      refine .left k st .rejected [.streamClosed k] hst ⟨hbooks.starts, hbooks.consumers, hbooks.sessions, ?_,
        hbooks.closes, hbooks.iterators, hbooks.closed⟩ (by rw [hphase]; rfl) rfl fun _ _ hmem => by simp at hmem
      rw [hbooks.effects, append_nil]
      rfl
    · cases h
  case finalized k =>
    obtain ⟨st, hst, h⟩ := bind_eq_some_iff.1 h
    split at h <;> cases h
    rename_i error hphase
    exact .left k st .rejected [] hst (books_reject ..) (by rw [hphase]; rfl) rfl fun _ _ hmem => by cases hmem
  case event c event =>
    obtain ⟨run, hrun, h⟩ := bind_eq_some_iff.1 h
    split at h <;> cases h
    exact .drains c run _ [] hrun ⟨rfl, rfl, rfl, (append_nil _).symm, rfl, rfl, rfl⟩ rfl rfl rfl rfl
      fun _ _ hmem => by cases hmem
  case streamEnd | streamCancelled =>
    obtain ⟨run, hrun, h⟩ := bind_eq_some_iff.1 h
    obtain ⟨hphase, rfl⟩ := ite_some_none_eq_some.1 h
    exact change_drained hrun (by rw [hphase]; rfl)
  case streamError c error =>
    obtain ⟨run, hrun, h⟩ := bind_eq_some_iff.1 h
    obtain ⟨hphase, rfl⟩ := ite_some_none_eq_some.1 h
    exact .drains c run _ _ hrun ⟨rfl, rfl, rfl, rfl, rfl, rfl, rfl⟩ rfl rfl rfl (by rw [hphase]; rfl)
      fun _ _ hmem => by simp at hmem
  case consumerReleased c =>
    obtain ⟨run, hrun, h⟩ := bind_eq_some_iff.1 h
    obtain ⟨hphase, h⟩ := ite_none_right_eq_some.1 h
    obtain ⟨st, -, h⟩ := map_eq_some_iff.1 h
    split at h
    all_goals
      cases h
      exact .drains c run _ _ hrun ⟨rfl, rfl, rfl, rfl, rfl, rfl, rfl⟩ rfl rfl rfl (by rw [hphase]; rfl)
        fun _ _ hmem => by simp at hmem
  case consumerFinalized c =>
    obtain ⟨run, hrun, h⟩ := bind_eq_some_iff.1 h
    obtain ⟨hphase, rfl⟩ := ite_some_none_eq_some.1 h
    exact .drains c run _ [] hrun ⟨rfl, rfl, rfl, (append_nil _).symm, rfl, rfl, rfl⟩ rfl rfl rfl
      (by rw [hphase]; rfl) fun _ _ hmem => by cases hmem
  case setQueuePosition id position =>
    cases h
    exact .quiet (Quiet.setQueuePosition ..)
  case failStart id error =>
    cases h
    exact .quiet (Quiet.failStart ..)
  case cancel id =>
    cases h
    exact .quiet (Quiet.answered fun w' h => Quiet.cancel h)
  case close =>
    cases h
    exact .close rfl
  case closeCancelled i =>
    obtain ⟨run, hrun, h⟩ := bind_eq_some_iff.1 h
    split at h <;> cases h
    exact .closeCancelled i run hrun rfl
  case closeWaited i =>
    obtain ⟨run, hrun, h⟩ := bind_eq_some_iff.1 h
    split at h <;> cases h
    exact .closeWaited i run hrun rfl
  case iterate k =>
    obtain ⟨st, hst, h⟩ := bind_eq_some_iff.1 h
    obtain ⟨hphase, rfl⟩ := ite_some_none_eq_some.1 h
    exact .iterated k st hst hphase rfl
  case advance i => exact .stepped i h

theorem advance_keeps {i : Nat} (h : w.advance i = some w') : w'.starts = w.starts ∧ w'.consumers = w.consumers ∧
    w'.closes = w.closes ∧ w'.sessions = w.sessions ∧ w'.effects = w.effects := by
  unfold advance at h
  split at h
  · cases h
  split at h
  any_goals
    cases h
    exact ⟨rfl, rfl, rfl, rfl, rfl⟩
  · split at h <;> cases h <;> exact ⟨rfl, rfl, rfl, rfl, rfl⟩
  · split at h
    · cases h
      exact ⟨rfl, rfl, rfl, rfl, rfl⟩
    · split at h <;> cases h <;> exact ⟨rfl, rfl, rfl, rfl, rfl⟩
  · split at h <;> cases h
    exact ⟨rfl, rfl, rfl, rfl, rfl⟩
  · cases h
  · cases h

end World

end Wrenyard.Exec
