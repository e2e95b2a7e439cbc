import Wrenyard.Turn.Program

/-!
# What a segment can do

`Does` lists, once for all proofs about the turn, what a continuation can do where it is: the change of the runtime
and what is left to be resumed, with the conditions under which it happens.
-/

namespace Wrenyard.Turn

open Js Session Async

abbrev Spot := Place LedgerEventDraft Pc

/-! ### Kinds of continuations -/

namespace Pc

/-- A part may end here without an effect. -/
def halts : Pc → Bool
  | start | replies _ _ | stepFinished _ | catchClosed | flushEnd _ (.failure _) | flushEnd _ .interrupt
  | interruptTurn _ | interrupted | interruptFinished | steer _ _ | steered => true
  | _ => false

/-- The next iteration may begin here. -/
def tops : Pc → Bool
  | start | replies _ .next | stepFinished .next => true
  | _ => false

def throws : Pc → Bool
  | reasoning | stepStarted _ | prepared _ | thinking _ _ _ | completed _ _ | flushEnd false (.completed _ _)
  | flushEnd false (.failure (.reason _)) => true
  | _ => false

/-- The loop fails here, in this way. -/
def fails : Pc → Failure → Bool
  | invoking _ _, .reason _ => true
  | replies _ (.throw _), .thrown _ => true
  | stepFinished (.throw _), .thrown _ => true
  | _, _ => false

def flushes : Pc → Option FlushOwner
  | flushTurn _ owner => some owner
  | flushed _ _ owner => some owner
  | _ => none

def request : Pc → Option ReplyRequest
  | replyTurn _ request => some request
  | replyCall request _ => some request
  | replyError request _ => some request
  | replySent request _ => some request
  | _ => none

def final : Pc → Bool
  | replyTurn _ request => request.terminal
  | replyCall request _ => request.terminal
  | replySent request _ => request.terminal
  | replyError _ _ => true
  | _ => false

def isReply : Pc → Bool
  | replyTurn _ _ | replyCall _ _ | interruptionSent | replyError _ _ | replySent _ _ | saveMemories _ _
  | lastStepFinished _ _ | turnFinished _ | attention => true
  | _ => false

end Pc

def atResults (t : TurnRuntime) : Spot → Bool
  | .waiting (.flushTurn link _) => decide (t.flushesSettled = link)
  | .settled _ true (.flushed _ deferred _) =>
    decide ((deferred.dropWhile fun body => body.isReadDraft && (t.dropDeferred || t.aborted)) = [])
  | _ => false

def isNotice : EventBody → Bool
  | .systemNotice _ => true
  | _ => false

variable (c : TurnConfig) (t : TurnRuntime) (events : List LedgerEventDraft)

inductive Goes : Spot → Pc → Prop where
  | memory : t.finished = false → Goes (.waiting .memory) .reasoning
  | prepared {steersSeen : Nat} : Goes (.waiting (.prepared steersSeen)) (.invoking steersSeen [])
  | ignoredCall {steersSeen : Nat} {workerLines : List JsString} :
      Goes (.waiting (.invoking steersSeen workerLines)) (.invoking steersSeen workerLines)
  | threw {p : Spot} {error : JsString} : p.k.throws = true → Goes p (.reasoned (.threw error))
  | prepareFailed {steersSeen : Nat} {error : JsString} :
      Goes (.waiting (.prepared steersSeen)) (.reasoned (.failed error))
  | reasonStopped {steersSeen : Nat} {workerLines : List JsString} {error : JsString} : t.finished = true →
      Goes (.waiting (.invoking steersSeen workerLines)) (.reasoned (.failed error))
  | parsesStopped {steersSeen : Nat} {outcome : ReasonOutcome} {workerLines : List JsString} {error : JsString} :
      t.finished = true → Goes (.waiting (.parses steersSeen outcome workerLines)) (.reasoned (.failed error))
  | reasonDone {terminal : Bool} {workerOutput : JsString} :
      Goes (.waiting (.flushEnd true (.completed terminal workerOutput))) (.reasoned (.ok terminal))
  | failureStopped {error : JsString} : t.finished = true →
      Goes (.waiting (.flushEnd true (.failure (.reason error)))) (.reasoned (.failed error))
  | act : t.finished = false → Goes (.waiting (.reasoned (.ok false))) .acting
  | proceed {event : LedgerEventDraft} {ok : Bool} {status : StepStatus} :
      Goes (.settled event ok (.errorAppended .proceed)) (.replies status .next)
  | decided {status : StepStatus} : t.finished = false → t.actionPromises = 0 →
      Goes (.waiting .acting) (.replies status .next)
  | stopped {k : Pc} {status : StepStatus} : k = .memory ∨ (∃ result, k = .reasoned result) ∨ k = .acting ∨
    k = .closed →
      Goes (.waiting k) (.replies status .stop)
  | thrown {k : Pc} {status : StepStatus} {error : JsString} : k = .memory ∨ (∃ result, k = .reasoned result) ∨
    k = .closed →
      Goes (.waiting k) (.replies status (.throw error))
  | cancelled {failure : Failure} : Goes (.waiting (.cancelWork failure)) (.drainParses failure)
  | parsed {failure : Failure} : t.parsePromises = 0 →
      Goes (.waiting (.drainParses failure)) (.drainActions failure)

/-- What a continuation does. -/
inductive Does : Spot → Segment → Prop where
  | halt {p : Spot} {out : Option Out} : p.k.halts = true → (∀ turn event, out ≠ some (.steered turn event)) →
      Does p ⟨t, [], out⟩
  -- the step loop
  | iterate {p : Spot} : p.k.tops = true → t.finished = false → t.aborted = false →
      Does p ⟨{ t with
        step := t.step + 1
        actionsThisStep := 0
        toolCallsThisStep := 0
        asksThisStep := []
        reasonCompleted := false
        correctionRequired := false
        currentReasonText := []
        currentStepId := none }, [.wait .memory], none⟩
  | goes {p : Spot} {k : Pc} : Goes t p k → Does p ⟨t, [.wait k], none⟩
  | startStep {lastInputTokens : Option Nat} : Does (.waiting .reasoning)
      ⟨t, [.append (stepStartedDraft c t.step lastInputTokens) (.stepStarted t.steers)], none⟩
  | stepStarted {event : LedgerEventDraft} {steersSeen : Nat} : Does (.settled event true (.stepStarted steersSeen))
      ⟨{ t with currentStepId := some (stepId c.turn t.step), requestEvents := events },
        [.wait (.prepared steersSeen)], none⟩
  | invalidCall {steersSeen : Nat} {workerLines : List JsString} {event : LedgerEventDraft} : t.finished = false →
      isNotice event.body = true → Does (.waiting (.invoking steersSeen workerLines))
        ⟨{ t with
          toolCallsThisStep := t.toolCallsThisStep + 1
          correctionRequired := true
          parsePromises := t.parsePromises + 1 },
          [.wait (.invoking steersSeen workerLines), .append event .reporting], none⟩
  | ask {steersSeen : Nat} {workerLines workerLines' : List JsString} {intent : JsString} : t.finished = false →
      Does (.waiting (.invoking steersSeen workerLines))
        ⟨{ t with
          toolCallsThisStep := t.toolCallsThisStep + 1
          asksThisStep := t.asksThisStep ++ [intent] }, [.wait (.invoking steersSeen workerLines')], none⟩
  | actionCall {steersSeen actionSeq : Nat} {workerLines workerLines' : List JsString} {actionId : JsString}
      {action : ParsedAction} {e : ActionStartedEvent} : t.finished = false →
      Does (.waiting (.invoking steersSeen workerLines))
        ⟨{ t with
          toolCallsThisStep := t.toolCallsThisStep + 1
          actionsThisStep := t.actionsThisStep + 1
          parsePromises := t.parsePromises + 1
          actionSeq },
          [.wait (.invoking steersSeen workerLines'),
            .append (stepDraft c t.step (.actionStarted e)) (.starting actionId t.step action)], none⟩
  | think {steersSeen : Nat} {workerLines : List JsString} {outcome : ReasonOutcome} {e : ReasoningThinkingEvent} :
      Does (.waiting (.invoking steersSeen workerLines))
        ⟨t, [.append (stepDraft c t.step (.reasoningThinking e)) (.thinking steersSeen outcome workerLines)], none⟩
  | speak {p : Spot} {steersSeen : Nat} {workerLines : List JsString} {outcome : ReasonOutcome} :
      p.k = .invoking steersSeen workerLines ∨ p.k = .thinking steersSeen outcome workerLines →
      Does p ⟨{ t with currentReasonText := outcome.text }, [.wait (.parses steersSeen outcome workerLines)], none⟩
  | complete {steersSeen : Nat} {workerLines : List JsString} {outcome : ReasonOutcome} {terminal : Bool}
      {workerOutput : JsString} : t.finished = false → t.parsePromises = 0 →
      (terminal = true → t.steers = steersSeen ∧ isTerminalStep t outcome.text = true) →
      Does (.waiting (.parses steersSeen outcome workerLines))
        ⟨{ t with closing := t.closing || terminal },
          [.append (reasoningCompletedDraft c t.step outcome workerOutput) (.completed terminal workerOutput)], none⟩
  | completed {event : LedgerEventDraft} {terminal : Bool} {workerOutput : JsString} :
      Does (.settled event true (.completed terminal workerOutput))
        (flushResults { t with reasonCompleted := true } (.completed terminal workerOutput))
  | requestReply {terminal : Bool} {workerOutput : JsString} :
      Does (.waiting (.flushEnd true (.completed terminal workerOutput)))
        ⟨{ t with repliesAdded := t.repliesAdded + 1 },
          [.wait (.replyTurn t.repliesAdded
            ⟨t.step, if terminal then .completed else .running, terminal, none⟩),
            .wait (.reasoned (.ok terminal))], none⟩
  | report {after : AfterError} {message : JsString} : t.finished = false → t.actionPromises = 0 →
      Does (.waiting .acting) ⟨t, [.append (errorDraft c t (js "reason") message t.step) (.errorAppended after)],
        none⟩
  | correct {event : LedgerEventDraft} {ok : Bool} {status : StepStatus} :
      Does (.settled event ok (.errorAppended .correct))
        ⟨{ t with correctionRequired := true }, [.wait (.replies status .next)], none⟩
  | retry {event : LedgerEventDraft} {ok : Bool} {status : StepStatus} :
      Does (.settled event ok (.errorAppended .emptyReason))
        ⟨{ t with emptyReasonRetried := true }, [.wait (.replies status .next)], none⟩
  | close {p : Spot} {error : JsString} :
      (t.finished = false ∧ ∃ error, p.k = .reasoned (.failed error)) ∨ p.k = .errorAppended .emptyReason →
      Does p ⟨{ t with repliesAdded := t.repliesAdded + 1 },
        [.wait (.replyTurn t.repliesAdded ⟨t.step, .failed, true, some error⟩), .wait .closed], none⟩
  | closeThrown {error : JsString} : t.finished = false →
      Does (.waiting (.flushEnd true (.failure (.thrown error))))
        ⟨{ t with aborted := false, repliesAdded := t.repliesAdded + 1 },
          [.wait (.replyTurn t.repliesAdded ⟨t.step, .failed, true, some error⟩), .wait .catchClosed], none⟩
  | renew {error : JsString} : t.finished = false →
      Does (.waiting (.flushEnd true (.failure (.reason error))))
        ⟨{ t with aborted := false }, [.wait (.reasoned (.failed error))], none⟩
  | closeStep {status : StepStatus} {exit : Exit} {id : JsString} : t.repliesSettled = t.repliesAdded →
      t.currentStepId = some id → Does (.waiting (.replies status exit))
        ⟨{ t with currentStepId := none }, [.append (stepFinishedDraft c t.step id status) (.stepFinished exit)],
          none⟩
  | fail {p : Spot} {failure : Failure} : p.k.fails failure = true → t.finished = false →
      Does p ⟨{ t with reasonCompleted := true, dropDeferred := true, aborted := true },
        [.wait (.cancelWork failure)], none⟩
  | drained {failure : Failure} : t.actionPromises = 0 →
      Does (.waiting (.drainActions failure)) (flushResults t (.failure failure))
  -- a flush
  | take {p : Spot} {owner : FlushOwner} {bundle : ResultBundle} {queue : List ResultBundle} :
      p.k.flushes = some owner → atResults t p = true → t.reasonCompleted = true → t.resultQueue = bundle :: queue →
      Does p ⟨{ t with resultQueue := queue },
        [.append (finishedDraft c t bundle) (.flushed bundle.step bundle.deferred owner)], none⟩
  | defer {event : LedgerEventDraft} {step : Nat} {deferred deferred' : List DeferredBody} {owner : FlushOwner}
      {body : DeferredBody} : Does (.settled event true (.flushed step deferred owner))
        ⟨t, [.append (stepDraft c step body.body) (.flushed step deferred' owner)], none⟩
  | settleFlush {p : Spot} {ok : Bool} {owner : FlushOwner} : p.k.flushes = some owner →
    Does p (settleFlush t ok owner)
  -- a reply
  | converse {link : Nat} {request : ReplyRequest} {canSave : Bool} : t.finished = false →
      Does (.waiting (.replyTurn link request)) ⟨t, [.wait (.replyCall request canSave)], none⟩
  | suppress {p : Spot} {request : ReplyRequest} {parent : Option JsString} {text : JsString} :
      p.k.request = some request →
      Does p ⟨t, [.append (replySentDraft c request parent text .interruption) .interruptionSent], none⟩
  | replyFails {request : ReplyRequest} {canSave : Bool} {failure : JsString} : request.terminal = true →
      Does (.waiting (.replyCall request canSave))
        ⟨t, [.append (errorDraft c t (js "reply") failure request.step) (.replyError request failure)], none⟩
  | say {p : Spot} {request : ReplyRequest} {parent : Option JsString} {text : JsString} {source : ReplySource}
      {memories : Bool} : p.k.request = some request →
      Does p ⟨t, [.append (replySentDraft c request parent text source) (.replySent request memories)], none⟩
  | claim {p : Spot} {request : ReplyRequest} {status : TerminalStatus} {error : Option JsString} :
      p.k.request = some request → p.k.final = true → (status = request.status.terminal ∨ status = .failed) →
      t.finished = false → Does p
        ⟨{ t with status := some status.turn, finished := true }, [.wait (.saveMemories status error)], none⟩
  | claimStep {p : Spot} {request : ReplyRequest} {status : TerminalStatus} {error : Option JsString}
    {id : JsString} :
      p.k.request = some request → p.k.final = true → (status = request.status.terminal ∨ status = .failed) →
      t.finished = false → t.currentStepId = some id → Does p
        ⟨{ t with status := some status.turn, finished := true, currentStepId := none },
          [.append (stepFinishedDraft c t.step id status.step) (.lastStepFinished status error)], none⟩
  | claimTurn {p : Spot} {request : ReplyRequest} {status : TerminalStatus} {error : Option JsString} :
      p.k.request = some request → p.k.final = true → (status = request.status.terminal ∨ status = .failed) →
      t.finished = false → Does p
        ⟨{ t with status := some status.turn, finished := true },
          [.append (turnFinishedDraft c status.turn error) (.turnFinished status)], none⟩
  | lastStep {status : TerminalStatus} {error : Option JsString} {id : JsString} : t.currentStepId = some id →
      Does (.waiting (.saveMemories status error))
        ⟨{ t with currentStepId := none },
          [.append (stepFinishedDraft c t.step id status.step) (.lastStepFinished status error)], none⟩
  | lastTurn {p : Spot} {status : TerminalStatus} {error : Option JsString} :
      p.k = .saveMemories status error ∨ p.k = .lastStepFinished status error →
      Does p ⟨t, [.append (turnFinishedDraft c status.turn error) (.turnFinished status)], none⟩
  | attention {event : LedgerEventDraft} {status : TerminalStatus} {e : TurnAttentionEvent} :
      Does (.settled event true (.turnFinished status)) ⟨t,
        [.append (turnDraft c (.turnAttention e)) .attention], none⟩
  | settleReply {p : Spot} {ok durable : Bool} : p.k.isReply = true →
      Does p ⟨{ t with repliesSettled := t.repliesSettled + 1, replyOk := ok, durableTerminal := durable }, [], none⟩
  -- an interrupt
  | interrupt {reason : InterruptReason} : t.finished = false → Does (.waiting (.interruptTurn reason))
      ⟨{ t with status := some .interrupted, finished := true, reasonCompleted := true },
        [.append (turnDraft c (.turnInterrupted ⟨turnId c.turn, reason⟩)) .interrupted], none⟩
  | abort {event : LedgerEventDraft} : Does (.settled event true .interrupted)
      ⟨{ t with aborted := true }, [.wait .interruptCancel], none⟩
  | interruptFlush : Does (.waiting .interruptCancel) (flushResults t .interrupt)
  | interruptFinish : Does (.waiting (.flushEnd true .interrupt))
      ⟨t, [.append (turnFinishedDraft c .interrupted none) .interruptFinished], none⟩
  | interruptDone {event : LedgerEventDraft} : Does (.settled event true .interruptFinished)
      ⟨{ t with durableTerminal := true }, [], none⟩
  -- a tool call and its action
  | reported {event : LedgerEventDraft} {ok : Bool} : Does (.settled event ok .reporting)
      ⟨{ t with parsePromises := t.parsePromises - 1 }, [], none⟩
  | started {event : LedgerEventDraft} {actionId : JsString} {step : Nat} {action : ParsedAction} :
      Does (.settled event true (.starting actionId step action))
        ⟨{ t with parsePromises := t.parsePromises - 1, actionPromises := t.actionPromises + 1 },
          [.wait (.running actionId step action)], none⟩
  | notStarted {event : LedgerEventDraft} {actionId error : JsString} {step : Nat} {action : ParsedAction} :
      Does (.settled event false (.starting actionId step action))
        ⟨t, [.append (errorDraft c t (js "action") error step) .reporting], none⟩
  | finished {actionId : JsString} {step : Nat} {action : ParsedAction} {bundle : ResultBundle} : bundle.step = step →
      Does (.waiting (.running actionId step action))
        (flushResults { t with resultQueue := t.resultQueue ++ [bundle] } .action)
  | queued {actionId : JsString} {step : Nat} {action : ParsedAction} {bundle : ResultBundle} : bundle.step = step →
      t.reasonCompleted = false → Does (.waiting (.running actionId step action))
        ⟨{ t with resultQueue := t.resultQueue ++ [bundle], actionPromises := t.actionPromises - 1 }, [], none⟩
  | acted {ok : Bool} : Does (.waiting (.flushEnd ok .action))
      ⟨{ t with actionPromises := t.actionPromises - 1 }, [], none⟩
  -- a steered message
  | steer {text : JsString} {sender : Option JsString} : t.finished = false → t.closing = false →
      Does (.waiting (.steer text sender))
        ⟨{ t with steers := t.steers + 1 }, [.append (turnSteeredDraft c text sender) .steered], none⟩
  | steered {event : LedgerEventDraft} : Does (.settled event true .steered) ⟨t, [], some (.steered c.turn event)⟩

variable {c t events} {p : Spot}

private theorem does_halt (h : p.k.halts = true) : Does c t events p ⟨t, [], none⟩ := .halt h (by simp)

private theorem does_iterate (htop : p.k.tops = true) (hhalt : p.k.halts = true) : Does c t events p (iterate t) := by
  unfold iterate
  split
  · exact does_halt hhalt
  · rename_i hopen
    rw [Bool.or_eq_true, not_or, Bool.not_eq_true, Bool.not_eq_true] at hopen
    exact .iterate htop hopen.1 hopen.2

private theorem does_afterStep {exit : Exit} (h : (∃ status, p.k = .replies status exit) ∨ p.k = .stepFinished exit) :
    Does c t events p (afterStep t exit) := by
  have hhalt : p.k.halts = true := by
    rcases h with ⟨status, h⟩ | h <;> rw [h] <;> rfl
  cases exit with
  | next => exact does_iterate (by rcases h with ⟨status, h⟩ | h <;> rw [h] <;> rfl) hhalt
  | stop => exact does_halt hhalt
  | throw error =>
    have hfails : p.k.fails (.thrown error) = true := by
      rcases h with ⟨status, h⟩ | h <;> rw [h] <;> rfl
    unfold afterStep
    simp only
    split
    · exact does_halt hhalt
    · rename_i hopen
      exact .fail hfails (Bool.not_eq_true _ ▸ hopen)

variable {owner : FlushOwner}

private theorem does_flushLoop (hflush : p.k.flushes = some owner) (hat : atResults t p = true) :
    Does c t events p (flushLoop c t owner) := by
  unfold flushLoop
  split
  · rename_i bundle queue hcompleted hqueue
    exact .take hflush hat hcompleted hqueue
  · exact .settleFlush hflush

variable {ok : Bool}

private theorem does_settleReply (h : p.k.isReply = true) : Does c t events p (settleReply t ok) :=
  .settleReply h

variable {k : Pc} {request : ReplyRequest}

private theorem isReply_of_request (h : k.request = some request) : k.isReply = true := by
  cases k <;> first | rfl | cases h

variable (hrequest : p.k.request = some request)
include hrequest

private theorem does_finishTurn {status : TerminalStatus} {error : Option JsString} {memories : Bool}
 (hfinal : p.k.final = true)
    (hstatus : status = request.status.terminal ∨ status = .failed) :
    Does c t events p (finishTurn c t status error memories) := by
  unfold finishTurn
  split
  · exact does_settleReply (isReply_of_request hrequest)
  rename_i hopen
  rw [Bool.not_eq_true] at hopen
  simp only
  split
  · exact .claim hrequest hfinal hstatus hopen
  unfold closeLastStep
  split
  · exact .claimTurn hrequest hfinal hstatus hopen
  · rename_i id hid
    exact .claimStep hrequest hfinal hstatus hopen hid

private theorem does_afterReply {memories : Bool}
    (hfinal : p.k.final = request.terminal) : Does c t events p (afterReply c t request memories) := by
  unfold afterReply
  split
  · exact does_settleReply (isReply_of_request hrequest)
  split
  · rename_i hterminal
    exact does_finishTurn hrequest (hfinal.trans hterminal) (Or.inl rfl)
  · exact does_settleReply (isReply_of_request hrequest)

private theorem does_suppressReply {parent : Option JsString} :
    Does c t events p (suppressReply c t request parent) := by
  unfold suppressReply
  split
  · exact .suppress hrequest
  · exact does_settleReply (isReply_of_request hrequest)

omit hrequest

private theorem does_leaveStop {status : StepStatus}
    (h : k = .memory ∨ (∃ result, k = .reasoned result) ∨ k = .acting ∨ k = .closed) :
    Does c t events (.waiting k) (leave t status .stop) := .goes (.stopped h)

variable {error : JsString}

private theorem does_leaveThrow {status : StepStatus}
    (h : k = .memory ∨ (∃ result, k = .reasoned result) ∨ k = .closed) :
    Does c t events (.waiting k) (leave t status (.throw error)) := .goes (.thrown h)

private theorem does_threw (h : p.k.throws = true) :
    Does c t events p (reasonEnds t (.threw error)) := .goes (.threw h)

/-! ### The parts -/

variable {workerLines : List JsString}

private theorem does_onToolCall {steersSeen taken : Nat} {call : ParsedCall} :
    Does c t events (.waiting (.invoking steersSeen workerLines))
    (onToolCall c t steersSeen workerLines call taken) := by
  unfold onToolCall
  split
  · exact .goes .ignoredCall
  rename_i hopen
  rw [Bool.or_eq_true, not_or, Bool.not_eq_true, Bool.not_eq_true] at hopen
  cases call with
  | invalid message => exact .invalidCall hopen.1 rfl
  | ask intent => exact .ask hopen.1
  | action action => exact .actionCall hopen.1

private theorem does_reasonOutcome {steersSeen : Nat} {result : Except JsString ReasonOutcome} :
    Does c t events (.waiting (.invoking steersSeen workerLines))
    (reasonOutcome c t steersSeen workerLines result) := by
  cases result with
  | error error =>
    unfold reasonOutcome
    simp only
    split
    · rename_i hfinished
      exact .goes (.reasonStopped hfinished)
    · rename_i hopen
      exact .fail rfl (Bool.not_eq_true _ ▸ hopen)
  | ok outcome =>
    unfold reasonOutcome
    simp only
    split
    · rename_i hfinished
      exact .goes (.reasonStopped hfinished)
    · split
      · exact .think
      · exact .speak (Or.inl rfl)

private theorem does_completeReason {steersSeen : Nat} {outcome : ReasonOutcome} (hparses : t.parsePromises = 0) :
    Does c t events (.waiting (.parses steersSeen outcome workerLines))
      (completeReason c t steersSeen outcome workerLines) := by
  unfold completeReason
  split
  · rename_i hfinished
    exact .goes (.parsesStopped hfinished)
  rename_i hopen
  refine .complete (Bool.not_eq_true _ ▸ hopen) hparses fun hterminal => ?_
  rw [Bool.and_eq_true, decide_eq_true_eq] at hterminal
  exact ⟨hterminal.2, hterminal.1⟩

private theorem does_afterReason {result : Reasoned} :
    Does c t events (.waiting (.reasoned result)) (afterReason t result) := by
  have hreasoned : ∃ r, Pc.reasoned result = .reasoned r := ⟨result, rfl⟩
  cases result with
  | threw error => exact does_leaveThrow (Or.inr (Or.inl hreasoned))
  | failed error =>
    unfold afterReason
    simp only
    split
    · exact does_leaveStop (Or.inr (Or.inl hreasoned))
    · rename_i hopen
      exact .close (Or.inl ⟨Bool.not_eq_true _ ▸ hopen, error, rfl⟩)
  | ok terminal =>
    unfold afterReason
    simp only
    split
    · exact does_leaveStop (Or.inr (Or.inl hreasoned))
    rename_i hopen
    rw [Bool.or_eq_true, not_or, Bool.not_eq_true, Bool.not_eq_true] at hopen
    obtain ⟨hopen, rfl⟩ := hopen
    exact .goes (.act hopen)

private theorem does_decideStep (hactions : t.actionPromises = 0) :
    Does c t events (.waiting .acting) (decideStep c t) := by
  have hacting : Pc.acting = .memory ∨ (∃ result, Pc.acting = .reasoned result) ∨ Pc.acting = .acting ∨
      Pc.acting = .closed := by simp
  unfold decideStep
  split
  · exact does_leaveStop hacting
  rename_i hopen
  rw [Bool.not_eq_true] at hopen
  have hnext : Does c t events (.waiting .acting) (leave t .done .next) := .goes (.decided hopen hactions)
  split
  · exact .report hopen hactions
  split
  · exact .report hopen hactions
  split
  · split
    · exact .report hopen hactions
    · split
      · exact .report hopen hactions
      · exact hnext
  · exact hnext

variable {event : LedgerEventDraft}

private theorem does_afterError {after : AfterError} :
    Does c t events (.settled event ok (.errorAppended after)) (afterError t after) := by
  cases after with
  | correct => exact .correct
  | proceed => exact .goes .proceed
  | emptyReason =>
    unfold afterError
    simp only
    split
    · exact .close (Or.inr rfl)
    · exact .retry

private theorem does_flushDeferred {step : Nat} {deferred : List DeferredBody} :
    Does c t events (.settled event true (.flushed step deferred owner)) (flushDeferred c t step deferred owner) := by
  unfold flushDeferred
  split
  · rename_i hnone
    exact does_flushLoop rfl (decide_eq_true hnone)
  · exact .defer

private theorem does_processReply {link : Nat} :
    Does c t events (.waiting (.replyTurn link request)) (processReply c t events request) := by
  unfold processReply
  split
  · exact does_suppressReply rfl
  rename_i hopen
  rw [Bool.or_eq_true, not_or, Bool.not_eq_true, Bool.not_eq_true] at hopen
  split
  · unfold publishFinal
    split
    · split
      · exact .say rfl
      · exact does_afterReply rfl rfl
    · exact does_afterReply rfl rfl
  · exact .converse hopen.1

private theorem does_replyOutcome {canSave : Bool} {outcome : ReplyOutcome} :
    Does c t events (.waiting (.replyCall request canSave)) (replyOutcome c t request canSave outcome) := by
  unfold replyOutcome
  split
  · exact does_suppressReply rfl
  split
  · split
    · rename_i hterminal
      exact .replyFails hterminal
    · exact does_settleReply rfl
  · exact does_afterReply rfl rfl
  · exact .say rfl

private theorem does_replyFailed {failure : JsString} :
    Does c t events (.settled event ok (.replyError request failure)) (replyFailed c t request failure) := by
  unfold replyFailed
  split
  · exact does_settleReply rfl
  · exact does_finishTurn rfl rfl (Or.inr rfl)

variable {y : Segment} {answer : Answer}

private theorem does_afterFlush
    (h : afterFlush c t answer ok owner = some y) : Does c t events (.waiting (.flushEnd ok owner)) y := by
  unfold afterFlush at h
  split at h
  · cases h
    unfold requestReply
    split
    · exact .goes .reasonDone
    · exact .requestReply
  · cases h
    split
    · rename_i hfinished
      exact .goes (.failureStopped hfinished)
    · rename_i hopen
      exact .renew (Bool.not_eq_true _ ▸ hopen)
  · cases h
    split
    · exact does_halt rfl
    · rename_i hopen
      exact .closeThrown (Bool.not_eq_true _ ▸ hopen)
  · cases h
    exact .interruptFinish
  · cases h
    exact does_halt rfl
  · cases h
    exact does_halt rfl
  · cases h
    exact .acted
  · rename_i hthrown hinterrupt haction
    split at h <;> cases h
    cases owner with
    | completed terminal workerOutput => exact does_threw rfl
    | failure failure =>
      cases failure with
      | reason error => exact does_threw rfl
      | thrown error => exact absurd rfl (hthrown error)
    | interrupt => exact absurd rfl hinterrupt
    | action => exact absurd rfl haction

private theorem does_resumeWaiting (h : resumeWaiting c t events k answer = some y) :
    Does c t events (.waiting k) y := by
  unfold resumeWaiting at h
  split at h
  -- the step loop
  · cases h
    exact does_iterate rfl rfl
  · cases h
    exact does_halt rfl
  · cases h
    split
    · exact does_leaveStop (Or.inl rfl)
    · rename_i hopen
      exact .goes (.memory (Bool.not_eq_true _ ▸ hopen))
  · cases h
    exact does_leaveThrow (Or.inl rfl)
  · cases h
    exact .startStep
  · cases h
    exact does_threw rfl
  · cases h
    exact .goes .prepared
  · cases h
    exact .goes .prepareFailed
  · cases h
    exact does_threw rfl
  · cases h
    exact does_onToolCall
  · cases h
    exact does_reasonOutcome
  · split at h <;> cases h
    rename_i hparses
    exact does_completeReason hparses
  · cases h
    exact does_afterReason
  · split at h <;> cases h
    rename_i hactions
    exact does_decideStep hactions
  · split at h <;> cases h
    exact does_leaveStop (Or.inr (Or.inr (Or.inr rfl)))
  · split at h <;> cases h
    exact does_leaveThrow (Or.inr (Or.inr rfl))
  · cases h
    exact .goes .cancelled
  · split at h <;> cases h
    rename_i hparses
    exact .goes (.parsed hparses)
  · split at h <;> cases h
    rename_i hactions
    exact .drained hactions
  · split at h <;> cases h
    rename_i status exit hreplies
    unfold finishStep
    split
    · exact does_afterStep (Or.inl ⟨status, rfl⟩)
    · rename_i id hid
      exact .closeStep hreplies hid
  · split at h <;> cases h
    exact does_halt rfl
  -- flushes and replies
  · split at h <;> cases h
    rename_i hlink
    exact does_flushLoop rfl (decide_eq_true hlink)
  · exact does_afterFlush h
  · split at h <;> cases h
    exact does_processReply
  · cases h
    exact does_replyOutcome
  · cases h
    exact does_settleReply rfl
  · cases h
    unfold closeLastStep
    split
    · exact .lastTurn (Or.inl rfl)
    · rename_i id hid
      exact .lastStep hid
  -- interrupts, actions and steered messages
  · cases h
    unfold interruptTurn
    split
    · exact does_halt rfl
    · rename_i hopen
      exact .interrupt (Bool.not_eq_true _ ▸ hopen)
  · cases h
    exact .interruptFlush
  · cases h
    unfold enqueueResult
    simp only
    split
    · exact .finished rfl
    · rename_i hcompleted
      exact .queued rfl (Bool.not_eq_true _ ▸ hcompleted)
  · cases h
    unfold Turn.steer
    split
    · exact .halt rfl (by simp)
    · rename_i hopen
      rw [Bool.or_eq_true, Bool.or_eq_true, not_or, not_or, Bool.not_eq_true, Bool.not_eq_true,
        Bool.not_eq_true] at hopen
      exact .steer hopen.1.2 hopen.2
  · cases h

private theorem does_resumeAppended (h : resumeAppended c t events event k = some y) :
    Does c t events (.settled event true k) y := by
  unfold resumeAppended at h
  split at h <;> cases h
  · exact .stepStarted
  · exact .speak (Or.inr rfl)
  · exact .completed
  · exact does_afterError
  · exact does_afterStep (Or.inr rfl)
  · exact does_flushDeferred
  · exact does_settleReply rfl
  · exact does_replyFailed
  · exact does_afterReply rfl rfl
  · exact .lastTurn (Or.inr rfl)
  · unfold afterTurnFinished
    split
    · exact .attention
    · exact .settleReply rfl
  · exact .settleReply rfl
  · exact .abort
  · exact .interruptDone
  · exact .reported
  · exact .started
  · exact .steered

private theorem does_resumeFailed (h : resumeFailed c t error k = some y) :
    Does c t events (.settled event false k) y := by
  unfold resumeFailed at h
  split at h <;> cases h
  any_goals exact does_settleReply rfl
  any_goals exact does_threw rfl
  · exact does_afterError
  · exact does_replyFailed
  · exact .reported
  · exact does_afterStep (Or.inr rfl)
  · exact .settleFlush rfl
  · exact does_halt rfl
  · exact does_halt rfl
  · exact .notStarted
  · exact .halt rfl (by simp)

theorem does_of_resume {thread : Thread LedgerEventDraft Pc}
    (h : resume c t events thread answer = some y) : Does c t events thread.place y := by
  unfold resume at h
  split at h
  · exact does_resumeWaiting h
  · exact does_resumeAppended h
  · exact does_resumeFailed h
  · cases h

end Wrenyard.Turn
