import Mathlib.Data.List.Perm.Basic

/-!
# Assembling messages from a stream of items

Records are gathered into one text part, parts into one message, and a message is closed by an explicit item; other
messages are pushed whole.  Over arbitrary types of records, parts and messages: what is assembled before a closing
item is never touched again (`assemble_prefix`), and every record, part and message of the stream is in the result
exactly once (`perm_assemble`).
-/

namespace Assembly

open List

inductive Item (ρ π μ : Type) where
  | record (r : ρ)
  | part (p : π)
  | close
  | message (m : μ)

structure State (ρ π μ : Type) where
  messages : List μ
  parts : List π
  records : List ρ

variable {ρ π μ : Type} (text : List ρ → π) (user : List π → μ)

namespace State

def empty : State ρ π μ := ⟨[], [], []⟩

def flush (s : State ρ π μ) : State ρ π μ :=
  if s.records = [] then s else { s with parts := s.parts ++ [text s.records], records := [] }

def close (s : State ρ π μ) : State ρ π μ :=
  if (s.flush text).parts = [] then s.flush text else ⟨s.messages ++ [user (s.flush text).parts], [], []⟩

def step (s : State ρ π μ) : Item ρ π μ → State ρ π μ
  | .record r => { s with records := s.records ++ [r] }
  | .part p => { s.flush text with parts := (s.flush text).parts ++ [p] }
  | .close => s.close text user
  | .message m => { s with messages := s.messages ++ [m] }

def run (s : State ρ π μ) (items : List (Item ρ π μ)) : State ρ π μ := items.foldl (step text user) s

end State

def assemble (items : List (Item ρ π μ)) : List μ := ((State.empty.run text user items).close text user).messages

namespace State

variable {text user} (s : State ρ π μ)

theorem flush_messages : (s.flush text).messages = s.messages := by
  unfold flush
  split <;> rfl

theorem flush_records : (s.flush text).records = [] := by
  unfold flush
  split
  · assumption
  · rfl

theorem close_parts : (s.close text user).parts = [] := by
  unfold close
  split
  · assumption
  · rfl

theorem close_records : (s.close text user).records = [] := by
  unfold close
  split
  · exact flush_records s
  · rfl

theorem close_of_empty {s : State ρ π μ} (hp : s.parts = []) (hr : s.records = []) : s.close text user = s := by
  have hf : s.flush text = s := if_pos hr
  rw [close, hf, if_pos hp]

@[simp] theorem run_nil : s.run text user [] = s := rfl

@[simp] theorem run_cons (i : Item ρ π μ) (items : List (Item ρ π μ)) :
    s.run text user (i :: items) = (s.step text user i).run text user items := rfl

theorem run_append (xs ys : List (Item ρ π μ)) :
    s.run text user (xs ++ ys) = (s.run text user xs).run text user ys := List.foldl_append ..

theorem messages_prefix_close : s.messages <+: (s.close text user).messages := by
  unfold close
  split
  · rewrite [flush_messages]
    exact prefix_refl _
  · exact prefix_append _ _

theorem messages_prefix_run (items : List (Item ρ π μ)) :
    s.messages <+: (s.run text user items).messages := by
  induction items generalizing s with
  | nil => exact prefix_refl _
  | cons i items ih =>
    have hstep : s.messages <+: (s.step text user i).messages := by
      cases i with
      | record r => exact prefix_refl _
      | part p => exact (flush_messages s).symm ▸ prefix_refl _
      | close => exact messages_prefix_close s
      | message m => exact prefix_append _ _
    exact hstep.trans (ih _)

end State

open State

/-- What is assembled up to a closing item is a prefix of what is assembled from any longer stream. -/
theorem assemble_prefix (xs ys : List (Item ρ π μ)) :
    assemble text user (xs ++ [.close]) <+: assemble text user (xs ++ [.close] ++ ys) := by
  have hrun : State.empty.run text user (xs ++ [.close]) = (State.empty.run text user xs).close text user := by
    rw [run_append]
    rfl
  have hclosed : assemble text user (xs ++ [.close]) = ((State.empty.run text user xs).close text user).messages := by
    rw [assemble, hrun, close_of_empty (close_parts _) (close_records _)]
  rw [hclosed, assemble, run_append _ _ ys, hrun]
  exact (messages_prefix_run _ ys).trans (messages_prefix_close _)

section

variable {text user} {σ : Type} {ofMessage : μ → List σ} {ofPart : π → List σ} {ofRecord : ρ → List σ}

def Item.content (ofMessage : μ → List σ) (ofPart : π → List σ) (ofRecord : ρ → List σ) : Item ρ π μ → List σ
  | .record r => ofRecord r
  | .part p => ofPart p
  | .close => []
  | .message m => ofMessage m

def State.content (ofMessage : μ → List σ) (ofPart : π → List σ) (ofRecord : ρ → List σ) (s : State ρ π μ) : List σ :=
  s.messages.flatMap ofMessage ++ s.parts.flatMap ofPart ++ s.records.flatMap ofRecord

variable (hpart : ∀ rs, ofPart (text rs) = rs.flatMap ofRecord) (hmessage : ∀ ps, ofMessage (user ps) =
  ps.flatMap ofPart)

include hpart in
private theorem content_flush (s : State ρ π μ) :
    (s.flush text).content ofMessage ofPart ofRecord = s.content ofMessage ofPart ofRecord := by
  unfold flush
  split
  · rfl
  · simp [State.content, hpart]

include hpart hmessage in
private theorem content_close (s : State ρ π μ) :
    (s.close text user).content ofMessage ofPart ofRecord = s.content ofMessage ofPart ofRecord := by
  have hflush : (s.flush text).content ofMessage ofPart ofRecord = s.content ofMessage ofPart ofRecord :=
    content_flush hpart s
  unfold close
  split
  · exact hflush
  · rw [← hflush]
    simp [State.content, hmessage, flush_messages, flush_records]

include hpart hmessage in
private theorem content_step (s : State ρ π μ) (i : Item ρ π μ) :
    ((s.step text user i).content ofMessage ofPart ofRecord).Perm
      (s.content ofMessage ofPart ofRecord ++ i.content ofMessage ofPart ofRecord) := by
  cases i with
  | record r => exact .of_eq (by simp [step, State.content, Item.content])
  | part p =>
    have hflush : (s.flush text).content ofMessage ofPart ofRecord = s.content ofMessage ofPart ofRecord :=
      content_flush hpart s
    rw [← hflush]
    exact .of_eq (by simp [step, State.content, Item.content, flush_records])
  | close => exact .of_eq ((content_close hpart hmessage s).trans (append_nil _).symm)
  | message m =>
    -- the message goes before what is open
    simp only [step, State.content, Item.content, flatMap_append, flatMap_singleton, append_assoc]
    refine List.Perm.append_left _ ?_
    rw [← append_assoc (s.parts.flatMap ofPart)]
    exact perm_append_comm

include hpart hmessage in
theorem perm_assemble (items : List (Item ρ π μ)) :
    ((assemble text user items).flatMap ofMessage).Perm (items.flatMap (Item.content ofMessage ofPart ofRecord)) := by
  have hrun : ∀ (items : List (Item ρ π μ)) (s : State ρ π μ),
      ((s.run text user items).content ofMessage ofPart ofRecord).Perm
        (s.content ofMessage ofPart ofRecord ++ items.flatMap (Item.content ofMessage ofPart ofRecord)) := by
    intro items
    induction items with
    | nil => exact fun s => .of_eq (by simp)
    | cons i items ih =>
      intro s
      rw [run_cons, flatMap_cons, ← append_assoc]
      exact (ih _).trans ((content_step hpart hmessage s i).append_right _)
  have hend : (assemble text user items).flatMap ofMessage =
      (State.empty.run text user items).content ofMessage ofPart ofRecord := by
    rw [← content_close hpart hmessage]
    simp [assemble, State.content, close_parts, close_records]
  rw [hend]
  exact (hrun items .empty).trans (.of_eq (by simp [State.content, State.empty]))

end

end Assembly
