import Mathlib.Algebra.Order.BigOperators.Group.List
import Mathlib.Data.List.SplitBy
import Wrenyard.Calls.Budget
import Wrenyard.Js.Double
import Wrenyard.Session.Prompt

/-!
# What a budget counts and what is sent

The budget of a call estimates its messages by their roles and contents.  The adapters of the three protocols send the
names and the arguments of earlier tool calls as well, and some join contents or put other texts in their place
(`addedTexts`, `count_sentTexts`).  Whatever the tokenizer and the model, the window holds what is sent and the output
cap exactly if every added text is the name of a role or one of the contents that it replaces (`budget_covers_iff`).
-/

namespace Wrenyard.Calls

open Js Session

inductive SessionProtocol where
  | openaiChat | openaiResponses | anthropicMessages

/-- `string | ModelContentPart[]` -/
inductive Content where
  | plain (text : JsString)
  | parts (parts : List ModelContentPart)

inductive Role where
  | system | user | assistant | tool
deriving DecidableEq

def Role.text : Role → JsString
  | .system => js "system"
  | .user => js "user"
  | .assistant => js "assistant"
  | .tool => js "tool"

/-- A message of a request; `toolCalls` is empty where the source has none. -/
structure RequestMessage where
  role : Role
  content : Content
  toolCalls : List Session.ToolCall

def partText : ModelContentPart → Option JsString
  | .text text => some text
  | .imageUrl _ => none

def contentParts : Content → List ModelContentPart
  | .plain text => [.text text]
  | .parts parts => parts

def Content.texts (content : Content) : List JsString := (contentParts content).filterMap partText

def IMAGE_INPUT_TOKEN_ESTIMATE : Nat := 1200

section

variable (encodeLength : JsString → Nat)

def estimatePart : ModelContentPart → Nat
  | .text text => estimateTokens encodeLength text
  | .imageUrl _ => IMAGE_INPUT_TOKEN_ESTIMATE

def estimateContentTokens (content : Content) : Nat := ((contentParts content).map (estimatePart encodeLength)).sum

def estimateInputTokens (messages : List RequestMessage) : Nat :=
  (messages.map fun m => estimateTokens encodeLength m.role.text + estimateContentTokens encodeLength m.content).sum

end

def joinContent : Content → Content → Content
  | .plain a, .plain b => .plain (a ++ b)
  | a, b => .parts (contentParts a ++ contentParts b)

/-- One turn of the loop of `mergeConsecutiveMessages`. -/
def mergeMessage (merged : List RequestMessage) (message : RequestMessage) : List RequestMessage :=
  match merged.getLast? with
  | none => [message]
  | some last =>
    if message.role = .user ∧ last.role = .user then
      merged.dropLast ++ [{ last with content := joinContent last.content message.content }]
    else merged ++ [message]

def mergeConsecutiveMessages (messages : List RequestMessage) : List RequestMessage := messages.foldl mergeMessage []

def callTexts (call : Session.ToolCall) : List JsString := [call.name, call.arguments]

def chatMessage (m : RequestMessage) : List JsString :=
  m.content.texts ++ if m.role = .assistant then m.toolCalls.flatMap callTexts else []

def plainOf (content : Content) : JsString := content.texts.flatten

/-- `/^data:([^;,]+);base64,(.*)$/su` -/
def isBase64Url (url : JsString) : Bool :=
  let rest := url.drop 5
  let mime := rest.takeWhile fun u => u ≠ 59 ∧ u ≠ 44
  startsWith url (js "data:") && !mime.isEmpty && startsWith (rest.drop mime.length) (js ";base64,")

def imageBlock (url : JsString) : List JsString := if isBase64Url url then [] else [js "[image: unsupported source]"]

def contentBlock : ModelContentPart → List JsString
  | .text text => [text]
  | .imageUrl url => imageBlock url

def parseInput (arguments : JsString) : Json :=
  if arguments = [] then .obj [] else (JSON.parse arguments).getD (.obj [])

def messageEntry (m : RequestMessage) : List JsString :=
  match m.role with
  | .assistant =>
    (if plainOf m.content = [] then [] else [plainOf m.content]) ++
      m.toolCalls.flatMap fun call => [call.name, JSON.stringify (parseInput call.arguments)]
  | .tool => [plainOf m.content]
  | _ => (contentParts m.content).flatMap contentBlock

def messagesBody (messages : List RequestMessage) : List JsString :=
  let systemText := (messages.filter (·.role = .system)).map fun m => plainOf m.content
  (if systemText = [] then [] else [[lf, lf].intercalate systemText]) ++
    (messages.filter (·.role ≠ .system)).flatMap messageEntry

/-- The text of a message without images; an image throws. -/
def plainText (content : Content) : Option JsString := ((contentParts content).mapM partText).map List.flatten

def inputItems (m : RequestMessage) : Option (List JsString) :=
  match m.role with
  | .assistant =>
    (plainText m.content).map fun text => (if text = [] then [] else [text]) ++ m.toolCalls.flatMap callTexts
  | .tool => (plainText m.content).map fun text => [text]
  | _ => some m.content.texts

def responsesBody (messages : List RequestMessage) : Option (List JsString) :=
  let systems := messages.filter (·.role = .system)
  let rest := messages.filter (·.role ≠ .system)
  if 1 < systems.length ∨ ¬ rest.any (·.role = .user) then none
  else do
    let input ← rest.mapM inputItems
    let instructions ← systems.mapM fun m => plainText m.content
    return input.flatten ++ instructions

variable (messages : List RequestMessage)

/-- The texts of the messages in the request; `none` when the adapter refuses them. -/
def sentTexts : SessionProtocol → Option (List JsString)
  | .openaiChat => some ((mergeConsecutiveMessages messages).flatMap chatMessage)
  | .openaiResponses => responsesBody messages
  | .anthropicMessages => some (messagesBody messages)

def sentTokens (encodeLength : JsString → Nat) (texts : List JsString) : Nat :=
  (texts.map (estimateTokens encodeLength)).sum

def BudgetCovers (encodeLength : JsString → Nat) (messages : List RequestMessage) (texts : List JsString) : Prop :=
  ∀ publicId models requested window cap,
    (resolveModelMetadata publicId models).contextWindow = some window →
    (checkContextBudget publicId (estimateInputTokens encodeLength messages) models requested).reason = none →
    (checkContextBudget publicId
      (estimateInputTokens encodeLength messages) models requested).requestMaxOutputTokens =
      some cap →
    sentTokens encodeLength texts + cap ≤ window

/-- A refusal returns no cap. -/
theorem room_of_cap {publicId : JsString} {models : List GatewayModel} {requested : Option Nat}
    {input window cap : Nat} (hw : (resolveModelMetadata publicId models).contextWindow = some window)
    (hcap : (checkContextBudget publicId input models requested).requestMaxOutputTokens = some cap) :
    input + cap ≤ window := by
  unfold checkContextBudget at hcap
  simp only [hw] at hcap
  split at hcap
  · cases hcap
  split at hcap
  · cases hcap
  split at hcap
  · cases hcap
  · have hroom := Option.some.inj hcap
    omega

theorem sent_le_of_covers {encodeLength : JsString → Nat} {messages : List RequestMessage} {texts : List JsString}
    (h : BudgetCovers encodeLength messages texts) :
    sentTokens encodeLength texts ≤ estimateInputTokens encodeLength messages := by
  -- a window that leaves room for one token of output
  have hfit := h [] [⟨[], some (estimateInputTokens encodeLength messages + 1), none, some 1, none, none⟩] none
    (estimateInputTokens encodeLength messages + 1) 1 rfl
  have hbudget : checkContextBudget [] (estimateInputTokens encodeLength messages)
      [⟨[], some (estimateInputTokens encodeLength messages + 1), none, some 1, none, none⟩] none =
      ⟨⟨some (estimateInputTokens encodeLength messages + 1), none, some 1, none⟩,
        estimateInputTokens encodeLength messages, some 1, none⟩ := by
    simp [checkContextBudget, resolveModelMetadata, boundedOutputReservation, CONTEXT_OUTPUT_RESERVATION_CAP]
  rw [hbudget] at hfit
  have := hfit rfl rfl
  omega

/-! ### What an adapter adds -/

def bothUser (last message : RequestMessage) : Bool := decide (message.role = .user ∧ last.role = .user)

/-- Neighbouring user messages stand in one run. -/
def userRuns (messages : List RequestMessage) : List (List RequestMessage) := messages.splitBy bothUser

/-- The plain contents at the front. -/
def leadingTexts : List RequestMessage → List JsString
  | ⟨_, .plain text, _⟩ :: rest => text :: leadingTexts rest
  | _ => []

/-- The texts of the tool calls that an assistant message replays. -/
def replayed (m : RequestMessage) : List JsString := if m.role = .assistant then m.toolCalls.flatMap callTexts else []

/-- What stands for the content of one message in a body of the Messages protocol, and its tool calls. -/
def rewrittenEntry (m : RequestMessage) : List JsString :=
  match m.role with
  | .assistant =>
    [plainOf m.content] ++ m.toolCalls.flatMap fun call => [call.name, JSON.stringify (parseInput call.arguments)]
  | .tool => [plainOf m.content]
  | .user => (contentParts m.content).flatMap fun part => if partText part = none then contentBlock part else []
  | .system => []

/-- The texts in a request that are not the contents of single messages. -/
def addedTexts : SessionProtocol → List JsString
  | .openaiChat => (userRuns messages).map (fun run => (leadingTexts run).flatten) ++ messages.flatMap replayed
  | .openaiResponses => messages.flatMap fun m => if m.role = .user then [] else [plainOf m.content] ++ replayed m
  | .anthropicMessages =>
    [[lf, lf].intercalate ((messages.filter (·.role = .system)).map fun m => plainOf m.content)] ++
      messages.flatMap rewrittenEntry

/-- The contents that are joined or flattened to added texts. -/
def replacedTexts : SessionProtocol → List JsString
  | .openaiChat => (userRuns messages).flatMap leadingTexts
  | .openaiResponses | .anthropicMessages => messages.flatMap fun m => if m.role = .user then [] else m.content.texts

/-- The adapter does not refuse the messages. -/
def Accepted : SessionProtocol → Prop
  | .openaiResponses => (messages.filter (·.role = .system)).length ≤ 1 ∧ (∃ m ∈ messages, m.role = .user) ∧
      ∀ m ∈ messages, m.role ≠ .user → ∀ part ∈ contentParts m.content, partText part ≠ none
  | _ => True

/-! #### The count of each text -/

open List

private theorem sum_map_le_of_count {f : JsString → Nat} (hf : f [] = 0) {xs ys : List JsString}
    (h : ∀ text ≠ [], xs.count text ≤ ys.count text) : (xs.map f).sum ≤ (ys.map f).sum := by
  have hfilter : (xs.map f).sum = ((xs.filter (· ≠ [])).map f).sum := by
    clear h
    induction xs with
    | nil => rfl
    | cons text xs ih => by_cases hnil : text = [] <;> simp [hnil, hf, ih]
  have hsubperm : xs.filter (· ≠ []) <+~ ys := subperm_ext_iff.mpr fun text hmem => by
    have hne : text ≠ [] := by simpa using (mem_filter.mp hmem).2
    rw [count_filter (by simpa using hne)]
    exact h text hne
  obtain ⟨zs, hperm, hsub⟩ := hsubperm
  rw [hfilter, ← (hperm.map f).sum_eq]
  exact (hsub.map f).sum_le_sum fun _ _ => Nat.zero_le _

def imageCount (messages : List RequestMessage) : Nat :=
  (messages.flatMap fun m => contentParts m.content).countP fun part => partText part = none

variable {encodeLength : JsString → Nat} {messages} {texts : List JsString} {text : JsString}

variable (parts : List ModelContentPart)

private theorem sum_estimatePart : (parts.map (estimatePart encodeLength)).sum =
    ((parts.filterMap partText).map (estimateTokens encodeLength)).sum +
      parts.countP (fun part => partText part = none) * IMAGE_INPUT_TOKEN_ESTIMATE := by
  induction parts with
  | nil => rfl
  | cons part parts ih =>
    rw [map_cons, sum_cons, ih]
    cases part with
    | text text => simp [estimatePart, partText, Nat.add_assoc]
    | imageUrl url =>
      have himage : partText (.imageUrl url) = none := rfl
      rw [filterMap_cons_none himage, countP_cons_of_pos (by simp [himage]), estimatePart, Nat.succ_mul]
      omega

theorem estimateInputTokens_eq : estimateInputTokens encodeLength messages =
    ((messages.map (·.role.text) ++ messages.flatMap (·.content.texts)).map (estimateTokens encodeLength)).sum +
      imageCount messages * IMAGE_INPUT_TOKEN_ESTIMATE := by
  induction messages with
  | nil => rfl
  | cons m messages ih =>
    have hcons : estimateInputTokens encodeLength (m :: messages) = estimateTokens encodeLength m.role.text +
        estimateContentTokens encodeLength m.content + estimateInputTokens encodeLength messages := rfl
    rw [hcons, ih, estimateContentTokens, sum_estimatePart, imageCount, imageCount]
    simp only [Content.texts, map_cons, flatMap_cons, cons_append, map_append, sum_cons, sum_append, countP_append,
      Nat.add_mul]
    omega

theorem covers_of_sent_le (h : sentTokens encodeLength texts ≤ estimateInputTokens encodeLength messages) :
    BudgetCovers encodeLength messages texts := by
  intro publicId models requested window cap hw _ hcap
  have hroom := room_of_cap hw hcap
  omega

/-- The budget covers some texts whatever the tokenizer exactly if the roles and the contents have each of them as
often. -/
theorem covers_all_iff : (∀ encodeLength, BudgetCovers encodeLength messages texts) ↔
    ∀ text ≠ [], texts.count text ≤ (messages.map (·.role.text) ++
      messages.flatMap (·.content.texts)).count text := by
  constructor
  · intro h text hne
    -- a tokenizer that counts this text only, and so high that no image makes up for it
    have hsent := sent_le_of_covers (h fun t => if t = text
        then imageCount messages * IMAGE_INPUT_TOKEN_ESTIMATE + 1 else 0)
    rw [estimateInputTokens_eq, sentTokens] at hsent
    have hsum : ∀ (n : Nat) (ts : List JsString),
        (ts.map (estimateTokens fun t => if t = text then n else 0)).sum = ts.count text * n := by
      intro n ts
      induction ts with
      | nil => simp
      | cons t ts ih =>
        rw [map_cons, sum_cons, ih, count_cons, Nat.add_mul, Nat.add_comm, estimateTokens]
        by_cases ht : t = text
        · rw [if_neg (ht ▸ hne), if_pos ht, if_pos (beq_iff_eq.mpr ht), Nat.one_mul]
        · rw [if_neg ht, ite_self, if_neg (by simpa using ht), Nat.zero_mul]
    rw [hsum, hsum] at hsent
    by_contra hlt
    have := Nat.mul_le_mul_right (imageCount messages * IMAGE_INPUT_TOKEN_ESTIMATE + 1) (Nat.lt_of_not_le hlt)
    rw [Nat.succ_mul] at this
    omega
  · intro h encodeLength
    apply covers_of_sent_le
    rw [estimateInputTokens_eq]
    exact (sum_map_le_of_count (by simp [estimateTokens]) h).trans (Nat.le_add_right _ _)

private theorem count_unless_nil (hne : text ≠ []) (s : JsString) :
    (if s = [] then [] else [s]).count text = [s].count text := by
  split
  · rename_i hnil
    rw [hnil, count_nil, count_singleton, if_neg (by simpa using Ne.symm hne)]
  · rfl

/-! #### The Messages protocol -/

private theorem count_contentBlock : (parts.flatMap contentBlock).count text =
    (parts.filterMap partText).count text +
      (parts.flatMap fun part => if partText part = none then contentBlock part else []).count text := by
  induction parts with
  | nil => rfl
  | cons part parts ih =>
    cases part with
    | text s =>
      have htext : partText (.text s) = some s := rfl
      rw [flatMap_cons, count_append, ih, filterMap_cons_some htext, flatMap_cons, htext,
        if_neg (by simp), nil_append,
        contentBlock, count_cons, count_cons, count_nil]
      omega
    | imageUrl url =>
      have himage : partText (.imageUrl url) = none := rfl
      rw [flatMap_cons, count_append, ih, filterMap_cons_none himage, flatMap_cons, if_pos himage, count_append]
      omega

private theorem count_messageEntry (hne : text ≠ []) {m : RequestMessage} (hsystem : m.role ≠ .system) :
    (messageEntry m).count text + (if m.role = .user then [] else m.content.texts).count text =
      m.content.texts.count text + (rewrittenEntry m).count text := by
  cases hrole : m.role with
  | system => exact absurd hrole hsystem
  | user =>
    simp only [messageEntry, rewrittenEntry, hrole, ↓reduceIte, count_nil]
    exact count_contentBlock _
  | assistant =>
    simp only [messageEntry, rewrittenEntry, hrole, reduceCtorEq, ↓reduceIte, count_append, count_unless_nil hne]
    omega
  | tool =>
    simp only [messageEntry, rewrittenEntry, hrole, reduceCtorEq, ↓reduceIte]
    omega

private theorem count_messagesBody (hne : text ≠ []) :
    (messagesBody messages).count text + (replacedTexts messages .anthropicMessages).count text =
      (messages.flatMap (·.content.texts)).count text + (addedTexts messages .anthropicMessages).count text := by
  have hsystem : ∀ systems : List JsString, (if systems = [] then [] else [[lf, lf].intercalate systems]).count text =
      [[lf, lf].intercalate systems].count text := by
    rintro (_ | ⟨s, systems⟩)
    · exact count_unless_nil hne []
    · rfl
  have hrest : ((messages.filter (·.role ≠ .system)).flatMap messageEntry).count text +
      (messages.flatMap fun m => if m.role = .user then [] else m.content.texts).count text =
      (messages.flatMap (·.content.texts)).count text + (messages.flatMap rewrittenEntry).count text := by
    induction messages with
    | nil => rfl
    | cons m messages ih =>
      simp only [flatMap_cons, count_append]
      by_cases hrole : m.role = .system
      · rw [filter_cons_of_neg (by simpa using hrole)]
        simp only [rewrittenEntry, hrole, reduceCtorEq, ↓reduceIte, count_nil]
        omega
      · rw [filter_cons_of_pos (by simpa using hrole), flatMap_cons, count_append]
        have := count_messageEntry hne hrole
        omega
  rw [messagesBody, replacedTexts, addedTexts, count_append, hsystem, count_append]
  omega

/-! #### The Responses protocol -/

private theorem mapM_partText :
    parts.mapM partText = if ∀ part ∈ parts, partText part ≠ none then some (parts.filterMap partText) else none := by
  induction parts with
  | nil => rfl
  | cons part parts ih =>
    rw [mapM_cons, ih]
    cases part with
    | text s => split <;> simp_all [partText]
    | imageUrl url => simp [partText]

variable (content : Content)

private theorem plainText_eq :
    plainText content = if ∀ part ∈ contentParts content, partText part ≠ none then some (plainOf content)
    else none := by
  rw [plainText, mapM_partText, plainOf, Content.texts]
  split <;> rfl

private theorem plainText_eq_some {content : Content} {s : JsString} (h : plainText content = some s) :
    plainOf content = s := by
  rw [plainText_eq] at h
  split at h <;> cases h
  rfl

private theorem replayed_of_ne {m : RequestMessage} (h : m.role ≠ .assistant) : replayed m = [] := if_neg h

private theorem count_inputItems (hne : text ≠ []) {m : RequestMessage} (hsystem : m.role ≠ .system)
    (h : inputItems m = some texts) :
    texts.count text + (if m.role = .user then [] else m.content.texts).count text =
      m.content.texts.count text + (if m.role = .user then [] else [plainOf m.content] ++ replayed m).count text := by
  cases hrole : m.role with
  | system => exact absurd hrole hsystem
  | user =>
    simp only [inputItems, hrole, Option.some.injEq] at h
    simp only [← h, ↓reduceIte]
  | assistant =>
    simp only [inputItems, hrole, Option.map_eq_some_iff] at h
    obtain ⟨s, hs, rfl⟩ := h
    rw [plainText_eq_some hs, replayed, if_pos hrole]
    simp only [reduceCtorEq, ↓reduceIte, count_append, count_unless_nil hne]
    omega
  | tool =>
    simp only [inputItems, hrole, Option.map_eq_some_iff] at h
    obtain ⟨s, hs, rfl⟩ := h
    rw [plainText_eq_some hs, replayed_of_ne (by simp [hrole]), append_nil]
    simp only [reduceCtorEq, ↓reduceIte]
    omega

private theorem count_responsesBody (hne : text ≠ []) (h : responsesBody messages = some texts) :
    texts.count text + (replacedTexts messages .openaiResponses).count text =
      (messages.flatMap (·.content.texts)).count text + (addedTexts messages .openaiResponses).count text := by
  rw [responsesBody] at h
  split at h
  · cases h
  simp only [Option.bind_eq_bind, Option.bind_eq_some_iff, Option.pure_def, Option.some.injEq] at h
  obtain ⟨input, hinput, instructions, hinstructions, rfl⟩ := h
  rw [replacedTexts, addedTexts, count_append]
  clear * - hinput hinstructions hne
  induction messages generalizing input instructions with
  | nil => cases hinput; cases hinstructions; rfl
  | cons m messages ih =>
    simp only [flatMap_cons, count_append]
    by_cases hrole : m.role = .system
    · rw [filter_cons_of_neg (by simpa using hrole)] at hinput
      rw [filter_cons_of_pos (by simpa using hrole), mapM_cons] at hinstructions
      simp only [Option.bind_eq_bind, Option.bind_eq_some_iff, Option.pure_def, Option.some.injEq] at hinstructions
      obtain ⟨s, hs, rest, hrest, rfl⟩ := hinstructions
      have := ih input hinput rest hrest
      rw [plainText_eq_some hs, replayed_of_ne (by simp [hrole]), hrole, append_nil, ← singleton_append, count_append]
      simp only [reduceCtorEq, ↓reduceIte]
      omega
    · rw [filter_cons_of_neg (by simpa using hrole)] at hinstructions
      rw [filter_cons_of_pos (by simpa using hrole), mapM_cons] at hinput
      simp only [Option.bind_eq_bind, Option.bind_eq_some_iff, Option.pure_def, Option.some.injEq] at hinput
      obtain ⟨items, hitems, rest, hrest, rfl⟩ := hinput
      have := ih rest hrest instructions hinstructions
      have := count_inputItems hne hrole hitems
      rw [flatten_cons, count_append]
      omega

/-! #### The Chat protocol -/

section Runs

variable {α : Type} {r : α → α → Bool} {a b : α} {l g : List α} {gs : List (List α)}

private theorem splitBy_cons_of_rel (hr : r a b = true) (h : (b :: l).splitBy r = (b :: g) :: gs) :
    (a :: b :: l).splitBy r = (a :: b :: g) :: gs := by
  obtain ⟨hflat, hnil, hchain, hends⟩ := splitBy_eq_iff.mp h
  refine splitBy_eq_iff.mpr ⟨by rw [hflat]; rfl, by simpa using hnil, ?_, ?_⟩
  · intro run hrun
    rcases mem_cons.mp hrun with rfl | hrun
    · exact .cons_cons hr (hchain _ (mem_cons_self ..))
    · exact hchain run (mem_cons_of_mem _ hrun)
  · cases gs with
    | nil => exact .singleton _
    | cons g' gs =>
      rw [isChain_cons_cons] at hends ⊢
      refine ⟨?_, hends.2⟩
      obtain ⟨_, hb, hfalse⟩ := hends.1
      exact ⟨cons_ne_nil _ _, hb, by rwa [getLast_cons (cons_ne_nil b g)]⟩

private theorem splitBy_cons_of_not_rel (hr : r a b = false) : (a :: b :: l).splitBy r = [a] :: (b :: l).splitBy r :=
  splitBy_append_cons (l := [a]) l (by simpa using hr)

-- the first element only matters through its relation to the next one
private theorem splitBy_cons (a : α) (l : List α) :
    ∃ g gs, ∀ a', (∀ b, r a' b = r a b) → (a' :: l).splitBy r = (a' :: g) :: gs := by
  induction l generalizing a with
  | nil => exact ⟨[], [], fun _ _ => rfl⟩
  | cons b l ih =>
    obtain ⟨g, gs, hb⟩ := ih b
    cases hr : r a b with
    | true => exact ⟨b :: g, gs, fun a' ha' => splitBy_cons_of_rel (by rw [ha', hr]) (hb b fun _ => rfl)⟩
    | false =>
      exact ⟨[], (b :: g) :: gs, fun a' ha' => by rw [splitBy_cons_of_not_rel (by rw [ha', hr]), hb b fun _ => rfl]⟩

end Runs

/-- The message that a run becomes. -/
def joinRun : List RequestMessage → List RequestMessage
  | [] => []
  | m :: rest => [{ m with content := rest.foldl (fun content n => joinContent content n.content) m.content }]

private theorem foldl_mergeMessage (ms acc : List RequestMessage) (last : RequestMessage) :
    ms.foldl mergeMessage (acc ++ [last]) = acc ++ (userRuns (last :: ms)).flatMap joinRun := by
  induction ms generalizing acc last with
  | nil => rfl
  | cons m ms ih =>
    rw [foldl_cons, mergeMessage, getLast?_concat]
    dsimp only
    by_cases hjoin : m.role = .user ∧ last.role = .user
    · rw [if_pos hjoin, dropLast_concat, ih]
      obtain ⟨g, gs, hg⟩ := splitBy_cons (r := bothUser) m ms
      have hm := hg m fun _ => rfl
      have hjoined := hg { last with content := joinContent last.content m.content }
          fun b => by simp [bothUser, hjoin]
      rw [userRuns, userRuns, hjoined, splitBy_cons_of_rel (by simpa [bothUser] using hjoin) hm]
      rfl
    · rw [if_neg hjoin, ih, userRuns, userRuns, splitBy_cons_of_not_rel (by simpa [bothUser] using hjoin),
        flatMap_cons, append_assoc]
      rfl

theorem mergeConsecutiveMessages_eq : mergeConsecutiveMessages messages = (userRuns messages).flatMap joinRun := by
  cases messages with
  | nil => rfl
  | cons m ms => exact foldl_mergeMessage ms [] m

variable {role : Role} {calls : List Session.ToolCall} {rest : List RequestMessage}

private theorem leadingTexts_plain (s : JsString) :
    leadingTexts (⟨role, .plain s, calls⟩ :: rest) = s :: leadingTexts rest := rfl

private theorem leadingTexts_parts :
    leadingTexts (⟨role, .parts parts, calls⟩ :: rest) = [] := rfl

private theorem texts_plain (s : JsString) : (Content.plain s).texts = [s] := rfl

private theorem texts_foldl_parts (rest : List RequestMessage) :
    (rest.foldl (fun content n => joinContent content n.content) (.parts parts)).texts =
      parts.filterMap partText ++ rest.flatMap (·.content.texts) := by
  induction rest generalizing parts with
  | nil => exact (append_nil _).symm
  | cons n rest ih =>
    have hjoin : joinContent (.parts parts) n.content = .parts (parts ++ contentParts n.content) := rfl
    rw [foldl_cons, hjoin, ih, filterMap_append, flatMap_cons, append_assoc]
    rfl

private theorem count_foldl_plain (s : JsString) (rest : List RequestMessage) :
    (rest.foldl (fun content n => joinContent content n.content) (.plain s)).texts.count text +
      (leadingTexts rest).count text =
    (rest.flatMap (·.content.texts)).count text + [s ++ (leadingTexts rest).flatten].count text := by
  induction rest generalizing s with
  | nil => simp [leadingTexts, Content.texts, contentParts, partText]
  | cons n rest ih =>
    obtain ⟨role, content, calls⟩ := n
    cases content with
    | plain s' =>
      have hjoin : joinContent (.plain s) (.plain s') = .plain (s ++ s') := rfl
      have := ih (s ++ s')
      rw [foldl_cons, hjoin, flatMap_cons, leadingTexts_plain, texts_plain, flatten_cons, ← append_assoc,
        count_append,
        count_cons, count_cons, count_nil]
      omega
    | parts parts =>
      have hjoin : joinContent (.plain s) (.parts parts) = .parts (.text s :: parts) := rfl
      have htext : partText (.text s) = some s := rfl
      rw [foldl_cons, hjoin, texts_foldl_parts, flatMap_cons, leadingTexts_parts, filterMap_cons_some htext,
        flatten_nil,
        append_nil, cons_append, count_cons, count_cons, count_nil]
      exact (Nat.zero_add _).symm ▸ rfl

private theorem role_of_isChain {m : RequestMessage} {rest : List RequestMessage}
    (hchain : (m :: rest).IsChain fun last message => bothUser last message) : ∀ n ∈ rest, n.role = .user := by
  induction rest generalizing m with
  | nil => exact nofun
  | cons n rest ih =>
    rw [isChain_cons_cons] at hchain
    intro k hk
    rcases mem_cons.mp hk with rfl | hk
    · exact (of_decide_eq_true hchain.1).1
    · exact ih hchain.2 k hk

private theorem count_joinRun (hne : text ≠ []) {run : List RequestMessage}
    (hchain : run.IsChain fun last message => bothUser last message) :
    ((joinRun run).flatMap chatMessage).count text + (leadingTexts run).count text =
      (run.flatMap (·.content.texts)).count text +
        ([(leadingTexts run).flatten].count text + (run.flatMap replayed).count text) := by
  have hnil : count text [([] : JsString)] = 0 := by
    rw [count_singleton, if_neg (by simpa using Ne.symm hne)]
  cases run with
  | nil => exact hnil.symm ▸ rfl
  | cons m rest =>
    have hrest : rest.flatMap replayed = [] := by
      refine flatMap_eq_nil_iff.mpr fun n hn => replayed_of_ne ?_
      rw [role_of_isChain hchain n hn]
      decide
    obtain ⟨role, content, calls⟩ := m
    have hchat : (joinRun (⟨role, content, calls⟩ :: rest)).flatMap chatMessage =
        (rest.foldl (fun content n => joinContent content n.content) content).texts ++
          replayed ⟨role, content, calls⟩ :=
      append_nil _
    rw [hchat, flatMap_cons, flatMap_cons, hrest, append_nil, count_append, count_append]
    cases content with
    | plain s =>
      have := @count_foldl_plain text s rest
      rw [leadingTexts_plain, texts_plain, flatten_cons, count_cons, count_cons, count_nil]
      omega
    | parts parts =>
      have htexts : (Content.parts parts).texts = parts.filterMap partText := rfl
      rw [texts_foldl_parts, leadingTexts_parts, htexts, flatten_nil, hnil, count_append, count_nil]
      omega

private theorem count_chatBody (hne : text ≠ []) :
    ((mergeConsecutiveMessages messages).flatMap chatMessage).count text +
      (replacedTexts messages .openaiChat).count text =
    (messages.flatMap (·.content.texts)).count text + (addedTexts messages .openaiChat).count text := by
  have hruns : ∀ runs : List (List RequestMessage),
      (∀ run ∈ runs, run.IsChain fun last message => bothUser last message) →
      ((runs.flatMap joinRun).flatMap chatMessage).count text + (runs.flatMap leadingTexts).count text =
      (runs.flatten.flatMap (·.content.texts)).count text +
        ((runs.map fun run => (leadingTexts run).flatten).count text +
          (runs.flatten.flatMap replayed).count text) := by
    intro runs hchain
    induction runs with
    | nil => rfl
    | cons run runs ih =>
      have hrun := count_joinRun hne (hchain run (mem_cons_self ..))
      have hrest := ih fun run' hrun' => hchain run' (mem_cons_of_mem _ hrun')
      simp only [flatMap_cons, flatMap_append, flatten_cons, map_cons, count_append, count_cons, count_nil] at *
      omega
  rw [mergeConsecutiveMessages_eq, replacedTexts, addedTexts, count_append]
  have := hruns (userRuns messages) fun run => isChain_of_mem_splitBy
  rwa [userRuns, flatten_splitBy] at this

/-! #### What is sent -/

/-- Added texts stand for the replaced contents, and every other content is sent as it is. -/
theorem count_sentTexts {protocol : SessionProtocol} (h : sentTexts messages protocol = some texts)
    (hne : text ≠ []) :
    texts.count text + (replacedTexts messages protocol).count text =
      (messages.flatMap (·.content.texts)).count text + (addedTexts messages protocol).count text := by
  cases protocol with
  | openaiChat =>
    cases h
    exact count_chatBody hne
  | openaiResponses => exact count_responsesBody hne h
  | anthropicMessages =>
    cases h
    exact count_messagesBody hne

private theorem isSome_mapM {α β : Type} (f : α → Option β) (l : List α) :
    (l.mapM f).isSome ↔ ∀ a ∈ l, (f a).isSome := by
  induction l with
  | nil => simp
  | cons a l ih =>
    rw [mapM_cons, forall_mem_cons, ← ih]
    cases f a <;> cases l.mapM f <;> simp

private theorem isSome_plainText :
    (plainText content).isSome ↔ ∀ part ∈ contentParts content, partText part ≠ none := by
  rw [plainText_eq]
  split <;> simp_all

theorem isSome_sentTexts_iff (protocol : SessionProtocol) :
    (sentTexts messages protocol).isSome ↔ Accepted messages protocol := by
  cases protocol with
  | openaiChat | anthropicMessages => exact iff_of_true rfl trivial
  | openaiResponses =>
    have hitems : ∀ m : RequestMessage, m.role ≠ .system →
        ((inputItems m).isSome ↔ (m.role ≠ .user → ∀ part ∈ contentParts m.content, partText part ≠ none)) := by
      intro m hsystem
      rw [← isSome_plainText]
      cases hrole : m.role <;> simp_all [inputItems]
    have huser : (messages.filter (·.role ≠ .system)).any (·.role = .user) = true ↔
        ∃ m ∈ messages, m.role = .user := by
      simp only [any_filter, any_eq_true, Bool.and_eq_true, decide_eq_true_eq]
      exact exists_congr fun m => and_congr_right fun _ => and_iff_right_of_imp fun h => by rw [h]; decide
    rw [sentTexts, responsesBody, Accepted, ← huser]
    split
    · rename_i hrefused
      refine iff_of_false (by simp) fun h => ?_
      rcases hrefused with hmany | hnone
      · omega
      · exact hnone h.2.1
    · rename_i haccepted
      rw [not_or, not_not] at haccepted
      have hboth : ∀ (x : Option (List (List JsString))) (y : Option (List JsString)),
          (x.bind fun input => y.bind fun instructions => some (input.flatten ++ instructions)).isSome ↔
            x.isSome ∧ y.isSome := by
        intro x y
        cases x <;> cases y <;> simp
      refine (hboth _ _).trans ?_
      rw [isSome_mapM, isSome_mapM]
      constructor
      · rintro ⟨hrest, hsystems⟩
        refine ⟨by omega, haccepted.2, fun m hm hrole => ?_⟩
        by_cases hsystem : m.role = .system
        · exact (isSome_plainText _).mp (hsystems m (mem_filter.mpr ⟨hm, by simpa using hsystem⟩))
        · exact (hitems m hsystem).mp (hrest m (mem_filter.mpr ⟨hm, by simpa using hsystem⟩)) hrole
      · rintro ⟨-, -, himages⟩
        constructor
        · intro m hm
          obtain ⟨hm, hsystem⟩ := mem_filter.mp hm
          exact (hitems m (by simpa using hsystem)).mpr (himages m hm)
        · intro m hm
          obtain ⟨hm, hsystem⟩ := mem_filter.mp hm
          exact (isSome_plainText _).mpr (himages m hm (by simp_all))

/-- Whatever the tokenizer, the budget covers what is sent exactly if every added text is the name of a role or a
replaced content, as often as it was added. -/
theorem budget_covers_iff (protocol : SessionProtocol) :
    (∀ encodeLength texts, sentTexts messages protocol = some texts → BudgetCovers encodeLength messages texts) ↔
    (Accepted messages protocol → ∀ text ≠ [], (addedTexts messages protocol).count text ≤
      (messages.map (·.role.text) ++ replacedTexts messages protocol).count text) := by
  rw [← isSome_sentTexts_iff]
  cases hsent : sentTexts messages protocol with
  | none => simp
  | some texts =>
    have hcovers := @covers_all_iff messages texts
    constructor
    · intro h _ text hne
      have := hcovers.mp (fun encodeLength => h encodeLength texts rfl) text hne
      have := count_sentTexts hsent hne
      rw [count_append] at *
      omega
    · intro h encodeLength texts' htexts'
      cases htexts'
      refine hcovers.mpr (fun text hne => ?_) encodeLength
      have := h rfl text hne
      have := count_sentTexts hsent hne
      rw [count_append] at *
      omega

/-- An earlier tool call whose arguments are long. -/
def callingMessages : List RequestMessage :=
  [⟨.user, .plain (js "go"), []⟩, ⟨.assistant, .plain [], [⟨js "call_0", js "write", List.replicate 100 97⟩]⟩]

theorem not_budget_covers : ¬ ∀ (encodeLength : JsString → Nat) (messages : List RequestMessage)
    (protocol : SessionProtocol) (texts : List JsString), sentTexts messages protocol = some texts →
    BudgetCovers encodeLength messages texts := by
  intro h
  have hsent := sent_le_of_covers (h List.length callingMessages .openaiChat
    [js "go", [], js "write", List.replicate 100 97] (by decide +kernel))
  revert hsent
  decide +kernel

/-! ### Merged messages -/

/-- The units and images of a content, in order. -/
def Content.pieces : List (UInt16 ⊕ JsString) :=
  (contentParts content).flatMap fun
    | .text text => text.map .inl
    | .imageUrl url => [.inr url]

def Apart (last message : RequestMessage) : Prop := ¬ (message.role = .user ∧ last.role = .user)

/-- A message is appended, or joined to the last one. -/
theorem mergeMessage_cases (merged : List RequestMessage) (message : RequestMessage) :
    ((∀ last ∈ merged.getLast?, Apart last message) ∧ mergeMessage merged message = merged ++ [message]) ∨
    ∃ init last, merged = init ++ [last] ∧ ¬ Apart last message ∧ mergeMessage merged message =
      init ++ [{ last with content := joinContent last.content message.content }] := by
  induction merged using reverseRecOn with
  | nil => exact Or.inl ⟨nofun, rfl⟩
  | append_singleton init last _ =>
    unfold mergeMessage Apart
    rw [getLast?_concat]
    by_cases h : message.role = .user ∧ last.role = .user
    · exact Or.inr ⟨init, last, rfl, not_not.2 h, by simp [h]⟩
    · exact Or.inl ⟨by simpa using h, by simp [h]⟩

/-- Merging keeps the units and images in their order, leaves no two user messages side by side and has nothing to do
the second time.  What is appended to a conversation changes no merged message but the last. -/
theorem mergeConsecutiveMessages_spec (a b : List RequestMessage) :
    (mergeConsecutiveMessages a).flatMap (·.content.pieces) = a.flatMap (·.content.pieces) ∧
    (mergeConsecutiveMessages a).IsChain Apart ∧
    mergeConsecutiveMessages (mergeConsecutiveMessages a) = mergeConsecutiveMessages a ∧
    (mergeConsecutiveMessages a).dropLast <+: (mergeConsecutiveMessages (a ++ b)).dropLast := by
  have hstep (a : List RequestMessage) (m : RequestMessage) :
      mergeConsecutiveMessages (a ++ [m]) = mergeMessage (mergeConsecutiveMessages a) m := foldl_concat ..
  have hchain : (mergeConsecutiveMessages a).IsChain Apart := by
    induction a using reverseRecOn with
    | nil => exact .nil
    | append_singleton a m ih =>
      rw [hstep]
      rcases mergeMessage_cases (mergeConsecutiveMessages a) m with ⟨hapart, h⟩ | ⟨init, last, heq, -, h⟩ <;> rw [h]
      · exact isChain_append.2 ⟨ih, .singleton _, by simpa using hapart⟩
      · rw [heq, isChain_append] at ih
        exact isChain_append.2 ⟨ih.1, .singleton _, by simpa [Apart] using ih.2.2⟩
  refine ⟨?_, hchain, ?_, ?_⟩
  · clear hchain
    induction a using reverseRecOn with
    | nil => rfl
    | append_singleton a m ih =>
      rw [hstep, flatMap_append, ← ih]
      rcases mergeMessage_cases (mergeConsecutiveMessages a) m with ⟨-, h⟩ | ⟨init, last, heq, -, h⟩ <;> rw [h]
      · rw [flatMap_append]
      · have hjoin : (joinContent last.content m.content).pieces = last.content.pieces ++ m.content.pieces := by
          cases last.content <;> cases m.content <;> simp [joinContent, Content.pieces, contentParts]
        simp [heq, hjoin]
  · generalize mergeConsecutiveMessages a = merged at hchain
    induction merged using reverseRecOn with
    | nil => rfl
    | append_singleton l m ih =>
      obtain ⟨hl, -, hlast⟩ := isChain_append.1 hchain
      rw [hstep, ih hl]
      rcases mergeMessage_cases l m with ⟨-, h⟩ | ⟨init, last, rfl, hjoined, -⟩
      · exact h
      · exact absurd (hlast last (by simp) m rfl) hjoined
  · induction b using reverseRecOn with
    | nil => simp
    | append_singleton b m ih =>
      rw [← append_assoc, hstep]
      refine ih.trans ?_
      rcases mergeMessage_cases (mergeConsecutiveMessages (a ++ b)) m with ⟨-, h⟩ | ⟨init, last, heq, -, h⟩ <;> rw [h]
      · rw [dropLast_concat]
        exact dropLast_prefix _
      · simp [heq]

end Wrenyard.Calls
