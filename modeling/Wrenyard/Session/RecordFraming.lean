import Wrenyard.Session.Render

/-!
# The framing of records

A text of the context is a record, and its closing tag ends it.  `escapeBody` takes every closing tag that
`BODY_CLOSING` knows out of a text and makes no new one (`closing_infix_escapeBody`), so a record is framed unless one
of the texts it shows holds the closing tag that is missing there, the one of `action` (`framed_iff_content`).
-/

namespace Wrenyard.Session

open Js List

variable {name : JsString}

def closing (name : JsString) : JsString := js "</" ++ name ++ js ">"

/-- The names whose closing tags `BODY_CLOSING` matches. -/
def IsClosingName (name : JsString) : Prop :=
  name ∈ closingNames ∨ startsWith name (js "wy-") ∧ (name.drop 3).all isNameUnit ∧ name.drop 3 ≠ []

instance : DecidablePred IsClosingName := fun _ => inferInstanceAs (Decidable (_ ∨ _))

/-- A name holds no line feed and none of `&`, `/`, `<` and `>`. -/
def NamePlain (name : JsString) : Prop := 38 ∉ name ∧ 47 ∉ name ∧ 60 ∉ name ∧ 62 ∉ name ∧ lf ∉ name

instance : DecidablePred NamePlain := fun _ => inferInstanceAs (Decidable (_ ∧ _))

theorem closing_eq (name : JsString) : closing name = 60 :: 47 :: (name ++ [62]) := rfl

theorem plain_of_isClosingName (h : IsClosingName name) : NamePlain name := by
  rcases h with h | ⟨hwy, hall, -⟩
  · have hplain : ∀ n ∈ closingNames, NamePlain n := by decide
    exact hplain name h
  obtain ⟨rest, rfl⟩ := isPrefixOf_iff_prefix.mp hwy
  have hrest : ∀ u : UInt16, isNameUnit u = false → u ∉ js "wy-" → u ∉ js "wy-" ++ rest := by
    intro u hu hwy hmem
    rcases mem_append.mp hmem with h | h
    · exact hwy h
    · have := all_eq_true.mp hall u h
      rw [hu] at this
      cases this
  exact ⟨hrest _ (by decide) (by decide), hrest _ (by decide) (by decide), hrest _ (by decide) (by decide),
    hrest _ (by decide) (by decide), hrest _ (by decide) (by decide)⟩

/-- Before a unit that a pattern does not begin with, the pattern is where it is after it. -/
theorem infix_skip {c : UInt16} {t A X : JsString} (hA : c ∉ A) : c :: t <:+: A ++ X ↔ c :: t <:+: X := by
  induction A with
  | nil => rfl
  | cons a A ih =>
    rw [mem_cons, not_or] at hA
    rw [cons_append, infix_cons_iff, cons_prefix_cons, ih hA.2]
    exact ⟨fun h => h.resolve_left fun h => hA.1 h.1, Or.inr⟩

theorem takeWhile_name (hname : NamePlain name) (rest : JsString) :
    (name ++ 62 :: rest).takeWhile (fun u => decide (u ≠ 62)) = name := by
  rw [takeWhile_append_of_pos]
  · simp
  · rintro u hu
    refine decide_eq_true ?_
    rintro rfl
    exact hname.2.2.2.1 hu

theorem prefix_closing {a b rest : JsString} (ha : NamePlain a) (hb : NamePlain b)
    (h : closing a <+: closing b ++ rest) :
    a = b := by
  obtain ⟨r, hr⟩ := h
  simp only [closing_eq, cons_append, append_assoc, List.cons.injEq, true_and] at hr
  rw [← takeWhile_name ha r, ← takeWhile_name hb rest]
  exact congrArg _ hr

theorem closing_infix_closing {n rest : JsString} (hname : NamePlain name) (hn : NamePlain n) :
    closing name <:+: closing n ++ rest ↔ name = n ∨ closing name <:+: rest := by
  have htail : (60 : UInt16) ∉ 47 :: (n ++ [62]) := by
    simp only [mem_cons, mem_append, mem_nil_iff, or_false, not_or]
    exact ⟨by decide, hn.2.2.1, by decide⟩
  rw [closing_eq n, cons_append, infix_cons_iff, closing_eq name, infix_skip htail]
  constructor
  · rintro (h | h)
    · exact Or.inl (prefix_closing hname hn h)
    · exact Or.inr h
  · rintro (rfl | h)
    · exact Or.inl ⟨rest, rfl⟩
    · exact Or.inr h

theorem closingName_closing (hname : NamePlain name) (rest : JsString) :
    closingName (closing name ++ rest) = if IsClosingName name then some name else none := by
  have hlength : (name ++ 62 :: rest).length ≠ name.length := by simp
  have hs : closing name ++ rest = 60 :: 47 :: (name ++ 62 :: rest) := by simp [closing_eq]
  have hstart : startsWith (60 :: 47 :: (name ++ 62 :: rest)) (js "</") = true := rfl
  rw [closingName, hs, if_pos hstart]
  have hdrop : (60 :: 47 :: (name ++ 62 :: rest)).drop 2 = name ++ 62 :: rest := rfl
  simp only [hdrop, takeWhile_name hname]
  exact if_congr (and_iff_left hlength) rfl rfl

variable {s : JsString}

theorem closingName_eq_some (h : closingName s = some name) :
    IsClosingName name ∧ ∃ rest, s = closing name ++ rest := by
  obtain ⟨hstart, h⟩ := Option.ite_none_right_eq_some.1 h
  obtain ⟨r, rfl⟩ := isPrefixOf_iff_prefix.mp hstart
  have hdrop : (js "</" ++ r).drop 2 = r := rfl
  simp only [hdrop] at h
  split at h <;> cases h
  rename_i hcond
  have hsplit := takeWhile_append_dropWhile (p := fun u : UInt16 => decide (u ≠ 62)) (l := r)
  cases hrest : r.dropWhile fun u => decide (u ≠ 62) with
  | nil =>
    rw [hrest, append_nil] at hsplit
    exact absurd (congrArg List.length hsplit.symm) hcond.2
  | cons u rest =>
    have hu : u = 62 := by
      have := head_dropWhile_not (fun u : UInt16 => decide (u ≠ 62)) (l := r) (by rw [hrest]; simp)
      simp only [hrest, head_cons] at this
      simpa using this
    refine ⟨hcond.1, rest, ?_⟩
    rw [hrest, hu] at hsplit
    rw [closing, append_assoc, append_assoc]
    exact congrArg (js "</" ++ ·) hsplit.symm

theorem escapeBodyFrom_skip (k : Nat) (s : JsString) : escapeBodyFrom k s = escapeBody (s.drop k) := by
  induction s generalizing k with
  | nil => cases k <;> rfl
  | cons u s ih =>
    cases k with
    | zero => rfl
    | succ k => exact ih k

theorem escapeBody_cons {u : UInt16} (h : closingName (u :: s) = none) :
    escapeBody (u :: s) = u :: escapeBody s := by
  rw [escapeBody, escapeBodyFrom, h]
  rfl

theorem escapeBody_closing (h : IsClosingName name) (rest : JsString) :
    escapeBody (closing name ++ rest) = js "&lt;/" ++ name ++ js "&gt;" ++ escapeBody rest := by
  have hname := closingName_closing (plain_of_isClosingName h) rest
  rw [if_pos h] at hname
  rw [closing_eq, cons_append] at hname ⊢
  rw [escapeBody, escapeBodyFrom, hname]
  simp only [escapeBodyFrom_skip]
  congr 2
  simp

/-- A text is a run of units and closing tags. -/
theorem escape_induction {P : JsString → Prop} (nil : P [])
    (unit : ∀ u s, closingName (u :: s) = none → P s → P (u :: s))
    (tag : ∀ name rest, IsClosingName name → P rest → P (closing name ++ rest)) (s : JsString) : P s := by
  induction hn : s.length using Nat.strong_induction_on generalizing s with
  | _ n ih =>
    cases s with
    | nil => exact nil
    | cons u s =>
      cases hc : closingName (u :: s) with
      | none => exact unit u s hc (ih s.length (by rw [← hn]; exact Nat.lt_succ_self _) s rfl)
      | some name =>
        obtain ⟨hname, rest, hs⟩ := closingName_eq_some hc
        rw [hs] at hn ⊢
        exact tag name rest hname (ih rest.length (by rw [← hn, length_append, closing_eq]; simp) rest rfl)

theorem prefix_escapeBody {t : JsString} (hamp : 38 ∉ t) (hlt : 60 ∉ t) (s : JsString) :
    t <+: escapeBody s ↔ t <+: s := by
  induction t generalizing s with
  | nil => simp
  | cons c t ih =>
    rw [mem_cons, not_or] at hamp hlt
    induction s using escape_induction with
    | nil => rfl
    | unit u s hc _ => rw [escapeBody_cons hc, cons_prefix_cons, cons_prefix_cons, ih hamp.2 hlt.2]
    | tag name rest hname _ =>
      rw [escapeBody_closing hname]
      exact ⟨fun h => absurd (cons_prefix_cons.mp h).1.symm hamp.1,
        fun h => absurd (cons_prefix_cons.mp h).1.symm hlt.1⟩

/-- Escaping takes the closing tags it knows out of a text and leaves the others. -/
theorem closing_infix_escapeBody (hname : NamePlain name) (s : JsString) :
    closing name <:+: escapeBody s ↔ ¬ IsClosingName name ∧ closing name <:+: s := by
  induction s using escape_induction with
  | nil => simp [escapeBody, escapeBodyFrom, closing_eq]
  | unit u s hc ih =>
    have hprefix : closing name <+: u :: escapeBody s ↔ closing name <+: u :: s := by
      have htail : ∀ v : UInt16, v ≠ 47 → v ≠ 62 → v ∉ name → v ∉ 47 :: (name ++ [62]) := by
        intro v h1 h2 h3
        simp [h1, h2, h3]
      rw [closing_eq, cons_prefix_cons, cons_prefix_cons,
        prefix_escapeBody (htail _ (by decide) (by decide) hname.1) (htail _ (by decide) (by decide) hname.2.2.1)]
    have hknown : closing name <+: u :: s → ¬ IsClosingName name := by
      rintro ⟨rest, hrest⟩ hknown
      rw [← hrest, closingName_closing hname, if_pos hknown] at hc
      cases hc
    rw [escapeBody_cons hc, infix_cons_iff, infix_cons_iff, hprefix, ih]
    constructor
    · rintro (h | h)
      · exact ⟨hknown h, Or.inl h⟩
      · exact ⟨h.1, Or.inr h.2⟩
    · rintro ⟨hn, h | h⟩
      · exact Or.inl h
      · exact Or.inr ⟨hn, h⟩
  | tag n rest hn ih =>
    have hplain := plain_of_isClosingName hn
    have hlt : (60 : UInt16) ∉ js "&lt;/" ++ n ++ js "&gt;" := by
      simp only [mem_append, not_or]
      exact ⟨⟨by decide, hplain.2.2.1⟩, by decide⟩
    rw [escapeBody_closing hn, closing_infix_closing hname hplain, closing_eq, infix_skip hlt, ← closing_eq, ih]
    constructor
    · rintro ⟨hk, h⟩
      exact ⟨hk, Or.inr h⟩
    · rintro ⟨hk, rfl | h⟩
      · exact absurd hn hk
      · exact ⟨hk, h⟩

theorem escapeBody_eq_self (h : ∀ name, IsClosingName name → ¬ closing name <:+: s) :
    escapeBody s = s := by
  induction s using escape_induction with
  | nil => rfl
  | unit u s hc ih => rw [escapeBody_cons hc, ih fun name hn hs => h name hn (infix_cons hs)]
  | tag name rest hn _ => exact absurd (prefix_append _ _).isInfix (h name hn)

theorem escapeBody_idempotent (s : JsString) : escapeBody (escapeBody s) = escapeBody s :=
  escapeBody_eq_self fun _ hn h => ((closing_infix_escapeBody (plain_of_isClosingName hn) s).mp h).1 hn

/-! ### Records -/

/-- The elements of the records `renderEventText` makes. -/
def recordNames : List String :=
  ["message", "wy-info", "thinking", "memory-recall", "doc-search", "doc-content", "files", "action", "action-result",
    "interrupt", "reply", "error"]

/-- The closing tag of its own element, where it has one, ends the text, and no other closing tag of a record is in
it: an occurrence is an end of the text or lies in front of its last unit. -/
def Framed (own : Option String) (text : JsString) : Prop :=
  ∀ name ∈ recordNames, ¬ closing (js name) <:+: text.dropLast ∧ (closing (js name) <:+ text ↔ own = some name)

theorem plain_recordNames {r : String} (h : r ∈ recordNames) : NamePlain (js r) ∧ js r ≠ [] ∧
    (¬ IsClosingName (js r) ↔ r = "action") := by
  have hall : ∀ r ∈ recordNames, NamePlain (js r) ∧ js r ≠ [] ∧ (¬ IsClosingName (js r) ↔ r = "action") := by decide
  exact hall r h

theorem framed_closed {own : String} (hown : own ∈ recordNames) (front : JsString) :
    Framed (some own) (front ++ closing (js own)) ↔ ∀ name ∈ recordNames, ¬ closing (js name) <:+: front := by
  have hlast : (front ++ closing (js own)).dropLast = front ++ js "</" ++ js own := by
    rw [closing, ← append_assoc, ← append_assoc]
    exact dropLast_concat
  have htail : ∀ {r : String}, r ∈ recordNames → (60 : UInt16) ∉ 47 :: (js r ++ [62]) := by
    intro r hr
    simp [(plain_recordNames hr).1.2.2.1]
  -- A suffix of a closing tag that begins with `<` is all of it.
  have hwhole : ∀ {a b : String}, b ∈ recordNames → closing (js a) <:+ closing (js b) →
      closing (js a) = closing (js b) := by
    intro a b hb h
    rcases suffix_cons_iff.mp (closing_eq (js b) ▸ h) with h | h
    · exact h
    · exact absurd (h.subset mem_cons_self) (htail hb)
  constructor
  · intro h name hname hin
    refine (h name hname).1 ?_
    rw [hlast, append_assoc]
    exact hin.trans (prefix_append _ _).isInfix
  · intro h name hname
    constructor
    · rw [hlast, append_assoc, infix_append_iff_ne_nil]
      rintro (hin | hin | ⟨l, l', hl, hl', heq, -, hpre⟩)
      · exact h name hname hin
      · have hmem : (62 : UInt16) ∈ js "</" ++ js own := hin.subset (by simp [closing_eq])
        rcases mem_append.mp hmem with hmem | hmem
        · exact absurd hmem (by decide)
        · exact (plain_recordNames hown).1.2.2.2.1 hmem
      · obtain ⟨c, l, rfl⟩ := exists_cons_of_ne_nil hl
        obtain ⟨d, l', rfl⟩ := exists_cons_of_ne_nil hl'
        rw [closing_eq, cons_append] at heq
        refine htail hname ?_
        rw [(List.cons.inj heq).2, (cons_prefix_cons.mp hpre).1]
        exact mem_append_right _ mem_cons_self
    · rw [Option.some.injEq]
      refine ⟨fun hsuffix => ?_, by rintro rfl; exact suffix_append _ _⟩
      have hinj : ∀ a ∈ recordNames, ∀ b ∈ recordNames, closing (js a) = closing (js b) → a = b := by decide
      refine hinj _ hown _ hname ?_
      rcases suffix_or_suffix_of_suffix hsuffix (suffix_append _ _) with h | h
      · exact (hwhole hown h).symm
      · exact hwhole hname h

theorem framed_open {text : JsString} (h : ∀ name ∈ recordNames, ¬ closing (js name) <:+: text) : Framed none text :=
  fun name hname => ⟨fun hin => h name hname (hin.trans (List.dropLast_prefix text).isInfix),
    fun hin => absurd hin.isInfix (h name hname), fun hn => by cases hn⟩

theorem lt_not_mem_replaceUnit {u : UInt16} {by_ text : JsString} (hby : 60 ∉ by_) (h : u = 60 ∨ 60 ∉ text) :
    60 ∉ replaceUnit u by_ text := by
  intro hmem
  obtain ⟨v, hv, hin⟩ := mem_flatMap.mp hmem
  split at hin
  · exact hby hin
  rename_i hne
  obtain rfl := mem_singleton.mp hin
  rcases h with rfl | h
  · exact hne rfl
  · exact h hv

theorem lt_not_mem_escapeAttr (value : JsString) : 60 ∉ escapeAttr value :=
  lt_not_mem_replaceUnit (by decide) (Or.inr (lt_not_mem_replaceUnit (by decide) (Or.inr
    (lt_not_mem_replaceUnit (by decide) (Or.inl rfl)))))

theorem unlines_around (first : JsString) (ls : List JsString) (last : JsString) :
    unlines (first :: (ls ++ [last])) = first ++ (ls.flatMap (lf :: ·) ++ [lf]) ++ last := by
  induction ls generalizing first with
  | nil => simp [unlines, intercalate_cons_cons]
  | cons l ls ih =>
    have hrest := ih l
    unfold unlines at hrest ⊢
    rw [cons_append, intercalate_cons_cons, hrest, flatMap_cons]
    simp

theorem closing_infix_lines (hname : NamePlain name) (ls : List JsString) :
    closing name <:+: ls.flatMap (lf :: ·) ++ [lf] ↔ ∃ l ∈ ls, closing name <:+: l := by
  have hlf : lf ∉ closing name := by
    rw [closing_eq]
    simp only [mem_cons, mem_append, mem_nil_iff, or_false, not_or]
    exact ⟨by decide, by decide, hname.2.2.2.2, by decide⟩
  have hskip : ∀ X, closing name <:+: lf :: X ↔ closing name <:+: X := fun X => infix_skip (A := [lf]) (by decide)
  induction ls with
  | nil =>
    rw [flatMap_nil, nil_append, hskip]
    simp [closing_eq]
  | cons l ls ih =>
    obtain ⟨X, hX⟩ : ∃ X, ls.flatMap (lf :: ·) ++ [lf] = lf :: X := by
      cases ls with
      | nil => exact ⟨[], rfl⟩
      | cons l' ls => exact ⟨_, by rw [flatMap_cons, cons_append, cons_append]⟩
    have hcut : closing name <:+: l ++ lf :: X ↔ closing name <:+: l ∨ closing name <:+: lf :: X := by
      rw [infix_append_iff_ne_nil, ← or_assoc]
      refine or_iff_left ?_
      rintro ⟨t, u, -, hu, htext, -, hpre⟩
      obtain ⟨c, u, rfl⟩ := exists_cons_of_ne_nil hu
      rw [(cons_prefix_cons.mp hpre).1] at htext
      exact hlf (htext ▸ mem_append_right _ mem_cons_self)
    rw [flatMap_cons, cons_append, cons_append, hskip, append_assoc, hX, hcut, ← hX,
      exists_mem_cons_iff]
    exact or_congr_right ih

/-- The keys of the attributes `renderEventText` writes. -/
def attributeKeys : List String :=
  ["turn", "cycle", "at", "role", "model", "context-window", "last-input-tokens", "path", "source", "id", "title",
    "updated", "version", "tokens", "format", "base", "type", "kind", "status", "task", "run", "action",
      "scope", "target",
    "change", "worktreeId", "hash", "files", "reason", "stage", "code"]

section

variable {r : String} {attributes : List Attribute} (hr : r ∈ recordNames) (hkeys : ∀ a ∈ attributes,
  a.1 ∈ attributeKeys)

include hr hkeys

theorem closing_infix_opening {w : JsString} (hw : 60 ∉ w) (X : JsString) :
    closing name <:+: js "<" ++ js r ++ attributes.flatMap renderAttribute ++ (w ++ X) ↔ closing name <:+: X := by
  obtain ⟨hplain, hne, -⟩ := plain_recordNames hr
  have hlt : (60 : UInt16) ∉ js r ++ attributes.flatMap renderAttribute ++ w := by
    simp only [mem_append, mem_flatMap, not_or, not_exists, not_and]
    refine ⟨⟨hplain.2.2.1, ?_⟩, hw⟩
    rintro ⟨key, value⟩ ha
    have hkey : ∀ key ∈ attributeKeys, 60 ∉ js key := by decide
    cases value with
    | none => simp [renderAttribute]
    | some value =>
      have hquote : (60 : UInt16) ∉ js " " ∧ (60 : UInt16) ∉ js "=\"" ∧ (60 : UInt16) ∉ js "\"" := by decide
      simp only [renderAttribute, mem_append, not_or]
      exact ⟨⟨⟨⟨hquote.1, hkey key (hkeys _ ha)⟩, hquote.2.1⟩, lt_not_mem_escapeAttr value⟩, hquote.2.2⟩
  obtain ⟨c, cs, hc⟩ := exists_cons_of_ne_nil hne
  have hslash : c ≠ 47 := by
    rintro rfl
    exact hplain.2.1 (by rw [hc]; exact mem_cons_self)
  have htext : js "<" ++ js r ++ attributes.flatMap renderAttribute ++ (w ++ X) =
      60 :: (js r ++ attributes.flatMap renderAttribute ++ w ++ X) := by
    simp only [append_assoc]
    rfl
  rw [htext, infix_cons_iff, closing_eq, infix_skip hlt]
  refine ⟨fun h => h.resolve_left fun hp => ?_, Or.inr⟩
  rw [hc, cons_prefix_cons, cons_append, cons_append, cons_append, cons_prefix_cons] at hp
  exact hslash hp.2.1.symm

theorem framed_content {w X : JsString} (hw : 60 ∉ w) (texts : List JsString)
    (hX : ∀ {name}, NamePlain name → (closing name <:+: X ↔ ∃ t ∈ texts, closing name <:+: escapeBody t)) :
    Framed (some r) (js "<" ++ js r ++ attributes.flatMap renderAttribute ++ (w ++ X) ++ closing (js r)) ↔
    ∀ t ∈ texts, ¬ closing (js "action") <:+: t := by
  rw [framed_closed hr]
  constructor
  · intro h t ht hin
    refine h "action" (by decide) ?_
    rw [closing_infix_opening hr hkeys hw, hX (by decide)]
    exact ⟨t, ht, (closing_infix_escapeBody (by decide) t).mpr ⟨by decide, hin⟩⟩
  · intro h name hname
    obtain ⟨hplain, -, hknown⟩ := plain_recordNames hname
    rw [closing_infix_opening hr hkeys hw, hX hplain]
    rintro ⟨t, ht, hin⟩
    rw [closing_infix_escapeBody hplain, hknown] at hin
    obtain ⟨rfl, hin⟩ := hin
    exact h t ht hin

theorem framed_tag (text : JsString) :
    Framed (some r) (tag r attributes (some (escapeBody text))) ↔ ∀ t ∈ [text], ¬ closing (js "action") <:+: t := by
  have hframed := @framed_content r attributes hr hkeys (js ">") (escapeBody text) (by decide) [text] fun _ => by simp
  simpa only [tag, closing, append_assoc] using hframed

theorem framed_tag_none : Framed none (tag r attributes none) := by
  refine framed_open fun name hname => ?_
  rw [tag, ← append_nil (js "/>"), closing_infix_opening hr hkeys (by decide)]
  simp [closing_eq]

theorem framed_lines (texts : List JsString) :
    Framed (some r) (unlines ([tag r attributes none] ++ texts.map escapeBody ++ [closing (js r)])) ↔
    ∀ t ∈ texts, ¬ closing (js "action") <:+: t := by
  have hframed := @framed_content r attributes hr hkeys (js "/>") ((texts.map escapeBody).flatMap (lf :: ·) ++ [lf])
    (by decide) texts fun hplain => by simp [closing_infix_lines hplain]
  rw [singleton_append, cons_append, unlines_around]
  simpa only [tag, append_assoc] using hframed

end

def closingElement : EventBody → Option String
  | .turnStarted _ | .turnSteered _ | .reasoningCompleted _ => some "message"
  | .reasoningThinking _ => some "thinking"
  | .memoryRecalled _ => some "memory-recall"
  | .documentFound _ => some "doc-search"
  | .documentContent _ => some "doc-content"
  | .filesAttached _ => some "files"
  | .actionStarted _ => some "action"
  | .actionFinished _ => some "action-result"
  | .replySent _ => some "reply"
  | .systemNotice n => some (if n.level = .error then "error" else "wy-info")
  | _ => none

def contentTexts (encodeLength : JsString → Nat) (reduced : Bool) : EventBody → List JsString
  | .turnStarted m | .turnSteered m => [m.text]
  | .reasoningThinking r => [r.text]
  | .reasoningCompleted r =>
    [if reduced then cutReleasedChars r.text REDUCED_TEXT_LIMIT REDUCED_TEXT_HEAD REDUCED_TEXT_TAIL else r.text]
  | .memoryRecalled m => if reduced then [] else [m.content]
  | .documentFound d =>
    if reduced then
      d.picks.map (fun pick => js "- pick " ++ pick.path ++ js ": " ++ pick.title) ++
        d.near.map fun near => js "- near " ++ near.path ++ js ": " ++ near.title
    else
      [d.understanding] ++ d.picks.map (fun pick => js "- pick " ++ pick.path ++ js ": " ++ pick.reason) ++
        d.near.map (fun near => js "- near " ++ near.path ++ js ": " ++ near.reason) ++
        d.notes.map fun note => js "- note " ++ note
  | .documentContent d =>
    [if reduced then js "[文档 " ++ d.path ++ js " 约 " ++ natText d.tokens ++ js " tokens 已释放，需要时重新读取]"
      else d.content]
  | .filesAttached f =>
    if reduced then f.files.map fun file => js "[file name=" ++ file.name ++ js " kind=" ++ file.kind.text ++ js "]"
    else f.files.flatMap fun file => formatFile file :: (file.text.filter (· ≠ [])).toList
  | .actionStarted a => [a.prompt]
  | .actionFinished a =>
    [if reduced then
      cutReleasedTokens encodeLength a.result REDUCED_RESULT_LIMIT REDUCED_RESULT_HEAD REDUCED_RESULT_TAIL
      else a.result]
  | .replySent r =>
    [if reduced then cutReleasedChars r.text REDUCED_REPLY_LIMIT REDUCED_TEXT_HEAD REDUCED_TEXT_TAIL else r.text]
  | .systemNotice n => [if n.level = .error ∧ reduced then firstLine n.message else n.message]
  | _ => []

theorem framed_files {f : FilesAttachedEvent} {e : LedgerEvent} (texts : List JsString)
    (hempty : f.files = [] → texts = []) : Framed (some "files") (filesRecord e f (texts.map escapeBody)) ↔
    ∀ text ∈ texts, ¬ closing (js "action") <:+: text := by
  have hlines := @framed_lines "files" (indexAttributes e ++ [("source", some f.source.text)])
    (by decide) (by simp [indexAttributes, attributeKeys])
  unfold filesRecord
  split
  · rename_i hf
    rw [hempty hf]
    exact (hlines [js "(none)"]).trans (by decide)
  · exact hlines texts

/-- A record is framed exactly when no text in its body holds the closing tag of an action. -/
theorem framed_iff_content {encodeLength : JsString → Nat} {reduced : Bool} {e : LedgerEvent} {text : JsString}
    (h : renderEventText encodeLength reduced e = some text) : Framed (closingElement e.body) text ↔
    ∀ t ∈ contentTexts encodeLength reduced e.body, ¬ closing (js "action") <:+: t := by
  unfold renderEventText at h
  cases hbody : e.body
  all_goals simp only [hbody, reduceCtorEq] at h ⊢
  case turnStarted | turnSteered | reasoningThinking | reasoningCompleted | actionStarted | replySent =>
    cases h
    exact framed_tag (by decide) (by simp [indexAttributes, attributeKeys]) _
  case stepStarted | workspaceChanged | turnInterrupted =>
    cases h
    exact iff_of_true (framed_tag_none (by decide) (by simp [indexAttributes, attributeKeys])) fun t ht => by cases ht
  case documentContent d =>
    cases h
    cases reduced <;> exact framed_tag (by decide) (by simp [indexAttributes, attributeKeys]) _
  case actionFinished a =>
    split at h <;> cases h
    exact framed_tag (by decide) (by simp [indexAttributes, attributeKeys]) _
  case memoryRecalled m =>
    cases h
    cases reduced
    · exact framed_tag (by decide) (by simp [indexAttributes, attributeKeys]) _
    · exact (framed_tag (by decide) (by simp [indexAttributes, attributeKeys]) []).trans
        (by simp [contentTexts, closing_eq])
  case filesAttached f =>
    cases h
    cases reduced
    · have htexts : renderFiles e f = filesRecord e f
          ((contentTexts encodeLength false (.filesAttached f)).map escapeBody) := by
        simp only [renderFiles, contentTexts, Bool.false_eq_true, if_false, map_flatMap]
        congr 2
        funext file
        cases file.text with
        | none => rfl
        | some text => by_cases ht : text = [] <;> simp [ht, Option.filter]
      rw [if_neg Bool.false_ne_true, htexts]
      exact framed_files _ fun hf => by simp [contentTexts, hf]
    · have htexts : renderFilesStub e f = filesRecord e f
          ((contentTexts encodeLength true (.filesAttached f)).map escapeBody) := by
        simp [renderFilesStub, contentTexts, Function.comp_def]
      rw [if_pos rfl, htexts]
      exact framed_files _ fun hf => by simp [contentTexts, hf]
  case documentFound d =>
    cases h
    have hlines := @framed_lines "doc-search" (indexAttributes e ++ [("id", some d.parent)]) (by decide)
      (by simp [indexAttributes, attributeKeys]) (contentTexts encodeLength reduced (.documentFound d))
    have hclosing : closing (js "doc-search") = js "</doc-search>" := by decide
    rw [hclosing] at hlines
    cases reduced
    · simpa [renderDocSearch, contentTexts, Function.comp_def, closingElement] using hlines
    · simpa [renderDocSearchStub, contentTexts, Function.comp_def, closingElement] using hlines
  case systemNotice n =>
    cases hlevel : n.level
    all_goals simp only [hlevel] at h
    case error =>
      cases h
      simp only [closingElement, contentTexts, hlevel, if_true, true_and]
      exact framed_tag (by decide) (by simp [attributeKeys]) _
    all_goals
      split at h <;> cases h
      simp only [closingElement, contentTexts, hlevel, reduceCtorEq, if_false, false_and]
      exact framed_tag (by decide) (by simp [attributeKeys]) _

/-- Framing cannot be forged exactly where no text of a body holds the closing tag of an action. -/
theorem renderEventText_framed_iff (encodeLength : JsString → Nat) :
    (∀ s, escapeBody (escapeBody s) = escapeBody s) ∧ ∀ (reduced : Bool) (e : LedgerEvent) (text : JsString),
      renderEventText encodeLength reduced e = some text →
      (Framed (closingElement e.body) text ↔
        ∀ t ∈ contentTexts encodeLength reduced e.body, ¬ closing (js "action") <:+: t) :=
  ⟨escapeBody_idempotent, fun _ _ _ h => framed_iff_content h⟩

theorem renderEventText_framed_iff_reply : Framed (some "reply") (js "<reply>&lt;/reply&gt;</reply>") :=
  ((renderEventText_framed_iff fun _ => 0).2 false ⟨⟨none, none, .replySent ⟨none, js "</reply>", none, none⟩⟩, 0,
    []⟩ _
    (by decide +kernel)).mpr (by decide +kernel)

/-- The prompt of an action closes its record. -/
theorem not_renderEventText_framed :
    ¬ ∀ (encodeLength : JsString → Nat) (reduced : Bool) (e : LedgerEvent) (text : JsString),
      renderEventText encodeLength reduced e = some text → Framed (closingElement e.body) text := by
  intro h
  have hframed := h (fun _ => 0) false
    ⟨⟨none, none, .actionStarted ⟨js "a", [], .dispatch, js "</action>", none, none⟩⟩, 0, []⟩ _ rfl
  exact (hframed "action" (by decide)).1 (by decide +kernel)

end Wrenyard.Session
