import Wrenyard.TaskGraph.SchemaTools
import Wrenyard.TaskGraph.Runs
import Wrenyard.Js.OrderedSet

/-!
# References to inputs

The validator scans the parameters of an action for `$inputs.<slot>` and checks that the slot is declared.  At run
time a string of the parameters is a reference by another expression: the dollar sign may be missing, the slot is an
identifier, and projections may follow.  The two agree on a node of an accepted graph exactly where its parameters
have no string on which the expressions differ (`Divergent`).
-/

namespace Wrenyard.TaskGraph

open Js List

/-- `/^\$inputs\.(\w+)$/`: the slot. -/
def inputsRe (value : JsString) : Option JsString :=
  if startsWith value (js "$inputs.") ∧ value.drop 8 ≠ [] ∧ (value.drop 8).all isWord = true then some (value.drop 8)
  else none

mutual

/-- `collectInputsRefs`: the slots referred to in a subtree, but for literals. -/
def collectInputsRefs : Json → List JsString
  | .str value => (inputsRe value).toList
  | .arr items => collectItemRefs items
  | .obj members => if (soleConst members).isSome then [] else collectMemberRefs members
  | _ => []

def collectItemRefs : List Json → List JsString
  | [] => []
  | item :: rest => collectInputsRefs item ++ collectItemRefs rest

def collectMemberRefs : List (JsString × Json) → List JsString
  | [] => []
  | (_, value) :: rest => collectInputsRefs value ++ collectMemberRefs rest

end

def slotSchema (materialized : Graph) (nodeId : NodeId) (slot : NodeInput) : Except Issue JsonObject :=
  match parseSourceExpr slot.source materialized.nodes.keys with
  | none =>
    .error (.wiring nodeId slot.name .mapPathUnknown
      (js "cannot parse source expression \"" ++ slot.source ++ js "\" for slot \"" ++ slot.name ++ js "\""))
  | some parsed =>
    match materialized.nodes.get parsed.nodeId with
    | none =>
      .error (.wiring nodeId slot.name .mapPathUnknown (js "source node \"" ++ parsed.nodeId ++
        js "\" not found in materialized graph for slot \"" ++ slot.name ++ js "\""))
    | some source =>
      match schemaAt source.outputSchema parsed.projection with
      | .error reason =>
        .error (.wiring nodeId slot.name .mapPathUnknown
          (js "projection failed for slot \"" ++ slot.name ++ js "\": " ++ reason))
      | .ok schema => .ok schema

def slotIssues (materialized : Graph) (nodeId : NodeId) (node : Node) (slot : NodeInput) : List Issue :=
  (match parseSourceExpr slot.source materialized.nodes.keys with
    | none => []
    | some parsed =>
      if parsed.nodeId ∈ node.deps then []
      else
        [.wiring nodeId slot.name .mapNotInDeps (js "source \"" ++ slot.source ++ js "\" references node \"" ++
          parsed.nodeId ++ js "\" which is not in dependencies of \"" ++ nodeId ++ js "\"")]) ++
  match slotSchema materialized nodeId slot with
  | .error issue => [issue]
  | .ok _ => []

def slotSchemas (materialized : Graph) (nodeId : NodeId) (node : Node) : OMap JsString JsonObject :=
  node.input.foldl (fun schemas slot =>
    match slotSchema materialized nodeId slot with
    | .error _ => schemas
    | .ok schema => schemas.set slot.name schema) []

def referredSlots (node : Node) : List JsString :=
  OSet.ofList (collectInputsRefs (.obj node.action.params) ++
    ((node.action.params.get (js "assemble")).map collectInputsRefs).getD [])

def referenceIssues (materialized : Graph) (nodeId : NodeId) (node : Node) : List Issue :=
  ((referredSlots node).filter fun slotName => !(slotSchemas materialized nodeId node).has slotName).map
    fun slotName =>
    .wiring nodeId slotName .inputIncomplete
      (js "input slot \"" ++ slotName ++ js "\" referenced but not defined on node \"" ++ nodeId ++ js "\"")

def wiringIssues (contracts : Contracts) (image : Graph) : List Issue :=
  image.nodes.flatMap fun entry =>
    entry.2.input.flatMap (slotIssues (materialize contracts image) entry.1 entry.2) ++
      referenceIssues (materialize contracts image) entry.1 entry.2

/-- The checks behind the structural ones, with those of sources and references among them. -/
def Contracts.withWiring (contracts : Contracts) : Contracts :=
  { contracts with furtherIssues := fun image => contracts.furtherIssues image ++ wiringIssues contracts image }

/-! ### The two expressions -/

/-- `[A-Za-z_]\w*`. -/
def Identifier (word : JsString) : Prop := ∃ u rest, word = u :: rest ∧ isLetter u = true ∧ rest.all isWord = true

inductive Projections : JsString → Prop where
  | nil : Projections []
  | field {name rest : JsString} : Identifier name → Projections rest → Projections (46 :: (name ++ rest))
  | index {digits rest : JsString} : digits.all isDigit = true → plainNumeral digits = true → Projections rest →
      Projections (91 :: (digits ++ 93 :: rest))

/-- The strings on which scan and run time differ: a reference without the dollar sign, one with projections, and one
whose slot begins with a digit. -/
inductive Divergent : JsString → Prop where
  | bare {slot suffix : JsString} : Identifier slot → Projections suffix →
    Divergent (js "inputs." ++ (slot ++ suffix))
  | projected {slot suffix : JsString} : Identifier slot → Projections suffix → suffix ≠ [] →
      Divergent (js "$inputs." ++ (slot ++ suffix))
  | digit {u : UInt16} {rest : JsString} : isDigit u = true → rest.all isWord = true →
      Divergent (js "$inputs." ++ u :: rest)

private theorem isWord_of_isLetter {u : UInt16} (h : isLetter u = true) : isWord u = true := by
  unfold isWord
  rw [h, Bool.true_or]

private theorem isLetter_eq_false_of_isDigit {u : UInt16} (h : isDigit u = true) : isLetter u = false := by
  unfold isDigit at h
  unfold isLetter
  simp only [Bool.and_eq_true, decide_eq_true_eq, UInt16.le_iff_toNat_le] at h
  simp only [Bool.or_eq_false_iff, Bool.and_eq_false_iff, decide_eq_false_iff_not, UInt16.le_iff_toNat_le,
    beq_eq_false_iff_ne, ne_eq, ← UInt16.toNat_inj]
  have h2 : (57 : UInt16).toNat = 57 := rfl
  have h3 : (65 : UInt16).toNat = 65 := rfl
  have h5 : (95 : UInt16).toNat = 95 := rfl
  have h6 : (97 : UInt16).toNat = 97 := rfl
  omega

variable {slot : JsString}

private theorem Identifier.word (h : Identifier slot) : slot ≠ [] ∧ slot.all isWord = true := by
  obtain ⟨u, rest, rfl, hletter, hrest⟩ := h
  refine ⟨by simp, ?_⟩
  rw [all_cons, isWord_of_isLetter hletter, hrest]
  rfl

def Stops (rest : JsString) : Prop := ∀ u ∈ rest.head?, isWord u = false

variable {suffix : JsString}

private theorem Projections.stops (h : Projections suffix) : Stops suffix := by
  intro u hu
  cases h with
  | nil => cases hu
  | field | index => cases hu; rfl

variable {word rest : JsString}

private theorem takeWhile_word (hword : word.all isWord = true) (hrest : Stops rest) :
    (word ++ rest).takeWhile isWord = word ∧ (word ++ rest).dropWhile isWord = rest := by
  induction word with
  | nil =>
    cases rest with
    | nil => exact ⟨rfl, rfl⟩
    | cons u rest =>
      have hu := hrest u rfl
      exact ⟨takeWhile_cons_of_neg (by simp [hu]), dropWhile_cons_of_neg (by simp [hu])⟩
  | cons u word ih =>
    rw [all_cons, Bool.and_eq_true] at hword
    obtain ⟨htake, hdrop⟩ := ih hword.2
    rw [cons_append, takeWhile_cons_of_pos hword.1, dropWhile_cons_of_pos hword.1, htake, hdrop]
    exact ⟨rfl, rfl⟩

theorem takeIdentifier_append (hword : Identifier word) (hrest : Stops rest) :
    takeIdentifier (word ++ rest) = some (word, rest) := by
  obtain ⟨u, tail, rfl, hletter, htail⟩ := hword
  obtain ⟨htake, hdrop⟩ := takeWhile_word htail hrest
  rw [cons_append]
  rw [takeIdentifier]
  rw [if_pos hletter, htake, hdrop]

variable {s : JsString}

theorem of_takeIdentifier (h : takeIdentifier s = some (word, rest)) : Identifier word ∧ s = word ++ rest := by
  cases s with
  | nil => cases h
  | cons u tail =>
    rw [takeIdentifier] at h
    split at h <;> cases h
    rename_i hletter
    exact ⟨⟨u, _, rfl, hletter, all_takeWhile⟩, by rw [cons_append, takeWhile_append_dropWhile]⟩

private theorem digits_span {digits rest : JsString} (hdigits : digits.all isDigit = true) :
    (digits ++ 93 :: rest).takeWhile isDigit = digits ∧ (digits ++ 93 :: rest).dropWhile isDigit = 93 :: rest := by
  induction digits with
  | nil => exact ⟨rfl, rfl⟩
  | cons u digits ih =>
    rw [all_cons, Bool.and_eq_true] at hdigits
    obtain ⟨htake, hdrop⟩ := ih hdigits.2
    rw [cons_append, takeWhile_cons_of_pos hdigits.1, dropWhile_cons_of_pos hdigits.1, htake, hdrop]
    exact ⟨rfl, rfl⟩

theorem of_takeSegment {segment : ProjectionSegment} (h : takeSegment plainNumeral s = some (segment, rest))
    (hrest : Projections rest) : Projections s := by
  cases s with
  | nil => cases h
  | cons u tail =>
    rw [takeSegment] at h
    split at h
    · rename_i hdot
      obtain ⟨⟨name, after⟩, htake, heq⟩ := Option.map_eq_some_iff.mp h
      cases heq
      obtain ⟨hname, rfl⟩ := of_takeIdentifier htake
      rw [hdot]
      exact .field hname hrest
    · split at h
      · rename_i hbracket
        split at h
        · rename_i v after hdrop
          split at h
          · rename_i hclose
            have htail : tail = tail.takeWhile isDigit ++ v :: after := by
              rw [← hdrop, takeWhile_append_dropWhile]
            cases h
            rw [hbracket, htail, hclose.1]
            exact .index all_takeWhile hclose.2 hrest
          · cases h
        · cases h
      · cases h

theorem projections_of_takeSegments {fuel : Nat} {segments : List ProjectionSegment}
    (h : takeSegments plainNumeral fuel s = some segments) : Projections s := by
  induction fuel generalizing s segments with
  | zero =>
    cases s with
    | nil => exact .nil
    | cons u rest => cases h
  | succ fuel ih =>
    cases s with
    | nil => exact .nil
    | cons u rest =>
      rw [takeSegments] at h
      split at h
      · cases h
      · rename_i segment after htake
        obtain ⟨segments', hrest, -⟩ := Option.map_eq_some_iff.mp h
        exact of_takeSegment htake (ih hrest)

theorem isSome_takeSegments (h : Projections s) (fuel : Nat) (hfuel : s.length ≤ fuel) :
    (takeSegments plainNumeral fuel s).isSome = true := by
  induction h generalizing fuel with
  | nil => cases fuel <;> rfl
  | @field name rest hname hrest ih =>
    obtain ⟨fuel, rfl⟩ : ∃ n, fuel = n + 1 := ⟨fuel - 1, by simp at hfuel; omega⟩
    have htake : takeSegment plainNumeral (46 :: (name ++ rest)) = some (.field name, rest) := by
      rw [takeSegment]
      rw [if_pos rfl, takeIdentifier_append hname hrest.stops]
      rfl
    rw [takeSegments]
    rw [htake]
    simp only [Option.isSome_map]
    refine ih fuel ?_
    simp only [length_cons, length_append] at hfuel
    omega
  | @index digits rest hdigits hplain hrest ih =>
    obtain ⟨fuel, rfl⟩ : ∃ n, fuel = n + 1 := ⟨fuel - 1, by simp at hfuel; omega⟩
    have htake : takeSegment plainNumeral (91 :: (digits ++ 93 :: rest)) =
        some (.index (digitsValue digits), rest) := by
      obtain ⟨htakeWhile, hdropWhile⟩ := @digits_span digits rest hdigits
      rw [takeSegment]
      rw [if_neg (by decide), if_pos rfl, hdropWhile, htakeWhile]
      simp only
      rw [if_pos ⟨trivial, hplain⟩]
    rw [takeSegments]
    rw [htake]
    simp only [Option.isSome_map]
    refine ih fuel ?_
    simp only [length_cons, length_append] at hfuel
    omega

private theorem Projections.noTerminator (h : Projections suffix) :
    suffix.any isLineTerminator = false := by
  have hword : ∀ {u : UInt16}, isWord u = true → isLineTerminator u = false := by
    intro u hu
    rw [Bool.eq_false_iff]
    intro hterminator
    simp only [isLineTerminator, Bool.or_eq_true, beq_iff_eq] at hterminator
    rcases hterminator with ((rfl | rfl) | rfl) | rfl <;> revert hu <;> decide
  have hall : ∀ {word : JsString}, word.all isWord = true → word.any isLineTerminator = false := by
    intro word hall
    rw [any_eq_false]
    intro u hu
    rw [hword (all_eq_true.mp hall u hu)]
    simp
  induction h with
  | nil => rfl
  | @field name rest hname hrest ih =>
    rw [any_cons, any_append, hall hname.word.2, ih]
    decide
  | @index digits rest hdigits hplain hrest ih =>
    have hdigits' : digits.all isWord = true := by
      rw [all_eq_true] at hdigits ⊢
      intro u hu
      unfold isWord
      rw [hdigits u hu, Bool.or_true]
    rw [any_cons, any_append, hall hdigits', any_cons, ih]
    decide

private theorem afterInputs_bare (rest : JsString) : afterInputs (js "inputs." ++ rest) = some rest := by
  unfold afterInputs
  rw [if_neg, if_pos]
  · rfl
  · rw [startsWith, isPrefixOf_iff_prefix]
    exact prefix_append _ _
  · rw [startsWith, Bool.not_eq_true, ← Bool.not_eq_true, isPrefixOf_iff_prefix]
    rintro ⟨tail, htail⟩
    cases htail

private theorem afterInputs_dollar (rest : JsString) : afterInputs (js "$inputs." ++ rest) = some rest := by
  unfold afterInputs
  rw [if_pos]
  · rfl
  · rw [startsWith, isPrefixOf_iff_prefix]
    exact prefix_append _ _

private theorem of_afterInputs (h : afterInputs s = some rest) :
    s = js "$inputs." ++ rest ∨ s = js "inputs." ++ rest := by
  unfold afterInputs at h
  split at h
  · rename_i hpre
    rw [startsWith, isPrefixOf_iff_prefix] at hpre
    obtain ⟨tail, rfl⟩ := hpre
    cases h
    exact Or.inl rfl
  · split at h
    · rename_i hpre
      rw [startsWith, isPrefixOf_iff_prefix] at hpre
      obtain ⟨tail, rfl⟩ := hpre
      cases h
      exact Or.inr rfl
    · cases h

theorem parseInputsValueRef_append (hs : afterInputs s = some (slot ++ suffix))
    (hslot : Identifier slot) (hsuffix : Projections suffix) :
    ∃ ref, parseInputsValueRef s = some ref ∧ ref.slot = slot := by
  obtain ⟨segments, hsegments⟩ := Option.isSome_iff_exists.mp
      (isSome_takeSegments hsuffix suffix.length (Nat.le_refl _))
  refine ⟨⟨slot, segments⟩, ?_, rfl⟩
  unfold parseInputsValueRef parseProjection
  simp only [hs, Option.bind_some, takeIdentifier_append hslot hsuffix.stops, hsuffix.noTerminator, hsegments]
  rfl

theorem of_parseInputsValueRef {ref : InputsRef} (h : parseInputsValueRef s = some ref) :
    ∃ suffix, Identifier ref.slot ∧ Projections suffix ∧
    (s = js "$inputs." ++ (ref.slot ++ suffix) ∨ s = js "inputs." ++ (ref.slot ++ suffix)) := by
  obtain ⟨rest, hrest, h⟩ := Option.bind_eq_some_iff.mp h
  obtain ⟨⟨slot, suffix⟩, htake, h⟩ := Option.bind_eq_some_iff.mp h
  split at h
  · cases h
  · obtain ⟨segments, hsegments, rfl⟩ := Option.map_eq_some_iff.mp h
    obtain ⟨hslot, rfl⟩ := of_takeIdentifier htake
    exact ⟨suffix, hslot, projections_of_takeSegments hsegments, of_afterInputs hrest⟩

theorem inputsRe_dollar (hne : word ≠ []) (hword : word.all isWord = true) :
    inputsRe (js "$inputs." ++ word) = some word := by
  have hdrop : (js "$inputs." ++ word).drop 8 = word := rfl
  have hpre : startsWith (js "$inputs." ++ word) (js "$inputs.") = true := by
    rw [startsWith, isPrefixOf_iff_prefix]
    exact prefix_append _ _
  unfold inputsRe
  rw [hdrop, if_pos ⟨hpre, hne, hword⟩]

theorem of_inputsRe (h : inputsRe s = some word) :
    s = js "$inputs." ++ word ∧ word ≠ [] ∧ word.all isWord = true := by
  unfold inputsRe at h
  split at h
  · rename_i hre
    obtain ⟨hpre, hne, hword⟩ := hre
    rw [startsWith, isPrefixOf_iff_prefix] at hpre
    obtain ⟨tail, rfl⟩ := hpre
    cases h
    exact ⟨rfl, hne, hword⟩
  · cases h

/-- Scan and run time agree on a string exactly if it is none of those. -/
theorem agree_iff (s : JsString) : (parseInputsValueRef s).isSome = (inputsRe s).isSome ↔ ¬ Divergent s := by
  constructor
  · intro hagree hdivergent
    cases hdivergent with
    | @bare slot suffix hslot hsuffix =>
      obtain ⟨ref, href, -⟩ := parseInputsValueRef_append (afterInputs_bare _) hslot hsuffix
      rw [href, Option.isSome_some, eq_comm, Option.isSome_iff_exists] at hagree
      obtain ⟨word, hword⟩ := hagree
      cases (of_inputsRe hword).1
    | @projected slot suffix hslot hsuffix hne =>
      obtain ⟨ref, href, -⟩ := parseInputsValueRef_append (afterInputs_dollar _) hslot hsuffix
      rw [href, Option.isSome_some, eq_comm, Option.isSome_iff_exists] at hagree
      obtain ⟨word, hword⟩ := hagree
      obtain ⟨heq, -, hall⟩ := of_inputsRe hword
      rw [append_cancel_left heq.symm, all_append, Bool.and_eq_true] at hall
      cases suffix with
      | nil => exact hne rfl
      | cons u rest =>
        have hstop := hsuffix.stops u rfl
        rw [all_cons, hstop] at hall
        cases hall.2
    | @digit u rest hdigit hrest =>
      have hword : (u :: rest).all isWord = true := by
        rw [all_cons, hrest, isWord, hdigit, Bool.or_true, Bool.and_true]
      rw [inputsRe_dollar (by simp) hword, Option.isSome_some, Option.isSome_iff_exists] at hagree
      obtain ⟨ref, href⟩ := hagree
      obtain ⟨suffix, ⟨v, tail, hslot, hletter, -⟩, -, hs | hs⟩ := of_parseInputsValueRef href
      · rw [hslot] at hs
        have hsame := append_cancel_left hs
        rw [cons_append, List.cons.injEq] at hsame
        rw [← hsame.1, isLetter_eq_false_of_isDigit hdigit] at hletter
        cases hletter
      · cases hs
  · intro hnot
    rw [Bool.eq_iff_iff, Option.isSome_iff_exists, Option.isSome_iff_exists]
    constructor
    · rintro ⟨ref, href⟩
      obtain ⟨suffix, hslot, hsuffix, rfl | rfl⟩ := of_parseInputsValueRef href
      · by_cases hne : suffix = []
        · subst hne
          rw [append_nil]
          exact ⟨ref.slot, inputsRe_dollar hslot.word.1 hslot.word.2⟩
        · exact absurd (.projected hslot hsuffix hne) hnot
      · exact absurd (.bare hslot hsuffix) hnot
    · rintro ⟨word, hword⟩
      obtain ⟨rfl, hne, hall⟩ := of_inputsRe hword
      cases word with
      | nil => exact absurd rfl hne
      | cons u rest =>
        rw [all_cons, Bool.and_eq_true] at hall
        cases hdigit : isDigit u with
        | true => exact absurd (.digit hdigit hall.2) hnot
        | false =>
          have hletter : isLetter u = true := by
            have hu := hall.1
            rw [isWord, hdigit, Bool.or_false] at hu
            exact hu
          have hafter : afterInputs (js "$inputs." ++ u :: rest) = some ((u :: rest) ++ []) := by
            rw [append_nil]
            exact afterInputs_dollar _
          obtain ⟨ref, href, -⟩ := parseInputsValueRef_append hafter ⟨u, rest, rfl, hletter, hall.2⟩ .nil
          exact ⟨ref, href⟩

/-- Where they agree, they read the same slot. -/
theorem inputsRe_of_agree (h : ¬ Divergent s) {ref : InputsRef} (href : parseInputsValueRef s = some ref) :
    inputsRe s = some ref.slot := by
  obtain ⟨suffix, hslot, hsuffix, rfl | rfl⟩ := of_parseInputsValueRef href
  · by_cases hne : suffix = []
    · subst hne
      rw [append_nil]
      exact inputsRe_dollar hslot.word.1 hslot.word.2
    · exact absurd (.projected hslot hsuffix hne) h
  · exact absurd (.bare hslot hsuffix) h

mutual

def templateStrings : Json → List JsString
  | .str value => [value]
  | .arr items => itemStrings items
  | .obj members => if (soleConst members).isSome then [] else memberStrings members
  | _ => []

def itemStrings : List Json → List JsString
  | [] => []
  | item :: rest => templateStrings item ++ itemStrings rest

def memberStrings : List (JsString × Json) → List JsString
  | [] => []
  | (_, value) :: rest => templateStrings value ++ memberStrings rest

end

mutual

theorem collectInputsRefs_eq : ∀ value, collectInputsRefs value = (templateStrings value).filterMap inputsRe
  | .null => rfl
  | .bool _ => rfl
  | .num _ => rfl
  | .str value => by
    rw [collectInputsRefs, templateStrings]
    cases h : inputsRe value <;> simp [h]
  | .arr items => by
    rw [collectInputsRefs, templateStrings, collectItemRefs_eq]
  | .obj members => by
    rw [collectInputsRefs, templateStrings]
    split
    · rfl
    · exact collectMemberRefs_eq members

theorem collectItemRefs_eq : ∀ items, collectItemRefs items = (itemStrings items).filterMap inputsRe
  | [] => rfl
  | item :: rest => by
    rw [collectItemRefs, itemStrings, List.filterMap_append, collectInputsRefs_eq, collectItemRefs_eq]

theorem collectMemberRefs_eq : ∀ members, collectMemberRefs members = (memberStrings members).filterMap inputsRe
  | [] => rfl
  | (key, value) :: rest => by
    rw [collectMemberRefs, memberStrings, List.filterMap_append, collectInputsRefs_eq, collectMemberRefs_eq]

end

mutual

variable {inputs : JsonObject} {error : ExecutionError}

/-- A template fails at one of these strings. -/
theorem exists_string_of_error :
    ∀ value, resolveActionTemplate inputs value = .error error → ∃ s ∈ templateStrings value, resolveString inputs s =
    .error error
  | .null => fun h => by cases h
  | .bool _ => fun h => by cases h
  | .num _ => fun h => by cases h
  | .str value => fun h => ⟨value, by simp [templateStrings], h⟩
  | .arr items => by
    intro h
    rw [resolveActionTemplate] at h
    split at h <;> cases h
    rename_i error' hitems
    exact exists_string_of_itemError items hitems
  | .obj members => by
    intro h
    rw [resolveActionTemplate] at h
    split at h
    · cases h
    rename_i hconst
    split at h <;> cases h
    rename_i error' hmembers
    rw [templateStrings, hconst]
    exact exists_string_of_memberError members hmembers

theorem exists_string_of_itemError :
    ∀ items, resolveTemplateItems inputs items = .error error → ∃ s ∈ itemStrings items, resolveString inputs s =
    .error error
  | [] => fun h => by cases h
  | item :: rest => by
    intro h
    rw [resolveTemplateItems] at h
    rw [itemStrings]
    split at h
    · rename_i error' hitem
      cases h
      obtain ⟨s, hs, herror⟩ := exists_string_of_error item hitem
      exact ⟨s, List.mem_append_left _ hs, herror⟩
    split at h <;> cases h
    rename_i error' hrest
    obtain ⟨s, hs, herror⟩ := exists_string_of_itemError rest hrest
    exact ⟨s, List.mem_append_right _ hs, herror⟩

theorem exists_string_of_memberError :
    ∀ members, resolveTemplateMembers inputs members = .error error →
    ∃ s ∈ memberStrings members, resolveString inputs s = .error error
  | [] => fun h => by cases h
  | (key, value) :: rest => by
    intro h
    rw [resolveTemplateMembers] at h
    rw [memberStrings]
    split at h
    · rename_i error' hvalue
      cases h
      obtain ⟨s, hs, herror⟩ := exists_string_of_error value hvalue
      exact ⟨s, List.mem_append_left _ hs, herror⟩
    split at h <;> cases h
    rename_i error' hrest
    obtain ⟨s, hs, herror⟩ := exists_string_of_memberError rest hrest
    exact ⟨s, List.mem_append_right _ hs, herror⟩

end

/-- The error of an absent slot names a slot that the string refers to. -/
theorem ref_of_slotAbsent (h : resolveString inputs s = .error (slotAbsent slot)) :
    ∃ ref, parseInputsValueRef s = some ref ∧ ref.slot = slot := by
  unfold resolveString at h
  split at h
  · cases h
  rename_i ref href
  split at h
  · refine ⟨ref, href, ?_⟩
    simp only [slotAbsent, inputResolveFailed, Except.error.injEq, ExecutionError.mk.injEq, true_and, and_true] at h
    exact append_cancel_left (append_cancel_right h)
  · split at h
    · cases h
    · cases h

/-! ### Accepted graphs -/

variable {node : Node} {id : NodeId} {contracts : Contracts} {current g : Graph} {ops : List PatchOperation}
  {states : NodeId → Option NodeRunState}

theorem exists_image_of_accepted (h : validateTaskGraphPostImage contracts.withWiring current ops states = .ok g)
    (hget : g.nodes.get id = some node) : ∃ node', node'.action = node.action ∧ node'.input = node.input ∧
    referenceIssues (materialize contracts ⟨current.revision, imageNodes current ops⟩) id node' = [] := by
  unfold validateTaskGraphPostImage at h
  simp only at h
  split at h
  · rename_i hissues
    simp only [List.isEmpty_iff, List.append_eq_nil_iff] at hissues
    obtain ⟨⟨⟨⟨⟨⟨hops, -⟩, -⟩, -⟩, -⟩, -⟩, hfurther⟩ := hissues
    rw [(patchedImage_applied hops).1] at h hfurther
    cases h
    unfold materialize at hget
    rw [OMap.get_map, Option.map_eq_some_iff] at hget
    obtain ⟨node', hget', rfl⟩ := hget
    refine ⟨node', rfl, rfl, ?_⟩
    have hwiring : wiringIssues contracts ⟨current.revision, imageNodes current ops⟩ = [] :=
      (List.append_eq_nil_iff.mp hfurther).2
    unfold wiringIssues at hwiring
    rw [List.flatMap_eq_nil_iff] at hwiring
    exact (List.append_eq_nil_iff.mp (hwiring _ (OMap.mem_of_get hget'))).2
  · cases h

private theorem mem_slotSchemas {materialized : Graph}
    (h : (slotSchemas materialized id node).has slot = true) : slot ∈ node.input.map NodeInput.name := by
  have hfold : ∀ (slots : List NodeInput) (acc : OMap JsString JsonObject),
      (slots.foldl (fun schemas slot =>
        match slotSchema materialized id slot with
        | .error _ => schemas
        | .ok schema => schemas.set slot.name schema) acc).has slot = true →
      acc.has slot = true ∨ slot ∈ slots.map NodeInput.name := by
    intro slots
    induction slots with
    | nil => exact fun acc h => Or.inl h
    | cons first rest ih =>
      intro acc h
      rw [foldl_cons] at h
      rw [map_cons, mem_cons]
      rcases ih _ h with hacc | hrest
      · split at hacc
        · exact Or.inl hacc
        rw [OMap.has_set, Bool.or_eq_true, decide_eq_true_eq] at hacc
        rcases hacc with hname | hacc
        · exact Or.inr (Or.inl hname.symm)
        · exact Or.inl hacc
      · exact Or.inr (Or.inr hrest)
  rcases hfold node.input [] h with hnil | hmem
  · cases hnil
  · exact hmem

/-- A slot the scan finds in the parameters of a node of an accepted graph is declared. -/
theorem declared_of_accepted (h : validateTaskGraphPostImage contracts.withWiring current ops states = .ok g)
    (hget : g.nodes.get id = some node) (hs : s ∈ templateStrings (.obj node.action.params))
    (hslot : inputsRe s = some slot) : slot ∈ node.input.map NodeInput.name := by
  obtain ⟨node', haction, hinput, hissues⟩ := exists_image_of_accepted h hget
  rw [← hinput]
  have hreferred : slot ∈ referredSlots node' := by
    unfold referredSlots
    rw [OSet.mem_ofList, mem_append, collectInputsRefs_eq, mem_filterMap, haction]
    exact Or.inl ⟨s, hs, hslot⟩
  unfold referenceIssues at hissues
  rw [map_eq_nil_iff, filter_eq_nil_iff] at hissues
  exact mem_slotSchemas (by simpa using hissues slot hreferred)

/-- One grammar for the references of a node: of the strings of its parameters, literals apart, scan and run time
recognise the same; a slot that is read is declared; and no dispatch fails for an undeclared one. -/
structure OneGrammar (node : Node) : Prop where
  recognised : ∀ s ∈ templateStrings (.obj node.action.params), (parseInputsValueRef s).isSome = (inputsRe s).isSome
  declared : ∀ s ∈ templateStrings (.obj node.action.params), ∀ ref, parseInputsValueRef s = some ref →
    ref.slot ∈ node.input.map NodeInput.name
  dispatched : ∀ inputs slot, resolveActionTemplate inputs (.obj node.action.params) = .error (slotAbsent slot) →
    slot ∈ node.input.map NodeInput.name

/-- **One reference grammar**, for a node of an accepted graph: exactly if no string of its parameters, literals
apart, is a reference without the dollar sign, one with projections, or one whose slot begins with a digit. -/
theorem one_grammar_iff {contracts : Contracts} {current g : Graph} {ops : List PatchOperation}
    {states : NodeId → Option NodeRunState}
    (h : validateTaskGraphPostImage contracts.withWiring current ops states = .ok g) {id : NodeId} {node : Node}
    (hget : g.nodes.get id = some node) :
    OneGrammar node ↔ ∀ s ∈ templateStrings (.obj node.action.params), ¬ Divergent s := by
  constructor
  · intro hgrammar s hs
    exact (agree_iff s).mp (hgrammar.recognised s hs)
  · intro hall
    have hdeclared : ∀ s ∈ templateStrings (.obj node.action.params), ∀ ref, parseInputsValueRef s = some ref →
        ref.slot ∈ node.input.map NodeInput.name := by
      intro s hs ref href
      exact declared_of_accepted h hget hs (inputsRe_of_agree (hall s hs) href)
    refine ⟨fun s hs => (agree_iff s).mpr (hall s hs), hdeclared, fun inputs slot herror => ?_⟩
    obtain ⟨s, hs, herror⟩ := exists_string_of_error _ herror
    obtain ⟨ref, href, rfl⟩ := ref_of_slotAbsent herror
    exact hdeclared s hs ref href

def sampleReferring (text : JsString) : Graph where
  revision := 1
  nodes := [
    (js "start", ⟨js "start", ⟨.start, []⟩, [], [], [(js "type", .str (js "object"))],
      [(js "type", .str (js "object")), (js "properties",
        .obj [(js "topic", .obj [(js "type", .str (js "string"))])])]⟩),
    (js "work", ⟨js "work",
      ⟨.task, [(js "name", .str (js "build")), (js "project", .str (js "app")),
        (js "input", .obj [(js "text", .str text)])]⟩,
      [js "start"], [⟨js "topic", js "start.topic", false⟩], [(js "type", .str (js "object"))],
      [(js "type", .str (js "object"))]⟩)]

def sampleReferringNode (text : JsString) : Option (Graph × Node) :=
  (validateTaskGraphPostImage (sampleEnv none (.ok ())).contracts.withWiring ⟨1, []⟩
      ((sampleReferring text).nodes.map fun entry => .addNode entry.2) fun _ => none).toOption.bind fun g =>
    (g.nodes.get (js "work")).map fun node => (g, node)

private theorem accepted_of_sample {text : JsString} {g : Graph}
    (h : sampleReferringNode text = some (g, node)) :
    validateTaskGraphPostImage (sampleEnv none (.ok ())).contracts.withWiring ⟨1, []⟩
        ((sampleReferring text).nodes.map fun entry => .addNode entry.2) (fun _ => none) = .ok g ∧
      g.nodes.get (js "work") = some node := by
  obtain ⟨g', hg, h⟩ := Option.bind_eq_some_iff.mp h
  obtain ⟨node', hnode, heq⟩ := Option.map_eq_some_iff.mp h
  cases heq
  refine ⟨?_, hnode⟩
  cases hvalid : validateTaskGraphPostImage (sampleEnv none (.ok ())).contracts.withWiring ⟨1, []⟩
      ((sampleReferring text).nodes.map fun entry => .addNode entry.2) (fun _ => none) with
  | error issues =>
    rw [hvalid] at hg
    cases hg
  | ok g' =>
    rw [hvalid] at hg
    cases hg
    rfl

/-- The task refers to its slot. -/
theorem one_grammar_slot : ∃ g node, sampleReferringNode (js "$inputs.topic") = some (g, node) ∧ OneGrammar node := by
  have hany : ((sampleReferringNode (js "$inputs.topic")).any fun r =>
      (templateStrings (.obj r.2.action.params)).all fun s =>
        (parseInputsValueRef s).isSome = (inputsRe s).isSome) = true := by
    decide
  rw [Option.any_eq_true] at hany
  obtain ⟨⟨g, node⟩, hnode, hall⟩ := hany
  obtain ⟨hvalid, hget⟩ := accepted_of_sample hnode
  refine ⟨g, node, hnode, (one_grammar_iff hvalid hget).mpr fun s hs => (agree_iff s).mp ?_⟩
  exact of_decide_eq_true (List.all_eq_true.mp hall s hs)

/-- The payload reads `inputs.missing`: the graph is accepted, and the task cannot be dispatched for a slot that is
not declared. -/
theorem one_grammar_fails : ¬ ∀ contracts current ops states g id node,
    validateTaskGraphPostImage (Contracts.withWiring contracts) current ops states = .ok g →
    g.nodes.get id = some node → OneGrammar node := by
  intro hall
  have hany : ((sampleReferringNode (js "inputs.missing")).any fun r =>
      decide (resolveActionTemplate [(js "topic", .str (js "news"))] (.obj r.2.action.params) =
        .error (slotAbsent (js "missing"))) && decide (js "missing" ∉ r.2.input.map NodeInput.name)) = true := by
    decide
  rw [Option.any_eq_true] at hany
  obtain ⟨⟨g, node⟩, hnode, hfails⟩ := hany
  rw [Bool.and_eq_true, decide_eq_true_eq, decide_eq_true_eq] at hfails
  obtain ⟨hvalid, hget⟩ := accepted_of_sample hnode
  exact hfails.2 ((hall _ _ _ _ g _ node hvalid hget).dispatched _ _ hfails.1)

end Wrenyard.TaskGraph
