import Wrenyard.Js.Utf8

/-!
# Decoding a text piece by piece

The bytes of a text are cut into chunks and every chunk is decoded for itself.  A cut between two characters does no
harm.  A cut inside a character loses it: its bytes on the two sides become at least two U+FFFD.  So what comes out is
the text with some characters outside ASCII replaced (`Garbled`), and it is the text itself exactly if every chunk is
well-formed UTF-8 (`garbled_decodeChunks`, `decodeChunks_eq_iff`).
-/

namespace Js

open List

/-- U+FFFD, which stands for bytes that are no character. -/
def replacement : UInt16 := 0xFFFD

def isUtf8 (bs : List UInt8) : Bool := encodeUtf8 (decodeUtf8 bs) = bs

/-- The second text is the first one after some characters outside ASCII were lost, each for two or more U+FFFD. -/
inductive Garbled : JsString → JsString → Prop where
  | nil : Garbled [] []
  | keep (u : UInt16) {s t : JsString} : Garbled s t → Garbled (u :: s) (u :: t)
  | lost {c n : Nat} {s t : JsString} : IsScalar c → 0x80 ≤ c → 2 ≤ n → Garbled s t →
      Garbled (unitsOfPoint c ++ s) (List.replicate n replacement ++ t)

variable {s : JsString}

namespace Garbled

variable {t : JsString}

theorem append_left (a : JsString) (h : Garbled s t) : Garbled (a ++ s) (a ++ t) := by
  induction a with
  | nil => exact h
  | cons u a ih => exact .keep u ih

theorem eq_nil (h : Garbled [] t) : t = [] := by
  generalize hs : ([] : JsString) = s at h
  cases h with
  | nil => rfl
  | keep u h => cases hs
  | lost hc _ _ _ =>
    unfold unitsOfPoint at hs
    split at hs
    · cases hs
    · cases hs

end Garbled

/-- The bytes `0x80` to `0xBF`, which only continue a character. -/
def IsContinuation (b : UInt8) : Prop := 0x80 ≤ b.toNat ∧ b.toNat < 0xC0

theorem decodeUtf8_nil : decodeUtf8 [] = [] := rfl

theorem decodeUtf8_continuation {b : UInt8} (h : IsContinuation b) (bs : List UInt8) :
    decodeUtf8 (b :: bs) = replacement :: decodeUtf8 bs := by
  obtain ⟨h1, h2⟩ := h
  have hlead : utf8Lead b.toNat = ([0xFFFD], .idle) := by
    unfold utf8Lead
    rw [if_neg (by omega), if_neg (by simp; omega), if_neg (by simp; omega), if_neg (by simp; omega)]
  unfold decodeUtf8
  rw [utf8Points, utf8Step_idle, hlead]
  rfl

variable {c : Nat}

theorem decodeUtf8_utf8Bytes (hs : IsScalar c) (bs : List UInt8) :
    decodeUtf8 (utf8Bytes c ++ bs) = unitsOfPoint c ++ decodeUtf8 bs := by
  unfold decodeUtf8
  rw [utf8Points_utf8Bytes hs, flatMap_cons]

private theorem isContinuation_ofNat {n : Nat} (h : n < 0x40) : IsContinuation (UInt8.ofNat (0x80 + n)) := by
  unfold IsContinuation
  rw [toNat_byte (by omega)]
  omega

/-- The bytes are owed to a character the decoder has begun. -/
inductive Inside : Utf8State → List UInt8 → Prop where
  | last {st : Utf8State} {b : UInt8} : st.needed ≠ 0 → IsContinuation b → Inside st [b]
  | more {st st' : Utf8State} {b : UInt8} {bs : List UInt8} : st.needed ≠ 0 → IsContinuation b →
      utf8Step st b.toNat = ([], st') → Inside st' bs → Inside st (b :: bs)

variable {bs : List UInt8}

theorem Inside.isContinuation {st : Utf8State} (h : Inside st bs) : ∀ b ∈ bs, IsContinuation b := by
  induction h with
  | last _ hb =>
    intro b hmem
    rw [mem_singleton.1 hmem]
    exact hb
  | more _ hb _ _ ih =>
    intro b hmem
    rcases mem_cons.1 hmem with rfl | hmem
    · exact hb
    · exact ih b hmem

theorem Inside.utf8Points_prefix {st : Utf8State} {p q : List UInt8} (h : Inside st (p ++ q)) (hq : q ≠ []) :
    utf8Points st p = [0xFFFD] := by
  induction p generalizing st with
  | nil =>
    have hn : st.needed ≠ 0 := by
      cases h with
      | last hn _ => exact hn
      | more hn _ _ _ => exact hn
    rw [utf8Points, if_neg hn]
  | cons b p ih =>
    rw [cons_append] at h
    generalize hbs : p ++ q = bs at h
    cases h with
    | last _ _ => exact absurd (append_eq_nil_iff.1 hbs).2 hq
    | more _ _ hstep hrest =>
      rw [utf8Points, hstep]
      exact ih (hbs ▸ hrest)

theorem utf8Bytes_inside (hs : IsScalar c) (h : 0x80 ≤ c) :
    ∃ b bs st, utf8Bytes c = b :: bs ∧ utf8Lead b.toNat = ([], st) ∧ Inside st bs := by
  have hc : c < 0x110000 := by
    unfold IsScalar at hs
    omega
  have hcont : ∀ n, n < 0x40 → (UInt8.ofNat (0x80 + n)).toNat = 0x80 + n ∧ IsContinuation (UInt8.ofNat (0x80 + n)) :=
    fun n hn => ⟨toNat_byte (by omega), isContinuation_ofNat hn⟩
  obtain ⟨-, h0⟩ := hcont (c % 0x40) (by omega)
  obtain ⟨e1, h1⟩ := hcont (c / 0x40 % 0x40) (by omega)
  obtain ⟨e2, h2⟩ := hcont (c / 0x1000 % 0x40) (by omega)
  unfold utf8Bytes
  rw [if_neg (by omega)]
  split
  · refine ⟨_, _, ⟨1, c / 0x40, 0x80, 0xBF⟩, rfl, ?_, .last Nat.one_ne_zero h0⟩
    rw [toNat_byte (by omega)]
    exact utf8Lead_two h (by omega)
  have hlast : Inside ⟨1, c / 0x40, 0x80, 0xBF⟩ [UInt8.ofNat (0x80 + c % 0x40)] := .last Nat.one_ne_zero h0
  split
  · have hlead := @utf8Lead_three c (by omega) (by omega)
    have hstep := @utf8Step_three c (by omega) (by omega) hs
    rw [← toNat_byte (show 0xE0 + c / 0x1000 < 256 by omega)] at hlead
    rw [← e1] at hstep
    exact ⟨_, _, _, rfl, hlead, .more (Nat.succ_ne_zero 1) h1 hstep hlast⟩
  · have hmiddle : Inside ⟨2, c / 0x1000, 0x80, 0xBF⟩
        [UInt8.ofNat (0x80 + c / 0x40 % 0x40), UInt8.ofNat (0x80 + c % 0x40)] := by
      refine .more (Nat.succ_ne_zero 1) h1 ?_ hlast
      rw [e1]
      exact utf8Step_middle c
    have hlead := @utf8Lead_four c (by omega) hc
    have hstep := @utf8Step_four c (by omega) hc
    rw [← toNat_byte (show 0xF0 + c / 0x40000 < 256 by omega)] at hlead
    rw [← e2] at hstep
    exact ⟨_, _, _, rfl, hlead, .more (Nat.succ_ne_zero 2) h2 hstep hmiddle⟩

theorem decodeUtf8_cut (hs : IsScalar c) {p q : List UInt8} (h : utf8Bytes c = p ++ q) (hp : p ≠ [])
    (hq : q ≠ []) : 0x80 ≤ c ∧ decodeUtf8 p = [replacement] ∧ ∀ b ∈ q, IsContinuation b := by
  obtain ⟨a, p, rfl⟩ := exists_cons_of_ne_nil hp
  rcases Nat.lt_or_ge c 0x80 with hlt | hge
  · unfold utf8Bytes at h
    rw [if_pos hlt, cons_append] at h
    exact absurd (append_eq_nil_iff.1 (List.cons.inj h).2.symm).2 hq
  obtain ⟨b, bs, st, hbytes, hlead, hinside⟩ := utf8Bytes_inside hs hge
  rw [hbytes, cons_append] at h
  obtain ⟨rfl, rfl⟩ := List.cons.inj h
  refine ⟨hge, ?_, fun x hx => hinside.isContinuation x (mem_append_right p hx)⟩
  unfold decodeUtf8
  rw [utf8Points, utf8Step_idle, hlead, nil_append, hinside.utf8Points_prefix hq]
  rfl

theorem codePoints_unitsOfPoint (hs : IsScalar c) (s : JsString) :
    codePoints (unitsOfPoint c ++ s) = c :: codePoints s := by
  unfold IsScalar at hs
  unfold unitsOfPoint
  split
  · have hc : (UInt16.ofNat c).toNat = c := by
      exact Nat.mod_eq_of_lt (by omega)
    have hu : (isHigh (UInt16.ofNat c) || isLow (UInt16.ofNat c)) = false := by
      simp only [isHigh, isLow, hc, Bool.or_eq_false_iff, Bool.and_eq_false_iff, decide_eq_false_iff_not]
      omega
    rw [cons_append, nil_append, codePoints_cons hu, hc]
  · have e1 : (UInt16.ofNat (0xD800 + (c - 0x10000) / 0x400)).toNat = 0xD800 + (c - 0x10000) / 0x400 := by
      rw [UInt16.toNat_ofNat']
      exact Nat.mod_eq_of_lt (by omega)
    have e2 : (UInt16.ofNat (0xDC00 + (c - 0x10000) % 0x400)).toNat = 0xDC00 + (c - 0x10000) % 0x400 := by
      rw [UInt16.toNat_ofNat']
      exact Nat.mod_eq_of_lt (by omega)
    have hpair : (isHigh (UInt16.ofNat (0xD800 + (c - 0x10000) / 0x400)) &&
        isLow (UInt16.ofNat (0xDC00 + (c - 0x10000) % 0x400))) = true := by
      simp only [isHigh, isLow, e1, e2, Bool.and_eq_true, decide_eq_true_eq]
      omega
    have hpoint : 0x10000 + (0xD800 + (c - 0x10000) / 0x400 - 0xD800) * 0x400 +
        (0xDC00 + (c - 0x10000) % 0x400 - 0xDC00) = c := by omega
    rw [cons_append, cons_append, nil_append, codePoints, if_pos hpair, e1, e2, hpoint]

variable {cs : List Nat}

theorem codePoints_flatMap (h : ∀ c ∈ cs, IsScalar c) : codePoints (cs.flatMap unitsOfPoint) = cs := by
  induction cs with
  | nil => rfl
  | cons c cs ih =>
    rw [flatMap_cons, codePoints_unitsOfPoint (h c (mem_cons_self ..)),
      ih fun d hd => h d (mem_cons_of_mem _ hd)]

theorem decodeUtf8_flatMap (h : ∀ c ∈ cs, IsScalar c) (bs : List UInt8) :
    decodeUtf8 (cs.flatMap utf8Bytes ++ bs) = cs.flatMap unitsOfPoint ++ decodeUtf8 bs := by
  induction cs with
  | nil => rfl
  | cons c cs ih =>
    rw [flatMap_cons, flatMap_cons, append_assoc, append_assoc,
      decodeUtf8_utf8Bytes (h c (mem_cons_self ..)), ih fun d hd => h d (mem_cons_of_mem _ hd)]

theorem decodeUtf8_points (h : ∀ c ∈ cs, IsScalar c) :
    decodeUtf8 (cs.flatMap utf8Bytes) = cs.flatMap unitsOfPoint := by
  have hall := decodeUtf8_flatMap h []
  rwa [append_nil, decodeUtf8_nil, append_nil] at hall

theorem isUtf8_iff : isUtf8 bs = true ↔ ∃ cs : List Nat, (∀ c ∈ cs, IsScalar c) ∧ bs = cs.flatMap utf8Bytes := by
  unfold isUtf8
  rw [decide_eq_true_eq]
  constructor
  · intro h
    exact ⟨_, isScalar_of_mem_codePoints, h.symm⟩
  · rintro ⟨cs, hcs, rfl⟩
    rw [decodeUtf8_points hcs, encodeUtf8, codePoints_flatMap hcs]

/-! ### Chunks -/

def decodeChunks (chunks : List (List UInt8)) : JsString := chunks.flatMap decodeUtf8

@[simp] theorem decodeChunks_cons (chunk : List UInt8) (chunks : List (List UInt8)) :
    decodeChunks (chunk :: chunks) = decodeUtf8 chunk ++ decodeChunks chunks := rfl

variable {chunks : List (List UInt8)}

theorem decodeUtf8_flatten (h : ∀ chunk ∈ chunks, isUtf8 chunk = true) :
    decodeUtf8 chunks.flatten = decodeChunks chunks := by
  induction chunks with
  | nil => rfl
  | cons chunk chunks ih =>
    obtain ⟨cs, hcs, rfl⟩ := isUtf8_iff.1 (h chunk (mem_cons_self ..))
    rw [flatten_cons, decodeUtf8_flatMap hcs, decodeChunks_cons, decodeUtf8_points hcs,
      ih fun c hc => h c (mem_cons_of_mem _ hc)]

theorem decodeChunks_first {b : UInt8} (h : chunks.flatten = b :: bs) : ∃ d rest, bs = d ++ rest.flatten ∧
    decodeChunks chunks = decodeUtf8 (b :: d) ++ decodeChunks rest ∧ ∀ chunk ∈ chunks, chunk = [] ∨ chunk = b :: d ∨
    chunk ∈ rest := by
  induction chunks with
  | nil => cases h
  | cons chunk chunks ih =>
    cases chunk with
    | nil =>
      obtain ⟨d, rest, hbs, hdecode, hmem⟩ := ih h
      refine ⟨d, rest, hbs, hdecode, ?_⟩
      intro c hc
      rcases mem_cons.1 hc with rfl | hc
      · exact .inl rfl
      · exact hmem c hc
    | cons a d =>
      obtain ⟨rfl, rfl⟩ := List.cons.inj h
      refine ⟨d, chunks, rfl, rfl, ?_⟩
      intro c hc
      exact .inr (mem_cons.1 hc)

theorem decodeChunks_continuation {conts : List UInt8} (hc : ∀ b ∈ conts, IsContinuation b)
    (h : chunks.flatten = conts ++ bs) :
    ∃ rest, rest.flatten = bs ∧ decodeChunks chunks = List.replicate conts.length replacement ++
    decodeChunks rest := by
  induction conts generalizing chunks with
  | nil => exact ⟨chunks, h, rfl⟩
  | cons b conts ih =>
    obtain ⟨d, rest, hbs, hdecode, -⟩ := decodeChunks_first h
    have hrest : (d :: rest).flatten = conts ++ bs := hbs.symm
    obtain ⟨rest', hflat, hdecode'⟩ := ih (fun x hx => hc x (mem_cons_of_mem _ hx)) hrest
    refine ⟨rest', hflat, ?_⟩
    rw [hdecode, decodeUtf8_continuation (hc b (mem_cons_self ..)), cons_append, ← decodeChunks_cons,
      hdecode', length_cons, replicate_succ, cons_append]

private theorem count_unitsOfPoint (hs : IsScalar c) : (unitsOfPoint c).count replacement ≤ 1 := by
  unfold IsScalar at hs
  unfold unitsOfPoint
  split
  · exact count_le_length
  have hne : UInt16.ofNat (0xD800 + (c - 0x10000) / 0x400) ≠ replacement := by
    intro heq
    have hval := congrArg UInt16.toNat heq
    rw [UInt16.toNat_ofNat', Nat.mod_eq_of_lt (by omega)] at hval
    have : 0xD800 + (c - 0x10000) / 0x400 = 0xFFFD := hval
    omega
  rw [count_cons_of_ne hne]
  exact count_le_length

theorem Garbled.count_le (h : Garbled s t) : s.count replacement ≤ t.count replacement := by
  induction h with
  | nil => exact Nat.le_refl _
  | keep u _ ih =>
    rw [count_cons, count_cons]
    omega
  | @lost c n s t hs _ hn _ ih =>
    have := count_unitsOfPoint hs
    rw [count_append, count_append, count_replicate_self]
    omega

theorem garbled_of_chunks (hcs : ∀ c ∈ cs, IsScalar c) (h : chunks.flatten = cs.flatMap utf8Bytes) :
    Garbled (cs.flatMap unitsOfPoint) (decodeChunks chunks) ∧
      ((∀ chunk ∈ chunks, isUtf8 chunk = true) ∨
        (cs.flatMap unitsOfPoint).count replacement < (decodeChunks chunks).count replacement) := by
  induction cs generalizing chunks with
  | nil =>
    have hnil : ∀ chunk ∈ chunks, chunk = [] := flatten_eq_nil_iff.1 h
    have hdecode : decodeChunks chunks = [] := flatMap_eq_nil_iff.2 fun chunk hchunk => by rw [hnil chunk hchunk]; rfl
    rw [hdecode]
    refine ⟨.nil, .inl fun chunk hchunk => ?_⟩
    rw [hnil chunk hchunk]
    rfl
  | cons c cs ih =>
    have hc := hcs c (mem_cons_self ..)
    have hcs' : ∀ d ∈ cs, IsScalar d := fun d hd => hcs d (mem_cons_of_mem _ hd)
    obtain ⟨b, bs, hbytes⟩ : ∃ b bs, utf8Bytes c = b :: bs := by
      unfold utf8Bytes
      repeat' split
      all_goals exact ⟨_, _, rfl⟩
    rw [flatMap_cons, hbytes, cons_append] at h
    obtain ⟨d, rest, hd, hdecode, hmem⟩ := decodeChunks_first h
    -- the first chunk holds the whole character, or ends inside it
    by_cases hwhole : ∃ a, d = bs ++ a ∧ cs.flatMap utf8Bytes = a ++ rest.flatten
    · obtain ⟨a, rfl, ha⟩ := hwhole
      have hfirst : b :: (bs ++ a) = utf8Bytes c ++ a := by rw [hbytes, cons_append]
      obtain ⟨hgarbled, hvalid⟩ := ih hcs' (show (a :: rest).flatten = cs.flatMap utf8Bytes from ha.symm)
      have htotal : decodeChunks chunks = unitsOfPoint c ++ decodeChunks (a :: rest) := by
        rw [hdecode, hfirst, decodeUtf8_utf8Bytes hc, append_assoc, decodeChunks_cons]
      rw [htotal, flatMap_cons]
      refine ⟨hgarbled.append_left _, ?_⟩
      rcases hvalid with hvalid | hmore
      · refine .inl fun chunk hchunk => ?_
        rcases hmem chunk hchunk with rfl | rfl | hchunk
        · rfl
        · obtain ⟨ds, hds, rfl⟩ := isUtf8_iff.1 (hvalid a (mem_cons_self ..))
          rw [hfirst]
          refine isUtf8_iff.2 ⟨c :: ds, ?_, by rw [flatMap_cons]⟩
          intro x hx
          rcases mem_cons.1 hx with rfl | hx
          · exact hc
          · exact hds x hx
        · exact hvalid chunk (mem_cons_of_mem _ hchunk)
      · rw [count_append, count_append]
        exact .inr (Nat.add_lt_add_left hmore _)
    · obtain ⟨q, hbs, hq, hne⟩ : ∃ q, bs = d ++ q ∧ rest.flatten = q ++ cs.flatMap utf8Bytes ∧ q ≠ [] := by
        rcases append_eq_append_iff.1 hd with ⟨a, hda, ha⟩ | ⟨q, hdq, hq⟩
        · exact absurd ⟨a, hda, ha⟩ hwhole
        refine ⟨q, hdq, hq, ?_⟩
        rintro rfl
        rw [append_nil] at hdq
        exact hwhole ⟨[], by rw [append_nil, hdq], hq.symm⟩
      have hcut : utf8Bytes c = (b :: d) ++ q := by rw [hbytes, hbs, cons_append]
      obtain ⟨hge, hprefix, hconts⟩ := decodeUtf8_cut hc hcut (cons_ne_nil b d) hne
      obtain ⟨rest', hflat, hrest'⟩ := decodeChunks_continuation hconts hq
      obtain ⟨hgarbled, -⟩ := ih hcs' hflat
      have hlost : decodeChunks chunks = List.replicate (q.length + 1) replacement ++ decodeChunks rest' := by
        rw [hdecode, hprefix, hrest', replicate_succ]
        rfl
      have hlen : 0 < q.length := length_pos_iff.2 hne
      rw [hlost, flatMap_cons]
      refine ⟨.lost hc hge (by omega) hgarbled, .inr ?_⟩
      have hone := count_unitsOfPoint hc
      have hle := hgarbled.count_le
      rw [count_append, count_append, count_replicate_self]
      omega

theorem decodeChunks_eq_iff (hs : isWellFormed s = true) (h : chunks.flatten = encodeUtf8 s) :
    decodeChunks chunks = s ↔ ∀ chunk ∈ chunks, isUtf8 chunk = true := by
  constructor
  · intro heq
    rcases (garbled_of_chunks isScalar_of_mem_codePoints h).2 with hvalid | hmore
    · exact hvalid
    · rw [flatMap_codePoints hs, heq] at hmore
      exact absurd hmore (Nat.lt_irrefl _)
  · intro hvalid
    rw [← decodeUtf8_flatten hvalid, h, decodeUtf8_encodeUtf8 hs]

theorem garbled_decodeChunks (hs : isWellFormed s = true) (h : chunks.flatten = encodeUtf8 s) :
    Garbled s (decodeChunks chunks) := by
  have := (garbled_of_chunks isScalar_of_mem_codePoints h).1
  rwa [flatMap_codePoints hs] at this

end Js
