import Wrenyard.Session.Documents

/-!
# A document diff decodes to the text it was built for

The encoder and the decoder meet at `Aligned`, the relation between two line lists and the runs that change one into
the other.  `diffArrays` yields aligned runs (`aligned_editRuns`); the decoder, standing at the end of one hunk, turns
the lines of the remaining hunks into the rest of the new text (`applyHunks_buildHunksFrom`).
-/

namespace Wrenyard.Session

open Js List Option

/-- The runs change the old lines, from position `o` on, into the new lines from position `n` on. -/
inductive Aligned : Nat → Nat → List JsString → List JsString → List DiffHunk → Prop
  | done (o n : Nat) (rest : List JsString) : Aligned o n rest rest []
  | run {o n : Nat} {old new : List JsString} {runs : List DiffHunk} (same removed added : List JsString)
      (h : Aligned (o + same.length + removed.length) (n + same.length + added.length) old new runs) :
      Aligned o n (same ++ removed ++ old) (same ++ added ++ new)
        (⟨o + same.length, removed.length, n + same.length, added.length,
          removed.map (js "-" ++ ·) ++ added.map (js "+" ++ ·)⟩ :: runs)

variable {o n : Nat} {old new : List JsString} {runs : List DiffHunk}

theorem Aligned.append_left (value : List JsString) (h : Aligned (o + value.length) (n + value.length) old new runs) :
    Aligned o n (value ++ old) (value ++ new) runs := by
  cases h with
  | done => exact .done o n (value ++ old)
  | run same removed added h =>
    have hlen : (value ++ same).length = value.length + same.length := length_append
    have hrun := Aligned.run (o := o) (n := n) (value ++ same) removed added
      (by rw [hlen, ← Nat.add_assoc, ← Nat.add_assoc]; exact h)
    rw [hlen, ← Nat.add_assoc, ← Nat.add_assoc] at hrun
    simpa only [append_assoc] using hrun

theorem Aligned.eq_of_nil (h : Aligned o n old new []) : old = new := by
  cases h
  rfl

theorem aligned_editRuns (o n : Nat) (parts : List DiffPart) :
    Aligned o n (parts.flatMap DiffPart.oldSide) (parts.flatMap DiffPart.newSide) (editRuns o n parts) := by
  induction parts generalizing o n with
  | nil => exact .done o n []
  | cons part parts ih =>
    cases part with
    | same value => exact (ih _ _).append_left value
    | removed value => simpa [DiffPart.oldSide, DiffPart.newSide, editRuns] using (Aligned.run [] value [] (ih _ _))
    | added value => simpa [DiffPart.oldSide, DiffPart.newSide, editRuns] using (Aligned.run [] [] value (ih _ _))

/-- The lines before the first run are common to both sides and may be passed over. -/
theorem Aligned.drop {k : Nat} {first : DiffHunk} (h : Aligned o n old new (first :: runs))
    (hk : o + k ≤ first.oldStart) : Aligned (o + k) (n + k) (old.drop k) (new.drop k) (first :: runs) ∧ old.take k =
    new.take k ∧ k ≤ old.length ∧ k ≤ new.length := by
  cases h with
  | run same removed added h =>
    have hlen : k ≤ same.length := by simpa using hk
    have hdrop : o + k + (same.drop k).length = o + same.length ∧ n + k + (same.drop k).length = n + same.length := by
      rw [length_drop]
      omega
    have hrun := Aligned.run (o := o + k) (n := n + k) (same.drop k) removed added (by rw [hdrop.1, hdrop.2]; exact h)
    rw [hdrop.1, hdrop.2] at hrun
    simp only [append_assoc] at hrun ⊢
    rw [drop_append_of_le_length hlen, drop_append_of_le_length hlen, take_append_of_le_length hlen,
      take_append_of_le_length hlen]
    refine ⟨hrun, rfl, ?_, ?_⟩ <;> rw [length_append] <;> omega

variable {h : OpenHunk} {before done : List JsString}

section

variable {base : List JsString}

variable {xs after : List JsString}

private theorem getElem?_current {x : JsString} (hbase : base = before ++ x :: xs ++ after)
    (hpos : h.baseIndex + h.consumed = before.length) : base[h.baseIndex + h.consumed]? = some x := by
  rw [hbase, hpos, append_assoc, List.getElem?_append_right (Nat.le_refl _)]
  simp

private theorem applyHunkLines_cons_ok {h' : OpenHunk} {result result' : List JsString} {kind : UInt16}
    {text : JsString} (hkind : kind ≠ 64) (hline : applyBodyLine base h result kind text = .ok (h', result'))
    (rest : List JsString) :
    applyHunkLines base h result ((kind :: text) :: rest) = applyHunkLines base h' result' rest := by
  have hheader : ¬startsWith (kind :: text) (js "@@") = true := by
    intro h
    have h' : 64 = kind ∧ _ := cons_prefix_cons.mp ( isPrefixOf_iff_prefix.mp h)
    exact hkind h'.1.symm
  rw [applyHunkLines, if_neg hheader]
  rw [hline]
  rfl

private theorem applyHunkLines_context (hbase : base = before ++ xs ++ after)
    (hpos : h.baseIndex + h.consumed = before.length) (result rest : List JsString) :
    applyHunkLines base h result (xs.map (js " " ++ ·) ++ rest) =
      applyHunkLines base { h with consumed := h.consumed + xs.length, produced := h.produced + xs.length }
        (result ++ xs) rest := by
  induction xs generalizing h before result with
  | nil => simp
  | cons x xs ih =>
    have hline : applyBodyLine base h result 32 x =
        .ok ({ h with consumed := h.consumed + 1, produced := h.produced + 1 }, result ++ [x]) := by
      rw [applyBodyLine, if_pos rfl, if_neg (not_not_intro (getElem?_current hbase hpos))]
    have hbase' : base = (before ++ [x]) ++ xs ++ after := by simpa using hbase
    have hrest := ih (h := { h with consumed := h.consumed + 1, produced := h.produced + 1 }) hbase'
      (by simp only [length_append, length_singleton]; omega) (result ++ [x])
    refine (applyHunkLines_cons_ok (by decide) hline _).trans ?_
    refine Eq.trans hrest ?_
    simp only [append_assoc, singleton_append, length_cons]
    congr 2 <;> omega

private theorem applyHunkLines_removed (hbase : base = before ++ xs ++ after)
    (hpos : h.baseIndex + h.consumed = before.length) (result rest : List JsString) :
    applyHunkLines base h result (xs.map (js "-" ++ ·) ++ rest) =
      applyHunkLines base { h with consumed := h.consumed + xs.length } result rest := by
  induction xs generalizing h before with
  | nil => simp
  | cons x xs ih =>
    have hline : applyBodyLine base h result 45 x = .ok ({ h with consumed := h.consumed + 1 }, result) := by
      rw [applyBodyLine, if_neg (by decide), if_pos rfl, if_neg (not_not_intro (getElem?_current hbase hpos))]
    have hbase' : base = (before ++ [x]) ++ xs ++ after := by simpa using hbase
    have hrest := ih (h := { h with consumed := h.consumed + 1 }) hbase'
      (by simp only [length_append, length_singleton]; omega)
    refine (applyHunkLines_cons_ok (by decide) hline _).trans ?_
    refine Eq.trans hrest ?_
    simp only [length_cons]
    congr 2
    omega

private theorem applyHunkLines_added (h : OpenHunk) (xs result rest : List JsString) :
    applyHunkLines base h result (xs.map (js "+" ++ ·) ++ rest) =
      applyHunkLines base { h with produced := h.produced + xs.length } (result ++ xs) rest := by
  induction xs generalizing h result with
  | nil => simp
  | cons x xs ih =>
    have hline : applyBodyLine base h result 43 x = .ok ({ h with produced := h.produced + 1 }, result ++ [x]) := by
      rw [applyBodyLine, if_neg (by decide), if_neg (by decide), if_pos rfl]
    refine (applyHunkLines_cons_ok (by decide) hline _).trans ?_
    refine Eq.trans (ih { h with produced := h.produced + 1 } (result ++ [x])) ?_
    simp only [append_assoc, singleton_append, length_cons]
    congr 2
    omega

private theorem contextLines_eq (hbase : base = before ++ xs ++ after) {stop : Nat}
    (hstop : stop = before.length + xs.length) : contextLines base before.length stop = xs.map (js " " ++ ·) := by
  subst hstop
  rw [contextLines, Nat.add_sub_cancel_left]
  apply ext_getElem
  · simp
  · intro i h1 h2
    have hi : i < xs.length := by simpa using h2
    have hget : base[before.length + i]? = some xs[i] := by
      rw [hbase, append_assoc, List.getElem?_append_right (Nat.le_add_right _ _), Nat.add_sub_cancel_left,
        List.getElem?_append_left hi, List.getElem?_eq_getElem hi]
    simp [hget]

private theorem applyHunkLines_groupBody {group tail : List DiffHunk} (hbase : base = before ++ old)
    (ha : Aligned before.length done.length old new (group ++ tail))
    (hpos : h.baseIndex + h.consumed = before.length) :
    ∃ p old' q new', old = p ++ old' ∧ new = q ++ new' ∧
      Aligned (before.length + p.length) (done.length + q.length) old' new' tail ∧
      (group.getLast?.map (·.oldEnd)).getD before.length = before.length + p.length ∧
      (group.getLast?.map (·.newEnd)).getD done.length = done.length + q.length ∧
      (∀ first ∈ group.head?, first.oldStart ≤ before.length + p.length ∧ first.newStart ≤ done.length + q.length) ∧
      ∀ rest, applyHunkLines base h done (groupBody base before.length group ++ rest) =
        applyHunkLines base { h with consumed := h.consumed + p.length, produced := h.produced + q.length }
          (done ++ q) rest := by
  induction group generalizing h before old done new with
  | nil => exact ⟨[], old, [], new, rfl, rfl, ha, rfl, rfl, by simp, by simp [groupBody]⟩
  | cons edit group ih =>
    cases ha with
    | run same removed added ha =>
      rename_i old new
      have hbase1 : base = before ++ same ++ (removed ++ old) := by simpa using hbase
      have hbase2 : base = (before ++ same) ++ removed ++ old := by simpa using hbase
      have hlen : (before ++ same ++ removed).length = before.length + same.length + removed.length := by
        simp [Nat.add_assoc]
      have hlen' : (done ++ same ++ added).length = done.length + same.length + added.length := by
        simp [Nat.add_assoc]
      rw [← hlen, ← hlen'] at ha
      obtain ⟨p, old', q, new', hold, hnew, ha', hend, hend', -, happly⟩ :=
        ih (h := { h with consumed := h.consumed + same.length + removed.length,
                          produced := h.produced + same.length + added.length }) hbase2 ha
          (by rw [hlen]; dsimp only; omega)
      rw [hlen] at ha' hend happly
      refine ⟨same ++ removed ++ p, old', same ++ added ++ q, new', ?_, ?_, ?_, ?_, ?_, ?_, ?_⟩
      · rw [hold]
        simp only [append_assoc]
      · rw [hnew]
        simp only [append_assoc]
      · convert ha' using 1 <;> simp only [length_append] <;> omega
      · rw [List.getLast?_cons, map_some, getD_some]
        cases hl : group.getLast? <;> rw [hl] at hend
        case none =>
          simp only [map_none, getD_none] at hend
          simp only [getD_none, DiffHunk.oldEnd, length_append]
          omega
        case some last =>
          simp only [map_some, getD_some] at hend
          simp only [getD_some, length_append]
          omega
      · rw [List.getLast?_cons, map_some, getD_some]
        cases hl : group.getLast? with
        | none =>
          rw [hl] at hend'
          simp only [map_none, getD_none] at hend'
          simp only [getD_none, DiffHunk.newEnd, length_append]
          omega
        | some last =>
          rw [hl] at hend'
          simp only [map_some, getD_some] at hend'
          simp only [getD_some, length_append]
          omega
      · intro first hfirst
        rw [List.head?_cons, mem_some] at hfirst
        subst hfirst
        simp only [length_append]
        omega
      · intro rest
        have hbefore : (before ++ same).length = before.length + same.length := length_append
        rw [groupBody, contextLines_eq hbase1 rfl]
        rw [append_assoc, append_assoc, append_assoc, applyHunkLines_context hbase1 hpos,
          applyHunkLines_removed hbase2 (by rw [hbefore]; dsimp only; omega), applyHunkLines_added]
        refine Eq.trans (happly rest) ?_
        simp only [append_assoc, length_append, Nat.add_assoc]

end

private theorem stripPrefix_append (p s : JsString) : stripPrefix p (p ++ s) = some s := by
  have hp : startsWith (p ++ s) p = true := by
    rw [startsWith, isPrefixOf_iff_prefix]
    exact prefix_append p s
  rw [stripPrefix, if_pos hp, drop_left]

private theorem takeDigits_natText (n : Nat) {rest : JsString} (h : ∀ u ∈ rest.head?, isDigit u = false) :
    takeDigits (natText n ++ rest) = some (n, rest) := by
  rw [takeDigits, span_natText_append n rest h, if_neg (natText_ne_nil n), digitsValue_natText]

private theorem takeCount_natText (n : Nat) {rest : JsString} (h : ∀ u ∈ rest.head?, isDigit u = false) :
    takeCount (js "," ++ (natText n ++ rest)) = (n, rest) := by
  rw [takeCount, stripPrefix_append, bind_some, takeDigits_natText n h]

theorem parseHeader_hunkHeader (hunk : DiffHunk) : parseHeader (hunkHeader hunk) =
    some (rangeStart hunk.oldStart hunk.oldCount, hunk.oldCount, rangeStart hunk.newStart hunk.newCount,
      hunk.newCount) := by
  have hcomma (s : JsString) : ∀ u ∈ (js "," ++ s).head?, isDigit u = false := by
    intro u hu
    obtain rfl : 44 = u := by simpa only [show js "," = [44] from rfl, cons_append, List.head?_cons,
      mem_some_iff] using hu
    rfl
  have hplus (s : JsString) : ∀ u ∈ (js " +" ++ s).head?, isDigit u = false := by
    intro u hu
    obtain rfl : 32 = u := by simpa only [show js " +" = [32, 43] from rfl, cons_append, List.head?_cons,
      mem_some_iff] using hu
    rfl
  have hend : ∀ u ∈ (js " @@").head?, isDigit u = false := by
    intro u hu
    obtain rfl : 32 = u := by simpa only [show js " @@" = [32, 64, 64] from rfl, List.head?_cons,
      mem_some_iff] using hu
    rfl
  have hstrip : stripPrefix (js " @@") (js " @@") = some [] := by decide
  unfold hunkHeader parseHeader
  simp only [append_assoc, stripPrefix_append, bind_eq_bind, bind_some,
    takeDigits_natText _ (hcomma _), takeCount_natText _ (hplus _), takeCount_natText _ hend, hstrip]
  rfl

/-- The decoder between two hunks: `baseCursor` base lines are used up, and the lines of the next hunks follow. -/
private def applyHunks (base : List JsString) (baseCursor : Nat) (result : List JsString) :
    List JsString → Except JsString (List JsString)
  | [] => .ok (result ++ base.drop baseCursor)
  | headerLine :: rest => do
    let (h, result) ← openHunk base baseCursor result headerLine
    applyHunkLines base h result rest

private def hunkLines (hunks : List DiffHunk) : List JsString :=
  hunks.flatMap fun hunk => hunkHeader hunk :: hunk.body

private theorem startsWith_hunkHeader (hunk : DiffHunk) : startsWith (hunkHeader hunk) (js "@@") = true := by
  rfl

variable {base : List JsString}

private theorem applyHunkLines_hunkLines (result : List JsString) (hunks : List DiffHunk)
    (hc : h.consumed = h.oldCount) (hp : h.produced = h.newCount) : applyHunkLines base h result (hunkLines hunks) =
    applyHunks base (h.baseIndex + h.consumed) result (hunkLines hunks) := by
  have hclose : closeHunk h = .ok (h.baseIndex + h.consumed) := by
    rw [closeHunk, if_neg (by simp [hc, hp])]
  cases hunks with
  | nil =>
    change (do
      let baseCursor ← closeHunk h
      return result ++ base.drop baseCursor) = _
    rw [hclose]
    rfl
  | cons hunk hunks =>
    change applyHunkLines base h result (hunkHeader hunk :: (hunk.body ++ hunkLines hunks)) =
      applyHunks base _ result (hunkHeader hunk :: (hunk.body ++ hunkLines hunks))
    rw [applyHunkLines.eq_def]
    dsimp only
    rw [if_pos (startsWith_hunkHeader hunk), hclose]
    rfl

private theorem openHunk_hunkHeader {base result : List JsString} {baseCursor : Nat} {hunk : DiffHunk}
    (h1 : baseCursor ≤ hunk.oldStart) (h2 : hunk.oldStart + hunk.oldCount ≤ base.length)
    (h3 : (result ++ (base.take hunk.oldStart).drop baseCursor).length = hunk.newStart) :
    openHunk base baseCursor result (hunkHeader hunk) =
    .ok (⟨hunk.oldStart, hunk.oldCount, hunk.newCount, 0, 0⟩,
      result ++ (base.take hunk.oldStart).drop baseCursor) := by
  have hstart (start count : Nat) :
      (if count = 0 then (rangeStart start count : Int) else rangeStart start count - 1) = start := by
    unfold rangeStart
    split
    · rfl
    · simp
  rw [openHunk, parseHeader_hunkHeader]
  simp only [hstart, Int.toNat_natCast]
  rw [if_neg (by omega), if_neg (by omega), if_neg (by omega)]

/-! ### The groups -/

private def Separated : List (DiffHunk × List DiffHunk) → Prop
  | [] | [_] => True
  | (first, rest) :: (next, rest') :: groups =>
    next.oldStart - ((first :: rest).getLast (List.cons_ne_nil _ _)).oldEnd > 2 * CONTEXT_LINES ∧
      Separated ((next, rest') :: groups)

private def ungroup (groups : List (DiffHunk × List DiffHunk)) : List DiffHunk := groups.flatMap fun g => g.1 :: g.2

private theorem groupRuns_spec (runs : List DiffHunk) : ungroup (groupRuns runs) = runs ∧
    Separated (groupRuns runs) := by
  induction runs with
  | nil => exact ⟨rfl, trivial⟩
  | cons run runs ih =>
    obtain ⟨hflat, hsep⟩ := ih
    rw [groupRuns]
    rcases hg : groupRuns runs with _ | ⟨⟨next, rest⟩, groups⟩
    · rw [hg] at hflat
      exact ⟨congrArg (run :: ·) hflat, trivial⟩
    rw [hg] at hflat hsep
    dsimp only
    split
    · rename_i hgap
      exact ⟨congrArg (run :: ·) hflat, hgap, hsep⟩
    refine ⟨congrArg (run :: ·) hflat, ?_⟩
    cases groups with
    | nil => trivial
    | cons g groups => exact ⟨by simpa using hsep.1, hsep.2⟩

private theorem head?_ungroup (groups : List (DiffHunk × List DiffHunk)) :
    (ungroup groups).head? = groups.head?.map Prod.fst := by
  cases groups <;> rfl

private theorem Aligned.gap (h : Aligned o n old new runs) :
    ∃ d, (runs.head?.map (·.oldStart)).getD (o + old.length) = o + d ∧
    (runs.head?.map (·.newStart)).getD (n + new.length) = n + d ∧ d ≤ old.length ∧ d ≤ new.length ∧ old.take d =
    new.take d ∧ (runs = [] → old.drop d = new.drop d) := by
  cases h with
  | done => exact ⟨old.length, rfl, rfl, Nat.le_refl _, Nat.le_refl _, rfl, fun _ => rfl⟩
  | run same removed added h =>
    refine ⟨same.length, rfl, rfl, ?_, ?_, ?_, by simp⟩
    · simp only [length_append]
      omega
    · simp only [length_append]
      omega
    · simp only [append_assoc, take_left]

variable {newLength : Nat} {previous : Option DiffHunk}

private theorem buildHunk_eq {g d : Nat} {next : Option DiffHunk} {first : DiffHunk}
    {rest : List DiffHunk} (hprev : (previous.map (·.oldEnd)).getD 0 = o ∧ (previous.map (·.newEnd)).getD 0 = n)
    (hfirst : first.oldStart = o + g ∧ first.newStart = n + g) {last : DiffHunk}
    (hlast : (first :: rest).getLast (List.cons_ne_nil _ _) = last)
    (hnext : (next.map (·.oldStart)).getD base.length = last.oldEnd + d ∧ (next.map (·.newStart)).getD newLength =
      last.newEnd + d) :
    buildHunk base newLength previous first rest next =
      { oldStart := o + (g - min CONTEXT_LINES g)
        newStart := n + (g - min CONTEXT_LINES g)
        oldCount := min CONTEXT_LINES g + (last.oldEnd - (o + g)) + min CONTEXT_LINES d
        newCount := min CONTEXT_LINES g + (last.newEnd - (n + g)) + min CONTEXT_LINES d
        body := groupBody base (o + (g - min CONTEXT_LINES g)) (first :: rest) ++
          contextLines base last.oldEnd (last.oldEnd + min CONTEXT_LINES d) } := by
  have hbefore : min CONTEXT_LINES (min (o + g - o) (n + g - n)) = min CONTEXT_LINES g := by omega
  have hafter : min CONTEXT_LINES (min (last.oldEnd + d - last.oldEnd) (last.newEnd + d - last.newEnd)) =
      min CONTEXT_LINES d := by omega
  have hold : o + g - min CONTEXT_LINES g = o + (g - min CONTEXT_LINES g) := by omega
  have hnew : n + g - min CONTEXT_LINES g = n + (g - min CONTEXT_LINES g) := by omega
  unfold buildHunk
  simp only [hlast, hprev.1, hprev.2, hfirst.1, hfirst.2, hnext.1, hnext.2, hbefore, hafter, hold, hnew]
  congr 2
  rw [groupBody, groupBody, hfirst.1]
  simp [contextLines]

private theorem result_at_hunk (hbase : base = before ++ old) (done : List JsString)
    {c k : Nat} (hck : c ≤ k) (htake : old.take k = new.take k) :
    done ++ old.take c ++ (base.take (before.length + k)).drop (before.length + c) = done ++ new.take k := by
  have hpre : old.take c ++ (old.take k).drop c = old.take k := by
    have h := take_append_drop c (old.take k)
    rwa [take_take, Nat.min_eq_left hck] at h
  rw [hbase, take_length_add_append, drop_length_add_append, append_assoc, hpre, htake]

private theorem applyHunks_buildHunk {c : Nat} {next : Option DiffHunk}
    {first last : DiffHunk} {rest tail : List DiffHunk} (hbase : base = before ++ old)
    (hlength : newLength = done.length + new.length)
    (ha : Aligned before.length done.length old new ((first :: rest) ++ tail))
    (hprev : (previous.map (·.oldEnd)).getD 0 = before.length ∧ (previous.map (·.newEnd)).getD 0 = done.length)
    (hlast : (first :: rest).getLast (List.cons_ne_nil _ _) = last) (hnext : next = tail.head?)
    (hc : before.length + c + min CONTEXT_LINES (first.oldStart - before.length) ≤ first.oldStart) :
    ∃ before' old' done' new' c', base = before' ++ old' ∧ done ++ new = done' ++ new' ∧
      Aligned before'.length done'.length old' new' tail ∧ last.oldEnd = before'.length ∧ last.newEnd = done'.length ∧
      c' ≤ CONTEXT_LINES ∧
      ∀ hunks, applyHunks base (before.length + c) (done ++ old.take c)
          (hunkLines (buildHunk base newLength previous first rest next :: hunks)) =
        applyHunks base (before'.length + c') (done' ++ old'.take c') (hunkLines hunks) := by
  -- the unchanged lines before the first run, less the context of the hunk
  obtain ⟨g, hg, hg', -⟩ := ha.gap
  change first.oldStart = before.length + g at hg
  change first.newStart = done.length + g at hg'
  obtain ⟨k, hk⟩ : ∃ k, k = g - min CONTEXT_LINES g := ⟨_, rfl⟩
  obtain ⟨ha', htake, hk1, hk2⟩ := ha.drop (k := k) (by omega)
  have hbefore : (before ++ old.take k).length = before.length + k := by simp [hk1]
  have hdone : (done ++ new.take k).length = done.length + k := by simp [hk2]
  rw [← hbefore, ← hdone] at ha'
  change Aligned _ _ _ _ ((first :: rest) ++ tail) at ha'
  have hbase' : base = (before ++ old.take k) ++ old.drop k := by simpa using hbase
  -- the runs of the hunk
  obtain ⟨hunk, hhunk⟩ : ∃ hunk, hunk = buildHunk base newLength previous first rest next := ⟨_, rfl⟩
  have hstart : hunk.oldStart = before.length + k := by
    rw [hhunk, buildHunk]
    simp only [hprev.1, hprev.2, hg, hg', Nat.add_sub_cancel_left]
    omega
  obtain ⟨p, old', q, new', hold, hnew, ha'', hend, hend', hpq, happly⟩ :=
    applyHunkLines_groupBody (h := ⟨hunk.oldStart, hunk.oldCount, hunk.newCount, 0, 0⟩) hbase' ha'
      (by rw [hbefore, hstart, Nat.add_zero])
  rw [List.getLast?_eq_some_getLast (cons_ne_nil _ _), hlast, map_some, getD_some] at hend hend'
  have hp : (before ++ old.take k ++ p).length = (before ++ old.take k).length + p.length := length_append
  have hq : (done ++ new.take k ++ q).length = (done ++ new.take k).length + q.length := length_append
  obtain ⟨hp', hq'⟩ := hpq first rfl
  rw [← hp] at ha'' hend hp'
  rw [← hq] at ha'' hend' hq'
  -- the unchanged lines after them
  obtain ⟨d, hd, hd', hd1, hd2, hd3, -⟩ := ha''.gap
  have hbase'' : base = (before ++ old.take k ++ p) ++ old' := by
    rw [hbase', hold]
    simp only [append_assoc]
  have hnew'' : done ++ new = (done ++ new.take k ++ q) ++ new' := by
    rw [append_assoc, ← hnew, append_assoc, take_append_drop]
  have hlen : base.length = (before ++ old.take k ++ p).length + old'.length := by rw [hbase'', length_append]
  have hlen' : newLength = (done ++ new.take k ++ q).length + new'.length := by
    rw [hlength, ← length_append, hnew'', length_append]
  have hgap : (next.map (·.oldStart)).getD base.length = last.oldEnd + d ∧
      (next.map (·.newStart)).getD newLength = last.newEnd + d := by
    rw [hnext, hlen, hlen', hd, hd', hend, hend']
    exact ⟨rfl, rfl⟩
  have hfields := buildHunk_eq hprev ⟨hg, hg'⟩ hlast hgap
  rw [← hhunk, ← hk, hend, hend'] at hfields
  obtain ⟨e, he⟩ : ∃ e, e = min CONTEXT_LINES d := ⟨_, rfl⟩
  refine ⟨before ++ old.take k ++ p, old', done ++ new.take k ++ q, new', e, hbase'', hnew'', ha'', hend, hend',
    by omega, ?_⟩
  intro hunks
  have hopen : openHunk base (before.length + c) (done ++ old.take c) (hunkHeader hunk) =
      .ok (⟨hunk.oldStart, hunk.oldCount, hunk.newCount, 0, 0⟩, done ++ new.take k) := by
    have hresult := result_at_hunk hbase done (c := c) (k := k) (by omega) htake
    rw [← hstart] at hresult
    rw [openHunk_hunkHeader, hresult]
    · omega
    · rw [hfields]
      dsimp only
      omega
    · rw [hresult, hfields, hdone]
  rw [← hhunk]
  change (do
    let (h, result) ← openHunk base (before.length + c) (done ++ old.take c) (hunkHeader hunk)
    applyHunkLines base h result (hunk.body ++ hunkLines hunks)) = _
  rw [hopen]
  change applyHunkLines base ⟨hunk.oldStart, hunk.oldCount, hunk.newCount, 0, 0⟩ (done ++ new.take k)
    (hunk.body ++ hunkLines hunks) = _
  have hsplit : base = (before ++ old.take k ++ p) ++ old'.take e ++ old'.drop e := by
    rw [append_assoc, take_append_drop]
    exact hbase''
  have hbody : hunk.body = groupBody base (before ++ old.take k).length (first :: rest) ++
      (old'.take e).map (js " " ++ ·) := by
    rw [hfields, hbefore]
    rw [contextLines_eq hsplit (by rw [length_take]; omega)]
  have hcount : hunk.oldCount = p.length + (old'.take e).length ∧
      hunk.newCount = q.length + (old'.take e).length := by
    rw [hfields, length_take]
    dsimp only
    omega
  rw [hbody, append_assoc, happly, applyHunkLines_context hsplit, applyHunkLines_hunkLines]
  any_goals
    dsimp only
    omega
  · congr 1
    dsimp only
    rw [hstart, hp, hbefore, length_take]
    omega

private theorem applyHunks_buildHunksFrom (groups : List (DiffHunk × List DiffHunk))
    {c : Nat} (hbase : base = before ++ old) (hlength : newLength = done.length + new.length)
    (ha : Aligned before.length done.length old new (ungroup groups)) (hsep : Separated groups)
    (hprev : (previous.map (·.oldEnd)).getD 0 = before.length ∧ (previous.map (·.newEnd)).getD 0 = done.length)
    (hc : ∀ g ∈ groups.head?, before.length + c + min CONTEXT_LINES (g.1.oldStart - before.length) ≤ g.1.oldStart) :
    applyHunks base (before.length + c) (done ++ old.take c)
      (hunkLines (buildHunksFrom base newLength previous groups)) = .ok (done ++ new) := by
  induction groups generalizing previous before old done new c with
  | nil =>
    cases ha with
    | done =>
      change Except.ok _ = _
      rw [hbase, drop_length_add_append, append_assoc, take_append_drop]
  | cons group groups ih =>
    obtain ⟨first, rest⟩ := group
    obtain ⟨last, hlast⟩ : ∃ last, (first :: rest).getLast (cons_ne_nil _ _) = last := ⟨_, rfl⟩
    obtain ⟨before', old', done', new', c', hbase', hnew, ha', hend, hend', hc', happly⟩ :=
      applyHunks_buildHunk hbase hlength ha hprev hlast (head?_ungroup groups).symm (hc (first, rest) rfl)
    have hlength' : newLength = done'.length + new'.length := by
      rw [hlength, ← length_append, hnew, length_append]
    rw [buildHunksFrom, happly, hlast, hnew]
    have hprev' : ((some last).map (·.oldEnd)).getD 0 = before'.length ∧
        ((some last).map (·.newEnd)).getD 0 = done'.length := ⟨hend, hend'⟩
    refine ih hbase' hlength' ha' ?_ hprev' ?_
    · rcases groups with _ | ⟨next, groups⟩
      · trivial
      · exact hsep.2
    · -- the next group is more than two windows away
      intro next hnext
      rcases groups with _ | ⟨⟨next', rest'⟩, groups⟩
      · simp at hnext
      simp only [List.head?_cons, mem_some_iff] at hnext
      subst hnext
      have hgap := hsep.1
      rw [hlast, hend] at hgap
      dsimp only
      omega

/-! ### The whole diff -/

private theorem lf_not_mem_hunkHeader (hunk : DiffHunk) : lf ∉ hunkHeader hunk := by
  have hnat (n : Nat) : lf ∉ natText n := fun h => by
    have := isDigit_of_mem_natText h
    revert this
    decide
  unfold hunkHeader
  simp only [mem_append, not_or, hnat, not_false_eq_true, and_true]
  decide

variable {oldLines : List JsString}

private theorem lf_not_mem_contextLines (h : ∀ l ∈ oldLines, lf ∉ l) (start stop : Nat) :
    ∀ l ∈ contextLines oldLines start stop, lf ∉ l := by
  intro l hl
  obtain ⟨index, -, rfl⟩ := mem_map.mp hl
  rw [mem_append, not_or]
  refine ⟨by decide, ?_⟩
  cases hi : oldLines[index]? with
  | none => simp
  | some line => exact h line (mem_of_getElem? hi)

private theorem Aligned.lf_not_mem (ha : Aligned o n old new runs) (hold : ∀ l ∈ old, lf ∉ l)
    (hnew : ∀ l ∈ new, lf ∉ l) : ∀ run ∈ runs, ∀ l ∈ run.body, lf ∉ l := by
  induction ha with
  | done => simp
  | run same removed added ha ih =>
    intro run hrun l hl
    rw [mem_cons] at hrun
    rcases hrun with rfl | hrun
    · rw [mem_append] at hl
      rcases hl with hl | hl
      · obtain ⟨line, hline, rfl⟩ := mem_map.mp hl
        rw [mem_append, not_or]
        exact ⟨by decide, hold line (by simp [hline])⟩
      · obtain ⟨line, hline, rfl⟩ := mem_map.mp hl
        rw [mem_append, not_or]
        exact ⟨by decide, hnew line (by simp [hline])⟩
    · exact ih (fun l hl => hold l (by simp [hl])) (fun l hl => hnew l (by simp [hl])) run hrun l hl

private theorem lf_not_mem_groupBody (h : ∀ l ∈ oldLines, lf ∉ l) {group : List DiffHunk}
    (hg : ∀ run ∈ group, ∀ l ∈ run.body, lf ∉ l) (cursor : Nat) : ∀ l ∈ groupBody oldLines cursor group, lf ∉ l := by
  induction group generalizing cursor with
  | nil => simp [groupBody]
  | cons edit group ih =>
    intro l hl
    rw [groupBody, mem_append, mem_append] at hl
    rcases hl with (hl | hl) | hl
    · exact lf_not_mem_contextLines h _ _ l hl
    · exact hg edit (by simp) l hl
    · exact ih (fun run hrun => hg run (by simp [hrun])) _ l hl

private theorem lf_not_mem_buildHunksFrom (h : ∀ l ∈ oldLines, lf ∉ l) {groups : List (DiffHunk × List DiffHunk)}
    (hg : ∀ run ∈ ungroup groups, ∀ l ∈ run.body, lf ∉ l) (previous : Option DiffHunk) :
    ∀ l ∈ hunkLines (buildHunksFrom oldLines newLength previous groups), lf ∉ l := by
  induction groups generalizing previous with
  | nil => simp [buildHunksFrom, hunkLines]
  | cons group groups ih =>
    obtain ⟨first, rest⟩ := group
    intro l hl
    rw [buildHunksFrom, hunkLines, flatMap_cons, mem_append, mem_cons] at hl
    have hgroup : ∀ run ∈ first :: rest, ∀ l ∈ run.body, lf ∉ l :=
      fun run hrun => hg run (mem_append_left _ hrun)
    rcases hl with (rfl | hl) | hl
    · exact lf_not_mem_hunkHeader _
    · rw [buildHunk, mem_append, mem_append] at hl
      rcases hl with (hl | hl) | hl
      · exact lf_not_mem_contextLines h _ _ l hl
      · exact lf_not_mem_groupBody h hgroup _ l hl
      · exact lf_not_mem_contextLines h _ _ l hl
    · exact ih (fun run hrun => hg run (mem_append_right _ hrun)) _ l hl

private theorem applyDocumentDiff_hunkLines {base path : JsString} {hunks : List DiffHunk} (hne : hunks ≠ [])
    {diff : JsString} (hlines : lines diff = [js "--- a/" ++ path, js "+++ b/" ++ path] ++ hunkLines hunks) :
    applyDocumentDiff base diff = (do
      let result ← applyHunks (lines base) 0 [] (hunkLines hunks)
      return unlines result) := by
  obtain ⟨hunk, hunks, rfl⟩ := exists_cons_of_ne_nil hne
  have h1 : startsWith (js "--- a/" ++ path) (js "@@") = false := rfl
  have h2 : startsWith (js "+++ b/" ++ path) (js "@@") = false := rfl
  have h3 := startsWith_hunkHeader hunk
  have hcons : hunkLines (hunk :: hunks) = hunkHeader hunk :: (hunk.body ++ hunkLines hunks) := rfl
  have hheader : validFileHeader [js "--- a/" ++ path, js "+++ b/" ++ path] = true := rfl
  rw [hcons] at hlines ⊢
  rw [applyDocumentDiff, hlines]
  simp only [cons_append, nil_append, takeWhile_cons, dropWhile_cons, h1, h2, h3, Bool.not_false,
    Bool.not_true, if_true, Bool.false_eq_true, if_false, hheader]
  rw [applyHunks]
  cases openHunk (lines base) 0 [] (hunkHeader hunk) <;> rfl

/-- Decoding the diff of two different texts gives the second one. -/
theorem applyDocumentDiff_of_ne (diff : LineDiff) {path before after : JsString} (hpath : lf ∉ path)
    (hne : before ≠ after) : applyDocumentDiff before (unifiedDiff diff path before after) = .ok after := by
  have ha := aligned_editRuns 0 0 (diff.diffArrays (lines before) (lines after))
  rw [diff.oldSide, diff.newSide] at ha
  obtain ⟨runs, hruns⟩ : ∃ runs, runs = alignEdits diff (lines before) (lines after) := ⟨_, rfl⟩
  change Aligned 0 0 (lines before) (lines after) (alignEdits diff (lines before) (lines after)) at ha
  rw [← hruns] at ha
  have hbody := ha.lf_not_mem (fun l => lf_not_mem_of_mem_lines) (fun l => lf_not_mem_of_mem_lines)
  obtain ⟨hflat, hsep⟩ := groupRuns_spec runs
  rw [← hflat] at ha hbody
  -- the texts differ, so there is a hunk
  have hgroups : groupRuns runs ≠ [] := by
    intro hnil
    rw [hnil] at ha
    exact hne (lines_inj ha.eq_of_nil)
  obtain ⟨hunks, hhunks⟩ : ∃ hunks, hunks = buildHunks runs (lines before) (lines after).length := ⟨_, rfl⟩
  have hhunksNe : hunks ≠ [] := by
    obtain ⟨group, groups, hcons⟩ := exists_cons_of_ne_nil hgroups
    rw [hhunks, buildHunks, hcons, buildHunksFrom]
    exact cons_ne_nil _ _
  have hlines : lines (unifiedDiff diff path before after) =
      [js "--- a/" ++ path, js "+++ b/" ++ path] ++ hunkLines hunks := by
    rw [hhunks, hruns]
    apply lines_unlines
    · intro l hl
      rw [mem_append, mem_cons, mem_singleton] at hl
      rcases hl with (rfl | rfl) | hl
      · rw [mem_append, not_or]
        exact ⟨by decide, hpath⟩
      · rw [mem_append, not_or]
        exact ⟨by decide, hpath⟩
      · rw [← hruns] at hl
        exact lf_not_mem_buildHunksFrom (fun l => lf_not_mem_of_mem_lines) hbody none l hl
    · simp
  have happly : applyHunks (lines before) 0 [] (hunkLines hunks) = .ok (lines after) := by
    rw [hhunks]
    have hlength : (lines after).length = ([] : List JsString).length + (lines after).length := (Nat.zero_add _).symm
    exact applyHunks_buildHunksFrom (c := 0) (groupRuns runs) (nil_append _).symm hlength ha hsep ⟨rfl, rfl⟩
      (by intro g _; simp)
  rw [applyDocumentDiff_hunkLines hhunksNe hlines, happly]
  exact congrArg Except.ok (unlines_lines after)

/-- A diff decodes to the text it was built for, whatever alignment it was built from. -/
theorem applyDocumentDiff_unifiedDiff (diff : LineDiff) (contentVersion : JsString → JsString)
    (path before after : JsString) (hpath : lf ∉ path) (hversion : contentVersion before ≠ contentVersion after) :
    applyDocumentDiff before (unifiedDiff diff path before after) = .ok after :=
  applyDocumentDiff_of_ne diff hpath fun h => hversion (by rw [h])

def replaceAll : LineDiff where
  diffArrays old new := [.removed old, .added new]
  oldSide _ _ := by simp [DiffPart.oldSide]
  newSide _ _ := by simp [DiffPart.newSide]

def letterVersion (content : JsString) : JsString :=
  if content = js "a" then js "ca978112" else if content = js "b" then js "3e23e816" else []

theorem applyDocumentDiff_letters : lf ∉ js "docs/a.md" ∧ letterVersion (js "a") ≠ letterVersion (js "b") ∧
    applyDocumentDiff (js "a") (unifiedDiff replaceAll (js "docs/a.md") (js "a") (js "b")) = .ok (js "b") :=
  ⟨by decide, by decide, applyDocumentDiff_unifiedDiff replaceAll letterVersion _ _ _ (by decide) (by decide)⟩

end Wrenyard.Session
