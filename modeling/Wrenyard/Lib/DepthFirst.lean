import Mathlib.Data.List.Nodup
import Mathlib.Data.List.Perm.Subperm

/-!
# Cycle detection by depth-first search

`visit` walks a directed graph from a vertex.  The vertices on the current path are being visited, the others it met
are done; a vertex that is reached while it is being visited closes a cycle.  The walk is given fuel: a path is no
longer than the list of vertices (`visit_ne_deep`).

The walk over all vertices succeeds exactly when the graph has no cycle (`visitAll_ok_iff`).
-/

namespace DepthFirst

open List

variable {α : Type}

/-- Why a walk stops before its end. -/
inductive Stop where
  | cycle
  | deep

/-- Walk from a vertex: `path` is being visited, `done` was visited, the latest first. -/
def visit [DecidableEq α] (succ : α → List α) : Nat → List α → List α → α → Except Stop (List α)
  | 0, _, _, _ => .error .deep
  | fuel + 1, path, done, a =>
    if a ∈ done then .ok done
    else if a ∈ path then .error .cycle
    else (a :: ·) <$> (succ a).foldlM (visit succ fuel (a :: path)) done

def visitAll [DecidableEq α] (succ : α → List α) (fuel : Nat) (vertices : List α) : Except Stop (List α) :=
  vertices.foldlM (visit succ fuel []) []

/-- No vertex is reached from itself. -/
def Acyclic (succ : α → List α) : Prop := ∀ a, ¬Relation.TransGen (fun x y => y ∈ succ x) a a

private theorem exists_of_foldlM_error {β γ ε : Type} {f : β → γ → Except ε β} {l : List γ} {b : β} {e : ε}
    (h : l.foldlM f b = .error e) : ∃ b', ∃ c ∈ l, f b' c = .error e := by
  induction l generalizing b with
  | nil => cases h
  | cons c l ih =>
    rw [foldlM_cons] at h
    cases hc : f b c <;> rw [hc] at h
    case error e' =>
      cases h
      exact ⟨b, c, mem_cons_self, hc⟩
    case ok b' =>
      obtain ⟨b'', c', hmem, herror⟩ := ih h
      exact ⟨b'', c', mem_cons_of_mem _ hmem, herror⟩

def Settled (succ : α → List α) : List α → Prop
  | [] => True
  | a :: done => (∀ b ∈ succ a, b ∈ done) ∧ a ∉ done ∧ Settled succ done

variable {succ : α → List α} {done : List α}

private theorem Settled.closed (h : Settled succ done) {a b : α} (ha : a ∈ done) (hb : b ∈ succ a) :
    b ∈ done := by
  induction done with
  | nil => cases ha
  | cons d done ih =>
    rcases mem_cons.mp ha with rfl | ha
    · exact mem_cons_of_mem _ (h.1 b hb)
    · exact mem_cons_of_mem _ (ih h.2.2 ha)

private theorem Settled.closed_trans (h : Settled succ done) {a b : α} (ha : a ∈ done)
    (hab : Relation.ReflTransGen (fun x y => y ∈ succ x) a b) : b ∈ done := by
  induction hab with
  | refl => exact ha
  | tail _ hstep ih => exact h.closed ih hstep

private theorem Settled.acyclic (h : Settled succ done) {a : α} (ha : a ∈ done) :
    ¬Relation.TransGen (fun x y => y ∈ succ x) a a := by
  induction done with
  | nil => cases ha
  | cons d done ih =>
    by_cases hd : a ∈ done
    · exact ih h.2.2 hd
    obtain rfl : a = d := (mem_cons.mp ha).resolve_right hd
    intro hcycle
    obtain ⟨b, hb, hba⟩ := Relation.TransGen.head'_iff.mp hcycle
    exact h.2.1 (h.2.2.closed_trans (h.1 b hb) hba)

/-- What a walk adds to the vertices that are done. -/
private structure Grows (succ : α → List α) (path done done' : List α) : Prop where
  settled : Settled succ done'
  suffix : done <:+ done'
  disjoint : ∀ a ∈ path, a ∉ done'

private theorem foldlM_grows {path : List α} {f : List α → α → Except Stop (List α)}
    (hf : ∀ done a done', f done a = .ok done' → Settled succ done → (∀ x ∈ path, x ∉ done) →
      Grows succ path done done' ∧ a ∈ done')
    (l done done' : List α) (h : l.foldlM f done = .ok done') (hsettled : Settled succ done)
    (hdisjoint : ∀ x ∈ path, x ∉ done) : Grows succ path done done' ∧ ∀ a ∈ l, a ∈ done' := by
  induction l generalizing done with
  | nil =>
    cases h
    exact ⟨⟨hsettled, suffix_rfl, hdisjoint⟩, by simp⟩
  | cons a l ih =>
    rw [foldlM_cons] at h
    cases hstep : f done a <;> rw [hstep] at h
    case error e => cases h
    case ok done₁ =>
      obtain ⟨hgrows, ha⟩ := hf done a done₁ hstep hsettled hdisjoint
      obtain ⟨hgrows', hl⟩ := ih done₁ h hgrows.settled hgrows.disjoint
      refine ⟨⟨hgrows'.settled, hgrows.suffix.trans hgrows'.suffix, hgrows'.disjoint⟩, ?_⟩
      intro b hb
      rcases mem_cons.mp hb with rfl | hb
      · exact hgrows'.suffix.subset ha
      · exact hl b hb

private theorem visit_grows [DecidableEq α] (fuel : Nat) :
    ∀ (path done : List α) (a : α) (done' : List α), visit succ fuel path done a = .ok done' → Settled succ done →
    (∀ x ∈ path, x ∉ done) → Grows succ path done done' ∧ a ∈ done' := by
  induction fuel with
  | zero =>
    intro path done a done' h
    cases h
  | succ fuel ih =>
    intro path done a done' h hsettled hdisjoint
    unfold visit at h
    by_cases hdone : a ∈ done
    · rw [if_pos hdone] at h
      cases h
      exact ⟨⟨hsettled, suffix_rfl, hdisjoint⟩, hdone⟩
    rw [if_neg hdone] at h
    by_cases hpath : a ∈ path
    · rw [if_pos hpath] at h
      cases h
    rw [if_neg hpath] at h
    cases hrest : (succ a).foldlM (visit succ fuel (a :: path)) done <;> rw [hrest] at h
    case error e => cases h
    case ok done₁ =>
      cases h
      have hdisjoint' : ∀ x ∈ a :: path, x ∉ done := by
        intro x hx
        rcases mem_cons.mp hx with rfl | hx
        · exact hdone
        · exact hdisjoint x hx
      obtain ⟨hgrows, hall⟩ := foldlM_grows (ih (a :: path)) (succ a) done done₁ hrest hsettled hdisjoint'
      refine ⟨⟨⟨hall, hgrows.disjoint a mem_cons_self, hgrows.settled⟩,
        hgrows.suffix.trans (suffix_cons a done₁), ?_⟩, mem_cons_self⟩
      intro x hx hmem
      rcases mem_cons.mp hmem with rfl | hmem
      · exact hpath hx
      · exact hgrows.disjoint x (mem_cons_of_mem _ hx) hmem

private def Linked (succ : α → List α) (path : List α) : Prop := path.IsChain fun a b => a ∈ succ b

/-- A vertex below the top of a path leads to the top. -/
private theorem Linked.trans {a b : α} {path : List α} (h : Linked succ (a :: path)) (hb : b ∈ path) :
    Relation.TransGen (fun x y => y ∈ succ x) b a := by
  induction path generalizing a with
  | nil => cases hb
  | cons c path ih =>
    have hca : a ∈ succ c := (isChain_cons_cons.mp h).1
    rcases mem_cons.mp hb with rfl | hb
    · exact .single hca
    · exact (ih (isChain_cons_cons.mp h).2 hb).tail hca

private theorem visit_cycle [DecidableEq α] (fuel : Nat) : ∀ (path done : List α) (a : α),
    visit succ fuel path done a = .error .cycle → Linked succ (a :: path) → ¬Acyclic succ := by
  induction fuel with
  | zero =>
    intro path done a h
    cases h
  | succ fuel ih =>
    intro path done a h hlinked
    unfold visit at h
    by_cases hdone : a ∈ done
    · rw [if_pos hdone] at h
      cases h
    rw [if_neg hdone] at h
    by_cases hpath : a ∈ path
    · exact fun hacyclic => hacyclic a (hlinked.trans hpath)
    rw [if_neg hpath] at h
    cases hrest : (succ a).foldlM (visit succ fuel (a :: path)) done <;> rw [hrest] at h
    case error e =>
      cases h
      -- the cycle is closed below one of the successors
      obtain ⟨done₁, b, hb, herror⟩ := exists_of_foldlM_error hrest
      exact ih _ _ _ herror (isChain_cons_cons.mpr ⟨hb, hlinked⟩)
    case ok done₁ => cases h

private theorem visit_ne_deep [DecidableEq α] {vertices : List α}
    (hclosed : ∀ a ∈ vertices, ∀ b ∈ succ a, b ∈ vertices) (fuel : Nat) :
    ∀ (path done : List α) (a : α), a ∈ vertices → path.Nodup → path ⊆ vertices →
    vertices.length < fuel + path.length → visit succ fuel path done a ≠ .error .deep := by
  induction fuel with
  | zero =>
    intro path done a _ hnodup hsub hfuel
    have := (subperm_of_subset hnodup hsub).length_le
    omega
  | succ fuel ih =>
    intro path done a ha hnodup hsub hfuel
    unfold visit
    split
    · simp
    split
    · simp
    rename_i hpath
    cases hrest : (succ a).foldlM (visit succ fuel (a :: path)) done with
    | error e =>
      intro h
      cases h
      obtain ⟨done₁, b, hb, herror⟩ := exists_of_foldlM_error hrest
      refine ih _ _ _ (hclosed a ha b hb) (nodup_cons.mpr ⟨hpath, hnodup⟩)
        (cons_subset.mpr ⟨ha, hsub⟩) ?_ herror
      rw [length_cons]
      omega
    | ok done₁ =>
      intro h
      cases h

theorem visitAll_ok_iff [DecidableEq α] {vertices : List α}
    (hclosed : ∀ a ∈ vertices, ∀ b ∈ succ a, b ∈ vertices) (hkeys : ∀ a, succ a ≠ [] → a ∈ vertices) :
    (∃ done, visitAll succ (vertices.length + 1) vertices = .ok done) ↔ Acyclic succ := by
  constructor
  · rintro ⟨done, h⟩ a hcycle
    obtain ⟨hgrows, hall⟩ := foldlM_grows (visit_grows _ []) vertices [] done h trivial (by simp)
    obtain ⟨b, hb, -⟩ := Relation.TransGen.head'_iff.mp hcycle
    exact hgrows.settled.acyclic (hall a (hkeys a (ne_nil_of_mem hb))) hcycle
  · intro hacyclic
    cases h : visitAll succ (vertices.length + 1) vertices with
    | ok done => exact ⟨done, rfl⟩
    | error e =>
      obtain ⟨done, a, ha, herror⟩ := exists_of_foldlM_error h
      cases e with
      | cycle => exact absurd hacyclic (visit_cycle _ _ _ _ herror (.singleton a))
      | deep =>
        refine absurd herror (visit_ne_deep hclosed _ _ _ _ ha nodup_nil (nil_subset _) ?_)
        omega

end DepthFirst
