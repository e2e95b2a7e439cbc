import Wrenyard.Gateway.RouteMachine

/-!
# The circuit of a route

Expiry is applied by a timer, by a read or by a success, at whatever time these come.  The recorded faults
(`Recorded`) know nothing of it: a fault is held from when it is recorded until a recovery clears it.  The store
mirrors them up to the faults whose end has passed (`Mirrors`), so that an admission is a function of the recorded
faults and of the time.
-/

namespace Wrenyard.Gateway

open Js Transition Option

variable {c : RouteConfig} {w w' w'' : RouteWorld} {e : RouteLabel} {tr : List RouteLabel} {key : JsString}

/-- The faults that were recorded and not cleared, by scope. -/
abbrev Faults := JsString → Option Block

def RouteAction.clears (c : RouteConfig) (guard : Option RouteGuard) (key : JsString) (fault : Block) :
    RouteAction → Bool
  | success provider model _ =>
    fault.reads provider model (c.admissionPools provider model) &&
      guard.all fun guard => guard.generations.get key == some fault.generation
  | observeCredential provider value =>
    fault.provider = provider ∧ fault.credential.any (· ≠ c.fingerprint value)
  | clearProvider provider => fault.provider = provider
  | _ => false

inductive Recorded (c : RouteConfig) : RouteWorld → Faults → Prop where
  | fresh (start : Instant) : Recorded c ⟨.empty, start, []⟩ fun _ => none
  | fault {w w' : RouteWorld} {e : RouteLabel} {faults : Faults} {key : JsString} {block : Block} :
    Recorded c w faults →
      RouteStep c w e w' → e.1.faultKey c = some key → w'.store ≠ w.store → w'.store.blocks.get key = some block →
      Recorded c w' (Function.update faults key (some block))
  | other {w w' : RouteWorld} {e : RouteLabel} {faults : Faults} {guard : Option RouteGuard} : Recorded c w faults →
      RouteStep c w e w' → e.1.faultKey c = none ∨ w'.store = w.store → w.guardOf e.1.request = some guard →
      Recorded c w' fun key => (faults key).filter fun fault => !e.1.clears c guard key fault

theorem Recorded.reached {faults : Faults} (h : Recorded c w faults) : RouteReached c w := by
  induction h with
  | fresh start => exact ⟨start, [], Run.nil _⟩
  | fault _ hstep _ _ _ ih | other _ hstep _ _ ih => exact reached_step ih hstep

/-! ### The store mirrors the recorded faults -/

structure Mirrors (w : RouteWorld) (faults : Faults) : Prop where
  held : ∀ key block, w.store.blocks.get key = some block →
    ∃ fault, faults key = some fault ∧ block.Continues fault ∧ (block.phase = .opened ∨ fault.until_ ≤ w.now)
  opened : ∀ key fault, faults key = some fault → fault.phase = .opened
  live : ∀ key fault, faults key = some fault → w.now < fault.until_ → w.store.blocks.get key = some fault

variable {block : Block}

theorem Block.Continues.fields {fault : Block} (h : block.Continues fault) : block.until_ = fault.until_ ∧
    block.generation = fault.generation ∧ block.provider = fault.provider ∧ block.credential = fault.credential ∧
    ∀ provider model pools, block.reads provider model pools = fault.reads provider model pools := by
  rw [h]
  exact ⟨rfl, rfl, rfl, rfl, fun _ _ _ => rfl⟩

variable {now : Instant}

theorem expired_of_lt (h : now < block.until_) : block.expired now = some block := by
  unfold Block.expired
  rw [if_pos (Or.inr h)]

theorem of_expired {after : Block} (h : block.expired now = some after) :
    after.Continues block ∧ (after.phase = block.phase ∨ block.until_ ≤ now) := by
  unfold Block.expired at h
  split at h
  · cases h
    exact ⟨Block.continues_refl _, Or.inl rfl⟩
  rename_i hdue
  rw [not_or, Nat.not_lt] at hdue
  split at h <;> cases h
  exact ⟨rfl, Or.inr hdue.2⟩

variable {faults : Faults}

theorem Mirrors.expire (h : Mirrors w faults) (hnow : w.now ≤ w'.now)
    (hblocks : ∀ key, w'.store.blocks.get key = w.store.blocks.get key ∨
      w'.store.blocks.get key = (w.store.blocks.get key).bind (Block.expired w'.now)) : Mirrors w' faults where
  held key block hb := by
    rcases hblocks key with hkey | hkey
    · rw [hkey] at hb
      obtain ⟨fault, hfault, hcont, hphase⟩ := h.held key block hb
      exact ⟨fault, hfault, hcont, hphase.imp id fun hle => hle.trans hnow⟩
    rw [hkey, bind_eq_some_iff] at hb
    obtain ⟨before, hbefore, hexpired⟩ := hb
    obtain ⟨fault, hfault, hcont, hphase⟩ := h.held key before hbefore
    obtain ⟨hcont', hphase'⟩ := of_expired hexpired
    refine ⟨fault, hfault, hcont'.trans hcont, ?_⟩
    rcases hphase' with heq | hle
    · rw [heq]
      exact hphase.imp id fun hle => hle.trans hnow
    · rw [hcont.fields.1] at hle
      exact Or.inr hle
  opened := h.opened
  live key fault hfault hlt := by
    have hb := h.live key fault hfault (hnow.trans_lt hlt)
    rcases hblocks key with hkey | hkey
    · rw [hkey, hb]
    · rw [hkey, hb, bind_some, expired_of_lt hlt]

/-- Blocks are dropped by a test on the faults they mirror. -/
private theorem Mirrors.drop (h : Mirrors w faults) (hnow : w'.now = w.now) (drop : JsString → Block → Bool)
    (hblocks : ∀ key block fault, w.store.blocks.get key = some block → faults key = some fault →
      block.Continues fault →
      w'.store.blocks.get key = if drop key fault then none else some block)
    (hnone : ∀ key, w.store.blocks.get key = none → w'.store.blocks.get key = none) :
    Mirrors w' fun key => (faults key).filter fun fault => !drop key fault where
  held key block hb := by
    cases hb' : w.store.blocks.get key with
    | none =>
      rw [hnone key hb'] at hb
      cases hb
    | some before =>
      obtain ⟨fault, hfault, hcont, hphase⟩ := h.held key before hb'
      rw [hblocks key before fault hb' hfault hcont] at hb
      split at hb <;> cases hb
      rename_i hdrop
      refine ⟨fault, ?_, hcont, ?_⟩
      · rw [hfault, filter_some, if_pos (by simpa using hdrop)]
      · rw [hnow]
        exact hphase
  opened key fault hfault := by
    rw [filter_eq_some_iff] at hfault
    exact h.opened key fault hfault.1
  live key fault hfault hlt := by
    rw [filter_eq_some_iff] at hfault
    rw [hnow] at hlt
    have hb := h.live key fault hfault.1 hlt
    rw [hblocks key fault fault hb hfault.1 fault.continues_refl, if_neg]
    simpa using hfault.2

private theorem filter_clears {guard : Option RouteGuard} (faults : Faults) {a : RouteAction}
    (h : ∀ key fault, a.clears c guard key fault = false) :
    (fun key => (faults key).filter fun fault => !a.clears c guard key fault) = faults := by
  funext key
  cases faults key with
  | none => rfl
  | some fault => rw [filter_some, h, if_pos (by rfl)]

private theorem expire_applying (h : Mirrors w faults) (hw : w.store.Valid) {provider model : JsString}
    {withExpired : Bool}
    {w' : RouteWorld} (hnow : w'.now = w.now)
    (hstore : w'.store = (w.store.applying c w.now provider model withExpired).2) : Mirrors w' faults := by
  refine h.expire hnow.ge fun key => ?_
  rw [hstore, RouteStateStore.get_applying hw, hnow]
  cases hb : w.store.blocks.get key with
  | none => exact Or.inl rfl
  | some block =>
    by_cases hp : block.provider = provider
    · right
      rw [bind_some, bind_some, RouteStateStore.lapse, if_pos hp]
    · left
      rw [bind_some, RouteStateStore.lapse, if_neg hp]

private theorem get_of_fault (hw : w.store.Valid) (hstep : RouteStep c w e w') (hkey : e.1.faultKey c = some key)
    (hne : w'.store ≠ w.store) : ∃ block, w'.store.blocks.get key = some block := by
  obtain ⟨random, provider, model, failure, code, credential, guard, rfl, -, hstale, hstore⟩ :=
      store_of_fault hstep hkey hne
  have hmark := RouteStateStore.get_mark w.now random code credential hw hstale
      (scopeFor c provider model failure).key
  rw [← hstore, if_pos rfl] at hmark
  exact ⟨_, hmark⟩

private theorem mirrors_fault (h : Mirrors w faults) (hw : w.store.Valid) (hstep : RouteStep c w e w')
    (hkey : e.1.faultKey c = some key) (hne : w'.store ≠ w.store) (hb : w'.store.blocks.get key = some block) :
    Mirrors w' (Function.update faults key (some block)) := by
  obtain ⟨random, provider, model, failure, code, credential, guard, hkey, hnow, hstale, hstore⟩ :=
    store_of_fault hstep hkey hne
  have hmark := RouteStateStore.get_mark w.now random code credential hw hstale
  rw [← hstore, ← hkey] at hmark
  have hblock := hmark key
  rw [if_pos rfl, hb, Option.some.injEq] at hblock
  have hopened : block.phase = .opened := by
    rw [hblock]
    rfl
  rw [← hblock] at hmark
  refine ⟨?_, ?_, ?_⟩
  · intro key' block' hb'
    rw [hmark] at hb'
    by_cases hk : key = key'
    · subst hk
      rw [if_pos rfl] at hb'
      cases hb'
      exact ⟨block, Function.update_self .., block.continues_refl, Or.inl hopened⟩
    · rw [if_neg hk] at hb'
      rw [Function.update_of_ne (Ne.symm hk), hnow]
      exact h.held key' block' hb'
  · intro key' fault hfault
    by_cases hk : key = key'
    · subst hk
      rw [Function.update_self] at hfault
      cases hfault
      exact hopened
    · rw [Function.update_of_ne (Ne.symm hk)] at hfault
      exact h.opened key' fault hfault
  · intro key' fault hfault hlt
    rw [hmark]
    by_cases hk : key = key'
    · subst hk
      rw [Function.update_self] at hfault
      cases hfault
      rw [if_pos rfl]
    rw [Function.update_of_ne (Ne.symm hk)] at hfault
    rw [if_neg hk]
    rw [hnow] at hlt
    exact h.live key' fault hfault hlt

private theorem mirrors_recovery (h : Mirrors w faults) (hw : w.store.Valid) {guard : Option RouteGuard}
    {a : RouteAction}
    (hnow : w'.now = w.now) (hstore : w'.store = a.apply c w guard)
    (ha : (∃ provider model request, a = .success provider model request) ∨
      (∃ provider value, a = .observeCredential provider value) ∨ ∃ provider, a = .clearProvider provider) :
    Mirrors w' fun key => (faults key).filter fun fault => !a.clears c guard key fault := by
  rcases ha with ⟨provider, model, request, rfl⟩ | ⟨provider, value, rfl⟩ | ⟨provider, rfl⟩
  · -- the blocks that are due end first
    have hexpired : Mirrors ⟨(w.store.applying c w.now provider model true).2, w.now, w.guards⟩ faults :=
      expire_applying h hw rfl rfl
    change w'.store = w.store.success c w.now provider model guard at hstore
    refine hexpired.drop hnow _ ?_ ?_
    · intro key block fault hb hfault hcont
      rw [hstore, RouteStateStore.get_success hw, hb]
      have hgen := (hw.applying true).generation_eq hb
      obtain ⟨-, hgeneration, -, -, hreads⟩ := hcont.fields
      simp only [RouteAction.clears, RouteStateStore.seen, hgen, hgeneration, Option.some.injEq,
        exists_eq_left', hreads,
        Bool.and_eq_true]
    · intro key hnone
      rw [hstore, RouteStateStore.get_success hw]
      split
      · rfl
      · exact hnone
  · change w'.store = w.store.observeCredential c provider value at hstore
    refine h.drop hnow _ ?_ ?_
    · intro key block fault hb hfault hcont
      obtain ⟨-, -, hprovider, hcredential, -⟩ := hcont.fields
      have hclears : RouteAction.clears c guard key fault (.observeCredential provider value) =
          decide (block.provider = provider ∧ block.credential.any (· ≠ c.fingerprint value) = true) := by
        rw [hprovider, hcredential]
        rfl
      rw [hstore, RouteStateStore.get_observeCredential hw, hb, filter_some, hclears]
      cases decide (block.provider = provider ∧ block.credential.any (· ≠ c.fingerprint value) = true) <;> rfl
    · intro key hnone
      rw [hstore, RouteStateStore.get_observeCredential hw, hnone, filter_none]
  · change w'.store = w.store.clearProvider provider at hstore
    refine h.drop hnow _ ?_ ?_
    · intro key block fault hb hfault hcont
      obtain ⟨-, -, hprovider, -, -⟩ := hcont.fields
      have hclears : RouteAction.clears c guard key fault (.clearProvider provider) =
          decide (block.provider = provider) := by
        rw [hprovider]
        rfl
      rw [hstore, RouteStateStore.get_clearProvider hw, hb, filter_some, hclears, decide_not]
      cases decide (block.provider = provider) <;> rfl
    · intro key hnone
      rw [hstore, RouteStateStore.get_clearProvider hw, hnone, filter_none]

/-- The store mirrors what was recorded. -/
theorem mirrors_of_recorded (h : Recorded c w faults) : Mirrors w faults := by
  induction h with
  | fresh start => exact ⟨(by rintro _ _ ⟨⟩), (by rintro _ _ ⟨⟩), (by rintro _ _ ⟨⟩)⟩
  | fault hrecorded hstep hkey hne hb ih => exact mirrors_fault ih (valid_reached hrecorded.reached) hstep hkey hne hb
  | @other w w' e faults guard hrecorded hstep hkey hguard ih =>
    have hw := valid_reached hrecorded.reached
    obtain ⟨guard', hguard', hstore⟩ := (routeStepped hstep).store
    rw [hguard, Option.some.injEq] at hguard'
    subst hguard'
    have hnow := (routeStepped hstep).now
    obtain ⟨a, o⟩ := e
    change Mirrors w' fun key => (faults key).filter fun fault => !a.clears c guard key fault
    cases a with
    | tick ms =>
      rw [filter_clears faults fun _ _ => rfl]
      exact ih.expire (by rw [hnow]; exact Nat.le_add_right _ _) fun key => Or.inl (by rw [hstore]; rfl)
    | timer timerKey =>
      rw [filter_clears faults fun _ _ => rfl]
      change w'.now = w.now at hnow
      change w'.store = w.store.timer w.now timerKey at hstore
      refine ih.expire hnow.ge fun key => ?_
      rw [hstore, RouteStateStore.get_timer hw, hnow]
      by_cases hk : timerKey = key
      · subst hk
        exact Or.inr (if_pos rfl)
      · exact Or.inl (if_neg hk)
    | capture provider model =>
      rw [filter_clears faults fun _ _ => rfl]
      change w'.now = w.now at hnow
      exact ih.expire hnow.ge fun key => Or.inl (by rw [hstore]; rfl)
    | status | admitRoute =>
      rw [filter_clears faults fun _ _ => rfl]
      exact expire_applying ih hw hnow hstore
    | mark random provider model failure code credential request =>
      rw [filter_clears faults fun _ _ => rfl]
      change w'.now = w.now at hnow
      refine ih.expire hnow.ge fun key => Or.inl ?_
      rcases hkey with hkey | hkey
      · cases hkey
      · rw [hkey]
    | success provider model request => exact mirrors_recovery ih hw hnow hstore (Or.inl ⟨_, _, _, rfl⟩)
    | observeCredential provider value => exact mirrors_recovery ih hw hnow hstore (Or.inr (Or.inl ⟨_, _, rfl⟩))
    | clearProvider provider => exact mirrors_recovery ih hw hnow hstore (Or.inr (Or.inr ⟨_, rfl⟩))

/-- Every history of a store records its faults. -/
theorem recorded_of_reached (h : RouteReached c w) : ∃ faults, Recorded c w faults := by
  obtain ⟨start, tr, hrun⟩ := h
  suffices hrecorded : ∀ {w₀ : RouteWorld} {faults : Faults}, Recorded c w₀ faults → Run (RouteStep c) w₀ tr w →
      ∃ faults, Recorded c w faults from hrecorded (Recorded.fresh start) hrun
  clear hrun
  intro w₀ faults hrecorded hrun
  induction hrun generalizing faults with
  | nil => exact ⟨faults, hrecorded⟩
  | @cons w₀ w₁ w₂ e tr hstep _ ih =>
    have hw := valid_reached hrecorded.reached
    by_cases hkey : e.1.faultKey c = none ∨ w₁.store = w₀.store
    · obtain ⟨guard, hguard, -⟩ := (routeStepped hstep).store
      exact ih (hrecorded.other hstep hkey hguard)
    rw [not_or] at hkey
    obtain ⟨key, hkey'⟩ := ne_none_iff_exists'.mp hkey.1
    obtain ⟨block, hb⟩ := get_of_fault hw hstep hkey' hkey.2
    exact ih (hrecorded.fault hstep hkey' hkey.2 hb)

private theorem le_foldl_max {l : List Nat} {a n : Nat} (h : n ∈ l ∨ n ≤ a) : n ≤ l.foldl max a := by
  induction l generalizing a with
  | nil => exact h.resolve_left (by simp)
  | cons x l ih =>
    apply ih
    rcases h with h | h
    · rcases List.mem_cons.mp h with rfl | h
      · exact Or.inr (Nat.le_max_right _ _)
      · exact Or.inl h
    · exact Or.inr (h.trans (Nat.le_max_left _ _))

private theorem foldl_max_mem (l : List Nat) (a : Nat) : l.foldl max a ∈ l ∨ l.foldl max a = a := by
  induction l generalizing a with
  | nil => exact Or.inr rfl
  | cons x l ih =>
    rw [List.foldl_cons]
    rcases ih (max a x) with h | h
    · exact Or.inl (List.mem_cons_of_mem _ h)
    rw [h]
    rcases Nat.le_total a x with hle | hle
    · rw [Nat.max_eq_right hle]
      exact Or.inl (List.mem_cons_self ..)
    · rw [Nat.max_eq_left hle]
      exact Or.inr rfl

/-- The status of the scopes that apply: blocked until the latest of their ends. -/
theorem project_eq_some {entries : List (JsString × Block)} {status : RouteStatus}
    (h : RouteStateStore.project entries = some status) :
    (∃ entry ∈ entries, entry.2.until_ = status.until_) ∧ ∀ entry ∈ entries, entry.2.until_ ≤ status.until_ := by
  cases entries with
  | nil => cases h
  | cons entry rest =>
    unfold RouteStateStore.project at h
    rw [Option.some.injEq] at h
    rw [← h]
    generalize hentries : entry :: rest = entries
    have hle : ∀ entry ∈ entries, entry.2.until_ ≤ ((entries.map Prod.snd).map Block.until_).foldl max 0 := by
      intro entry he
      refine le_foldl_max (Or.inl ?_)
      rw [List.map_map]
      exact List.mem_map_of_mem he
    refine ⟨?_, hle⟩
    rcases foldl_max_mem ((entries.map Prod.snd).map Block.until_) 0 with hmem | hzero
    · rw [List.map_map, List.mem_map] at hmem
      obtain ⟨entry', he, heq⟩ := hmem
      rw [List.map_map] at hle ⊢
      exact ⟨entry', he, heq⟩
    have hentry : entry ∈ entries := by
      rw [← hentries]
      exact List.mem_cons_self ..
    have := hle entry hentry
    rw [hzero] at this
    exact ⟨entry, hentry, (Nat.le_zero.mp this).trans hzero.symm⟩

private theorem project_eq_none {entries : List (JsString × Block)} :
    RouteStateStore.project entries = none ↔ entries = [] := by
  cases entries <;> simp [RouteStateStore.project]

/-- The refusal of an admission is the status of the scopes that apply. -/
theorem admit_eq_blocked {s : RouteStateStore} {provider model : JsString} {status : RouteStatus} :
    (s.admitRoute c now provider model).1 = .blocked status ↔
    RouteStateStore.project (s.applying c now provider model false).1 = some status := by
  unfold RouteStateStore.admitRoute
  simp only
  split <;> simp_all

/-- The scopes that block a route at an instant are the recorded faults that have not ended. -/
theorem mem_applying_iff (h : Mirrors w faults) (hw : w.store.Valid) {provider model key : JsString} :
    (key, block) ∈ (w.store.applying c w.now provider model false).1 ↔ faults key = some block ∧
    block.reads provider model (c.admissionPools provider model) = true ∧ w.now < block.until_ := by
  rw [RouteStateStore.mem_applying hw, RouteStateStore.get_applying hw]
  constructor
  · rintro ⟨hb, hopened, hreads⟩
    have hopened : block.phase = .opened := hopened.resolve_left (by simp)
    rw [bind_eq_some_iff] at hb
    obtain ⟨before, hbefore, hlapse⟩ := hb
    have hprovider : before.provider = provider := by
      unfold RouteStateStore.lapse at hlapse
      split at hlapse
      · assumption
      · cases hlapse
        simp only [Block.reads, Bool.and_eq_true, beq_iff_eq] at hreads
        exact hreads.1
    rw [RouteStateStore.lapse, if_pos hprovider] at hlapse
    have hlt : w.now < block.until_ := by
      unfold Block.expired at hlapse
      split at hlapse
      · rename_i hdue
        cases hlapse
        exact hdue.resolve_left (by simp [hopened])
      · split at hlapse <;> cases hlapse
        cases hopened
    obtain ⟨fault, hfault, hcont, -⟩ := h.held key before hbefore
    have hcont' := (of_expired hlapse).1.trans hcont
    rw [hcont'.fields.1] at hlt
    have hlive := h.live key fault hfault hlt
    rw [hbefore, Option.some.injEq] at hlive
    rw [hlive, expired_of_lt hlt, Option.some.injEq] at hlapse
    rw [← hlapse]
    refine ⟨hfault, ?_, hlt⟩
    rw [hlapse]
    exact hreads
  · rintro ⟨hfault, hreads, hlt⟩
    refine ⟨?_, Or.inr (h.opened key block hfault), hreads⟩
    rw [h.live key block hfault hlt, bind_some, RouteStateStore.lapse, expired_of_lt hlt, ite_self]

/-- A step that records nothing: time passes, a timer fires, health is read, a request is admitted, or a fault is
fenced off. -/
def Quiet (w : RouteWorld) (a : RouteAction) (w' : RouteWorld) : Prop :=
  match a with
  | .mark .. => w'.store = w.store
  | .success .. | .observeCredential .. | .clearProvider .. => False
  | _ => True

theorem recorded_quiet (h : Recorded c w faults) (hstep : RouteStep c w e w') (hquiet : Quiet w e.1 w') :
    Recorded c w' faults := by
  obtain ⟨guard, hguard, -⟩ := (routeStepped hstep).store
  obtain ⟨a, o⟩ := e
  have hkey : a.faultKey c = none ∨ w'.store = w.store := by
    cases a with
    | mark random provider model failure code credential request => exact Or.inr hquiet
    | _ => exact Or.inl rfl
  have hclears : ∀ key fault, a.clears c guard key fault = false := by
    cases a with
    | success | observeCredential | clearProvider => exact hquiet.elim
    | _ => exact fun _ _ => rfl
  have hother := h.other hstep hkey hguard
  change Recorded c w' fun key => (faults key).filter fun fault => !a.clears c guard key fault at hother
  rw [filter_clears faults hclears] at hother
  exact hother

theorem recorded_quiet_run (h : Recorded c w faults)
    (hrun : Run (fun w e w' => RouteStep c w e w' ∧ Quiet w e.1 w') w tr w') : Recorded c w' faults :=
  hrun.invariant (fun w => Recorded c w faults) (fun _ _ _ h hstep => recorded_quiet h hstep.1 hstep.2) h

/-- Admission depends only on the recorded faults and on the time. -/
theorem circuit_admission (h : RouteReached c w) :
    (∃ faults, Recorded c w faults) ∧ ∀ faults, Recorded c w faults →
      -- an admission is refused exactly when a scope of the route holds a recorded fault that has not ended
      (∀ provider model, (∃ status, (w.store.admitRoute c w.now provider model).1 = .blocked status) ↔
        ∃ key fault, faults key = some fault ∧
          fault.reads provider model (c.admissionPools provider model) = true ∧ w.now < fault.until_) ∧
      -- a refusal reports when the route is granted again
      (∀ provider model status, (w.store.admitRoute c w.now provider model).1 = .blocked status → ∀ {tr w'},
        Run (fun w e w' => RouteStep c w e w' ∧ Quiet w e.1 w') w tr w' →
          ((∃ status', (w'.store.admitRoute c w'.now provider model).1 = .blocked status') ↔
            w'.now < status.until_)) ∧
      -- a held block is at the current generation of its key
      (∀ key block, w.store.blocks.get key = some block → w.store.generations.get key = some block.generation) ∧
      -- the table of generations is bounded
      w.store.generations.length ≤ w.store.blocks.length + MAX_GENERATION_TOMBSTONES := by
  have hrefused : ∀ {w : RouteWorld} {faults : Faults}, Recorded c w faults → ∀ provider model,
      (∃ status, (w.store.admitRoute c w.now provider model).1 = .blocked status) ↔
        ∃ key fault, faults key = some fault ∧
          fault.reads provider model (c.admissionPools provider model) = true ∧ w.now < fault.until_ := by
    intro w faults hrecorded provider model
    have hw := valid_reached hrecorded.reached
    have hmirrors := mirrors_of_recorded hrecorded
    simp only [admit_eq_blocked]
    constructor
    · rintro ⟨status, hstatus⟩
      obtain ⟨⟨⟨key, block⟩, he, -⟩, -⟩ := project_eq_some hstatus
      exact ⟨key, block, (mem_applying_iff hmirrors hw).mp he⟩
    · rintro ⟨key, fault, hfault⟩
      have he := (mem_applying_iff (c := c) hmirrors hw).mpr hfault
      refine Option.ne_none_iff_exists'.mp fun hnone => ?_
      rw [project_eq_none.mp hnone] at he
      cases he
  refine ⟨recorded_of_reached h, fun faults hrecorded => ⟨hrefused hrecorded, ?_, ?_, ?_⟩⟩
  · intro provider model status hstatus tr w' hrun
    have hw := valid_reached h
    have hmirrors := mirrors_of_recorded hrecorded
    have hnow : w.now ≤ w'.now := now_le_run (hrun.mono fun _ _ _ hstep => hstep.1)
    obtain ⟨⟨⟨key, block⟩, he, huntil⟩, hle⟩ := project_eq_some (admit_eq_blocked.mp hstatus)
    rw [hrefused (recorded_quiet_run hrecorded hrun)]
    constructor
    · rintro ⟨key', fault, hfault, hreads, hlt⟩
      have hmem := (mem_applying_iff hmirrors hw).mpr ⟨hfault, hreads, hnow.trans_lt hlt⟩
      exact hlt.trans_le (hle _ hmem)
    · intro hlt
      obtain ⟨hfault, hreads, -⟩ := (mem_applying_iff hmirrors hw).mp he
      exact ⟨key, block, hfault, hreads, by rw [huntil]; exact hlt⟩
  · exact fun key block hb => (valid_reached h).generation_eq hb
  · exact (valid_reached h).fits

/-- A route is refused while its cooldown lasts, and granted when it ends, though no timer fired. -/
theorem circuit_admission_after_cooldown :
    let fault := RouteAction.mark 0 (js "p") (js "m") missingModel 404 [] none
    let w := poollessAfter [fault]
    let w' := poollessAfter [fault, .tick 60000]
    (∃ status, (w.store.admitRoute poollessConfig w.now (js "p") (js "m")).1 = .blocked status) ∧
      ¬∃ status, (w'.store.admitRoute poollessConfig w'.now (js "p") (js "m")).1 = .blocked status := by
  intro fault w w'
  have hreached : RouteReached poollessConfig w := reached_poolless (by decide)
  have hstatus : (w.store.admitRoute poollessConfig w.now (js "p") (js "m")).1 =
      .blocked ⟨.modelUnavailable, 60000, .modelUnavailable, .opened, false⟩ := by decide
  obtain ⟨⟨faults, hrecorded⟩, hcircuit⟩ := circuit_admission hreached
  have hstep : RouteStep poollessConfig w (.tick 60000, .done) w' := by
    unfold RouteStep StepOf
    decide
  refine ⟨⟨_, hstatus⟩, ?_⟩
  rw [(hcircuit faults hrecorded).2.1 _ _ _ hstatus (Run.single ⟨hstep, trivial⟩)]
  decide

end Wrenyard.Gateway
