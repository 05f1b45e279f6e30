import Harbor.Orm.Contexts

/-!
# Callbacks of detached contexts

A context from `Clone` or `Copy` keeps the sink of the scope it was derived in.  So a
transaction on it does not own a sink: its callbacks run if the other scope drains
the sink later, and after a commit.

* `detached_callbacks_run_once`: as long as detached contexts register their callbacks
  while the sink is still to be drained, and no scope fails whose sink has such a
  callback, each of them runs once.
* `detached_callbacks_lost`: both conditions are needed.
-/

namespace Harbor.Orm.Detached

open Concurrency List Option Scope World

variable {Hook : Type}

/-! ## Committed work -/

/-- The commit of the scope has succeeded. -/
def Phase.Succeeded : Phase → Prop
  | .committed | .firing _ | .ended true => True
  | _ => False

/-- What is done with the context outside of a transaction, or in a transaction whose scopes
around it have all been committed. -/
inductive World.Committed (world : World Hook) : Context → Prop
  | direct {ctx : Context} (horm : ctx.orm = some .ormer) : Committed world ctx
  | inside {ctx : Context} {s : ℕ} {scope : Scope} (horm : ctx.orm = some (.txOrmer s))
      (hscope : world.scopes[s]? = some scope) (hphase : scope.phase.Succeeded)
      (hparent : Committed world scope.ctx) : Committed world ctx

variable (world : World Hook)

/-- The callback is that of a detached context and of committed work. -/
def World.IsDue (r : ℕ) : Prop :=
  ∃ reg, world.registrations[r]? = some reg ∧ reg.ctx.detached = true ∧ world.Committed reg.ctx

def Phase.hasEnded : Phase → Bool
  | .ended _ => true
  | _ => false

def World.AllEnded : Prop :=
  ∀ scope ∈ world.scopes, scope.phase.hasEnded = true

instance (world : World Hook) : Decidable world.AllEnded :=
  inferInstanceAs (Decidable (∀ scope ∈ world.scopes, scope.phase.hasEnded = true))

/-- A scope that is not at its end holds the callback. -/
def World.Waits (r : ℕ) : Prop :=
  ∃ scope ∈ world.scopes, r ∈ scope.held ∧ scope.phase.hasEnded = false

/-- The sink is still going to be drained, and its callbacks to be run. -/
def Phase.Open (phase : Phase) : Prop :=
  phase = .running ∨ phase = .committed

/-- No callback in the sink of the scope is that of a detached context. -/
def World.NoneDetached (s : ℕ) : Prop :=
  ∀ scope, world.scopes[s]? = some scope → ∀ r ∈ scope.afterCommit,
    ∀ reg, world.registrations[r]? = some reg → reg.ctx.detached = false

/-- Detached contexts only register callbacks in a sink that is open, and no scope fails
whose sink has a callback of a detached context. -/
def InTime (before : World Hook) (action : Action Hook) (_after : World Hook) : Prop :=
  match action with
  | .afterCommit i (some _) => ∀ ctx, before.contexts[i]? = some ctx → ctx.detached = true →
      ∀ s scope, ctx.hooks = some s → before.scopes[s]? = some scope → scope.phase.Open
  | .returnError s => before.NoneDetached s
  | .commit s true => before.NoneDetached s
  | _ => True

/-! ## The invariant -/

/-- The callback has run, or the scope holds it; if it is in the sink, the sink is open. -/
def Accounted (fired : List ℕ) (scope : Scope) (r : ℕ) : Prop :=
  fired.count r + scope.held.count r = 1 ∧ (r ∈ scope.afterCommit → scope.phase.Open)

structure Kept (world : World Hook) : Prop where
  detached : ∀ ctx ∈ world.contexts, ctx.detached = true → ctx.hooks.isSome
  owned : ∀ ctx ∈ world.contexts, ∀ s, ctx.hooks = some s →
    ∃ scope, world.scopes[s]? = some scope ∧ scope.ownsHooks = true
  registered : ∀ reg ∈ world.registrations, reg.ctx ∈ world.contexts
  held : ∀ (s : ℕ) (scope : Scope), world.scopes[s]? = some scope → ∀ r ∈ scope.held,
    ∃ reg, world.registrations[r]? = some reg ∧ reg.ctx.hooks = some s
  fired : ∀ r ∈ world.fired, r < world.registrations.length
  accounted : ∀ (r : ℕ) (reg : Registration Hook), world.registrations[r]? = some reg →
    reg.ctx.detached = true → ∀ (s : ℕ) (scope : Scope), reg.ctx.hooks = some s →
      world.scopes[s]? = some scope → Accounted world.fired scope r

variable {world : World Hook} {ctx : Context} {s : ℕ} {scope : Scope} {next : World Hook}

theorem kept_start : Kept ({} : World Hook) where
  detached := by simp
  owned := by simp
  registered := by simp
  held := by simp
  fired := by simp
  accounted := by simp

theorem Kept.derive (hkept : Kept world) (hdetached : ctx.detached = true → ctx.hooks.isSome)
    (howned : ∀ s, ctx.hooks = some s →
      ∃ scope, world.scopes[s]? = some scope ∧ scope.ownsHooks = true) :
    Kept (world.derive ctx) where
  detached := by
    simp only [World.derive, mem_append, mem_singleton]
    rintro other (hother | rfl)
    · exact hkept.detached other hother
    · exact hdetached
  owned := by
    simp only [World.derive, mem_append, mem_singleton]
    rintro other (hother | rfl)
    · exact hkept.owned other hother
    · exact howned
  registered := fun reg hreg => mem_append_left _ (hkept.registered reg hreg)
  held := hkept.held
  fired := hkept.fired
  accounted := hkept.accounted

theorem Kept.derive_detached (hkept : Kept world) {i : ℕ} (hctx : world.contexts[i]? = some ctx) :
    Kept (world.derive ctx.copy) :=
  hkept.derive id (hkept.owned ctx (mem_of_getElem? hctx))

theorem getElem?_concat_eq_some {α : Type} {entries : List α} {new entry : α} {i : ℕ} :
    (entries ++ [new])[i]? = some entry ↔
      entries[i]? = some entry ∨ i = entries.length ∧ entry = new := by
  rcases Nat.lt_trichotomy i entries.length with hlt | rfl | hgt
  · simp [getElem?_append_left hlt, Nat.ne_of_lt hlt]
  · simp [eq_comm]
  · have hne : i - entries.length ≠ 0 := by omega
    simp [getElem?_append_right (Nat.le_of_lt hgt), hne,
      getElem?_eq_none (Nat.le_of_lt hgt), Nat.ne_of_gt hgt]

theorem Kept.addScope (hkept : Kept world) (ctx : Context) (tx : ℕ) :
    Kept (world.addScope ctx tx) where
  detached := hkept.detached
  owned := fun other hother s hs => (hkept.owned other hother s hs).imp fun scope h =>
    ⟨getElem?_concat_eq_some.mpr (.inl h.1), h.2⟩
  registered := hkept.registered
  held := by
    intro s scope hscope r hr
    rcases getElem?_concat_eq_some.mp hscope with hscope | ⟨-, rfl⟩
    · exact hkept.held s scope hscope r hr
    · cases hr
  fired := hkept.fired
  accounted := by
    intro r reg hreg hdetached s scope hs hscope
    rcases getElem?_concat_eq_some.mp hscope with hscope | ⟨rfl, -⟩
    · exact hkept.accounted r reg hreg hdetached s scope hs hscope
    · -- the sink of a registration is older
      obtain ⟨old, hold, -⟩ := hkept.owned _ (hkept.registered reg (mem_of_getElem? hreg)) _ hs
      exact absurd (List.getElem?_eq_some_iff.mp hold).1 (Nat.lt_irrefl _)

/-- A new scope holds nothing, and its sink is its own or that of its context. -/
theorem Kept.enter (hkept : Kept world) (hctx : ctx ∈ world.contexts) (tx : ℕ) :
    Kept (world.enter ctx tx) := by
  refine (hkept.addScope ctx tx).derive (fun _ => rfl) ?_
  intro s hs
  cases hhooks : ctx.hooks with
  | none =>
    obtain rfl : world.scopes.length = s := by
      simpa [Context.inside, Context.newContext, hhooks] using hs
    exact ⟨.opened ctx tx, getElem?_concat_eq_some.mpr (.inr ⟨rfl, rfl⟩),
      by simp [opened, ownsHooks, hhooks]⟩
  | some owner =>
    obtain rfl : owner = s := by
      simpa [Context.inside, Context.newContext, hhooks] using hs
    exact (hkept.addScope ctx tx).owned ctx hctx owner hhooks

/-! ## Registrations -/

theorem World.setScope_getElem? {t : ℕ} {old new : Scope} (hold : world.scopes[s]? = some old) :
    (world.setScope s new).scopes[t]? = some scope ↔
      t = s ∧ scope = new ∨ t ≠ s ∧ world.scopes[t]? = some scope := by
  have hlt := (List.getElem?_eq_some_iff.mp hold).1
  by_cases hts : t = s
  · subst hts
    simp [setScope, hlt, eq_comm]
  · simp [setScope, hts, Ne.symm hts]

theorem Kept.owned_setScope (hkept : Kept world) (new : Scope)
    (hscope : world.scopes[s]? = some scope) (hctx : new.ctx = scope.ctx)
    (hmem : ctx ∈ world.contexts) {t : ℕ} (ht : ctx.hooks = some t) :
    ∃ other, (world.setScope s new).scopes[t]? = some other ∧ other.ownsHooks = true := by
  obtain ⟨other, hother, howns⟩ := hkept.owned ctx hmem t ht
  by_cases hts : t = s
  · subst hts
    cases hscope.symm.trans hother
    refine ⟨new, (setScope_getElem? hscope).mpr (.inl ⟨rfl, rfl⟩), ?_⟩
    rw [ownsHooks, hctx]
    exact howns
  · exact ⟨other, (setScope_getElem? hscope).mpr (.inr ⟨hts, hother⟩), howns⟩

/-- The scope `s` changes to `new`, and callbacks that it has held run. -/
theorem Kept.setScope (hkept : Kept world) {new : Scope} {fired : List ℕ}
    (hscope : world.scopes[s]? = some scope) (hctx : new.ctx = scope.ctx)
    (hheld : ∀ r ∈ new.held, r ∈ scope.held)
    (hfired : ∀ r, r ∉ scope.held → fired.count r = world.fired.count r)
    (haccounted : scope.ownsHooks = true → ∀ (r : ℕ) (reg : Registration Hook),
      world.registrations[r]? = some reg → reg.ctx.detached = true →
        Accounted world.fired scope r → Accounted fired new r) :
    Kept { world.setScope s new with fired } where
  detached := hkept.detached
  owned := fun ctx hmem t ht => hkept.owned_setScope new hscope hctx hmem ht
  registered := hkept.registered
  held := by
    intro t other hother r hr
    rcases (setScope_getElem? hscope).mp hother with ⟨rfl, rfl⟩ | ⟨-, hother⟩
    · exact hkept.held _ scope hscope r (hheld r hr)
    · exact hkept.held t other hother r hr
  fired := by
    intro r hr
    by_cases hmem : r ∈ scope.held
    · obtain ⟨reg, hreg, -⟩ := hkept.held s scope hscope r hmem
      exact (List.getElem?_eq_some_iff.mp hreg).1
    · have hcount := hfired r hmem
      rw [← count_pos_iff] at hr
      exact hkept.fired r (count_pos_iff.mp (hcount ▸ hr))
  accounted := by
    intro r reg hreg hdetached t other ht hother
    obtain ⟨owner, howner, howns⟩ := hkept.owned _
      (hkept.registered reg (mem_of_getElem? hreg)) t ht
    have hold := hkept.accounted r reg hreg hdetached t owner ht howner
    rcases (setScope_getElem? hscope).mp hother with ⟨rfl, rfl⟩ | ⟨hne, hother⟩
    · cases hscope.symm.trans howner
      exact haccounted howns r reg hreg hdetached hold
    · -- another scope holds the callback, so that it is not among those of `s`
      cases howner.symm.trans hother
      have hnot : r ∉ scope.held := by
        intro hmem
        obtain ⟨reg', hreg', hhooks⟩ := hkept.held s scope hscope r hmem
        cases hreg.symm.trans hreg'
        exact hne (some.inj (ht.symm.trans hhooks))
      rw [Accounted, hfired r hnot]
      exact hold

theorem Scope.count_held_add (scope : Scope) (new r : ℕ) :
    (scope.add new).held.count r = scope.held.count r + [new].count r := by
  simp only [held, drained, add, count_append]
  omega

theorem Scope.mem_held_add {new r : ℕ} : r ∈ (scope.add new).held ↔ r ∈ scope.held ∨ r = new := by
  simp only [held, drained, add, mem_append, mem_singleton]
  tauto

variable (hkept : Kept world)
include hkept

theorem Kept.not_held (hscope : world.scopes[s]? = some scope) :
    world.registrations.length ∉ scope.held := by
  intro hmem
  obtain ⟨reg, hreg, -⟩ := hkept.held s scope hscope _ hmem
  exact absurd (List.getElem?_eq_some_iff.mp hreg).1 (Nat.lt_irrefl _)

theorem Kept.not_fired : world.registrations.length ∉ world.fired :=
  fun hmem => absurd (hkept.fired _ hmem) (Nat.lt_irrefl _)

/-- A callback goes into the sink of its context. -/
theorem Kept.register (hctx : ctx ∈ world.contexts) (hhooks : ctx.hooks = some s)
    (hscope : world.scopes[s]? = some scope) (fn : Hook)
    (hopen : ctx.detached = true → scope.phase.Open) :
    Kept ((world.record ctx fn).setScope s (scope.add world.registrations.length)) := by
  have hold : ∀ {r reg}, world.registrations[r]? = some reg → r ≠ world.registrations.length :=
    fun hreg => Nat.ne_of_lt (List.getElem?_eq_some_iff.mp hreg).1
  exact {
    detached := hkept.detached
    owned := fun other hother t ht => hkept.owned_setScope (scope.add _) hscope rfl hother ht
    registered := by
      intro reg hreg
      rcases mem_append.mp hreg with hreg | hreg
      · exact hkept.registered reg hreg
      · obtain rfl := mem_singleton.mp hreg
        exact hctx
    held := by
      intro t other hother r hr
      rcases (setScope_getElem? hscope).mp hother with ⟨rfl, rfl⟩ | ⟨-, hother⟩
      · rcases mem_held_add.mp hr with hr | rfl
        · obtain ⟨reg, hreg, hs⟩ := hkept.held _ scope hscope r hr
          exact ⟨reg, getElem?_concat_eq_some.mpr (.inl hreg), hs⟩
        · exact ⟨⟨ctx, fn⟩, getElem?_concat_eq_some.mpr (.inr ⟨rfl, rfl⟩), hhooks⟩
      · obtain ⟨reg, hreg, hs⟩ := hkept.held t other hother r hr
        exact ⟨reg, getElem?_concat_eq_some.mpr (.inl hreg), hs⟩
    fired := fun r hr => by
      rw [World.setScope, World.record, length_append]
      exact Nat.lt_add_right _ (hkept.fired r hr)
    accounted := by
      intro r reg hreg hdetached t other ht hother
      rcases getElem?_concat_eq_some.mp hreg with hknown | ⟨rfl, rfl⟩
      · rcases (setScope_getElem? hscope).mp hother with ⟨rfl, rfl⟩ | ⟨-, hother⟩
        · obtain ⟨honce, hsink⟩ := hkept.accounted r reg hknown hdetached _ scope ht hscope
          refine ⟨?_, ?_⟩
          · rw [count_held_add, count_cons_of_ne (hold hknown).symm]
            exact honce
          · intro hr
            rw [add, mem_append, mem_singleton, or_iff_left (hold hknown)] at hr
            exact hsink hr
        · exact hkept.accounted r reg hknown hdetached t other ht hother
      · cases hhooks.symm.trans ht
        rcases (setScope_getElem? hscope).mp hother with ⟨-, rfl⟩ | ⟨hne, -⟩
        · refine ⟨?_, fun _ => hopen hdetached⟩
          rw [count_held_add, count_eq_zero.mpr (hkept.not_held hscope), count_singleton_self]
          exact congrArg (· + 1) (count_eq_zero.mpr hkept.not_fired)
        · exact absurd rfl hne }

/-- Without a sink a callback runs at once; its context is not a detached one. -/
theorem Kept.register_now (hctx : ctx ∈ world.contexts) (hhooks : ctx.hooks = none) (fn : Hook) :
    Kept { world.record ctx fn with fired := world.fired ++ [world.registrations.length] } where
  detached := hkept.detached
  owned := hkept.owned
  registered := by
    intro reg hreg
    rcases mem_append.mp hreg with hreg | hreg
    · exact hkept.registered reg hreg
    · obtain rfl := mem_singleton.mp hreg
      exact hctx
  held := by
    intro s scope hscope r hr
    obtain ⟨reg, hreg, hs⟩ := hkept.held s scope hscope r hr
    exact ⟨reg, getElem?_concat_eq_some.mpr (.inl hreg), hs⟩
  fired := by
    intro r hr
    rw [record, length_append, length_singleton]
    rcases mem_append.mp hr with hr | hr
    · exact Nat.lt_succ_of_lt (hkept.fired r hr)
    · rw [mem_singleton.mp hr]
      exact Nat.lt_succ_self _
  accounted := by
    intro r reg hreg hdetached s scope hs hscope
    rcases getElem?_concat_eq_some.mp hreg with hknown | ⟨rfl, rfl⟩
    · have hne := Nat.ne_of_lt (List.getElem?_eq_some_iff.mp hknown).1
      rw [Accounted, count_append, count_cons_of_ne hne.symm]
      exact hkept.accounted r reg hknown hdetached s scope hs hscope
    · exact absurd (hhooks.symm.trans hs) (by simp)

/-! ## Runs -/

theorem Kept.afterCommit (hctx : ctx ∈ world.contexts) (fn : Hook)
    (hopen : ctx.detached = true → ∀ (s : ℕ) (scope : Scope), ctx.hooks = some s →
      world.scopes[s]? = some scope → scope.phase.Open) : Kept (world.afterCommit ctx fn) := by
  unfold World.afterCommit
  cases hhooks : ctx.hooks with
  | none => exact hkept.register_now hctx hhooks fn
  | some s =>
    obtain ⟨scope, hscope, -⟩ := hkept.owned ctx hctx s hhooks
    simp only [hscope]
    exact hkept.register hctx hhooks hscope fn fun hdetached =>
      hopen hdetached s scope hhooks hscope

omit hkept

section

variable (hkept : Kept world) (hscope : world.scopes[s]? = some scope)
include hkept hscope

theorem Kept.setPhase {phase : Phase} (hbefore : scope.drained = [])
    (hafter : ({ scope with phase } : Scope).drained = [])
    (hopen : scope.ownsHooks = true → phase.Open ∨ world.NoneDetached s) :
    Kept (world.setScope s { scope with phase }) := by
  have hheld : ({ scope with phase } : Scope).held = scope.held := by
    rw [Scope.held, Scope.held, hbefore, hafter]
  refine hkept.setScope hscope rfl ?_ (fun _ _ => rfl) ?_
  · rw [hheld]
    exact fun r hr => hr
  · intro howns r reg hreg hdetached haccounted
    refine ⟨hheld ▸ haccounted.1, fun hr => ?_⟩
    rcases hopen howns with hopen | hnone
    · exact hopen
    · rw [hnone scope hscope r hr reg hreg] at hdetached
      cases hdetached

/-- Detached contexts have no callback in a sink that is not open. -/
theorem Kept.noneDetached (hclosed : ¬ scope.phase.Open) : world.NoneDetached s := by
  intro other hother r hr reg hreg
  cases hscope.symm.trans hother
  obtain ⟨reg', hreg', hs⟩ := hkept.held s scope hscope r (mem_append_left _ hr)
  cases hreg.symm.trans hreg'
  rw [← Bool.not_eq_true]
  intro hdetached
  exact hclosed ((hkept.accounted r reg hreg hdetached s scope hs hscope).2 hr)

theorem Kept.discard {phase : Phase} (hnone : world.NoneDetached s) (hbefore : scope.drained = [])
    (hafter : ({ scope with afterCommit := [], phase } : Scope).drained = []) :
    Kept (world.setScope s { scope with afterCommit := [], phase }) := by
  have hheld : ({ scope with afterCommit := [], phase } : Scope).held = [] := by
    rw [Scope.held, hafter, append_nil]
  refine hkept.setScope hscope rfl ?_ (fun _ _ => rfl) ?_
  · rw [hheld]
    simp
  · intro _ r reg hreg hdetached haccounted
    have hr : r ∉ scope.afterCommit := by
      intro hr
      rw [hnone scope hscope r hr reg hreg] at hdetached
      cases hdetached
    have hcount : scope.held.count r = 0 := by
      rw [count_eq_zero, Scope.held, hbefore, append_nil]
      exact hr
    refine ⟨?_, fun hr => absurd hr (by simp)⟩
    rw [hheld, count_nil, ← hcount]
    exact haccounted.1

theorem Kept.returnError (hnone : world.NoneDetached s)
    (hnext : world.returnError s scope = some next) : Kept next := by
  unfold World.returnError at hnext
  split at hnext
  · rename_i hphase
    cases hnext
    have hbefore : scope.drained = [] := by rw [drained, hphase]
    unfold Scope.discard
    split_ifs with howns
    · exact hkept.discard hscope hnone hbefore rfl
    · exact hkept.setPhase hscope hbefore rfl fun h => absurd h howns
  · cases hnext

theorem Kept.rollback (hnext : world.rollback s scope = some next) : Kept next := by
  unfold World.rollback at hnext
  split at hnext
  · rename_i hphase
    cases hnext
    refine hkept.setPhase hscope (by rw [drained, hphase]) rfl fun _ => .inr ?_
    exact hkept.noneDetached hscope (by simp [hphase, Phase.Open])
  · cases hnext

theorem Kept.commit {fails : Bool} (hnone : fails = true → world.NoneDetached s)
    (hnext : world.commit s scope fails = some next) : Kept next := by
  unfold World.commit at hnext
  split at hnext
  · rename_i hphase
    have hbefore : scope.drained = [] := by rw [drained, hphase]
    split_ifs at hnext with hfails howns hactive howns
    · cases hnext
      exact hkept.setPhase hscope hbefore rfl fun _ => .inr (hnone hfails)
    · cases hnext
      exact hkept.setPhase hscope hbefore rfl fun h => absurd h howns
    · cases hnext
      exact hkept.setPhase hscope hbefore rfl fun _ => .inl (.inr rfl)
    · cases hnext
      exact hkept.setPhase hscope hbefore rfl fun h => absurd h howns
  · cases hnext

theorem Kept.drain (hnext : world.drain s scope = some next) : Kept next := by
  unfold World.drain at hnext
  split at hnext
  · rename_i hphase
    cases hnext
    have hheld : scope.held = scope.afterCommit := by
      rw [Scope.held, drained, hphase, append_nil]
    refine hkept.setScope hscope rfl ?_ (fun _ _ => rfl) ?_
    · rw [hheld]
      exact fun r hr => hr
    · intro _ r reg _ _ haccounted
      refine ⟨?_, fun hr => absurd hr (by simp)⟩
      rw [← haccounted.1, hheld]
      rfl
  · rename_i hphase
    cases hnext
    exact hkept.discard hscope (hkept.noneDetached hscope (by simp [hphase, Phase.Open]))
      (by rw [drained, hphase]) rfl
  · cases hnext

theorem Kept.fire (hnext : world.fire s scope = some next) : Kept next := by
  unfold World.fire at hnext
  split at hnext
  · rename_i r rest hphase
    cases hnext
    have hheld : scope.held = scope.afterCommit ++ r :: rest := by
      rw [Scope.held, drained, hphase]
    refine hkept.setScope hscope rfl ?_ ?_ ?_
    · intro other hother
      rw [hheld]
      exact (List.Sublist.append_left (sublist_cons_self r rest) _).subset hother
    · intro other hother
      rw [hheld] at hother
      have hne : other ≠ r := by
        rintro rfl
        simp at hother
      rw [count_append, count_cons_of_ne hne.symm]
      rfl
    · intro _ other reg hreg hdetached haccounted
      refine ⟨?_, ?_⟩
      · -- the callback is counted among those that have run from now on
        rw [← haccounted.1, hheld]
        simp only [Scope.held, drained, count_append, count_cons, count_nil]
        omega
      · intro hother
        have hopen := haccounted.2 hother
        simp [hphase, Phase.Open] at hopen
  · rename_i hphase
    cases hnext
    refine hkept.setPhase hscope (by rw [drained, hphase]) rfl fun _ => .inr ?_
    exact hkept.noneDetached hscope (by simp [hphase, Phase.Open])
  · cases hnext

end

theorem Kept.begin (hkept : Kept world) (hctx : ctx ∈ world.contexts) {fails : Bool}
    (hnext : world.begin ctx fails = some next) : Kept next := by
  unfold World.begin at hnext
  split at hnext
  · cases hnext
    exact hkept
  · cases hnext
    split_ifs
    · exact hkept
    · exact hkept.enter hctx _
  · split_ifs at hnext
    · cases hnext
      exact hkept
    · obtain ⟨scope, -, hnext⟩ := bind_eq_some_iff.mp hnext
      split_ifs at hnext
      cases hnext
      exact hkept.enter hctx _

theorem Kept.step {action : Action Hook} (hkept : Kept world)
    (hnext : world.step action = some next) (htime : InTime world action next) : Kept next := by
  cases action with
  | context =>
    cases hnext
    exact hkept.derive (fun h => by cases h) (fun s h => by cases h)
  | clone i | copy i =>
    obtain ⟨ctx, hctx, rfl⟩ := map_eq_some_iff.mp hnext
    exact hkept.derive_detached hctx
  | afterCommit i fn =>
    cases fn with
    | none =>
      obtain ⟨ctx, -, rfl⟩ := map_eq_some_iff.mp hnext
      exact hkept
    | some fn =>
      obtain ⟨ctx, hctx, rfl⟩ := map_eq_some_iff.mp hnext
      exact hkept.afterCommit (mem_of_getElem? hctx) fn (htime ctx hctx)
  | begin i fails =>
    obtain ⟨ctx, hctx, hnext⟩ := bind_eq_some_iff.mp hnext
    exact hkept.begin (mem_of_getElem? hctx) hnext
  | returnError s =>
    obtain ⟨scope, hscope, hnext⟩ := bind_eq_some_iff.mp hnext
    exact hkept.returnError hscope htime hnext
  | rollback s fails =>
    obtain ⟨scope, hscope, hnext⟩ := bind_eq_some_iff.mp hnext
    exact hkept.rollback hscope hnext
  | commit s fails =>
    obtain ⟨scope, hscope, hnext⟩ := bind_eq_some_iff.mp hnext
    refine hkept.commit hscope ?_ hnext
    rintro rfl
    exact htime
  | drain s =>
    obtain ⟨scope, hscope, hnext⟩ := bind_eq_some_iff.mp hnext
    exact hkept.drain hscope hnext
  | fire s =>
    obtain ⟨scope, hscope, hnext⟩ := bind_eq_some_iff.mp hnext
    exact hkept.fire hscope hnext

/-- A callback of a detached context has run once, or it waits in a scope that is open. -/
theorem Kept.once_or_waits (hkept : Kept world) {r : ℕ} (hdue : world.IsDue r) :
    world.fired.count r = 1 ∨ world.fired.count r = 0 ∧ world.Waits r := by
  obtain ⟨reg, hreg, hdetached, -⟩ := hdue
  have hmem := hkept.registered reg (mem_of_getElem? hreg)
  obtain ⟨s, hs⟩ := isSome_iff_exists.mp (hkept.detached _ hmem hdetached)
  obtain ⟨scope, hscope, -⟩ := hkept.owned _ hmem s hs
  obtain ⟨honce, hsink⟩ := hkept.accounted r reg hreg hdetached s scope hs hscope
  rcases Nat.eq_zero_or_pos (scope.held.count r) with hzero | hpos
  · left
    omega
  · right
    have hheld := count_pos_iff.mp hpos
    refine ⟨by omega, scope, mem_of_getElem? hscope, hheld, ?_⟩
    cases hphase : scope.phase with
    | ended success =>
      rw [Scope.held, drained, hphase, append_nil] at hheld
      have hopen := hsink hheld
      simp [hphase, Phase.Open] at hopen
    | _ => rfl

/-- **Callbacks of detached contexts run exactly once** in every run whose steps are all in
time: in every state each of them has run once or waits in a scope that is still open, and
when all scopes have ended, it has run once. -/
theorem detached_callbacks_run_once (actions : List (Action Hook)) (final : World Hook)
    (hrun : exec World.step {} actions = some final)
    (htime : EveryStep World.step InTime {} actions) :
    (∀ r, final.IsDue r →
      final.fired.count r = 1 ∨ final.fired.count r = 0 ∧ final.Waits r) ∧
    (final.AllEnded → ∀ r, final.IsDue r → final.fired.count r = 1) := by
  have hkept : Kept final := exec_invariant Kept (fun _ _ _ => Kept.step) kept_start htime hrun
  refine ⟨fun r hdue => hkept.once_or_waits hdue, fun hended r hdue => ?_⟩
  rcases hkept.once_or_waits hdue with honce | ⟨-, scope, hscope, -, hopen⟩
  · exact honce
  · rw [hended scope hscope] at hopen
    cases hopen

/-- A scope opens, its context is copied, and a transaction on the copy commits with a
callback before the scope itself does. -/
def transactionInTime : List (Action ℕ) :=
  [.context, .begin 1 false, .copy 2, .begin 3 false, .afterCommit 4 (some 7), .commit 1 false,
    .commit 0 false, .drain 0, .fire 0, .fire 0]

theorem detached_callbacks_run_once_in_time :
    ∃ final, exec World.step {} transactionInTime = some final ∧ final.AllEnded ∧
      final.IsDue 0 ∧ final.fired.count 0 = 1 := by
  have htime : EveryStep step InTime {} transactionInTime := by
    iterate 4 refine everyStep_cons rfl trivial ?_
    refine everyStep_cons rfl (fun ctx hctx _ s scope hs hscope => ?_) ?_
    · cases hctx
      cases hs
      cases hscope
      exact .inl rfl
    · iterate 5 refine everyStep_cons rfl trivial ?_
      trivial
  refine ⟨_, rfl, by decide, ?_, (detached_callbacks_run_once _ _ rfl htime).2 (by decide) 0 ?_⟩
  all_goals exact ⟨_, rfl, rfl, .inside rfl rfl trivial (.direct rfl)⟩

/-- The transaction on the copy begins when the scope has ended. -/
def transactionTooLate : List (Action ℕ) :=
  [.context, .begin 1 false, .copy 2, .commit 0 false, .drain 0, .fire 0,
    .begin 3 false, .afterCommit 4 (some 7), .commit 1 false]

/-- The transaction on the copy commits, and then the scope is rolled back. -/
def scopeRolledBack : List (Action ℕ) :=
  [.context, .begin 1 false, .copy 2, .begin 3 false, .afterCommit 4 (some 7), .commit 1 false,
    .returnError 0, .rollback 0 false]

/-- The transaction on the copy is committed and its callback never runs: it sits in a sink
that nobody drains any more, or it is thrown away with the rollback of the other scope. -/
theorem detached_callbacks_lost :
    (∃ final, exec World.step {} transactionTooLate = some final ∧ final.AllEnded ∧
      final.IsDue 0 ∧ final.fired = []) ∧
    (∃ final, exec World.step {} scopeRolledBack = some final ∧ final.AllEnded ∧
      final.IsDue 0 ∧ final.fired = []) := by
  constructor
  · exact ⟨_, rfl, by decide, ⟨_, rfl, rfl, .inside rfl rfl trivial (.direct rfl)⟩, rfl⟩
  · exact ⟨_, rfl, by decide, ⟨_, rfl, rfl, .inside rfl rfl trivial (.direct rfl)⟩, rfl⟩

end Harbor.Orm.Detached
