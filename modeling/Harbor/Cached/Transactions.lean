import Harbor.Cached.Managers
import Harbor.Concurrency.Transition

/-!
# What the cache keeps after transactions

Any number of callers open transactions, nest them, call the cached managers in them and
commit them or roll them back, in any order.  Only the transactions that the middleware opens
carry the committed key.  A transaction without it may save a row that it has written itself,
and the row stays in the cache when the transaction is rolled back: the eviction is discarded
together with the write.
-/

namespace Harbor.Cached

open Concurrency State

variable {Data : Type*}

/-! ## Transactions -/

/-- One step of a caller. -/
inductive Op (Data : Type*)
  | begin (middleware : Bool)
  | commit
  | rollback
  | call (call : Call Data)

variable (state : State Data)

namespace State

/-- The start of `WithTransaction`; a nested one is a savepoint. -/
def begin (middleware : Bool) : State Data :=
  match state.session.scopes with
  | [] => { state with session := { committedKey := middleware, scopes := [{}] } }
  | overlay :: outer =>
    { state with session := { state.session with scopes := overlay :: overlay :: outer } }

/-- The end of `WithTransaction` without an error: the outermost transaction is committed and
its evictions are run. -/
def commit : Option (State Data) :=
  match state.session.scopes with
  | [] => none
  | [overlay] =>
    some {
      store := (state.store.commit (overlay.view state.store.committed)).evict state.session.hooks
      session := {} }
  | overlay :: _ :: outer =>
    some { state with session := { state.session with scopes := overlay :: outer } }

/-- The end of `WithTransaction` after an error, or after a commit that failed: the evictions
of the outermost transaction are discarded. -/
def rollback : Option (State Data) :=
  match state.session.scopes with
  | [] => none
  | [_] => some { state with session := {} }
  | _ :: overlay :: outer =>
    some { state with session := { state.session with scopes := overlay :: outer } }

def run : Op Data → Option (State Data)
  | .begin middleware => some (state.begin middleware)
  | .commit => state.commit
  | .rollback => state.rollback
  | .call call => some (state.call call)

end State

structure World (Data : Type*) where
  store : Store Data
  sessions : ℕ → Session Data

structure Action (Data : Type*) where
  session : ℕ
  op : Op Data

namespace World

def stateOf (world : World Data) (session : ℕ) : State Data where
  store := world.store
  session := world.sessions session

def step (world : World Data) (action : Action Data) : Option (World Data) :=
  ((world.stateOf action.session).run action.op).map fun next =>
    { store := next.store
      sessions := Function.update world.sessions action.session next.session }

/-- Nothing is cached, and no transaction is open. -/
def start (table : Table Data) : World Data where
  store := { committed := table, past := [table], cache := fun _ => none }
  sessions := fun _ => {}

end World

/-! ## Rows that were committed -/

/-- Every cached row was under its key in a committed state. -/
def Store.Kept (store : Store Data) : Prop :=
  ∀ key row, store.cache key.text = some row → ∃ table ∈ store.past, table.find key = some row

/-- The invariant of the store: the committed state of now counts as well. -/
structure Store.Sound (store : Store Data) : Prop where
  kept : store.Kept
  committed_mem : store.committed ∈ store.past

namespace State

/-- What the caller reads under the key is not saved, or is not its own write. -/
def Quiet (key : Key) : Prop :=
  state.session.committedKey = true ∨ state.store.cache key.text ≠ none ∨ state.Untouched key

/-- The caller saves nothing, or is not in a transaction. -/
def Suppressed : Prop :=
  state.session.committedKey = true ∨ state.session.scopes = []

/-- In a transaction without the committed key, a call does not read what was written in the
same transaction. -/
def Safe (before : State Data) : Call Data → Prop
  | .get key => before.Quiet key
  | .delete resource number => before.Quiet (.id resource number)
  | .touch number _ => before.Quiet (.id .repository number)
  | .addPullCount _ _ => before.Suppressed
  | .updatePullTime _ _ => before.Suppressed
  | _ => True

end State

def World.Safe (before : World Data) (action : Action Data) : Prop :=
  match action.op with
  | .call call => (before.stateOf action.session).Safe call
  | _ => True

variable {store : Store Data}

theorem Store.Sound.evict (h : store.Sound) (keys : List Key) : (store.evict keys).Sound := by
  refine ⟨fun key row hcached => h.kept key row ?_, h.committed_mem⟩
  simp only [Store.evict] at hcached
  split_ifs at hcached
  exact hcached

theorem Store.Sound.commit (h : store.Sound) (table : Table Data) : (store.commit table).Sound := by
  refine ⟨fun key row hcached => ?_, List.mem_cons_self⟩
  obtain ⟨old, hold, hfind⟩ := h.kept key row hcached
  exact ⟨old, List.mem_cons_of_mem _ hold, hfind⟩

namespace State

variable {state : State Data} {key : Key} {call : Call Data}

@[simp] theorem get_session (key : Key) : (state.get key).session = state.session := by
  unfold get save
  split
  · split <;> rfl
  · rfl

theorem Suppressed.quiet (h : state.Suppressed) (key : Key) : state.Quiet key := by
  rcases h with hkey | hscopes
  · exact .inl hkey
  · refine .inr (.inr ?_)
    simp [Untouched, Session.overlay, hscopes]

theorem Suppressed.get (h : state.Suppressed) (key : Key) : (state.get key).Suppressed := by
  unfold Suppressed
  rw [get_session]
  exact h

theorem Suppressed.apply (h : state.Suppressed) (write : Write Data) :
    (state.apply write).Suppressed := by
  unfold State.apply
  split
  · exact h
  · rename_i hscopes
    exact .inl (h.resolve_right (by simp [hscopes]))

variable (h : state.store.Sound)
include h

/-- A row is saved only if it is committed. -/
theorem sound_get (hquiet : state.Quiet key) : (state.get key).store.Sound := by
  unfold get save
  split
  · rename_i row hnone hfind
    split_ifs with hkey
    · exact h
    -- the row was missing in the cache and is saved, so it is not one of the caller's own writes
    · have huntouched := (hquiet.resolve_left hkey).resolve_left (fun hne => hne hnone)
      rw [find_view_of_untouched huntouched] at hfind
      refine ⟨fun other saved hcached => ?_, h.committed_mem⟩
      by_cases hother : other = key
      · subst hother
        simp only [Function.update_self, Option.some.injEq] at hcached
        subst hcached
        exact ⟨_, h.committed_mem, hfind⟩
      · have htext : other.text ≠ key.text := fun htext => hother (Key.text_injective htext)
        simp only [Function.update_of_ne htext] at hcached
        exact h.kept other saved hcached
  · exact h

theorem sound_afterCommit (keys : List Key) : (state.afterCommit keys).store.Sound := by
  unfold afterCommit
  split
  · exact h.evict keys
  · exact h

theorem sound_apply (write : Write Data) : (state.apply write).store.Sound := by
  unfold apply
  split
  · exact h.commit _
  · exact h

theorem sound_foldl_get (hsuppressed : state.Suppressed) (keys : List Key) :
    (keys.foldl State.get state).store.Sound := by
  induction keys generalizing state with
  | nil => exact h
  | cons key rest ih => exact ih (sound_get h (hsuppressed.quiet key)) (hsuppressed.get key)

theorem sound_refreshCache (hsuppressed : state.Suppressed) (row : Row Data) :
    (state.refreshCache row).store.Sound := by
  have hevicted : (state.evict row.keys).store.Sound := h.evict row.keys
  exact sound_foldl_get hevicted hsuppressed row.keys

theorem sound_delegate {f : State Data → State Data}
    (hf : ∀ write, (state.apply write).store.Sound → (f (state.apply write)).store.Sound) :
    (state.delegate call f).store.Sound := by
  unfold delegate
  split
  · exact h
  · exact hf _ (sound_apply h _)

theorem sound_withRow (hquiet : state.Quiet key) {f : Row Data → State Data → State Data}
    (hf : ∀ row, (state.get key).store.Sound → (f row (state.get key)).store.Sound) :
    (state.withRow key f).store.Sound := by
  unfold withRow
  split
  · exact sound_get h hquiet
  · exact hf _ (sound_get h hquiet)

theorem sound_call (hsafe : state.Safe call) : (state.call call).store.Sound := by
  cases call with
  | get key => exact sound_get h hsafe
  | create row => exact sound_delegate h fun _ hsound => hsound
  | update record renames assign =>
    exact sound_delegate h fun _ hsound => sound_afterCommit hsound _
  | delete resource number | touch number assign =>
    exact sound_withRow h hsafe fun row hread =>
      sound_delegate hread fun _ hsound => sound_afterCommit hsound _
  | addPullCount number assign =>
    have hsuppressed : state.Suppressed := hsafe
    exact sound_withRow h (hsuppressed.quiet _) fun row hread =>
      sound_delegate hread fun write hsound =>
        sound_refreshCache hsound ((hsuppressed.get _).apply write) row
  | updatePullTime number assign =>
    have hsuppressed : state.Suppressed := hsafe
    refine sound_withRow h (hsuppressed.quiet _) fun row hread => ?_
    refine sound_refreshCache (sound_delegate hread fun _ hsound => hsound) ?_ row
    unfold delegate
    split
    · exact hsuppressed.get _
    · exact (hsuppressed.get _).apply _
  | deleteReference number assign => exact sound_delegate h fun _ hsound => hsound

theorem sound_run {next : State Data} {op : Op Data} (hrun : state.run op = some next)
    (hsafe : ∀ call, op = .call call → state.Safe call) : next.store.Sound := by
  cases op with
  | begin middleware =>
    cases hrun
    unfold begin
    split <;> exact h
  | commit =>
    simp only [run, commit] at hrun
    split at hrun
    · cases hrun
    · cases hrun
      exact (h.commit _).evict _
    · cases hrun
      exact h
  | rollback =>
    -- the writes and the evictions were only in the session
    simp only [run, rollback] at hrun
    split at hrun
    · cases hrun
    · cases hrun
      exact h
    · cases hrun
      exact h
  | call call =>
    cases hrun
    exact sound_call h (hsafe call rfl)

end State

theorem World.sound_step {before after : World Data} {action : Action Data}
    (h : before.store.Sound) (hstep : before.step action = some after)
    (hsafe : before.Safe action) : after.store.Sound := by
  obtain ⟨next, hrun, rfl⟩ := Option.map_eq_some_iff.mp hstep
  have hstate : (before.stateOf action.session).store.Sound := h
  refine sound_run hstate hrun fun call hcall => ?_
  unfold World.Safe at hsafe
  rw [hcall] at hsafe
  exact hsafe

/-- **The cache keeps only rows that were committed**, if no transaction without the committed
key reads its own writes. -/
theorem cache_keeps_committed (table : Table Data) (actions : List (Action Data))
    (hsafe : EveryStep World.step (fun before action _ => before.Safe action)
      (World.start table) actions) :
    EveryStep World.step (fun _ _ after => after.store.Kept) (World.start table) actions := by
  refine everyStep_of_invariant (fun world => world.store.Sound) ?_ ?_ hsafe
  · intro before action after hsound hstep haction
    have hafter := World.sound_step hsound hstep haction
    exact ⟨hafter, hafter.kept⟩
  · refine ⟨fun key row hcached => ?_, List.mem_singleton_self _⟩
    cases hcached

def image : Row ℕ where
  id := 7
  name := .digest ⟨"library/nginx", by decide⟩ "sha256:e4f0"
  data := 0

/-- A transaction without the committed key reads the artifact before it writes it. -/
theorem cache_keeps_committed_read_first :
    EveryStep World.step (fun _ _ after => after.store.Kept) (World.start [image])
      [⟨0, .begin false⟩, ⟨0, .call (.get (.id .artifact 7))⟩,
        ⟨0, .call (.update image false fun _ => 5)⟩, ⟨0, .commit⟩,
        ⟨1, .call (.get (.name image.name))⟩] :=
  cache_keeps_committed _ _ (everyStep_cons rfl trivial
    (everyStep_cons rfl (.inr (.inr (by decide +kernel))) (everyStep_cons rfl trivial
      (everyStep_cons rfl trivial (everyStep_cons rfl (.inr (.inr (by decide +kernel))) trivial)))))

/-- A transaction without the committed key writes the artifact, reads it and is rolled back:
the row stays in the cache, but was never committed. -/
theorem rolled_back_row_cached :
    ∃ world, exec World.step (World.start [image])
        [⟨0, .begin false⟩, ⟨0, .call (.update image false fun _ => 5)⟩,
          ⟨0, .call (.get (.id .artifact 7))⟩, ⟨0, .rollback⟩] = some world ∧
      (∀ session, (world.sessions session).scopes = []) ∧
      world.store.cache (Key.id .artifact 7).text = some { image with data := 5 } ∧
      ¬ world.store.Kept := by
  refine ⟨_, rfl, ?_, by decide +kernel, ?_⟩
  · intro session
    by_cases hsession : session = 0
    · subst hsession
      rfl
    · simp [Function.update_of_ne hsession, World.start]
  · intro hkept
    obtain ⟨table, htable, hfind⟩ := hkept (.id .artifact 7) { image with data := 5 }
      (by decide +kernel)
    obtain rfl := List.mem_singleton.mp htable
    revert hfind
    decide +kernel

end Harbor.Cached
