import Harbor.Orm.Model

/-!
# Which callbacks run

A callback should run when the scope that has registered it and all scopes
around that one have committed.  `Body.kept` lists these callbacks, and
`Body.registered` lists everything that ends up in the sink.  The two differ
when a nested scope fails and its error is swallowed: the savepoint undoes the
rows of the nested scope, but its callbacks stay in the sink and run after the
outermost commit.  `callbacks_exact_iff` says that this is the only way to go wrong.
-/

namespace Harbor.Orm

open List Body TxWorld

variable {Row Hook : Type}

/-! ## What a body comes to -/

variable (faults : Faults)

/-- A scope commits if its function returns no error and no command fails. -/
def Faults.commits (failed : Bool) : Bool :=
  !faults.begin && !failed && !faults.commit

/-- The events of a nested scope, given those of its function. -/
def Faults.scope (failed : Bool) (events : List (TxEvent Hook)) : List (TxEvent Hook) :=
  if faults.begin then []
  else .savepoint :: events ++
    if faults.commits failed then [.release]
    else if failed && !faults.rollback then [.rollbackTo] else []

namespace Body

def failed : Body Row Hook → Bool
  | .ret failed => failed
  | .write _ next => next.failed
  | .afterCommit _ next => next.failed
  | .nested faults inner onSuccess onError =>
    if faults.commits inner.failed then onSuccess.failed else onError.failed

/-- The rows of the scope and of the nested scopes that commit. -/
def rows : Body Row Hook → List Row
  | .ret _ => []
  | .write row next => row :: next.rows
  | .afterCommit _ next => next.rows
  | .nested faults inner onSuccess onError =>
    if faults.commits inner.failed then inner.rows ++ onSuccess.rows else onError.rows

/-- The callbacks of the scope and of the nested scopes that commit. -/
def kept : Body Row Hook → List Hook
  | .ret _ => []
  | .write _ next => next.kept
  | .afterCommit fn next => fn.toList ++ next.kept
  | .nested faults inner onSuccess onError =>
    if faults.commits inner.failed then inner.kept ++ onSuccess.kept else onError.kept

/-- All callbacks that are registered, whatever becomes of their scopes. -/
def registered : Body Row Hook → List Hook
  | .ret _ => []
  | .write _ next => next.registered
  | .afterCommit fn next => fn.toList ++ next.registered
  | .nested faults inner onSuccess onError =>
    (if faults.begin then [] else inner.registered) ++
      if faults.commits inner.failed then onSuccess.registered else onError.registered

/-- The commands that the database has executed. -/
def events : Body Row Hook → List (TxEvent Hook)
  | .ret _ => []
  | .write _ next => next.events
  | .afterCommit _ next => next.events
  | .nested faults inner onSuccess onError =>
    faults.scope inner.failed inner.events ++
      if faults.commits inner.failed then onSuccess.events else onError.events

/-- No nested scope that fails has registered a callback, in it or below. -/
def NoStrays : Body Row Hook → Prop
  | .ret _ => True
  | .write _ next => next.NoStrays
  | .afterCommit _ next => next.NoStrays
  | .nested faults inner onSuccess onError =>
    if faults.commits inner.failed then inner.NoStrays ∧ onSuccess.NoStrays
    else (faults.begin = false → inner.registered = []) ∧ onError.NoStrays

end Body

/-! ## Running a body inside a transaction -/

variable (body : Body Row Hook)

/-- The effect of a body inside a transaction: it adds its rows to its level and its
callbacks to the sink. -/
def Body.RunsInside : Prop :=
  ∀ database level levels hooks log,
    body.run .inside { database, levels := level :: levels, hooks, log } =
      ({ database, levels := (level ++ body.rows) :: levels, hooks := hooks ++ body.registered
         log := log ++ body.events }, body.failed)

/-- A nested scope: if it fails, its rows are undone and its callbacks stay. -/
theorem withTransaction_inside {inner : Body Row Hook} (hinner : inner.RunsInside)
    (faults : Faults) (database level : List Row) (levels : List (List Row)) (hooks : List Hook)
    (log : List (TxEvent Hook)) :
    withTransaction faults inner.run .inside { database, levels := level :: levels, hooks, log } =
      ({ database
         levels := (level ++ if faults.commits inner.failed then inner.rows else []) :: levels
         hooks := hooks ++ if faults.begin then [] else inner.registered
         log := log ++ faults.scope inner.failed inner.events },
        !faults.commits inner.failed) := by
  obtain ⟨begin, commit, rollback⟩ := faults
  cases begin with
  | true => simp [withTransaction, Context.inside, Faults.commits, Faults.scope]
  | false =>
    have hrun := hinner database [] (level :: levels) hooks (log ++ [.savepoint])
    rw [Context.inside] at hrun
    cases hfailed : inner.failed <;> cases commit <;> cases rollback <;>
      simp [withTransaction, Context.inside, begin, emit, hrun, hfailed,
        commit, rollback, abandon, Faults.commits, Faults.scope]

/-- **A body inside a transaction** adds its rows to its level and its callbacks to the
sink; a nested scope that fails only leaves its callbacks. -/
theorem Body.runsInside : body.RunsInside := by
  induction body with
  | ret failed =>
    intro database level levels hooks log
    simp [run, rows, registered, events, Body.failed]
  | write row next ih =>
    intro database level levels hooks log
    rw [run, TxWorld.write, ih]
    simp [rows, registered, events, Body.failed]
  | afterCommit fn next ih =>
    intro database level levels hooks log
    cases fn with
    | none =>
      rw [run, TxWorld.afterCommit, ih]
      simp [rows, registered, events, Body.failed]
    | some fn =>
      rw [run, TxWorld.afterCommit, if_pos (show Context.inside.hooks = true from rfl), ih]
      simp [rows, registered, events, Body.failed]
  | nested faults inner onSuccess onError ihinner ihsuccess iherror =>
    intro database level levels hooks log
    rw [run, withTransaction_inside ihinner]
    cases hcommits : faults.commits inner.failed with
    | true =>
      rw [ihsuccess]
      simp [rows, registered, events, Body.failed, hcommits]
    | false =>
      rw [iherror]
      simp [rows, registered, events, Body.failed, hcommits]

/-! ## The outermost scope -/

/-- The events of the outermost scope before its commit. -/
def Faults.outermost (failed : Bool) (events : List (TxEvent Hook)) : List (TxEvent Hook) :=
  if faults.begin then []
  else .begin :: events ++ if failed && !faults.rollback then [.rollback] else []

variable (body : Body Row Hook)

/-- **The outermost scope.**  The rows become durable exactly if it commits, and then all
callbacks that were registered run. -/
theorem withTransaction_plain (database : List Row) (log : List (TxEvent Hook)) :
    withTransaction faults body.run .plain { database, log } =
      ({ database := database ++ if faults.commits body.failed then body.rows else []
         log := log ++ faults.outermost body.failed body.events ++
          if faults.commits body.failed then .commit :: body.registered.map .callback else [] },
        !faults.commits body.failed) := by
  obtain ⟨begin, commit, rollback⟩ := faults
  cases begin with
  | true => simp [withTransaction, Context.plain, Faults.commits, Faults.outermost]
  | false =>
    have hrun := body.runsInside database [] [] [] (log ++ [.begin])
    cases hfailed : body.failed <;> cases commit <;> cases rollback <;>
      simp [withTransaction, Context.plain, begin, emit, drain, hrun,
        hfailed, commit, rollback, abandon, fire,
        Faults.commits, Faults.outermost]

/-- Scopes have no callbacks among their events. -/
theorem Body.callback_not_mem_events (fn : Hook) : .callback fn ∉ body.events := by
  induction body with
  | ret failed => simp [events]
  | write row next ih | afterCommit other next ih => exact ih
  | nested faults inner onSuccess onError ihinner ihsuccess iherror =>
    rw [events, Faults.scope, mem_append, not_or]
    constructor
    · split_ifs <;> simp [ihinner]
    · split_ifs
      · exact ihsuccess
      · exact iherror

/-! ## Strays -/

theorem Body.kept_sublist_registered : body.kept.Sublist body.registered := by
  induction body with
  | ret failed => exact .refl _
  | write row next ih => exact ih
  | afterCommit fn next ih => exact ih.append_left _
  | nested faults inner onSuccess onError ihinner ihsuccess iherror =>
    rw [kept, registered]
    cases hcommits : faults.commits inner.failed with
    | true =>
      have hbegin : faults.begin = false := by
        simp only [Faults.commits, Bool.and_eq_true, Bool.not_eq_true'] at hcommits
        exact hcommits.1.1
      simpa [hbegin] using ihinner.append ihsuccess
    | false => simpa using iherror.trans (sublist_append_right _ _)

/-- Two sublists put together are the whole only if each of them is. -/
theorem append_eq_append_iff_of_sublist {α : Type} {first second first' second' : List α}
    (hfirst : first.Sublist first') (hsecond : second.Sublist second') :
    first ++ second = first' ++ second' ↔ first = first' ∧ second = second' := by
  constructor
  · intro happend
    have hlengths := congrArg length happend
    rw [length_append, length_append] at hlengths
    have hle := hfirst.length_le
    have hle' := hsecond.length_le
    exact append_inj happend (by omega)
  · rintro ⟨rfl, rfl⟩
    rfl

/-- Nothing is registered in vain exactly if there are no strays. -/
theorem Body.kept_eq_registered_iff : body.kept = body.registered ↔ body.NoStrays := by
  induction body with
  | ret failed => simp [kept, registered, Body.NoStrays]
  | write row next ih => exact ih
  | afterCommit fn next ih =>
    rw [kept, registered, append_cancel_left_eq, Body.NoStrays]
    exact ih
  | nested faults inner onSuccess onError ihinner ihsuccess iherror =>
    rw [kept, registered, Body.NoStrays]
    cases hcommits : faults.commits inner.failed with
    | true =>
      have hbegin : faults.begin = false := by
        simp only [Faults.commits, Bool.and_eq_true, Bool.not_eq_true'] at hcommits
        exact hcommits.1.1
      simp only [hbegin, Bool.false_eq_true, if_false, if_true]
      rw [append_eq_append_iff_of_sublist inner.kept_sublist_registered
        onSuccess.kept_sublist_registered, ihinner, ihsuccess]
    | false =>
      simp only [Bool.false_eq_true, if_false]
      rw [← nil_append onError.kept, append_eq_append_iff_of_sublist
        (nil_sublist _) onError.kept_sublist_registered, iherror]
      cases faults.begin <;> simp

/-! ## Exactly the callbacks of committed scopes -/

/-- After what has happened in `past`, the callbacks of the committed scopes run, each once,
after the outermost commit, and no others. -/
def FiresExactly (past log : List (TxEvent Hook)) : Prop :=
  ∃ work, (∀ fn, .callback fn ∉ work) ∧ log = past ++ work ++
    if faults.commits body.failed then .commit :: body.kept.map .callback else []

def TxEvent.fn? : TxEvent Hook → Option Hook
  | .callback fn => some fn
  | _ => none

theorem filterMap_fn?_of_not_mem {events : List (TxEvent Hook)}
    (hevents : ∀ fn, .callback fn ∉ events) : events.filterMap TxEvent.fn? = [] := by
  rw [filterMap_eq_nil_iff]
  intro event hevent
  cases event with
  | callback fn => exact absurd hevent (hevents fn)
  | _ => rfl

theorem filterMap_fn?_map_callback (fns : List Hook) :
    (fns.map TxEvent.callback).filterMap TxEvent.fn? = fns := by
  rw [filterMap_map]
  exact filterMap_some

theorem Faults.callback_not_mem_outermost (fn : Hook) :
    .callback fn ∉ faults.outermost body.failed body.events := by
  unfold Faults.outermost
  split_ifs <;> simp [body.callback_not_mem_events]

/-- **Exactly the callbacks of committed scopes run**, each once and after the outermost
commit, if and only if the outermost scope does not commit or no nested scope that fails
has registered a callback. -/
theorem callbacks_exact_iff (faults : Faults) (body : Body Row Hook) (database : List Row)
    (past : List (TxEvent Hook)) :
    FiresExactly faults body past
        (withTransaction faults body.run .plain { database, log := past }).1.log ↔
      (faults.commits body.failed = true → body.NoStrays) := by
  rw [withTransaction_plain, ← body.kept_eq_registered_iff]
  unfold FiresExactly
  cases hcommits : faults.commits body.failed with
  | false =>
    simp only [Bool.false_eq_true, if_false, false_implies, iff_true]
    exact ⟨_, faults.callback_not_mem_outermost body, rfl⟩
  | true =>
    simp only [if_true, forall_const]
    constructor
    · -- the callbacks among the events tell the two lists apart
      rintro ⟨work, hwork, hlog⟩
      have hfns := congrArg (filterMap TxEvent.fn?) hlog
      simp only [filterMap_append, filterMap_fn?_of_not_mem hwork,
        filterMap_fn?_of_not_mem (faults.callback_not_mem_outermost body),
        filterMap_cons, TxEvent.fn?, filterMap_fn?_map_callback, append_nil,
        append_cancel_left_eq] at hfns
      exact hfns.symm
    · intro hkept
      exact ⟨_, faults.callback_not_mem_outermost body, by rw [hkept]⟩

/-- The nested scope registers a callback and fails, and its parent swallows the error. -/
def swallowedError : Body ℕ ℕ :=
  .nested {} (.write 1 (.afterCommit (some 7) (.ret true))) (.ret false) (.ret false)

/-- The row of the nested scope is rolled back, and its callback runs nevertheless. -/
theorem callback_of_rolled_back_scope :
    (withTransaction {} swallowedError.run .plain {}).1 =
        { log := [.begin, .savepoint, .rollbackTo, .commit, .callback 7] } ∧
      swallowedError.kept = [] ∧
      ¬ FiresExactly {} swallowedError []
        (withTransaction {} swallowedError.run .plain {}).1.log := by
  refine ⟨rfl, rfl, ?_⟩
  rintro ⟨work, hwork, hlog⟩
  have hmem : .callback 7 ∈ work ++ [TxEvent.commit] := by
    have hlog' : [.begin, .savepoint, .rollbackTo, .commit, .callback 7] = work ++ [.commit] := hlog
    simp [← hlog']
  simpa using hwork 7 (by simpa using hmem)

end Harbor.Orm
