import Harbor.Concurrency.Transition

/-!
# Contexts that share a sink

A context carries an ormer and the sink for after-commit callbacks of the
outermost scope around it.  `Clone` and `Copy` give the new context an ormer of its
own and keep every other value, the sink among them.  The new context may be used
by another goroutine, at any time.

A call of `WithTransaction` is a `Scope` with a phase, the function it runs is the
environment: an action calls `AfterCommit`, `Clone`, `Copy` or `WithTransaction` on
any context there is, lets the function of an open scope return, or takes an open
scope one command further.  So a run is an interleaving of any number of goroutines.
Whether a command of the database fails is part of the action, but no command
succeeds on a transaction that has ended.

Callbacks are told apart by the position of their registration.
-/

namespace Harbor.Orm.Detached

open Concurrency

/-- The ormer in a context: a plain one, or that of the transaction of a scope. -/
inductive Handle
  | ormer
  | txOrmer (scope : ℕ)
  deriving DecidableEq, Repr

/-- The values of a context.  A sink is named by the scope that has created it; `detached`
tells whether the context comes from `Clone` or `Copy` inside a scope. -/
structure Context where
  orm : Option Handle := none
  hooks : Option ℕ := none
  detached : Bool := false
  deriving DecidableEq, Repr

/-- How far `WithTransaction` has come. -/
inductive Phase
  | running
  -- the function has returned an error; `Rollback` is next
  | failed
  -- `Commit` has succeeded, or not; `drain` is next
  | committed
  | commitFailed
  -- the callbacks that are still to be run
  | firing (rest : List ℕ)
  | ended (success : Bool)
  deriving DecidableEq, Repr

/-- A call of `WithTransaction` with the context `ctx`; `tx` is the outermost scope of its
transaction. -/
structure Scope where
  ctx : Context
  tx : ℕ
  afterCommit : List ℕ := []
  phase : Phase := .running
  deriving DecidableEq, Repr

/-- A call of `AfterCommit`. -/
structure Registration (Hook : Type) where
  ctx : Context
  fn : Hook
  deriving DecidableEq, Repr

/-- The contexts and scopes there have ever been, all registrations, and the callbacks that
have run. -/
structure World (Hook : Type) where
  contexts : List Context := [{}]
  scopes : List Scope := []
  registrations : List (Registration Hook) := []
  fired : List ℕ := []
  deriving DecidableEq, Repr

inductive Action (Hook : Type)
  | context
  | clone (ctx : ℕ)
  | copy (ctx : ℕ)
  | afterCommit (ctx : ℕ) (fn : Option Hook)
  | begin (ctx : ℕ) (fails : Bool)
  | returnError (scope : ℕ)
  | rollback (scope : ℕ) (fails : Bool)
  | commit (scope : ℕ) (fails : Bool)
  | drain (scope : ℕ)
  | fire (scope : ℕ)
  deriving DecidableEq, Repr

/-! ## Contexts -/

variable (ctx : Context)

def Context.newContext (orm : Handle) : Context :=
  { ctx with orm := some orm }

/-- `Clone`: only the ormer is new. -/
def Context.clone : Context :=
  { ctx with detached := ctx.hooks.isSome }.newContext .ormer

/-- `Copy`: cancellation and deadline are not passed on, the values are. -/
def Context.copy : Context :=
  { ctx with detached := ctx.hooks.isSome }.newContext .ormer

/-- The context that the scope `scope` hands to its function. -/
def Context.inside (scope : ℕ) : Context :=
  { ctx with hooks := some (ctx.hooks.getD scope) }.newContext (.txOrmer scope)

namespace Scope

/-- A scope whose function is about to run. -/
def opened (tx : ℕ) : Scope where
  ctx := ctx
  tx := tx

variable (scope : Scope)

/-- `ownsHooks`: the scope has created the sink that it uses. -/
def ownsHooks : Bool :=
  scope.ctx.hooks.isNone

def add (r : ℕ) : Scope :=
  { scope with afterCommit := scope.afterCommit ++ [r] }

/-- `hooks.drain` without running the callbacks, by the owner of the sink. -/
def discard : Scope :=
  if scope.ownsHooks then { scope with afterCommit := [] } else scope

/-- The callbacks that were drained and are to be run. -/
def drained : List ℕ :=
  match scope.phase with
  | .firing rest => rest
  | _ => []

def held : List ℕ :=
  scope.afterCommit ++ scope.drained

end Scope

namespace World

variable {Hook : Type} (world : World Hook)

def derive : World Hook :=
  { world with contexts := world.contexts ++ [ctx] }

variable (s : ℕ) (scope : Scope)

def setScope : World Hook :=
  { world with scopes := world.scopes.set s scope }

/-- The transaction is neither committed nor rolled back. -/
def active (tx : ℕ) : Bool :=
  match world.scopes[tx]? with
  | some scope => scope.phase = .running ∨ scope.phase = .failed
  | none => false

def record (fn : Hook) : World Hook :=
  { world with registrations := world.registrations ++ [Registration.mk ctx fn] }

/-- `AfterCommit`: into the sink, or right away if there is none. -/
def afterCommit (fn : Hook) : World Hook :=
  match ctx.hooks with
  | some s =>
    match world.scopes[s]? with
    | some scope => (world.record ctx fn).setScope s (scope.add world.registrations.length)
    | none => world.record ctx fn
  | none => { world.record ctx fn with fired := world.fired ++ [world.registrations.length] }

def addScope (tx : ℕ) : World Hook :=
  { world with scopes := world.scopes ++ [Scope.opened ctx tx] }

/-- The new scope and the context for its function. -/
def enter (tx : ℕ) : World Hook :=
  (world.addScope ctx tx).derive (ctx.inside world.scopes.length)

/-- `WithTransaction` up to the call of its function. -/
def begin (fails : Bool) : Option (World Hook) :=
  match ctx.orm with
  | none => some world
  | some .ormer => some (if fails then world else world.enter ctx world.scopes.length)
  | some (.txOrmer parent) =>
    if fails then some world
    else (world.scopes[parent]?).bind fun scope =>
      if world.active scope.tx then some (world.enter ctx scope.tx) else none

/-- The function has returned without an error: `Commit`. -/
def commit (fails : Bool) : Option (World Hook) :=
  match scope.phase with
  | .running =>
    if fails then
      some (world.setScope s
        { scope with phase := if scope.ownsHooks then .commitFailed else .ended false })
    else if world.active scope.tx then
      some (world.setScope s
        { scope with phase := if scope.ownsHooks then .committed else .ended true })
    else none
  | _ => none

/-- `hooks.drain` after a `Commit`. -/
def drain : Option (World Hook) :=
  match scope.phase with
  | .committed =>
    some (world.setScope s { scope with afterCommit := [], phase := .firing scope.afterCommit })
  | .commitFailed =>
    some (world.setScope s { scope with afterCommit := [], phase := .ended false })
  | _ => none

/-- One turn of the loop over the drained callbacks. -/
def fire : Option (World Hook) :=
  match scope.phase with
  | .firing (r :: rest) =>
    some { world.setScope s { scope with phase := .firing rest } with
      fired := world.fired ++ [r] }
  | .firing [] => some (world.setScope s { scope with phase := .ended true })
  | _ => none

/-- The function has returned an error. -/
def returnError : Option (World Hook) :=
  match scope.phase with
  | .running => some (world.setScope s { scope.discard with phase := .failed })
  | _ => none

/-- `Rollback`; the call returns an error whether it fails or not. -/
def rollback : Option (World Hook) :=
  match scope.phase with
  | .failed => some (world.setScope s { scope with phase := .ended false })
  | _ => none

def step : Action Hook → Option (World Hook)
  | .context => some (world.derive (Context.newContext {} .ormer))
  | .clone i => (world.contexts[i]?).map fun ctx => world.derive ctx.clone
  | .copy i => (world.contexts[i]?).map fun ctx => world.derive ctx.copy
  | .afterCommit i none => (world.contexts[i]?).map fun _ => world
  | .afterCommit i (some fn) => (world.contexts[i]?).map fun ctx => world.afterCommit ctx fn
  | .begin i fails => (world.contexts[i]?).bind fun ctx => world.begin ctx fails
  | .returnError s => (world.scopes[s]?).bind fun scope => world.returnError s scope
  | .rollback s _ => (world.scopes[s]?).bind fun scope => world.rollback s scope
  | .commit s fails => (world.scopes[s]?).bind fun scope => world.commit s scope fails
  | .drain s => (world.scopes[s]?).bind fun scope => world.drain s scope
  | .fire s => (world.scopes[s]?).bind fun scope => world.fire s scope

end World

end Harbor.Orm.Detached
