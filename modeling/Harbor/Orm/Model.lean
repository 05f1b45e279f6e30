import Mathlib.Data.List.Basic

/-!
# Transactions and after-commit hooks

`WithTransaction` runs a function in a transaction.  Called inside another
transaction it sets a savepoint instead, so scopes nest.  `AfterCommit` registers
a callback that is to run once the work around it is committed: the outermost
scope creates a sink for callbacks, every scope inside it inherits the sink
through the context, and the outermost scope runs what is in the sink after its
commit.

A `Body` is what the function does with the context it is given: it writes to the
database, registers callbacks and opens nested scopes, and it goes on one way or
the other depending on whether a nested scope has returned an error.  `Faults`
says which commands of a scope fail.  A scope whose commit or rollback fails
leaves nothing behind: the database gives up its work with the savepoint or the
transaction.

Traces, logs and the recovery from panics of callbacks are left out.
-/

namespace Harbor.Orm

/-- The ormer in a context: a plain one, or that of a transaction. -/
inductive Ormer
  | ormer
  | txOrmer
  deriving DecidableEq, Repr

/-- What a context carries: an ormer, and whether a sink for callbacks. -/
structure Context where
  orm : Option Ormer
  hooks : Bool
  deriving DecidableEq, Repr

def Context.plain : Context where
  orm := some .ormer
  hooks := false

/-- The context that `WithTransaction` passes on. -/
def Context.inside : Context where
  orm := some .txOrmer
  hooks := true

/-- What happens in the order in which it happens; failed commands have no effect and no event. -/
inductive TxEvent (Hook : Type)
  | begin
  | commit
  | rollback
  | savepoint
  | release
  | rollbackTo
  | callback (fn : Hook)
  deriving DecidableEq, Repr

/-- The database, the rows written by the open scopes with the innermost first, the
callbacks in the sink, and what has happened. -/
structure TxWorld (Row Hook : Type) where
  database : List Row := []
  levels : List (List Row) := []
  hooks : List Hook := []
  log : List (TxEvent Hook) := []
  deriving DecidableEq, Repr

/-- Which commands of a scope fail. -/
structure Faults where
  begin : Bool := false
  commit : Bool := false
  rollback : Bool := false
  deriving DecidableEq, Repr

/-- What a function does inside its scope; `ret` tells whether it returns an error. -/
inductive Body (Row Hook : Type)
  | ret (failed : Bool)
  | write (row : Row) (next : Body Row Hook)
  | afterCommit (fn : Option Hook) (next : Body Row Hook)
  | nested (faults : Faults) (inner onSuccess onError : Body Row Hook)

section Execution

variable {Row Hook : Type}

namespace TxWorld

variable (world : TxWorld Row Hook)

def emit (event : TxEvent Hook) : TxWorld Row Hook :=
  { world with log := world.log ++ [event] }

def begin : Ormer → TxWorld Row Hook
  | .ormer => { world with levels := [] :: world.levels }.emit .begin
  | .txOrmer => { world with levels := [] :: world.levels }.emit .savepoint

/-- The innermost scope is given up. -/
def abandon : TxWorld Row Hook :=
  { world with levels := world.levels.tail }

/-- `ormerTx.Commit`: the rows become durable, or part of the enclosing scope. -/
def commit : Ormer → TxWorld Row Hook
  | .ormer => { world.abandon with
      database := world.database ++ world.levels.headD [] }.emit .commit
  | .txOrmer => { world with
      levels := match world.levels with
        | level :: parent :: rest => (parent ++ level) :: rest
        | levels => levels }.emit .release

/-- `ormerTx.Rollback`: exactly the rows of the scope are undone. -/
def rollback : Ormer → TxWorld Row Hook
  | .ormer => world.abandon.emit .rollback
  | .txOrmer => world.abandon.emit .rollbackTo

def write (row : Row) : TxWorld Row Hook :=
  { world with
    levels := match world.levels with
      | level :: rest => (level ++ [row]) :: rest
      | [] => [] }

/-- `AfterCommit`: into the sink, or right away if there is none. -/
def afterCommit (ctx : Context) : Option Hook → TxWorld Row Hook
  | none => world
  | some fn =>
    if ctx.hooks then { world with hooks := world.hooks ++ [fn] }
    else world.emit (.callback fn)

/-- `drain` without running the callbacks. -/
def drain : TxWorld Row Hook :=
  { world with hooks := [] }

/-- `drain`, and the callbacks run in the order of their registration. -/
def fire : TxWorld Row Hook :=
  { world.drain with log := world.log ++ world.hooks.map .callback }

end TxWorld

/-- `WithTransaction`; the second component tells whether it returns an error. -/
def withTransaction (faults : Faults)
    (f : Context → TxWorld Row Hook → TxWorld Row Hook × Bool) (ctx : Context)
    (world : TxWorld Row Hook) : TxWorld Row Hook × Bool :=
  match ctx.orm with
  | none => (world, true)
  | some orm =>
    if faults.begin then (world, true)
    else
      -- only the outermost scope owns the sink
      let ownsHooks := !ctx.hooks
      let begun := world.begin orm
      let result := f .inside (if ownsHooks then begun.drain else begun)
      if result.2 then
        let ended := if ownsHooks then result.1.drain else result.1
        (if faults.rollback then ended.abandon else ended.rollback orm, true)
      else if faults.commit then
        (if ownsHooks then result.1.abandon.drain else result.1.abandon, true)
      else
        let committed := result.1.commit orm
        (if ownsHooks then committed.fire else committed, false)

def Body.run : Body Row Hook → Context → TxWorld Row Hook → TxWorld Row Hook × Bool
  | .ret failed, _, world => (world, failed)
  | .write row next, ctx, world => next.run ctx (world.write row)
  | .afterCommit fn next, ctx, world => next.run ctx (world.afterCommit ctx fn)
  | .nested faults inner onSuccess onError, ctx, world =>
    let result := withTransaction faults inner.run ctx world
    if result.2 then onError.run ctx result.1 else onSuccess.run ctx result.1

end Execution

end Harbor.Orm
