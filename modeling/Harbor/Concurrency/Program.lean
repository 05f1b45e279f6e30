import Harbor.Concurrency.Transition
import Mathlib.Logic.Function.Basic

/-!
# Programs over atomic operations, and pools of them

A `Program` is a computation that reaches shared state only through *atomic
operations*: an SQL statement, a Redis command or script, an HTTP call.  What a
program does between two operations is local and is folded into the step of
the operation before it.  Programs form a monad, so a function of the source
that talks to the outside is written with `do`, one operation per statement.

The meaning of an operation is a partial function `Semantics` of the shared
world and of a `Choice` that resolves what the program does not determine (a
call that fails, the time that is read); `none` means that the operation is
blocked.  A `Pool` is a world with any number of threads, and one step of the
pool performs the next operation of one thread.
-/

namespace Harbor.Concurrency

/-- A computation of a `Result` by atomic operations. -/
inductive Program (Op : Type) (Reply : Op → Type) (Result : Type) : Type
  | ret (result : Result)
  | call (op : Op) (next : Reply op → Program Op Reply Result)

namespace Program

variable {Op : Type} {Reply : Op → Type} {α β : Type}

protected def bind : Program Op Reply α → (α → Program Op Reply β) → Program Op Reply β
  | .ret result, rest => rest result
  | .call op next, rest => .call op fun reply => (next reply).bind rest

instance : Monad (Program Op Reply) where
  pure := .ret
  bind := Program.bind

/-- Perform one operation and return its reply. -/
def perform (op : Op) : Program Op Reply (Reply op) :=
  .call op .ret

end Program

/-- What an operation does to the world and what it replies, under a choice. -/
abbrev Semantics (World Op : Type) (Reply : Op → Type) (Choice : Type) : Type :=
  World → (op : Op) → Choice → Option (World × Reply op)

/-- A shared world and the threads that run in it. -/
structure Pool (World Op : Type) (Reply : Op → Type) (Thread Result : Type) where
  world : World
  threads : Thread → Program Op Reply Result

namespace Pool

variable {World Op : Type} {Reply : Op → Type} {Thread Result Choice : Type} [DecidableEq Thread]

/-- One step: `action.1` performs its next operation under the choice `action.2`. -/
def step (sem : Semantics World Op Reply Choice) (pool : Pool World Op Reply Thread Result)
    (action : Thread × Choice) : Option (Pool World Op Reply Thread Result) :=
  match pool.threads action.1 with
  | .ret _ => none
  | .call op next => (sem pool.world op action.2).map fun after =>
    { world := after.1
      threads := Function.update pool.threads action.1 (next after.2) }

/-- The operation that `thread` performs next, if it has not returned. -/
def nextOp (pool : Pool World Op Reply Thread Result) (thread : Thread) : Option Op :=
  match pool.threads thread with
  | .ret _ => none
  | .call op _ => some op

variable {sem : Semantics World Op Reply Choice}
  {pool after : Pool World Op Reply Thread Result} {thread : Thread} {choice : Choice}

/-- What a step of the pool is: the acting thread performs an operation and
continues with the reply, and every other thread stays where it was. -/
theorem step_eq_some (hstep : step sem pool (thread, choice) = some after) :
    ∃ op next world reply, pool.threads thread = .call op next ∧
      sem pool.world op choice = some (world, reply) ∧
      after = ⟨world, Function.update pool.threads thread (next reply)⟩ := by
  cases hthread : pool.threads thread with
  | ret result => simp [step, hthread] at hstep
  | call op next =>
    simp only [step, hthread, Option.map_eq_some_iff] at hstep
    obtain ⟨⟨world, reply⟩, hsem, rfl⟩ := hstep
    exact ⟨op, next, world, reply, rfl, hsem, rfl⟩

theorem step_of_call {op : Op} {next : Reply op → Program Op Reply Result} {world : World}
    {reply : Reply op} (hthread : pool.threads thread = .call op next)
    (hsem : sem pool.world op choice = some (world, reply)) :
    step sem pool (thread, choice) =
      some ⟨world, Function.update pool.threads thread (next reply)⟩ := by
  simp [step, hthread, hsem]

end Pool

end Harbor.Concurrency
