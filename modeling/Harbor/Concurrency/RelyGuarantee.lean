import Harbor.Concurrency.Program

/-!
# Rely–guarantee reasoning about pools

A thread is verified on its own, against a *rely* relation that bounds what the
other threads may do between two of its operations and a *guarantee* relation
that bounds what it does itself.  `Secured` is that judgement, defined by
recursion on the program: at every operation the world may first have moved
along the rely, and the operation has to keep the common invariant and the
guarantee and leave the rest of the program secured.  Stability of the
assertions in between is therefore built in.

`Pool.secured_exec` puts the threads together.  If each thread is secured and
the guarantee of one thread is within the rely of every other, then every
interleaving keeps the invariant, and each of its steps keeps the guarantee of
the thread that made it (`Pool.guarantee_exec`).

`Allowed` restricts the runs that are considered: a step is only looked at when
the operation it performs is allowed, under the choice of the step, in the world
it is performed in.  Taking it to be always true gives statements about all runs.
-/

namespace Harbor.Concurrency

variable {World Op : Type} {Reply : Op → Type} {Thread Result α β Choice : Type}

section Judgement

variable (sem : Semantics World Op Reply Choice) (Allowed : World → Op → Choice → Prop)
  (Inv : World → Prop) (Rely Guar : World → World → Prop)

/-- The program, started in `world`, keeps `Inv` and `Guar` under interference
within `Rely`, and returns only results with `Post`. -/
def Secured (Post : Result → World → Prop) : Program Op Reply Result → World → Prop
  | .ret result, world => ∀ later, Rely world later → Inv later → Post result later
  | .call op next, world => ∀ later choice after reply, Rely world later → Inv later →
      Allowed later op choice → sem later op choice = some (after, reply) →
        Inv after ∧ Guar later after ∧ Secured Post (next reply) after

end Judgement

section Rules

variable {sem : Semantics World Op Reply Choice} {Allowed : World → Op → Choice → Prop}
  {Inv : World → Prop} {Rely Guar : World → World → Prop} {Post : Result → World → Prop}
  {world : World}

/-- Interference within the rely leaves a secured program secured. -/
theorem Secured.stable (htrans : ∀ a b c, Rely a b → Rely b c → Rely a c)
    {program : Program Op Reply Result} {later : World}
    (h : Secured sem Allowed Inv Rely Guar Post program world) (hrely : Rely world later) :
    Secured sem Allowed Inv Rely Guar Post program later := by
  cases program with
  | ret result => exact fun last hlast => h last (htrans _ _ _ hrely hlast)
  | call op next =>
    exact fun last choice after reply hlast =>
      h last choice after reply (htrans _ _ _ hrely hlast)

theorem Secured.mono {Post' : Result → World → Prop}
    (hpost : ∀ result world, Inv world → Post result world → Post' result world)
    {program : Program Op Reply Result} (h : Secured sem Allowed Inv Rely Guar Post program world) :
    Secured sem Allowed Inv Rely Guar Post' program world := by
  induction program generalizing world with
  | ret result => exact fun later hrely hinv => hpost _ _ hinv (h later hrely hinv)
  | call op next ih =>
    intro later choice after reply hrely hinv hallowed hsem
    obtain ⟨hinv', hguar, hnext⟩ := h later choice after reply hrely hinv hallowed hsem
    exact ⟨hinv', hguar, ih reply hnext⟩

/-- A result may be returned as soon as it satisfies a stable postcondition. -/
theorem Secured.ret {result : Result}
    (hstable : ∀ later, Rely world later → Post result world → Post result later)
    (hpost : Post result world) : Secured sem Allowed Inv Rely Guar Post (.ret result) world :=
  fun later hrely _ => hstable later hrely hpost

/-- An operation that leaves the world alone: only what it replies counts. -/
theorem Secured.read (hrefl : ∀ world, Guar world world) {op : Op}
    {next : Reply op → Program Op Reply Result}
    (hsame : ∀ later choice after reply, sem later op choice = some (after, reply) → after = later)
    (hnext : ∀ later choice reply, Rely world later → Inv later → Allowed later op choice →
      sem later op choice = some (later, reply) →
        Secured sem Allowed Inv Rely Guar Post (next reply) later) :
    Secured sem Allowed Inv Rely Guar Post (.call op next) world := by
  intro later choice after reply hrely hinv hallowed hsem
  obtain rfl := hsame later choice after reply hsem
  exact ⟨hinv, hrefl _, hnext _ choice reply hrely hinv hallowed hsem⟩

/-- **Sequencing.**  The second program only has to be secured from the worlds
in which the first one returns. -/
theorem Secured.bind {Mid : α → World → Prop} {Post : β → World → Prop}
    (hrefl : ∀ world, Rely world world) {first : Program Op Reply α} {rest : α → Program Op Reply β}
    (hinv : Inv world) (hfirst : Secured sem Allowed Inv Rely Guar Mid first world)
    (hrest : ∀ result later, Inv later → Mid result later →
      Secured sem Allowed Inv Rely Guar Post (rest result) later) :
    Secured sem Allowed Inv Rely Guar Post (first >>= rest) world := by
  induction first generalizing world with
  | ret result => exact hrest result world hinv (hfirst world (hrefl world) hinv)
  | call op next ih =>
    intro later choice after reply hrely hinv' hallowed hsem
    obtain ⟨hafter, hguar, hnext⟩ := hfirst later choice after reply hrely hinv' hallowed hsem
    exact ⟨hafter, hguar, ih reply hafter hnext⟩

end Rules

/-! ## Programs that only use certain operations -/

/-- Every operation the program can perform satisfies `P`. -/
def Program.Uses (P : Op → Prop) : Program Op Reply Result → Prop
  | .ret _ => True
  | .call op next => P op ∧ ∀ reply, (next reply).Uses P

variable {P : Op → Prop} {program : Program Op Reply Result} {sem : Semantics World Op Reply Choice}

theorem Program.Uses.bind {first : Program Op Reply α} {rest : α → Program Op Reply β}
    (hfirst : first.Uses P) (hrest : ∀ result, (rest result).Uses P) : (first >>= rest).Uses P := by
  induction first with
  | ret result => exact hrest result
  | call op next ih => exact ⟨hfirst.1, fun reply => ih reply (hfirst.2 reply)⟩

theorem Program.uses_of_forall (hP : ∀ op, P op) (program : Program Op Reply Result) :
    program.Uses P := by
  induction program with
  | ret result => trivial
  | call op next ih => exact ⟨hP op, ih⟩

theorem Program.Uses.mono {Q : Op → Prop} (huses : program.Uses P) (hPQ : ∀ op, P op → Q op) :
    program.Uses Q := by
  induction program with
  | ret result => trivial
  | call op next ih => exact ⟨hPQ op huses.1, fun reply => ih reply (huses.2 reply)⟩

/-- If each single operation keeps the invariant, the guarantee and a stable
fact, so does every program made of such operations. -/
theorem Program.Uses.secured {Allowed : World → Op → Choice → Prop} {Inv : World → Prop}
    {Rely Guar : World → World → Prop} {Fact : World → Prop}
    (hstable : ∀ a b, Rely a b → Fact a → Fact b)
    (hop : ∀ world op choice after reply, P op → Inv world → Fact world → Allowed world op choice →
      sem world op choice = some (after, reply) → Inv after ∧ Guar world after ∧ Fact after)
    (huses : program.Uses P) {world : World} (hfact : Fact world) :
    Secured sem Allowed Inv Rely Guar (fun _ later => Fact later) program world := by
  induction program generalizing world with
  | ret result => exact fun later hrely _ => hstable _ _ hrely hfact
  | call op next ih =>
    intro later choice after reply hrely hinv hallowed hsem
    obtain ⟨hafter, hguar, hfact'⟩ :=
      hop later op choice after reply huses.1 hinv (hstable _ _ hrely hfact) hallowed hsem
    exact ⟨hafter, hguar, ih reply (huses.2 reply) hfact'⟩

/-- **Frame.**  A fact that neither the others nor the operations of the program destroy still
holds when the program returns. -/
theorem Secured.frame {Allowed : World → Op → Choice → Prop} {Inv : World → Prop}
    {Rely Guar : World → World → Prop} {Post : Result → World → Prop} (Fact : World → Prop)
    (hrely : ∀ a b, Rely a b → Fact a → Fact b)
    (hop : ∀ world op choice after reply, P op → sem world op choice = some (after, reply) →
      Guar world after → Fact world → Fact after) (huses : program.Uses P) {world : World}
    (h : Secured sem Allowed Inv Rely Guar Post program world) (hfact : Fact world) :
    Secured sem Allowed Inv Rely Guar (fun result later => Post result later ∧ Fact later)
      program world := by
  induction program generalizing world with
  | ret result => exact fun later hlater hinv => ⟨h later hlater hinv, hrely _ _ hlater hfact⟩
  | call op next ih =>
    intro later choice after reply hlater hinv hallowed hsem
    obtain ⟨hafter, hmove, hnext⟩ := h later choice after reply hlater hinv hallowed hsem
    exact ⟨hafter, hmove, ih reply (huses.2 reply) hnext
      (hop later op choice after reply huses.1 hsem hmove (hrely _ _ hlater hfact))⟩

/-! ## How programs end -/

/-- Whenever the program returns right after an operation, the operation, its reply and
the result satisfy `Q`; if it returns at once, the result satisfies `Last`.  Only replies
that the semantics can give are considered. -/
def Program.Ends (sem : Semantics World Op Reply Choice)
    (Q : (op : Op) → Reply op → Result → Prop) : Program Op Reply Result → (Result → Prop) → Prop
  | .ret result, Last => Last result
  | .call op next, _ => ∀ world choice after reply, sem world op choice = some (after, reply) →
      (next reply).Ends sem Q (Q op reply)

theorem Program.Ends.mono {Q Q' : (op : Op) → Reply op → Result → Prop} {Last Last' : Result → Prop}
    (hQ : ∀ op reply result, Q op reply result → Q' op reply result)
    (hLast : ∀ result, Last result → Last' result) (h : program.Ends sem Q Last) :
    program.Ends sem Q' Last' := by
  induction program generalizing Last Last' with
  | ret result => exact hLast result h
  | call op next ih =>
    exact fun world choice after reply hsem =>
      ih reply (hQ op reply) (h world choice after reply hsem)

theorem Program.ends_of_forall {Q : (op : Op) → Reply op → Result → Prop} {Last : Result → Prop}
    (hQ : ∀ op reply result, Q op reply result) (hLast : ∀ result, Last result)
    (program : Program Op Reply Result) : program.Ends sem Q Last := by
  induction program generalizing Last with
  | ret result => exact hLast result
  | call op next ih => exact fun _ _ _ reply _ => ih reply (hQ op reply)

/-- A sequence ends as its second part does, which may also return at once. -/
theorem Program.ends_bind {Q : (op : Op) → Reply op → β → Prop} {Last : β → Prop}
    {Good : (β → Prop) → Prop} {first : Program Op Reply α} {rest : α → Program Op Reply β}
    (hQ : ∀ op reply, Good (Q op reply)) (hLast : Good Last)
    (hrest : ∀ result Last, Good Last → (rest result).Ends sem Q Last) :
    (first >>= rest).Ends sem Q Last := by
  induction first generalizing Last with
  | ret result => exact hrest result Last hLast
  | call op next ih => exact fun _ _ _ reply _ => ih reply (hQ op reply)

/-! ## Pools -/

namespace Pool

variable [DecidableEq Thread] {sem : Semantics World Op Reply Choice}
  {Allowed : World → Op → Choice → Prop} {Inv : World → Prop}
  {Rely Guar : Thread → World → World → Prop} {Post : Thread → Result → World → Prop}

/-- The operation performed by this step is allowed. -/
def Admits (Allowed : World → Op → Choice → Prop) (pool : Pool World Op Reply Thread Result)
    (action : Thread × Choice) (_after : Pool World Op Reply Thread Result) : Prop :=
  ∀ op, pool.nextOp action.1 = some op → Allowed pool.world op action.2

variable {pool : Pool World Op Reply Thread Result} {actions : List (Thread × Choice)}

omit [DecidableEq Thread] in
theorem admits_of_nextOp {Allowed : World → Op → Choice → Prop}
    {after : Pool World Op Reply Thread Result} {action : Thread × Choice} {op : Op}
    (hop : pool.nextOp action.1 = some op) (hallowed : Allowed pool.world op action.2) :
    Admits Allowed pool action after := by
  intro other hother
  cases hop.symm.trans hother
  exact hallowed

/-- The invariant holds and every thread is secured for its own rely and guarantee. -/
def IsSecured (sem : Semantics World Op Reply Choice) (Allowed : World → Op → Choice → Prop)
    (Inv : World → Prop) (Rely Guar : Thread → World → World → Prop)
    (Post : Thread → Result → World → Prop) (pool : Pool World Op Reply Thread Result) : Prop :=
  Inv pool.world ∧
    ∀ thread, Secured sem Allowed Inv (Rely thread) (Guar thread) (Post thread)
      (pool.threads thread) pool.world

/-- The threads of a pool are compatible: relies are preorders, and what one
thread guarantees every other one tolerates. -/
structure Compatible (Inv : World → Prop) (Rely Guar : Thread → World → World → Prop) :
    Prop where
  refl : ∀ thread world, Rely thread world world
  trans : ∀ thread a b c, Rely thread a b → Rely thread b c → Rely thread a c
  guar_rely : ∀ thread other a b, thread ≠ other → Inv a → Inv b →
    Guar thread a b → Rely other a b

/-- One step of a secured pool leaves it secured and keeps the guarantee of
the thread that moved. -/
theorem IsSecured.step (hcompat : Compatible Inv Rely Guar)
    {after : Pool World Op Reply Thread Result} {action : Thread × Choice}
    (hsecured : IsSecured sem Allowed Inv Rely Guar Post pool)
    (hstep : Pool.step sem pool action = some after) (hadmits : Admits Allowed pool action after) :
    IsSecured sem Allowed Inv Rely Guar Post after ∧
      Guar action.1 pool.world after.world := by
  obtain ⟨thread, choice⟩ := action
  obtain ⟨op, next, world, reply, hthread, hsem, rfl⟩ := step_eq_some hstep
  have hallowed : Allowed pool.world op choice := hadmits op (by simp [nextOp, hthread])
  have hacting := hsecured.2 thread
  rw [hthread] at hacting
  obtain ⟨hinv, hguar, hnext⟩ :=
    hacting pool.world choice world reply (hcompat.refl thread _) hsecured.1 hallowed hsem
  refine ⟨⟨hinv, fun other => ?_⟩, hguar⟩
  by_cases hother : other = thread
  · subst hother
    simpa using hnext
  · simp only [Function.update_of_ne hother]
    exact (hsecured.2 other).stable (hcompat.trans other)
      (hcompat.guar_rely thread other _ _ (Ne.symm hother) hsecured.1 hinv hguar)

/-- **Parallel composition.**  Every run of a secured pool whose operations are
allowed ends in a secured pool. -/
theorem secured_exec (hcompat : Compatible Inv Rely Guar)
    {final : Pool World Op Reply Thread Result}
    (hsecured : IsSecured sem Allowed Inv Rely Guar Post pool)
    (hadmits : EveryStep (Pool.step sem) (Admits Allowed) pool actions)
    (hrun : exec (Pool.step sem) pool actions = some final) :
    IsSecured sem Allowed Inv Rely Guar Post final :=
  exec_invariant _ (fun _ _ _ hpool hstep hallows => (hpool.step hcompat hstep hallows).1)
    hsecured hadmits hrun

/-- Every step of such a run keeps the guarantee of the thread that makes it. -/
theorem guarantee_exec (hcompat : Compatible Inv Rely Guar)
    (hsecured : IsSecured sem Allowed Inv Rely Guar Post pool)
    (hadmits : EveryStep (Pool.step sem) (Admits Allowed) pool actions) :
    EveryStep (Pool.step sem) (fun before action after =>
      Inv before.world ∧ Guar action.1 before.world after.world) pool actions :=
  everyStep_of_invariant (IsSecured sem Allowed Inv Rely Guar Post)
    (fun _ _ _ hpool hstep hallows =>
      ⟨(hpool.step hcompat hstep hallows).1, hpool.1, (hpool.step hcompat hstep hallows).2⟩)
    hsecured hadmits

/-- In every run a thread performs only operations that its program uses. -/
theorem uses_exec {P : Thread → Op → Prop} {pool : Pool World Op Reply Thread Result}
    {actions : List (Thread × Choice)} (huses : ∀ thread, (pool.threads thread).Uses (P thread)) :
    EveryStep (Pool.step sem) (fun before action after => ∃ op reply,
      before.nextOp action.1 = some op ∧ P action.1 op ∧
      sem before.world op action.2 = some (after.world, reply)) pool actions := by
  refine everyStep_of_invariant (fun pool => ∀ thread, (pool.threads thread).Uses (P thread)) ?_
    huses (everyStep_true pool actions)
  rintro before ⟨thread, choice⟩ after hbefore hstep -
  obtain ⟨op, next, world, reply, hthread, hsem, rfl⟩ := step_eq_some hstep
  have hacting := hbefore thread
  rw [hthread] at hacting
  refine ⟨fun other => ?_, op, reply, by simp [nextOp, hthread], hacting.1, hsem⟩
  by_cases hother : other = thread
  · subst hother
    simpa using hacting.2 reply
  · simp only [Function.update_of_ne hother]
    exact hbefore other

/-- In every run a thread returns as its program ends. -/
theorem ends_exec {Q : Thread → (op : Op) → Reply op → Result → Prop}
    (hends : ∀ thread, ∃ Last, (pool.threads thread).Ends sem (Q thread) Last) :
    EveryStep (Pool.step sem) (fun before action after =>
      ∀ result, after.threads action.1 = .ret result → ∃ op reply,
        sem before.world op action.2 = some (after.world, reply) ∧ Q action.1 op reply result)
      pool actions := by
  refine everyStep_of_invariant
    (fun pool => ∀ thread, ∃ Last, (pool.threads thread).Ends sem (Q thread) Last) ?_ hends
    (everyStep_true pool actions)
  rintro before ⟨thread, choice⟩ after hbefore hstep -
  obtain ⟨op, next, world, reply, hthread, hsem, rfl⟩ := step_eq_some hstep
  obtain ⟨Last, hacting⟩ := hbefore thread
  rw [hthread] at hacting
  have hnext := hacting before.world choice world reply hsem
  constructor
  · intro other
    by_cases hother : other = thread
    · subst hother
      exact ⟨Q other op reply, by simpa using hnext⟩
    · simp only [Function.update_of_ne hother]
      exact hbefore other
  · intro result hresult
    have hreturns : next reply = .ret result := by simpa using hresult
    rw [hreturns] at hnext
    exact ⟨op, reply, hsem, hnext⟩

end Pool

end Harbor.Concurrency
