import Harbor.Quotas.Model

/-!
# Requests through the database

`Controller.Request` with the database provider: `updateUsageByDB` reads the
two rows of the quota, computes the new usage and writes it back with a
statement that checks the version.  Each statement is one operation.

`DbWorld` also counts the updates of the usage and keeps a *ledger* of the
reservations and rollbacks that have succeeded.  The operations carry what the
ledger needs: which change an update is for, and how many updates there had
been when the usage was read.
-/

namespace Harbor.Quotas

open Harbor.Concurrency

/-! ## Changes -/

/-- A change of the usage, which is the closure `Request` passes on. -/
inductive Entry
  | reserve (resources : ResourceList)
  | rollback (resources : ResourceList)

def Entry.resources : Entry → ResourceList
  | .reserve resources => resources
  | .rollback resources => resources

/-- The new usage that the change computes. -/
def Entry.op : Entry → ResourceList → ResourceList → Except QuotaFailure ResourceList
  | .reserve resources => reserveResources resources
  | .rollback resources => rollbackResources resources

/-- What the change adds to the usage of a resource. -/
def Entry.change : Entry → ResourceName → ℤ
  | .reserve resources, resource => (Types.amount resources resource).toInt
  | .rollback resources, resource => -(Types.amount resources resource).toInt

def balance (ledger : List Entry) (resource : ResourceName) : ℤ :=
  (ledger.map fun entry => entry.change resource).sum

@[simp] theorem balance_nil (resource : ResourceName) : balance [] resource = 0 := rfl

variable (entry : Entry)

@[simp] theorem balance_cons (ledger : List Entry) (resource : ResourceName) :
    balance (entry :: ledger) resource = entry.change resource + balance ledger resource := by
  simp [balance]

/-! ## Operations -/

inductive DbOp
  | readQuota
  | readUsage
  | update (quota : Quota) (entry : Entry) (readAt : ℕ)
  | keep (entry : Entry)
  | runF

/-- The replies; a usage comes with its version and the number of updates so far. -/
def DbReply : DbOp → Type
  | .readQuota => Except QuotaFailure (ResourceText × ℕ)
  | .readUsage => Except QuotaFailure (ResourceText × ℕ × ℕ)
  | .update _ _ _ => Except QuotaFailure Unit
  | .keep _ => Unit
  | .runF => Except QuotaFailure Unit

abbrev DbProgram (Result : Type) : Type := Program DbOp DbReply Result

abbrev DbCall : Type := DbProgram (Except QuotaFailure Unit)

structure DbWorld where
  rows : QuotaRows
  updates : ℕ := 0
  ledger : List Entry := []

/-- How an operation ends, unless it is refused. -/
inductive DbChoice
  | ok
  | fail (err : QuotaFailure)

/-- What each operation does.  `keep` stands for the early return of a change
that leaves the usage as it is, and touches nothing. -/
def dbSem : Semantics DbWorld DbOp DbReply DbChoice
  | world, .keep entry, _ => some ({ world with ledger := entry :: world.ledger }, ())
  | world, .readQuota, .ok => some (world, .ok (world.rows.hard, world.rows.hardVersion))
  | world, .readUsage, .ok =>
    some (world, .ok (world.rows.used, world.rows.usedVersion, world.updates))
  | world, .update quota entry _, .ok =>
    match world.rows.update quota with
    | .ok rows => some (⟨rows, world.updates + 1, entry :: world.ledger⟩, .ok ())
    | .error err => some (world, .error err)
  | world, .runF, .ok => some (world, .ok ())
  | world, .readQuota, .fail err => some (world, .error err)
  | world, .readUsage, .fail err => some (world, .error err)
  | world, .update _ _ _, .fail err => some (world, .error err)
  | world, .runF, .fail err => some (world, .error err)

namespace Db

abbrev readQuota : DbProgram (Except QuotaFailure (ResourceText × ℕ)) :=
  .perform DbOp.readQuota

abbrev readUsage : DbProgram (Except QuotaFailure (ResourceText × ℕ × ℕ)) :=
  .perform DbOp.readUsage

abbrev update (quota : Quota) (entry : Entry) (readAt : ℕ) : DbCall :=
  .perform (DbOp.update quota entry readAt)

abbrev keep : DbProgram Unit :=
  .perform (DbOp.keep entry)

abbrev runF : DbCall :=
  .perform DbOp.runF

end Db

/-! ## Programs -/

/-- The part of `updateUsageByDB` after the quota has been read. -/
def writeUsage (quota : Quota) (readAt : ℕ) : DbProgram Attempt :=
  match quota.hard, quota.used with
  | none, _ => return .abort .malformed
  | _, none => return .abort .malformed
  | some hardLimits, some used =>
    match entry.op hardLimits used with
    | .error err => return .abort err
    | .ok newUsed =>
      if Types.equals used newUsed then do
        Db.keep entry
        return .done
      else do
        match ← Db.update (quota.setUsed newUsed) entry readAt with
        | .ok () => return .done
        | .error err => if err = .optimisticLock then return .again err else return .abort err

def updateUsageByDB : DbProgram Attempt := do
  match ← Db.readQuota with
  | .error err => return .abort err
  | .ok (hard, hardVersion) => do
    match ← Db.readUsage with
    | .error err => return .abort err
    | .ok (used, usedVersion, readAt) =>
      writeUsage entry
        { hard := hard, used := used, hardVersion := hardVersion, usedVersion := usedVersion }
        readAt

/-- The part of `Controller.Request` after the reservation. -/
def runOrRollback (resources : ResourceList) (rollbackFuel : ℕ) : DbCall := do
  match ← Db.runF with
  | .ok () => return .ok ()
  | .error err => do
    let _ ← retry (updateUsageByDB (.rollback resources)) rollbackFuel
    return .error err

/-- `Controller.Request`, with what the timeouts of its two loops allow. -/
def requestByDB (resources : ResourceList) (reserveFuel rollbackFuel : ℕ) : DbCall :=
  if resources.entries = [] then Db.runF
  else do
    match ← retry (updateUsageByDB (.reserve resources)) reserveFuel with
    | .error err => return .error err
    | .ok () => runOrRollback resources rollbackFuel

end Harbor.Quotas
