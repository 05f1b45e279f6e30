import Harbor.Concurrency.Program
import Harbor.Tasks.Model

/-!
# Refreshing the status of an execution

`RefreshStatus` computes the status of an execution from the statuses of its
tasks: it reads the execution row, then the counts, and writes the status under
the condition that the revision is still the one it has read.  It is called when
a status hook was handled, and, in the asynchronous mode, by a scan on every node:
the hook only adds the execution to a Redis set, inside the transaction of its
request, and the scans pop executions from the set and refresh them.

`TaskWorld` is the database, the set and the open transactions.  Statements of an
open transaction become visible when it commits; a row it has changed is locked
until then, so it does not matter that they are evaluated at that point.  Beside
the data, the world keeps an `Audit` for each execution: how often its tasks have
changed, how many of these changes are behind the stored status, which calls
are in progress and which changes of the status were made and reported.

The check-in data of hooks, the post functions of the vendors and the logs are
left out.  A status hook for `Stopped` refreshes the execution right away instead
of adding it to the set; `AsyncEvent` is any other one.
-/

namespace Harbor.Tasks

open Harbor.JobService Harbor.Concurrency

/-! ## The world -/

inductive TaskFailure
  | notFound
  | database
  | redis
  | conflict
  deriving DecidableEq, Repr

/-- A member of the outdated set, formatted as ID, colon, vendor type.  The ID has
no colon, so the first colon separates the two. -/
structure Member where
  id : ℤ
  vendor : String
  deriving DecidableEq, Repr

/-- A change of the stored status, by the revision it has led to. -/
structure Change where
  revision : ℤ
  status : String
  deriving DecidableEq, Repr

/-- The record of an execution. -/
structure Audit where
  /-- committed changes of its tasks -/
  updates : ℕ := 0
  /-- how many of them the stored status was computed from -/
  basis : ℕ := 0
  /-- how many of them came before the start of some call that has returned without error -/
  covered : ℕ := 0
  /-- the calls in progress, by thread, with the number of updates at their start -/
  calls : ℕ → Option ℕ := fun _ => none
  changes : List Change := []
  reports : List Change := []
  /-- the changes whose calls are still to report them, by thread -/
  owed : ℕ → Option Change := fun _ => none
  /-- the threads that have popped the execution and are not done with it, with the
  number of updates at that point -/
  held : ℕ → Option ℕ := fun _ => none

/-- An open transaction: its statements, and the executions it has added to the set. -/
structure OpenTx where
  writes : List Statement := []
  added : List ℤ := []

structure TaskWorld where
  tasks : List TaskRow
  executions : ℤ → Option ExecutionRow
  transactions : ℕ → Option OpenTx := fun _ => none
  outdated : List Member := []
  scans : ℕ → Bool := fun _ => false
  audit : ℤ → Audit := fun _ => {}

/-- What `RefreshStatus` returns, with the revision of the row for the record. -/
structure RefreshResult where
  statusChanged : Bool
  currentStatus : String
  revision : ℤ
  deriving DecidableEq, Repr

variable (thread : ℕ)

namespace Audit

variable (audit : Audit)

def entered : Audit :=
  { audit with calls := Function.update audit.calls thread (some audit.updates) }

/-- The status is stored, computed from the tasks as of `seen`. -/
def refreshed (thread seen : ℕ) : Option Change → Audit
  | none => { audit with basis := seen }
  | some change =>
    { audit with
      basis := seen
      changes := audit.changes ++ [change]
      owed := Function.update audit.owed thread (some change) }

def returned : Except TaskFailure RefreshResult → Audit
  | .error _ => { audit with calls := Function.update audit.calls thread none }
  | .ok result =>
    { audit with
      covered := max audit.covered ((audit.calls thread).getD 0)
      calls := Function.update audit.calls thread none
      held := Function.update audit.held thread none
      reports := if result.statusChanged then
          audit.reports ++ [⟨result.revision, result.currentStatus⟩] else audit.reports
      owed := if result.statusChanged then Function.update audit.owed thread none
        else audit.owed }

end Audit

/-! ## Operations -/

inductive RefreshOp
  | enter (thread : ℕ) (id : ℤ)
  | leave (thread : ℕ) (id : ℤ) (result : Except TaskFailure RefreshResult)
  | getExecution (id : ℤ)
  | listStatusCount (id : ℤ)
  | casStatus (thread : ℕ) (id : ℤ) (status : String) (revision : ℤ) (seen : ℕ)
  | setEndTime (thread : ℕ) (id : ℤ)
  | write (statement : Statement)
  | begin (thread : ℕ)
  | findTasks (jobID : String)
  | txWrite (thread : ℕ) (statement : Statement)
  | commit (thread : ℕ)
  | rollback (thread : ℕ)
  | add (thread : ℕ) (member : Member)
  | scanStart (thread : ℕ)
  | pop (thread : ℕ)
  | requeue (thread : ℕ) (members : List Member)
  | scanEnd (thread : ℕ)

/-- The replies; counts come with the number of updates so far. -/
def RefreshReply : RefreshOp → Type
  | .getExecution _ => Except TaskFailure ExecutionRow
  | .listStatusCount _ => Except TaskFailure (List (String × ℕ) × ℕ)
  | .casStatus _ _ _ _ _ => Except TaskFailure Bool
  | .setEndTime _ _ => Except TaskFailure Unit
  | .write _ => Except TaskFailure Unit
  | .begin _ => Except TaskFailure Unit
  | .findTasks _ => Except TaskFailure (List TaskRow)
  | .txWrite _ _ => Except TaskFailure Unit
  | .commit _ => Except TaskFailure Unit
  | .add _ _ => Except TaskFailure Unit
  | .pop _ => Except TaskFailure (List Member)
  | .requeue _ _ => Except TaskFailure Unit
  | _ => Unit

abbrev RefreshProgram (Result : Type) : Type := Program RefreshOp RefreshReply Result

abbrev RefreshCall : Type := RefreshProgram (Except TaskFailure Unit)

/-- A command may fail, and Redis chooses what it pops. -/
structure RefreshChoice where
  failure : Bool := false
  popped : List Member := []

/-- The size of a batch, `execStatusOutdateBatchSize`. -/
def execStatusOutdateBatchSize : ℕ := 100

/-- One start time is later than another, as PostgreSQL orders them: the zero time is stored as
NULL, which is greater than every value. -/
def startsAfter : Option ℤ → Option ℤ → Prop
  | some first, some second => second < first
  | none, some _ => True
  | _, none => False

instance : DecidableRel startsAfter
  | some first, some second => inferInstanceAs (Decidable (second < first))
  | none, some _ => inferInstanceAs (Decidable True)
  | some _, none | none, none => inferInstanceAs (Decidable False)

/-- `GetDefaultSorts` of tasks: those that have not started come first, then the latest start;
of the same start, the greatest ID. -/
def TaskRow.SortsBefore (first second : TaskRow) : Prop :=
  startsAfter first.startTime second.startTime ∨
    (first.startTime = second.startTime ∧ second.id ≤ first.id)

instance : DecidableRel TaskRow.SortsBefore :=
  fun first second => inferInstanceAs (Decidable
    (startsAfter first.startTime second.startTime ∨
      (first.startTime = second.startTime ∧ second.id ≤ first.id)))

/-- `taskDAO.List` by job ID. -/
def tasksOfJob (tasks : List TaskRow) (jobID : String) : List TaskRow :=
  (tasks.filter fun row => row.jobID = jobID).insertionSort TaskRow.SortsBefore

variable (id : ℤ) (members : List Member)

namespace TaskWorld

variable (world : TaskWorld)

def record (change : Audit → Audit) : TaskWorld :=
  { world with audit := Function.update world.audit id (change (world.audit id)) }

def setRow (row : ExecutionRow) : TaskWorld :=
  { world with executions := Function.update world.executions id (some row) }

/-- Replace the task table and count the executions whose tasks have changed. -/
def setTasks (tasks : List TaskRow) : TaskWorld :=
  { world with
    tasks
    audit := fun id =>
      if tasksOf tasks id = tasksOf world.tasks id then world.audit id
      else { world.audit id with updates := (world.audit id).updates + 1 } }

/-- The latest end time of the tasks of an execution, as `max(end_time)`. -/
def maxEndTime : Option ℤ :=
  ((tasksOf world.tasks id).filterMap TaskRow.endTime).foldl
    (fun latest time => some (latest.elim time (max time))) none

/-- The row after the statement that sets the end time. -/
def endedRow (row : ExecutionRow) : ExecutionRow :=
  { row with
    endTime :=
      if row.status = Status.error.text ∨ row.status = Status.stopped.text ∨
          row.status = Status.success.text then world.maxEndTime id
      else none }

def setEndTime : TaskWorld :=
  match world.executions id with
  | some row => world.setRow id (world.endedRow id row)
  | none => world

/-- The guarded update of the status; `none` if it changes no row. -/
def casStatus (status : String) (revision : ℤ) (seen : ℕ) : Option TaskWorld :=
  match world.executions id with
  | some row =>
    if row.revision = revision then
      some ((world.setRow id { row with status, revision := revision + 1 }).record id
        fun audit => audit.refreshed thread seen
          (if row.status = status then none else some ⟨revision + 1, status⟩))
    else none
  | none => none

/-- The transaction of a thread starts, goes on or ends. -/
def setTx (tx : Option OpenTx) : TaskWorld :=
  { world with transactions := Function.update world.transactions thread tx }

/-- The transaction of a thread does something more. -/
def inTx (change : OpenTx → OpenTx) : TaskWorld :=
  world.setTx thread ((world.transactions thread).map change)

def commit : TaskWorld :=
  match world.transactions thread with
  | some tx => (world.setTx thread none).setTasks (tx.writes.foldl Statement.apply world.tasks)
  | none => world

/-- A scan starts or ends. -/
def setScan (scanning : Bool) : TaskWorld :=
  { world with scans := Function.update world.scans thread scanning }

/-- `SPOP` may take these members: as many as there are, but at most a batch. -/
def Pops : Prop :=
  members.Nodup ∧ (∀ member ∈ members, member ∈ world.outdated) ∧
    members.length = min execStatusOutdateBatchSize world.outdated.length

instance (members : List Member) : Decidable (world.Pops members) :=
  inferInstanceAs (Decidable (_ ∧ _))

def pop : TaskWorld :=
  { world with
    outdated := world.outdated.filter fun member => member ∉ members
    audit := fun id =>
      if ∃ member ∈ members, member.id = id then
        { world.audit id with
          held := Function.update (world.audit id).held thread
            (some (world.audit id).updates) }
      else world.audit id }

def sadd : TaskWorld :=
  { world with outdated := world.outdated ∪ members }

def requeue : TaskWorld :=
  { world.sadd members with
    audit := fun id =>
      if ∃ member ∈ members, member.id = id then
        { world.audit id with held := Function.update (world.audit id).held thread none }
      else world.audit id }

end TaskWorld

/-- What each operation does.  A command that fails has no effect; a transaction
that fails to commit is gone. -/
def refreshSem : Semantics TaskWorld RefreshOp RefreshReply RefreshChoice
  | world, .enter thread id, _ => some (world.record id fun audit => audit.entered thread, ())
  | world, .leave thread id result, _ =>
    some (world.record id fun audit => audit.returned thread result, ())
  | world, .getExecution id, choice =>
    if choice.failure then some (world, .error .database)
    else match world.executions id with
      | some row => some (world, .ok row)
      | none => some (world, .error .notFound)
  | world, .listStatusCount id, choice =>
    if choice.failure then some (world, .error .database)
    else some (world, .ok (listStatusCount world.tasks id, (world.audit id).updates))
  | world, .casStatus thread id status revision seen, choice =>
    if choice.failure then some (world, .error .database)
    else match world.casStatus thread id status revision seen with
      | some after => some (after, .ok true)
      | none => some (world, .ok false)
  | world, .setEndTime _ id, choice =>
    if choice.failure then some (world, .error .database)
    else some (world.setEndTime id, .ok ())
  | world, .write statement, choice =>
    if choice.failure then some (world, .error .database)
    else some (world.setTasks (statement.apply world.tasks), .ok ())
  | world, .begin thread, choice =>
    if choice.failure then some (world, .error .database)
    else some (world.setTx thread (some {}), .ok ())
  | world, .findTasks jobID, choice =>
    if choice.failure then some (world, .error .database)
    else some (world, .ok (tasksOfJob world.tasks jobID))
  | world, .txWrite thread statement, choice =>
    if choice.failure then some (world, .error .database)
    else some (world.inTx thread fun tx => { tx with writes := tx.writes ++ [statement] }, .ok ())
  | world, .commit thread, choice =>
    if choice.failure then some (world.setTx thread none, .error .database)
    else some (world.commit thread, .ok ())
  | world, .rollback thread, _ => some (world.setTx thread none, ())
  | world, .add thread member, choice =>
    if choice.failure then some (world, .error .redis)
    else some ((world.sadd [member]).inTx thread fun tx =>
      { tx with added := member.id :: tx.added }, .ok ())
  | world, .scanStart thread, _ => some (world.setScan thread true, ())
  | world, .pop thread, choice =>
    if choice.failure then some (world, .error .redis)
    else if world.Pops choice.popped then
      some (world.pop thread choice.popped, .ok choice.popped)
    else none
  | world, .requeue thread members, choice =>
    if choice.failure then some (world, .error .redis)
    else some (world.requeue thread members, .ok ())
  | world, .scanEnd thread, _ => some (world.setScan thread false, ())

namespace TaskDb

abbrev enter : RefreshProgram Unit :=
  .perform (RefreshOp.enter thread id)

abbrev leave (result : Except TaskFailure RefreshResult) : RefreshProgram Unit :=
  .perform (RefreshOp.leave thread id result)

abbrev getExecution : RefreshProgram (Except TaskFailure ExecutionRow) :=
  .perform (RefreshOp.getExecution id)

abbrev listStatusCount : RefreshProgram (Except TaskFailure (List (String × ℕ) × ℕ)) :=
  .perform (RefreshOp.listStatusCount id)

abbrev casStatus (status : String) (revision : ℤ) (seen : ℕ) :
    RefreshProgram (Except TaskFailure Bool) :=
  .perform (RefreshOp.casStatus thread id status revision seen)

abbrev setEndTime : RefreshCall :=
  .perform (RefreshOp.setEndTime thread id)

abbrev write (statement : Statement) : RefreshCall :=
  .perform (RefreshOp.write statement)

abbrev begin : RefreshCall :=
  .perform (RefreshOp.begin thread)

abbrev findTasks (jobID : String) : RefreshProgram (Except TaskFailure (List TaskRow)) :=
  .perform (RefreshOp.findTasks jobID)

abbrev txWrite (statement : Statement) : RefreshCall :=
  .perform (RefreshOp.txWrite thread statement)

abbrev commit : RefreshCall :=
  .perform (RefreshOp.commit thread)

abbrev rollback : RefreshProgram Unit :=
  .perform (RefreshOp.rollback thread)

abbrev add (member : Member) : RefreshCall :=
  .perform (RefreshOp.add thread member)

abbrev scanStart : RefreshProgram Unit :=
  .perform (RefreshOp.scanStart thread)

abbrev pop : RefreshProgram (Except TaskFailure (List Member)) :=
  .perform (RefreshOp.pop thread)

abbrev requeue : RefreshCall :=
  .perform (RefreshOp.requeue thread members)

abbrev scanEnd : RefreshProgram Unit :=
  .perform (RefreshOp.scanEnd thread)

end TaskDb

/-! ## RefreshStatus -/

/-- What one try of `RefreshStatus` comes to. -/
inductive Attempt
  | done (result : RefreshResult)
  | retry

/-- The part of `refreshStatus` after the counts are read. -/
def writeStatus (execution : ExecutionRow) (metrics : Metrics) (seen : ℕ) :
    RefreshProgram (Except TaskFailure Attempt) :=
  if metrics.taskCount = 0 then return .ok (.done ⟨false, "", execution.revision⟩)
  else do
    match ← TaskDb.casStatus thread id metrics.status execution.revision seen with
    | .error err => return .error err
    | .ok false => return .ok .retry
    | .ok true => do
      match ← TaskDb.setEndTime thread id with
      | .error err => return .error err
      | .ok () => return .ok (.done ⟨metrics.status ≠ execution.status, metrics.status,
          execution.revision + 1⟩)

/-- `refreshStatus`, one try. -/
def refreshStatusOnce : RefreshProgram (Except TaskFailure Attempt) := do
  match ← TaskDb.getExecution id with
  | .error err => return .error err
  | .ok execution => do
    match ← TaskDb.listStatusCount id with
    | .error err => return .error err
    | .ok (counts, seen) => writeStatus thread id execution (getMetrics counts) seen

/-- The loop of `RefreshStatus`. -/
def refreshTries (thread : ℕ) (id : ℤ) : ℕ → RefreshProgram (Except TaskFailure RefreshResult)
  | 0 => return .error .conflict
  | tries + 1 => do
    match ← refreshStatusOnce thread id with
    | .error err => return .error err
    | .ok (.done result) => return .ok result
    | .ok .retry => refreshTries thread id tries

/-- `RefreshStatus`: at most five tries. -/
def refreshStatus : RefreshProgram (Except TaskFailure RefreshResult) := do
  TaskDb.enter thread id
  let result ← refreshTries thread id 5
  TaskDb.leave thread id result
  return result

/-! ## Status hooks -/

/-- A status change that is handled in the asynchronous mode. -/
structure AsyncEvent where
  jobID : String
  upstreamJobID : String := ""
  status : String
  revision : ℤ
  now : ℤ
  not_stopped : status ≠ Status.stopped.text

variable (event : AsyncEvent)

/-- The job whose task the event is for. -/
def AsyncEvent.taskJob : String :=
  if event.upstreamJobID = "" then event.jobID else event.upstreamJobID

/-- `UpdateStatus` and `AsyncRefreshStatus` for the task of the event. -/
def handleTask (task : TaskRow) : RefreshCall := do
  match ← TaskDb.txWrite thread (.startRun task.id event.revision) with
  | .error err => return .error err
  | .ok () => do
    match ← TaskDb.txWrite thread
      (.setStatus task.id event.status event.revision event.now) with
    | .error err => return .error err
    | .ok () => TaskDb.add thread ⟨task.executionID, task.vendorType⟩

def handle : RefreshCall := do
  match ← TaskDb.findTasks event.taskJob with
  | .error err => return .error err
  | .ok [] => return .error .notFound
  | .ok (task :: _) => do
    match ← TaskDb.getExecution task.executionID with
    | .error err => return .error err
    | .ok _ => handleTask thread event task

/-- The end of the request: the transaction commits if the handler has succeeded. -/
def finishRequest : Except TaskFailure Unit → RefreshCall
  | .ok () => TaskDb.commit thread
  | .error err => do
    TaskDb.rollback thread
    return .error err

/-- A status hook, handled inside the transaction of its request. -/
def hookRequest : RefreshCall := do
  match ← TaskDb.begin thread with
  | .error err => return .error err
  | .ok () => do
    let result ← handle thread event
    finishRequest thread result

/-! ## Scans -/

/-- What is to be put back after the refresh of a member: the member, unless the
refresh was successful or its execution is gone. -/
def putBack (toRequeue : List Member) (member : Member) :
    Except TaskFailure RefreshResult → List Member
  | .ok _ => toRequeue
  | .error err => if err = .notFound then toRequeue else toRequeue ++ [member]

/-- The loop over the members of a batch; it returns what is to be put back.  A
member without a vendor type does not parse and is dropped. -/
def refreshMembers (thread : ℕ) : List Member → List Member → RefreshProgram (List Member)
  | [], toRequeue => return toRequeue
  | member :: rest, toRequeue =>
    if member.vendor = "" then refreshMembers thread rest toRequeue
    else do
      let result ← refreshStatus thread member.id
      refreshMembers thread rest (putBack toRequeue member result)

/-- `requeueOutdateMembers`; an error is only logged. -/
def requeueOutdateMembers : RefreshProgram Unit :=
  if members = [] then return ()
  else do
    let _ ← TaskDb.requeue thread members
    return ()

/-- The loop of the scan, for as many batches as it comes to. -/
def scanBatches (thread : ℕ) : ℕ → RefreshProgram Unit
  | 0 => return ()
  | rounds + 1 => do
    match ← TaskDb.pop thread with
    | .error _ => return ()
    | .ok members => do
      if members = [] then return ()
      else do
        let toRequeue ← refreshMembers thread members []
        requeueOutdateMembers thread toRequeue
        if members.length < execStatusOutdateBatchSize then return ()
        else scanBatches thread rounds

def scanAndRefreshOutdateStatus (thread rounds : ℕ) : RefreshProgram Unit := do
  TaskDb.scanStart thread
  scanBatches thread rounds
  TaskDb.scanEnd thread

/-! ## Threads -/

inductive Actor
  | refresh (id : ℤ)
  | write (statement : Statement)
  | hook (event : AsyncEvent)
  | scan (rounds : ℕ)

def Actor.program : Actor → RefreshProgram Unit
  | .refresh id => do
    let _ ← refreshStatus thread id
    return ()
  | .write statement => do
    let _ ← TaskDb.write statement
    return ()
  | .hook event => do
    let _ ← hookRequest thread event
    return ()
  | .scan rounds => scanAndRefreshOutdateStatus thread rounds

/-- A world with any number of actors in it. -/
abbrev TaskPool : Type := Pool TaskWorld RefreshOp RefreshReply ℕ Unit

def taskPool (world : TaskWorld) (actors : ℕ → Actor) : TaskPool :=
  { world, threads := fun thread => (actors thread).program thread }

end Harbor.Tasks
