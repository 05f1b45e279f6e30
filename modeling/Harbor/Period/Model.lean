import Harbor.Concurrency.Program
import Harbor.Data.SortedSet
import Harbor.JobService.Scripts

/-!
# Periodic jobs

A periodic job is a policy in a sorted set of Redis.  On every node an enqueuer
goes over the policies now and then and creates the executions that are due
within the next minutes: it saves the stats of the execution and puts a job into
the scheduled queue.  Rounds of different nodes overlap, and consecutive rounds
cover the same times, so the same execution is enqueued several times; the bytes
of the job are the same each time, and a sorted set has them only once.

The score of a policy is the time at which it was scheduled plus a small random
number.  It is kept in the stats of the periodic job as its numeric ID, and
`UnSchedule` removes policies by that score.

Everything runs on Redis commands, one operation each.  An operation takes place
at some time `now`, it may be refused, and its reply may be lost.  Beside the
data, `PeriodWorld` records who has created which policy, the score each policy
was scheduled with, and which scores were removed for which policy.

The lock that keeps nodes from doing a round at the same time, the retry list and
the logs are left out: rounds may come in any order, and a status may be set by
someone else at any time.
-/

namespace Harbor.Period

open Harbor.Concurrency Harbor.Data Harbor.JobService

/-! ## Policies -/

/-- `Policy`; `numericID` is not stored but filled in from the score. -/
structure Policy where
  id : String
  jobName : String
  cronSpec : String
  jobParameters : Parameters := []
  webHookURL : String := ""
  numericID : ℤ := 0
  deriving DecidableEq, Repr

variable (policy : Policy)

def Policy.withID (id : String) : Policy :=
  { policy with id }

inductive PeriodFailure
  | notFound (jobID : String)
  | redis
  | hook
  | statusMismatch
  | message (text : String)
  deriving DecidableEq, Repr

/-- The parsers for web hook URLs and cron specs; a spec gives the next time after a time. -/
structure Parsers where
  isValidURL : String → Bool
  parseCron : String → Except String (ℤ → ℤ)

variable (parsers : Parsers)

def Policy.validate : Except PeriodFailure Unit :=
  if isEmptyStr policy.id then
    .error (.message "missing ID in the periodic job policy object")
  else if isEmptyStr policy.jobName then
    .error (.message "missing job name in the periodic job policy object")
  else if !isEmptyStr policy.webHookURL && !parsers.isValidURL policy.webHookURL then
    .error (.message s!"bad web hook URL: {policy.webHookURL}")
  else match parsers.parseCron policy.cronSpec with
    | .error err => .error (.message err)
    | .ok _ => .ok ()

/-! ## Executions -/

structure QueuedJob where
  name : String
  id : String
  enqueuedAt : ℤ
  args : Parameters
  deriving DecidableEq, Repr

def periodicExecutionMark : String := "_job_kind_periodic_"

def cloneParameters (params : Parameters) (epoch : ℤ) : Parameters :=
  params.filter (fun param => param.1 ≠ periodicExecutionMark) ++
    [(periodicExecutionMark, toString epoch)]

/-- The job for an execution.  It has the ID of the policy, so that the bytes of
the job are the same in every round. -/
def queuedJob (epoch : ℤ) : QueuedJob where
  name := policy.jobName
  id := policy.id
  enqueuedAt := epoch
  args := cloneParameters policy.jobParameters epoch

variable (policyID : String)

def executionID (epoch : ℤ) : String :=
  s!"{policyID}@{epoch}"

def createExecution (runAt now : ℤ) : StatsInfo where
  jobID := executionID policy.id runAt
  jobName := policy.jobName
  webHookURL := policy.webHookURL
  cronSpec := policy.cronSpec
  upstreamJobID := policy.id
  runAt := runAt
  status := Status.scheduled.text
  jobKind := kindScheduled
  enqueueTime := now
  refLink := s!"/api/v1/jobs/{executionID policy.id runAt}"
  parameters := policy.jobParameters

/-! ## The world -/

structure PeriodWorld where
  clock : ℤ := 0
  policies : SortedSet Policy := .empty
  /-- the stats of all jobs, by job ID -/
  jobs : String → JobKeys := fun _ => {}
  /-- the executions of a periodic job with their times -/
  executions : String → SortedSet String := fun _ => .empty
  /-- the scheduled job queue -/
  scheduled : SortedSet QueuedJob := .empty
  /-- who has made up an identifier -/
  creator : String → Option ℕ := fun _ => none
  /-- the policy that an identifier was made up for -/
  policyOf : String → Option Policy := fun _ => none
  /-- the score with which a policy was scheduled -/
  scheduledAs : String → Option ℤ := fun _ => none
  /-- the scores that were removed, with the policy they were removed for -/
  removed : List (String × ℤ) := []

/-! ## Operations -/

inductive PeriodOp
  | timeNow
  | newPolicy (thread : ℕ) (policy : Policy)
  | drawScore
  | addPolicy (policy : Policy) (score : ℤ)
  | loadPolicies
  | removePolicies (policyID : String) (numericID : ℤ)
  | saveStats (info : StatsInfo)
  | addScheduled (job : QueuedJob) (epoch : ℤ)
  | deleteScheduledJob (runAt : ℤ) (jobID : String)
  | scheduledUntil (scope : ℤ)
  | takeScheduled (job : QueuedJob)
  | track (jobID : String)
  | setStatus (jobID status : String) (revision : ℤ)
  | fireHook
  | reset (jobID : String)
  | expire (jobID : String)
  | getExecutions (policyID : String)
  | executionDone (policyID eID : String)

def PeriodReply : PeriodOp → Type
  | .timeNow => ℤ
  | .newPolicy _ _ => Policy
  | .drawScore => ℤ
  | .addPolicy _ _ => Except PeriodFailure Unit
  | .loadPolicies => Except PeriodFailure (List (Policy × ℤ))
  | .removePolicies _ _ => Except PeriodFailure ℕ
  | .saveStats _ => Except PeriodFailure Unit
  | .addScheduled _ _ => Except PeriodFailure Unit
  | .deleteScheduledJob _ _ => Except PeriodFailure Unit
  | .scheduledUntil _ => Except PeriodFailure (List (QueuedJob × ℤ))
  | .takeScheduled _ => Unit
  | .track _ => Except PeriodFailure StatsInfo
  | .setStatus _ _ _ => Except PeriodFailure (Option String)
  | .fireHook => Except PeriodFailure Unit
  | .reset _ => Unit
  | .expire _ => Unit
  | .getExecutions _ => Except PeriodFailure (List String)
  | .executionDone _ _ => Unit

/-- What is replied when an operation fails; reading the clock and what others do does not fail. -/
def PeriodOp.failure : (op : PeriodOp) → Option (PeriodReply op)
  | .addPolicy _ _ => some (.error .redis)
  | .loadPolicies => some (.error .redis)
  | .removePolicies _ _ => some (.error .redis)
  | .saveStats _ => some (.error .redis)
  | .addScheduled _ _ => some (.error .redis)
  | .deleteScheduledJob _ _ => some (.error .redis)
  | .scheduledUntil _ => some (.error .redis)
  | .track _ => some (.error .redis)
  | .setStatus _ _ _ => some (.error .redis)
  | .fireHook => some (.error .hook)
  | .getExecutions _ => some (.error .redis)
  | _ => none

abbrev PeriodProgram (Result : Type) : Type := Program PeriodOp PeriodReply Result

abbrev PeriodCall : Type := PeriodProgram (Except PeriodFailure Unit)

/-- An operation is done, or it is refused, or it is done and its reply is lost. -/
inductive Delivery
  | done
  | refused
  | lost
  deriving DecidableEq, Repr

/-- The time at which an operation takes place, what becomes of it, and what is drawn at random. -/
structure PeriodChoice where
  now : ℤ
  delivery : Delivery := .done
  identifier : String := ""
  offset : ℕ := 0
  deriving DecidableEq, Repr

variable (jobID : String) (info : StatsInfo)

namespace PeriodWorld

variable (world : PeriodWorld)

def tick (now : ℤ) : PeriodWorld :=
  { world with clock := now }

def setJob (keys : JobKeys) : PeriodWorld :=
  { world with jobs := Function.update world.jobs jobID keys }

def setExecutions (executions : SortedSet String) : PeriodWorld :=
  { world with executions := Function.update world.executions policyID executions }

def setPolicies (policies : SortedSet Policy) : PeriodWorld :=
  { world with policies }

def setScheduled (scheduled : SortedSet QueuedJob) : PeriodWorld :=
  { world with scheduled }

def recordPolicy (thread : ℕ) (policy : Policy) : PeriodWorld :=
  { world with
    creator := Function.update world.creator policy.id (some thread)
    policyOf := Function.update world.policyOf policy.id (some policy) }

def recordScore (score : ℤ) : PeriodWorld :=
  { world with scheduledAs := Function.update world.scheduledAs policyID (some score) }

def recordRemoval (numericID : ℤ) : PeriodWorld :=
  { world with removed := (policyID, numericID) :: world.removed }

/-- Link an execution with its upstream job. -/
def link : PeriodWorld :=
  if isEmptyStr info.upstreamJobID then world
  else world.setExecutions info.upstreamJobID
    ((world.executions info.upstreamJobID).addNew info.jobID info.runAt)

def saveStats : PeriodWorld × Except PeriodFailure Unit :=
  ((world.setJob info.jobID (save (world.jobs info.jobID) info world.clock)).link info, .ok ())

def tracked : Except PeriodFailure StatsInfo :=
  match retrieve (world.jobs jobID) with
  | some info => .ok info
  | none => .error (.notFound jobID)

/-- What an operation does at the time of the clock, and what it replies. -/
def perform (op : PeriodOp) (choice : PeriodChoice) : Option (PeriodWorld × PeriodReply op) :=
  match op with
  | .timeNow => some (world, world.clock)
  | .newPolicy thread policy =>
    -- `MakeIdentifier` gives the empty text if there is no randomness
    if choice.identifier = "" then some (world, policy.withID "")
    else if world.creator choice.identifier = none then
      some (world.recordPolicy thread (policy.withID choice.identifier),
        policy.withID choice.identifier)
    -- random identifiers never come twice
    else none
  | .drawScore =>
    if choice.offset < 10 then some (world, (world.clock + choice.offset : ℤ)) else none
  | .addPolicy policy score =>
    some ((world.setPolicies (world.policies.add policy score)).recordScore policy.id score,
      .ok ())
  | .loadPolicies => some (world, .ok world.policies.entries)
  | .removePolicies policyID numericID =>
    some ((world.setPolicies (world.policies.keep fun entry => entry.2 ≠ numericID)).recordRemoval
        policyID numericID,
      .ok (world.policies.keep fun entry => entry.2 = numericID).entries.length)
  | .saveStats info => some (world.saveStats info)
  | .addScheduled job epoch =>
    some (world.setScheduled (world.scheduled.add job epoch), .ok ())
  | .deleteScheduledJob runAt jobID =>
    some (world.setScheduled
        (world.scheduled.keep fun entry => ¬ (entry.2 = runAt ∧ entry.1.id = jobID)),
      if ∃ entry ∈ world.scheduled.entries, entry.2 = runAt ∧ entry.1.id = jobID then .ok ()
      else .error (.message "nothing deleted"))
  | .scheduledUntil scope =>
    some (world, .ok (world.scheduled.keep fun entry => 0 ≤ entry.2 ∧ entry.2 ≤ scope).entries)
  | .takeScheduled job =>
    some (world.setScheduled (world.scheduled.keep fun entry => entry.1 ≠ job), ())
  | .track jobID => some (world, world.tracked jobID)
  | .setStatus jobID status revision =>
    some (world.setJob jobID
        (setStatusScript (world.jobs jobID) ⟨status, revision, world.clock⟩).1,
      .ok (setStatusScript (world.jobs jobID) ⟨status, revision, world.clock⟩).2)
  | .fireHook => some (world, .ok ())
  | .reset jobID =>
    some (world.setJob jobID
      (statusResetScript (world.jobs jobID) Status.pending.text world.clock), ())
  | .expire jobID => some (world.setJob jobID {}, ())
  | .getExecutions policyID =>
    some (world,
      .ok (((world.executions policyID).keep fun entry => 0 ≤ entry.2).entries.map Prod.fst))
  | .executionDone policyID eID =>
    -- `PeriodicExecutionDone` gives the score -1 to an execution that is there
    some (if eID ∈ (world.executions policyID).entries.map Prod.fst then
        world.setExecutions policyID ((world.executions policyID).add eID (-1))
      else world, ())

end PeriodWorld

/-- The meaning of the operations; time does not go back. -/
def periodSem : Semantics PeriodWorld PeriodOp PeriodReply PeriodChoice :=
  fun world op choice =>
    if world.clock ≤ choice.now then
      match choice.delivery, op.failure with
      | .refused, some reply => some (world.tick choice.now, reply)
      | .lost, some reply =>
        ((world.tick choice.now).perform op choice).map fun result => (result.1, reply)
      | _, _ => (world.tick choice.now).perform op choice
    else none

namespace PeriodDb

abbrev timeNow : PeriodProgram ℤ :=
  .perform PeriodOp.timeNow

abbrev newPolicy (thread : ℕ) (policy : Policy) : PeriodProgram Policy :=
  .perform (PeriodOp.newPolicy thread policy)

abbrev drawScore : PeriodProgram ℤ :=
  .perform PeriodOp.drawScore

abbrev addPolicy (score : ℤ) : PeriodCall :=
  .perform (PeriodOp.addPolicy policy score)

abbrev loadPolicies : PeriodProgram (Except PeriodFailure (List (Policy × ℤ))) :=
  .perform PeriodOp.loadPolicies

abbrev removePolicies (numericID : ℤ) : PeriodProgram (Except PeriodFailure ℕ) :=
  .perform (PeriodOp.removePolicies policyID numericID)

abbrev saveStats : PeriodCall :=
  .perform (PeriodOp.saveStats info)

abbrev addScheduled (job : QueuedJob) (epoch : ℤ) : PeriodCall :=
  .perform (PeriodOp.addScheduled job epoch)

abbrev deleteScheduledJob (runAt : ℤ) (jobID : String) : PeriodCall :=
  .perform (PeriodOp.deleteScheduledJob runAt jobID)

abbrev track : PeriodProgram (Except PeriodFailure StatsInfo) :=
  .perform (PeriodOp.track jobID)

abbrev setStatus (jobID status : String) (revision : ℤ) :
    PeriodProgram (Except PeriodFailure (Option String)) :=
  .perform (PeriodOp.setStatus jobID status revision)

abbrev fireHook : PeriodCall :=
  .perform PeriodOp.fireHook

abbrev scheduledUntil (scope : ℤ) : PeriodProgram (Except PeriodFailure (List (QueuedJob × ℤ))) :=
  .perform (PeriodOp.scheduledUntil scope)

abbrev getExecutions : PeriodProgram (Except PeriodFailure (List String)) :=
  .perform (PeriodOp.getExecutions policyID)

end PeriodDb

/-! ## The tracker -/

/-- `compareAndSet` of a tracker with the given job ID and stats. -/
def compareAndSet (target : Status) : PeriodCall := do
  match ← PeriodDb.setStatus jobID target.text info.revision with
  | .error err => return .error err
  | .ok none => return .error .redis
  | .ok (some reply) => return if reply = "ok" then .ok () else .error .statusMismatch

def fireHookEvent : PeriodCall :=
  if isEmptyStr info.webHookURL then return .ok () else PeriodDb.fireHook

/-- `basicTracker.setStatus`, which `Stop` and `Fail` are. -/
def setStatus (target : Status) : PeriodCall := do
  let result ← compareAndSet jobID info target
  if result = .error .statusMismatch then return result
  else match ← fireHookEvent info with
    | .error err => return .error err
    | .ok () => return result

/-- `basicController.New`: validate the stats and save them. -/
def newTracker : PeriodCall :=
  match info.validate with
  | .error err => return .error (.message s!"error occurred when creating job tracker: {err}")
  | .ok () => PeriodDb.saveStats info

/-! ## The enqueuer -/

/-- One round of the loop in `scheduleNextJobs`, which goes on as long as this returns `true`.
The stats of a new tracker have revision 0. -/
def enqueueExecution (epoch : ℤ) : PeriodProgram Bool := do
  let now ← PeriodDb.timeNow
  match ← newTracker (createExecution policy epoch now) with
  | .error _ => return false
  | .ok () => do
    match ← PeriodDb.addScheduled (queuedJob policy epoch) epoch with
    | .error _ => do
      let _ ← setStatus (executionID policy.id epoch) (createExecution policy epoch now) .error
      return false
    | .ok () => return true

/-- The loop of `scheduleNextJobs`, for at most `fuel` times. -/
def enqueueUntil (policy : Policy) (next : ℤ → ℤ) (horizon : ℤ) : ℕ → ℤ → PeriodProgram Unit
  | 0, _ => return ()
  | fuel + 1, epoch =>
    if epoch < horizon then do
      let goesOn ← enqueueExecution policy epoch
      if goesOn then enqueueUntil policy next horizon fuel (next epoch) else return ()
    else return ()

/-- `enqueuerHorizon` in seconds. -/
def enqueuerHorizon : ℤ := 240

def scheduleNextJobs (fuel : ℕ) (policy : Policy) : PeriodProgram Unit := do
  let now ← PeriodDb.timeNow
  match parsers.parseCron policy.cronSpec with
  | .error _ => return ()
  | .ok next => enqueueUntil policy next (now + enqueuerHorizon) fuel (next now)

/-- The valid policies, with their scores as numeric IDs. -/
def loadValid (entries : List (Policy × ℤ)) : List Policy :=
  (entries.filter fun entry => (entry.1.validate parsers).isOk).map fun entry =>
    { entry.1 with numericID := entry.2 }

def load : PeriodProgram (Except PeriodFailure (List Policy)) := do
  match ← PeriodDb.loadPolicies with
  | .error err => return .error err
  | .ok entries => return .ok (loadValid parsers entries)

/-- The loop of `enqueue`. -/
def scheduleAll (parsers : Parsers) (fuel : ℕ) : List Policy → PeriodProgram Unit
  | [] => return ()
  | policy :: rest => do
    scheduleNextJobs parsers fuel policy
    scheduleAll parsers fuel rest

/-- `enqueue`: a round on one node. -/
def enqueue (fuel : ℕ) : PeriodProgram Unit := do
  match ← load parsers with
  | .error _ => return ()
  | .ok policies => scheduleAll parsers fuel policies

/-! ## The scheduler -/

def schedule (fuel : ℕ) (policy : Policy) : PeriodProgram (Except PeriodFailure ℤ) :=
  match policy.validate parsers with
  | .error err => return .error err
  | .ok () => do
    scheduleNextJobs parsers fuel policy
    let score ← PeriodDb.drawScore
    match ← PeriodDb.addPolicy policy score with
    | .error err => return .error err
    | .ok () => return .ok score

/-- The stats of a periodic job. -/
def periodicStats (numericID enqueueTime updateTime : ℤ) : StatsInfo where
  jobID := policy.id
  jobName := policy.jobName
  status := Status.scheduled.text
  jobKind := kindPeriodic
  cronSpec := policy.cronSpec
  webHookURL := policy.webHookURL
  numericPID := numericID
  enqueueTime := enqueueTime
  updateTime := updateTime
  refLink := s!"/api/v1/jobs/{policy.id}"
  parameters := policy.jobParameters

/-- `PeriodicallyEnqueue`, after which the controller saves the stats. -/
def periodicallyEnqueue (fuel thread : ℕ) (policy : Policy) : PeriodCall := do
  let created ← PeriodDb.newPolicy thread policy
  match ← schedule parsers fuel created with
  | .error err => return .error err
  | .ok score => do
    let enqueueTime ← PeriodDb.timeNow
    let updateTime ← PeriodDb.timeNow
    PeriodDb.saveStats (periodicStats created score enqueueTime updateTime)

/-- The numeric ID of the policy in a list, or the given error. -/
def findNumericID (err : PeriodFailure) (policies : List Policy) : Except PeriodFailure ℤ :=
  match policies.find? fun policy => policy.id = policyID ∧ 0 < policy.numericID with
  | some policy => .ok policy.numericID
  | none => .error err

/-- `locatePolicy` without stats: the policy is looked up in the list. -/
def locateInList (err : PeriodFailure) : PeriodProgram (Except PeriodFailure ℤ) := do
  match ← load parsers with
  | .error err => return .error err
  | .ok policies => return findNumericID policyID err policies

/-- `NumericID` of a tracker. -/
def numericIDOf : Except PeriodFailure ℤ :=
  if 0 < info.numericPID then .ok info.numericPID
  else .error (.message s!"numeric ID not found for job: {policyID}")

def locatePolicy : PeriodProgram (Except PeriodFailure ℤ) := do
  match ← PeriodDb.track policyID with
  | .error err =>
    match err with
    | .notFound _ => locateInList parsers policyID err
    | _ => return .error err
  | .ok info => do
    let _ ← setStatus policyID info .stopped
    return numericIDOf policyID info

/-- Stop an execution that has not ended. -/
def stopExecution (eID : String) (info : StatsInfo) : PeriodProgram Unit :=
  if statusCode info.status ≤ statusCode Status.running.text then do
    let _ ← setStatus eID info .stopped
    return ()
  else return ()

/-- Clear one execution of a periodic job. -/
def clearExecution (policyID eID : String) : PeriodProgram Unit := do
  match ← PeriodDb.track eID with
  | .error _ => return ()
  | .ok info =>
    if info.status = Status.scheduled.text then do
      let _ ← PeriodDb.deleteScheduledJob info.runAt policyID
      stopExecution eID info
    else stopExecution eID info

def clearExecutions (policyID : String) : List String → PeriodProgram Unit
  | [] => return ()
  | eID :: rest => do
    clearExecution policyID eID
    clearExecutions policyID rest

/-- Clear the executions of a periodic job; what fails is only logged. -/
def clearPeriodicExecutions : PeriodProgram Unit := do
  match ← PeriodDb.getExecutions policyID with
  | .error _ => return ()
  | .ok eIDs => clearExecutions policyID eIDs

/-- `UnSchedule` after the policy is located.  If nothing is removed, that is only logged. -/
def unScheduleAt (numericID : ℤ) : PeriodCall := do
  clearPeriodicExecutions policyID
  match ← PeriodDb.removePolicies policyID numericID with
  | .error err => return .error err
  | .ok _ => return .ok ()

def unSchedule : PeriodCall :=
  if isEmptyStr policyID then return .error (.message "bad periodic job ID: nil")
  else do
    match ← locatePolicy parsers policyID with
    | .error err => return .error err
    | .ok numericID => unScheduleAt policyID numericID

/-! ## Stopping a job -/

/-- `StopJob` for a job that is neither periodic nor final. -/
def stopTracked : PeriodCall := do
  match ← setStatus jobID info .stopped with
  | .error err => return .error err
  | .ok () =>
    if info.jobKind = kindScheduled then do
      -- whether a job was deleted is only logged
      let _ ← PeriodDb.deleteScheduledJob info.runAt jobID
      return .ok ()
    else return .ok ()

def stopJob : PeriodCall :=
  if isEmptyStr jobID then return .error (.message "empty job ID to stop")
  else do
    match ← PeriodDb.track jobID with
    | .error err =>
      match err with
      | .notFound _ => unSchedule parsers jobID
      | _ => return .error err
    | .ok info =>
      if info.jobKind = kindPeriodic then unSchedule parsers jobID
      else if statusBefore Status.running.text info.status then return .ok ()
      else stopTracked jobID info

/-! ## Dirty jobs -/

def deleteScheduledJobs : List (QueuedJob × ℤ) → PeriodProgram Unit
  | [] => return ()
  | entry :: rest => do
    let _ ← PeriodDb.deleteScheduledJob entry.2 entry.1.id
    deleteScheduledJobs rest

/-- `clearDirtyJobs`, which runs when a node starts. -/
def clearDirtyJobs : PeriodProgram Unit := do
  let nowEpoch ← PeriodDb.timeNow
  match ← PeriodDb.scheduledUntil (nowEpoch - enqueuerHorizon) with
  | .error _ => return ()
  | .ok entries => deleteScheduledJobs entries

/-! ## Actors -/

inductive Actor
  | periodicallyEnqueue (fuel : ℕ) (policy : Policy)
  | enqueue (fuel : ℕ)
  | unSchedule (policyID : String)
  | stopJob (jobID : String)
  | clearDirtyJobs
  | setStatus (jobID status : String) (revision : ℤ)
  | reset (jobID : String)
  | expire (jobID : String)
  | takeScheduled (job : QueuedJob)
  | executionDone (policyID eID : String)

/-- Perform one operation, whatever it replies. -/
def once (op : PeriodOp) : PeriodCall :=
  .call op fun _ => .ret (.ok ())

def Actor.program (thread : ℕ) : Actor → PeriodCall
  | .periodicallyEnqueue fuel policy => Period.periodicallyEnqueue parsers fuel thread policy
  | .enqueue fuel => do
    Period.enqueue parsers fuel
    return .ok ()
  | .unSchedule policyID => Period.unSchedule parsers policyID
  | .stopJob jobID => Period.stopJob parsers jobID
  | .clearDirtyJobs => do
    Period.clearDirtyJobs
    return .ok ()
  | .setStatus jobID status revision => once (.setStatus jobID status revision)
  | .reset jobID => once (.reset jobID)
  | .expire jobID => once (.expire jobID)
  | .takeScheduled job => once (.takeScheduled job)
  | .executionDone policyID eID => once (.executionDone policyID eID)

abbrev PeriodPool : Type := Pool PeriodWorld PeriodOp PeriodReply ℕ (Except PeriodFailure Unit)

/-- Any number of actors about to start, with nothing in Redis. -/
def periodPool (start : ℤ) (actors : ℕ → Actor) : PeriodPool :=
  { world := { clock := start }, threads := fun thread => (actors thread).program parsers thread }

end Harbor.Period
