import Harbor.Concurrency.RelyGuarantee
import Harbor.JobService.StatusOrder

/-!
# Running and stopping a job

`RedisJob.Run` (`runner/redis.go`), `basicWorker.StopJob`
(`worker/cworker/c_worker.go`) and the retry loop of the life cycle controller
(`lcm/controller.go`) as programs over one job.  Every Redis command or script,
every use of the retry list and every call out of the job service is one atomic
operation.  The choice of a step decides whether the operation fails, succeeds,
or succeeds with its reply lost, and what the clock says.

`JobWorld` carries three flags the code does not have: whether `StopJob` has
moved the stored status to stopped, whether `Run` has been told that the status
is running, and whether it has started the job body.
-/

namespace Harbor.JobService

open Harbor.Concurrency

/-! ## Operations -/

/-- The errors that the programs tell apart.  A wrapped error is of none of the
kinds the code checks for. -/
inductive Failure
  | notFound
  | mismatch (current target : String)
  | panic
  | other (text : String)
  | wrapped (message : String) (cause : Failure)
  | joined (context cause : Failure)
  deriving DecidableEq, Repr

def isStatusMismatchError : Except Failure Unit → Bool
  | .error (.mismatch _ _) => true
  | _ => false

/-- An entry of the retry list, for the one job at hand. -/
structure SimpleStatusChange where
  targetStatus : String
  revision : ℤ
  deriving DecidableEq, Repr

inductive Actor
  | stopper
  | runner
  | retrier
  deriving DecidableEq, Repr

inductive JobOp
  | retrieve
  | getStatus
  | setStatus (actor : Actor) (status : String) (revision : ℤ)
  | reset
  | checkIn
  | pushRetry (change : SimpleStatusChange)
  | peekRetry (index : ℕ)
  | removeRetry (index : ℕ)
  | buildContext
  | fireHook
  | startBody
  | unSchedule
  | deleteScheduledJob

/-- The reply of each operation; the status script replies with the stored status
or `ok`, and a reset with the time it was given. -/
def JobReply : JobOp → Type
  | .retrieve => Except Failure StatsInfo
  | .getStatus => Except Failure (Option String)
  | .setStatus _ _ _ => Except Failure (Option String)
  | .reset => Except Failure ℤ
  | .checkIn => Except Failure Unit
  | .pushRetry _ => Unit
  | .peekRetry _ => Option SimpleStatusChange
  | .removeRetry _ => Unit
  | .buildContext => Except Failure Unit
  | .fireHook => Except Failure Unit
  | .startBody => Unit
  | .unSchedule => Except Failure Unit
  | .deleteScheduledJob => Except Failure Unit

abbrev JobProgram (Result : Type) : Type := Program JobOp JobReply Result

abbrev JobCall : Type := JobProgram (Except Failure Unit)

/-! ## The world -/

/-- Redis and the retry list, with what has happened so far. -/
structure JobWorld where
  keys : JobKeys := {}
  retries : List SimpleStatusChange := []
  stopMoved : Bool := false
  switched : Bool := false
  started : Bool := false

inductive Outcome
  | done
  | failed
  | lost
  deriving DecidableEq, Repr

structure JobChoice where
  outcome : Outcome := .done
  now : ℤ := 0
  deriving DecidableEq, Repr

/-- The reply as the caller sees it. -/
def Outcome.reply {α : Type} (value : α) : Outcome → Except Failure α
  | .done => .ok value
  | _ => .error (.other "redis")

theorem Outcome.reply_eq_ok {α : Type} {value result : α} {outcome : Outcome}
    (h : outcome.reply value = .ok result) : value = result := by
  cases outcome with
  | done => exact Except.ok.inj h
  | failed | lost => cases h

/-- The world after `SetStatusScript` was run for `actor`. -/
def JobWorld.afterSetStatus (world : JobWorld) (actor : Actor) (args : SetStatusArgs) : JobWorld :=
  { world with
    keys := (setStatusScript world.keys args).1
    stopMoved := world.stopMoved || (actor = .stopper && decide (args.Accepted world.keys))
    switched := world.switched || (actor = .runner && args.status = Status.running.text &&
      (setStatusScript world.keys args).2 = some "ok") }

def jobSem : Semantics JobWorld JobOp JobReply JobChoice
  | world, .retrieve, choice => some (world,
      match choice.outcome, retrieve world.keys with
      | .done, some info => .ok info
      | .done, none => .error .notFound
      | _, _ => .error (.other "redis"))
  | world, .getStatus, choice => some (world, choice.outcome.reply world.keys.status)
  | world, .setStatus actor status revision, choice =>
    let args : SetStatusArgs := ⟨status, revision, choice.now⟩
    if choice.outcome = .failed then some (world, .error (.other "redis"))
    else some (world.afterSetStatus actor args,
      choice.outcome.reply (setStatusScript world.keys args).2)
  | world, .reset, choice =>
    if choice.outcome = .failed then some (world, .error (.other "redis"))
    else some ({ world with
      keys := statusResetScript world.keys Status.pending.text choice.now },
      choice.outcome.reply choice.now)
  | world, .checkIn, choice =>
    if choice.outcome = .failed then some (world, .error (.other "redis"))
    else some ({ world with
      keys := world.keys.hmset [(.updateTime, .int choice.now), (.checkInAt, .int choice.now)] },
      choice.outcome.reply ())
  | world, .pushRetry change, _ =>
    some ({ world with retries := world.retries ++ [change] }, ())
  | world, .peekRetry index, _ => some (world, world.retries[index]?)
  | world, .removeRetry index, _ =>
    some ({ world with retries := world.retries.eraseIdx index }, ())
  | world, .buildContext, choice => some (world, choice.outcome.reply ())
  | world, .fireHook, choice => some (world, choice.outcome.reply ())
  | world, .startBody, _ => some ({ world with started := true }, ())
  | world, .unSchedule, choice => some (world, choice.outcome.reply ())
  | world, .deleteScheduledJob, choice => some (world, choice.outcome.reply ())

/-! ## Single operations -/

abbrev track : JobProgram (Except Failure StatsInfo) :=
  .perform JobOp.retrieve

/-- `basicTracker.Status`, before the text is validated. -/
abbrev getStatus : JobProgram (Except Failure (Option String)) :=
  .perform JobOp.getStatus

variable (actor : Actor)

abbrev doSetStatus (status : String) (revision : ℤ) : JobProgram (Except Failure (Option String)) :=
  .perform (JobOp.setStatus actor status revision)

abbrev doReset : JobProgram (Except Failure ℤ) :=
  .perform JobOp.reset

abbrev pushRetry (change : SimpleStatusChange) : JobProgram Unit :=
  .perform (JobOp.pushRetry change)

abbrev peekRetry (index : ℕ) : JobProgram (Option SimpleStatusChange) :=
  .perform (JobOp.peekRetry index)

abbrev removeRetry (index : ℕ) : JobProgram Unit :=
  .perform (JobOp.removeRetry index)

abbrev buildContext : JobCall :=
  .perform JobOp.buildContext

abbrev fireHook : JobCall :=
  .perform JobOp.fireHook

abbrev startBody : JobProgram Unit :=
  .perform JobOp.startBody

abbrev unSchedule : JobCall :=
  .perform JobOp.unSchedule

abbrev deleteScheduledJob : JobCall :=
  .perform JobOp.deleteScheduledJob

/-! ## The tracker -/

def compareAndSet (info : StatsInfo) (target : Status) : JobCall := do
  match ← doSetStatus actor target.text info.revision with
  | .error cause => return .error (.wrapped "compare and set status error" cause)
  | .ok none => return .error (.wrapped "compare and set status error" (.other "nil returned"))
  | .ok (some reply) =>
    if reply = "ok" then return .ok () else return .error (.mismatch reply target.text)

def updateStatusWithRetry (info : StatsInfo) (target : Status) : JobCall := do
  let result ← compareAndSet actor info target
  if result.isOk ∨ isStatusMismatchError result then return result
  else do
    pushRetry ⟨target.text, info.revision⟩
    return result

def fireHookEvent (info : StatsInfo) : JobCall :=
  if isEmptyStr info.webHookURL then return .ok () else fireHook

/-- Fire the hook of a status change that ended with `result`. -/
def fireAfter (info : StatsInfo) (result : Except Failure Unit) :
    JobProgram (StatsInfo × Except Failure Unit) := do
  match ← fireHookEvent info, result with
  | .error er, .error err => return (info, .error (.joined err er))
  | .error er, .ok () => return (info, .error er)
  | .ok (), result => return (info, result)

/-- `basicTracker.setStatus`, with the stats as `refresh` leaves them. -/
def setStatus (info : StatsInfo) (target : Status) :
    JobProgram (StatsInfo × Except Failure Unit) := do
  let result ← updateStatusWithRetry actor info target
  if isStatusMismatchError result then return (info, result)
  else fireAfter { info with status := target.text } result

/-- The stats of the tracker after `basicTracker.Reset` at time `now`. -/
def StatsInfo.afterReset (info : StatsInfo) (now : ℤ) : StatsInfo :=
  { info with
    status := Status.pending.text
    revision := now
    updateTime := now
    checkIn := ""
    checkInAt := 0 }

/-! ## Running -/

/-- Track the job; while its stats are not there yet, try again. -/
def trackWithRetry : ℕ → JobProgram (Except Failure StatsInfo)
  | 0 => track
  | remaining + 1 => do
    match ← track with
    | .error err => if err = .notFound then trackWithRetry remaining else return .error err
    | .ok info => return .ok info

def maxTrackRetries : ℕ := 6

variable (body : StatsInfo → JobCall)

/-- Build the context, switch the status to running and run the job body. -/
def runBody (info : StatsInfo) : JobProgram (StatsInfo × Except Failure Unit) := do
  match ← buildContext with
  | .error err => return (info, .error err)
  | .ok () =>
    match ← setStatus .runner info .running with
    | (info, .error err) => return (info, .error (.wrapped "run" err))
    | (info, .ok ()) => do
      startBody
      match ← body info with
      | .error err => return (info, .error (.wrapped "run error" err))
      | .ok () => return (info, .ok ())

/-- What `RedisJob.Run` does between its first and its deferred status switch:
it decides on the status that was loaded. -/
def runTracked (info : StatsInfo) : JobProgram (StatsInfo × Except Failure Unit) :=
  match Status.ofText? info.status with
  | some .pending | some .scheduled => runBody body info
  | some .stopped | some .success => return (info, .ok ())
  | some .running | some .error => do
    match ← doReset with
    | .error err => return (info, .error (.wrapped s!"retrying {info.status} job failed"
        (.wrapped "reset" err)))
    | .ok now => runBody body (info.afterReset now)
  | none => return (info, .error (.other s!"mismatch status for running job: {info.status}"))

/-- The deferred switch to the final status.  Reading a status that is gone
panics. -/
def switchStatus (info : StatsInfo) (result : Except Failure Unit) : JobCall :=
  match result with
  | .error err => do
    let _ ← setStatus .runner info .error
    return .error err
  | .ok () => do
    match ← getStatus with
    | .ok none => return .error .panic
    | .ok (some latest) =>
      if latest = Status.stopped.text then return .ok ()
      else do
        let _ ← setStatus .runner info .success
        return .ok ()
    | .error _ => do
      let _ ← setStatus .runner info .success
      return .ok ()

/-- `RedisJob.Run` of a generic job. -/
def run : JobCall := do
  match ← trackWithRetry maxTrackRetries with
  | .error err => return .error err
  | .ok info => do
    let (info, result) ← runTracked body info
    switchStatus info result

/-! ## Stopping -/

def stopJob (jobID : String) : JobCall :=
  if isEmptyStr jobID then return .error (.other "empty job ID to stop")
  else do
    match ← track with
    | .error err => if err = .notFound then unSchedule else return .error err
    | .ok info =>
      if info.jobKind = kindPeriodic then unSchedule
      else if statusBefore Status.running.text info.status then return .ok ()
      else do
        match ← setStatus .stopper info .stopped with
        | (_, .error err) => return .error (.wrapped "stop" err)
        | (info, .ok ()) => do
          if info.jobKind = kindScheduled then
            let _ ← deleteScheduledJob
          return .ok ()

/-! ## Retrying -/

/-- `retryLoop`: walk the retry list from `index` on, and remove the changes that
went through or came too late. -/
def retryLoop : ℕ → ℕ → JobCall
  | 0, _ => return .ok ()
  | fuel + 1, index => do
    match ← peekRetry index with
    | none => return .ok ()
    | some change =>
      match ← doSetStatus .retrier change.targetStatus change.revision with
      | .ok (some _) => do
        removeRetry index
        retryLoop fuel index
      | _ => retryLoop fuel (index + 1)

/-- The retry loop is run again and again. -/
def retryDaemon (fuel : ℕ) : ℕ → JobCall
  | 0 => return .ok ()
  | rounds + 1 => do
    let _ ← retryLoop fuel 0
    retryDaemon fuel rounds

end Harbor.JobService
