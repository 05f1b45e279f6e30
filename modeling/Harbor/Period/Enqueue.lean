import Harbor.Period.Programs
import Harbor.Data.Decimal

/-!
# Rounds of the enqueuer

Rounds overlap, so an execution is enqueued several times.  In the queue it is
there once, since its policy and its time determine the job (`executions_nodup`).
The stats, however, are saved anew in every round, with the status Scheduled and
whatever was there before.  An execution that was stopped ahead of its time comes
back to life in the next round.

`ended_executions_stay_ended` is about runs in which this cannot happen: no
execution ends before its time, and no round writes about one whose time has come.
-/

namespace Harbor.Period

open Harbor.Concurrency Harbor.Data Harbor.JobService PeriodWorld Pool

/-! ## Operations in use -/

/-- Stats are only saved with the status Scheduled. -/
def SavesScheduled : PeriodOp → Prop
  | .saveStats info => info.status = Status.scheduled.text
  | _ => True

/-- The operations of those who enqueue executions. -/
def EnqueueOp : PeriodOp → Prop
  | .timeNow => True
  | .newPolicy _ _ => True
  | .drawScore => True
  | .addPolicy _ _ => True
  | .loadPolicies => True
  | .saveStats info => info.status = Status.scheduled.text
  | .addScheduled _ _ => True
  | .setStatus _ status _ => status = Status.error.text
  | .fireHook => True
  | _ => False

/-- The actors that do rounds: the first round is done while a policy is scheduled. -/
def Actor.Enqueues : Actor → Prop
  | .periodicallyEnqueue _ _ => True
  | .enqueue _ => True
  | _ => False

section Uses

variable {op : PeriodOp}

theorem enqueueOp_of_roundOp {policy : Policy} (op : PeriodOp) (hop : RoundOp policy op) :
    EnqueueOp op := by
  cases op with
  | saveStats info => exact hop.2
  | setStatus jobID status revision => exact hop
  | timeNow | addScheduled | fireHook => trivial
  | _ => exact hop.elim

theorem savesScheduled_of_enqueueOp (hop : EnqueueOp op) : SavesScheduled op := by
  cases op with
  | saveStats info => exact hop
  | _ => trivial

theorem savesScheduled_of_clearOp (hop : ClearOp op) : SavesScheduled op := by
  cases op with
  | saveStats info => exact hop.elim
  | _ => trivial

theorem savesScheduled_of_unScheduleOp {policyID : String} (hop : UnScheduleOp policyID op) :
    SavesScheduled op := by
  rcases hop with hclear | ⟨numericID, rfl⟩
  · exact savesScheduled_of_clearOp hclear
  · trivial

variable (parsers : Parsers)

theorem scheduleAll_uses (fuel : ℕ) (policies : List Policy) :
    (scheduleAll parsers fuel policies).Uses EnqueueOp := by
  induction policies with
  | nil => trivial
  | cons policy rest ih =>
    exact ((scheduleNextJobs_uses parsers fuel policy).mono enqueueOp_of_roundOp).bind fun _ => ih

theorem enqueue_uses (fuel : ℕ) : (enqueue parsers fuel).Uses EnqueueOp := by
  refine ⟨trivial, fun reply => ?_⟩
  cases reply with
  | error err => trivial
  | ok entries => exact scheduleAll_uses parsers fuel _

theorem schedule_uses (fuel : ℕ) (policy : Policy) :
    (schedule parsers fuel policy).Uses EnqueueOp := by
  unfold schedule
  split
  · trivial
  · refine ((scheduleNextJobs_uses parsers fuel policy).mono enqueueOp_of_roundOp).bind fun _ => ?_
    refine ⟨trivial, fun score => ⟨trivial, fun reply => ?_⟩⟩
    cases reply <;> trivial

theorem periodicallyEnqueue_uses (fuel thread : ℕ) (policy : Policy) :
    (periodicallyEnqueue parsers fuel thread policy).Uses EnqueueOp := by
  refine ⟨trivial, fun created => ?_⟩
  refine (schedule_uses parsers fuel created).bind fun result => ?_
  cases result with
  | error err => trivial
  | ok score => exact ⟨trivial, fun _ => ⟨trivial, fun _ => ⟨rfl, fun _ => trivial⟩⟩⟩

theorem clearDirtyJobs_uses : clearDirtyJobs.Uses SavesScheduled := by
  refine ⟨trivial, fun nowEpoch => ⟨trivial, fun reply => ?_⟩⟩
  cases reply with
  | error err => trivial
  | ok entries =>
    exact (deleteScheduledJobs_uses entries).mono fun _ => savesScheduled_of_clearOp

/-- Everyone saves only scheduled stats, and rounds consist of `EnqueueOp`s. -/
theorem Actor.program_enqueues (thread : ℕ) (actor : Actor) :
    (actor.program parsers thread).Uses fun op =>
      SavesScheduled op ∧ (actor.Enqueues → EnqueueOp op) := by
  cases actor with
  | periodicallyEnqueue fuel policy =>
    exact (periodicallyEnqueue_uses parsers fuel thread policy).mono fun _ hop =>
      ⟨savesScheduled_of_enqueueOp hop, fun _ => hop⟩
  | enqueue fuel =>
    exact ((enqueue_uses parsers fuel).mono fun _ hop =>
      ⟨savesScheduled_of_enqueueOp hop, fun _ => hop⟩).bind fun _ => trivial
  | unSchedule policyID =>
    exact (unSchedule_uses parsers policyID).mono fun _ hop =>
      ⟨savesScheduled_of_unScheduleOp hop, False.elim⟩
  | stopJob jobID =>
    exact (stopJob_uses parsers jobID).mono fun _ hop =>
      ⟨savesScheduled_of_unScheduleOp hop, False.elim⟩
  | clearDirtyJobs =>
    exact (clearDirtyJobs_uses.mono fun _ hop => ⟨hop, False.elim⟩).bind fun _ => trivial
  | setStatus | reset | expire | takeScheduled | executionDone =>
    exact ⟨⟨trivial, False.elim⟩, fun _ => trivial⟩

end Uses

/-! ## In the queue at most once -/

/-- Policy and time determine an entry of the queue. -/
theorem executions_nodup {world : PeriodWorld} (hinv : PeriodInv world) :
    (world.scheduled.entries.map fun entry => (entry.1.id, entry.1.enqueuedAt)).Nodup := by
  refine List.Nodup.map_on ?_ world.scheduled.members_nodup.of_map
  intro first hfirst second hsecond hsame
  obtain ⟨hid, htime⟩ := Prod.mk.inj hsame
  obtain ⟨policy, hpolicy, hjob⟩ := hinv.queued first hfirst
  obtain ⟨other, hother, hjob'⟩ := hinv.queued second hsecond
  obtain rfl : policy = other := by
    rw [hid] at hpolicy
    exact Option.some.inj (hpolicy.symm.trans hother)
  have hscore : first.2 = second.2 := by
    rw [hjob, hjob'] at htime
    exact htime
  refine SortedSet.eq_of_mem hfirst hsecond ?_
  rw [hjob, hjob', hscore]

/-! ## What ends an execution -/

section Steps

variable {world after : PeriodWorld} {op : PeriodOp} {choice : PeriodChoice}
  {reply : PeriodReply op} {id : String} {info : StatsInfo} {policyID : String} {epoch : ℤ}

theorem setJob_jobs_self (keys : JobKeys) : (world.setJob id keys).jobs id = keys := by
  simp [setJob]

theorem setJob_jobs_of_ne {jobID : String} {keys : JobKeys} (hid : id ≠ jobID) :
    (world.setJob jobID keys).jobs id = world.jobs id := by
  simp [setJob, hid]

theorem final_of_setJob {jobID : String} {keys : JobKeys}
    (hfinal : ((world.setJob jobID keys).jobs id).Final) :
    jobID = id ∧ keys.Final ∨ (world.jobs id).Final := by
  by_cases hid : id = jobID
  · subst hid
    exact .inl ⟨rfl, by rwa [setJob_jobs_self] at hfinal⟩
  · exact .inr (by rwa [setJob_jobs_of_ne hid] at hfinal)

theorem final_of_save {keys : JobKeys} {now : ℤ} (hstatus : info.status = Status.scheduled.text)
    (hfinal : (save keys info now).Final) : keys.Final := by
  by_cases hack : info.hookAck = none
  · rw [JobKeys.Final, (save_stored hack).1, hstatus] at hfinal
    exact absurd hfinal (by decide)
  · rwa [save_eq, if_neg hack] at hfinal

theorem link_jobs (info : StatsInfo) : (world.link info).jobs = world.jobs := by
  unfold link
  split_ifs <;> rfl

/-- Saving stats touches the job itself only, and never leaves it ended. -/
theorem saveStats_jobs (hstatus : info.status = Status.scheduled.text)
    (hfinal : ((world.saveStats info).1.jobs id).Final) : (world.jobs id).Final := by
  rw [saveStats, link_jobs] at hfinal
  rcases final_of_setJob hfinal with ⟨rfl, hsaved⟩ | hold
  · exact final_of_save hstatus hsaved
  · exact hold

theorem saveStats_jobs_of_ne (hid : id ≠ info.jobID) :
    (world.saveStats info).1.jobs id = world.jobs id := by
  rw [saveStats, link_jobs, setJob_jobs_of_ne hid]

theorem saveStats_scheduled (info : StatsInfo) :
    (world.saveStats info).1.scheduled = world.scheduled := by
  unfold saveStats link
  split_ifs <;> rfl

/-- The operation sets a final status, and is accepted. -/
def SetsFinal (world : PeriodWorld) (id : String) (now : ℤ) : PeriodOp → Prop
  | .setStatus jobID status revision => jobID = id ∧ stCode (some status) = 3 ∧
      SetStatusArgs.Accepted ⟨status, revision, now⟩ (world.jobs id)
  | _ => False

/-- A job has ended only if it had ended before or is set to a final status. -/
theorem perform_final (hsaves : SavesScheduled op)
    (hperform : world.perform op choice = some (after, reply)) (hfinal : (after.jobs id).Final) :
    (world.jobs id).Final ∨ SetsFinal world id world.clock op := by
  cases op with
  | timeNow | addPolicy | loadPolicies | removePolicies | addScheduled | deleteScheduledJob
  | scheduledUntil | takeScheduled | track | fireHook | getExecutions =>
    cases hperform
    exact .inl hfinal
  | newPolicy thread policy =>
    obtain ⟨-, rfl⟩ | ⟨-, rfl⟩ := perform_newPolicy hperform <;> exact .inl hfinal
  | drawScore =>
    simp only [perform] at hperform
    split_ifs at hperform
    cases hperform
    exact .inl hfinal
  | saveStats info =>
    obtain rfl : (world.saveStats info).1 = after := congrArg Prod.fst (Option.some.inj hperform)
    exact .inl (saveStats_jobs hsaves hfinal)
  | setStatus jobID status revision =>
    cases hperform
    rcases final_of_setJob hfinal with ⟨rfl, hset⟩ | hold
    · by_cases haccepted :
          SetStatusArgs.Accepted ⟨status, revision, world.clock⟩ (world.jobs jobID)
      · refine .inr ⟨rfl, ?_, haccepted⟩
        rwa [JobKeys.Final, setStatusScript_status_of_accepted haccepted] at hset
      · rw [setStatusScript_of_not_accepted haccepted] at hset
        exact .inl hset
    · exact .inl hold
  | reset jobID =>
    cases hperform
    refine (final_of_setJob hfinal).elim (fun hset => ?_) .inl
    rw [JobKeys.Final, statusResetScript_status] at hset
    exact absurd hset.2 (by decide)
  | expire jobID =>
    cases hperform
    exact (final_of_setJob hfinal).elim (fun hset => absurd hset.2 (by decide)) .inl
  | executionDone policyID eID =>
    cases hperform
    split_ifs at hfinal <;> exact .inl hfinal

theorem perform_clock (hperform : world.perform op choice = some (after, reply)) :
    after.clock = world.clock := by
  cases op with
  | newPolicy thread policy =>
    obtain ⟨-, rfl⟩ | ⟨-, rfl⟩ := perform_newPolicy hperform <;> rfl
  | drawScore =>
    simp only [perform] at hperform
    split_ifs at hperform
    cases hperform
    rfl
  | saveStats info =>
    obtain rfl : (world.saveStats info).1 = after := congrArg Prod.fst (Option.some.inj hperform)
    unfold saveStats link
    split_ifs <;> rfl
  | executionDone policyID eID =>
    cases hperform
    split_ifs <;> rfl
  | _ =>
    cases hperform
    rfl

/-! ## In time -/

/-- No execution ends before its time, and nothing is written about one in order to enqueue
it once its time has come. -/
def Timely (world : PeriodWorld) (op : PeriodOp) (choice : PeriodChoice) : Prop :=
  match op with
  | .saveStats info =>
    ∀ policyID epoch, info.jobID = executionID policyID epoch → choice.now < epoch
  | .addScheduled _ epoch => choice.now < epoch
  | op => ∀ policyID epoch, SetsFinal world (executionID policyID epoch) choice.now op →
      epoch ≤ choice.now

/-- The executions that have ended had their time. -/
def EndedInTime (world : PeriodWorld) : Prop :=
  ∀ policyID epoch, (world.jobs (executionID policyID epoch)).Final → epoch ≤ world.clock

theorem timely_setsFinal (htimely : Timely world op choice)
    (hsets : SetsFinal world (executionID policyID epoch) choice.now op) : epoch ≤ choice.now := by
  cases op with
  | setStatus jobID status revision => exact htimely policyID epoch hsets
  | _ => exact hsets.elim

theorem EndedInTime.step (hended : EndedInTime world) (hsaves : SavesScheduled op)
    (htimely : Timely world op choice)
    (hsem : periodSem world op choice = some (after, reply)) : EndedInTime after := by
  intro policyID epoch hfinal
  obtain ⟨hclock, ⟨rfl, -⟩ | ⟨answer, hperform, -⟩⟩ := periodSem_cases hsem
  · exact (hended policyID epoch hfinal).trans hclock
  · rw [perform_clock hperform]
    rcases perform_final hsaves hperform hfinal with hold | hsets
    · exact (hended policyID epoch hold).trans hclock
    · have hsets' : SetsFinal world (executionID policyID epoch) choice.now op := by
        cases op <;> exact hsets
      exact timely_setsFinal htimely hsets'

/-- An execution that has ended stays ended and out of the queue. -/
structure StaysEnded (policyID : String) (epoch : ℤ) (before after : PeriodWorld) : Prop where
  final : (after.jobs (executionID policyID epoch)).Final
  queue : ∀ entry ∈ after.scheduled, entry.1.id = policyID → entry.2 = epoch →
    entry ∈ before.scheduled

theorem StaysEnded.of_eq (hfinal : (world.jobs (executionID policyID epoch)).Final)
    (hjobs : after.jobs = world.jobs) (hscheduled : after.scheduled = world.scheduled) :
    StaysEnded policyID epoch world after where
  final := by rwa [hjobs]
  queue entry hentry _ _ := by rwa [← hscheduled]

/-- An operation of a round that comes in time leaves what has ended alone. -/
theorem EndedInTime.staysEnded (hended : EndedInTime world) (hop : EnqueueOp op)
    (htimely : Timely world op choice) (hsem : periodSem world op choice = some (after, reply))
    (hfinal : (world.jobs (executionID policyID epoch)).Final) :
    StaysEnded policyID epoch world after := by
  have hpast := hended policyID epoch hfinal
  obtain ⟨hclock, ⟨rfl, -⟩ | ⟨answer, hperform, -⟩⟩ := periodSem_cases hsem
  · exact .of_eq hfinal rfl rfl
  cases op with
  | timeNow | addPolicy | loadPolicies | fireHook =>
    cases hperform
    exact .of_eq hfinal rfl rfl
  | newPolicy thread policy =>
    obtain ⟨-, rfl⟩ | ⟨-, rfl⟩ := perform_newPolicy hperform <;> exact .of_eq hfinal rfl rfl
  | drawScore =>
    simp only [perform] at hperform
    split_ifs at hperform
    cases hperform
    exact .of_eq hfinal rfl rfl
  | saveStats info =>
    obtain rfl : ((world.tick choice.now).saveStats info).1 = after :=
      congrArg Prod.fst (Option.some.inj hperform)
    -- the stats of this execution would come too late
    have hother : executionID policyID epoch ≠ info.jobID := by
      intro hsame
      have hahead : choice.now < epoch := htimely policyID epoch hsame.symm
      omega
    refine ⟨?_, fun entry hentry _ _ => ?_⟩
    · rw [saveStats_jobs_of_ne hother]
      exact hfinal
    · rwa [saveStats_scheduled] at hentry
  | addScheduled job time =>
    cases hperform
    refine ⟨hfinal, fun entry hentry _ htime => ?_⟩
    rcases SortedSet.mem_add.mp hentry with rfl | ⟨hold, -⟩
    · have hahead : choice.now < time := htimely
      have hsame : time = epoch := htime
      omega
    · exact hold
  | setStatus jobID status revision =>
    obtain rfl : status = Status.error.text := hop
    cases hperform
    refine ⟨?_, fun entry hentry _ _ => hentry⟩
    by_cases hid : executionID policyID epoch = jobID
    · rw [← hid, setJob_jobs_self]
      by_cases haccepted : SetStatusArgs.Accepted ⟨Status.error.text, revision, choice.now⟩
          (world.jobs (executionID policyID epoch))
      · have herror : stCode (some Status.error.text) = 3 := by decide
        exact (congrArg stCode (setStatusScript_status_of_accepted haccepted)).trans herror
      · have hsame := setStatusScript_of_not_accepted haccepted
        exact (congrArg (fun result => JobKeys.Final result.1) hsame).mpr hfinal
    · rw [setJob_jobs_of_ne hid]
      exact hfinal
  | _ => exact hop.elim

end Steps

/-! ## Execution IDs -/

theorem executionID_toList (policyID : String) (epoch : ℤ) :
    (executionID policyID epoch).toList =
      policyID.toList ++ '@' :: (toString epoch).toList := by
  show ((policyID ++ "@") ++ toString epoch).toList = _
  rw [String.toList_append, String.toList_append, List.append_assoc]
  rfl

theorem repr_nat_injective : Function.Injective Nat.repr := by
  intro m n hsame
  have hdigits := congrArg String.toList hsame
  rw [Nat.toList_repr, Nat.toList_repr] at hdigits
  rw [← @Nat.ofDigitChars_toDigits 10 m (by decide) (by decide), hdigits,
    Nat.ofDigitChars_toDigits (by decide) (by decide)]

theorem toString_negSucc (n : ℕ) :
    (toString (Int.negSucc n)).toList = '-' :: (n + 1).repr.toList := by
  show ("-" ++ (n + 1).repr).toList = _
  rw [String.toList_append]
  rfl

theorem at_notMem_toString (epoch : ℤ) : '@' ∉ (toString epoch).toList := by
  cases epoch with
  | ofNat n => exact Decimal.notMem_repr (by decide) n
  | negSucc n =>
    rw [toString_negSucc, List.mem_cons]
    exact not_or.mpr ⟨by decide, Decimal.notMem_repr (by decide) (n + 1)⟩

theorem toString_epoch_injective : Function.Injective (toString : ℤ → String) := by
  -- only the text of a negative number starts with a minus sign
  have hminus : ∀ m n : ℕ, toString (Int.ofNat m) ≠ toString (Int.negSucc n) := by
    intro m n hsame
    have hmem : '-' ∈ m.repr.toList := by
      rw [show m.repr = toString (Int.negSucc n) from hsame, toString_negSucc]
      exact List.mem_cons_self
    exact Decimal.notMem_repr (by decide) m hmem
  intro first second hsame
  cases first with
  | ofNat m =>
    cases second with
    | ofNat n => exact congrArg Int.ofNat (repr_nat_injective hsame)
    | negSucc n => exact absurd hsame (hminus m n)
  | negSucc m =>
    cases second with
    | ofNat n => exact absurd hsame.symm (hminus n m)
    | negSucc n =>
      have hlists := congrArg String.toList hsame
      rw [toString_negSucc, toString_negSucc] at hlists
      cases repr_nat_injective (String.toList_injective (List.cons.inj hlists).2)
      rfl

/-- Policy IDs have no `@` in them, so an execution ID tells the policy and the time. -/
theorem executionID_inj {policyID other : String} {epoch time : ℤ} (hid : '@' ∉ policyID.toList)
    (hsame : executionID policyID epoch = executionID other time) :
    policyID = other ∧ epoch = time := by
  have hlists := congrArg String.toList hsame
  rw [executionID_toList, executionID_toList,
    List.append_cons_inj_of_notMem hid (at_notMem_toString epoch)] at hlists
  obtain ⟨hpolicy, -, htime⟩ := hlists
  exact ⟨String.toList_injective hpolicy, toString_epoch_injective (String.toList_injective htime)⟩

theorem ne_executionID {policyID other : String} {time : ℤ} (hid : '@' ∉ policyID.toList) :
    policyID ≠ executionID other time := by
  rintro rfl
  rw [executionID_toList] at hid
  simp at hid

/-! ## Runs -/

section Runs

variable {parsers : Parsers} {start : ℤ} {actors : ℕ → Actor}

theorem endedInTime_start (start : ℤ) : EndedInTime { clock := start } := by
  intro policyID epoch hfinal
  have hempty : ¬ ({} : JobKeys).Final := by decide
  exact absurd hfinal hempty

/-- In every run, an execution is in the queue at most once.  If moreover every step comes in
time, then no round stores another status for an execution that has ended, or puts it into
the queue. -/
theorem ended_executions_stay_ended {actions : List (ℕ × PeriodChoice)} {final : PeriodPool}
    (htimely : EveryStep (Pool.step periodSem) (Pool.Admits Timely)
      (periodPool parsers start actors) actions)
    (hrun : exec (Pool.step periodSem) (periodPool parsers start actors) actions = some final) :
    (final.world.scheduled.entries.map fun entry => (entry.1.id, entry.1.enqueuedAt)).Nodup ∧
    EveryStep (Pool.step periodSem) (fun before action after => (actors action.1).Enqueues →
      ∀ policyID epoch, (before.world.jobs (executionID policyID epoch)).Final →
        StaysEnded policyID epoch before.world after.world)
      (periodPool parsers start actors) actions := by
  refine ⟨executions_nodup (periodInv_exec hrun), ?_⟩
  have huses : ∀ thread, ((periodPool parsers start actors).threads thread).Uses fun op =>
      SavesScheduled op ∧ ((actors thread).Enqueues → EnqueueOp op) :=
    fun thread => (actors thread).program_enqueues parsers thread
  refine everyStep_of_invariant (fun pool : PeriodPool => EndedInTime pool.world) ?_
    (endedInTime_start start) (htimely.and (uses_exec huses))
  rintro before action after hended _ ⟨hadmits, op, reply, hop, ⟨hsaves, henqueues⟩, hsem⟩
  have hintime := hadmits op hop
  refine ⟨hended.step hsaves hintime hsem, fun hround policyID epoch hfinal => ?_⟩
  exact hended.staysEnded (henqueues hround) hintime hsem hfinal

end Runs

/-- The daily job is scheduled shortly before midnight.  A second round enqueues its execution
again, which then runs, and a third round comes after that. -/
def dailyActors : ℕ → Actor
  | 0 => .periodicallyEnqueue 2 scanPolicy
  | 1 | 3 => .enqueue 2
  | 2 => .setStatus (executionID "5a" 86400) "Success" 86310
  | _ => .clearDirtyJobs

def scheduleSteps : List (ℕ × PeriodChoice) :=
  (0, { now := 86300, identifier := "5a" }) :: List.replicate 9 (0, { now := 86300 })

def dailySteps : List (ℕ × PeriodChoice) :=
  scheduleSteps ++ List.replicate 5 (1, { now := 86310 }) ++
    (2, { now := 86400 }) :: List.replicate 2 (3, { now := 86410 })

theorem dailySteps_timely :
    EveryStep (Pool.step periodSem) (Pool.Admits Timely)
      (periodPool dailyParsers 86300 dailyActors) dailySteps := by
  have hepoch : ∀ policyID epoch, executionID "5a" 86400 = executionID policyID epoch →
      86400 = epoch := fun _ _ hsame => (executionID_inj (by decide) hsame).2
  have hfirst : (86300 : ℤ) < 86400 := by decide
  have hsecond : (86310 : ℤ) < 86400 := by decide
  iterate 3 refine everyStep_cons rfl (admits_of_nextOp rfl fun _ _ hsets => hsets.elim) ?_
  refine everyStep_cons rfl (admits_of_nextOp rfl fun _ _ hsame =>
    hfirst.trans_eq (hepoch _ _ hsame)) ?_
  refine everyStep_cons rfl (admits_of_nextOp rfl hfirst) ?_
  iterate 4 refine everyStep_cons rfl (admits_of_nextOp rfl fun _ _ hsets => hsets.elim) ?_
  refine everyStep_cons rfl (admits_of_nextOp rfl fun _ _ hsame =>
    absurd hsame (ne_executionID (by decide))) ?_
  iterate 3 refine everyStep_cons rfl (admits_of_nextOp rfl fun _ _ hsets => hsets.elim) ?_
  refine everyStep_cons rfl (admits_of_nextOp rfl fun _ _ hsame =>
    hsecond.trans_eq (hepoch _ _ hsame)) ?_
  refine everyStep_cons rfl (admits_of_nextOp rfl hsecond) ?_
  refine everyStep_cons rfl (admits_of_nextOp rfl fun _ _ hsets =>
    (hepoch _ _ hsets.1).symm.le) ?_
  iterate 2 refine everyStep_cons rfl (admits_of_nextOp rfl fun _ _ hsets => hsets.elim) ?_
  trivial

/-- The second round and the one after the end leave the execution as it should be. -/
theorem ended_executions_stay_ended_daily :
    ∃ final : PeriodPool,
      exec (Pool.step periodSem) (periodPool dailyParsers 86300 dailyActors) dailySteps =
        some final ∧
      (final.world.jobs (executionID "5a" 86400)).Final ∧
      (final.world.scheduled.entries.map fun entry => (entry.1.id, entry.1.enqueuedAt)) =
        [("5a", 86400)] ∧
      EveryStep (Pool.step periodSem) (fun before action after =>
        (dailyActors action.1).Enqueues →
        ∀ policyID epoch, (before.world.jobs (executionID policyID epoch)).Final →
          StaysEnded policyID epoch before.world after.world)
        (periodPool dailyParsers 86300 dailyActors) dailySteps := by
  exact ⟨_, rfl, by rfl, rfl, (ended_executions_stay_ended dailySteps_timely rfl).2⟩

/-- An execution is stopped before its time, and then a second round comes. -/
def stopActors : ℕ → Actor
  | 0 => .periodicallyEnqueue 2 scanPolicy
  | 1 => .stopJob (executionID "5a" 86400)
  | 2 => .enqueue 2
  | _ => .clearDirtyJobs

def stopSteps : List (ℕ × PeriodChoice) :=
  scheduleSteps ++ List.replicate 3 (1, { now := 86305 }) ++
    List.replicate 3 (2, { now := 86310 })

/-- A round schedules an execution again that was stopped. -/
theorem stopped_execution_scheduled_again :
    ∃ before after : PeriodPool,
      exec (Pool.step periodSem) (periodPool dailyParsers 86300 stopActors) stopSteps =
        some before ∧
      Pool.step periodSem before (2, { now := 86310 }) = some after ∧
      before.threads 1 = .ret (.ok ()) ∧
      (before.world.jobs (executionID "5a" 86400)).status = some "Stopped" ∧
      (after.world.jobs (executionID "5a" 86400)).status = some "Scheduled" ∧
      after.world.scheduled.entries.length = 1 :=
  ⟨_, _, rfl, rfl, rfl, rfl, rfl, rfl⟩

end Harbor.Period
