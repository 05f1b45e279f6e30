import Harbor.Period.Safety

/-!
# The programs around periodic jobs

Which operations each program uses, and that it performs only permitted ones
whatever the others do in between.  `Actor.program_safe` says so for everyone who
takes part.

What a program relies on is a fact about the records.  Records are never taken back, so the
fact is `Lasting`, whatever the others do:

* `Known` of the policy of a round (`scheduleNextJobs_safe`), and `Loaded` of those that a
  round has read (`enqueue_safe`);
* `Created` of a policy that its creator has not scheduled yet (`schedule_safe`);
* `SchedulePost` of the score under which it was scheduled, and by which it is removed
  (`locatePolicy_safe`, `unSchedule_safe`).

`periodInv_exec` is the result for whole runs.
-/

namespace Harbor.Period

open Harbor.Concurrency Harbor.Data Harbor.JobService PeriodWorld

/-! ## Operations in use -/

/-- The operations of a round for one policy. -/
def RoundOp (policy : Policy) : PeriodOp → Prop
  | .timeNow => True
  | .saveStats info => info.numericPID = 0 ∧ info.status = Status.scheduled.text
  | .addScheduled job epoch => job = queuedJob policy epoch
  | .setStatus _ status _ => status = Status.error.text
  | .fireHook => True
  | _ => False

/-- The operations with which a policy is located and its executions are cleared. -/
def ClearOp : PeriodOp → Prop
  | .loadPolicies => True
  | .deleteScheduledJob _ _ => True
  | .track _ => True
  | .setStatus _ _ _ => True
  | .fireHook => True
  | .getExecutions _ => True
  | _ => False

/-- The operations of an unschedule. -/
def UnScheduleOp (policyID : String) (op : PeriodOp) : Prop :=
  ClearOp op ∨ ∃ numericID, op = .removePolicies policyID numericID

variable (parsers : Parsers) (fuel : ℕ)

section Uses

variable {P : PeriodOp → Prop} {info : StatsInfo} {jobID : String} {target : Status}

theorem compareAndSet_uses (hset : P (.setStatus jobID target.text info.revision)) :
    (compareAndSet jobID info target).Uses P := by
  refine ⟨hset, fun reply => ?_⟩
  rcases reply with err | (_ | text) <;> trivial

theorem fireHookEvent_uses (hhook : P .fireHook) : (fireHookEvent info).Uses P := by
  unfold fireHookEvent
  split_ifs
  · trivial
  · exact ⟨hhook, fun _ => trivial⟩

theorem setStatus_uses {jobID : String} {target : Status}
    (hset : P (.setStatus jobID target.text info.revision)) (hhook : P .fireHook) :
    (setStatus jobID info target).Uses P := by
  refine (compareAndSet_uses hset).bind fun result => ?_
  split_ifs
  · trivial
  · refine (fireHookEvent_uses hhook).bind fun fired => ?_
    cases fired <;> trivial

theorem enqueueExecution_uses (policy : Policy) (epoch : ℤ) :
    (enqueueExecution policy epoch).Uses (RoundOp policy) := by
  refine ⟨trivial, fun now => ?_⟩
  show Program.Uses _ (newTracker _ >>= _)
  refine Program.Uses.bind ?_ fun saved => ?_
  · unfold newTracker
    split
    · trivial
    · exact ⟨⟨rfl, rfl⟩, fun _ => trivial⟩
  · cases saved with
    | error err => trivial
    | ok _ =>
      refine ⟨rfl, fun added => ?_⟩
      cases added with
      | error err =>
        have hfail : (setStatus (executionID policy.id epoch)
            (createExecution policy epoch now) .error).Uses (RoundOp policy) :=
          setStatus_uses rfl trivial
        exact hfail.bind fun _ => trivial
      | ok _ => trivial

theorem enqueueUntil_uses (policy : Policy) (next : ℤ → ℤ) (horizon : ℤ) (fuel : ℕ) (epoch : ℤ) :
    (enqueueUntil policy next horizon fuel epoch).Uses (RoundOp policy) := by
  induction fuel generalizing epoch with
  | zero => trivial
  | succ fuel ih =>
    unfold enqueueUntil
    split_ifs
    · refine (enqueueExecution_uses policy epoch).bind fun goesOn => ?_
      cases goesOn with
      | false => trivial
      | true => exact ih (next epoch)
    · trivial

theorem scheduleNextJobs_uses (policy : Policy) :
    (scheduleNextJobs parsers fuel policy).Uses (RoundOp policy) := by
  refine ⟨trivial, fun now => ?_⟩
  split
  · trivial
  · exact enqueueUntil_uses _ _ _ _ _

theorem stopExecution_uses (eID : String) (info : StatsInfo) :
    (stopExecution eID info).Uses ClearOp := by
  unfold stopExecution
  split_ifs
  · exact (setStatus_uses trivial trivial).bind fun _ => trivial
  · trivial

theorem clearExecution_uses (policyID eID : String) :
    (clearExecution policyID eID).Uses ClearOp := by
  refine ⟨trivial, fun reply => ?_⟩
  cases reply with
  | error err => trivial
  | ok info =>
    show Program.Uses _ (if info.status = Status.scheduled.text then _ else _)
    split_ifs
    · exact ⟨trivial, fun _ => stopExecution_uses eID info⟩
    · exact stopExecution_uses eID info

variable (policyID : String)

theorem clearExecutions_uses (eIDs : List String) :
    (clearExecutions policyID eIDs).Uses ClearOp := by
  induction eIDs with
  | nil => trivial
  | cons eID rest ih => exact (clearExecution_uses policyID eID).bind fun _ => ih

theorem locateInList_uses (err : PeriodFailure) :
    (locateInList parsers policyID err).Uses ClearOp := by
  refine ⟨trivial, fun reply => ?_⟩
  cases reply <;> trivial

theorem locatePolicy_uses : (locatePolicy parsers policyID).Uses ClearOp := by
  refine ⟨trivial, fun reply => ?_⟩
  cases reply with
  | error err =>
    cases err with
    | notFound jobID => exact locateInList_uses parsers policyID _
    | _ => trivial
  | ok info => exact (setStatus_uses trivial trivial).bind fun _ => trivial

theorem clearPeriodicExecutions_uses : (clearPeriodicExecutions policyID).Uses ClearOp := by
  refine ⟨trivial, fun reply => ?_⟩
  cases reply with
  | error err => trivial
  | ok eIDs => exact clearExecutions_uses policyID eIDs

theorem unSchedule_uses : (unSchedule parsers policyID).Uses (UnScheduleOp policyID) := by
  unfold unSchedule
  split_ifs
  · trivial
  · refine ((locatePolicy_uses parsers policyID).mono fun _ => .inl).bind fun located => ?_
    cases located with
    | error err => trivial
    | ok numericID =>
      refine ((clearPeriodicExecutions_uses policyID).mono fun _ => .inl).bind fun _ => ?_
      refine ⟨.inr ⟨numericID, rfl⟩, fun reply => ?_⟩
      cases reply <;> trivial

theorem stopTracked_uses (jobID : String) (info : StatsInfo) :
    (stopTracked jobID info).Uses ClearOp := by
  refine Program.Uses.bind (setStatus_uses trivial trivial) fun stopped => ?_
  cases stopped with
  | error err => trivial
  | ok _ =>
    split_ifs
    · exact ⟨trivial, fun _ => trivial⟩
    · trivial

theorem stopJob_uses (jobID : String) : (stopJob parsers jobID).Uses (UnScheduleOp jobID) := by
  unfold stopJob
  split_ifs
  · trivial
  · refine ⟨.inl trivial, fun reply => ?_⟩
    cases reply with
    | error err =>
      cases err with
      | notFound id => exact unSchedule_uses parsers jobID
      | _ => trivial
    | ok info =>
      show Program.Uses _ (if info.jobKind = kindPeriodic then _ else if _ then _ else _)
      split_ifs
      · exact unSchedule_uses parsers jobID
      · trivial
      · exact (stopTracked_uses jobID info).mono fun _ => .inl

theorem deleteScheduledJobs_uses (entries : List (QueuedJob × ℤ)) :
    (deleteScheduledJobs entries).Uses ClearOp := by
  induction entries with
  | nil => trivial
  | cons entry rest ih => exact ⟨trivial, fun _ => ih⟩

end Uses

/-! ## Safe programs -/

section Safe

variable {thread : ℕ} {world : PeriodWorld} {Result : Type}

/-- The program keeps the invariant among the other actors. -/
abbrev Safe (thread : ℕ) (Post : Result → PeriodWorld → Prop) (program : PeriodProgram Result)
    (world : PeriodWorld) : Prop :=
  Secured periodSem (fun _ _ _ => True) PeriodInv (PeriodRely thread) (PeriodGuar thread) Post
    program world

/-- A fact about the records that stays true as they grow. -/
def Lasting (Fact : PeriodWorld → Prop) : Prop :=
  ∀ before after, Grows before after → Fact before → Fact after

variable {op : PeriodOp} {policy : Policy} {after : PeriodWorld} {choice : PeriodChoice}
  {before : PeriodWorld} {Post : Result → PeriodWorld → Prop} {Fact : PeriodWorld → Prop}
  {program : PeriodProgram Result} {reply : PeriodReply op} {policyID : String}

theorem Lasting.ret {Post : Result → PeriodWorld → Prop} {result : Result}
    (hlasting : Lasting (Post result)) (hpost : Post result world) :
    Safe thread Post (.ret result) world :=
  Secured.ret (fun later hrely => hlasting world later hrely.grows) hpost

theorem safe_call {next : PeriodReply op → PeriodProgram Result}
    (hpermitted : ∀ later, PeriodRely thread world later → PeriodInv later →
      Permitted thread later op)
    (hnext : ∀ later choice after reply, PeriodRely thread world later → PeriodInv later →
      PeriodInv after → PeriodGuar thread later after →
      periodSem later op choice = some (after, reply) → Safe thread Post (next reply) after) :
    Safe thread Post (.call op next) world := by
  intro later choice after reply hrely hinv _ hsem
  obtain ⟨hafter, hguar⟩ := periodSem_step hinv (hpermitted later hrely hinv) hsem
  exact ⟨hafter, hguar, hnext later choice after reply hrely hinv hafter hguar hsem⟩

theorem safe_of_uses {P : PeriodOp → Prop} (hlasting : Lasting Fact)
    (hpermitted : ∀ world op, P op → Fact world → Permitted thread world op)
    (huses : program.Uses P) (hfact : Fact world) :
    Safe thread (fun _ later => Fact later) program world := by
  refine huses.secured (fun a b hrely => hlasting a b hrely.grows) ?_ hfact
  intro before op choice after reply hop hinv hbefore _ hsem
  obtain ⟨hafter, hguar⟩ := periodSem_step hinv (hpermitted before op hop hbefore) hsem
  exact ⟨hafter, hguar, hlasting _ _ hguar.grows hbefore⟩

/-- The policy is the one that was created under its ID, up to the numeric ID. -/
def Known (policy : Policy) (world : PeriodWorld) : Prop :=
  ∃ stored, world.policyOf policy.id = some stored ∧
    ∀ epoch, queuedJob policy epoch = queuedJob stored epoch

theorem known_lasting (policy : Policy) : Lasting (Known policy) := by
  rintro before after hgrows ⟨stored, hstored, hjobs⟩
  exact ⟨stored, hgrows.policyOf _ _ hstored, hjobs⟩

theorem roundOp_permitted (op : PeriodOp) (hop : RoundOp policy op) (hknown : Known policy world) :
    Permitted thread world op := by
  cases op with
  | saveStats info =>
    intro hpos
    have hzero := hop.1
    omega
  | addScheduled job epoch =>
    obtain rfl : job = queuedJob policy epoch := hop
    obtain ⟨stored, hstored, hjobs⟩ := hknown
    exact ⟨stored, hstored, hjobs epoch⟩
  | timeNow | setStatus | fireHook => trivial
  | _ => exact hop.elim

theorem scheduleNextJobs_safe (hknown : Known policy world) :
    Safe thread (fun _ => Known policy) (scheduleNextJobs parsers fuel policy) world :=
  safe_of_uses (known_lasting policy) (fun _ op hop hfact => roundOp_permitted op hop hfact)
    (scheduleNextJobs_uses parsers fuel policy) hknown

/-! ### Rounds -/

theorem periodSem_done {world : PeriodWorld}
    (hsem : periodSem world op choice = some (after, reply)) (hreply : op.failure ≠ some reply) :
    (world.tick choice.now).perform op choice = some (after, reply) := by
  obtain ⟨-, ⟨-, hfailure⟩ | ⟨answer, hperform, rfl | hfailure⟩⟩ := periodSem_cases hsem
  · exact absurd hfailure hreply
  · exact hperform
  · exact absurd hfailure hreply

/-- What is loaded was created and has the score it was scheduled with. -/
def Loaded (policy : Policy) (world : PeriodWorld) : Prop :=
  Known policy world ∧ world.scheduledAs policy.id = some policy.numericID

theorem loaded_lasting (policy : Policy) : Lasting (Loaded policy) := fun before after hgrows h =>
  ⟨known_lasting policy before after hgrows h.1, hgrows.scheduledAs _ _ h.2⟩

def LoadPost : Except PeriodFailure (List Policy) → PeriodWorld → Prop
  | .error _, _ => True
  | .ok policies, world => ∀ policy ∈ policies, Loaded policy world

theorem loadPost_lasting (result : Except PeriodFailure (List Policy)) :
    Lasting (LoadPost result) := by
  intro before after hgrows hpost
  cases result with
  | error err => trivial
  | ok policies =>
    exact fun policy hpolicy => loaded_lasting policy before after hgrows (hpost policy hpolicy)

theorem loadValid_loaded (hinv : PeriodInv world) :
    ∀ policy ∈ loadValid parsers world.policies.entries, Loaded policy world := by
  intro policy hpolicy
  obtain ⟨entry, hentry, rfl⟩ := List.mem_map.mp hpolicy
  obtain ⟨hstored, hscore⟩ := hinv.known entry (List.mem_of_mem_filter hentry)
  exact ⟨⟨entry.1, hstored, fun _ => rfl⟩, hscore⟩

theorem load_safe : Safe thread LoadPost (load parsers) world := by
  refine safe_call (fun _ _ _ => trivial) fun later choice after reply _ _ hafter _ hsem => ?_
  cases reply with
  | error err => exact Lasting.ret (loadPost_lasting _) trivial
  | ok entries =>
    refine Lasting.ret (loadPost_lasting _) ?_
    have hdone := periodSem_done hsem (fun hfailure => by cases hfailure)
    cases hdone
    exact loadValid_loaded parsers hafter

theorem scheduleAll_safe (policies : List Policy) (hinv : PeriodInv world)
    (hknown : ∀ policy ∈ policies, Known policy world) :
    Safe thread (fun _ _ => True) (scheduleAll parsers fuel policies) world := by
  induction policies generalizing world with
  | nil => exact Lasting.ret (fun _ _ _ _ => trivial) trivial
  | cons policy rest ih =>
    have hfirst : Safe thread (fun _ => Known policy) (scheduleNextJobs parsers fuel policy)
        world := scheduleNextJobs_safe parsers fuel (hknown policy List.mem_cons_self)
    have hlasting : Lasting fun later => ∀ other ∈ rest, Known other later :=
      fun before after hgrows h other hother =>
        known_lasting other before after hgrows (h other hother)
    refine Secured.bind (period_compatible.refl thread) hinv
      (Secured.frame (fun later => ∀ other ∈ rest, Known other later)
        (fun a b hrely => hlasting a b hrely.grows)
        (fun _ _ _ _ _ _ _ hguar => hlasting _ _ hguar.grows)
        (Program.uses_of_forall (fun _ => trivial) _) hfirst
        fun other hother => hknown other (List.mem_cons_of_mem _ hother)) ?_
    exact fun _ later hlater hmid => ih hlater hmid.2

theorem enqueue_safe (hinv : PeriodInv world) :
    Safe thread (fun _ _ => True) (enqueue parsers fuel) world := by
  refine Secured.bind (period_compatible.refl thread) hinv (load_safe parsers) ?_
  intro result later hlater hpost
  cases result with
  | error err => exact Lasting.ret (fun _ _ _ _ => trivial) trivial
  | ok policies =>
    exact scheduleAll_safe parsers fuel policies hlater fun policy hpolicy =>
      (hpost policy hpolicy).1

/-! ### Scheduling -/

/-- The policy was created by `thread` and is not scheduled yet. -/
structure Created (thread : ℕ) (policy : Policy) (world : PeriodWorld) : Prop where
  creator : world.creator policy.id = some thread
  policyOf : world.policyOf policy.id = some policy
  unscheduled : world.scheduledAs policy.id = none

theorem Created.stable (h : Created thread policy before) (hrely : PeriodRely thread before after) :
    Created thread policy after where
  creator := hrely.grows.creator _ _ h.creator
  policyOf := hrely.grows.policyOf _ _ h.policyOf
  unscheduled := by rw [hrely.unscheduled _ h.creator, h.unscheduled]

theorem Created.known (h : Created thread policy world) : Known policy world :=
  ⟨policy, h.policyOf, fun _ => rfl⟩

theorem Created.of_roundOp {other : Policy} (hop : RoundOp other op)
    (hsem : periodSem before op choice = some (after, reply)) (h : Created thread policy before) :
    Created thread policy after := by
  obtain ⟨-, ⟨rfl, -⟩ | ⟨answer, hperform, -⟩⟩ := periodSem_cases hsem
  · exact ⟨h.creator, h.policyOf, h.unscheduled⟩
  · cases op with
    | timeNow | addScheduled | setStatus | fireHook =>
      cases hperform
      exact ⟨h.creator, h.policyOf, h.unscheduled⟩
    | saveStats info =>
      obtain rfl : ((before.tick choice.now).saveStats info).1 = after :=
        congrArg Prod.fst (Option.some.inj hperform)
      unfold saveStats link
      split_ifs <;> exact ⟨h.creator, h.policyOf, h.unscheduled⟩
    | _ => exact hop.elim

/-- What holds once a policy was scheduled. -/
def SchedulePost (policyID : String) : Except PeriodFailure ℤ → PeriodWorld → Prop
  | .error _, _ => True
  | .ok score, world => world.scheduledAs policyID = some score

theorem schedulePost_lasting (policyID : String) (result : Except PeriodFailure ℤ) :
    Lasting (SchedulePost policyID result) := by
  intro before after hgrows hpost
  cases result with
  | error err => trivial
  | ok score => exact hgrows.scheduledAs _ _ hpost

theorem schedule_safe (hinv : PeriodInv world)
    (hcreated : policy.id = "" ∨ Created thread policy world) :
    Safe thread (SchedulePost policy.id) (schedule parsers fuel policy) world := by
  unfold schedule
  split
  · exact Lasting.ret (schedulePost_lasting _ _) trivial
  next hvalid =>
  have hcreated : Created thread policy world := by
    refine hcreated.resolve_left fun hempty => ?_
    simp [Policy.validate, hempty, isEmptyStr] at hvalid
  -- a round does not schedule the policy, so it is still up to its creator
  have hround : Safe thread (fun _ later => Known policy later ∧ Created thread policy later)
      (scheduleNextJobs parsers fuel policy) world :=
    Secured.frame (Created thread policy) (fun _ _ hrely h => h.stable hrely)
      (fun _ _ _ _ _ hop hsem _ h => h.of_roundOp hop hsem)
      (scheduleNextJobs_uses parsers fuel policy)
      (scheduleNextJobs_safe parsers fuel hcreated.known) hcreated
  refine Secured.bind (period_compatible.refl thread) hinv hround fun _ later _ hmid => ?_
  refine safe_call (fun _ _ _ => trivial) fun later' choice after score hrely _ _ _ hsem => ?_
  have hdrawn : Created thread policy after := by
    obtain ⟨-, ⟨rfl, -⟩ | ⟨answer, hperform, -⟩⟩ := periodSem_cases hsem
    · exact ⟨(hmid.2.stable hrely).creator, (hmid.2.stable hrely).policyOf,
        (hmid.2.stable hrely).unscheduled⟩
    · simp only [perform] at hperform
      split_ifs at hperform
      cases hperform
      exact ⟨(hmid.2.stable hrely).creator, (hmid.2.stable hrely).policyOf,
        (hmid.2.stable hrely).unscheduled⟩
  refine safe_call (fun last hlast _ => ⟨(hdrawn.stable hlast).creator,
    (hdrawn.stable hlast).policyOf, (hdrawn.stable hlast).unscheduled⟩) ?_
  intro last choice' done reply hlast _ _ _ hadd
  cases reply with
  | error err => exact Lasting.ret (schedulePost_lasting _ _) trivial
  | ok _ =>
    refine Lasting.ret (schedulePost_lasting _ _) ?_
    have hdone := periodSem_done hadd (fun hfailure => by cases hfailure)
    cases hdone
    simp [SchedulePost, recordScore]

theorem newPolicy_created {created : Policy} (hinv : PeriodInv before)
    (hsem : periodSem before (.newPolicy thread policy) choice = some (after, created)) :
    created.id = "" ∨ Created thread created after := by
  have hdone := periodSem_done hsem (fun hfailure => by cases hfailure)
  obtain ⟨hempty, -⟩ | ⟨hnew, rfl⟩ := perform_newPolicy hdone
  · exact .inl hempty
  · exact .inr ⟨by simp [recordPolicy], by simp [recordPolicy],
      (hinv.fresh _ hnew).1⟩

theorem periodicallyEnqueue_safe (policy : Policy) :
    Safe thread (fun _ _ => True) (periodicallyEnqueue parsers fuel thread policy) world := by
  refine safe_call (fun _ _ _ => rfl) ?_
  intro later choice after created _ hinv hafter _ hsem
  show Safe thread _ (schedule parsers fuel created >>= _) after
  refine Secured.bind (period_compatible.refl thread) hafter
    (schedule_safe parsers fuel hafter (newPolicy_created hinv hsem)) ?_
  intro result scheduled _ hpost
  cases result with
  | error err => exact Lasting.ret (fun _ _ _ _ => trivial) trivial
  | ok score =>
    refine safe_call (fun _ _ _ => trivial) fun before _ first enqueueTime hrely _ _ hguar _ => ?_
    refine safe_call (fun _ _ _ => trivial)
      fun before' _ second updateTime hrely' _ _ hguar' _ => ?_
    refine safe_call (fun last hlast _ _ => ?_) fun _ _ _ reply _ _ _ _ _ => ?_
    · exact schedulePost_lasting _ (.ok score) _ _ ((hrely.grows.trans hguar.grows).trans
        ((hrely'.grows.trans hguar'.grows).trans hlast.grows)) hpost
    · exact Lasting.ret (fun _ _ _ _ => trivial) trivial

/-! ### Unscheduling -/

theorem clearOp_permitted (op : PeriodOp) (hop : ClearOp op) : Permitted thread world op := by
  cases op with
  | loadPolicies | deleteScheduledJob | track | setStatus | fireHook | getExecutions => trivial
  | _ => exact hop.elim

/-- Nothing is written that could contradict the records. -/
theorem safe_of_clearOp (hlasting : Lasting Fact) (huses : program.Uses ClearOp)
    (hfact : Fact world) : Safe thread (fun _ later => Fact later) program world :=
  safe_of_uses hlasting (fun _ op hop _ => clearOp_permitted op hop) huses hfact

theorem scheduledAs_lasting (policyID : String) (score : ℤ) :
    Lasting fun world => world.scheduledAs policyID = some score :=
  fun _ _ hgrows h => hgrows.scheduledAs _ _ h

theorem findNumericID_scheduled {err : PeriodFailure} {policies : List Policy}
    (hloaded : ∀ policy ∈ policies, Loaded policy world) :
    SchedulePost policyID (findNumericID policyID err policies) world := by
  unfold findNumericID
  split
  · next policy hfind =>
    have hid : policy.id = policyID ∧ 0 < policy.numericID := by
      simpa using List.find?_some hfind
    have hscore := (hloaded policy (List.mem_of_find?_eq_some hfind)).2
    rwa [hid.1] at hscore
  · trivial

theorem locateInList_safe (policyID : String) (err : PeriodFailure) (hinv : PeriodInv world) :
    Safe thread (SchedulePost policyID) (locateInList parsers policyID err) world := by
  refine Secured.bind (period_compatible.refl thread) hinv (load_safe parsers) ?_
  intro result later _ hpost
  cases result with
  | error err => exact Lasting.ret (schedulePost_lasting _ _) trivial
  | ok policies => exact Lasting.ret (schedulePost_lasting _ _) (findNumericID_scheduled hpost)

theorem numericIDOf_scheduled {info : StatsInfo} (hinv : PeriodInv world)
    (htracked : world.tracked policyID = .ok info) :
    SchedulePost policyID (numericIDOf policyID info) world := by
  unfold tracked at htracked
  split at htracked
  · next stored hretrieve =>
    cases htracked
    rw [retrieve_eq] at hretrieve
    split_ifs at hretrieve
    cases hretrieve
    unfold numericIDOf
    split_ifs with hpos
    · exact hinv.numbered policyID hpos
    · trivial
  · cases htracked

theorem locatePolicy_safe (policyID : String) :
    Safe thread (SchedulePost policyID) (locatePolicy parsers policyID) world := by
  refine safe_call (fun _ _ _ => trivial) fun later choice after reply _ _ hafter _ hsem => ?_
  cases reply with
  | error err =>
    cases err with
    | notFound jobID => exact locateInList_safe parsers policyID _ hafter
    | _ => exact Lasting.ret (schedulePost_lasting _ _) trivial
  | ok info =>
    have hdone := periodSem_done hsem (fun hfailure => by cases hfailure)
    obtain ⟨rfl, htracked⟩ := Prod.mk.inj (Option.some.inj hdone)
    have hnumber : SchedulePost policyID (numericIDOf policyID info) (later.tick choice.now) :=
      numericIDOf_scheduled hafter htracked
    show Safe thread _ (setStatus policyID info .stopped >>= _) _
    refine Secured.bind (period_compatible.refl thread) hafter
      (safe_of_clearOp (schedulePost_lasting policyID _)
        (setStatus_uses trivial trivial) hnumber) ?_
    exact fun _ _ _ hlater => Lasting.ret (schedulePost_lasting _ _) hlater

theorem unSchedule_safe (policyID : String) (hinv : PeriodInv world) :
    Safe thread (fun _ _ => True) (unSchedule parsers policyID) world := by
  unfold unSchedule
  split_ifs
  · exact Lasting.ret (fun _ _ _ _ => trivial) trivial
  refine Secured.bind (period_compatible.refl thread) hinv (locatePolicy_safe parsers policyID) ?_
  intro located later hlater hlocated
  cases located with
  | error err => exact Lasting.ret (fun _ _ _ _ => trivial) trivial
  | ok numericID =>
    refine Secured.bind (period_compatible.refl thread) hlater
      (safe_of_clearOp (scheduledAs_lasting policyID numericID)
        (clearPeriodicExecutions_uses policyID) hlocated) ?_
    intro _ cleared _ hcleared
    refine safe_call (fun last hlast _ => hlast.grows.scheduledAs _ _ hcleared) ?_
    intro _ _ _ reply _ _ _ _ _
    cases reply <;> exact Lasting.ret (fun _ _ _ _ => trivial) trivial

theorem stopJob_safe (jobID : String) :
    Safe thread (fun _ _ => True) (stopJob parsers jobID) world := by
  unfold stopJob
  split_ifs
  · exact Lasting.ret (fun _ _ _ _ => trivial) trivial
  refine safe_call (fun _ _ _ => trivial) fun later choice after reply _ _ hafter _ _ => ?_
  cases reply with
  | error err =>
    cases err with
    | notFound id => exact unSchedule_safe parsers jobID hafter
    | _ => exact Lasting.ret (fun _ _ _ _ => trivial) trivial
  | ok info =>
    show Safe thread _ (if info.jobKind = kindPeriodic then _ else if _ then _ else _) _
    split_ifs
    · exact unSchedule_safe parsers jobID hafter
    · exact Lasting.ret (fun _ _ _ _ => trivial) trivial
    · exact safe_of_clearOp (fun _ _ _ _ => trivial) (stopTracked_uses jobID info) trivial

/-! ### Everyone -/

theorem clearDirtyJobs_safe : Safe thread (fun _ _ => True) clearDirtyJobs world := by
  refine safe_call (fun _ _ _ => trivial) fun _ _ _ nowEpoch _ _ _ _ _ => ?_
  refine safe_call (fun _ _ _ => trivial) fun _ _ _ reply _ _ _ _ _ => ?_
  cases reply with
  | error err => exact Lasting.ret (fun _ _ _ _ => trivial) trivial
  | ok entries =>
    exact safe_of_clearOp (fun _ _ _ _ => trivial) (deleteScheduledJobs_uses entries) trivial

theorem once_safe (hpermitted : ∀ later, Permitted thread later op) :
    Safe thread (fun _ _ => True) (once op) world :=
  safe_call (fun later _ _ => hpermitted later) fun _ _ _ _ _ _ _ _ _ =>
    Lasting.ret (fun _ _ _ _ => trivial) trivial

theorem Actor.program_safe (actor : Actor) (hinv : PeriodInv world) :
    Safe thread (fun _ _ => True) (actor.program parsers thread) world := by
  cases actor with
  | periodicallyEnqueue fuel policy => exact periodicallyEnqueue_safe parsers fuel policy
  | enqueue fuel =>
    exact Secured.bind (period_compatible.refl thread) hinv (enqueue_safe parsers fuel hinv)
      fun _ _ _ _ => Lasting.ret (fun _ _ _ _ => trivial) trivial
  | unSchedule policyID => exact unSchedule_safe parsers policyID hinv
  | stopJob jobID => exact stopJob_safe parsers jobID
  | clearDirtyJobs =>
    exact Secured.bind (period_compatible.refl thread) hinv clearDirtyJobs_safe
      fun _ _ _ _ => Lasting.ret (fun _ _ _ _ => trivial) trivial
  | setStatus | reset | expire | takeScheduled | executionDone =>
    exact once_safe fun _ => trivial

end Safe

section Runs

variable {parsers : Parsers} {start : ℤ} {actors : ℕ → Actor}

theorem periodInv_start (start : ℤ) : PeriodInv { clock := start } where
  fresh _ _ := ⟨rfl, rfl⟩
  known entry hentry := absurd hentry (SortedSet.not_mem_empty entry)
  numbered id hpos := by simp [JobKeys.info, JobKeys.intOr] at hpos
  removed pair hpair := by cases hpair
  queued entry hentry := absurd hentry (SortedSet.not_mem_empty entry)

theorem periodPool_secured :
    Pool.IsSecured periodSem (fun _ _ _ => True) PeriodInv PeriodRely PeriodGuar
      (fun _ _ _ => True) (periodPool parsers start actors) :=
  ⟨periodInv_start start, fun thread =>
    (actors thread).program_safe parsers (periodInv_start start)⟩

theorem periodInv_everyStep (actions : List (ℕ × PeriodChoice)) :
    EveryStep (Pool.step periodSem)
      (fun before _ after => PeriodInv before.world ∧ PeriodInv after.world)
      (periodPool parsers start actors) actions := by
  refine everyStep_of_invariant
    (Pool.IsSecured periodSem (fun _ _ _ => True) PeriodInv PeriodRely PeriodGuar
      fun _ _ _ => True) ?_ periodPool_secured (everyStep_true _ actions)
  intro before action after hbefore hstep _
  have hafter := (hbefore.step period_compatible hstep fun _ _ => trivial).1
  exact ⟨hafter, hbefore.1, hafter.1⟩

theorem periodInv_exec {actions : List (ℕ × PeriodChoice)} {final : PeriodPool}
    (hrun : exec (Pool.step periodSem) (periodPool parsers start actors) actions = some final) :
    PeriodInv final.world := by
  have hall : EveryStep (Pool.step periodSem) (Pool.Admits fun _ _ _ => True)
      (periodPool parsers start actors) actions :=
    (everyStep_true _ actions).mono fun _ _ _ _ _ _ => trivial
  exact (Pool.secured_exec period_compatible periodPool_secured hall hrun).1

end Runs

/-! ## A daily job -/

/-- Jobs run once a day, at midnight. -/
def dailyParsers : Parsers where
  isValidURL _ := true
  parseCron _ := .ok fun time => (time / 86400 + 1) * 86400

def scanPolicy : Policy := { id := "", jobName := "SCAN_ALL", cronSpec := "0 0 0 * * *" }

end Harbor.Period
