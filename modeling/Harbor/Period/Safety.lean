import Harbor.Concurrency.RelyGuarantee
import Harbor.Period.Model

/-!
# What the records say about the data

`PeriodInv` relates the data in Redis to the records of `PeriodWorld`: a policy in
the set is the one that was created under its ID and has the score it was
scheduled with; the numeric ID in stored stats is that score as well; and every
job in the scheduled queue is the one that its policy and its time determine.

Each operation is *permitted* if it writes nothing that contradicts the records.
A permitted operation keeps `PeriodInv`, and the programs perform only permitted
operations; so all of them keep it together.
-/

namespace Harbor.Period

open Harbor.Concurrency Harbor.Data Harbor.JobService Function PeriodWorld

/-- What is in Redis agrees with the records. -/
structure PeriodInv (world : PeriodWorld) : Prop where
  fresh : ∀ id, world.creator id = none → world.scheduledAs id = none ∧ world.policyOf id = none
  known : ∀ entry ∈ world.policies, world.policyOf entry.1.id = some entry.1 ∧
    world.scheduledAs entry.1.id = some entry.2
  numbered : ∀ id, 0 < (world.jobs id).info.numericPID →
    world.scheduledAs id = some (world.jobs id).info.numericPID
  removed : ∀ pair ∈ world.removed, world.scheduledAs pair.1 = some pair.2
  queued : ∀ entry ∈ world.scheduled, ∃ policy, world.policyOf entry.1.id = some policy ∧
    entry.1 = queuedJob policy entry.2

/-- Records are never taken back. -/
structure Grows (before after : PeriodWorld) : Prop where
  creator : ∀ id thread, before.creator id = some thread → after.creator id = some thread
  policyOf : ∀ id policy, before.policyOf id = some policy → after.policyOf id = some policy
  scheduledAs : ∀ id score, before.scheduledAs id = some score → after.scheduledAs id = some score

theorem Grows.refl (world : PeriodWorld) : Grows world world :=
  ⟨fun _ _ h => h, fun _ _ h => h, fun _ _ h => h⟩

theorem Grows.trans {a b c : PeriodWorld} (hab : Grows a b) (hbc : Grows b c) : Grows a c where
  creator id thread h := hbc.creator id thread (hab.creator id thread h)
  policyOf id policy h := hbc.policyOf id policy (hab.policyOf id policy h)
  scheduledAs id score h := hbc.scheduledAs id score (hab.scheduledAs id score h)

/-- What the others may do: they do not schedule the policies of `thread`. -/
structure PeriodRely (thread : ℕ) (before after : PeriodWorld) : Prop where
  grows : Grows before after
  unscheduled : ∀ id, before.creator id = some thread →
    after.scheduledAs id = before.scheduledAs id

/-- What `thread` may do: it schedules only policies that it has created. -/
structure PeriodGuar (thread : ℕ) (before after : PeriodWorld) : Prop where
  grows : Grows before after
  unscheduled : ∀ id, before.creator id ≠ some thread →
    after.scheduledAs id = before.scheduledAs id

theorem period_compatible : Pool.Compatible PeriodInv PeriodRely PeriodGuar where
  refl _ world := ⟨.refl world, fun _ _ => rfl⟩
  trans thread a b c hab hbc := by
    refine ⟨hab.grows.trans hbc.grows, fun id hcreator => ?_⟩
    rw [hbc.unscheduled id (hab.grows.creator id thread hcreator), hab.unscheduled id hcreator]
  guar_rely thread other a b hother _ _ hguar := by
    refine ⟨hguar.grows, fun id hcreator => hguar.unscheduled id ?_⟩
    simpa [hcreator] using hother.symm

/-! ## Permitted operations -/

/-- The operation agrees with the records. -/
def Permitted (thread : ℕ) (world : PeriodWorld) : PeriodOp → Prop
  | .newPolicy creator _ => creator = thread
  | .addPolicy policy _ => world.creator policy.id = some thread ∧
      world.policyOf policy.id = some policy ∧ world.scheduledAs policy.id = none
  | .removePolicies policyID numericID => world.scheduledAs policyID = some numericID
  | .saveStats info => 0 < info.numericPID → world.scheduledAs info.jobID = some info.numericPID
  | .addScheduled job epoch => ∃ policy, world.policyOf job.id = some policy ∧
      job = queuedJob policy epoch
  | _ => True

section Steps

variable {thread : ℕ} {world after : PeriodWorld}

variable (hinv : PeriodInv world)
include hinv

variable {policyID : String} {policy : Policy} {choice : PeriodChoice}

/-- A change that leaves the records alone and puts in nothing that contradicts them. -/
theorem PeriodInv.of_records (hcreator : after.creator = world.creator)
    (hpolicyOf : after.policyOf = world.policyOf)
    (hscheduledAs : after.scheduledAs = world.scheduledAs)
    (hpolicies : ∀ entry ∈ after.policies, entry ∈ world.policies)
    (hnumbered : ∀ id, (after.jobs id).info.numericPID = (world.jobs id).info.numericPID ∨
      (0 < (after.jobs id).info.numericPID →
        world.scheduledAs id = some (after.jobs id).info.numericPID))
    (hremoved : ∀ pair ∈ after.removed, pair ∈ world.removed ∨
      world.scheduledAs pair.1 = some pair.2)
    (hscheduled : ∀ entry ∈ after.scheduled, entry ∈ world.scheduled ∨
      ∃ policy, world.policyOf entry.1.id = some policy ∧ entry.1 = queuedJob policy entry.2) :
    PeriodInv after ∧ PeriodGuar thread world after := by
  refine ⟨⟨?_, ?_, ?_, ?_, ?_⟩, ⟨?_, ?_, ?_⟩, ?_⟩
  · rw [hcreator, hscheduledAs, hpolicyOf]
    exact hinv.fresh
  · intro entry hentry
    rw [hscheduledAs, hpolicyOf]
    exact hinv.known entry (hpolicies entry hentry)
  · intro id hpos
    rw [hscheduledAs]
    rcases hnumbered id with hsame | hpermitted
    · rw [hsame] at hpos ⊢
      exact hinv.numbered id hpos
    · exact hpermitted hpos
  · intro pair hpair
    rw [hscheduledAs]
    exact (hremoved pair hpair).elim (hinv.removed pair) id
  · intro entry hentry
    rw [hpolicyOf]
    exact (hscheduled entry hentry).elim (hinv.queued entry) id
  · simp [hcreator]
  · simp [hpolicyOf]
  · simp [hscheduledAs]
  · simp [hscheduledAs]

theorem tick_step (now : ℤ) :
    PeriodInv (world.tick now) ∧ PeriodGuar thread world (world.tick now) :=
  hinv.of_records rfl rfl rfl (fun _ h => h) (fun _ => .inl rfl) (fun _ h => .inl h)
    (fun _ h => .inl h)

theorem setJob_step {jobID : String} {keys : JobKeys}
    (hkeys : keys.info.numericPID = (world.jobs jobID).info.numericPID ∨
      (0 < keys.info.numericPID → world.scheduledAs jobID = some keys.info.numericPID)) :
    PeriodInv (world.setJob jobID keys) ∧ PeriodGuar thread world (world.setJob jobID keys) := by
  refine hinv.of_records rfl rfl rfl (fun _ h => h) (fun id => ?_) (fun _ h => .inl h)
    (fun _ h => .inl h)
  by_cases hid : id = jobID
  · subst hid
    simpa [setJob] using hkeys
  · exact .inl (by simp [setJob, update_of_ne hid])

theorem setExecutions_step {executions : SortedSet String} :
    PeriodInv (world.setExecutions policyID executions) ∧
      PeriodGuar thread world (world.setExecutions policyID executions) :=
  hinv.of_records rfl rfl rfl (fun _ h => h) (fun _ => .inl rfl) (fun _ h => .inl h)
    (fun _ h => .inl h)

theorem setScheduled_step {scheduled : SortedSet QueuedJob}
    (hscheduled : ∀ entry ∈ scheduled, entry ∈ world.scheduled ∨
      ∃ policy, world.policyOf entry.1.id = some policy ∧ entry.1 = queuedJob policy entry.2) :
    PeriodInv (world.setScheduled scheduled) ∧
      PeriodGuar thread world (world.setScheduled scheduled) :=
  hinv.of_records rfl rfl rfl (fun _ h => h) (fun _ => .inl rfl) (fun _ h => .inl h) hscheduled

theorem removePolicies_step {numericID : ℤ}
    (hpermitted : world.scheduledAs policyID = some numericID) {policies : SortedSet Policy}
    (hpolicies : ∀ entry ∈ policies, entry ∈ world.policies) :
    PeriodInv ((world.setPolicies policies).recordRemoval policyID numericID) ∧
      PeriodGuar thread world
        ((world.setPolicies policies).recordRemoval policyID numericID) := by
  refine hinv.of_records rfl rfl rfl hpolicies (fun _ => .inl rfl) (fun pair hpair => ?_)
    (fun _ h => .inl h)
  rcases List.mem_cons.mp hpair with rfl | hold
  · exact .inr hpermitted
  · exact .inl hold

theorem newPolicy_step (hnew : world.creator policy.id = none) :
    PeriodInv (world.recordPolicy thread policy) ∧
      PeriodGuar thread world (world.recordPolicy thread policy) := by
  obtain ⟨hunscheduled, hunknown⟩ := hinv.fresh _ hnew
  have hpolicyOf : ∀ id old, world.policyOf id = some old →
      (world.recordPolicy thread policy).policyOf id = some old := by
    intro id old hold
    have hne : id ≠ policy.id := by
      rintro rfl
      simp [hunknown] at hold
    simpa [recordPolicy, update_of_ne hne] using hold
  refine ⟨⟨?_, ?_, hinv.numbered, hinv.removed, ?_⟩, ⟨?_, hpolicyOf, fun _ _ h => h⟩,
    fun _ _ => rfl⟩
  · intro id hid
    have hne : id ≠ policy.id := by
      rintro rfl
      simp [recordPolicy] at hid
    simp only [recordPolicy, update_of_ne hne] at hid ⊢
    exact hinv.fresh id hid
  · intro entry hentry
    obtain ⟨hentryPolicy, hentryScore⟩ := hinv.known entry hentry
    exact ⟨hpolicyOf _ _ hentryPolicy, hentryScore⟩
  · intro entry hentry
    obtain ⟨old, hold, hjob⟩ := hinv.queued entry hentry
    exact ⟨old, hpolicyOf _ _ hold, hjob⟩
  · intro id creator hid
    have hne : id ≠ policy.id := by
      rintro rfl
      simp [hnew] at hid
    simpa [recordPolicy, update_of_ne hne] using hid

theorem addPolicy_step {score : ℤ} (hcreator : world.creator policy.id = some thread)
    (hpolicy : world.policyOf policy.id = some policy)
    (hunscheduled : world.scheduledAs policy.id = none) :
    PeriodInv ((world.setPolicies (world.policies.add policy score)).recordScore
        policy.id score) ∧
      PeriodGuar thread world
        ((world.setPolicies (world.policies.add policy score)).recordScore policy.id score) := by
  have hscheduledAs : ∀ id old, world.scheduledAs id = some old →
      update world.scheduledAs policy.id (some score) id = some old := by
    intro id old hold
    have hne : id ≠ policy.id := by
      rintro rfl
      simp [hunscheduled] at hold
    simpa [update_of_ne hne] using hold
  refine ⟨⟨?_, ?_, ?_, ?_, hinv.queued⟩, ⟨fun _ _ h => h, fun _ _ h => h, hscheduledAs⟩, ?_⟩
  · intro id hid
    have hid' : world.creator id = none := hid
    have hne : id ≠ policy.id := by
      rintro rfl
      simp [hcreator] at hid'
    simpa [recordScore, setPolicies, update_of_ne hne] using hinv.fresh id hid'
  · intro entry hentry
    rcases SortedSet.mem_add.mp hentry with rfl | ⟨hold, -⟩
    · exact ⟨hpolicy, by simp [recordScore]⟩
    · obtain ⟨hentryPolicy, hentryScore⟩ := hinv.known entry hold
      exact ⟨hentryPolicy, hscheduledAs _ _ hentryScore⟩
  · exact fun id hpos => hscheduledAs _ _ (hinv.numbered id hpos)
  · exact fun pair hpair => hscheduledAs _ _ (hinv.removed pair hpair)
  · intro id hid
    have hne : id ≠ policy.id := by
      rintro rfl
      exact hid hcreator
    simp [recordScore, setPolicies, update_of_ne hne]

theorem link_step (info : StatsInfo) :
    PeriodInv (world.link info) ∧ PeriodGuar thread world (world.link info) := by
  unfold link
  split_ifs
  · exact ⟨hinv, .refl _, fun _ _ => rfl⟩
  · exact setExecutions_step hinv

omit hinv

theorem PeriodGuar.trans {a b c : PeriodWorld} (hab : PeriodGuar thread a b)
    (hcreator : b.creator = a.creator) (hbc : PeriodGuar thread b c) : PeriodGuar thread a c := by
  refine ⟨hab.grows.trans hbc.grows, fun id hid => ?_⟩
  rw [hbc.unscheduled id (by rwa [hcreator]), hab.unscheduled id hid]

theorem saveStats_step (hinv : PeriodInv world) {info : StatsInfo}
    (hpermitted : 0 < info.numericPID →
      world.scheduledAs info.jobID = some info.numericPID) :
    PeriodInv (world.saveStats info).1 ∧ PeriodGuar thread world (world.saveStats info).1 := by
  have hset : PeriodInv (world.setJob info.jobID _) ∧
      PeriodGuar thread world (world.setJob info.jobID _) :=
    setJob_step hinv ((@save_numericPID (world.jobs info.jobID) info world.clock).imp_right
      fun hsaved => by rwa [hsaved])
  obtain ⟨hlinked, hguar⟩ := link_step hset.1 info
  exact ⟨hlinked, hset.2.trans rfl hguar⟩

/-- A new policy gets an ID that was never used, or none at all. -/
theorem perform_newPolicy {created : Policy}
    (hperform : world.perform (.newPolicy thread policy) choice = some (after, created)) :
    (created.id = "" ∧ after = world) ∨
      (world.creator created.id = none ∧ after = world.recordPolicy thread created) := by
  by_cases hempty : choice.identifier = ""
  · simp only [perform, if_pos hempty] at hperform
    cases hperform
    exact .inl ⟨rfl, rfl⟩
  simp only [perform, if_neg hempty] at hperform
  by_cases hnew : world.creator choice.identifier = none
  · rw [if_pos hnew] at hperform
    cases hperform
    exact .inr ⟨hnew, rfl⟩
  · rw [if_neg hnew] at hperform
    cases hperform

theorem perform_step (hinv : PeriodInv world) {op : PeriodOp} {reply : PeriodReply op}
    (hpermitted : Permitted thread world op)
    (hperform : world.perform op choice = some (after, reply)) :
    PeriodInv after ∧ PeriodGuar thread world after := by
  have hsame : PeriodInv world ∧ PeriodGuar thread world world := ⟨hinv, .refl _, fun _ _ => rfl⟩
  cases op with
  | timeNow | loadPolicies | scheduledUntil | track | fireHook | getExecutions =>
    cases hperform
    exact hsame
  | newPolicy creator policy =>
    obtain rfl : creator = thread := hpermitted
    obtain ⟨-, rfl⟩ | ⟨hnew, rfl⟩ := perform_newPolicy hperform
    · exact hsame
    · exact newPolicy_step hinv hnew
  | drawScore =>
    simp only [perform] at hperform
    split_ifs at hperform
    cases hperform
    exact hsame
  | addPolicy policy score =>
    cases hperform
    exact addPolicy_step hinv hpermitted.1 hpermitted.2.1 hpermitted.2.2
  | removePolicies policyID numericID =>
    cases hperform
    exact removePolicies_step hinv hpermitted fun entry hentry => (SortedSet.mem_keep.mp hentry).1
  | saveStats info =>
    obtain rfl : (world.saveStats info).1 = after := congrArg Prod.fst (Option.some.inj hperform)
    exact saveStats_step hinv hpermitted
  | addScheduled job epoch =>
    cases hperform
    refine setScheduled_step hinv fun entry hentry => ?_
    rcases SortedSet.mem_add.mp hentry with rfl | ⟨hold, -⟩
    · exact .inr hpermitted
    · exact .inl hold
  | deleteScheduledJob runAt jobID | takeScheduled job =>
    cases hperform
    exact setScheduled_step hinv fun entry hentry => .inl (SortedSet.mem_keep.mp hentry).1
  | setStatus jobID status revision =>
    cases hperform
    exact setJob_step hinv (.inl setStatusScript_numericPID)
  | reset jobID =>
    cases hperform
    exact setJob_step hinv (.inl (statusResetScript_numericPID _ _ _))
  | expire jobID =>
    cases hperform
    exact setJob_step hinv (.inr fun hpos => by simp [JobKeys.info, JobKeys.intOr] at hpos)
  | executionDone policyID eID =>
    cases hperform
    split_ifs
    · exact setExecutions_step hinv
    · exact hsame

end Steps

/-! ## What an operation comes to -/

section Semantics

variable {thread : ℕ} {world after : PeriodWorld} {op : PeriodOp} {choice : PeriodChoice}
  {reply : PeriodReply op}

/-- Time passes, and the operation is refused or done; its own reply may be lost. -/
theorem periodSem_cases (hsem : periodSem world op choice = some (after, reply)) :
    world.clock ≤ choice.now ∧
      ((after = world.tick choice.now ∧ op.failure = some reply) ∨
        ∃ answer, (world.tick choice.now).perform op choice = some (after, answer) ∧
          (reply = answer ∨ op.failure = some reply)) := by
  unfold periodSem at hsem
  split_ifs at hsem with hclock
  refine ⟨hclock, ?_⟩
  split at hsem
  · next hfailure =>
    cases hsem
    exact .inl ⟨rfl, hfailure⟩
  · next hfailure =>
    obtain ⟨⟨done, answer⟩, hperform, hresult⟩ := Option.map_eq_some_iff.mp hsem
    cases hresult
    exact .inr ⟨answer, hperform, .inr hfailure⟩
  · exact .inr ⟨reply, hsem, .inl rfl⟩

theorem periodSem_step (hinv : PeriodInv world) (hpermitted : Permitted thread world op)
    (hsem : periodSem world op choice = some (after, reply)) :
    PeriodInv after ∧ PeriodGuar thread world after := by
  obtain ⟨-, ⟨rfl, -⟩ | ⟨answer, hperform, -⟩⟩ := periodSem_cases hsem
  · exact tick_step hinv choice.now
  · obtain ⟨hticked, hguar⟩ : PeriodInv (world.tick choice.now) ∧
        PeriodGuar thread world (world.tick choice.now) := tick_step hinv choice.now
    have hpermitted' : Permitted thread (world.tick choice.now) op := by
      cases op <;> exact hpermitted
    obtain ⟨hafter, hguar'⟩ := perform_step hticked hpermitted' hperform
    exact ⟨hafter, hguar.trans rfl hguar'⟩

end Semantics

end Harbor.Period
