import Harbor.JobService.Tracking

/-!
# The time to live of job stats

Redis drops the stats of a job some time after the job reached a final status:
`SetStatusScript` sets a time to live together with a final status, a day for
`Success` and `Stopped` and a week for `Error`.  The script also has a branch
that makes the key persistent again, but it sits under the test for a final
status, where it is never reached, and `StatusResetScript`, which starts the job
over, does not touch the time to live either.

So nothing ever takes a time to live away.  The stats of a job that is not
final carry none as long as no status that is not final is written to a key
that already has one (`ttl_only_while_final`); a failed job that is retried
runs on a key that Redis will drop (`retried_job_expires`).
-/

namespace Harbor.JobService

open Harbor.Concurrency

/-! ## Writes -/

/-- What can happen to the stats key of a job.  `lapse` is Redis dropping the
key when its time to live has run out. -/
inductive StatsWrite
  | save (info : StatsInfo) (now : ℤ)
  | setStatus (args : SetStatusArgs)
  | hookAck (args : HookAckArgs)
  | reset (status : String) (now : ℤ)
  | update (fields : List (Field × Value)) (now : ℤ)
  | lapse

/-- The keys after a call that may fail; a call that fails changes nothing. -/
def JobKeys.orElse (keys : JobKeys) : Except String JobKeys → JobKeys
  | .ok written => written
  | .error _ => keys

def writeStep (keys : JobKeys) : StatsWrite → Option JobKeys
  | .save info now => some (save keys info now)
  | .setStatus args => some (setStatusScript keys args).1
  | .hookAck args => some (hookAckScript keys args).1
  | .reset status now => some (statusResetScript keys status now)
  | .update fields now => some (keys.orElse (updateStats keys fields now))
  | .lapse =>
    if keys.ttl.isSome then some { keys with stats := fun _ => none, ttl := none } else none

/-! ## When the time to live matches the status -/

/-- The key carries a time to live only while the stored status is final. -/
def JobKeys.ExpiresOnlyFinal (keys : JobKeys) : Prop :=
  keys.ttl.isSome → keys.Final

/-- While the key carries a time to live, no status is written that is not
final.  For `SetStatusScript` that is a matter of newer revisions only, as a
final status is not overwritten within its revision. -/
def KeepsExpiry (before : JobKeys) (write : StatsWrite) (_after : JobKeys) : Prop :=
  before.ttl.isSome →
    match write with
    | .save info _ => info.hookAck = none → stCode (some info.status) = 3
    | .setStatus args => before.revision < args.revision → stCode (some args.status) = 3
    | .reset status _ => stCode (some status) = 3
    | .update fields _ => ∀ value, (Field.status, value) ∈ fields →
        ∃ status, value = .text status ∧ stCode (some status) = 3
    | _ => True

section Steps

variable {keys : JobKeys} {fields : List (Field × Value)} {now : ℤ}

theorem Final.hmset (hfinal : keys.Final) (hfields : ∀ value, (Field.status, value) ∈ fields →
      ∃ status, value = .text status ∧ stCode (some status) = 3) : (keys.hmset fields).Final := by
  induction fields generalizing keys with
  | nil => exact hfinal
  | cons first rest ih =>
    rw [hmset_cons]
    refine ih ?_ fun value hmem => hfields value (List.mem_cons_of_mem _ hmem)
    obtain ⟨field, value⟩ := first
    by_cases hstatus : field = .status
    · subst hstatus
      obtain ⟨status, rfl, hcode⟩ := hfields value (by simp)
      simpa [JobKeys.Final, JobKeys.status] using hcode
    · simpa [JobKeys.Final, JobKeys.status, Ne.symm hstatus] using hfinal

variable (hexpires : keys.ExpiresOnlyFinal)
include hexpires

theorem ExpiresOnlyFinal.save {info : StatsInfo}
    (hkeeps : keys.ttl.isSome → info.hookAck = none → stCode (some info.status) = 3) :
    (save keys info now).ExpiresOnlyFinal := by
  intro httl
  rw [save_keeps.1] at httl
  by_cases hack : info.hookAck = none
  · rw [JobKeys.Final, (save_stored hack).1]
    exact hkeeps httl hack
  · rw [save_eq, if_neg hack]
    exact hexpires httl

theorem ExpiresOnlyFinal.setStatus {args : SetStatusArgs}
    (hkeeps : keys.ttl.isSome → keys.revision < args.revision → stCode (some args.status) = 3) :
    (setStatusScript keys args).1.ExpiresOnlyFinal := by
  by_cases haccepted : args.Accepted keys
  · intro httl
    show stCode (setStatusScript keys args).1.status = 3
    rw [setStatusScript_status_of_accepted haccepted]
    by_contra hnotFinal
    rw [setStatusScript_ttl_of_accepted haccepted, if_neg hnotFinal] at httl
    have hfinal := hexpires httl
    unfold JobKeys.Final at hfinal
    rcases haccepted with hnewer | ⟨-, hlt | hsame⟩
    · exact hnotFinal (hkeeps httl hnewer)
    · have hbound := stCode_le_three (some args.status)
      omega
    · exact hnotFinal (hsame ▸ hfinal)
  · rwa [setStatusScript_of_not_accepted haccepted]

theorem ExpiresOnlyFinal.update
    (hkeeps : keys.ttl.isSome → ∀ value, (Field.status, value) ∈ fields →
      ∃ status, value = .text status ∧ stCode (some status) = 3) :
    (keys.orElse (updateStats keys fields now)).ExpiresOnlyFinal := by
  unfold updateStats
  split_ifs with hempty
  · exact hexpires
  · intro httl
    refine Final.hmset (hexpires httl) ?_
    intro value hmem
    rcases List.mem_cons.mp hmem with hfirst | hrest
    · cases hfirst
    · exact hkeeps httl value hrest

theorem ExpiresOnlyFinal.step {write : StatsWrite} {after : JobKeys}
    (hstep : writeStep keys write = some after) (hkeeps : KeepsExpiry keys write after) :
    after.ExpiresOnlyFinal := by
  cases write with
  | save info now =>
    obtain rfl := Option.some.inj hstep
    exact ExpiresOnlyFinal.save hexpires hkeeps
  | setStatus args =>
    cases hstep
    exact ExpiresOnlyFinal.setStatus hexpires hkeeps
  | hookAck args =>
    cases hstep
    intro httl
    have hfinal := hexpires (by simpa using httl)
    simpa [JobKeys.Final] using hfinal
  | reset status now =>
    cases hstep
    intro httl
    simpa [JobKeys.Final] using hkeeps (by simpa using httl)
  | update fields now =>
    cases hstep
    exact ExpiresOnlyFinal.update hexpires hkeeps
  | lapse =>
    simp only [writeStep, Option.ite_none_right_eq_some, Option.some.injEq] at hstep
    obtain ⟨-, rfl⟩ := hstep
    exact fun httl => absurd httl (by simp)

end Steps

/-! ## Runs -/

/-- Over every sequence of writes to a stats key that starts out empty, the key
carries a time to live only while the stored status is final, as long as no
other status is written to a key that has one. -/
theorem ttl_only_while_final {writes : List StatsWrite} {final : JobKeys}
    (hkeeps : EveryStep writeStep KeepsExpiry {} writes)
    (hrun : exec writeStep {} writes = some final) : final.ttl.isSome → final.Final :=
  exec_invariant JobKeys.ExpiresOnlyFinal
    (fun _ _ _ hexpires hstep hkeep => ExpiresOnlyFinal.step hexpires hstep hkeep)
    (fun httl => absurd httl (by simp)) hkeeps hrun

theorem ttl_only_while_final_success :
    ∃ final, exec writeStep {} [.save enqueuedStats 7, .setStatus ⟨"Running", 7, 8⟩,
        .update [(.checkInAt, .int 9)] 9, .setStatus ⟨"Success", 7, 10⟩,
        .hookAck ⟨"Success", 7, 0⟩] = some final ∧
      final.ttl = some 86400 ∧ final.Final := by
  obtain ⟨final, hrun, httl⟩ : ∃ final, exec writeStep {} [.save enqueuedStats 7,
      .setStatus ⟨"Running", 7, 8⟩, .update [(.checkInAt, .int 9)] 9,
      .setStatus ⟨"Success", 7, 10⟩, .hookAck ⟨"Success", 7, 0⟩] = some final ∧
      final.ttl = some 86400 := ⟨_, rfl, by decide⟩
  refine ⟨final, hrun, httl, ttl_only_while_final ?_ hrun (by simp [httl])⟩
  iterate 4 refine everyStep_cons rfl (fun hsome => absurd hsome (by decide)) ?_
  exact everyStep_cons rfl (fun _ => trivial) trivial

/-- A job fails and is retried: it runs again while its stats expire. -/
theorem retried_job_expires :
    enqueuedStats.validate = .ok () ∧
    ∃ final, exec writeStep {} [.save enqueuedStats 7, .setStatus ⟨"Running", 7, 8⟩,
        .setStatus ⟨"Error", 7, 9⟩, .reset "Pending" 20, .setStatus ⟨"Running", 20, 21⟩] =
        some final ∧
      final.status = some "Running" ∧ final.ttl = some 604800 :=
  ⟨by decide, _, rfl, by decide, by decide⟩

end Harbor.JobService
