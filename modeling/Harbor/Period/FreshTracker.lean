import Harbor.JobService.StatusOrder
import Harbor.Period.Programs

/-!
# The tracker of a new job

`basicController.New` saves the stats of a job and returns a tracker for it.  If the stats have
no revision yet, `Save` stores the present time as the first one, but the stats in the tracker
keep the revision 0.  Every status change of the tracker is a compare-and-set with its revision,
and the script refuses a revision that is older than the stored one.  So the tracker cannot do
anything; that the enqueuer could not queue an execution is not recorded either.
-/

namespace Harbor.Period

open Harbor.Concurrency Harbor.JobService

/-- `basicController.New`, on what Redis has about the job: the stats of the tracker, and what
Redis has afterwards. -/
def controllerNew (keys : JobKeys) (info : StatsInfo) (now : ℤ) :
    Except String (StatsInfo × JobKeys) :=
  match info.validate with
  | .error err => .error s!"error occurred when creating job tracker: {err}"
  | .ok () => .ok (info, save keys info now)

/-- The statuses that `Run`, `Stop`, `Fail` and `Succeed` set. -/
def trackerTargets : List Status :=
  [.running, .stopped, .error, .success]

/-- The tracker with these stats can make every change to a status with a greater code. -/
def Drives (tracker : StatsInfo) (keys : JobKeys) : Prop :=
  ∀ target ∈ trackerTargets, ∀ time, stCode keys.status < stCode (some target.text) →
    (setStatusScript keys ⟨target.text, tracker.revision, time⟩).2 = some "ok" ∧
      (setStatusScript keys ⟨target.text, tracker.revision, time⟩).1.status = some target.text

section New

variable {keys saved : JobKeys} {info tracker : StatsInfo} {now : ℤ}

theorem controllerNew_eq_ok (hnew : controllerNew keys info now = .ok (tracker, saved)) :
    tracker = info ∧ validateStatus info.status ∧ save keys info now = saved := by
  unfold controllerNew at hnew
  cases hvalid : info.validate with
  | error err => simp [hvalid] at hnew
  | ok =>
    simp only [hvalid, Except.ok.injEq, Prod.mk.injEq] at hnew
    obtain ⟨rfl, rfl⟩ := hnew
    refine ⟨rfl, ?_, rfl⟩
    unfold StatsInfo.validate at hvalid
    split_ifs at hvalid with _ _ _ _ hstatus
    simpa using hstatus

/-- With the stored revision, the script accepts every greater code. -/
theorem drives_of_revision_eq (hrevision : tracker.revision = keys.revision) :
    Drives tracker keys := by
  intro target _ time hcode
  have haccepted : SetStatusArgs.Accepted ⟨target.text, tracker.revision, time⟩ keys :=
    (accepted_iff_of_revision_eq hrevision).mpr (.inl hcode)
  exact ⟨setStatusScript_reply_of_accepted haccepted, setStatusScript_status_of_accepted haccepted⟩

/-- With an older one, it accepts nothing, so there must be nothing to ask for. -/
theorem final_of_drives (hrevision : tracker.revision < keys.revision)
    (hdrives : Drives tracker keys) : keys.Final := by
  have hbound := stCode_le_three keys.status
  by_contra hfinal
  have hcode : stCode keys.status < stCode (some Status.error.text) :=
    Nat.lt_of_le_of_ne hbound hfinal
  have hrefused : ¬ SetStatusArgs.Accepted ⟨Status.error.text, tracker.revision, 0⟩ keys := by
    rintro (hnewer | ⟨hsame, -⟩)
    · exact lt_asymm hrevision hnewer
    · exact hrevision.ne' hsame
  have hstatus := (hdrives .error (by decide) 0 hcode).2
  rw [setStatusScript_of_not_accepted hrefused] at hstatus
  rw [hstatus] at hcode
  exact lt_irrefl _ hcode

theorem drives_of_final (hfinal : keys.Final) : Drives tracker keys := by
  intro target _ time hcode
  have hbound := stCode_le_three (some target.text)
  unfold JobKeys.Final at hfinal
  omega

theorem final_iff_of_status_eq {status : String} (hstatus : keys.status = some status)
    (hvalid : validateStatus status) : keys.Final ↔ statusFinal status := by
  obtain ⟨known, rfl⟩ := exists_status_of_validateStatus hvalid
  have hcode := stCode_text known
  unfold JobKeys.Final statusFinal
  rw [hstatus, statusCode_text, decide_eq_true_iff]
  omega

end New

/-- The tracker of a new job without an acknowledgement can change the status of the job if and
only if the stats came with a revision, or with a final status. -/
theorem newTracker_drives_iff {keys saved : JobKeys} {info tracker : StatsInfo} {now : ℤ}
    (hnow : 0 < now) (hack : info.hookAck = none)
    (hnew : controllerNew keys info now = .ok (tracker, saved)) :
    Drives tracker saved ↔ 0 < info.revision ∨ statusFinal info.status := by
  obtain ⟨rfl, hvalid, rfl⟩ := controllerNew_eq_ok hnew
  obtain ⟨hstatus, hrevision⟩ := @save_stored keys tracker now hack
  rw [← final_iff_of_status_eq hstatus hvalid]
  by_cases hset : 0 < tracker.revision
  · rw [if_pos hset] at hrevision
    exact iff_of_true (drives_of_revision_eq hrevision.symm) (.inl hset)
  · rw [if_neg hset] at hrevision
    rw [or_iff_right hset]
    exact ⟨final_of_drives (by omega), drives_of_final⟩

/-- The stats of an execution that is scheduled again with the revision it had. -/
def revisedStats : StatsInfo :=
  let policy : Policy := { id := "5a", jobName := "SCAN_ALL", cronSpec := "0 0 0 * * *" }
  { createExecution policy 86400 86300 with revision := 7 }

theorem newTracker_drives_revised :
    ∃ saved, controllerNew {} revisedStats 86300 = .ok (revisedStats, saved) ∧
      Drives revisedStats saved := by
  obtain ⟨saved, hnew⟩ : ∃ saved, controllerNew {} revisedStats 86300 =
      .ok (revisedStats, saved) := ⟨_, rfl⟩
  exact ⟨saved, hnew, (newTracker_drives_iff (by decide) rfl hnew).mpr (.inl (by decide))⟩

/-- The execution is saved, putting it into the queue fails, and the `Fail` that follows is
refused. -/
theorem failed_execution_stays_scheduled :
    let policy : Policy := { id := "5a", jobName := "SCAN_ALL", cronSpec := "0 0 0 * * *" }
    ∃ final : Pool PeriodWorld PeriodOp PeriodReply Unit Bool,
      exec (Pool.step periodSem) ⟨{}, fun _ => enqueueExecution policy 86400⟩
        [((), { now := 86300 }), ((), { now := 86300 }),
          ((), { now := 86300, delivery := .refused }), ((), { now := 86300 })] = some final ∧
      final.threads () = .ret false ∧
      (final.world.jobs (executionID "5a" 86400)).revision = 86300 ∧
      (final.world.jobs (executionID "5a" 86400)).status = some Status.scheduled.text :=
  ⟨_, rfl, rfl, rfl, rfl⟩

end Harbor.Period
