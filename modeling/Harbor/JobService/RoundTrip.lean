import Harbor.JobService.Scripts

/-!
# Saving and loading job stats

`Save` and `retrieve` are two hand-written lists of fields.  `loadedStats` is
what `retrieve` makes of the hash that a save on an empty key leaves, and
`save_retrieve_iff` compares it with what was saved.

The optional properties are written under a test: a check-in time only together
with a check-in text, the time to die only if it is positive, the upstream job
only if its ID is not blank.  The acknowledgement is appended to the command as a
field name without a value, so stats that carry one, as restored schedules do,
are not stored at all: only the track entry is, and the save returns nil.
-/

namespace Harbor.JobService

variable {info : StatsInfo} {now : ℤ}

def StatsInfo.HasCheckIn (info : StatsInfo) : Prop :=
  0 < info.checkInAt ∧ ¬ isEmptyStr info.checkIn

instance (info : StatsInfo) : Decidable info.HasCheckIn :=
  inferInstanceAs (Decidable (_ ∧ _))

/-- The stats that are loaded after a save on an empty key. -/
def loadedStats (info : StatsInfo) (now : ℤ) : StatsInfo :=
  { info with
    checkIn := ""
    checkInAt := if info.HasCheckIn then info.checkInAt else 0
    dieAt := if 0 < info.dieAt then info.dieAt else 0
    upstreamJobID := if isEmptyStr info.upstreamJobID then "" else info.upstreamJobID
    parameters := if info.parameters = [] then [] else info.parameters
    updateTime := now
    revision := if 0 < info.revision then info.revision else now
    hookAck := none }

theorem retrieve_savedFields :
    retrieve ((({} : JobKeys).hmset (savedFields info now)).setTrack 2) =
      some (loadedStats info now) := by
  have hstats : ∀ field, ((({} : JobKeys).hmset (savedFields info now)).setTrack 2).stats field =
      _ := savedFields_stats {} info now
  rw [retrieve_eq, if_neg (by simp [Field.all, hstats])]
  simp only [JobKeys.info, JobKeys.textOr, JobKeys.intOr, JobKeys.boolOr, JobKeys.parametersOr,
    JobKeys.ack, hstats, loadedStats, StatsInfo.HasCheckIn, Option.some.injEq,
    StatsInfo.mk.injEq, true_and]
  refine ⟨?_, ?_, ?_, ?_⟩ <;> split_ifs <;> simp_all

/-! ## The round trip -/

/-- The loaded stats agree with the saved ones, where the revision is the first
one if none was set, and the update time is the time of the save. -/
structure SameStats (info loaded : StatsInfo) (now : ℤ) : Prop where
  jobID : loaded.jobID = info.jobID
  jobName : loaded.jobName = info.jobName
  jobKind : loaded.jobKind = info.jobKind
  isUnique : loaded.isUnique = info.isUnique
  status : loaded.status = info.status
  refLink : loaded.refLink = info.refLink
  enqueueTime : loaded.enqueueTime = info.enqueueTime
  updateTime : loaded.updateTime = now
  runAt : loaded.runAt = info.runAt
  checkInAt : loaded.checkInAt = info.checkInAt
  dieAt : loaded.dieAt = info.dieAt
  cronSpec : loaded.cronSpec = info.cronSpec
  webHookURL : loaded.webHookURL = info.webHookURL
  numericPID : loaded.numericPID = info.numericPID
  upstreamJobID : loaded.upstreamJobID = info.upstreamJobID
  revision : 0 < info.revision → loaded.revision = info.revision
  hookAck : loaded.hookAck = info.hookAck

/-- No acknowledgement is set, and the optional properties are either set in the
sense of the tests that `Save` makes or have their zero value. -/
structure StatsInfo.Storable (info : StatsInfo) : Prop where
  hookAck : info.hookAck = none
  checkInAt : info.checkInAt = 0 ∨ info.HasCheckIn
  dieAt : 0 ≤ info.dieAt
  upstreamJobID : info.upstreamJobID = "" ∨ ¬ isEmptyStr info.upstreamJobID

theorem sameStats_loadedStats_iff (hack : info.hookAck = none) :
    SameStats info (loadedStats info now) now ↔ info.Storable := by
  constructor
  · intro hsame
    refine ⟨hack, ?_, ?_, ?_⟩
    · have hcheckIn := hsame.checkInAt
      simp only [loadedStats] at hcheckIn
      split_ifs at hcheckIn with hhas
      · exact .inr hhas
      · exact .inl hcheckIn.symm
    · have hdieAt := hsame.dieAt
      simp only [loadedStats] at hdieAt
      split_ifs at hdieAt <;> omega
    · have hupstream := hsame.upstreamJobID
      simp only [loadedStats] at hupstream
      split_ifs at hupstream with hblank
      · exact .inl hupstream.symm
      · exact .inr hblank
  · intro hstorable
    have hdieAt := hstorable.dieAt
    refine ⟨rfl, rfl, rfl, rfl, rfl, rfl, rfl, rfl, rfl, ?_, ?_, rfl, rfl, rfl, ?_, ?_, hack.symm⟩
    · rcases hstorable.checkInAt with hzero | hhas
      · simp [loadedStats, hzero]
      · simp [loadedStats, hhas]
    · simp only [loadedStats]
      split_ifs <;> omega
    · rcases hstorable.upstreamJobID with hempty | hset
      · simp [loadedStats, hempty]
      · simp [loadedStats, hset]
    · intro hpos
      simp [loadedStats, hpos]

/-- Loading after a save on an empty key gives the same stats back if and only if
the stats carry no acknowledgement and no half-set property. -/
theorem save_retrieve_iff :
    (∃ loaded, retrieve (save {} info now) = some loaded ∧ SameStats info loaded now) ↔
      info.Storable := by
  rw [save_eq]
  by_cases hack : info.hookAck = none
  · rw [if_pos hack, retrieve_savedFields, ← @sameStats_loadedStats_iff info now hack]
    simp
  · rw [if_neg hack]
    refine iff_of_false ?_ fun hstorable => hack hstorable.hookAck
    rintro ⟨loaded, ⟨⟩, -⟩

/-! ## Restored schedules -/

/-- The stats that the schedule synchronizer saves for a schedule whose stats were
lost, for a task that has the given revision. -/
def restoredStats (jobID cron webHookURL : String) (numericID revision now : ℤ) : StatsInfo :=
  { jobID, jobName := "SCHEDULER", status := "Scheduled", jobKind := kindPeriodic, cronSpec := cron
    webHookURL, numericPID := numericID, enqueueTime := now, updateTime := now
    refLink := "/api/v1/jobs/" ++ jobID, revision
    hookAck := if 0 < revision then some ⟨"Scheduled", revision, 0⟩ else none }

/-- A restored schedule that was acknowledged before is tracked, but not stored. -/
theorem restored_schedule_not_stored :
    let info := restoredStats "5a1f" "0 0 * * * *" "http://core/service/notifications/tasks/3" 12 7
      20
    info.validate = .ok () ∧ (save {} info 20).track = some 2 ∧
      retrieve (save {} info 20) = none :=
  ⟨by decide, rfl, rfl⟩

end Harbor.JobService
