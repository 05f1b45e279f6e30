import Harbor.Concurrency.Transition
import Harbor.JobService.Scripts

/-!
# The in-progress track entry

The reaper scans the in-progress track hash for jobs whose last status hook may
have been missed.  `Save` and `StatusResetScript` put the count `2` there, one
for the final status and one for its acknowledgement, and both `SetStatusScript`
and `HookAckScript` take one count away when they carry a final status.  Each of
them accepts a repetition, and a repetition takes a count away as well.

`TrackState` keeps, beside the keys of the job, the acknowledgements that were
recorded since the stats were last saved or reset.  As long as no status is set
over a final one and no final acknowledgement is ahead of the stored revision,
the entry outlives the wait for the acknowledgement
(`final_unacked_tracked`); a final status that is set twice removes it.
-/

namespace Harbor.JobService

open Harbor.Concurrency

/-! ## Calls -/

/-- The keys of one job and the acknowledgements recorded for it. -/
structure TrackState where
  keys : JobKeys := {}
  acks : List HookAckArgs := []

variable (state : TrackState)

/-- A final acknowledgement is recorded for the stored revision. -/
def TrackState.Acked : Prop :=
  ∃ ack ∈ state.acks, stCode (some ack.status) = 3 ∧ ack.revision = state.keys.revision

instance (state : TrackState) : Decidable state.Acked :=
  inferInstanceAs (Decidable (∃ ack ∈ state.acks, _))

/-- The calls that change what Redis holds about a job. -/
inductive Call
  | save (info : StatsInfo) (now : ℤ)
  | setStatus (args : SetStatusArgs)
  | hookAck (args : HookAckArgs)
  | reset (status : String) (now : ℤ)

def callStep : Call → Option TrackState
  | .save info now => some { keys := save state.keys info now }
  | .setStatus args => some { state with keys := (setStatusScript state.keys args).1 }
  | .hookAck args => some
      { keys := (hookAckScript state.keys args).1
        acks := if args.Accepted state.keys then args :: state.acks else state.acks }
  | .reset status now => some { keys := statusResetScript state.keys status now }

/-! ## When the entry is kept -/

/-- While no final acknowledgement is recorded, no status is set over a final
one, and a final acknowledgement is for the stored revision. -/
def KeepsCount (before : TrackState) (call : Call) (_after : TrackState) : Prop :=
  ¬ before.Acked →
    match call with
    | .setStatus args => args.Accepted before.keys → ¬ before.keys.Final
    | .hookAck args => args.Accepted before.keys → stCode (some args.status) = 3 →
        args.revision = before.keys.revision
    | _ => True

/-- What is left of the count while the acknowledgement is missing: one count
for it, and one more until the status is final. -/
def CountLeft : Prop :=
  ¬ state.Acked →
    1 ≤ state.keys.track.getD 0 ∧ (¬ state.keys.Final → 2 ≤ state.keys.track.getD 0)

theorem countLeft_of_track_eq_two {state : TrackState} (htrack : state.keys.track = some 2) :
    CountLeft state := by
  intro _
  simp [htrack]

theorem CountLeft.tracked {state : TrackState} (hleft : CountLeft state)
    (hunacked : ¬ state.Acked) : state.keys.track.isSome := by
  have hcount := (hleft hunacked).1
  cases htrack : state.keys.track with
  | none => simp [htrack] at hcount
  | some count => rfl

theorem releaseTrack_getD {keys : JobKeys} (hcount : 2 ≤ keys.track.getD 0) :
    1 ≤ keys.releaseTrack.track.getD 0 := by
  have hpos : ¬ keys.track.getD 0 - 1 ≤ 0 := by omega
  simp only [JobKeys.releaseTrack, hpos, if_false, Option.getD_some]
  omega

section Steps

variable {state : TrackState}

theorem CountLeft.setStatus {args : SetStatusArgs} (hleft : CountLeft state)
    (hkeeps : ¬ state.Acked → args.Accepted state.keys → ¬ state.keys.Final) :
    CountLeft { state with keys := (setStatusScript state.keys args).1 } := by
  by_cases haccepted : args.Accepted state.keys
  · intro hunacked
    have hbefore : ¬ state.Acked := by simpa [TrackState.Acked] using hunacked
    have htwo := (hleft hbefore).2 (hkeeps hbefore haccepted)
    simp only [JobKeys.Final, setStatusScript_track_of_accepted haccepted,
      setStatusScript_status_of_accepted haccepted]
    split_ifs with hfinal
    · exact ⟨releaseTrack_getD htwo, fun hnot => absurd hfinal hnot⟩
    · exact ⟨by omega, fun _ => htwo⟩
  · rwa [setStatusScript_of_not_accepted haccepted]

theorem CountLeft.hookAck {args : HookAckArgs} (hleft : CountLeft state)
    (hkeeps : ¬ state.Acked → args.Accepted state.keys → stCode (some args.status) = 3 →
      args.revision = state.keys.revision) :
    CountLeft { keys := (hookAckScript state.keys args).1,
                acks := if args.Accepted state.keys then args :: state.acks else state.acks } := by
  by_cases haccepted : args.Accepted state.keys
  · rw [if_pos haccepted]
    intro hunacked
    have hbefore : ¬ state.Acked := by
      rintro ⟨ack, hmem, hack⟩
      exact hunacked ⟨ack, List.mem_cons_of_mem _ hmem, by simpa using hack⟩
    -- a final acknowledgement for the stored revision would now be recorded
    have hnotFinal : stCode (some args.status) ≠ 3 := fun hfinal =>
      hunacked ⟨args, List.mem_cons_self, hfinal, by
        simpa using hkeeps hbefore haccepted hfinal⟩
    simpa [hookAckScript_track_of_accepted haccepted, hnotFinal, JobKeys.Final] using hleft hbefore
  · rw [if_neg haccepted, hookAckScript_of_not_accepted haccepted]
    exact hleft

theorem CountLeft.step {call : Call} {after : TrackState} (hleft : CountLeft state)
    (hstep : callStep state call = some after) (hkeeps : KeepsCount state call after) :
    CountLeft after := by
  cases call with
  | save info now =>
    simp only [callStep, Option.some.injEq] at hstep
    subst hstep
    exact countLeft_of_track_eq_two (save_track state.keys info now)
  | setStatus args =>
    simp only [callStep, Option.some.injEq] at hstep
    subst hstep
    exact hleft.setStatus hkeeps
  | hookAck args =>
    simp only [callStep, Option.some.injEq] at hstep
    subst hstep
    exact hleft.hookAck hkeeps
  | reset status now =>
    simp only [callStep, Option.some.injEq] at hstep
    subst hstep
    exact countLeft_of_track_eq_two (statusResetScript_track _ _ _)

end Steps

/-- After a save, a job that is final and not acknowledged has its entry in the
track hash, as long as every call keeps the count. -/
theorem final_unacked_tracked {keys saved : JobKeys} {info : StatsInfo} {now : ℤ}
    {calls : List Call} {final : TrackState} (hsave : save keys info now = saved)
    (hkeeps : EveryStep callStep KeepsCount { keys := saved } calls)
    (hrun : exec callStep { keys := saved } calls = some final) :
    final.keys.Final → ¬ final.Acked → final.keys.track.isSome := by
  intro _ hunacked
  have hleft : CountLeft final :=
    exec_invariant CountLeft (fun _ _ _ hleft hstep hkeep => hleft.step hstep hkeep)
      (countLeft_of_track_eq_two (hsave ▸ save_track keys info now)) hkeeps hrun
  exact hleft.tracked hunacked

/-- The stats of a generic job that was just enqueued. -/
def enqueuedStats : StatsInfo :=
  { jobID := "5a1f", status := "Pending", jobName := "REPLICATION", jobKind := "Generic"
    enqueueTime := 7 }

theorem final_unacked_tracked_success :
    ∃ saved final, save {} enqueuedStats 7 = saved ∧
      exec callStep { keys := saved } [.setStatus ⟨"Running", 7, 8⟩, .setStatus ⟨"Success", 7, 9⟩] =
        some final ∧
      final.keys.Final ∧ ¬ final.Acked ∧ final.keys.track.isSome := by
  refine ⟨_, _, rfl, rfl, by decide, by decide, ?_⟩
  refine @final_unacked_tracked {} _ enqueuedStats 7
    [.setStatus ⟨"Running", 7, 8⟩, .setStatus ⟨"Success", 7, 9⟩] _ rfl ?_ rfl
    (by decide) (by decide)
  rintro _ ⟨⟩
  refine ⟨fun _ _ => by decide, ?_⟩
  rintro _ ⟨⟩
  exact ⟨fun _ _ => by decide, trivial⟩

/-- A final status that is set twice, as a retry may do, uses up both counts. -/
theorem success_twice_untracked :
    enqueuedStats.validate = .ok () ∧
    ∃ final, exec callStep {} [.save enqueuedStats 7, .setStatus ⟨"Running", 7, 8⟩,
        .setStatus ⟨"Success", 7, 9⟩, .setStatus ⟨"Success", 7, 9⟩] = some final ∧
      final.keys.Final ∧ ¬ final.Acked ∧ final.keys.track = none :=
  ⟨by decide, _, rfl, by decide, by decide, rfl⟩

end Harbor.JobService
