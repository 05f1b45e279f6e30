import Harbor.Concurrency.Transition
import Harbor.JobService.Scripts

/-!
# Status changes within a revision are linear

Trackers, the retry loop of the life cycle controller and the reaper all change
a status through `SetStatusScript`, and nothing orders them.  As long as they
carry the revision that is stored, the script orders them: the stored code only
grows, the first final status stays, and the reply tells the caller whether the
stored status is the one it asked for.
-/

namespace Harbor.JobService

open Harbor.Concurrency

variable {keys : JobKeys} {args : SetStatusArgs}

/-! ## One call -/

variable (hrevision : args.revision = keys.revision)
include hrevision

theorem accepted_iff_of_revision_eq :
    args.Accepted keys ↔
      stCode keys.status < stCode (some args.status) ∨ keys.status = some args.status := by
  simp [SetStatusArgs.Accepted, hrevision]

theorem setStatusScript_stCode_le :
    stCode keys.status ≤ stCode (setStatusScript keys args).1.status := by
  by_cases haccepted : args.Accepted keys
  · rw [setStatusScript_status_of_accepted haccepted]
    rcases (accepted_iff_of_revision_eq hrevision).mp haccepted with hlt | heq
    · exact hlt.le
    · rw [heq]
  · rw [setStatusScript_of_not_accepted haccepted]

/-- No code is above that of a final status, so only the same one is accepted again. -/
theorem setStatusScript_status_of_final (hfinal : keys.Final) :
    (setStatusScript keys args).1.status = keys.status := by
  by_cases haccepted : args.Accepted keys
  · rw [setStatusScript_status_of_accepted haccepted]
    rcases (accepted_iff_of_revision_eq hrevision).mp haccepted with hlt | heq
    · have hbound := stCode_le_three (some args.status)
      unfold JobKeys.Final at hfinal
      omega
    · exact heq.symm
  · rw [setStatusScript_of_not_accepted haccepted]

/-- A refused call replies with the stored status, so `ok` must not be one. -/
theorem setStatusScript_reply_eq_ok_iff (hstored : keys.status ≠ some "ok") :
    (setStatusScript keys args).2 = some "ok" ↔
      (setStatusScript keys args).1.status = some args.status := by
  by_cases haccepted : args.Accepted keys
  · simp [setStatusScript_reply_of_accepted haccepted,
      setStatusScript_status_of_accepted haccepted]
  · have hne : keys.status ≠ some args.status := fun heq =>
      haccepted ((accepted_iff_of_revision_eq hrevision).mpr (.inr heq))
    simp [setStatusScript_of_not_accepted haccepted, hstored, hne]

theorem setStatusScript_status_ne_ok (hstored : keys.status ≠ some "ok") :
    (setStatusScript keys args).1.status ≠ some "ok" := by
  by_cases haccepted : args.Accepted keys
  · rw [setStatusScript_status_of_accepted haccepted]
    rcases (accepted_iff_of_revision_eq hrevision).mp haccepted with hlt | heq
    · rintro hok
      have hzero : stCode (some "ok") = 0 := by decide
      rw [hok, hzero] at hlt
      omega
    · rwa [← heq]
  · rwa [setStatusScript_of_not_accepted haccepted]

omit hrevision

/-! ## Runs of calls -/

def setStatusStep (keys : JobKeys) (args : SetStatusArgs) : Option JobKeys :=
  some (setStatusScript keys args).1

/-- What a call within the stored revision does to the status. -/
structure LinearStep (before : JobKeys) (args : SetStatusArgs) (after : JobKeys) : Prop where
  code_le : stCode before.status ≤ stCode after.status
  final_kept : before.Final → after.status = before.status
  ok_iff : (setStatusScript before args).2 = some "ok" ↔ after.status = some args.status

theorem setStatusStep_linear {after : JobKeys} (hrevision : args.revision = keys.revision)
    (hstored : keys.status ≠ some "ok") (hstep : setStatusStep keys args = some after) :
    LinearStep keys args after := by
  obtain rfl : (setStatusScript keys args).1 = after := by simpa [setStatusStep] using hstep
  exact ⟨setStatusScript_stCode_le hrevision, setStatusScript_status_of_final hrevision,
    setStatusScript_reply_eq_ok_iff hrevision hstored⟩

/-- How the keys of a job relate to those at the start of a run within one revision. -/
structure LinearSince (start keys : JobKeys) : Prop where
  revision_eq : keys.revision = start.revision
  status_ne_ok : keys.status ≠ some "ok"
  code_le : stCode start.status ≤ stCode keys.status
  final_kept : start.Final → keys.status = start.status

theorem LinearSince.step {start after : JobKeys} (hsince : LinearSince start keys)
    (hrevision : args.revision = start.revision) (hstep : setStatusStep keys args = some after) :
    LinearSince start after ∧ LinearStep keys args after := by
  have hargs : args.revision = keys.revision := hrevision.trans hsince.revision_eq.symm
  have hlinear := setStatusStep_linear hargs hsince.status_ne_ok hstep
  obtain rfl : (setStatusScript keys args).1 = after := by simpa [setStatusStep] using hstep
  refine ⟨⟨?_, setStatusScript_status_ne_ok hargs hsince.status_ne_ok,
    hsince.code_le.trans hlinear.code_le, fun hfinal => ?_⟩, hlinear⟩
  · simpa using hsince.revision_eq
  · have hsame := hsince.final_kept hfinal
    have hkeys : keys.Final := by rwa [JobKeys.Final, hsame]
    rw [hlinear.final_kept hkeys, hsame]

/-- For calls with the stored revision, in any order and with any repetition,
each of them is linear, and so is the run as a whole. -/
theorem setStatus_calls_linear {final : JobKeys} {calls : List SetStatusArgs}
    (hstored : keys.status ≠ some "ok") (hrevision : ∀ args ∈ calls, args.revision = keys.revision)
    (hrun : exec setStatusStep keys calls = some final) :
    EveryStep setStatusStep LinearStep keys calls ∧
      stCode keys.status ≤ stCode final.status ∧
      (keys.Final → final.status = keys.status) := by
  have hstart : LinearSince keys keys := ⟨rfl, hstored, le_rfl, fun _ => rfl⟩
  have hsteps : EveryStep setStatusStep (fun _ args _ => args.revision = keys.revision)
      keys calls := everyStep_of_forall_mem hrevision keys
  have hfinal : LinearSince keys final :=
    exec_invariant _ (fun _ _ _ hsince hstep hargs => (hsince.step hargs hstep).1)
      hstart hsteps hrun
  refine ⟨everyStep_of_invariant (LinearSince keys) ?_ hstart hsteps,
    hfinal.code_le, hfinal.final_kept⟩
  intro before args after hsince hstep hargs
  exact hsince.step hargs hstep

theorem setStatus_calls_linear_stop_before_success :
    ∃ final, exec setStatusStep (statusResetScript {} "Running" 7)
        [⟨"Stopped", 7, 8⟩, ⟨"Success", 7, 9⟩, ⟨"Stopped", 7, 9⟩] = some final ∧
      EveryStep setStatusStep LinearStep (statusResetScript {} "Running" 7)
        [⟨"Stopped", 7, 8⟩, ⟨"Success", 7, 9⟩, ⟨"Stopped", 7, 9⟩] ∧
      2 ≤ stCode final.status ∧ final.status = some "Stopped" := by
  refine ⟨_, rfl, ?_⟩
  obtain ⟨hsteps, hcode, -⟩ := @setStatus_calls_linear (statusResetScript {} "Running" 7) _
    [⟨"Stopped", 7, 8⟩, ⟨"Success", 7, 9⟩, ⟨"Stopped", 7, 9⟩] (by decide) (by decide) rfl
  exact ⟨hsteps, hcode, rfl⟩

end Harbor.JobService
