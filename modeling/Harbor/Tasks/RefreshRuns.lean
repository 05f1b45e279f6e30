import Harbor.Tasks.RefreshPrograms

/-!
# Runs with refreshes, status hooks and scans

Any number of actors run against the tables and the outdated set, in any order.

* **Convergence.**  When every task update was followed by a refresh that has
  returned without error, the stored status is the aggregate
  (`status_converges`).  This holds in every run.
* **Reports.**  Each change of the status is reported once, provided that no
  statement which sets the end time fails right after a change
  (`refreshes_converge`): `RefreshStatus` returns the error then and says nothing
  about the change, and a later call finds the status in place.
* **Asynchronous mode.**  No update is lost, provided that no scan pops an
  execution between the `SADD` and the `COMMIT` of a status hook
  (`scans_lose_no_update`).  Such a scan computes the status without the update
  and takes the only trace of it away.
-/

namespace Harbor.Tasks

open Harbor.Concurrency Harbor.JobService Function Pool

section Runs

variable {mode : Mode} {id : ℤ} {world : TaskWorld} {actors : ℕ → Actor}
  {actions : List (ℕ × RefreshChoice)} {final : TaskPool}

/-- A record with nothing in it agrees with a stored status that is the aggregate. -/
theorem BasisInv.initial (hfresh : world.audit id = {}) (hconsistent : world.Consistent id) :
    BasisInv id world := by
  constructor <;> simp [hfresh, hconsistent]

theorem ReportInv.initial (hfresh : world.audit id = {}) : ReportInv id world := by
  constructor <;> simp [hfresh]

theorem refreshInv_exec (hinv : RefreshInv mode id world) (hfresh : world.audit id = {})
    (hactors : ∀ thread, (actors thread).InMode mode)
    (hallowed : EveryStep (Pool.step refreshSem) (Pool.Admits (RefreshAllowed mode id))
      (taskPool world actors) actions)
    (hrun : exec (Pool.step refreshSem) (taskPool world actors) actions = some final) :
    RefreshInv mode id final.world := by
  have hsecured : Pool.IsSecured refreshSem (RefreshAllowed mode id) (RefreshInv mode id)
      (RefreshRely mode id) (RefreshGuar mode id) (fun _ _ _ => True) (taskPool world actors) := by
    refine ⟨hinv, fun thread => Actor.program_safe (hactors thread) hinv ?_ ?_⟩
    · show (world.audit id).calls thread = none
      rw [hfresh]
    · show (world.audit id).held thread = none
      rw [hfresh]
  exact (secured_exec refresh_compatible hsecured hallowed hrun).1

/-! ## Convergence and reports -/

/-- **Convergence.**  Once every task update was followed by a refresh without
error, the status is the aggregate. -/
theorem status_converges (hfresh : world.audit id = {}) (hconsistent : world.Consistent id)
    (hrun : exec (Pool.step refreshSem) (taskPool world actors) actions = some final)
    (hcovered : (final.world.audit id).covered = (final.world.audit id).updates) :
    final.world.Consistent id := by
  have hinv : RefreshInv ⟨False, False⟩ id final.world := by
    refine refreshInv_exec ⟨.initial hfresh hconsistent, False.elim, False.elim⟩ hfresh
      (fun thread => ?_) ?_ hrun
    · cases actors thread <;> simp [Actor.InMode]
    · exact (everyStep_true _ _).mono fun _ _ _ _ _ _ => ⟨False.elim, False.elim⟩
  rcases hinv.basis.covered hcovered with hcurrent | hnone
  · exact hinv.basis.current hcurrent
  · intro row status _ hstatus
    simp [hnone] at hstatus

/-- **Convergence and reports.**  If no statement that sets the end time fails in a
call that has just changed the status, then, with no call in progress, the status
is the aggregate once every update was followed by a refresh without error, and
each change was reported exactly once. -/
theorem refreshes_converge (hfresh : world.audit id = {}) (hconsistent : world.Consistent id)
    (hkept : EveryStep (Pool.step refreshSem) (Pool.Admits (EndTimeKept id))
      (taskPool world actors) actions)
    (hrun : exec (Pool.step refreshSem) (taskPool world actors) actions = some final)
    (hidle : ∀ thread, Idle id thread final.world) :
    ((final.world.audit id).covered = (final.world.audit id).updates →
        final.world.Consistent id) ∧
      (final.world.audit id).reports.Perm (final.world.audit id).changes := by
  refine ⟨status_converges hfresh hconsistent hrun, ?_⟩
  have hinv : RefreshInv ⟨True, False⟩ id final.world := by
    refine refreshInv_exec ⟨.initial hfresh hconsistent, fun _ => .initial hfresh, False.elim⟩
      hfresh (fun thread => ?_) ?_ hrun
    · cases actors thread <;> simp [Actor.InMode]
    · exact hkept.mono fun _ _ _ hadmits op hop => ⟨fun _ => hadmits op hop, False.elim⟩
  have hreport := hinv.report trivial
  refine (List.perm_ext_iff_of_nodup hreport.reports_nodup hreport.changes_nodup).mpr
    fun change => ⟨hreport.reports_subset change, fun hchange => ?_⟩
  refine (hreport.accounted change hchange).resolve_right ?_
  rintro ⟨thread, howed⟩
  exact hreport.owed_called thread (by simp [howed]) (hidle thread)

/-- An execution with one running task. -/
def runningWorld : TaskWorld where
  tasks := [{ id := 1, executionID := 1, vendorType := "SCAN", jobID := "5a1f"
              status := Status.running.text, statusCode := 2, statusRevision := 7 }]
  executions := fun id =>
    if id = 1 then some { vendorType := "SCAN", status := Status.running.text } else none

theorem runningWorld_consistent : runningWorld.Consistent 1 := by
  intro row status hrow hstatus
  cases hrow
  cases hstatus
  rfl

/-- The task succeeds, and the others refresh the execution. -/
def succeedAndRefresh : ℕ → Actor
  | 0 => .write (.setStatus 1 Status.success.text 7 100)
  | _ => .refresh 1

/-- Steps of one thread in which nothing fails. -/
def goodSteps (thread count : ℕ) : List (ℕ × RefreshChoice) :=
  List.replicate count (thread, {})

/-- One refresh after the update: the status is `Success`, and that was reported. -/
theorem refreshes_converge_after_update :
    ∃ final, exec (Pool.step refreshSem) (taskPool runningWorld succeedAndRefresh)
        (goodSteps 0 1 ++ goodSteps 1 6) = some final ∧
      (final.world.audit 1).changes = [⟨1, Status.success.text⟩] ∧
      final.world.Consistent 1 ∧
      (final.world.audit 1).reports.Perm (final.world.audit 1).changes := by
  have hkept : EveryStep (step refreshSem) (Pool.Admits (EndTimeKept 1))
      (taskPool runningWorld succeedAndRefresh) (goodSteps 0 1 ++ goodSteps 1 6) := by
    refine everyStep_cons rfl (admits_of_nextOp rfl trivial) ?_
    iterate 4 refine everyStep_cons rfl (admits_of_nextOp rfl trivial) ?_
    refine everyStep_cons rfl (admits_of_nextOp rfl fun _ hfailure => ?_) ?_
    · cases hfailure
    refine everyStep_cons rfl (admits_of_nextOp rfl trivial) ?_
    trivial
  obtain ⟨hconsistent, hreports⟩ := refreshes_converge rfl runningWorld_consistent hkept rfl
    fun thread => by
      show update (update (fun _ => none) 1 (some 1)) 1 none thread = none
      simp only [update_apply]
      split_ifs <;> rfl
  exact ⟨_, rfl, rfl, hconsistent rfl, hreports⟩

/-- The task succeeds.  A first refresh stores the status `Success` and fails to set the
end time, so it returns an error; a second one finds the status in place and reports
no change. -/
theorem change_not_reported :
    ∃ final, exec (Pool.step refreshSem) (taskPool runningWorld succeedAndRefresh)
        (goodSteps 0 1 ++ goodSteps 1 4 ++ [(1, { failure := true })] ++ goodSteps 1 1 ++
          goodSteps 2 6) = some final ∧
      (∀ thread, Idle 1 thread final.world) ∧
      (final.world.audit 1).covered = (final.world.audit 1).updates ∧
      (final.world.audit 1).changes = [⟨1, Status.success.text⟩] ∧
      (final.world.audit 1).reports = [] := by
  refine ⟨_, rfl, fun thread => ?_, rfl, rfl, rfl⟩
  show update (update (update (update (fun _ => none)
    1 (some 1)) 1 none) 2 (some 1)) 2 none thread = none
  simp only [update_apply]
  split_ifs <;> rfl

/-! ## The asynchronous mode -/

/-- **No update is lost.**  If no scan pops the execution while a transaction that has
added it is open, it is never added without a vendor type, and what a scan could not
refresh is put back, then the status is the aggregate of the committed task statuses
whenever the execution is not in the set and no scan is in progress. -/
theorem scans_lose_no_update (hfresh : world.audit id = {}) (hconsistent : world.Consistent id)
    (hrow : ∃ row, world.executions id = some row) (hids : (world.tasks.map TaskRow.id).Nodup)
    (hvendor : ∀ member ∈ world.outdated, member.id = id → member.vendor ≠ "")
    (hclosed : ∀ thread, world.transactions thread = none)
    (hactors : ∀ thread statement, actors thread ≠ .write statement)
    (hkept : EveryStep (Pool.step refreshSem) (Pool.Admits (MarkersKept id))
      (taskPool world actors) actions)
    (hrun : exec (Pool.step refreshSem) (taskPool world actors) actions = some final)
    (hempty : ∀ member ∈ final.world.outdated, member.id ≠ id)
    (hscans : ∀ thread, final.world.scans thread = false) : final.world.Consistent id := by
  have hmark : MarkInv id world := by
    refine ⟨hrow, hids, hvendor, ?_, ?_, ?_, ?_⟩
    · simp [hfresh]
    · intro thread tx htx
      simp [hclosed thread] at htx
    · simp [hfresh]
    · simp [hfresh]
  have hinv : RefreshInv ⟨False, True⟩ id final.world := by
    refine refreshInv_exec ⟨.initial hfresh hconsistent, False.elim, fun _ => hmark⟩ hfresh
      (fun thread => ?_) ?_ hrun
    · have hactor := hactors thread
      cases hthread : actors thread with
      | write statement => exact absurd hthread (hactor statement)
      | _ => trivial
    · exact hkept.mono fun _ _ _ hadmits op hop => ⟨False.elim, fun _ => hadmits op hop⟩
  rcases hinv.basis.basis_le.eq_or_lt with hcurrent | hstale
  · exact hinv.basis.current hcurrent
  · intro row status hrow hstatus
    rcases (hinv.mark trivial).marked hstale (by simp [hstatus]) with
      ⟨member, hmem, hid⟩ | ⟨thread, hheld⟩
    · exact absurd hid (hempty member hmem)
    · have hscanning := (hinv.mark trivial).held_scans thread (by simp [hheld])
      simp [hscans thread] at hscanning

/-- The job of the task succeeds. -/
def succeeded : AsyncEvent where
  jobID := "5a1f"
  status := Status.success.text
  revision := 7
  now := 100
  not_stopped := by decide

/-- One hook for the event, and scans. -/
def hookAndScans : ℕ → Actor
  | 0 => .hook succeeded
  | _ => .scan 1

/-- The scan starts, pops the execution and refreshes it. -/
def scanSteps : List (ℕ × RefreshChoice) :=
  goodSteps 1 1 ++ [(1, { popped := [⟨1, "SCAN"⟩] })] ++ goodSteps 1 7

/-- The scan comes after the hook. -/
theorem scans_lose_no_update_after_commit :
    ∃ final, exec (Pool.step refreshSem) (taskPool runningWorld hookAndScans)
        (goodSteps 0 7 ++ scanSteps) = some final ∧
      aggregateOf final.world.tasks 1 = some Status.success.text ∧ final.world.Consistent 1 := by
  have hkept : EveryStep (step refreshSem) (Pool.Admits (MarkersKept 1))
      (taskPool runningWorld hookAndScans) (goodSteps 0 7 ++ scanSteps) := by
    iterate 5 refine everyStep_cons rfl (admits_of_nextOp rfl trivial) ?_
    refine everyStep_cons rfl (admits_of_nextOp rfl fun _ => by decide) ?_
    iterate 2 refine everyStep_cons rfl (admits_of_nextOp rfl trivial) ?_
    refine everyStep_cons rfl (admits_of_nextOp rfl fun _ thread tx htx => ?_) ?_
    · -- the transaction of the hook is closed by now
      change update (update (update (update (update
        (fun _ => none) 0 _) 0 _) 0 _) 0 _) 0 none thread = some tx at htx
      simp only [update_idem, update_apply] at htx
      split_ifs at htx
    iterate 7 refine everyStep_cons rfl (admits_of_nextOp rfl trivial) ?_
    trivial
  refine ⟨_, rfl, rfl, scans_lose_no_update rfl runningWorld_consistent ⟨_, rfl⟩
    ?_ ?_ ?_ ?_ hkept rfl ?_ ?_⟩
  · decide
  · decide
  · exact fun _ => rfl
  · intro thread statement
    cases thread <;> simp [hookAndScans]
  · exact fun _ hmem => absurd hmem List.not_mem_nil
  · intro thread
    show update (update (fun _ => false) 1 true) 1 false thread = false
    simp only [update_apply]
    split_ifs <;> rfl

/-- The hook has updated the task and has added the execution, but its transaction is
still open when the scan pops the execution and refreshes it from the old status.
After the commit the status is stale and the set is empty. -/
theorem update_lost_before_commit :
    ∃ final, exec (Pool.step refreshSem) (taskPool runningWorld hookAndScans)
        (goodSteps 0 6 ++ scanSteps ++ goodSteps 0 1) = some final ∧
      final.world.outdated = [] ∧ (∀ thread, final.world.transactions thread = none) ∧
      (∀ thread, final.world.scans thread = false) ∧
      aggregateOf final.world.tasks 1 = some Status.success.text ∧
      ∃ row, final.world.executions 1 = some row ∧ row.status = Status.running.text := by
  refine ⟨_, rfl, rfl, fun thread => ?_, fun thread => ?_, rfl, _, rfl, rfl⟩
  · show update (update (update (update (update
        (fun _ => none) 0 _) 0 _) 0 _) 0 _) 0 none thread = none
    simp only [update_idem, update_apply]
    split_ifs <;> rfl
  · show update (update (fun _ => false) 1 true) 1 false thread = false
    simp only [update_apply]
    split_ifs <;> rfl

end Runs

end Harbor.Tasks
