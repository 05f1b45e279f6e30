import Harbor.Tasks.Refresh

/-!
# Deleting and stopping an execution

`Delete` checks a task and deletes it before it checks the next one, so a task that is
not final stops it half-way; `DeleteByVendor` checks first and deletes afterwards.
`Stop` assigns the error of every task to one variable and returns that of the last
task.  Both properties hold exactly as far as the first or the last task of the list
decides.
-/

namespace Harbor.Tasks

open Harbor.JobService List

/-! ## Deleting -/

/-- The tables `Delete` works on. -/
structure TaskTables where
  tasks : List TaskRow
  executions : ℤ → Option ExecutionRow

inductive DeleteError
  | precondition (message : String)
  | failure (err : TaskFailure)
  deriving DecidableEq, Repr

/-- Which statements fail. -/
structure DeleteFaults where
  list : Option TaskFailure := none
  task : ℤ → Option TaskFailure := fun _ => none
  execution : Option TaskFailure := none

section Delete

variable (faults : DeleteFaults) (id : ℤ)

/-- The loop of `Delete`; a task that somebody else has deleted is passed over. -/
def deleteTasks : List TaskRow → TaskTables → TaskTables × Except DeleteError Unit
  | [], db => (db, .ok ())
  | task :: rest, db =>
    if statusFinal task.status then
      match faults.task task.id with
      | none => deleteTasks rest { db with tasks := (Statement.delete task.id).apply db.tasks }
      | some .notFound => deleteTasks rest db
      | some err => (db, .error (.failure err))
    else
      (db, .error (.precondition
        s!"the execution {id} has tasks that aren't in final status, stop the tasks first"))

def listTasks (db : TaskTables) : List TaskRow :=
  (tasksOf db.tasks id).insertionSort TaskRow.SortsBefore

def deleteExecution (db : TaskTables) : TaskTables × Except DeleteError Unit :=
  match faults.list with
  | some err => (db, .error (.failure err))
  | none =>
    match deleteTasks faults id (listTasks id db) db with
    | (db, .error err) => (db, .error err)
    | (db, .ok ()) =>
      match faults.execution, db.executions id with
      | some err, _ => (db, .error (.failure err))
      | none, none => (db, .error (.failure .notFound))
      | none, some _ =>
        ({ db with executions := Function.update db.executions id none }, .ok ())

/-- With the precondition error, nothing has been deleted. -/
def AllOrNothing (db : TaskTables) : Prop :=
  ∀ faults message, (deleteExecution faults id db).2 = .error (.precondition message) →
    (deleteExecution faults id db).1.executions id = db.executions id ∧
      tasksOf (deleteExecution faults id db).1.tasks id = tasksOf db.tasks id

variable {faults id} {tasks : List TaskRow} {db : TaskTables}

theorem deleteTasks_tasks_subset (tasks : List TaskRow) (db : TaskTables) :
    (deleteTasks faults id tasks db).1.tasks ⊆ db.tasks := by
  induction tasks generalizing db with
  | nil => exact List.Subset.refl _
  | cons task rest ih =>
    rw [deleteTasks]
    split
    · split
      · exact List.Subset.trans (ih _) (filter_subset_self _)
      · exact ih db
      · exact List.Subset.refl _
    · exact List.Subset.refl _

/-- The loop meets the precondition only at a task that is not final. -/
theorem deleteTasks_of_final (hfinal : ∀ task ∈ tasks, statusFinal task.status) (db : TaskTables)
    (message : String) : (deleteTasks faults id tasks db).2 ≠ .error (.precondition message) := by
  induction tasks generalizing db with
  | nil => rintro ⟨⟩
  | cons task rest ih =>
    obtain ⟨htask, hrest⟩ := forall_mem_cons.mp hfinal
    rw [deleteTasks, if_pos htask]
    split
    · exact ih hrest _
    · exact ih hrest _
    · rintro ⟨⟩

theorem deleteTasks_of_not_final (htask : ∃ task ∈ tasks, statusFinal task.status = false)
    (db : TaskTables) :
    ∃ message, (deleteTasks {} id tasks db).2 = .error (.precondition message) := by
  induction tasks generalizing db with
  | nil => simp at htask
  | cons task rest ih =>
    rw [deleteTasks]
    split_ifs with hfinal
    · refine ih ?_ _
      obtain ⟨other, hmem, hopen⟩ := htask
      rcases mem_cons.mp hmem with rfl | hmem
      · exact absurd hfinal (Bool.eq_false_iff.mp hopen)
      · exact ⟨other, hmem, hopen⟩
    · exact ⟨_, rfl⟩

theorem deleteExecution_eq {err : DeleteError} (hlist : faults.list = none)
    (herror : (deleteTasks faults id (listTasks id db) db).2 = .error err) :
    deleteExecution faults id db = deleteTasks faults id (listTasks id db) db := by
  revert herror
  unfold deleteExecution
  rw [hlist]
  rcases deleteTasks faults id (listTasks id db) db with ⟨after, _ | _⟩
  · exact fun _ => rfl
  · rintro ⟨⟩

theorem deleteTasks_precondition {message : String}
    (herror : (deleteExecution faults id db).2 = .error (.precondition message)) :
    faults.list = none ∧
      (deleteTasks faults id (listTasks id db) db).2 = .error (.precondition message) := by
  revert herror
  unfold deleteExecution
  cases faults.list with
  | some err => rintro ⟨⟩
  | none =>
    rcases deleteTasks faults id (listTasks id db) db with ⟨after, _ | _⟩
    · exact fun herror => ⟨rfl, herror⟩
    · cases faults.execution <;> cases hrow : after.executions id <;> simp [hrow]

theorem mem_listTasks {task : TaskRow} : task ∈ listTasks id db ↔ task ∈ tasksOf db.tasks id :=
  mem_insertionSort _

end Delete

/-- **Deleting is all or nothing exactly if** the first task of the list is not final, or
all of them are. -/
theorem delete_allOrNothing_iff (id : ℤ) (db : TaskTables) :
    AllOrNothing id db ↔
      ((∃ first ∈ (listTasks id db).head?, statusFinal first.status) →
        ∀ task ∈ tasksOf db.tasks id, statusFinal task.status) := by
  cases hlist : listTasks id db with
  | nil =>
    refine iff_of_true (fun faults message herror => ?_) (by simp)
    obtain ⟨-, herror⟩ := deleteTasks_precondition herror
    rw [hlist] at herror
    cases herror
  | cons first rest =>
    have hfirst : first ∈ tasksOf db.tasks id := mem_listTasks.mp (hlist ▸ mem_cons_self)
    simp only [head?_cons, Option.mem_some_iff, exists_eq_left']
    constructor
    · intro hnothing hfinal
      by_contra hopen
      push Not at hopen
      obtain ⟨task, htask, hopen⟩ := hopen
      obtain ⟨message, herror⟩ := @deleteTasks_of_not_final id (listTasks id db)
        ⟨task, mem_listTasks.mpr htask, Bool.eq_false_iff.mpr hopen⟩ db
      -- without a failing statement the loop gets to that task, past the first one
      have heq := deleteExecution_eq rfl herror
      obtain ⟨-, htasks⟩ := hnothing {} message (heq ▸ herror)
      rw [← htasks, heq, hlist, deleteTasks, if_pos hfinal] at hfirst
      have hleft := deleteTasks_tasks_subset _ _ (mem_of_mem_filter hfirst)
      simp [Statement.apply] at hleft
    · intro hcondition faults message herror
      obtain ⟨hfault, herror⟩ := deleteTasks_precondition herror
      by_cases hfinal : statusFinal first.status
      · refine absurd herror (deleteTasks_of_final (fun task htask => ?_) db message)
        exact hcondition hfinal task (mem_listTasks.mp htask)
      · rw [deleteExecution_eq hfault herror, hlist, deleteTasks, if_neg hfinal]
        exact ⟨rfl, rfl⟩

/-- One task is running, another was stopped before it started. -/
theorem half_deleted :
    let running := { createTaskRecord 2 7 "SCAN" 0 with status := "Running", startTime := some 4 }
    let stopped := { createTaskRecord 1 7 "SCAN" 0 with status := "Stopped" }
    let db : TaskTables := ⟨[stopped, running], fun _ => some ⟨"SCAN", "Running", 0, none⟩⟩
    (deleteExecution {} 7 db).1.tasks = [running] ∧
      (deleteExecution {} 7 db).2 = .error (.precondition
        "the execution 7 has tasks that aren't in final status, stop the tasks first") := by
  decide

/-! ## Stopping -/

section Stop

variable {ε : Type*} (stopTask : TaskRow → Option ε)

/-- The loop of `Stop`: the tasks it attempts, and the error variable. -/
def stopTasks : List TaskRow → Option ε → List TaskRow × Option ε
  | [], err => ([], err)
  -- the error of the task before is overwritten
  | task :: rest, _ =>
    let stopped := stopTasks rest (stopTask task)
    (task :: stopped.1, stopped.2)

/-- `executionManager.Stop`, with the answers of its calls. -/
def stopExecution (get : Except ε ExecutionRow) (list : Except ε (List TaskRow))
    (update : Option ε) : List TaskRow × Option ε :=
  match get, list with
  | .error err, _ => ([], some err)
  | .ok _, .error err => ([], some err)
  | .ok execution, .ok [] => if statusFinal execution.status then ([], none) else ([], update)
  | .ok _, .ok tasks => stopTasks stopTask tasks none

theorem stopTasks_eq (tasks : List TaskRow) (err : Option ε) :
    stopTasks stopTask tasks err = (tasks, (tasks.getLast?.map stopTask).getD err) := by
  induction tasks generalizing err with
  | nil => rfl
  | cons task rest ih =>
    rw [stopTasks, ih]
    cases rest with
    | nil => rfl
    | cons next rest => simp [getLast?_cons]

end Stop

/-- **Stopping attempts every task, and reports failures exactly if** no task fails unless
the last one does. -/
theorem stop_reports_iff {ε : Type*} (stopTask : TaskRow → Option ε) (execution : ExecutionRow)
    (tasks : List TaskRow) (hne : tasks ≠ []) (update : Option ε) :
    ((stopExecution stopTask (.ok execution) (.ok tasks) update).1 = tasks ∧
        ((stopExecution stopTask (.ok execution) (.ok tasks) update).2 = none ↔
          ∀ task ∈ tasks, stopTask task = none)) ↔
      (stopTask (tasks.getLast hne) = none → ∀ task ∈ tasks, stopTask task = none) := by
  have hstop : stopExecution stopTask (.ok execution) (.ok tasks) update =
      (tasks, stopTask (tasks.getLast hne)) := by
    cases tasks with
    | nil => exact absurd rfl hne
    | cons task rest =>
      rw [stopExecution, stopTasks_eq, getLast?_eq_some_getLast hne]
      · rfl
      · rintro ⟨⟩
  rw [hstop]
  constructor
  · exact fun h => h.2.mp
  · exact fun h => ⟨rfl, h, fun hall => hall _ (getLast_mem hne)⟩

/-- Both tasks cannot be stopped. -/
theorem stop_reports_both :
    (stopExecution (fun _ => some "timeout") (.ok ⟨"SCAN", "Running", 0, none⟩)
      (.ok [createTaskRecord 1 7 "SCAN" 0, createTaskRecord 2 7 "SCAN" 0]) none).2 ≠ none := by
  have h := (stop_reports_iff (fun _ => some "timeout") ⟨"SCAN", "Running", 0, none⟩
    [createTaskRecord 1 7 "SCAN" 0, createTaskRecord 2 7 "SCAN" 0] (by simp) none).mpr (by simp)
  exact fun hnone => absurd (h.2.mp hnone _ mem_cons_self) (by simp)

/-- The first task cannot be stopped, the last one can. -/
theorem failed_stop_not_reported :
    let first := createTaskRecord 1 7 "SCAN" 0
    let last := createTaskRecord 2 7 "SCAN" 0
    stopExecution (fun task => if task = first then some "timeout" else none)
      (.ok ⟨"SCAN", "Running", 0, none⟩) (.ok [first, last]) none = ([first, last], none) := by
  decide

end Harbor.Tasks
