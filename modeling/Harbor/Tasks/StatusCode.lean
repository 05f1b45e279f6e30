import Harbor.Concurrency.Transition
import Harbor.Tasks.Model

/-!
# The two copies of a task's status

A task row has its status as a text and as a code.  `UpdateStatus` and the sweep
test the code, `ListStatusCount` counts the texts, so the two have to agree.
Creating a task, `UpdateStatus` and `Stop` write both; `UpdateStatusInBatch` and
`Update` of the status write only the text.

The copies agree in every reachable table as long as those two are used only
for a text with the code that the row already has (`status_codes_match`).  The job
monitor uses the batch to mark pending jobs as stopped, which leaves rows that
are `Stopped` with the code of `Pending` (`stopped_in_batch_not_swept`).
-/

namespace Harbor.Tasks

open Harbor.JobService Harbor.Concurrency List

/-- The code of the row is the code of its status. -/
def TaskRow.CodeMatches (row : TaskRow) : Prop :=
  row.statusCode = JobService.statusCode row.status

/-- Every row has the code of its status. -/
def CodesMatch (tasks : List TaskRow) : Prop :=
  ∀ row ∈ tasks, row.CodeMatches

/-- The sweep would delete the row together with its execution. -/
def TaskRow.Swept (row : TaskRow) : Prop :=
  row.statusCode = finalStatusCode

variable {op : TaskOp} {tasks : List TaskRow}

theorem TaskRow.CodeMatches.swept_iff {row : TaskRow} (h : row.CodeMatches) :
    row.Swept ↔ statusFinal row.status := by
  unfold TaskRow.CodeMatches at h
  simp [TaskRow.Swept, statusFinal, finalStatusCode, h]

/-! ## Copying columns -/

/-- A property that only one column holds is copied iff that column is named, or none is. -/
theorem update_property {α : Type*} {property : TaskRow → α} {source : TaskRow} {column : Column}
    (hcopied : ∀ row : TaskRow, property (row.copy source column) = property source)
    (hother : ∀ (row : TaskRow) (other : Column), other ≠ column →
      property (row.copy source other) = property row) (row : TaskRow) (columns : List Column)
    (hall : property (row.update source []) = property source) :
    property (row.update source columns) =
      if columns = [] ∨ column ∈ columns then property source else property row := by
  by_cases hnone : columns = []
  · rw [hnone, hall, if_pos (.inl rfl)]
  · simp only [TaskRow.update, hnone, if_false, false_or]
    clear hnone hall
    induction columns generalizing row with
    | nil => simp
    | cons first rest ih =>
      rw [foldl_cons, ih]
      by_cases hfirst : first = column
      · subst hfirst
        simp [hcopied]
      · simp [hother row first hfirst, Ne.symm hfirst]

theorem update_status (row source : TaskRow) (columns : List Column) :
    (row.update source columns).status =
      if columns = [] ∨ .status ∈ columns then source.status else row.status :=
  update_property (fun _ => rfl)
    (fun _ other hne => by cases other <;> simp_all [TaskRow.copy]) row columns rfl

theorem update_statusCode (row source : TaskRow) (columns : List Column) :
    (row.update source columns).statusCode =
      if columns = [] ∨ .statusCode ∈ columns then source.statusCode else row.statusCode :=
  update_property (fun _ => rfl)
    (fun _ other hne => by cases other <;> simp_all [TaskRow.copy]) row columns rfl

/-! ## Statements -/

section Statements

variable {tasks : List TaskRow} {jobIDs batch : List String} {status : String}

theorem CodesMatch.updateWhere {cond : TaskRow → Prop} [DecidablePred cond]
    {change : TaskRow → TaskRow} (htasks : CodesMatch tasks)
    (hchange : ∀ row ∈ tasks, cond row → row.CodeMatches → (change row).CodeMatches) :
    CodesMatch (updateWhere tasks cond change) := by
  intro row hrow
  obtain ⟨before, hbefore, rfl⟩ := mem_map.mp hrow
  split_ifs with hcond
  · exact hchange before hbefore hcond (htasks before hbefore)
  · exact htasks before hbefore

theorem CodesMatch.filter {cond : TaskRow → Bool} (htasks : CodesMatch tasks) :
    CodesMatch (tasks.filter cond) :=
  fun row hrow => htasks row (mem_filter.mp hrow).1

/-- The statement leaves the codes right in every table in which they are. -/
def Statement.Keeps (statement : Statement) : Prop :=
  ∀ tasks, CodesMatch tasks → CodesMatch (statement.apply tasks)

theorem keeps_insert {row : TaskRow} (hrow : row.CodeMatches) : (Statement.insert row).Keeps := by
  intro tasks htasks other hother
  rcases mem_cons.mp hother with rfl | hmem
  · exact hrow
  · exact htasks other hmem

theorem keeps_startRun (id revision : ℤ) : (Statement.startRun id revision).Keeps := by
  intro tasks htasks
  refine htasks.updateWhere fun row _ _ hrow => ?_
  unfold TaskRow.startRun
  split_ifs <;> exact hrow

theorem keeps_setStatus (id : ℤ) (status : String) (revision now : ℤ) :
    (Statement.setStatus id status revision now).Keeps := by
  intro tasks htasks
  refine htasks.updateWhere fun row _ _ hrow => ?_
  unfold TaskRow.setStatus
  split_ifs
  · rfl
  · rfl
  · exact hrow

theorem keeps_delete (id : ℤ) : (Statement.delete id).Keeps := fun _ htasks => htasks.filter

theorem keeps_deleteFinal (executionIDs : List ℤ) : (Statement.deleteFinal executionIDs).Keeps :=
  fun _ htasks => htasks.filter

theorem keeps_update {source : TaskRow} {columns : List Column} (hsource : source.CodeMatches)
    (hboth : columns = [] ∨ (.status ∈ columns ↔ .statusCode ∈ columns)) :
    (Statement.update source columns).Keeps := by
  intro tasks htasks
  refine htasks.updateWhere fun row _ _ hrow => ?_
  unfold TaskRow.CodeMatches at *
  rw [update_status, update_statusCode]
  rcases hboth with hall | hiff
  · simpa [hall] using hsource
  · simp only [hiff]
    split_ifs
    · exact hsource
    · exact hrow

theorem foldl_keeps {statements : List Statement}
    (hkeeps : ∀ statement ∈ statements, statement.Keeps) (htasks : CodesMatch tasks) :
    CodesMatch (statements.foldl Statement.apply tasks) := by
  induction statements generalizing tasks with
  | nil => exact htasks
  | cons first rest ih =>
    exact ih (fun statement hmem => hkeeps statement (mem_cons_of_mem _ hmem))
      (hkeeps first mem_cons_self tasks htasks)

/-! ## Batches -/

theorem mem_of_mem_batches {batchSize fuel : ℕ} {jobID : String}
    (hbatch : batch ∈ batches batchSize fuel jobIDs) (hjob : jobID ∈ batch) : jobID ∈ jobIDs := by
  induction fuel generalizing jobIDs with
  | zero => simp [batches] at hbatch
  | succ fuel ih =>
    unfold batches at hbatch
    split_ifs at hbatch
    · simp at hbatch
    · rw [mem_singleton.mp hbatch] at hjob
      exact hjob
    · rcases mem_cons.mp hbatch with rfl | hrest
      · exact mem_of_mem_take hjob
      · exact mem_of_mem_drop (ih hrest)

/-- The rows of the jobs already have the code of the status. -/
def CodesFit (tasks : List TaskRow) (jobIDs : List String) (status : String) : Prop :=
  ∀ row ∈ tasks, row.jobID ∈ jobIDs → row.statusCode = statusCode status

theorem CodesFit.setStatusIn (hfit : CodesFit tasks jobIDs status) (now : ℤ)
    (htasks : CodesMatch tasks) (hbatch : ∀ jobID ∈ batch, jobID ∈ jobIDs) :
    CodesMatch ((Statement.setStatusIn batch status now).apply tasks) ∧
      CodesFit ((Statement.setStatusIn batch status now).apply tasks) jobIDs status := by
  constructor
  · exact htasks.updateWhere fun row hrow hjob _ => hfit row hrow (hbatch _ hjob)
  · intro row hrow hjob
    obtain ⟨before, hbefore, rfl⟩ := mem_map.mp hrow
    split_ifs at hjob ⊢ <;> exact hfit before hbefore hjob

theorem CodesFit.foldl_setStatusIn {now : ℤ} {parts : List (List String)}
    (hfit : CodesFit tasks jobIDs status) (htasks : CodesMatch tasks)
    (hparts : ∀ batch ∈ parts, ∀ jobID ∈ batch, jobID ∈ jobIDs) :
    CodesMatch ((parts.map fun batch => Statement.setStatusIn batch status now).foldl
      Statement.apply tasks) := by
  induction parts generalizing tasks with
  | nil => exact htasks
  | cons first rest ih =>
    obtain ⟨hmatch, hfit'⟩ := hfit.setStatusIn now htasks (hparts first mem_cons_self)
    exact ih hfit' hmatch fun batch hbatch => hparts batch (mem_cons_of_mem _ hbatch)

end Statements

/-! ## Operations and runs -/

/-- `UpdateStatusInBatch` and `Update` are used only for a status with the code that
the rows already have. -/
def TaskOp.KeepsCode (tasks : List TaskRow) : TaskOp → Prop
  | .updateStatusInBatch jobIDs status _ _ => CodesFit tasks jobIDs status
  | .update id status columns => ∀ row ∈ tasks, row.id = id →
      (if columns = [] ∨ .statusCode ∈ columns then 0 else row.statusCode) =
        statusCode (if columns = [] ∨ .status ∈ columns then status else row.status)
  | _ => True

theorem statements_keep (hbatch : ∀ jobIDs status batchSize now,
      op ≠ .updateStatusInBatch jobIDs status batchSize now)
    (hupdate : ∀ id status columns, op ≠ .update id status columns) :
    ∀ statement ∈ op.statements, statement.Keeps := by
  cases op with
  | create id executionID vendorType now submitted =>
    intro statement hmem
    rcases mem_cons.mp hmem with rfl | hrest
    · exact keeps_insert rfl
    · cases submitted with
      | none =>
        rw [mem_singleton.mp hrest]
        exact keeps_delete id
      | some jobID =>
        rw [mem_singleton.mp hrest]
        intro tasks htasks
        refine htasks.updateWhere fun row _ _ hrow => ?_
        unfold TaskRow.CodeMatches at *
        simpa [update_status, update_statusCode] using hrow
  | updateStatus id status revision now =>
    intro statement hmem
    rcases mem_cons.mp hmem with rfl | hrest
    · exact keeps_startRun id revision
    · rw [mem_singleton.mp hrest]
      exact keeps_setStatus id status revision now
  | updateStatusInBatch jobIDs status batchSize now => exact absurd rfl (hbatch _ _ _ _)
  | stop id now =>
    intro statement hmem
    rw [mem_singleton.mp hmem]
    exact keeps_update rfl (.inr (by decide))
  | update id status columns => exact absurd rfl (hupdate _ _ _)
  | clean executionIDs =>
    intro statement hmem
    rw [mem_singleton.mp hmem]
    exact keeps_deleteFinal executionIDs

theorem CodesMatch.statements (htasks : CodesMatch tasks) (hkeeps : op.KeepsCode tasks) (done : ℕ) :
    CodesMatch ((op.statements.take done).foldl Statement.apply tasks) := by
  have hplain : (∀ statement ∈ op.statements, statement.Keeps) →
      CodesMatch ((op.statements.take done).foldl Statement.apply tasks) := fun hall =>
    foldl_keeps (fun statement hmem => hall statement (mem_of_mem_take hmem)) htasks
  cases op with
  | create | updateStatus | stop | clean => exact hplain (statements_keep (by simp) (by simp))
  | updateStatusInBatch jobIDs status batchSize now =>
    simp only [TaskOp.statements, ← map_take]
    refine CodesFit.foldl_setStatusIn hkeeps htasks fun batch hbatch jobID hjob => ?_
    exact mem_of_mem_batches (mem_of_mem_take hbatch) hjob
  | update id status columns =>
    cases done with
    | zero => exact htasks
    | succ done =>
      rw [TaskOp.statements, take_succ_cons, take_nil]
      refine htasks.updateWhere fun row hrow hid _ => ?_
      unfold TaskRow.CodeMatches
      rw [update_status, update_statusCode]
      exact hkeeps row hrow hid

theorem CodesMatch.step {after : List TaskRow} {action : TaskOp × ℕ} (htasks : CodesMatch tasks)
    (hkeeps : action.1.KeepsCode tasks) (hstep : taskStep tasks action = some after) :
    CodesMatch after := by
  obtain ⟨op, done⟩ := action
  have hafter : (op.statements.take done).foldl Statement.apply tasks = after := by
    cases op with
    | create =>
      simp only [taskStep, Option.ite_none_left_eq_some, Option.some.injEq] at hstep
      exact hstep.2
    | _ => exact Option.some.inj hstep
  rw [← hafter]
  exact htasks.statements hkeeps done

/-- In every reachable table the code of a task is the code of its status, and the
sweep selects the tasks with a final status, as long as the operations that write
only the text are used for a text with the same code. -/
theorem status_codes_match {actions : List (TaskOp × ℕ)} {final : List TaskRow}
    (hkeeps : EveryStep taskStep (fun before action _ => action.1.KeepsCode before) [] actions)
    (hrun : exec taskStep [] actions = some final) :
    ∀ row ∈ final, row.statusCode = statusCode row.status ∧
      (row.Swept ↔ statusFinal row.status) := by
  have hempty : CodesMatch [] := by simp [CodesMatch]
  have hfinal : CodesMatch final := by
    refine exec_invariant CodesMatch ?_ hempty hkeeps hrun
    intro tasks action after htasks hstep hkeep
    exact htasks.step hkeep hstep
  exact fun row hrow => ⟨hfinal row hrow, (hfinal row hrow).swept_iff⟩

theorem status_codes_match_stop :
    ∃ final, exec taskStep [] [(.create 1 1 "REPLICATION" 5 (some "5a1f"), 2),
        (.updateStatus 1 "Running" 7 8, 2), (.updateStatusInBatch ["5a1f"] "Running" 100 9, 1),
        (.stop 1 10, 1)] = some final ∧
      ∀ row ∈ final, row.statusCode = statusCode row.status ∧
        (row.Swept ↔ statusFinal row.status) := by
  obtain ⟨final, hrun⟩ : ∃ final, exec taskStep [] [(.create 1 1 "REPLICATION" 5 (some "5a1f"), 2),
        (.updateStatus 1 "Running" 7 8, 2), (.updateStatusInBatch ["5a1f"] "Running" 100 9, 1),
        (.stop 1 10, 1)] = some final := ⟨_, rfl⟩
  refine ⟨final, hrun, status_codes_match ?_ hrun⟩
  refine everyStep_cons rfl trivial (everyStep_cons rfl trivial (everyStep_cons rfl ?_
    (everyStep_cons rfl trivial trivial)))
  show CodesFit _ _ _
  unfold CodesFit
  decide

/-- A pending job is stopped by the job monitor: its task is `Stopped`, but the
sweep does not select it, and a late `Running` event of the same revision is applied. -/
theorem stopped_in_batch_not_swept :
    ∃ row late : TaskRow,
      exec taskStep [] [(.create 1 1 "REPLICATION" 5 (some "5a1f"), 2),
        (.updateStatusInBatch ["5a1f"] "Stopped" 100 9, 1)] = some [row] ∧
      row.status = "Stopped" ∧ row.statusCode = 0 ∧ ¬ row.Swept ∧
      taskStep [row] (.updateStatus 1 "Running" 0 10, 2) = some [late] ∧ late.status = "Running" :=
  ⟨_, _, rfl, rfl, rfl, by unfold TaskRow.Swept; decide, rfl, by decide⟩

end Harbor.Tasks
