import Harbor.JobService.Stats

/-!
# Tasks and executions

`pkg/task` keeps a row for every execution and one for each of its tasks.  A
task mirrors a job of the job service: its status is written when the status
hook of the job arrives, and from other places when no hook will come.  The
status of an execution is computed from those of its tasks.

The row of a task has its status twice, as a text and as a code: the guard of
`UpdateStatus` and the sweep read the code, the computation of the execution's
status reads the text.  The tables are changed by SQL statements, one `Statement`
each, and every operation of the task manager is a short list of them.

The status message, the extra attributes and the creation time of a task are
left out; nothing here reads them.
-/

namespace Harbor.Tasks

open Harbor.JobService Status

/-! ## Rows -/

/-- A row of the `task` table.  `none` is the zero time. -/
structure TaskRow where
  id : ℤ
  executionID : ℤ
  vendorType : String
  jobID : String := ""
  status : String
  statusCode : ℤ
  statusRevision : ℤ := 0
  runCount : ℤ := 0
  startTime : Option ℤ := none
  updateTime : Option ℤ := none
  endTime : Option ℤ := none
  deriving DecidableEq, Repr

/-- A row of the `execution` table. -/
structure ExecutionRow where
  vendorType : String
  status : String
  revision : ℤ := 0
  endTime : Option ℤ := none
  deriving DecidableEq, Repr

/-- The row that `createTaskRecord` inserts. -/
def createTaskRecord (id executionID : ℤ) (vendorType : String) (now : ℤ) : TaskRow :=
  { id, executionID, vendorType, status := pending.text
    statusCode := statusCode pending.text, updateTime := some now }

/-- First statement of `UpdateStatus`: a newer revision is a new run of the job. -/
def TaskRow.startRun (row : TaskRow) (revision : ℤ) : TaskRow :=
  if row.statusRevision < revision then
    { row with runCount := row.runCount + 1, startTime := some revision }
  else row

/-- Second statement of `UpdateStatus`: the status only moves forward. -/
def TaskRow.setStatus (row : TaskRow) (status : String) (revision now : ℤ) : TaskRow :=
  if (row.statusRevision = revision ∧ row.statusCode < JobService.statusCode status) ∨
      row.statusRevision < revision then
    { row with
      status, statusCode := JobService.statusCode status, statusRevision := revision
      updateTime := some now, endTime := if statusFinal status then some now else none }
  else row

/-- `taskDAO.UpdateStatus` on the row it names. -/
def TaskRow.updateStatus (row : TaskRow) (status : String) (revision now : ℤ) : TaskRow :=
  (row.startRun revision).setStatus status revision now

/-! ## Columns -/

/-- The columns that `taskDAO.Update` can be asked to write. -/
inductive Column
  | vendorType
  | executionID
  | jobID
  | status
  | statusCode
  | statusRevision
  | runCount
  | startTime
  | updateTime
  | endTime
  deriving DecidableEq, Repr

def TaskRow.copy (row source : TaskRow) : Column → TaskRow
  | .vendorType => { row with vendorType := source.vendorType }
  | .executionID => { row with executionID := source.executionID }
  | .jobID => { row with jobID := source.jobID }
  | .status => { row with status := source.status }
  | .statusCode => { row with statusCode := source.statusCode }
  | .statusRevision => { row with statusRevision := source.statusRevision }
  | .runCount => { row with runCount := source.runCount }
  | .startTime => { row with startTime := source.startTime }
  | .updateTime => { row with updateTime := source.updateTime }
  | .endTime => { row with endTime := source.endTime }

/-- `taskDAO.Update`: the named columns are copied, or all of them if none is named. -/
def TaskRow.update (row source : TaskRow) (columns : List Column) : TaskRow :=
  if columns = [] then { source with id := row.id }
  else columns.foldl (fun row column => row.copy source column) row

/-- A `Task` with only an ID and a status, the other fields have their zero value. -/
def bareTask (id : ℤ) (status : String) : TaskRow :=
  { id, executionID := 0, vendorType := "", status, statusCode := 0 }

/-! ## Statements -/

/-- The SQL statements on the `task` table. -/
inductive Statement
  | insert (row : TaskRow)
  | startRun (id revision : ℤ)
  | setStatus (id : ℤ) (status : String) (revision now : ℤ)
  | setStatusIn (jobIDs : List String) (status : String) (now : ℤ)
  | update (source : TaskRow) (columns : List Column)
  | delete (id : ℤ)
  | deleteFinal (executionIDs : List ℤ)
  deriving DecidableEq

variable (tasks : List TaskRow)

/-- Change the rows under a condition. -/
def updateWhere (cond : TaskRow → Prop) [DecidablePred cond] (change : TaskRow → TaskRow) :
    List TaskRow :=
  tasks.map fun row => if cond row then change row else row

/-- The status code of the sweep's filter, `finalStatusCode`. -/
def finalStatusCode : ℤ := 3

/-- What a statement makes of the table.  `setStatusIn` does not write the code. -/
def Statement.apply : Statement → List TaskRow
  | .insert row => row :: tasks
  | .startRun id revision => updateWhere tasks (fun row => row.id = id) (·.startRun revision)
  | .setStatus id status revision now =>
    updateWhere tasks (fun row => row.id = id) (·.setStatus status revision now)
  | .setStatusIn jobIDs status now =>
    updateWhere tasks (fun row => row.jobID ∈ jobIDs)
      fun row => { row with status, updateTime := some now }
  | .update source columns =>
    updateWhere tasks (fun row => row.id = source.id) (·.update source columns)
  | .delete id => tasks.filter fun row => row.id ≠ id
  | .deleteFinal executionIDs =>
    tasks.filter fun row => ¬ (row.statusCode = finalStatusCode ∧ row.executionID ∈ executionIDs)

/-! ## Operations -/

/-- The operations of the task manager that write the table.  `stop` is `Stop` of
a task whose job the job service does not know, and `clean` the sweep. -/
inductive TaskOp
  | create (id executionID : ℤ) (vendorType : String) (now : ℤ) (submitted : Option String)
  | updateStatus (id : ℤ) (status : String) (revision now : ℤ)
  | updateStatusInBatch (jobIDs : List String) (status : String) (batchSize : ℕ) (now : ℤ)
  | stop (id now : ℤ)
  | update (id : ℤ) (status : String) (columns : List Column)
  | clean (executionIDs : List ℤ)

/-- The batches of `UpdateStatusInBatch`. -/
def batches (batchSize : ℕ) : ℕ → List String → List (List String)
  | 0, _ => []
  | fuel + 1, jobIDs =>
    if jobIDs = [] then []
    else if jobIDs.length ≤ batchSize then [jobIDs]
    else jobIDs.take batchSize :: batches batchSize fuel (jobIDs.drop batchSize)

/-- The statements of an operation, in order. -/
def TaskOp.statements : TaskOp → List Statement
  | .create id executionID vendorType now submitted =>
    .insert (createTaskRecord id executionID vendorType now) ::
      match submitted with
      | some jobID => [.update { bareTask id "" with jobID } [.jobID]]
      | none => [.delete id]
  | .updateStatus id status revision now =>
    [.startRun id revision, .setStatus id status revision now]
  | .updateStatusInBatch jobIDs status batchSize now =>
    (batches batchSize jobIDs.length jobIDs).map fun batch => .setStatusIn batch status now
  | .stop id now =>
    [.update { bareTask id stopped.text with
        statusCode := statusCode stopped.text, updateTime := some now
        endTime := some now }
      [.status, .statusCode, .updateTime, .endTime]]
  | .update id status columns => [.update (bareTask id status) columns]
  | .clean executionIDs => [.deleteFinal executionIDs]

/-- One operation, of which only the first statements may go through.  The IDs
come from a sequence, so a new row has one that is not in use. -/
def taskStep (action : TaskOp × ℕ) : Option (List TaskRow) :=
  match action.1 with
  | .create id _ _ _ _ =>
    if ∃ row ∈ tasks, row.id = id then none
    else some ((action.1.statements.take action.2).foldl Statement.apply tasks)
  | _ => some ((action.1.statements.take action.2).foldl Statement.apply tasks)

/-! ## The status of an execution -/

variable (executionID : ℤ)

def tasksOf : List TaskRow :=
  tasks.filter fun row => row.executionID = executionID

/-- `ListStatusCount`: the statuses of the tasks of an execution, each with how often it occurs. -/
def listStatusCount : List (String × ℕ) :=
  let statuses := (tasksOf tasks executionID).map TaskRow.status
  statuses.dedup.map fun status => (status, statuses.count status)

structure Metrics where
  successTaskCount : ℕ := 0
  errorTaskCount : ℕ := 0
  pendingTaskCount : ℕ := 0
  runningTaskCount : ℕ := 0
  scheduledTaskCount : ℕ := 0
  stoppedTaskCount : ℕ := 0
  deriving DecidableEq, Repr

variable (metrics : Metrics)

/-- The total that `GetMetrics` computes. -/
def Metrics.taskCount : ℕ :=
  metrics.successTaskCount + metrics.errorTaskCount + metrics.pendingTaskCount +
    metrics.runningTaskCount + metrics.scheduledTaskCount + metrics.stoppedTaskCount

/-- One round of the loop in `GetMetrics`; an unknown status is only logged. -/
def Metrics.add (entry : String × ℕ) : Metrics :=
  match ofText? entry.1 with
  | some .success => { metrics with successTaskCount := entry.2 }
  | some .error => { metrics with errorTaskCount := entry.2 }
  | some .pending => { metrics with pendingTaskCount := entry.2 }
  | some .running => { metrics with runningTaskCount := entry.2 }
  | some .scheduled => { metrics with scheduledTaskCount := entry.2 }
  | some .stopped => { metrics with stoppedTaskCount := entry.2 }
  | none => metrics

/-- `GetMetrics` after the query. -/
def getMetrics (counts : List (String × ℕ)) : Metrics :=
  counts.foldl Metrics.add {}

/-- The status that `refreshStatus` computes. -/
def Metrics.status : String :=
  if 0 < metrics.pendingTaskCount ∨ 0 < metrics.runningTaskCount ∨
      0 < metrics.scheduledTaskCount then running.text
  else if 0 < metrics.errorTaskCount then Status.error.text
  else if 0 < metrics.stoppedTaskCount then stopped.text
  else if 0 < metrics.successTaskCount then success.text
  else ""

/-- The aggregate of task statuses: running if any of them is not final, else
error, else stopped, else success; there is none without a task of a known status. -/
def aggregate (statuses : List String) : Option String :=
  if pending.text ∈ statuses ∨ running.text ∈ statuses ∨
      scheduled.text ∈ statuses then some running.text
  else if Status.error.text ∈ statuses then some Status.error.text
  else if stopped.text ∈ statuses then some stopped.text
  else if success.text ∈ statuses then some success.text
  else none

/-- The aggregate of the tasks of an execution. -/
def aggregateOf : Option String :=
  aggregate ((tasksOf tasks executionID).map TaskRow.status)

/-! ## The computed status is the aggregate -/

def Metrics.count : Status → ℕ
  | .success => metrics.successTaskCount
  | .error => metrics.errorTaskCount
  | .pending => metrics.pendingTaskCount
  | .running => metrics.runningTaskCount
  | .scheduled => metrics.scheduledTaskCount
  | .stopped => metrics.stoppedTaskCount

open Metrics

theorem Metrics.count_add (entry : String × ℕ) (status : Status) :
    (metrics.add entry).count status =
      if entry.1 = status.text then entry.2 else metrics.count status := by
  have hknown : entry.1 = status.text ↔ ofText? entry.1 = some status := ofText?_eq_some.symm
  simp only [hknown, Metrics.add]
  cases ofText? entry.1 with
  | none => simp
  | some known => cases known <;> cases status <;> simp [count]

/-- The counts come from one table, so it does not matter that a later one replaces
an earlier one. -/
theorem Metrics.count_foldl_add (number : String → ℕ) (statuses : List String) (metrics : Metrics)
    (status : Status) :
    ((statuses.map fun text => (text, number text)).foldl Metrics.add metrics).count status =
      if status.text ∈ statuses then number status.text else metrics.count status := by
  induction statuses generalizing metrics with
  | nil => simp
  | cons text rest ih =>
    rw [List.map_cons, List.foldl_cons, ih, count_add]
    by_cases htext : text = status.text
    · simp [htext]
    · simp [htext, Ne.symm htext]

theorem count_getMetrics (status : Status) :
    (getMetrics (listStatusCount tasks executionID)).count status =
      ((tasksOf tasks executionID).map TaskRow.status).count status.text := by
  rw [getMetrics, listStatusCount, count_foldl_add]
  split_ifs with hmem
  · rfl
  · rw [List.mem_dedup] at hmem
    rw [List.count_eq_zero_of_not_mem hmem]
    cases status <;> rfl

/-- **What `refreshStatus` computes is the aggregate**, and it has a task to count
exactly when there is one. -/
theorem aggregateOf_eq :
    aggregateOf tasks executionID =
      if (getMetrics (listStatusCount tasks executionID)).taskCount = 0 then none
      else some (getMetrics (listStatusCount tasks executionID)).status := by
  have hcount := fun status => count_getMetrics tasks executionID status
  set metrics := getMetrics (listStatusCount tasks executionID)
  have hmem : ∀ status : Status,
      status.text ∈ (tasksOf tasks executionID).map TaskRow.status ↔ 0 < metrics.count status :=
    fun status => by rw [hcount, List.count_pos_iff]
  unfold aggregateOf aggregate status taskCount
  simp only [hmem, count]
  grind

end Harbor.Tasks
