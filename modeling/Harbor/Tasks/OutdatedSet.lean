import Harbor.Tasks.RefreshSafety

/-!
# Task updates, transactions and the outdated set

The remaining steps: a task is updated, by itself or in the transaction of a status
hook, and executions are added to the outdated set and popped from it.  A task
update makes the status of its execution stale; in the asynchronous mode the
execution has to be a member of the set at that point, which is why the hook
adds it before its transaction commits.
-/

namespace Harbor.Tasks

open Harbor.Concurrency List Function TaskWorld

section Steps

variable {mode : Mode} {id : ℤ} {thread : ℕ} {before after world : TaskWorld}

/-! ## Task updates -/

variable {tasks : List TaskRow} {held : ℕ → Option ℕ} {members : List Member}

theorem TaskWorld.setTasks_audit_of_eq (h : tasksOf tasks id = tasksOf world.tasks id) :
    (world.setTasks tasks).audit id = world.audit id :=
  if_pos h

theorem TaskWorld.setTasks_audit_of_ne (h : tasksOf tasks id ≠ tasksOf world.tasks id) :
    (world.setTasks tasks).audit id =
      { world.audit id with updates := (world.audit id).updates + 1 } :=
  if_neg h

theorem BasisInv.setTasks (h : BasisInv id world) (tasks : List TaskRow) :
    BasisInv id (world.setTasks tasks) := by
  by_cases hsame : tasksOf tasks id = tasksOf world.tasks id
  · have haggregate : aggregateOf tasks id = aggregateOf world.tasks id := by
      rw [aggregateOf, hsame, aggregateOf]
    obtain ⟨hbasis, hcovered, hcalls, hcurrent, himplies⟩ := h
    constructor <;> simp only [setTasks_audit_of_eq hsame] <;> try assumption
    case current =>
      intro hupdates row status hrow hstatus
      exact hcurrent hupdates row status hrow (haggregate.symm.trans hstatus)
    case covered => exact fun hupdates => (himplies hupdates).imp_right haggregate.trans
  · have hbasis := h.basis_le
    have hcovered := h.covered_le
    constructor <;> simp only [setTasks_audit_of_ne hsame]
    case basis_le => omega
    case covered_le => omega
    case calls_le =>
      exact fun other start hstart => (h.calls_le other start hstart).trans (by omega)
    case current => exact fun hupdates => by omega
    case covered => exact fun hupdates => by omega

theorem ReportInv.setTasks (h : ReportInv id world) (tasks : List TaskRow) :
    ReportInv id (world.setTasks tasks) := by
  obtain ⟨_, _, _, _, _, _, _, _⟩ := h
  by_cases hsame : tasksOf tasks id = tasksOf world.tasks id
  · constructor <;> simp only [setTasks_audit_of_eq hsame] <;> assumption
  · constructor <;> simp only [setTasks_audit_of_ne hsame] <;> assumption

/-- The execution of a task that is updated has to be marked. -/
theorem MarkInv.setTasks (h : MarkInv id world)
    (hids : tasks.map TaskRow.id = world.tasks.map TaskRow.id)
    (hmarked : tasksOf tasks id ≠ tasksOf world.tasks id → world.Marked id) :
    MarkInv id (world.setTasks tasks) := by
  have hnodup : (tasks.map TaskRow.id).Nodup := hids ▸ h.ids_nodup
  by_cases hsame : tasksOf tasks id = tasksOf world.tasks id
  · have haggregate : aggregateOf tasks id = aggregateOf world.tasks id := by
      rw [aggregateOf, hsame, aggregateOf]
    refine ⟨h.exists_row, hnodup, h.vendor_ne, ?_, h.added_marked, ?_, ?_⟩ <;>
      simp only [setTasks_audit_of_eq hsame]
    · exact fun hlt hsome => h.marked hlt (haggregate ▸ hsome)
    · exact h.held_le
    · exact h.held_scans
  · refine ⟨h.exists_row, hnodup, h.vendor_ne, ?_, h.added_marked, ?_, ?_⟩ <;>
      simp only [setTasks_audit_of_ne hsame]
    · exact fun _ _ => .inl (hmarked hsame)
    · exact fun other count hcount => (h.held_le other count hcount).trans (by omega)
    · exact h.held_scans

theorem guar_setTasks (howners : mode.marking → (world.setTasks tasks).owners = world.owners) :
    RefreshGuar mode id thread world (world.setTasks tasks) := by
  by_cases hsame : tasksOf tasks id = tasksOf world.tasks id
  · have haudit : (world.setTasks tasks).audit id = world.audit id :=
      setTasks_audit_of_eq hsame
    refine ⟨⟨by rw [haudit], by rw [haudit], fun _ => hsame, fun row hrow => ?_, howners⟩,
      fun other _ => ?_⟩
    · exact ⟨row, hrow, le_rfl, fun _ => ⟨rfl, by rw [haudit]⟩⟩
    · constructor <;> first | rw [haudit] | rfl
  · have haudit : (world.setTasks tasks).audit id =
        { world.audit id with updates := (world.audit id).updates + 1 } :=
      setTasks_audit_of_ne hsame
    refine ⟨⟨by simp [haudit], by simp [haudit], fun hupdates => ?_, fun row hrow => ?_, howners⟩,
      fun other _ => ?_⟩
    · simp [haudit] at hupdates
    · exact ⟨row, hrow, le_rfl, fun _ => ⟨rfl, by rw [haudit]⟩⟩
    · constructor <;> first | rw [haudit] | rfl

/-- The tasks of the execution change only if it is marked, and no task changes hands. -/
def TaskWorld.Accepts (world : TaskWorld) (id : ℤ) (tasks : List TaskRow) : Prop :=
  (world.setTasks tasks).owners = world.owners ∧
    (tasksOf tasks id ≠ tasksOf world.tasks id → world.Marked id)

theorem setTasks_step (hinv : RefreshInv mode id world)
    (haccepts : mode.marking → world.Accepts id tasks) :
    RefreshInv mode id (world.setTasks tasks) ∧
      RefreshGuar mode id thread world (world.setTasks tasks) := by
  refine ⟨⟨hinv.basis.setTasks tasks, fun hmode => (hinv.report hmode).setTasks tasks,
    fun hmode => (hinv.mark hmode).setTasks ?_ (haccepts hmode).2⟩,
    guar_setTasks fun hmode => (haccepts hmode).1⟩
  have howners := congrArg (map Prod.fst) (haccepts hmode).1
  simp only [owners, setTasks, map_map] at howners
  exact howners

/-- The statement updates the status of one task. -/
def Statement.UpdatesStatusOf (taskID : ℤ) : Statement → Prop
  | .startRun id _ => id = taskID
  | .setStatus id _ _ _ => id = taskID
  | _ => False

section Table

variable {taskID executionID : ℤ} {tasks : List TaskRow} {statement : Statement}

theorem TaskRow.startRun_owner (row : TaskRow) (revision : ℤ) :
    (row.startRun revision).id = row.id ∧
      (row.startRun revision).executionID = row.executionID := by
  unfold TaskRow.startRun
  split_ifs <;> exact ⟨rfl, rfl⟩

theorem TaskRow.setStatus_owner (row : TaskRow) (status : String) (revision now : ℤ) :
    (row.setStatus status revision now).id = row.id ∧
      (row.setStatus status revision now).executionID = row.executionID := by
  unfold TaskRow.setStatus
  split_ifs <;> exact ⟨rfl, rfl⟩

variable (h : statement.UpdatesStatusOf taskID)
include h

/-- Such a statement is a change of one row that leaves it with its execution. -/
theorem Statement.UpdatesStatusOf.apply_eq (tasks : List TaskRow) :
    ∃ change : TaskRow → TaskRow,
      statement.apply tasks = updateWhere tasks (fun row => row.id = taskID) change ∧
      ∀ row, (change row).id = row.id ∧ (change row).executionID = row.executionID := by
  cases statement with
  | startRun id revision => exact h ▸ ⟨_, rfl, fun row => row.startRun_owner revision⟩
  | setStatus id status revision now =>
    exact h ▸ ⟨_, rfl, fun row => row.setStatus_owner status revision now⟩
  | _ => exact h.elim

theorem Statement.UpdatesStatusOf.owners_apply (tasks : List TaskRow) :
    (statement.apply tasks).map (fun row => (row.id, row.executionID)) =
      tasks.map fun row => (row.id, row.executionID) := by
  obtain ⟨change, happly, hkeeps⟩ := h.apply_eq tasks
  rw [happly, updateWhere, map_map]
  refine map_congr_left fun row _ => ?_
  simp only [comp_apply]
  split_ifs
  · rw [(hkeeps row).1, (hkeeps row).2]
  · rfl

theorem Statement.UpdatesStatusOf.tasksOf_apply
    (howner : ∀ row ∈ tasks, row.id = taskID → row.executionID = executionID)
    (hne : executionID ≠ id) : tasksOf (statement.apply tasks) id = tasksOf tasks id := by
  obtain ⟨change, happly, hkeeps⟩ := h.apply_eq tasks
  rw [happly]
  clear happly
  induction tasks with
  | nil => rfl
  | cons row rest ih =>
    have hrest := ih fun row hrow => howner row (mem_cons_of_mem _ hrow)
    simp only [tasksOf, updateWhere, map_cons] at hrest ⊢
    by_cases hid : row.id = taskID
    · have hrow : row.executionID ≠ id := by
        rw [howner row mem_cons_self hid]
        exact hne
      rw [if_pos hid, filter_cons_of_neg (by simpa [(hkeeps row).2] using hrow),
        filter_cons_of_neg (by simpa using hrow), hrest]
    · rw [if_neg hid, filter_cons, filter_cons, hrest]

omit h

theorem owners_foldl_apply {writes : List Statement}
    (hwrites : ∀ statement ∈ writes, statement.UpdatesStatusOf taskID) (tasks : List TaskRow) :
    (writes.foldl Statement.apply tasks).map (fun row => (row.id, row.executionID)) =
      tasks.map fun row => (row.id, row.executionID) := by
  induction writes generalizing tasks with
  | nil => rfl
  | cons statement rest ih =>
    rw [foldl_cons, ih fun other hother => hwrites other (mem_cons_of_mem _ hother)]
    exact (hwrites statement mem_cons_self).owners_apply tasks

theorem tasksOf_foldl_apply {writes : List Statement}
    (hwrites : ∀ statement ∈ writes, statement.UpdatesStatusOf taskID)
    (howner : ∀ owner ∈ tasks.map fun row => (row.id, row.executionID),
      owner.1 = taskID → owner.2 = executionID) (hne : executionID ≠ id) :
    tasksOf (writes.foldl Statement.apply tasks) id = tasksOf tasks id := by
  induction writes generalizing tasks with
  | nil => rfl
  | cons statement rest ih =>
    have hstatement := hwrites statement mem_cons_self
    rw [foldl_cons,
      ih (fun other hother => hwrites other (mem_cons_of_mem _ hother))
        (by rw [hstatement.owners_apply]; exact howner)]
    exact hstatement.tasksOf_apply (fun row hrow => howner _ (mem_map_of_mem hrow)) hne

end Table

/-- A transaction that updates the status of one task is accepted, if the
execution of that task is marked. -/
theorem TaskWorld.accepts_of_updatesStatus {taskID executionID : ℤ} {writes : List Statement}
    (hwrites : ∀ statement ∈ writes, statement.UpdatesStatusOf taskID)
    (howner : ∀ owner ∈ world.owners, owner.1 = taskID → owner.2 = executionID)
    (hmarked : executionID = id → world.Marked id) :
    world.Accepts id (writes.foldl Statement.apply world.tasks) := by
  refine ⟨owners_foldl_apply hwrites world.tasks, fun hchanged => hmarked ?_⟩
  by_contra hne
  exact hchanged (tasksOf_foldl_apply hwrites howner hne)

/-! ## Transactions -/

theorem BasisInv.congr (h : BasisInv id before) (htasks : after.tasks = before.tasks)
    (hrow : after.executions id = before.executions id)
    (haudit : after.audit id = { before.audit id with held }) : BasisInv id after := by
  obtain ⟨_, _, _, _, _⟩ := h
  constructor <;> simp only [haudit, htasks, hrow, TaskWorld.Consistent] <;> assumption

theorem ReportInv.congr (h : ReportInv id before)
    (hrow : after.executions id = before.executions id)
    (haudit : after.audit id = { before.audit id with held }) : ReportInv id after := by
  obtain ⟨_, _, _, _, _, _, _, _⟩ := h
  constructor <;> simp only [haudit, hrow] <;> assumption

/-- A step that changes neither tasks nor executions, and of the record only what this thread
holds, has to keep the part about marks. -/
theorem held_step (hinv : RefreshInv mode id world) (htasks : after.tasks = world.tasks)
    (hrow : after.executions = world.executions)
    (haudit : after.audit id = { world.audit id with held })
    (hothers : ∀ other, other ≠ thread → held other = (world.audit id).held other ∧
      after.transactions other = world.transactions other ∧
      after.scans other = world.scans other) (hmark : mode.marking → MarkInv id after) :
    RefreshInv mode id after ∧ RefreshGuar mode id thread world after := by
  refine ⟨⟨hinv.basis.congr htasks (by rw [hrow]) haudit,
    fun hmode => (hinv.report hmode).congr (by rw [hrow]) haudit, hmark⟩,
    ⟨by rw [haudit], by rw [haudit], fun _ => by rw [htasks], fun row hbefore => ?_,
      fun _ => by simp only [owners, htasks]⟩, fun other hne => ?_⟩
  · exact ⟨row, by rw [hrow, hbefore], le_rfl, fun _ => ⟨rfl, by rw [haudit]⟩⟩
  · obtain ⟨hheld, htransactions, hscans⟩ := hothers other hne
    constructor <;> simp only [haudit, hheld, htransactions, hscans]

/-- A transaction is only of interest for what it has added. -/
theorem setTx_step {tx : Option OpenTx} (hinv : RefreshInv mode id world)
    (hadded : mode.marking → ∀ open_, tx = some open_ → id ∈ open_.added → world.Marked id) :
    RefreshInv mode id (world.setTx thread tx) ∧
      RefreshGuar mode id thread world (world.setTx thread tx) := by
  refine held_step hinv rfl rfl rfl
    (fun other hne => ⟨rfl, update_of_ne hne _ _, rfl⟩) fun hmode => ?_
  obtain ⟨h1, h2, h3, h4, hmarked, h6, h7⟩ := hinv.mark hmode
  refine ⟨h1, h2, h3, h4, fun other open_ hopen hmem => ?_, h6, h7⟩
  simp only [setTx, update_apply] at hopen
  split_ifs at hopen
  · exact hadded hmode open_ hopen hmem
  · exact hmarked other open_ hopen hmem

/-! ## The set -/

theorem sadd_step (hinv : RefreshInv mode id world)
    (hvendor : mode.marking → ∀ member ∈ members, member.id = id → member.vendor ≠ "") :
    RefreshInv mode id (world.sadd members) ∧
      RefreshGuar mode id thread world (world.sadd members) := by
  refine held_step hinv rfl rfl rfl (fun _ _ => ⟨rfl, rfl, rfl⟩) fun hmode => ?_
  obtain ⟨h1, h2, h3, h4, h5, h6, h7⟩ := hinv.mark hmode
  have hmono : world.Marked id → (world.sadd members).Marked id :=
    fun ⟨member, hmem, hid⟩ => ⟨member, mem_union_left hmem _, hid⟩
  refine ⟨h1, h2, fun member hmem hid => ?_, fun hlt hsome => (h4 hlt hsome).imp_left hmono,
    fun other tx hopen hmem => hmono (h5 other tx hopen hmem), h6, h7⟩
  rcases mem_union_iff.mp hmem with hmem | hmem
  · exact h3 member hmem hid
  · exact hvendor hmode member hmem hid

theorem marked_sadd (h : ∃ member ∈ members, member.id = id) : (world.sadd members).Marked id := by
  obtain ⟨member, hmem, hid⟩ := h
  exact ⟨member, mem_union_right _ hmem, hid⟩

theorem add_step {member : Member} (hinv : RefreshInv mode id world)
    (hvendor : mode.marking → member.id = id → member.vendor ≠ "") :
    RefreshInv mode id ((world.sadd [member]).inTx thread fun tx =>
        { tx with added := member.id :: tx.added }) ∧
      RefreshGuar mode id thread world ((world.sadd [member]).inTx thread fun tx =>
        { tx with added := member.id :: tx.added }) := by
  obtain ⟨hadd, hguar⟩ : RefreshInv mode id (world.sadd [member]) ∧
      RefreshGuar mode id thread world (world.sadd [member]) :=
    sadd_step hinv fun hmode other hother hid => by
      rw [mem_singleton] at hother
      exact hother ▸ hvendor hmode (hother ▸ hid)
  refine (setTx_step hadd fun hmode tx htx hmem => ?_).imp_right hguar.trans
  obtain ⟨old, hold, rfl⟩ := Option.map_eq_some_iff.mp htx
  rcases mem_cons.mp hmem with hid | hmem
  · exact marked_sadd ⟨member, mem_singleton_self _, hid.symm⟩
  · exact (hadd.mark hmode).added_marked thread old hold hmem

/-- What a pop or a requeue does to the record. -/
theorem TaskWorld.pop_audit (members : List Member) :
    (world.pop thread members).audit id = { world.audit id with
      held := if ∃ member ∈ members, member.id = id then
        update (world.audit id).held thread (some (world.audit id).updates)
        else (world.audit id).held } := by
  simp only [pop]
  split_ifs <;> rfl

theorem TaskWorld.requeue_audit (members : List Member) :
    (world.requeue thread members).audit id = { world.audit id with
      held := if ∃ member ∈ members, member.id = id then
        update (world.audit id).held thread none else (world.audit id).held } := by
  simp only [requeue]
  split_ifs <;> rfl

theorem marked_pop (hmarked : world.Marked id) (hpopped : ¬ ∃ member ∈ members, member.id = id) :
    (world.pop thread members).Marked id := by
  obtain ⟨member, hmem, hid⟩ := hmarked
  refine ⟨member, mem_filter.mpr ⟨hmem, ?_⟩, hid⟩
  simpa using fun hpop => hpopped ⟨member, hpop, hid⟩

variable (hinv : RefreshInv mode id world)
include hinv

/-- **Popping.**  What was marked is now held by the scan. -/
theorem pop_step (hscans : mode.marking → world.scans thread = true)
    (hclosed : mode.marking → (∃ member ∈ members, member.id = id) →
      ∀ other tx, world.transactions other = some tx → id ∉ tx.added) :
    RefreshInv mode id (world.pop thread members) ∧
      RefreshGuar mode id thread world (world.pop thread members) := by
  refine held_step hinv rfl rfl (pop_audit members)
    (fun other hne => ⟨?_, rfl, rfl⟩) fun hmode => ?_
  · split_ifs
    · exact update_of_ne hne _ _
    · rfl
  · have hmark := hinv.mark hmode
    refine ⟨hmark.exists_row, hmark.ids_nodup, fun member hmem =>
      hmark.vendor_ne member (mem_of_mem_filter hmem), ?_, ?_, ?_, ?_⟩ <;>
      try simp only [pop_audit]
    · intro hlt hsome
      split_ifs with hpopped
      · exact .inr ⟨thread, update_self ..⟩
      · exact (hmark.marked hlt hsome).imp_left fun hmarked => marked_pop hmarked hpopped
    · intro other tx hopen hmem
      by_cases hpopped : ∃ member ∈ members, member.id = id
      · exact absurd hmem (hclosed hmode hpopped other tx hopen)
      · exact marked_pop (hmark.added_marked other tx hopen hmem) hpopped
    · intro other count hcount
      split_ifs at hcount
      · rw [update_apply] at hcount
        split_ifs at hcount
        · exact (Option.some.inj hcount).ge
        · exact hmark.held_le other count hcount
      · exact hmark.held_le other count hcount
    · intro other hother
      by_cases hthread : other = thread
      · exact hthread ▸ hscans hmode
      · split_ifs at hother
        · rw [update_of_ne hthread] at hother
          exact hmark.held_scans other hother
        · exact hmark.held_scans other hother

/-- **Putting back.**  What the scan held is marked again. -/
theorem requeue_step
    (hvendor : mode.marking → ∀ member ∈ members, member.id = id → member.vendor ≠ "") :
    RefreshInv mode id (world.requeue thread members) ∧
      RefreshGuar mode id thread world (world.requeue thread members) := by
  refine held_step hinv rfl rfl (requeue_audit members)
    (fun other hne => ⟨?_, rfl, rfl⟩) fun hmode => ?_
  · split_ifs
    · exact update_of_ne hne _ _
    · rfl
  · have hmark := hinv.mark hmode
    obtain ⟨hsadd, -⟩ : RefreshInv mode id (world.sadd members) ∧
        RefreshGuar mode id thread world (world.sadd members) := sadd_step hinv hvendor
    have hmark' := hsadd.mark hmode
    refine ⟨hmark.exists_row, hmark.ids_nodup, hmark'.vendor_ne, ?_, hmark'.added_marked,
      ?_, ?_⟩ <;>
      simp only [requeue_audit]
    · intro hlt hsome
      split_ifs with hput
      · exact .inl (marked_sadd hput)
      · exact hmark'.marked hlt hsome
    · intro other count hcount
      split_ifs at hcount
      · rw [update_apply] at hcount
        split_ifs at hcount
        exact hmark.held_le other count hcount
      · exact hmark.held_le other count hcount
    · intro other hother
      split_ifs at hother
      · rw [update_apply] at hother
        split_ifs at hother
        · exact absurd rfl hother
        · exact hmark.held_scans other hother
      · exact hmark.held_scans other hother

theorem setScan_step {scanning : Bool}
    (hheld : mode.marking → scanning = false → (world.audit id).held thread = none) :
    RefreshInv mode id (world.setScan thread scanning) ∧
      RefreshGuar mode id thread world (world.setScan thread scanning) := by
  refine held_step hinv rfl rfl rfl
    (fun other hne => ⟨rfl, rfl, update_of_ne hne _ _⟩) fun hmode => ?_
  obtain ⟨h1, h2, h3, h4, h5, h6, hscans⟩ := hinv.mark hmode
  refine ⟨h1, h2, h3, h4, h5, h6, fun other hother => ?_⟩
  simp only [setScan, update_apply]
  split_ifs with hthread
  · cases scanning with
    | true => rfl
    | false => exact absurd (hthread ▸ hheld hmode rfl) hother
  · exact hscans other hother

theorem commit_step (haccepts : mode.marking → ∀ tx, world.transactions thread = some tx →
      world.Accepts id (tx.writes.foldl Statement.apply world.tasks)) :
    RefreshInv mode id (world.commit thread) ∧
      RefreshGuar mode id thread world (world.commit thread) := by
  unfold commit
  cases htx : world.transactions thread with
  | none => exact ⟨hinv, .refl _ _⟩
  | some tx =>
    obtain ⟨hclosed, hguar⟩ : RefreshInv mode id (world.setTx thread none) ∧
        RefreshGuar mode id thread world (world.setTx thread none) :=
      setTx_step hinv fun _ open_ hopen => by cases hopen
    exact (setTasks_step hclosed fun hmode => haccepts hmode tx htx).imp_right hguar.trans

end Steps

end Harbor.Tasks
