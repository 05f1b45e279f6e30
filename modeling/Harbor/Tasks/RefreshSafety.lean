import Harbor.Concurrency.RelyGuarantee
import Harbor.Tasks.Refresh

/-!
# What refreshing keeps

One execution is fixed, and its record is compared with the tables.  The
status is stored together with the number of task updates it was computed from,
its *basis*: the revision makes sure that the basis never decreases, so once it
has reached the number of updates, the stored status is the aggregate.

Two further parts of the invariant hold under conditions of their own, and a
`Mode` tells which of them are considered.  One is about reports: every change of
the stored status has been reported or is still to be reported by the call that
made it.  The other is about the asynchronous mode: an execution with a stale
status is a member of the outdated set, or some scan has popped it since the last
update.

`refresh_compatible` is what parallel composition asks of the rely and the guarantee.  Steps
that concern other executions are dealt with once, by `SameFor`.  The others have a lemma
each: `enter_step`, `Counted.cas_step`, `Finished.setEndTime_step`, `InCall.leave_step` and
`Finished.leave_step`, put together from what becomes of each part of the invariant
(`BasisInv.refreshed`, `ReportInv.record_change`, `MarkInv.returned`).
-/

namespace Harbor.Tasks

open Harbor.Concurrency List Function TaskWorld Audit

/-! ## The invariant -/

/-- The stored status is the aggregate of the tasks. -/
def TaskWorld.Consistent (world : TaskWorld) (id : ℤ) : Prop :=
  ∀ row status, world.executions id = some row → aggregateOf world.tasks id = some status →
    row.status = status

/-- The execution is a member of the outdated set. -/
def TaskWorld.Marked (world : TaskWorld) (id : ℤ) : Prop :=
  ∃ member ∈ world.outdated, member.id = id

/-- The stored status and its basis. -/
structure BasisInv (id : ℤ) (world : TaskWorld) : Prop where
  basis_le : (world.audit id).basis ≤ (world.audit id).updates
  covered_le : (world.audit id).covered ≤ (world.audit id).updates
  calls_le : ∀ thread start, (world.audit id).calls thread = some start →
    start ≤ (world.audit id).updates
  current : (world.audit id).basis = (world.audit id).updates → world.Consistent id
  covered : (world.audit id).covered = (world.audit id).updates →
    (world.audit id).basis = (world.audit id).updates ∨ aggregateOf world.tasks id = none

/-- Each change was reported once or is owed by one call. -/
structure ReportInv (id : ℤ) (world : TaskWorld) : Prop where
  changes_nodup : (world.audit id).changes.Nodup
  reports_nodup : (world.audit id).reports.Nodup
  reports_subset : ∀ change ∈ (world.audit id).reports, change ∈ (world.audit id).changes
  owed_mem : ∀ thread change, (world.audit id).owed thread = some change →
    change ∈ (world.audit id).changes ∧ change ∉ (world.audit id).reports
  owed_inj : ∀ thread other change, (world.audit id).owed thread = some change →
    (world.audit id).owed other = some change → thread = other
  owed_called : ∀ thread, (world.audit id).owed thread ≠ none →
    (world.audit id).calls thread ≠ none
  accounted : ∀ change ∈ (world.audit id).changes, change ∈ (world.audit id).reports ∨
    ∃ thread, (world.audit id).owed thread = some change
  revision_le : ∀ change ∈ (world.audit id).changes, ∀ row, world.executions id = some row →
    change.revision ≤ row.revision

/-- A stale status is known to the set or to a scan. -/
structure MarkInv (id : ℤ) (world : TaskWorld) : Prop where
  exists_row : ∃ row, world.executions id = some row
  ids_nodup : (world.tasks.map TaskRow.id).Nodup
  vendor_ne : ∀ member ∈ world.outdated, member.id = id → member.vendor ≠ ""
  marked : (world.audit id).basis < (world.audit id).updates →
    aggregateOf world.tasks id ≠ none →
      world.Marked id ∨ ∃ thread, (world.audit id).held thread = some (world.audit id).updates
  added_marked : ∀ thread tx, world.transactions thread = some tx → id ∈ tx.added →
    world.Marked id
  held_le : ∀ thread count, (world.audit id).held thread = some count →
    count ≤ (world.audit id).updates
  held_scans : ∀ thread, (world.audit id).held thread ≠ none → world.scans thread = true

/-- Which parts of the invariant are considered. -/
structure Mode where
  reporting : Prop
  marking : Prop

structure RefreshInv (mode : Mode) (id : ℤ) (world : TaskWorld) : Prop where
  basis : BasisInv id world
  report : mode.reporting → ReportInv id world
  mark : mode.marking → MarkInv id world

/-! ## What the others may do -/

/-- The row of an execution moves on: its revision tells whether it was refreshed. -/
def RowMoves (id : ℤ) (before after : TaskWorld) : Prop :=
  ∀ row, before.executions id = some row → ∃ row', after.executions id = some row' ∧
    row.revision ≤ row'.revision ∧ (row'.revision = row.revision →
      row'.status = row.status ∧ (after.audit id).basis = (before.audit id).basis)

/-- Which task belongs to which execution. -/
def TaskWorld.owners (world : TaskWorld) : List (ℤ × ℤ) :=
  world.tasks.map fun row => (row.id, row.executionID)

/-- What every step keeps to. -/
structure Progress (mode : Mode) (id : ℤ) (before after : TaskWorld) : Prop where
  updates_le : (before.audit id).updates ≤ (after.audit id).updates
  basis_le : (before.audit id).basis ≤ (after.audit id).basis
  tasks_eq : (after.audit id).updates = (before.audit id).updates →
    tasksOf after.tasks id = tasksOf before.tasks id
  row_moves : RowMoves id before after
  owners_eq : mode.marking → after.owners = before.owners

/-- What only the thread itself changes. -/
structure Keeps (id : ℤ) (thread : ℕ) (before after : TaskWorld) : Prop where
  calls : (after.audit id).calls thread = (before.audit id).calls thread
  owed : (after.audit id).owed thread = (before.audit id).owed thread
  held : (after.audit id).held thread = (before.audit id).held thread
  transaction : after.transactions thread = before.transactions thread
  scans : after.scans thread = before.scans thread

def RefreshRely (mode : Mode) (id : ℤ) (thread : ℕ) (before after : TaskWorld) : Prop :=
  Progress mode id before after ∧ Keeps id thread before after

def RefreshGuar (mode : Mode) (id : ℤ) (thread : ℕ) (before after : TaskWorld) : Prop :=
  Progress mode id before after ∧ ∀ other, other ≠ thread → Keeps id other before after

section Relations

variable {mode : Mode} {id : ℤ} {a b c : TaskWorld}

theorem RowMoves.refl (world : TaskWorld) : RowMoves id world world :=
  fun row hrow => ⟨row, hrow, le_rfl, fun _ => ⟨rfl, rfl⟩⟩

theorem RowMoves.trans (hab : RowMoves id a b) (hbc : RowMoves id b c) : RowMoves id a c := by
  intro row hrow
  obtain ⟨middle, hmiddle, hle, hsame⟩ := hab row hrow
  obtain ⟨last, hlast, hle', hsame'⟩ := hbc middle hmiddle
  refine ⟨last, hlast, hle.trans hle', fun hrevision => ?_⟩
  obtain ⟨hstatus, hbasis⟩ := hsame (by omega)
  obtain ⟨hstatus', hbasis'⟩ := hsame' (by omega)
  exact ⟨hstatus'.trans hstatus, hbasis'.trans hbasis⟩

theorem Progress.refl (world : TaskWorld) : Progress mode id world world :=
  ⟨le_rfl, le_rfl, fun _ => rfl, .refl world, fun _ => rfl⟩

theorem Progress.trans (hab : Progress mode id a b) (hbc : Progress mode id b c) :
    Progress mode id a c where
  updates_le := hab.updates_le.trans hbc.updates_le
  basis_le := hab.basis_le.trans hbc.basis_le
  tasks_eq := fun hupdates => by
    have hle := hab.updates_le
    have hle' := hbc.updates_le
    rw [hbc.tasks_eq (by omega), hab.tasks_eq (by omega)]
  row_moves := hab.row_moves.trans hbc.row_moves
  owners_eq := fun hmode => (hbc.owners_eq hmode).trans (hab.owners_eq hmode)

theorem Keeps.refl (thread : ℕ) (world : TaskWorld) : Keeps id thread world world :=
  ⟨rfl, rfl, rfl, rfl, rfl⟩

theorem Keeps.trans {thread : ℕ} (hab : Keeps id thread a b) (hbc : Keeps id thread b c) :
    Keeps id thread a c where
  calls := hbc.calls.trans hab.calls
  owed := hbc.owed.trans hab.owed
  held := hbc.held.trans hab.held
  transaction := hbc.transaction.trans hab.transaction
  scans := hbc.scans.trans hab.scans

theorem RefreshGuar.refl (thread : ℕ) (world : TaskWorld) :
    RefreshGuar mode id thread world world :=
  ⟨.refl world, fun _ _ => .refl _ world⟩

theorem RefreshGuar.trans {thread : ℕ} (hab : RefreshGuar mode id thread a b)
    (hbc : RefreshGuar mode id thread b c) : RefreshGuar mode id thread a c :=
  ⟨hab.1.trans hbc.1, fun other hne => (hab.2 other hne).trans (hbc.2 other hne)⟩

theorem refresh_compatible :
    Pool.Compatible (RefreshInv mode id) (RefreshRely mode id) (RefreshGuar mode id) where
  refl := fun _ _ => ⟨.refl _, .refl _ _⟩
  trans := fun _ _ _ _ hab hbc => ⟨hab.1.trans hbc.1, hab.2.trans hbc.2⟩
  guar_rely := fun _ _ _ _ hne _ _ hguar => ⟨hguar.1, hguar.2 _ hne.symm⟩

end Relations

/-! ## Which steps are allowed -/

/-- A statement that sets the end time does not fail in a call that owes a report. -/
def EndTimeKept (id : ℤ) (world : TaskWorld) : RefreshOp → RefreshChoice → Prop
  | .setEndTime thread other, choice =>
    other = id → choice.failure = true → (world.audit id).owed thread = none
  | _, _ => True

/-- The execution is not popped while a transaction that has added it is open, it is
not added without a vendor type, and it is put back when its refresh has failed. -/
def MarkersKept (id : ℤ) (world : TaskWorld) : RefreshOp → RefreshChoice → Prop
  | .pop _, choice => (∃ member ∈ choice.popped, member.id = id) →
      ∀ thread tx, world.transactions thread = some tx → id ∉ tx.added
  | .add _ member, _ => member.id = id → member.vendor ≠ ""
  | .requeue _ members, choice => (∃ member ∈ members, member.id = id) → choice.failure = false
  | _, _ => True

def RefreshAllowed (mode : Mode) (id : ℤ) (world : TaskWorld) (op : RefreshOp)
    (choice : RefreshChoice) : Prop :=
  (mode.reporting → EndTimeKept id world op choice) ∧
    (mode.marking → MarkersKept id world op choice)

/-! ## Steps that do not concern the execution -/

/-- Nothing that the execution depends on has changed. -/
structure SameFor (id : ℤ) (before after : TaskWorld) : Prop where
  tasks : after.tasks = before.tasks
  row : after.executions id = before.executions id
  audit : after.audit id = before.audit id
  transactions : after.transactions = before.transactions
  outdated : after.outdated = before.outdated
  scans : after.scans = before.scans

section Steps

variable {mode : Mode} {id : ℤ} {thread : ℕ} {before after world : TaskWorld} {other : ℤ}
  {row row' : ExecutionRow} {result : RefreshResult}

theorem SameFor.inv (h : SameFor id before after) (hinv : RefreshInv mode id before) :
    RefreshInv mode id after := by
  obtain ⟨htasks, hrow, haudit, htransactions, houtdated, hscans⟩ := h
  refine ⟨?_, fun hmode => ?_, fun hmode => ?_⟩
  · obtain ⟨_, _, _, _, _⟩ := hinv.basis
    constructor <;> simp only [haudit, htasks, hrow, TaskWorld.Consistent] <;> assumption
  · obtain ⟨_, _, _, _, _, _, _, _⟩ := hinv.report hmode
    constructor <;> simp only [haudit, hrow] <;> assumption
  · obtain ⟨_, _, _, _, _, _, _⟩ := hinv.mark hmode
    constructor <;>
      simp only [haudit, htasks, hrow, htransactions, houtdated, hscans, TaskWorld.Marked] <;>
      assumption

theorem SameFor.guar (h : SameFor id before after) : RefreshGuar mode id thread before after := by
  obtain ⟨htasks, hrow, haudit, htransactions, houtdated, hscans⟩ := h
  refine ⟨⟨?_, ?_, fun _ => ?_, fun row hbefore => ?_, fun _ => ?_⟩, fun other _ => ?_⟩
  · rw [haudit]
  · rw [haudit]
  · rw [htasks]
  · exact ⟨row, hrow.trans hbefore, le_rfl, fun _ => ⟨rfl, by rw [haudit]⟩⟩
  · simp only [owners, htasks]
  · constructor <;> simp only [haudit, htransactions, hscans]

@[simp] theorem TaskWorld.record_audit (change : Audit → Audit) :
    (world.record id change).audit id = change (world.audit id) :=
  update_self ..

theorem TaskWorld.sameFor_record (hne : other ≠ id) (change : Audit → Audit) :
    SameFor id world (world.record other change) :=
  ⟨rfl, rfl, update_of_ne hne.symm _ _, rfl, rfl, rfl⟩

theorem TaskWorld.sameFor_setRow (hne : other ≠ id) (row : ExecutionRow) :
    SameFor id world (world.setRow other row) :=
  ⟨rfl, update_of_ne hne.symm _ _, rfl, rfl, rfl, rfl⟩

theorem TaskWorld.sameFor_setEndTime (hne : other ≠ id) :
    SameFor id world (world.setEndTime other) := by
  unfold setEndTime
  cases world.executions other with
  | none => exact ⟨rfl, rfl, rfl, rfl, rfl, rfl⟩
  | some row => exact sameFor_setRow hne _

/-- The operations of refreshing an execution with an ID in `P`. -/
def RefreshOp.Refreshes (P : ℤ → Prop) : RefreshOp → Prop
  | .enter _ other => P other
  | .leave _ other _ => P other
  | .getExecution _ => True
  | .listStatusCount _ => True
  | .casStatus _ other _ _ _ => P other
  | .setEndTime _ other => P other
  | _ => False

theorem TaskWorld.casStatus_eq_some {seen : ℕ} {status : String} {revision : ℤ}
    (h : world.casStatus thread id status revision seen = some after) :
    ∃ row, world.executions id = some row ∧ row.revision = revision ∧
      after = (world.setRow id { row with status, revision := revision + 1 }).record id
        fun audit => audit.refreshed thread seen
          (if row.status = status then none else some ⟨revision + 1, status⟩) := by
  unfold casStatus at h
  cases hrow : world.executions id with
  | none => simp [hrow] at h
  | some row =>
    simp only [hrow] at h
    by_cases hrevision : row.revision = revision
    · rw [if_pos hrevision] at h
      exact ⟨row, rfl, hrevision, (Option.some.inj h).symm⟩
    · rw [if_neg hrevision] at h
      cases h

theorem SameFor.refl (world : TaskWorld) : SameFor id world world := ⟨rfl, rfl, rfl, rfl, rfl, rfl⟩

/-- Refreshing an execution does not concern any other. -/
theorem sameFor_of_refreshes {P : ℤ → Prop} {op : RefreshOp} {choice : RefreshChoice}
    {reply : RefreshReply op} (hop : op.Refreshes P) (hid : ∀ other, P other → other ≠ id)
    (hsem : refreshSem world op choice = some (after, reply)) : SameFor id world after := by
  cases op with
  | enter thread other | leave thread other result =>
    cases hsem
    exact sameFor_record (hid other hop) _
  | getExecution other =>
    simp only [refreshSem] at hsem
    split at hsem
    · cases hsem
      exact .refl _
    · split at hsem <;>
      · cases hsem
        exact .refl _
  | listStatusCount other =>
    simp only [refreshSem] at hsem
    split_ifs at hsem <;>
    · cases hsem
      exact .refl _
  | casStatus thread other status revision seen =>
    have hne := hid other hop
    simp only [refreshSem] at hsem
    split at hsem
    · cases hsem
      exact .refl _
    · split at hsem
      · next hcas =>
        cases hsem
        obtain ⟨row, hrow, -, rfl⟩ := casStatus_eq_some hcas
        exact ⟨rfl, update_of_ne hne.symm _ _, update_of_ne hne.symm _ _, rfl, rfl, rfl⟩
      · cases hsem
        exact .refl _
  | setEndTime thread other =>
    simp only [refreshSem] at hsem
    split_ifs at hsem
    · cases hsem
      exact .refl _
    · cases hsem
      exact sameFor_setEndTime (hid other hop)
  | _ => exact hop.elim

theorem scans_of_refreshes {op : RefreshOp} {choice : RefreshChoice} {reply : RefreshReply op}
    (hop : op.Refreshes (· = id)) (hsem : refreshSem world op choice = some (after, reply)) :
    after.scans = world.scans := by
  have hsame : SameFor (id + 1) world after := sameFor_of_refreshes hop (by intros; omega) hsem
  exact hsame.scans

/-! ## The steps of a refresh -/

/-- The thread is in a call that has not stored a status. -/
structure InCall (mode : Mode) (id : ℤ) (thread start : ℕ) (popAt : Option ℕ)
    (world : TaskWorld) : Prop where
  call : (world.audit id).calls thread = some start
  owed : mode.reporting → (world.audit id).owed thread = none
  held : (world.audit id).held thread = popAt
  held_le : mode.marking → ∀ count, popAt = some count → count ≤ start

/-- A change of the record of the execution only, as far as the other threads and the
counters are concerned. -/
theorem guar_record {change : Audit → Audit}
    (hupdates : (change (world.audit id)).updates = (world.audit id).updates)
    (hbasis : (change (world.audit id)).basis = (world.audit id).basis)
    (hothers : ∀ other, other ≠ thread →
      (change (world.audit id)).calls other = (world.audit id).calls other ∧
      (change (world.audit id)).owed other = (world.audit id).owed other ∧
      (change (world.audit id)).held other = (world.audit id).held other) :
    RefreshGuar mode id thread world (world.record id change) := by
  refine ⟨⟨?_, ?_, fun _ => rfl, fun row hrow => ?_, fun _ => rfl⟩, fun other hne => ?_⟩
  · rw [record_audit, hupdates]
  · rw [record_audit, hbasis]
  · exact ⟨row, hrow, le_rfl, fun _ => ⟨rfl, by rw [record_audit, hbasis]⟩⟩
  · obtain ⟨hcalls, howed, hheld⟩ := hothers other hne
    constructor
    · rw [record_audit, hcalls]
    · rw [record_audit, howed]
    · rw [record_audit, hheld]
    · rfl
    · rfl

/-- A call starts or fails: only the start of the call of the thread is recorded. -/
theorem setCall_step {call : Option ℕ} (hinv : RefreshInv mode id world)
    (hcall : ∀ start, call = some start → start ≤ (world.audit id).updates)
    (howed : mode.reporting → call = none → (world.audit id).owed thread = none) :
    RefreshInv mode id (world.record id fun audit =>
        { audit with calls := update audit.calls thread call }) ∧
      RefreshGuar mode id thread world (world.record id fun audit =>
        { audit with calls := update audit.calls thread call }) := by
  refine ⟨⟨?_, fun hmode => ?_, fun hmode => ?_⟩, ?_⟩
  · obtain ⟨hbasis, hcovered, hcalls, hcurrent, himplies⟩ := hinv.basis
    constructor <;> simp only [record_audit]
    case calls_le =>
      intro other start hstart
      rw [update_apply] at hstart
      split_ifs at hstart
      · exact hcall start hstart
      · exact hcalls other start hstart
    all_goals assumption
  · obtain ⟨_, _, _, _, _, hcalled, _, _⟩ := hinv.report hmode
    constructor <;> simp only [record_audit]
    case owed_called =>
      intro other hother hnone
      rw [update_apply] at hnone
      split_ifs at hnone with hthread
      · exact hother (hthread ▸ howed hmode hnone)
      · exact hcalled other hother hnone
    all_goals assumption
  · obtain ⟨_, _, _, _, _, _, _⟩ := hinv.mark hmode
    constructor <;> simpa only [record_audit]
  · exact guar_record rfl rfl fun other hne => ⟨update_of_ne hne _ _, rfl, rfl⟩

theorem enter_step (hinv : RefreshInv mode id world)
    (hidle : (world.audit id).calls thread = none) :
    RefreshInv mode id (world.record id fun audit => audit.entered thread) ∧
      RefreshGuar mode id thread world (world.record id fun audit => audit.entered thread) ∧
      InCall mode id thread (world.audit id).updates ((world.audit id).held thread)
        (world.record id fun audit => audit.entered thread) := by
  refine and_assoc.mp ⟨setCall_step hinv (fun _ hstart => (Option.some.inj hstart).ge) ?_, ?_⟩
  · exact fun _ hnone => absurd hnone (by simp)
  · constructor
    · simp [entered]
    · intro hmode
      by_contra howed
      exact (hinv.report hmode).owed_called thread (by simpa [entered] using howed) hidle
    · simp [entered]
    · exact fun hmode count hcount => (hinv.mark hmode).held_le thread count hcount

/-- The thread has read the row of the execution; if the revision is still the
same, so is the status, and its basis is within `bound`. -/
structure Known (mode : Mode) (id : ℤ) (thread start : ℕ) (popAt : Option ℕ)
    (execution : ExecutionRow) (bound : ℕ) (world : TaskWorld) : Prop
    extends InCall mode id thread start popAt world where
  row : ∃ row, world.executions id = some row ∧ execution.revision ≤ row.revision ∧
    (row.revision = execution.revision →
      row.status = execution.status ∧ (world.audit id).basis ≤ bound)
  start_le : start ≤ bound
  bound_le : bound ≤ (world.audit id).updates

/-- The thread has read the counts as well. -/
structure Counted (mode : Mode) (id : ℤ) (thread start : ℕ) (popAt : Option ℕ)
    (execution : ExecutionRow) (metrics : Metrics) (seen : ℕ) (world : TaskWorld) : Prop
    extends Known mode id thread start popAt execution seen world where
  metrics_eq : (world.audit id).updates = seen →
    metrics = getMetrics (listStatusCount world.tasks id)

/-- The call has done its work: if no task was updated since its start, the status
is the aggregate. -/
structure Finished (mode : Mode) (id : ℤ) (thread start : ℕ) (popAt : Option ℕ)
    (change : Option Change) (world : TaskWorld) : Prop where
  call : (world.audit id).calls thread = some start
  owed : mode.reporting → (world.audit id).owed thread = change
  held : (world.audit id).held thread = popAt
  held_le : mode.marking → ∀ count, popAt = some count → count ≤ start
  start_le : start ≤ (world.audit id).updates
  reflected : (world.audit id).updates = start →
    (world.audit id).updates ≤ (world.audit id).basis ∨ aggregateOf world.tasks id = none

variable {start seen : ℕ} {popAt : Option ℕ} {execution : ExecutionRow} {metrics : Metrics}
  {change : Option Change}

theorem InCall.stable (h : InCall mode id thread start popAt before)
    (hrely : RefreshRely mode id thread before after) :
    InCall mode id thread start popAt after where
  call := hrely.2.calls.trans h.call
  owed := fun hmode => hrely.2.owed.trans (h.owed hmode)
  held := hrely.2.held.trans h.held
  held_le := h.held_le

theorem Known.stable {bound : ℕ} (h : Known mode id thread start popAt execution bound before)
    (hrely : RefreshRely mode id thread before after) :
    Known mode id thread start popAt execution bound after where
  toInCall := h.toInCall.stable hrely
  row := by
    obtain ⟨row, hrow, hle, hsame⟩ := h.row
    obtain ⟨row', hrow', hle', hsame'⟩ := hrely.1.row_moves row hrow
    refine ⟨row', hrow', hle.trans hle', fun hrevision => ?_⟩
    obtain ⟨hstatus, hbasis⟩ := hsame (by omega)
    obtain ⟨hstatus', hbasis'⟩ := hsame' (by omega)
    exact ⟨hstatus'.trans hstatus, hbasis'.trans_le hbasis⟩
  start_le := h.start_le
  bound_le := h.bound_le.trans hrely.1.updates_le

theorem Counted.stable (h : Counted mode id thread start popAt execution metrics seen before)
    (hrely : RefreshRely mode id thread before after) :
    Counted mode id thread start popAt execution metrics seen after where
  toKnown := h.toKnown.stable hrely
  metrics_eq := fun hseen => by
    have hle := h.bound_le
    have hle' := hrely.1.updates_le
    rw [h.metrics_eq (by omega), listStatusCount, listStatusCount, hrely.1.tasks_eq (by omega)]

theorem Finished.stable (h : Finished mode id thread start popAt change before)
    (hrely : RefreshRely mode id thread before after) :
    Finished mode id thread start popAt change after where
  call := hrely.2.calls.trans h.call
  owed := fun hmode => hrely.2.owed.trans (h.owed hmode)
  held := hrely.2.held.trans h.held
  held_le := h.held_le
  start_le := h.start_le.trans hrely.1.updates_le
  reflected := fun hstart => by
    have hle := h.start_le
    have hle' := hrely.1.updates_le
    have hbasis := hrely.1.basis_le
    rw [aggregateOf, hrely.1.tasks_eq (by omega)]
    exact (h.reflected (by omega)).imp_left (by omega)

theorem InCall.known (h : InCall mode id thread start popAt world) (hinv : RefreshInv mode id world)
    (hrow : world.executions id = some row) :
    Known mode id thread start popAt row (world.audit id).updates world where
  toInCall := h
  row := ⟨row, hrow, le_rfl, fun _ => ⟨rfl, hinv.basis.basis_le⟩⟩
  start_le := hinv.basis.calls_le thread start h.call
  bound_le := le_rfl

theorem Known.counted {bound : ℕ} (h : Known mode id thread start popAt execution bound world) :
    Counted mode id thread start popAt execution
      (getMetrics (listStatusCount world.tasks id)) (world.audit id).updates world where
  toInCall := h.toInCall
  row := by
    obtain ⟨row, hrow, hle, hsame⟩ := h.row
    exact ⟨row, hrow, hle, fun hrevision =>
      ⟨(hsame hrevision).1, (hsame hrevision).2.trans h.bound_le⟩⟩
  start_le := h.start_le.trans h.bound_le
  bound_le := le_rfl
  metrics_eq := fun _ => rfl

theorem Counted.finished_of_taskCount
    (h : Counted mode id thread start popAt execution metrics seen world)
    (hzero : metrics.taskCount = 0) : Finished mode id thread start popAt none world where
  call := h.call
  owed := h.owed
  held := h.held
  held_le := h.held_le
  start_le := h.start_le.trans h.bound_le
  reflected := fun hstart => by
    have hle := h.start_le
    have hle' := h.bound_le
    right
    rw [aggregateOf_eq, ← h.metrics_eq (by omega), if_pos hzero]

/-! ### Storing the status -/

section Refreshed

variable (audit : Audit) (thread seen : ℕ) (change : Option Change)

@[simp] theorem Audit.refreshed_fields :
    (audit.refreshed thread seen change).updates = audit.updates ∧
      (audit.refreshed thread seen change).basis = seen ∧
      (audit.refreshed thread seen change).covered = audit.covered ∧
      (audit.refreshed thread seen change).calls = audit.calls ∧
      (audit.refreshed thread seen change).held = audit.held := by
  cases change <;> exact ⟨rfl, rfl, rfl, rfl, rfl⟩

@[simp] theorem Audit.refreshed_owed_of_ne {other : ℕ} (hne : other ≠ thread) :
    (audit.refreshed thread seen change).owed other = audit.owed other := by
  cases change with
  | none => rfl
  | some change => exact update_of_ne hne _ _

end Refreshed

/-- A new change, made by a thread that owes none. -/
theorem ReportInv.record_change {change : Change} (h : ReportInv id world)
    (hrow : world.executions id = some row) (howed : (world.audit id).owed thread = none)
    (hcalls : (world.audit id).calls thread ≠ none) (hnew : change.revision = row'.revision)
    (hlt : row.revision < row'.revision) :
    ReportInv id ((world.setRow id row').record id
      fun audit => audit.refreshed thread seen (some change)) := by
  have hfresh : change ∉ (world.audit id).changes := by
    intro hmem
    have hle := h.revision_le change hmem row hrow
    omega
  constructor <;> simp only [refreshed, setRow, record, update_self]
  case changes_nodup =>
    exact h.changes_nodup.append (nodup_singleton _) (disjoint_singleton.mpr hfresh)
  case reports_nodup => exact h.reports_nodup
  case reports_subset =>
    exact fun old hold => mem_append_left _ (h.reports_subset old hold)
  case owed_mem =>
    intro other old hold
    rw [update_apply] at hold
    split_ifs at hold with hother
    · cases hold
      exact ⟨by simp, fun hreported => hfresh (h.reports_subset _ hreported)⟩
    · exact ⟨mem_append_left _ (h.owed_mem other old hold).1, (h.owed_mem other old hold).2⟩
  case owed_inj =>
    intro first second old hfirst hsecond
    rw [update_apply] at hfirst hsecond
    split_ifs at hfirst hsecond with hthread hthread' hthread'
    · rw [hthread, hthread']
    · cases hfirst
      exact absurd (h.owed_mem second _ hsecond).1 hfresh
    · cases hsecond
      exact absurd (h.owed_mem first _ hfirst).1 hfresh
    · exact h.owed_inj first second old hfirst hsecond
  case owed_called =>
    intro other hother
    rw [update_apply] at hother
    split_ifs at hother with hthread
    · exact hthread ▸ hcalls
    · exact h.owed_called other hother
  case accounted =>
    intro old hold
    rw [mem_append, mem_singleton] at hold
    rcases hold with hold | rfl
    · refine (h.accounted old hold).imp_right ?_
      rintro ⟨other, hother⟩
      have hne : other ≠ thread := by
        rintro rfl
        simp [howed] at hother
      exact ⟨other, by rw [update_of_ne hne, hother]⟩
    · exact .inr ⟨thread, update_self ..⟩
  case revision_le =>
    intro old hold last hlast
    cases hlast
    rw [mem_append, mem_singleton] at hold
    rcases hold with hold | rfl
    · exact (h.revision_le old hold row hrow).trans hlt.le
    · exact hnew.le

/-- The row is replaced by a later one; nothing is reported about it. -/
theorem ReportInv.record_row (h : ReportInv id world) (hrow : world.executions id = some row)
    (hle : row.revision ≤ row'.revision) :
    ReportInv id ((world.setRow id row').record id
      fun audit => audit.refreshed thread seen none) := by
  obtain ⟨_, _, _, _, _, _, _, hrevision⟩ := h
  constructor <;> simp only [record_audit, refreshed, setRow]
  case revision_le =>
    intro old hold last hlast
    obtain rfl : row' = last := by simpa [record] using hlast
    exact (hrevision old hold row hrow).trans hle
  all_goals assumption

@[simp] theorem TaskWorld.setRow_audit (row : ExecutionRow) :
    (world.setRow id row).audit = world.audit := rfl

theorem TaskWorld.record_setRow {change : Audit → Audit} :
    ((world.setRow id row).record id change).executions id = some row :=
  update_self ..

/-- Storing what was computed from the counts at `seen`. -/
theorem BasisInv.refreshed (h : BasisInv id world) (hbasis : (world.audit id).basis ≤ seen)
    (hseen : seen ≤ (world.audit id).updates) (hstatus : (world.audit id).updates = seen →
      aggregateOf world.tasks id = some row'.status) :
    BasisInv id ((world.setRow id row').record id
      fun audit => audit.refreshed thread seen change) := by
  constructor <;> simp only [record_audit, refreshed_fields]
  case basis_le => exact hseen
  case covered_le => exact h.covered_le
  case calls_le => exact h.calls_le
  case current =>
    intro hcurrent row status hrow haggregate
    rw [record_setRow, Option.some.injEq] at hrow
    have hstored := hstatus hcurrent.symm
    rw [← hrow]
    exact Option.some.inj (hstored.symm.trans haggregate)
  case covered =>
    intro hcovered
    refine (h.covered hcovered).imp_left fun hold => ?_
    exact le_antisymm hseen (hold.ge.trans hbasis)

theorem MarkInv.refreshed (h : MarkInv id world) (hbasis : (world.audit id).basis ≤ seen) :
    MarkInv id ((world.setRow id row').record id
      fun audit => audit.refreshed thread seen change) := by
  refine ⟨⟨row', record_setRow⟩, h.ids_nodup, h.vendor_ne, ?_, h.added_marked, ?_, ?_⟩ <;>
    simp only [record_audit, refreshed_fields, setRow_audit]
  · exact fun hlt => h.marked (by omega)
  · exact h.held_le
  · exact h.held_scans

theorem guar_refreshed (hrow : world.executions id = some row) (hlt : row.revision < row'.revision)
    (hbasis : (world.audit id).basis ≤ seen) :
    RefreshGuar mode id thread world ((world.setRow id row').record id
      fun audit => audit.refreshed thread seen change) := by
  refine ⟨⟨?_, ?_, fun _ => rfl, fun old hold => ?_, fun _ => rfl⟩, fun other hne => ?_⟩
  · simp [setRow]
  · simpa [setRow] using hbasis
  · cases hrow.symm.trans hold
    exact ⟨row', record_setRow, hlt.le, fun hrevision => by omega⟩
  · constructor
    · simp [setRow]
    · simp [setRow, hne]
    · simp [setRow]
    · rfl
    · rfl

/-- **Storing the status.**  If the revision is the one that was read, the basis of
the stored status is no greater than what the counts were read at. -/
theorem Counted.cas_step (h : Counted mode id thread start popAt execution metrics seen world)
    (hinv : RefreshInv mode id world) (hcount : metrics.taskCount ≠ 0)
    (hcas : world.casStatus thread id metrics.status execution.revision seen = some after) :
    RefreshInv mode id after ∧ RefreshGuar mode id thread world after ∧
      Finished mode id thread start popAt
        (if execution.status = metrics.status then none
          else some ⟨execution.revision + 1, metrics.status⟩) after := by
  obtain ⟨row, hrow, hrevision, rfl⟩ := casStatus_eq_some hcas
  -- the revision is the one that was read, so the status and its basis are known
  obtain ⟨hstatus, hbasis⟩ : row.status = execution.status ∧ (world.audit id).basis ≤ seen := by
    obtain ⟨row', hrow', -, hsame⟩ := h.row
    cases hrow.symm.trans hrow'
    exact hsame hrevision
  have hlt : row.revision < execution.revision + 1 := by omega
  have hstart := h.start_le
  have hcalls : (world.audit id).calls thread ≠ none := by simp [h.call]
  rw [hstatus]
  refine ⟨⟨?_, fun hmode => ?_, fun hmode => ?_⟩, ?_, ?_⟩
  · refine hinv.basis.refreshed hbasis h.bound_le fun hseen => ?_
    rw [aggregateOf_eq, ← h.metrics_eq hseen, if_neg hcount]
  · split_ifs
    · exact (hinv.report hmode).record_row hrow hlt.le
    · exact (hinv.report hmode).record_change hrow (h.owed hmode) hcalls rfl hlt
  · exact (hinv.mark hmode).refreshed hbasis
  · exact guar_refreshed hrow hlt hbasis
  · constructor
    · simpa [setRow] using h.call
    · intro hmode
      split_ifs
      · simpa [setRow, refreshed] using h.owed hmode
      · simp [setRow, refreshed]
    · simpa [setRow] using h.held
    · exact h.held_le
    · simpa [setRow] using h.start_le.trans h.bound_le
    · intro hupdates
      left
      simp only [record_audit, refreshed_fields, setRow] at hupdates ⊢
      omega

/-- Setting the end time concerns neither the status nor the revision. -/
theorem setRow_step (hinv : RefreshInv mode id world) (hrow : world.executions id = some row)
    (hstatus : row'.status = row.status) (hrevision : row'.revision = row.revision) :
    RefreshInv mode id (world.setRow id row') ∧
      RefreshGuar mode id thread world (world.setRow id row') := by
  have hrow' : (world.setRow id row').executions id = some row' := update_self ..
  refine ⟨⟨?_, fun hmode => ?_, fun hmode => ?_⟩, ⟨⟨le_rfl, le_rfl, fun _ => rfl, ?_, fun _ => rfl⟩,
    fun other hne => ⟨rfl, rfl, rfl, rfl, rfl⟩⟩⟩
  · obtain ⟨hbasis, hcovered, hcalls, hcurrent, himplies⟩ := hinv.basis
    refine ⟨hbasis, hcovered, hcalls, fun hupdates last status hlast haggregate => ?_, himplies⟩
    cases hrow'.symm.trans hlast
    exact hstatus.trans (hcurrent hupdates row status hrow haggregate)
  · obtain ⟨h1, h2, h3, h4, h5, h6, h7, hle⟩ := hinv.report hmode
    refine ⟨h1, h2, h3, h4, h5, h6, h7, fun old hold last hlast => ?_⟩
    cases hrow'.symm.trans hlast
    exact (hle old hold row hrow).trans hrevision.ge
  · obtain ⟨-, h2, h3, h4, h5, h6, h7⟩ := hinv.mark hmode
    exact ⟨⟨row', hrow'⟩, h2, h3, h4, h5, h6, h7⟩
  · intro old hold
    cases hrow.symm.trans hold
    exact ⟨row', hrow', hrevision.ge, fun _ => ⟨hstatus, rfl⟩⟩

theorem Finished.setEndTime_step (h : Finished mode id thread start popAt change world)
    (hinv : RefreshInv mode id world) :
    RefreshInv mode id (world.setEndTime id) ∧
      RefreshGuar mode id thread world (world.setEndTime id) ∧
      Finished mode id thread start popAt change (world.setEndTime id) := by
  unfold setEndTime
  cases hrow : world.executions id with
  | none => exact ⟨hinv, .refl _ _, h⟩
  | some row =>
    obtain ⟨hinv', hguar⟩ := @setRow_step mode id thread world _ (world.endedRow id row) hinv hrow
      rfl rfl
    exact ⟨hinv', hguar, h.stable ⟨hguar.1, rfl, rfl, rfl, rfl, rfl⟩⟩

/-! ## The end of a call -/

/-- The thread is not in a call. -/
def Idle (id : ℤ) (thread : ℕ) (world : TaskWorld) : Prop :=
  (world.audit id).calls thread = none

/-- A call that fails reports nothing. -/
theorem InCall.leave_step (h : InCall mode id thread start popAt world)
    (hinv : RefreshInv mode id world) (err : TaskFailure) :
    RefreshInv mode id (world.record id fun audit => audit.returned thread (.error err)) ∧
      RefreshGuar mode id thread world
        (world.record id fun audit => audit.returned thread (.error err)) :=
  setCall_step hinv (fun _ hstart => absurd hstart (by simp)) fun hmode _ => h.owed hmode

theorem BasisInv.returned (hinv : BasisInv id world)
    (h : Finished mode id thread start popAt change world) :
    BasisInv id (world.record id fun audit => audit.returned thread (.ok result)) := by
  have hstart := h.start_le
  have hle := hinv.covered_le
  have hbasis := hinv.basis_le
  constructor <;> simp only [record_audit, Audit.returned, h.call, Option.getD_some]
  case basis_le => exact hbasis
  case covered_le => exact max_le hle hstart
  case calls_le =>
    intro other start hstart
    rw [update_apply] at hstart
    split_ifs at hstart
    exact hinv.calls_le other start hstart
  case current => exact hinv.current
  case covered =>
    intro hcovered
    rcases le_total start (world.audit id).covered with hmax | hmax
    · rw [max_eq_left hmax] at hcovered
      exact hinv.covered hcovered
    · rw [max_eq_right hmax] at hcovered
      exact (h.reflected hcovered.symm).imp_left fun hreached => le_antisymm hbasis hreached

/-- A scan that has refreshed the execution may let it go. -/
theorem MarkInv.returned (hinv : MarkInv id world) (hmode : mode.marking)
    (h : Finished mode id thread start popAt change world) :
    MarkInv id (world.record id fun audit => audit.returned thread (.ok result)) := by
  refine ⟨hinv.exists_row, hinv.ids_nodup, hinv.vendor_ne, ?_, hinv.added_marked, ?_, ?_⟩ <;>
    simp only [record_audit, Audit.returned]
  · intro hlt haggregate
    refine (hinv.marked hlt haggregate).imp_right ?_
    rintro ⟨other, hother⟩
    have hne : other ≠ thread := by
      rintro rfl
      have hle := h.held_le hmode _ (h.held.symm.trans hother)
      have hstart := h.start_le
      rcases h.reflected (by omega) with hreached | hnone
      · omega
      · exact haggregate hnone
    exact ⟨other, by rw [update_of_ne hne, hother]⟩
  · intro other count hcount
    rw [update_apply] at hcount
    split_ifs at hcount
    exact hinv.held_le other count hcount
  · intro other hother
    rw [update_apply] at hother
    split_ifs at hother
    · exact absurd rfl hother
    · exact hinv.held_scans other hother

/-- A call reports the change that it owes. -/
theorem ReportInv.returned (hinv : ReportInv id world) (howed : (world.audit id).owed thread =
      if result.statusChanged then some ⟨result.revision, result.currentStatus⟩ else none) :
    ReportInv id (world.record id fun audit => audit.returned thread (.ok result)) := by
  obtain ⟨hchanges, hreports, hsubset, hmem, hinj, hcalled, haccounted, hrevision⟩ := hinv
  cases hchanged : result.statusChanged with
  | false =>
    have hnone : (world.audit id).owed thread = none := by simpa [hchanged] using howed
    refine ⟨?_, ?_, ?_, ?_, ?_, ?_, ?_, ?_⟩ <;>
      simp only [record_audit, Audit.returned, hchanged, Bool.false_eq_true, if_false]
    case refine_6 =>
      intro other hother
      have hne : other ≠ thread := fun heq => hother (heq ▸ hnone)
      rw [update_of_ne hne]
      exact hcalled other hother
    all_goals assumption
  | true =>
    have hsome : (world.audit id).owed thread = some ⟨result.revision, result.currentStatus⟩ := by
      simpa [hchanged] using howed
    have hother : ∀ other old,
        update (world.audit id).owed thread none other = some old →
        other ≠ thread ∧ (world.audit id).owed other = some old := by
      intro other old hold
      rw [update_apply] at hold
      split_ifs at hold with hthread
      exact ⟨hthread, hold⟩
    constructor <;> simp only [record_audit, Audit.returned, hchanged, if_true]
    case changes_nodup => exact hchanges
    case reports_nodup =>
      exact hreports.append (nodup_singleton _) (disjoint_singleton.mpr (hmem thread _ hsome).2)
    case reports_subset =>
      intro old hold
      rw [mem_append, mem_singleton] at hold
      rcases hold with hold | rfl
      · exact hsubset old hold
      · exact (hmem thread _ hsome).1
    case owed_mem =>
      intro other old hold
      obtain ⟨hne, hold⟩ := hother other old hold
      refine ⟨(hmem other old hold).1, fun hreported => ?_⟩
      rw [mem_append, mem_singleton] at hreported
      rcases hreported with hreported | rfl
      · exact (hmem other old hold).2 hreported
      · exact hne (hinj other thread _ hold hsome)
    case owed_inj =>
      intro first second old hfirst hsecond
      exact hinj first second old (hother first old hfirst).2 (hother second old hsecond).2
    case owed_called =>
      intro other howes
      obtain ⟨old, hold⟩ := Option.ne_none_iff_exists'.mp howes
      obtain ⟨hne, hold⟩ := hother other old hold
      rw [update_of_ne hne]
      exact hcalled other (by simp [hold])
    case accounted =>
      intro old hold
      rcases haccounted old hold with hreported | ⟨other, howes⟩
      · exact .inl (mem_append_left _ hreported)
      · by_cases hthread : other = thread
        · left
          rw [hthread, hsome, Option.some.injEq] at howes
          simp [howes]
        · exact .inr ⟨other, by rw [update_of_ne hthread, howes]⟩
    case revision_le => exact hrevision

theorem Finished.leave_step (h : Finished mode id thread start popAt
      (if result.statusChanged then some ⟨result.revision, result.currentStatus⟩ else none) world)
    (hinv : RefreshInv mode id world) :
    RefreshInv mode id (world.record id fun audit => audit.returned thread (.ok result)) ∧
      RefreshGuar mode id thread world
        (world.record id fun audit => audit.returned thread (.ok result)) := by
  refine ⟨⟨hinv.basis.returned h, fun hmode => (hinv.report hmode).returned (h.owed hmode),
    fun hmode => (hinv.mark hmode).returned hmode h⟩, ?_⟩
  refine guar_record rfl rfl fun other hne => ⟨update_of_ne hne _ _, ?_, update_of_ne hne _ _⟩
  simp only [returned]
  split_ifs
  · exact update_of_ne hne _ _
  · rfl

end Steps

end Harbor.Tasks
