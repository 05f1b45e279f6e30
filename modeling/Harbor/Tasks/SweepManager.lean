import Harbor.Tasks.Model
import Mathlib.Data.List.Sort

/-!
# The sweep manager

The sweep job first repairs executions that have been running for too long and then
lists, for every vendor, the executions to delete.

`FixDanglingStateExecution` looks for tasks in status `Running` only, so it closes
executions whose tasks are pending or scheduled; `fixDangling_agrees_iff` says when its
status is that of `refreshStatus`.  `ListCandidates` reads the start time of the last
execution to retain as a page of size one, and page zero is page one: with nothing to
retain it still keeps the latest execution, and `respectsRetain_iff` says that this is
its only flaw.  Times are in microseconds, the precision of the database.
-/

namespace Harbor.Tasks

open Harbor.JobService List Status

/-- A row of the `execution` table, as far as the sweep reads it. -/
structure SweepRow where
  id : ℤ
  vendorType : String
  vendorID : ℤ
  startTime : ℤ
  status : String
  deriving DecidableEq, Repr

/-! ## Dangling executions -/

section Dangling

variable (tasks : List TaskRow) (now maxDanglingHour : ℤ) (row : SweepRow)

/-- Some task of the execution has the status. -/
def HasTask (status : Status) : Prop :=
  ∃ task ∈ tasksOf tasks row.id, task.status = status.text

instance (status : Status) : Decidable (HasTask tasks row status) :=
  inferInstanceAs (Decidable (∃ task ∈ tasksOf tasks row.id, task.status = status.text))

/-- The condition of the statement in `FixDanglingStateExecution`. -/
def Dangling : Prop :=
  row.status = running.text ∧ maxDanglingHour * (3600 * 1000000) < now - row.startTime ∧
    ¬ HasTask tasks row .running

instance : Decidable (Dangling tasks now maxDanglingHour row) :=
  inferInstanceAs (Decidable (_ ∧ _ ∧ _))

/-- `FixDanglingStateExecution`, on one row. -/
def fixDangling : SweepRow :=
  if Dangling tasks now maxDanglingHour row then
    { row with
      status :=
        if HasTask tasks row .error then Status.error.text
        else if HasTask tasks row .stopped then stopped.text
        else success.text }
  else row

/-- The status that `refreshStatus` stores, if it has a task to count. -/
def refreshedStatus : Option String :=
  let metrics := getMetrics (listStatusCount tasks row.id)
  if metrics.taskCount = 0 then none else some metrics.status

variable {tasks now maxDanglingHour row}

theorem mem_statuses_iff (status : Status) :
    status.text ∈ (tasksOf tasks row.id).map TaskRow.status ↔ HasTask tasks row status :=
  mem_map

/-- **The repair agrees with the status rule exactly if** the executions it repairs have no
pending or scheduled task, and one in a final status. -/
theorem fixDangling_agrees_iff (tasks : List TaskRow) (now maxDanglingHour : ℤ) (row : SweepRow) :
    ((fixDangling tasks now maxDanglingHour row).status ≠ row.status →
        refreshedStatus tasks row = some (fixDangling tasks now maxDanglingHour row).status) ↔
      (Dangling tasks now maxDanglingHour row →
        ¬ HasTask tasks row .pending ∧ ¬ HasTask tasks row .scheduled ∧
          (HasTask tasks row .error ∨ HasTask tasks row .stopped ∨
            HasTask tasks row .success)) := by
  have hrule : refreshedStatus tasks row = aggregateOf tasks row.id := (aggregateOf_eq ..).symm
  by_cases hdangling : Dangling tasks now maxDanglingHour row
  · have hstatus := hdangling.1
    have hrunning := hdangling.2.2
    rw [hrule, fixDangling, if_pos hdangling, aggregateOf, aggregate]
    simp only [mem_statuses_iff, hstatus, hrunning, hdangling, false_or, true_imp_iff]
    -- both sides look only at which of the other five statuses occur
    by_cases hpending : HasTask tasks row .pending <;>
      by_cases hscheduled : HasTask tasks row .scheduled <;>
      by_cases herror : HasTask tasks row .error <;>
      by_cases hstopped : HasTask tasks row .stopped <;>
      by_cases hsuccess : HasTask tasks row .success <;>
      simp [hpending, hscheduled, herror, hstopped, hsuccess, Status.text]
  · simp [fixDangling, hdangling]

end Dangling

/-- An execution that was started eight days ago waits for its only task. -/
theorem waiting_execution_succeeds :
    let tasks := [createTaskRecord 1 7 "SCAN" 0]
    let row : SweepRow := ⟨7, "SCAN", 1, 0, "Running"⟩
    (fixDangling tasks (200 * 3600 * 1000000) 168 row).status = "Success" ∧
      refreshedStatus tasks row = some "Running" := by
  decide

/-! ## Listing candidates -/

/-- A page of a result: `limit` and `offset`, as `QuerySetter` and `PaginationOnRawSQL` set
them.  Without a page number there is no offset. -/
def paginate {α : Type*} (pageSize pageNumber : ℕ) (rows : List α) : List α :=
  if 0 < pageSize then
    (rows.drop (if 0 < pageNumber then pageSize * (pageNumber - 1) else 0)).take pageSize
  else rows

/-- The order of `getCandidateMaxStartTime`. -/
def SweepRow.StartsLater (first second : SweepRow) : Prop :=
  second.startTime ≤ first.startTime

instance : DecidableRel SweepRow.StartsLater :=
  fun first second => inferInstanceAs (Decidable (second.startTime ≤ first.startTime))

instance : Std.Total SweepRow.StartsLater :=
  ⟨fun first second => le_total second.startTime first.startTime⟩

instance : IsTrans SweepRow SweepRow.StartsLater :=
  ⟨fun _ _ _ hfirst hsecond => le_trans hsecond hfirst⟩

section Candidates

variable (rows : List SweepRow) (vendorType : String)

open SweepRow

def listVendorIDs : List ℤ :=
  ((rows.filter fun row => row.vendorType = vendorType).map vendorID).dedup

/-- The executions of a vendor. -/
def ofVendor (vendorID : ℤ) : List SweepRow :=
  rows.filter fun row => row.vendorType = vendorType ∧ row.vendorID = vendorID

def getCandidateMaxStartTime (vendorID : ℤ) (retainCnt : ℕ) : Option ℤ :=
  (paginate 1 retainCnt
    ((ofVendor rows vendorType vendorID).insertionSort SweepRow.StartsLater)).head?.map
      startTime

/-- The query for the candidates of a vendor. -/
def candidateIDs (vendorID maxStartTime : ℤ) : List ℤ :=
  (((ofVendor rows vendorType vendorID).filter fun row => row.startTime < maxStartTime ∧
    row.status ∈ [Status.error.text, success.text, stopped.text]).map
      SweepRow.id).insertionSort (· ≤ ·)

/-- The loop over the pages, from the last one to the first. -/
def candidatePages (pageSize : ℕ) (ids : List ℤ) : List ℤ :=
  let n := ids.length / pageSize + if 0 < ids.length % pageSize then 1 else 0
  (List.range n).reverse.flatMap fun i => paginate pageSize (i + 1) ids

/-- The candidates of one vendor. -/
def vendorCandidates (pageSize retainCnt : ℕ) (vendorID : ℤ) : List ℤ :=
  match getCandidateMaxStartTime rows vendorType vendorID retainCnt with
  | none => []
  | some maxStartTime =>
    candidatePages pageSize (candidateIDs rows vendorType vendorID maxStartTime)

def listCandidates (pageSize retainCnt : ℕ) : List ℤ :=
  (listVendorIDs rows vendorType).flatMap (vendorCandidates rows vendorType pageSize retainCnt)

/-- The executions of the vendor, the latest start first; equal ones in any order. -/
def Recent (vendorID : ℤ) (recent : List SweepRow) : Prop :=
  recent.Perm (ofVendor rows vendorType vendorID) ∧ recent.Pairwise SweepRow.StartsLater

/-- The candidates respect the retain count. -/
structure RespectsRetain (pageSize retainCnt : ℕ) : Prop where
  nodup : (listCandidates rows vendorType pageSize retainCnt).Nodup
  final : ∀ id ∈ listCandidates rows vendorType pageSize retainCnt,
    ∃ row ∈ rows, row.id = id ∧ row.vendorType = vendorType ∧ statusFinal row.status
  retained : ∀ vendorID recent, Recent rows vendorType vendorID recent →
    ∀ row ∈ recent.take retainCnt, row.id ∉ listCandidates rows vendorType pageSize retainCnt
  complete : ∀ vendorID recent, Recent rows vendorType vendorID recent →
    (recent.map startTime).Nodup →
      ∀ row ∈ recent, row ∉ recent.take retainCnt → statusFinal row.status →
        row.id ∈ listCandidates rows vendorType pageSize retainCnt

variable {rows vendorType} {pageSize retainCnt : ℕ} {vendorID : ℤ}

/-! ### Pages -/

theorem flatMap_pages_perm {α : Type*} (hpos : 0 < pageSize) (ids : List α) (n : ℕ) :
    ((List.range n).reverse.flatMap fun i => paginate pageSize (i + 1) ids).Perm
      (ids.take (pageSize * n)) := by
  induction n with
  | zero => simp
  | succ n ih =>
    have hpage : paginate pageSize (n + 1) ids = (ids.drop (pageSize * n)).take pageSize := by
      simp [paginate, hpos]
    rw [range_succ, reverse_append, reverse_singleton, singleton_append,
      flatMap_cons, hpage, Nat.mul_succ, take_add]
    exact perm_append_comm.trans (ih.append_right _)

theorem candidatePages_perm (hpos : 0 < pageSize) (ids : List ℤ) :
    (candidatePages pageSize ids).Perm ids := by
  refine (flatMap_pages_perm hpos ids _).trans ?_
  rw [take_of_length_le]
  have hsplit := Nat.div_add_mod ids.length pageSize
  have hmod := Nat.mod_lt ids.length hpos
  split_ifs with hrest
  · rw [Nat.mul_succ]
    omega
  · rw [Nat.add_zero]
    omega

/-! ### Candidates -/

theorem statusFinal_iff_mem (status : String) :
    statusFinal status ↔
      status ∈ [Status.error.text, success.text, stopped.text] := by
  cases hknown : ofText? status with
  | none =>
    simp only [statusFinal, statusCode, hknown, mem_cons, not_mem_nil, or_false]
    simp only [← ofText?_eq_some, hknown]
    decide
  | some known =>
    rw [ofText?_eq_some.mp hknown]
    cases known <;> decide

theorem mem_ofVendor {row : SweepRow} :
    row ∈ ofVendor rows vendorType vendorID ↔
      row ∈ rows ∧ row.vendorType = vendorType ∧ row.vendorID = vendorID := by
  simp [ofVendor]

theorem mem_candidateIDs {maxStartTime id : ℤ} :
    id ∈ candidateIDs rows vendorType vendorID maxStartTime ↔
      ∃ row ∈ ofVendor rows vendorType vendorID, row.startTime < maxStartTime ∧
        statusFinal row.status ∧ row.id = id := by
  simp only [candidateIDs, mem_insertionSort, mem_map, mem_filter,
    statusFinal_iff_mem, decide_eq_true_eq, and_assoc]

/-- The start time is before that of the last execution to retain. -/
def BeforeRetained (rows : List SweepRow) (vendorType : String) (retainCnt : ℕ) (row : SweepRow) :
    Prop :=
  ∃ maxStartTime, getCandidateMaxStartTime rows vendorType row.vendorID retainCnt =
    some maxStartTime ∧ row.startTime < maxStartTime

theorem mem_vendorCandidates (hpos : 0 < pageSize) {id : ℤ} :
    id ∈ vendorCandidates rows vendorType pageSize retainCnt vendorID ↔
      ∃ row ∈ ofVendor rows vendorType vendorID, row.id = id ∧ statusFinal row.status ∧
        BeforeRetained rows vendorType retainCnt row := by
  have hvendor : ∀ row ∈ ofVendor rows vendorType vendorID, row.vendorID = vendorID :=
    fun row hrow => (mem_ofVendor.mp hrow).2.2
  unfold vendorCandidates BeforeRetained
  cases hmax : getCandidateMaxStartTime rows vendorType vendorID retainCnt with
  | none => grind
  | some maxStartTime =>
    simp only [(candidatePages_perm hpos _).mem_iff, mem_candidateIDs]
    grind

theorem mem_listCandidates (hpos : 0 < pageSize) {id : ℤ} :
    id ∈ listCandidates rows vendorType pageSize retainCnt ↔
      ∃ row ∈ rows, row.vendorType = vendorType ∧ row.id = id ∧ statusFinal row.status ∧
        BeforeRetained rows vendorType retainCnt row := by
  simp only [listCandidates, mem_flatMap, mem_vendorCandidates hpos, mem_ofVendor,
    listVendorIDs, mem_dedup, mem_map, mem_filter, decide_eq_true_eq]
  constructor
  · rintro ⟨_, _, row, ⟨hrow, htype, rfl⟩, hid, hfinal, hbefore⟩
    exact ⟨row, hrow, htype, hid, hfinal, hbefore⟩
  · rintro ⟨row, hrow, htype, hid, hfinal, hbefore⟩
    exact ⟨_, ⟨row, ⟨hrow, htype⟩, rfl⟩, row, ⟨hrow, htype, rfl⟩, hid, hfinal, hbefore⟩

/-- The ID is the primary key, so an execution is a candidate of its own vendor only. -/
theorem nodup_listCandidates (hpos : 0 < pageSize) (hkey : (rows.map SweepRow.id).Nodup) :
    (listCandidates rows vendorType pageSize retainCnt).Nodup := by
  refine nodup_flatMap.mpr ⟨fun vendorID _ => ?_, (nodup_dedup _).imp ?_⟩
  · unfold vendorCandidates
    cases getCandidateMaxStartTime rows vendorType vendorID retainCnt with
    | none => exact nodup_nil
    | some maxStartTime =>
      refine (candidatePages_perm hpos _).nodup_iff.mpr ?_
      refine (perm_insertionSort ..).nodup_iff.mpr ?_
      exact hkey.sublist ((filter_sublist.trans filter_sublist).map _)
  · intro first second hne id hfirst hsecond
    obtain ⟨row, hrow, rfl, -⟩ := (mem_vendorCandidates hpos).mp hfirst
    obtain ⟨other, hother, hid, -⟩ := (mem_vendorCandidates hpos).mp hsecond
    rw [mem_ofVendor] at hrow hother
    obtain rfl := inj_on_of_nodup_map hkey hother.1 hrow.1 hid
    exact hne (hrow.2.2.symm.trans hother.2.2)

/-! ### The retained executions -/

section Retained

variable {recent : List SweepRow} {row : SweepRow}

variable (hrecent : Recent rows vendorType vendorID recent)
include hrecent

/-- The start times in any order by start are those in the order of the query. -/
theorem getCandidateMaxStartTime_eq :
    getCandidateMaxStartTime rows vendorType vendorID retainCnt =
      recent[retainCnt - 1]?.map startTime := by
  have hperm := (perm_insertionSort SweepRow.StartsLater _).trans hrecent.1.symm
  have hsorted : ∀ {sorted : List SweepRow}, sorted.Pairwise SweepRow.StartsLater →
      (sorted.map startTime).Pairwise (· ≥ ·) :=
    fun hsorted => pairwise_map.mpr (hsorted.imp id)
  -- rows with one start time may be swapped, their start times are the same list
  have hstarts := (hperm.map startTime).eq_of_pairwise'
    (hsorted (pairwise_insertionSort ..)) (hsorted hrecent.2)
  have hpage : ∀ sorted : List SweepRow,
      (paginate 1 retainCnt sorted).head? = sorted[retainCnt - 1]? := by
    intro sorted
    cases retainCnt <;> simp [paginate, head?_eq_getElem?]
  rw [getCandidateMaxStartTime, hpage, ← getElem?_map, hstarts, getElem?_map]

theorem Recent.vendorID_eq (hrow : row ∈ recent) : row.vendorID = vendorID :=
  (mem_ofVendor.mp (hrecent.1.mem_iff.mp hrow)).2.2

theorem not_beforeRetained (hrow : row ∈ recent.take retainCnt) :
    ¬ BeforeRetained rows vendorType retainCnt row := by
  rintro ⟨maxStartTime, hmax, hlt⟩
  rw [hrecent.vendorID_eq (mem_of_mem_take hrow), getCandidateMaxStartTime_eq hrecent] at hmax
  obtain ⟨last, hlast, rfl⟩ := Option.map_eq_some_iff.mp hmax
  obtain ⟨hlength, rfl⟩ := List.getElem?_eq_some_iff.mp hlast
  obtain ⟨i, hi, rfl⟩ := mem_take_iff_getElem.mp hrow
  -- a row before the last retained one starts later; the last one is compared with itself
  rcases Nat.lt_or_ge i (retainCnt - 1) with hbefore | hlast
  · exact absurd (pairwise_iff_getElem.mp hrecent.2 _ _ _ hlength hbefore) (not_le.mpr hlt)
  · have hindex : i = retainCnt - 1 := by omega
    subst hindex
    exact lt_irrefl _ hlt

/-- If the start times differ, all others are. -/
theorem beforeRetained (hstarts : (recent.map startTime).Nodup) (hretain : 0 < retainCnt)
    (hrow : row ∈ recent) (hrest : row ∉ recent.take retainCnt) :
    BeforeRetained rows vendorType retainCnt row := by
  have hsplit := take_append_drop retainCnt recent
  have hdrop : row ∈ recent.drop retainCnt :=
    (mem_append.mp (hsplit.symm ▸ hrow)).resolve_left hrest
  have hlength : retainCnt < recent.length := by
    by_contra hle
    rw [drop_of_length_le (Nat.le_of_not_lt hle)] at hdrop
    cases hdrop
  have hlast : recent[retainCnt - 1] ∈ recent.take retainCnt :=
    mem_take_iff_getElem.mpr ⟨retainCnt - 1, by omega, rfl⟩
  refine ⟨recent[retainCnt - 1].startTime, ?_, lt_of_le_of_ne ?_ ?_⟩
  · rw [hrecent.vendorID_eq hrow, getCandidateMaxStartTime_eq hrecent, getElem?_eq_getElem]
    rfl
  · exact (pairwise_append.mp (hsplit.symm ▸ hrecent.2)).2.2 _ hlast _ hdrop
  · rw [← hsplit, map_append] at hstarts
    intro heq
    exact disjoint_of_nodup_append hstarts (mem_map_of_mem hlast) (mem_map.mpr ⟨row, hdrop, heq⟩)

/-- With nothing to retain, an execution is listed as soon as there is a later one. -/
theorem beforeRetained_zero_iff (hrow : row ∈ recent) :
    BeforeRetained rows vendorType 0 row ↔ ∃ other ∈ recent, row.startTime < other.startTime := by
  rw [BeforeRetained, hrecent.vendorID_eq hrow, getCandidateMaxStartTime_eq hrecent]
  cases recent with
  | nil => cases hrow
  | cons first rest =>
    simp only [Nat.zero_sub, getElem?_cons_zero, Option.map_some, Option.some.injEq,
      exists_eq_left']
    refine ⟨fun hlt => ⟨first, mem_cons_self, hlt⟩, ?_⟩
    rintro ⟨other, hother, hlt⟩
    rcases mem_cons.mp hother with rfl | hother
    · exact hlt
    · exact lt_of_lt_of_le hlt ((pairwise_cons.mp hrecent.2).1 other hother)

end Retained

/-- With nothing to retain, the latest execution of a vendor is not final. -/
def LatestOpen (rows : List SweepRow) (vendorType : String) : Prop :=
  ∀ vendorID, ((ofVendor rows vendorType vendorID).map startTime).Nodup →
    ∀ latest ∈ ofVendor rows vendorType vendorID,
      (∀ other ∈ ofVendor rows vendorType vendorID, other.startTime ≤ latest.startTime) →
        statusFinal latest.status = false

end Candidates

/-- **The candidates respect the retain count exactly if** it is positive, or the latest
executions are not final anyway. -/
theorem respectsRetain_iff (rows : List SweepRow) (vendorType : String) (pageSize retainCnt : ℕ)
    (hpage : 0 < pageSize) (hkey : (rows.map SweepRow.id).Nodup) :
    RespectsRetain rows vendorType pageSize retainCnt ↔
      0 < retainCnt ∨ LatestOpen rows vendorType := by
  have hlisted : ∀ {row}, row ∈ rows → row.id ∈ listCandidates rows vendorType pageSize retainCnt →
      BeforeRetained rows vendorType retainCnt row := by
    intro row hrow hid
    obtain ⟨other, hother, -, heq, -, hbefore⟩ := (mem_listCandidates hpage).mp hid
    exact inj_on_of_nodup_map hkey hother hrow heq ▸ hbefore
  have hmem : ∀ {vendorID recent row}, Recent rows vendorType vendorID recent → row ∈ recent →
      row ∈ rows ∧ row.vendorType = vendorType := fun hrecent hrow =>
    (mem_ofVendor.mp (hrecent.1.mem_iff.mp hrow)).imp_right And.left
  constructor
  · intro hright
    rcases Nat.eq_zero_or_pos retainCnt with rfl | hretain
    · refine .inr fun vendorID hstarts latest hlatest hmax => Bool.eq_false_iff.mpr fun hfinal => ?_
      -- a final latest execution would have to be listed, and so have a later one
      set recent := (ofVendor rows vendorType vendorID).insertionSort SweepRow.StartsLater
      have hrecent : Recent rows vendorType vendorID recent :=
        ⟨perm_insertionSort .., pairwise_insertionSort ..⟩
      have hrow := hrecent.1.mem_iff.mpr hlatest
      have hid := hright.complete vendorID recent hrecent
        ((hrecent.1.map _).nodup_iff.mpr hstarts) latest hrow not_mem_nil hfinal
      obtain ⟨other, hother, hlt⟩ :=
        (beforeRetained_zero_iff hrecent hrow).mp (hlisted (hmem hrecent hrow).1 hid)
      exact absurd (hmax other (hrecent.1.mem_iff.mp hother)) (not_le.mpr hlt)
    · exact .inl hretain
  · intro hcondition
    refine ⟨nodup_listCandidates hpage hkey, ?_, ?_, ?_⟩
    · intro id hid
      obtain ⟨row, hrow, htype, heq, hfinal, -⟩ := (mem_listCandidates hpage).mp hid
      exact ⟨row, hrow, heq, htype, hfinal⟩
    · intro vendorID recent hrecent row hrow hid
      exact not_beforeRetained hrecent hrow (hlisted (hmem hrecent (mem_of_mem_take hrow)).1 hid)
    · intro vendorID recent hrecent hstarts row hrow hrest hfinal
      refine (mem_listCandidates hpage).mpr ⟨row, (hmem hrecent hrow).1, (hmem hrecent hrow).2, rfl,
        hfinal, ?_⟩
      rcases Nat.eq_zero_or_pos retainCnt with rfl | hretain
      · rw [beforeRetained_zero_iff hrecent hrow]
        by_contra hlatest
        push Not at hlatest
        have hopen := hcondition.resolve_left (lt_irrefl 0) vendorID
          ((hrecent.1.map _).nodup_iff.mp hstarts) row (hrecent.1.mem_iff.mp hrow)
          fun other hother => hlatest other (hrecent.1.mem_iff.mpr hother)
        exact absurd hfinal (Bool.eq_false_iff.mp hopen)
      · exact beforeRetained hrecent hstarts hretain hrow hrest

/-- Three replications, one after the other. -/
def threeReplications : List SweepRow :=
  [⟨1, "REPLICATION", 4, 10, "Success"⟩, ⟨2, "REPLICATION", 4, 20, "Error"⟩,
    ⟨3, "REPLICATION", 4, 30, "Success"⟩]

theorem respectsRetain_threeReplications : RespectsRetain threeReplications "REPLICATION" 2 1 :=
  (respectsRetain_iff _ _ 2 1 (by decide) (by decide)).mpr (.inl (by decide))

/-- Nothing is to be retained, but the latest execution is. -/
theorem latest_retained :
    listCandidates threeReplications "REPLICATION" 2 0 = [1, 2] ∧
      ¬ RespectsRetain threeReplications "REPLICATION" 2 0 := by
  refine ⟨by decide, fun h => ?_⟩
  have hid := h.complete 4 threeReplications.reverse ⟨by decide, by decide⟩ (by decide)
    ⟨3, "REPLICATION", 4, 30, "Success"⟩ (by decide) (by decide) (by decide)
  exact absurd hid (by decide)

end Harbor.Tasks
