import Mathlib.Algebra.BigOperators.Ring.Finset
import Mathlib.Algebra.Order.BigOperators.Group.Finset
import Harbor.Concurrency.Transition
import Harbor.Tasks.StatusEvents

/-!
# Counting the runs of a task

`UpdateStatus` makes two statements.  The first counts a run of the task if the revision of the
call is newer than that of the row; the second writes the revision to the row.  Between the two,
another call with the same revision still finds the old one and counts the run again.  So does a
call after one whose second statement has failed.

Every step of the system below is one statement of one call, so its runs are the interleavings
of any number of calls on one task.
-/

namespace Harbor.Tasks

open Harbor.Concurrency Finset Function

/-- A call of `UpdateStatus`, with the time that it reads between its statements. -/
structure UpdateCall where
  event : StatusEvent
  now : ℤ
  deriving DecidableEq, Repr

/-- How far a call is. -/
inductive UpdateStage
  | starting
  | started
  | failed (err : String)
  | finished (result : Except String Unit)

/-- The first statement of the call has been made. -/
def UpdateStage.Past : UpdateStage → Prop
  | .started | .finished _ => True
  | .starting | .failed _ => False

/-- The row of the task, and the calls on it. -/
structure UpdateState (Call : Type) where
  row : TaskRow
  stage : Call → UpdateStage

/-- A call and what the database answers to its next statement. -/
abbrev UpdateAction (Call : Type) := Call × Except String Unit

variable (row : TaskRow)

section Calls

variable {Call : Type} [DecidableEq Call] (calls : Call → UpdateCall)

def revisionOf (call : Call) : ℤ :=
  (calls call).event.revision

/-- No call has made a statement yet. -/
def UpdateState.start : UpdateState Call :=
  ⟨row, fun _ => .starting⟩

def UpdateState.step (state : UpdateState Call) : UpdateAction Call → Option (UpdateState Call)
  | (call, reply) =>
    match state.stage call, reply with
    | .starting, .ok () => some
        ⟨state.row.startRun (revisionOf calls call), Function.update state.stage call .started⟩
    | .starting, .error err => some ⟨state.row, Function.update state.stage call (.failed err)⟩
    | .started, .ok () => some
        ⟨state.row.setStatus (calls call).event.status (revisionOf calls call) (calls call).now,
          Function.update state.stage call (.finished (.ok ()))⟩
    | .started, .error err => some
        ⟨state.row, Function.update state.stage call (.finished (.error err))⟩
    | .failed _, _ | .finished _, _ => none

/-- By how much the count grows at statements of calls with this revision. -/
def growth (revision : ℤ) : UpdateState Call → List (UpdateAction Call) → ℤ
  | _, [] => 0
  | state, action :: rest =>
    match state.step calls action with
    | none => 0
    | some next =>
      (if revisionOf calls action.1 = revision then next.row.runCount - state.row.runCount
        else 0) + growth revision next rest

/-- The revisions of the calls that make a statement. -/
def revisions (actions : List (UpdateAction Call)) : Finset ℤ :=
  (actions.map fun action => revisionOf calls action.1).toFinset

/-- The count grows by at most one for each revision. -/
structure CountsRuns (state : UpdateState Call) (actions : List (UpdateAction Call))
    (final : UpdateState Call) : Prop where
  each : ∀ revision, growth calls revision state actions ≤ 1
  total : final.row.runCount ≤ state.row.runCount + #(revisions calls actions)

/-- A call that makes its first statement finds the revision of the row as new as its own, or
no call with its revision has made the first statement before. -/
def FirstOfRevision (state : UpdateState Call) (action : UpdateAction Call)
    (_ : UpdateState Call) : Prop :=
  state.stage action.1 = .starting → action.2 = .ok () →
    state.row.statusRevision < revisionOf calls action.1 →
      ∀ other, revisionOf calls other = revisionOf calls action.1 → ¬ (state.stage other).Past

end Calls

/-! ## One statement -/

section Statement

variable {Call : Type} [DecidableEq Call] {calls : Call → UpdateCall}
  {state next final : UpdateState Call} {call : Call} {reply : Except String Unit}
  {actions : List (UpdateAction Call)} {action : UpdateAction Call} {ledger : ℤ → ℤ}

theorem startRun_statusRevision (revision : ℤ) :
    (row.startRun revision).statusRevision = row.statusRevision :=
  congrArg StatusEvent.revision (startRun_event revision)

theorem startRun_runCount (revision : ℤ) :
    (row.startRun revision).runCount =
      row.runCount + if row.statusRevision < revision then 1 else 0 := by
  unfold TaskRow.startRun
  split_ifs
  · rfl
  · rw [add_zero]

theorem setStatus_runCount (status : String) (revision now : ℤ) :
    (row.setStatus status revision now).runCount = row.runCount := by
  unfold TaskRow.setStatus
  split_ifs <;> rfl

theorem le_setStatus_statusRevision (status : String) (revision now : ℤ) :
    row.statusRevision ≤ (row.setStatus status revision now).statusRevision := by
  unfold TaskRow.setStatus
  split
  · rename_i hnewer
    obtain ⟨hsame, -⟩ | hless := hnewer
    · exact Int.le_of_eq hsame
    · exact Int.le_of_lt hless
  · exact Int.le_refl _

theorem past_update_iff {stage : UpdateStage} (hpast : stage.Past ↔ (state.stage call).Past)
    (other : Call) :
    (Function.update state.stage call stage other).Past ↔ (state.stage other).Past := by
  by_cases heq : other = call
  · rw [heq, update_self]
    exact hpast
  · rw [update_of_ne heq]

/-- A statement is the first one of its call, or it leaves the count alone. -/
theorem step_cases (hstep : state.step calls (call, reply) = some next) :
    (state.stage call = .starting ∧ reply = .ok () ∧
      next = ⟨state.row.startRun (revisionOf calls call),
        Function.update state.stage call .started⟩) ∨
    (¬ (state.stage call = .starting ∧ reply = .ok ()) ∧
      next.row.runCount = state.row.runCount ∧
      state.row.statusRevision ≤ next.row.statusRevision ∧
      ∀ other, (next.stage other).Past ↔ (state.stage other).Past) := by
  unfold UpdateState.step at hstep
  cases hstage : state.stage call with
  | starting =>
    cases reply with
    | ok =>
      simp only [hstage, Option.some.injEq] at hstep
      exact .inl ⟨rfl, rfl, hstep.symm⟩
    | error err =>
      simp only [hstage, Option.some.injEq] at hstep
      subst hstep
      exact .inr ⟨by simp, rfl, le_rfl, past_update_iff (by rw [hstage]; exact Iff.rfl)⟩
  | started =>
    cases reply with
    | ok =>
      simp only [hstage, Option.some.injEq] at hstep
      subst hstep
      exact .inr ⟨by simp, setStatus_runCount .., le_setStatus_statusRevision ..,
        past_update_iff (by rw [hstage]; exact Iff.rfl)⟩
    | error err =>
      simp only [hstage, Option.some.injEq] at hstep
      subst hstep
      exact .inr ⟨by simp, rfl, le_rfl, past_update_iff (by rw [hstage]; exact Iff.rfl)⟩
  | failed err | finished result => simp [hstage] at hstep

theorem past_started_iff (other : Call) :
    (Function.update state.stage call .started other).Past ↔
      other = call ∨ (state.stage other).Past := by
  by_cases heq : other = call
  · rw [heq, update_self]
    exact iff_of_true trivial (.inl rfl)
  · rw [update_of_ne heq]
    exact (or_iff_right heq).symm

theorem runCount_le_step (hstep : state.step calls action = some next) :
    state.row.runCount ≤ next.row.runCount := by
  obtain ⟨-, -, rfl⟩ | ⟨-, hcount, -, -⟩ := step_cases hstep
  · rw [startRun_runCount]
    split_ifs <;> omega
  · exact hcount.ge

/-! ## Runs -/

theorem growth_cons (hstep : state.step calls action = some next) (revision : ℤ)
    (rest : List (UpdateAction Call)) :
    growth calls revision state (action :: rest) =
      (if revisionOf calls action.1 = revision then next.row.runCount - state.row.runCount
        else 0) + growth calls revision next rest := by
  simp only [growth, hstep]

theorem growth_nonneg (revision : ℤ) (state : UpdateState Call)
    (actions : List (UpdateAction Call)) : 0 ≤ growth calls revision state actions := by
  induction actions generalizing state with
  | nil => exact le_rfl
  | cons action rest ih =>
    unfold growth
    cases hstep : state.step calls action with
    | none => exact le_rfl
    | some next =>
      have hle := runCount_le_step hstep
      have hrest := ih next
      simp only
      split_ifs <;> omega

/-- What the count grows by is the sum over the revisions. -/
theorem runCount_eq_sum {all : Finset ℤ} (hall : revisions calls actions ⊆ all)
    (hrun : exec (UpdateState.step calls) state actions = some final) :
    final.row.runCount = state.row.runCount + ∑ revision ∈ all,
      growth calls revision state actions := by
  induction actions generalizing state with
  | nil =>
    obtain rfl : state = final := by simpa using hrun
    simp [growth]
  | cons action rest ih =>
    obtain ⟨next, hstep, hrest⟩ := exec_cons_eq_some hrun
    have hmem : revisionOf calls action.1 ∈ all := hall (by simp [revisions])
    have hsub : revisions calls rest ⊆ all :=
      fun revision hrevision => hall (by simp_all [revisions])
    simp only [growth_cons hstep, Finset.sum_add_distrib, Finset.sum_ite_eq, if_pos hmem,
      ih hsub hrest]
    omega

/-- What has been counted per revision so far, after one more statement. -/
def ledgerAfter (calls : Call → UpdateCall) (ledger : ℤ → ℤ) (state next : UpdateState Call)
    (call : Call) (revision : ℤ) : ℤ :=
  ledger revision +
    if revisionOf calls call = revision then next.row.runCount - state.row.runCount else 0

theorem ledger_add_growth (hstep : state.step calls action = some next) (ledger : ℤ → ℤ)
    (revision : ℤ) (rest : List (UpdateAction Call)) :
    ledger revision + growth calls revision state (action :: rest) =
      ledgerAfter calls ledger state next action.1 revision + growth calls revision next rest := by
  rw [growth_cons hstep, ledgerAfter]
  omega

omit [DecidableEq Call] in
theorem ledgerAfter_of_eq (hcount : next.row.runCount = state.row.runCount) (ledger : ℤ → ℤ) :
    ledgerAfter calls ledger state next call = ledger := by
  funext revision
  unfold ledgerAfter
  rw [hcount]
  split_ifs <;> omega

/-- No revision has been counted twice, and one that has been counted has reached the row or is
that of a call that has begun. -/
def CountedOnce (calls : Call → UpdateCall) (ledger : ℤ → ℤ) (state : UpdateState Call) : Prop :=
  ∀ revision, ledger revision ≤ 1 ∧ (1 ≤ ledger revision →
    revision ≤ state.row.statusRevision ∨
      ∃ call, revisionOf calls call = revision ∧ (state.stage call).Past)

theorem CountedOnce.step (h : CountedOnce calls ledger state)
    (hstep : state.step calls (call, reply) = some next)
    (hfirst : FirstOfRevision calls state (call, reply) next) :
    CountedOnce calls (ledgerAfter calls ledger state next call) next := by
  obtain ⟨hstarting, rfl, rfl⟩ | ⟨-, hcount, hrevision, hpast⟩ := step_cases hstep
  · intro revision
    obtain ⟨hle, hreached⟩ := h revision
    unfold ledgerAfter
    rw [startRun_runCount, startRun_statusRevision]
    simp only [past_started_iff]
    by_cases hsame : revisionOf calls call = revision
    · rw [if_pos hsame]
      refine ⟨?_, fun _ => .inr ⟨call, hsame, .inl rfl⟩⟩
      by_cases hnewer : state.row.statusRevision < revisionOf calls call
      · -- nothing has been counted for this revision yet
        have hzero : ¬ 1 ≤ ledger revision := by
          intro hcounted
          obtain hold | ⟨other, hother, hpast⟩ := hreached hcounted
          · omega
          · exact hfirst hstarting rfl hnewer other (hother.trans hsame.symm) hpast
        rw [if_pos hnewer]
        omega
      · rw [if_neg hnewer]
        omega
    · rw [if_neg hsame, add_zero]
      refine ⟨hle, fun hcounted => (hreached hcounted).imp_right ?_⟩
      rintro ⟨other, hother, hpast⟩
      exact ⟨other, hother, .inr hpast⟩
  · rw [ledgerAfter_of_eq hcount]
    intro revision
    obtain ⟨hle, hreached⟩ := h revision
    refine ⟨hle, fun hcounted => (hreached hcounted).imp hrevision.trans' ?_⟩
    rintro ⟨other, hother, hother'⟩
    exact ⟨other, hother, (hpast other).mpr hother'⟩

theorem CountedOnce.growth_le (h : CountedOnce calls ledger state)
    (hsteps : EveryStep (UpdateState.step calls) (FirstOfRevision calls) state actions)
    (hrun : exec (UpdateState.step calls) state actions = some final) (revision : ℤ) :
    ledger revision + growth calls revision state actions ≤ 1 := by
  induction actions generalizing state ledger with
  | nil => simpa [growth] using (h revision).1
  | cons action rest ih =>
    obtain ⟨next, hstep, hrest⟩ := exec_cons_eq_some hrun
    obtain ⟨hfirst, htail⟩ := hsteps next hstep
    rw [ledger_add_growth hstep]
    exact ih (h.step hstep hfirst) htail hrest

/-- A call that has begun, with a revision that the row has not reached, has been counted. -/
structure BegunCounted (calls : Call → UpdateCall) (ledger : ℤ → ℤ)
    (state : UpdateState Call) : Prop where
  nonneg : ∀ revision, 0 ≤ ledger revision
  begun : ∀ call, (state.stage call).Past → state.row.statusRevision < revisionOf calls call →
    1 ≤ ledger (revisionOf calls call)

theorem BegunCounted.step (h : BegunCounted calls ledger state)
    (hstep : state.step calls (call, reply) = some next) :
    BegunCounted calls (ledgerAfter calls ledger state next call) next := by
  have hcount := runCount_le_step hstep
  have hgrows : ∀ revision, ledger revision ≤
      ledgerAfter calls ledger state next call revision := by
    intro revision
    unfold ledgerAfter
    split_ifs <;> omega
  refine ⟨fun revision => (h.nonneg revision).trans (hgrows revision), fun other hpast hnewer => ?_⟩
  obtain ⟨-, -, rfl⟩ | ⟨-, -, hrevision, hsame⟩ := step_cases hstep
  · rw [startRun_statusRevision] at hnewer
    obtain rfl | hpast := (past_started_iff other).mp hpast
    · have hnonneg := h.nonneg (revisionOf calls other)
      rw [ledgerAfter, if_pos rfl, startRun_runCount, if_pos hnewer]
      omega
    · exact (h.begun other hpast hnewer).trans (hgrows _)
  · exact (h.begun other ((hsame other).mp hpast) (hrevision.trans_lt hnewer)).trans (hgrows _)

/-- If no revision is counted twice, every first statement was the first of its revision. -/
theorem BegunCounted.firstOfRevision (h : BegunCounted calls ledger state)
    (hrun : exec (UpdateState.step calls) state actions = some final)
    (honce : ∀ revision, ledger revision + growth calls revision state actions ≤ 1) :
    EveryStep (UpdateState.step calls) (FirstOfRevision calls) state actions := by
  induction actions generalizing state ledger with
  | nil => trivial
  | cons action rest ih =>
    obtain ⟨next, hstep, hrest⟩ := exec_cons_eq_some hrun
    have hafter : ∀ revision, ledgerAfter calls ledger state next action.1 revision +
        growth calls revision next rest ≤ 1 :=
      fun revision => ledger_add_growth hstep ledger revision rest ▸ honce revision
    refine everyStep_cons hstep ?_ (ih (h.step hstep) hrest hafter)
    intro hstarting hreply hnewer other hsame hpast
    -- the other call has counted this revision already, and this one counts it again
    have hcounted := h.begun other hpast (hsame ▸ hnewer)
    have hagain := hafter (revisionOf calls action.1)
    have hrest : 0 ≤ growth calls (revisionOf calls action.1) next rest := growth_nonneg ..
    obtain ⟨-, -, rfl⟩ | ⟨hother, -, -, -⟩ := step_cases hstep
    · rw [ledgerAfter, if_pos rfl, startRun_runCount, if_pos hnewer] at hagain
      rw [hsame] at hcounted
      omega
    · exact hother ⟨hstarting, hreply⟩

end Statement

open UpdateState

/-- In every interleaving of calls of `UpdateStatus` on a task, the count of runs grows by at most
one for each revision if and only if no call counts a revision while another call with the same
revision has made its first statement. -/
theorem countsRuns_iff {Call : Type} [DecidableEq Call] (calls : Call → UpdateCall) (row : TaskRow)
    (actions : List (UpdateAction Call)) (final : UpdateState Call)
    (hrun : exec (UpdateState.step calls) (start row) actions = some final) :
    CountsRuns calls (start row) actions final ↔
      EveryStep (UpdateState.step calls) (FirstOfRevision calls) (start row)
        actions := by
  constructor
  · intro hcounts
    have hbegun : BegunCounted calls (fun _ => 0) (start row) :=
      ⟨fun _ => le_rfl, fun _ hpast => hpast.elim⟩
    refine hbegun.firstOfRevision hrun fun revision => ?_
    rw [zero_add]
    exact hcounts.each revision
  · intro hsteps
    have hnone : CountedOnce calls (fun _ => 0) (start row) :=
      fun revision => ⟨zero_le_one, fun h => absurd h (Int.not_le.mpr zero_lt_one)⟩
    have hone : ∀ revision, growth calls revision (start row) actions ≤ 1 := by
      intro revision
      have hle := hnone.growth_le hsteps hrun revision
      rwa [zero_add] at hle
    refine ⟨hone, ?_⟩
    rw [runCount_eq_sum (Finset.Subset.refl (revisions calls actions)) hrun]
    have hsum := Finset.sum_le_card_nsmul (revisions calls actions) _ 1 fun revision _ =>
      hone revision
    rw [nsmul_one] at hsum
    exact add_le_add_right hsum _

/-- Two hooks of one run of the job. -/
def runningThenSuccess : Bool → UpdateCall
  | false => ⟨⟨"Running", 5⟩, 6⟩
  | true => ⟨⟨"Success", 5⟩, 7⟩

theorem countsRuns_one_after_the_other :
    ∃ final, CountsRuns runningThenSuccess (start (createTaskRecord 1 1 "GC" 0))
      [(false, .ok ()), (false, .ok ()), (true, .ok ()), (true, .ok ())] final := by
  refine ⟨_, (countsRuns_iff runningThenSuccess (createTaskRecord 1 1 "GC" 0) _ _ rfl).mpr ?_⟩
  refine everyStep_cons rfl (fun _ _ _ _ _ => id) (everyStep_cons rfl nofun ?_)
  refine everyStep_cons rfl ?_ (everyStep_cons rfl nofun trivial)
  exact fun _ _ hnewer => absurd hnewer (by decide)

/-- If both hooks make their first statement before either makes its second, the one run is
counted twice. -/
theorem interleaved_counted_twice :
    ∃ final, exec (UpdateState.step runningThenSuccess) (start (createTaskRecord 1 1 "GC" 0))
        [(false, .ok ()), (true, .ok ()), (false, .ok ()), (true, .ok ())] = some final ∧
      (createTaskRecord 1 1 "GC" 0).runCount = 0 ∧ final.row.runCount = 2 ∧
      ∀ call, revisionOf runningThenSuccess call = 5 :=
  ⟨_, rfl, rfl, rfl, fun call => by cases call <;> rfl⟩

end Harbor.Tasks
