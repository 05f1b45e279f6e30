import Harbor.Tasks.OutdatedSet

/-!
# The programs around RefreshStatus

Each program is verified on its own: between two of its operations the others may
do whatever `RefreshRely` permits.  For a call of `RefreshStatus` on the execution
at hand the assertions of `RefreshSafety` hold one after the other; calls for
other executions do not touch it.

* `RefreshStatus`: a try passes through `InCall`, `Known`, `Counted` and `Finished`
  (`refreshStatusOnce_safe`); one whose update is refused is back at `InCall`, which
  carries the induction on the tries (`refreshTries_safe`).
* Scans: `Scanning` is the invariant of the loop over a batch (`refreshMembers_safe`): an
  execution that is held is among the members to come or to put back.  Between batches
  the scan is `Resting` (`scanBatches_safe`).
* Hooks: `InHook` ties the open transaction to its task, and `HandlePost` says that the
  execution was added to the set before the commit (`hookRequest_safe`).

`Actor.program_safe` puts them together for everyone who takes part.
-/

namespace Harbor.Tasks

open Harbor.Concurrency List TaskWorld

section Programs

variable {mode : Mode} {id : ℤ} {thread : ℕ} {world : TaskWorld} {start seen : ℕ}
  {popAt : Option ℕ} {execution : ExecutionRow} {metrics : Metrics} {change : Option Change}

/-- The program keeps the invariant among the other actors. -/
abbrev Safe (mode : Mode) (id : ℤ) (thread : ℕ) {Result : Type}
    (Post : Result → TaskWorld → Prop) (program : RefreshProgram Result) (world : TaskWorld) :
    Prop :=
  Secured refreshSem (RefreshAllowed mode id) (RefreshInv mode id)
    (RefreshRely mode id thread) (RefreshGuar mode id thread) Post program world

/-! ## RefreshStatus -/

def RefreshResult.report (result : RefreshResult) : Option Change :=
  if result.statusChanged then some ⟨result.revision, result.currentStatus⟩ else none

/-- What holds after one try. -/
def AttemptPost (mode : Mode) (id : ℤ) (thread start : ℕ) (popAt : Option ℕ) :
    Except TaskFailure Attempt → TaskWorld → Prop
  | .error err, world => InCall mode id thread start popAt world ∧ (mode.marking → err ≠ .notFound)
  | .ok .retry, world => InCall mode id thread start popAt world
  | .ok (.done result), world => Finished mode id thread start popAt result.report world

variable {before after : TaskWorld} {result : Except TaskFailure RefreshResult} {P : ℤ → Prop}
  {other : ℤ} {toRequeue rest : List Member} {member : Member} {task : TaskRow} {tx : OpenTx}
  {event : AsyncEvent}

theorem AttemptPost.stable {result : Except TaskFailure Attempt}
    (h : AttemptPost mode id thread start popAt result before)
    (hrely : RefreshRely mode id thread before after) :
    AttemptPost mode id thread start popAt result after := by
  cases result with
  | error err => exact ⟨h.1.stable hrely, h.2⟩
  | ok attempt =>
    cases attempt with
    | retry => exact InCall.stable h hrely
    | done result => exact Finished.stable h hrely

open AttemptPost

theorem AttemptPost.safe {result : Except TaskFailure Attempt}
    (h : AttemptPost mode id thread start popAt result world) :
    Safe mode id thread (AttemptPost mode id thread start popAt) (.ret result) world :=
  Secured.ret (fun _ hrely hpost => stable hpost hrely) h

/-- Setting the end time ends the try, one way or the other. -/
theorem setEndTime_safe {result : RefreshResult}
    (h : Finished mode id thread start popAt result.report world) :
    Safe mode id thread (AttemptPost mode id thread start popAt) (do
        match ← TaskDb.setEndTime thread id with
        | .error err => return .error err
        | .ok () => return .ok (.done result)) world := by
  intro later choice after reply hrely hinv hallowed hsem
  have hlater := h.stable hrely
  simp only [refreshSem] at hsem
  split_ifs at hsem with hfailure
  · cases hsem
    refine ⟨hinv, .refl _ _, safe ⟨?_, fun _ => by simp⟩⟩
    exact ⟨hlater.call, fun hmode => hallowed.1 hmode rfl hfailure, hlater.held, hlater.held_le⟩
  · cases hsem
    obtain ⟨hinv', hguar, hfinished⟩ := hlater.setEndTime_step hinv
    exact ⟨hinv', hguar, safe hfinished⟩

theorem writeStatus_safe (h : Counted mode id thread start popAt execution metrics seen world) :
    Safe mode id thread (AttemptPost mode id thread start popAt)
      (writeStatus thread id execution metrics seen) world := by
  unfold writeStatus
  split_ifs with hzero
  · exact safe (h.finished_of_taskCount hzero)
  · intro later choice after reply hrely hinv hallowed hsem
    have hlater := h.stable hrely
    simp only [refreshSem] at hsem
    split at hsem
    · cases hsem
      exact ⟨hinv, .refl _ _, safe ⟨hlater.toInCall, fun _ => by simp⟩⟩
    · split at hsem
      · next hcas =>
        cases hsem
        obtain ⟨hinv', hguar, hfinished⟩ := hlater.cas_step hinv hzero hcas
        refine ⟨hinv', hguar, setEndTime_safe ?_⟩
        convert hfinished using 1
        by_cases hsame : execution.status = metrics.status
        · simp [RefreshResult.report, hsame]
        · simp [RefreshResult.report, hsame, Ne.symm hsame]
      · cases hsem
        exact ⟨hinv, .refl _ _, safe hlater.toInCall⟩

theorem refreshStatusOnce_safe (h : InCall mode id thread start popAt world) :
    Safe mode id thread (AttemptPost mode id thread start popAt)
      (refreshStatusOnce thread id) world := by
  intro later choice after reply hrely hinv hallowed hsem
  have hlater := h.stable hrely
  simp only [refreshSem] at hsem
  split at hsem
  · cases hsem
    exact ⟨hinv, .refl _ _, safe ⟨hlater, fun _ => by simp⟩⟩
  · cases hrow : later.executions id with
    | none =>
      simp only [hrow] at hsem
      cases hsem
      -- in the asynchronous mode there is always a row, so this error does not occur
      refine ⟨hinv, .refl _ _, safe ⟨hlater, fun hmode => ?_⟩⟩
      obtain ⟨row, hsome⟩ := (hinv.mark hmode).exists_row
      simp [hrow] at hsome
    | some row =>
      simp only [hrow] at hsem
      cases hsem
      refine ⟨hinv, .refl _ _, ?_⟩
      intro later' choice' after' reply' hrely' hinv' hallowed' hsem'
      have hknown := (hlater.known hinv hrow).stable hrely'
      simp only [refreshSem] at hsem'
      split_ifs at hsem'
      · cases hsem'
        exact ⟨hinv', .refl _ _, safe ⟨hknown.toInCall, fun _ => by simp⟩⟩
      · cases hsem'
        exact ⟨hinv', .refl _ _, writeStatus_safe hknown.counted⟩

/-- What holds when the tries are over. -/
def TriesPost (mode : Mode) (id : ℤ) (thread start : ℕ) (popAt : Option ℕ) :
    Except TaskFailure RefreshResult → TaskWorld → Prop
  | .error err, world => InCall mode id thread start popAt world ∧ (mode.marking → err ≠ .notFound)
  | .ok result, world => Finished mode id thread start popAt result.report world

theorem TriesPost.stable (h : TriesPost mode id thread start popAt result before)
    (hrely : RefreshRely mode id thread before after) :
    TriesPost mode id thread start popAt result after := by
  cases result with
  | error err => exact ⟨h.1.stable hrely, h.2⟩
  | ok result => exact Finished.stable h hrely

theorem TriesPost.safe (h : TriesPost mode id thread start popAt result world) :
    Safe mode id thread (TriesPost mode id thread start popAt) (.ret result) world :=
  Secured.ret (fun _ hrely hpost => TriesPost.stable hpost hrely) h

theorem refreshTries_safe (tries : ℕ) (hinv : RefreshInv mode id world)
    (h : InCall mode id thread start popAt world) :
    Safe mode id thread (TriesPost mode id thread start popAt)
      (refreshTries thread id tries) world := by
  induction tries generalizing world with
  | zero => exact TriesPost.safe ⟨h, fun _ => by simp⟩
  | succ tries ih =>
    refine Secured.bind (refresh_compatible.refl thread) hinv (refreshStatusOnce_safe h) ?_
    intro result later hlater hpost
    cases result with
    | error err => exact TriesPost.safe hpost
    | ok attempt =>
      cases attempt with
      | done result => exact TriesPost.safe hpost
      | retry => exact ih hlater hpost

/-- What holds after a call: the thread is idle again, and it has let go of the
execution if the call was successful. -/
def CallPost (mode : Mode) (id : ℤ) (thread : ℕ) (popAt : Option ℕ) :
    Except TaskFailure RefreshResult → TaskWorld → Prop
  | .error err, world => Idle id thread world ∧ (world.audit id).held thread = popAt ∧
      (mode.marking → err ≠ .notFound)
  | .ok _, world => Idle id thread world ∧ (world.audit id).held thread = none

theorem CallPost.stable (h : CallPost mode id thread popAt result before)
    (hrely : RefreshRely mode id thread before after) :
    CallPost mode id thread popAt result after := by
  cases result with
  | error err => exact ⟨hrely.2.calls.trans h.1, hrely.2.held.trans h.2.1, h.2.2⟩
  | ok result => exact ⟨hrely.2.calls.trans h.1, hrely.2.held.trans h.2⟩

/-- **`RefreshStatus` on the execution.** -/
theorem refreshStatus_safe (hidle : Idle id thread world)
    (hheld : (world.audit id).held thread = popAt) :
    Safe mode id thread (CallPost mode id thread popAt) (refreshStatus thread id) world := by
  intro later choice after reply hrely hinv hallowed hsem
  cases hsem
  have hlater : Idle id thread later := hrely.2.calls.trans hidle
  obtain ⟨hinv', hguar, hcall⟩ := enter_step hinv hlater
  rw [hrely.2.held, hheld] at hcall
  refine ⟨hinv', hguar, ?_⟩
  show Secured _ _ _ _ _ _ (refreshTries thread id 5 >>= _) _
  refine Secured.bind (refresh_compatible.refl thread) hinv' (refreshTries_safe 5 hinv' hcall) ?_
  intro result last hlast hpost last' choice' after' reply' hrely' hinv'' hallowed' hsem'
  cases hsem'
  have hpost' := TriesPost.stable hpost hrely'
  cases result with
  | error err =>
    obtain ⟨hinv₁, hguar₁⟩ := hpost'.1.leave_step hinv'' err
    refine ⟨hinv₁, hguar₁,
      Secured.ret (fun _ hmore h => CallPost.stable h hmore) ⟨?_, ?_, hpost'.2⟩⟩
    · simp [Idle, Audit.returned]
    · simpa [Audit.returned] using hpost'.1.held
  | ok result =>
    obtain ⟨hinv₁, hguar₁⟩ := Finished.leave_step hpost' hinv''
    refine ⟨hinv₁, hguar₁, Secured.ret (fun _ hmore h => CallPost.stable h hmore) ⟨?_, ?_⟩⟩
    · simp [Idle, Audit.returned]
    · simp [Audit.returned]

theorem refreshStatusOnce_uses (hP : P other) :
    (refreshStatusOnce thread other).Uses (RefreshOp.Refreshes P) := by
  refine ⟨trivial, fun reply => ?_⟩
  cases reply with
  | error err => exact trivial
  | ok execution =>
    refine ⟨trivial, fun reply => ?_⟩
    cases reply with
    | error err => exact trivial
    | ok counts =>
      show (writeStatus thread other execution (getMetrics counts.1) counts.2).Uses _
      unfold writeStatus
      split_ifs
      · exact trivial
      · refine ⟨hP, fun reply => ?_⟩
        cases reply with
        | error err => exact trivial
        | ok stored =>
          cases stored with
          | false => exact trivial
          | true =>
            refine ⟨hP, fun reply => ?_⟩
            cases reply <;> exact trivial

theorem refreshTries_uses (hP : P other) (tries : ℕ) :
    (refreshTries thread other tries).Uses (RefreshOp.Refreshes P) := by
  induction tries with
  | zero => exact trivial
  | succ tries ih =>
    refine (refreshStatusOnce_uses hP).bind fun result => ?_
    cases result with
    | error err => exact trivial
    | ok attempt =>
      cases attempt with
      | done result => exact trivial
      | retry => exact ih

theorem refreshStatus_uses (hP : P other) :
    (refreshStatus thread other).Uses (RefreshOp.Refreshes P) :=
  ⟨hP, fun _ => (refreshTries_uses hP 5).bind fun _ => ⟨hP, fun _ => trivial⟩⟩

/-- **`RefreshStatus` on another execution** leaves alone what the thread knows. -/
theorem refreshStatus_safe_of_ne (hne : other ≠ id) {Fact : TaskWorld → Prop}
    (hstable : ∀ before after, Keeps id thread before after → Fact before → Fact after)
    (hfact : Fact world) :
    Safe mode id thread (fun _ later => Fact later) (refreshStatus thread other) world := by
  have huses : (refreshStatus thread other).Uses (RefreshOp.Refreshes (· ≠ id)) :=
    refreshStatus_uses hne
  refine huses.secured (fun _ _ hrely => hstable _ _ hrely.2) ?_ hfact
  intro before op choice after reply hop hinv hbefore _ hsem
  have hsame := sameFor_of_refreshes hop (fun _ hne => hne) hsem
  refine ⟨hsame.inv hinv, hsame.guar, hstable _ _ ?_ hbefore⟩
  exact ⟨by rw [hsame.audit], by rw [hsame.audit], by rw [hsame.audit],
    by rw [hsame.transactions], by rw [hsame.scans]⟩

/-! ## Scans -/

/-- In the loop over the members of a batch: if the scan still holds the execution, it
is among the members to come or to put back. -/
structure Scanning (mode : Mode) (id : ℤ) (thread : ℕ) (toRequeue rest : List Member)
    (world : TaskWorld) : Prop where
  idle : Idle id thread world
  scans : mode.marking → world.scans thread = true
  pending : mode.marking → (world.audit id).held thread ≠ none →
    ∃ member ∈ toRequeue ++ rest, member.id = id ∧ member.vendor ≠ ""
  vendor_ne : ∀ member ∈ toRequeue, member.vendor ≠ ""

theorem Scanning.stable (h : Scanning mode id thread toRequeue rest before)
    (hkeeps : Keeps id thread before after) : Scanning mode id thread toRequeue rest after where
  idle := hkeeps.calls.trans h.idle
  scans := fun hmode => hkeeps.scans.trans (h.scans hmode)
  pending := fun hmode hheld => h.pending hmode (hkeeps.held ▸ hheld)
  vendor_ne := h.vendor_ne

/-- A member for another execution, or one that does not parse, does not matter. -/
theorem Scanning.skip (h : Scanning mode id thread toRequeue (member :: rest) world)
    (hskip : mode.marking → member.id = id → member.vendor ≠ "" →
      (world.audit id).held thread = none) : Scanning mode id thread toRequeue rest world where
  idle := h.idle
  scans := h.scans
  pending := fun hmode hheld => by
    obtain ⟨other, hother, hid, hvendor⟩ := h.pending hmode hheld
    refine ⟨other, ?_, hid, hvendor⟩
    have hne : other ≠ member := by
      rintro rfl
      exact hheld (hskip hmode hid hvendor)
    simpa [hne] using hother
  vendor_ne := h.vendor_ne

theorem Scanning.putBack (h : Scanning mode id thread toRequeue (member :: rest) world)
    (hvendor : member.vendor ≠ "")
    (hdropped : mode.marking → member.id = id → putBack toRequeue member result = toRequeue →
      (world.audit id).held thread = none) :
    Scanning mode id thread (putBack toRequeue member result) rest world := by
  have hcases : Tasks.putBack toRequeue member result = toRequeue ∨
      Tasks.putBack toRequeue member result = toRequeue ++ [member] := by
    cases result with
    | ok result => exact .inl rfl
    | error err => exact ite_eq_or_eq ..
  rcases hcases with hsame | happend
  · rw [hsame]
    exact h.skip fun hmode hid _ => hdropped hmode hid hsame
  · rw [happend]
    refine ⟨h.idle, h.scans, fun hmode hheld => by simpa using h.pending hmode hheld, ?_⟩
    intro other hother
    rcases mem_append.mp hother with hother | hother
    · exact h.vendor_ne other hother
    · exact mem_singleton.mp hother ▸ hvendor

theorem refreshMember_safe (hvendor : member.vendor ≠ "")
    (h : Scanning mode id thread toRequeue (member :: rest) world) :
    Safe mode id thread (fun result later =>
        Scanning mode id thread (putBack toRequeue member result) rest later)
      (refreshStatus thread member.id) world := by
  by_cases hid : member.id = id
  · have huses : (refreshStatus thread member.id).Uses (RefreshOp.Refreshes (· = id)) :=
      refreshStatus_uses hid
    have hsafe : Safe mode id thread (CallPost mode id thread ((world.audit id).held thread))
        (refreshStatus thread member.id) world := by
      rw [hid]
      exact refreshStatus_safe h.idle rfl
    refine (hsafe.frame (fun later => later.scans thread = world.scans thread)
      (fun _ _ hrely hfact => hrely.2.scans.trans hfact)
      (fun _ _ _ _ _ hop hsem _ hfact => by rw [scans_of_refreshes hop hsem, hfact])
      huses rfl).mono ?_
    rintro result later - ⟨hpost, hscans⟩
    cases result with
    | ok result =>
      refine Scanning.putBack ⟨hpost.1, fun hmode => hscans.trans (h.scans hmode), ?_,
        h.vendor_ne⟩ hvendor fun _ _ _ => hpost.2
      exact fun _ hheld => absurd hpost.2 hheld
    | error err =>
      refine Scanning.putBack ⟨hpost.1, fun hmode => hscans.trans (h.scans hmode), ?_,
        h.vendor_ne⟩ hvendor fun hmode _ hsame => ?_
      · exact fun hmode hheld => h.pending hmode (hpost.2.1 ▸ hheld)
      · simp [putBack, hpost.2.2 hmode] at hsame
  · refine (refreshStatus_safe_of_ne hid (fun _ _ hkeeps hfact => Scanning.stable hfact hkeeps)
      h).mono ?_
    exact fun result later _ hpost =>
      Scanning.putBack hpost hvendor fun _ hsame => absurd hsame hid

theorem refreshMembers_safe (members toRequeue : List Member) (hinv : RefreshInv mode id world)
    (h : Scanning mode id thread toRequeue members world) :
    Safe mode id thread (fun result later => Scanning mode id thread result [] later)
      (refreshMembers thread members toRequeue) world := by
  induction members generalizing toRequeue world with
  | nil => exact Secured.ret (fun _ hrely hpost => Scanning.stable hpost hrely.2) h
  | cons member rest ih =>
    unfold refreshMembers
    split_ifs with hvendor
    · exact ih toRequeue hinv (h.skip fun _ _ hne => absurd hvendor hne)
    · refine Secured.bind (refresh_compatible.refl thread) hinv (refreshMember_safe hvendor h) ?_
      exact fun result later hlater hpost => ih _ hlater hpost

/-- Between two batches: the scan holds nothing. -/
structure Resting (mode : Mode) (id : ℤ) (thread : ℕ) (world : TaskWorld) : Prop where
  idle : Idle id thread world
  scans : mode.marking → world.scans thread = true
  held : mode.marking → (world.audit id).held thread = none

theorem Resting.stable (h : Resting mode id thread before) (hkeeps : Keeps id thread before after) :
    Resting mode id thread after where
  idle := hkeeps.calls.trans h.idle
  scans := fun hmode => hkeeps.scans.trans (h.scans hmode)
  held := fun hmode => hkeeps.held.trans (h.held hmode)

theorem Resting.safe {Result : Type} {result : Result} (h : Resting mode id thread world) :
    Safe mode id thread (fun _ later => Resting mode id thread later) (.ret result) world :=
  Secured.ret (fun _ hrely hpost => hpost.stable hrely.2) h

theorem requeueOutdateMembers_safe {members : List Member}
    (h : Scanning mode id thread members [] world) :
    Safe mode id thread (fun _ later => Resting mode id thread later)
      (requeueOutdateMembers thread members) world := by
  have hpending : ∀ later, Scanning mode id thread members [] later → mode.marking →
      (later.audit id).held thread ≠ none → ∃ member ∈ members, member.id = id := by
    intro later hlater hmode hheld
    obtain ⟨member, hmem, hid, -⟩ := hlater.pending hmode hheld
    exact ⟨member, by simpa using hmem, hid⟩
  unfold requeueOutdateMembers
  split_ifs with hempty
  · refine Resting.safe ⟨h.idle, h.scans, fun hmode => ?_⟩
    by_contra hheld
    obtain ⟨member, hmem, -⟩ := hpending world h hmode hheld
    simp [hempty] at hmem
  · intro later choice after reply hrely hinv hallowed hsem
    have hlater := h.stable hrely.2
    simp only [refreshSem] at hsem
    split_ifs at hsem with hfailure
    · cases hsem
      refine ⟨hinv, .refl _ _, Resting.safe ⟨hlater.idle, hlater.scans, fun hmode => ?_⟩⟩
      by_contra hheld
      have hput := hallowed.2 hmode (hpending later hlater hmode hheld)
      simp [hfailure] at hput
    · cases hsem
      refine and_assoc.mp ⟨requeue_step hinv fun _ member hmem _ => h.vendor_ne member hmem,
        Resting.safe ⟨?_, hlater.scans, fun hmode => ?_⟩⟩
      · simpa [Idle, requeue_audit] using hlater.idle
      · rw [requeue_audit]
        split_ifs with hput
        · exact Function.update_self ..
        · by_contra hheld
          exact hput (hpending later hlater hmode hheld)

/-- After a pop the scan holds what it has popped. -/
theorem Resting.popped (h : Resting mode id thread world) (members : List Member)
    (hvendor : mode.marking → ∀ member ∈ members, member.id = id → member.vendor ≠ "") :
    Scanning mode id thread [] members (world.pop thread members) where
  idle := by
    show ((world.pop thread members).audit id).calls thread = none
    rw [pop_audit]
    exact h.idle
  scans := h.scans
  pending := fun hmode hheld => by
    by_cases hpopped : ∃ member ∈ members, member.id = id
    · obtain ⟨member, hmem, hid⟩ := hpopped
      exact ⟨member, by simpa using hmem, hid, hvendor hmode member hmem hid⟩
    · rw [pop_audit, if_neg hpopped] at hheld
      exact absurd (h.held hmode) hheld
  vendor_ne := by simp

theorem scanBatches_safe (rounds : ℕ) (hinv : RefreshInv mode id world)
    (h : Resting mode id thread world) :
    Safe mode id thread (fun _ later => Resting mode id thread later)
      (scanBatches thread rounds) world := by
  induction rounds generalizing world with
  | zero => exact h.safe
  | succ rounds ih =>
    intro later choice after reply hrely hinv' hallowed hsem
    have hlater := h.stable hrely.2
    simp only [refreshSem] at hsem
    split_ifs at hsem with hfailure hpops
    · cases hsem
      exact ⟨hinv', .refl _ _, hlater.safe⟩
    · cases hsem
      obtain ⟨hpop, hguar⟩ : RefreshInv mode id (later.pop thread choice.popped) ∧
          RefreshGuar mode id thread later (later.pop thread choice.popped) :=
        pop_step hinv' hlater.scans fun hmode => hallowed.2 hmode
      have hscanning := hlater.popped choice.popped fun hmode member hmem =>
        (hinv'.mark hmode).vendor_ne member (hpops.2.1 member hmem)
      refine ⟨hpop, hguar, ?_⟩
      show Secured _ _ _ _ _ _ (if choice.popped = [] then _ else _) _
      by_cases hempty : choice.popped = []
      · rw [if_pos hempty]
        have hnone : ¬ ∃ member ∈ choice.popped, member.id = id := by simp [hempty]
        refine Resting.safe ⟨hscanning.idle, hscanning.scans, fun hmode => ?_⟩
        rw [pop_audit, if_neg hnone]
        exact hlater.held hmode
      · rw [if_neg hempty]
        -- refresh the members, put back those that have failed, and go on
        refine Secured.bind (refresh_compatible.refl thread) hpop
          (refreshMembers_safe choice.popped [] hpop hscanning) ?_
        intro toRequeue later' hlater' hpost
        refine Secured.bind (refresh_compatible.refl thread) hlater'
          (requeueOutdateMembers_safe hpost) ?_
        intro _ later'' hlater'' hresting
        split_ifs
        · exact hresting.safe
        · exact ih hlater'' hresting

theorem scanAndRefreshOutdateStatus_safe (rounds : ℕ) (hidle : Idle id thread world)
    (hheld : mode.marking → (world.audit id).held thread = none) :
    Safe mode id thread (fun _ _ => True) (scanAndRefreshOutdateStatus thread rounds) world := by
  intro later choice after reply hrely hinv hallowed hsem
  cases hsem
  obtain ⟨hinv', hguar⟩ : RefreshInv mode id (later.setScan thread true) ∧
      RefreshGuar mode id thread later (later.setScan thread true) :=
    setScan_step hinv (by simp)
  refine ⟨hinv', hguar, ?_⟩
  show Secured _ _ _ _ _ _ (scanBatches thread rounds >>= _) _
  have hresting : Resting mode id thread (later.setScan thread true) :=
    ⟨hrely.2.calls.trans hidle, fun _ => Function.update_self ..,
      fun hmode => hrely.2.held.trans (hheld hmode)⟩
  refine Secured.bind (refresh_compatible.refl thread) hinv'
    (scanBatches_safe rounds hinv' hresting) ?_
  intro _ last hlast hpost last' choice' after' reply' hrely' hinv'' hallowed' hsem'
  cases hsem'
  exact and_assoc.mp ⟨setScan_step hinv'' fun hmode _ => (hpost.stable hrely'.2).held hmode,
    fun _ _ _ => trivial⟩

/-! ## Status hooks -/

def TaskWorld.Owner (world : TaskWorld) (taskID executionID : ℤ) : Prop :=
  ∀ owner ∈ world.owners, owner.1 = taskID → owner.2 = executionID

/-- The thread is in a transaction, for a task of a known execution. -/
structure InHook (mode : Mode) (thread : ℕ) (task : TaskRow) (tx : OpenTx) (world : TaskWorld) :
    Prop where
  transaction : world.transactions thread = some tx
  owner : mode.marking → world.Owner task.id task.executionID

theorem InHook.stable (h : InHook mode thread task tx before)
    (hrely : RefreshRely mode id thread before after) : InHook mode thread task tx after where
  transaction := hrely.2.transaction.trans h.transaction
  owner := fun hmode => by
    unfold TaskWorld.Owner
    rw [hrely.1.owners_eq hmode]
    exact h.owner hmode

theorem InHook.txWrite_step (h : InHook mode thread task tx world) (hinv : RefreshInv mode id world)
    (statement : Statement) :
    RefreshInv mode id
        (world.inTx thread fun tx => { tx with writes := tx.writes ++ [statement] }) ∧
      RefreshGuar mode id thread world
        (world.inTx thread fun tx => { tx with writes := tx.writes ++ [statement] }) ∧
      InHook mode thread task { tx with writes := tx.writes ++ [statement] }
        (world.inTx thread fun tx => { tx with writes := tx.writes ++ [statement] }) := by
  unfold inTx
  rw [h.transaction, Option.map_some]
  refine and_assoc.mp ⟨setTx_step hinv fun hmode open_ hopen hmem => ?_,
    Function.update_self .., h.owner⟩
  cases hopen
  exact (hinv.mark hmode).added_marked thread tx h.transaction hmem

/-- What holds when the handler returns: it has updated the status of one task and has
added its execution to the set. -/
def HandlePost (mode : Mode) (thread : ℕ) : Except TaskFailure Unit → TaskWorld → Prop
  | .ok (), world => ∃ task tx, InHook mode thread task tx world ∧
      (∀ statement ∈ tx.writes, statement.UpdatesStatusOf task.id) ∧ task.executionID ∈ tx.added
  | .error _, _ => True

theorem HandlePost.safe {result : Except TaskFailure Unit}
    (h : HandlePost mode thread result world) :
    Safe mode id thread (HandlePost mode thread) (.ret result) world := by
  cases result with
  | error err => exact Secured.ret (fun _ _ hpost => hpost) trivial
  | ok _ =>
    refine Secured.ret (fun _ hrely hpost => ?_) h
    obtain ⟨task, tx, hhook, hwrites, hadded⟩ := hpost
    exact ⟨task, tx, hhook.stable hrely, hwrites, hadded⟩

open HandlePost

theorem add_safe (h : InHook mode thread task tx world)
    (hwrites : ∀ statement ∈ tx.writes, statement.UpdatesStatusOf task.id) :
    Safe mode id thread (HandlePost mode thread)
      (TaskDb.add thread ⟨task.executionID, task.vendorType⟩) world := by
  intro later choice after reply hrely hinv hallowed hsem
  have hlater := h.stable hrely
  simp only [refreshSem] at hsem
  split_ifs at hsem
  · cases hsem
    exact ⟨hinv, .refl _ _, safe trivial⟩
  · cases hsem
    obtain ⟨hinv', hguar⟩ := add_step hinv fun hmode => hallowed.2 hmode
    refine ⟨hinv', hguar, safe ⟨task, { tx with added := task.executionID :: tx.added },
      ⟨?_, hlater.owner⟩, hwrites, mem_cons_self⟩⟩
    simp [inTx, setTx, sadd, hlater.transaction]

theorem handleTask_safe (h : InHook mode thread task {} world) :
    Safe mode id thread (HandlePost mode thread) (handleTask thread event task) world := by
  intro later choice after reply hrely hinv hallowed hsem
  have hlater := h.stable hrely
  simp only [refreshSem] at hsem
  split_ifs at hsem
  · cases hsem
    exact ⟨hinv, .refl _ _, safe trivial⟩
  · cases hsem
    obtain ⟨hinv', hguar, hstarted⟩ := hlater.txWrite_step hinv (.startRun task.id event.revision)
    refine ⟨hinv', hguar, ?_⟩
    intro later' choice' after' reply' hrely' hinv'' hallowed' hsem'
    have hlater' := hstarted.stable hrely'
    simp only [refreshSem] at hsem'
    split_ifs at hsem'
    · cases hsem'
      exact ⟨hinv'', .refl _ _, safe trivial⟩
    · cases hsem'
      obtain ⟨hinv₁, hguar₁, hset⟩ := hlater'.txWrite_step hinv''
        (.setStatus task.id event.status event.revision event.now)
      refine ⟨hinv₁, hguar₁, add_safe hset fun statement hstatement => ?_⟩
      simp only [nil_append, cons_append, mem_cons, not_mem_nil, or_false] at hstatement
      rcases hstatement with rfl | rfl <;> rfl

/-- The IDs of tasks are unique, so a task that was found tells its execution. -/
theorem owner_of_mem (hnodup : (world.tasks.map TaskRow.id).Nodup) (htask : task ∈ world.tasks) :
    world.Owner task.id task.executionID := by
  intro owner howner hid
  obtain ⟨row, hrow, rfl⟩ := mem_map.mp howner
  rw [inj_on_of_nodup_map hnodup hrow htask hid]

theorem handle_safe (h : world.transactions thread = some {}) :
    Safe mode id thread (HandlePost mode thread) (handle thread event) world := by
  intro later choice after reply hrely hinv hallowed hsem
  have hlater := hrely.2.transaction.trans h
  simp only [refreshSem] at hsem
  split_ifs at hsem
  · cases hsem
    exact ⟨hinv, .refl _ _, safe trivial⟩
  · cases hsem
    refine ⟨hinv, .refl _ _, ?_⟩
    cases hfound : tasksOfJob later.tasks event.taskJob with
    | nil => exact safe trivial
    | cons task others =>
      have htask : task ∈ later.tasks := by
        have hmem : task ∈ tasksOfJob later.tasks event.taskJob := by simp [hfound]
        exact (mem_filter.mp ((mem_insertionSort _).mp hmem)).1
      have hhook : InHook mode thread task {} later :=
        ⟨hlater, fun hmode => owner_of_mem (hinv.mark hmode).ids_nodup htask⟩
      intro later' choice' after' reply' hrely' hinv' hallowed' hsem'
      have hhook' := hhook.stable hrely'
      simp only [refreshSem] at hsem'
      split at hsem'
      · cases hsem'
        exact ⟨hinv', .refl _ _, safe trivial⟩
      · split at hsem'
        · cases hsem'
          exact ⟨hinv', .refl _ _, handleTask_safe hhook'⟩
        · cases hsem'
          exact ⟨hinv', .refl _ _, safe trivial⟩

theorem finishRequest_safe {result : Except TaskFailure Unit}
    (h : HandlePost mode thread result world) :
    Safe mode id thread (fun _ _ => True) (finishRequest thread result) world := by
  cases result with
  | error err =>
    intro later choice after reply hrely hinv hallowed hsem
    cases hsem
    exact and_assoc.mp ⟨setTx_step hinv (by simp), fun _ _ _ => trivial⟩
  | ok _ =>
    intro later choice after reply hrely hinv hallowed hsem
    obtain ⟨task, tx, hhook, hwrites, hadded⟩ := h
    have hlater := hhook.stable hrely
    simp only [refreshSem] at hsem
    split_ifs at hsem
    · cases hsem
      exact and_assoc.mp ⟨setTx_step hinv (by simp), fun _ _ _ => trivial⟩
    · cases hsem
      refine and_assoc.mp ⟨commit_step hinv fun hmode open_ hopen => ?_, fun _ _ _ => trivial⟩
      cases hlater.transaction.symm.trans hopen
      refine accepts_of_updatesStatus hwrites (hlater.owner hmode) fun hid => ?_
      exact (hinv.mark hmode).added_marked thread tx hlater.transaction (hid ▸ hadded)

theorem hookRequest_safe :
    Safe mode id thread (fun _ _ => True) (hookRequest thread event) world := by
  intro later choice after reply hrely hinv hallowed hsem
  simp only [refreshSem] at hsem
  split_ifs at hsem
  · cases hsem
    exact ⟨hinv, .refl _ _, fun _ _ _ => trivial⟩
  · cases hsem
    obtain ⟨hinv', hguar⟩ : RefreshInv mode id (later.setTx thread (some {})) ∧
        RefreshGuar mode id thread later (later.setTx thread (some {})) :=
      setTx_step hinv fun _ open_ hopen hmem => by
        cases hopen
        simp at hmem
    refine ⟨hinv', hguar, ?_⟩
    show Secured _ _ _ _ _ _ (handle thread event >>= _) _
    refine Secured.bind (refresh_compatible.refl thread) hinv'
      (handle_safe (Function.update_self ..)) ?_
    exact fun result last _ hpost => finishRequest_safe hpost

/-! ## Actors -/

/-- Tasks are only updated by hooks in the asynchronous mode. -/
def Actor.InMode (mode : Mode) : Actor → Prop
  | .write _ => ¬ mode.marking
  | _ => True

theorem Actor.program_safe {actor : Actor} (hactor : actor.InMode mode)
    (hinv : RefreshInv mode id world) (hidle : Idle id thread world)
    (hheld : (world.audit id).held thread = none) :
    Safe mode id thread (fun _ _ => True) (actor.program thread) world := by
  cases actor with
  | refresh other =>
    have hcall : Safe mode id thread (fun _ _ => True) (refreshStatus thread other) world := by
      by_cases hid : other = id
      · rw [hid]
        exact (refreshStatus_safe hidle rfl).mono fun _ _ _ _ => trivial
      · exact refreshStatus_safe_of_ne hid (fun _ _ _ _ => trivial) trivial
    exact Secured.bind (refresh_compatible.refl thread) hinv hcall fun _ _ _ _ _ _ _ => trivial
  | write statement =>
    intro later choice after reply hrely hinv' hallowed hsem
    simp only [refreshSem] at hsem
    split_ifs at hsem
    · cases hsem
      exact ⟨hinv', .refl _ _, fun _ _ _ => trivial⟩
    · cases hsem
      obtain ⟨hinv₁, hguar⟩ := setTasks_step hinv' fun hmode => absurd hmode hactor
      exact ⟨hinv₁, hguar, fun _ _ _ => trivial⟩
  | hook event =>
    exact Secured.bind (refresh_compatible.refl thread) hinv hookRequest_safe
      fun _ _ _ _ _ _ _ => trivial
  | scan rounds => exact scanAndRefreshOutdateStatus_safe rounds hidle fun _ => hheld

end Programs

end Harbor.Tasks
