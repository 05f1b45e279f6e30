import Harbor.JobService.Runner

/-!
# A stop is kept by the run it meets

`StopJob` and `Run` race for the status of a job.  Once `StopJob` has moved the
stored status, every compare-and-set of `Run` carries the stored revision and is
refused, so that the status stays and the body is not started by a run that had
not switched to running before (`stop_kept_without_late_reset`).

`StatusResetScript` compares with nothing.  A run that has loaded a running
status, as after a crash, and resets it after the stop brings the job back to
pending and runs it (`stop_lost`).

Every change of the status is one that its actor is `Entitled` to: a stop, or one that is
not ahead of the stored revision.  A stopped status is kept by those
(`setStatusScript_keeps_stopped`), and `setStatus_safe` shows that the tracker makes no
others.  The runner is never ahead of the stored revision (`Owned`), neither with the stats
it has loaded (`track_safe`) nor after a reset (`reset_step`).
-/

namespace Harbor.JobService

open Harbor.Concurrency List JobWorld Pool

/-! ## What every actor may count on -/

/-- Once moved, the stored status is the stopped one; and a change in the retry
list either stops the job or is for the stored revision. -/
structure StopInv (world : JobWorld) : Prop where
  stopped : world.stopMoved = true → world.keys.status = some Status.stopped.text
  entries : ∀ change ∈ world.retries, change.targetStatus = Status.stopped.text ∨
    change.revision ≤ world.keys.revision

/-- Nothing undoes the stop, and the body is only started by a run that had
switched to running before. -/
structure StopKept (before after : JobWorld) : Prop where
  moved : before.stopMoved = true → after.stopMoved = true
  status : before.stopMoved = true → after.keys.status = some Status.stopped.text
  switched : before.stopMoved = true → after.switched = before.switched
  started : before.stopMoved = true → after.started = true →
    before.started = true ∨ before.switched = true

/-- What each actor relies on.  The runner is the only one to change the revision
or to queue anything but a stop; the retrier is the only one to take changes
off the retry list. -/
def stopRely : Actor → JobWorld → JobWorld → Prop
  | .stopper, _, _ => True
  | .runner, before, after =>
    after.keys.revision = before.keys.revision ∧ after.switched = before.switched ∧
      ∀ change ∈ after.retries, change.targetStatus ≠ Status.stopped.text →
        change ∈ before.retries
  | .retrier, before, after => before.retries <+: after.retries

variable (actor : Actor)

def stopGuar (before after : JobWorld) : Prop :=
  StopKept before after ∧ ∀ other, other ≠ actor → stopRely other before after

variable {world : JobWorld}

theorem stopRely_refl (world : JobWorld) : stopRely actor world world := by
  cases actor with
  | stopper => trivial
  | runner => exact ⟨rfl, rfl, fun _ hchange _ => hchange⟩
  | retrier => exact prefix_rfl

theorem stopRely_trans (a b c : JobWorld) (hab : stopRely actor a b) (hbc : stopRely actor b c) :
    stopRely actor a c := by
  cases actor with
  | stopper => trivial
  | runner =>
    exact ⟨hbc.1.trans hab.1, hbc.2.1.trans hab.2.1, fun change hchange hne =>
      hab.2.2 change (hbc.2.2 change hchange hne) hne⟩
  | retrier => exact List.IsPrefix.trans hab hbc

theorem stop_compatible : Pool.Compatible StopInv stopRely stopGuar where
  refl := stopRely_refl
  trans := stopRely_trans
  guar_rely := fun _ other _ _ hne _ _ hguar => hguar.2 other (Ne.symm hne)

/-- The run does not reset the status after the stop, and does not miss that it
has set the revision back. -/
def NoLateReset (world : JobWorld) (op : JobOp) (choice : JobChoice) : Prop :=
  match op with
  | .reset => world.stopMoved = false ∧
      (choice.outcome = .lost → world.keys.revision ≤ choice.now)
  | _ => True

/-- The judgement about one actor. -/
abbrev Safe {Result : Type} (Post : Result → JobWorld → Prop) (program : JobProgram Result)
    (world : JobWorld) : Prop :=
  Secured jobSem NoLateReset StopInv (stopRely actor) (stopGuar actor) Post program world

/-! ## Operations that leave the status alone -/

structure Quiet (before after : JobWorld) : Prop where
  status : after.keys.status = before.keys.status
  revision : after.keys.revision = before.keys.revision
  retries : after.retries = before.retries
  stopMoved : after.stopMoved = before.stopMoved
  switched : after.switched = before.switched
  started : after.started = before.started

def IsQuiet : JobOp → Prop
  | .setStatus _ _ _ => False
  | .reset => False
  | .pushRetry _ => False
  | .removeRetry _ => False
  | .startBody => False
  | _ => True

section Operations

variable {world after : JobWorld} {choice : JobChoice}

theorem Quiet.refl (world : JobWorld) : Quiet world world := ⟨rfl, rfl, rfl, rfl, rfl, rfl⟩

theorem quiet_of_isQuiet {op : JobOp} {reply : JobReply op} (hop : IsQuiet op)
    (hsem : jobSem world op choice = some (after, reply)) : Quiet world after := by
  cases op with
  | checkIn =>
    simp only [jobSem] at hsem
    split_ifs at hsem
    · cases hsem
      exact .refl _
    · cases hsem
      refine ⟨?_, ?_, rfl, rfl, rfl, rfl⟩ <;> simp [JobKeys.status, JobKeys.revision, JobKeys.hmset]
  | setStatus | reset | pushRetry | removeRetry | startBody => exact hop.elim
  | _ =>
    cases hsem
    exact .refl _

theorem Quiet.inv (hquiet : Quiet world after) (hinv : StopInv world) : StopInv after where
  stopped := fun hmoved => by
    rw [hquiet.status]
    exact hinv.stopped (hquiet.stopMoved ▸ hmoved)
  entries := fun change hchange => by
    rw [hquiet.revision]
    exact hinv.entries change (hquiet.retries ▸ hchange)

theorem Quiet.guar (hquiet : Quiet world after) (hinv : StopInv world) (actor : Actor) :
    stopGuar actor world after := by
  refine ⟨⟨fun hmoved => by rw [hquiet.stopMoved, hmoved],
    fun hmoved => by rw [hquiet.status, hinv.stopped hmoved],
    fun _ => hquiet.switched, fun _ hstarted => .inl (hquiet.started ▸ hstarted)⟩, ?_⟩
  intro other _
  cases other with
  | stopper => trivial
  | runner => exact ⟨hquiet.revision, hquiet.switched, fun change hchange _ =>
    hquiet.retries ▸ hchange⟩
  | retrier =>
    simp only [stopRely]
    rw [hquiet.retries]

/-- A program of quiet operations is safe and keeps every fact that is stable
under quiet steps. -/
theorem safe_of_quiet {Result : Type} {actor : Actor} {Fact : JobWorld → Prop}
    (hstable : ∀ a b, stopRely actor a b → Fact a → Fact b)
    (hquiet : ∀ a b, Quiet a b → Fact a → Fact b)
    {program : JobProgram Result} (huses : program.Uses IsQuiet) (hfact : Fact world) :
    Safe actor (fun _ later => Fact later) program world :=
  huses.secured hstable
    (fun _ _ _ _ _ hop hinv hfact _ hsem =>
      have hsame := quiet_of_isQuiet hop hsem
      ⟨hsame.inv hinv, hsame.guar hinv actor, hquiet _ _ hsame hfact⟩) hfact

end Operations

/-! ## Setting the status -/

section SetStatus

variable {world after : JobWorld} {choice : JobChoice} {actor : Actor} {status : String}
  {revision : ℤ} {reply : JobReply (.setStatus actor status revision)} {keys : JobKeys}

theorem setStatus_cases
    (hsem : jobSem world (.setStatus actor status revision) choice = some (after, reply)) :
    (after = world ∧ reply = .error (.other "redis")) ∨
      (after = world.afterSetStatus actor ⟨status, revision, choice.now⟩ ∧
        reply = choice.outcome.reply
          (setStatusScript world.keys ⟨status, revision, choice.now⟩).2) := by
  simp only [jobSem] at hsem
  split_ifs at hsem
  · cases hsem
    exact .inl ⟨rfl, rfl⟩
  · cases hsem
    exact .inr ⟨rfl, rfl⟩

variable {args : SetStatusArgs}

theorem not_accepted_of_revision_lt (h : args.revision < keys.revision) : ¬ args.Accepted keys := by
  rintro (hlt | ⟨heq, -⟩) <;> omega

/-- A stopped status is kept by every stop and by every change that is not ahead
of its revision. -/
theorem setStatusScript_keeps_stopped (hstopped : keys.status = some Status.stopped.text)
    (hargs : args.status = Status.stopped.text ∨ args.revision ≤ keys.revision) :
    (setStatusScript keys args).1.status = some Status.stopped.text := by
  rcases hargs with hstatus | hrevision
  · by_cases haccepted : args.Accepted keys
    · rw [setStatusScript_status_of_accepted haccepted, hstatus]
    · rw [setStatusScript_of_not_accepted haccepted, hstopped]
  · rcases hrevision.lt_or_eq with hlt | heq
    · rw [setStatusScript_of_not_accepted (not_accepted_of_revision_lt hlt), hstopped]
    · have hfinal : keys.Final := by
        rw [JobKeys.Final, hstopped]
        decide
      rw [setStatusScript_status_of_final heq hfinal, hstopped]

theorem setStatusScript_running_refused (hstopped : keys.status = some Status.stopped.text)
    (hrunning : args.status = Status.running.text) (hrevision : args.revision ≤ keys.revision) :
    (setStatusScript keys args).2 ≠ some "ok" := by
  have hne : keys.status ≠ some "ok" := by
    rw [hstopped]
    decide
  rcases hrevision.lt_or_eq with hlt | heq
  · rwa [setStatusScript_of_not_accepted (not_accepted_of_revision_lt hlt)]
  · rw [Ne, setStatusScript_reply_eq_ok_iff heq hne,
      setStatusScript_keeps_stopped hstopped (.inr hrevision), hrunning]
    decide

theorem afterSetStatus_inv (hinv : StopInv world)
    (hstopper : actor = .stopper → args.status = Status.stopped.text)
    (hargs : args.status = Status.stopped.text ∨ args.revision ≤ world.keys.revision) :
    StopInv (world.afterSetStatus actor args) where
  stopped := fun hmoved => by
    by_cases hbefore : world.stopMoved = true
    · exact setStatusScript_keeps_stopped (hinv.stopped hbefore) hargs
    · simp only [afterSetStatus, Bool.or_eq_true, Bool.and_eq_true, decide_eq_true_eq,
        hbefore, false_or, Bool.false_eq_true] at hmoved
      simp only [afterSetStatus]
      rw [setStatusScript_status_of_accepted hmoved.2, hstopper hmoved.1]
  entries := fun change hchange => by
    simpa [afterSetStatus] using hinv.entries change hchange

theorem afterSetStatus_kept (hinv : StopInv world)
    (hargs : args.status = Status.stopped.text ∨ args.revision ≤ world.keys.revision) :
    StopKept world (world.afterSetStatus actor args) where
  moved := fun hmoved => by simp [afterSetStatus, hmoved]
  status := fun hmoved => setStatusScript_keeps_stopped (hinv.stopped hmoved) hargs
  switched := fun hmoved => by
    by_cases hrunning : args.status = Status.running.text
    · have hrevision : args.revision ≤ world.keys.revision := by
        rcases hargs with hstatus | hrevision
        · exact absurd (hrunning.symm.trans hstatus) (by decide)
        · exact hrevision
      simp [afterSetStatus,
        setStatusScript_running_refused (hinv.stopped hmoved) hrunning hrevision]
    · simp [afterSetStatus, hrunning]
  started := fun _ hstarted => .inl hstarted

theorem afterSetStatus_guar (hinv : StopInv world)
    (hargs : args.status = Status.stopped.text ∨ args.revision ≤ world.keys.revision) :
    stopGuar actor world (world.afterSetStatus actor args) := by
  refine ⟨afterSetStatus_kept hinv hargs, fun other hother => ?_⟩
  cases other with
  | stopper => trivial
  | runner =>
    refine ⟨by simp [afterSetStatus], ?_, fun _ hchange _ => hchange⟩
    have hactor : actor ≠ .runner := Ne.symm hother
    simp [afterSetStatus, hactor]
  | retrier => exact prefix_rfl

/-- One call of the status script by any actor. -/
theorem setStatus_step (hinv : StopInv world)
    (hstopper : actor = .stopper → status = Status.stopped.text)
    (hargs : status = Status.stopped.text ∨ revision ≤ world.keys.revision)
    (hsem : jobSem world (.setStatus actor status revision) choice = some (after, reply)) :
    StopInv after ∧ stopGuar actor world after ∧
      after.keys.revision = world.keys.revision ∧ after.retries = world.retries := by
  rcases setStatus_cases hsem with ⟨rfl, -⟩ | ⟨rfl, -⟩
  · exact ⟨hinv, (Quiet.refl after).guar hinv actor, rfl, rfl⟩
  · exact ⟨afterSetStatus_inv hinv hstopper hargs, afterSetStatus_guar hinv hargs,
      by simp [afterSetStatus], rfl⟩

theorem switched_of_reply_ok
    (hsem : jobSem world (.setStatus .runner Status.running.text revision) choice =
      some (after, .ok (some "ok"))) : after.switched = true := by
  rcases setStatus_cases hsem with ⟨-, hreply⟩ | ⟨rfl, hreply⟩
  · cases hreply
  · simp [afterSetStatus, Outcome.reply_eq_ok hreply.symm]

end SetStatus

/-! ## The tracker -/

/-- What an actor has to know about the status it sets: the stopper only stops,
and the runner is not ahead of the stored revision. -/
def Entitled (target : Status) (revision : ℤ) (world : JobWorld) : Prop :=
  match actor with
  | .stopper => target = .stopped
  | .runner => revision ≤ world.keys.revision
  | .retrier => False

/-- What holds when a status change has been answered. -/
structure Answered (actor : Actor) (target : Status) (revision : ℤ)
    (result : Except Failure Unit) (world : JobWorld) : Prop where
  entitled : Entitled actor target revision world
  switched : result = .ok () → actor = .runner → target = .running → world.switched = true

section Tracker

variable {actor : Actor} {target : Status} {revision : ℤ} {world later after : JobWorld}
  {info : StatsInfo}

variable (hent : Entitled actor target revision world)
include hent

theorem Entitled.of_revision_eq (hrevision : later.keys.revision = world.keys.revision) :
    Entitled actor target revision later := by
  cases actor with
  | stopper => exact hent
  | runner => exact le_of_le_of_eq hent hrevision.symm
  | retrier => exact hent

theorem Entitled.stable (hrely : stopRely actor world later) :
    Entitled actor target revision later := by
  cases actor with
  | stopper => exact hent
  | runner => exact le_of_le_of_eq hent hrely.1.symm
  | retrier => exact hent

theorem Entitled.args :
    (actor = .stopper → target.text = Status.stopped.text) ∧
      (target.text = Status.stopped.text ∨ revision ≤ world.keys.revision) := by
  cases actor with
  | stopper =>
    obtain rfl : target = .stopped := hent
    exact ⟨fun _ => rfl, .inl rfl⟩
  | runner => exact ⟨by simp, .inr hent⟩
  | retrier => exact hent.elim

omit hent

theorem Answered.stable {result : Except Failure Unit}
    (hanswered : Answered actor target revision result world)
    (hrely : stopRely actor world later) : Answered actor target revision result later where
  entitled := hanswered.entitled.stable hrely
  switched := fun hresult hactor htarget => by
    subst hactor
    rw [hrely.2.1]
    exact hanswered.switched hresult rfl htarget

theorem answered_error {err : Failure} (hent : Entitled actor target revision world) :
    Answered actor target revision (.error err) world :=
  ⟨hent, fun h => by cases h⟩

/-- Queueing a change that the actor is entitled to. -/
theorem pushRetry_step {choice : JobChoice} {reply : Unit}
    (hinv : StopInv world) (hent : Entitled actor target revision world)
    (hsem : jobSem world (.pushRetry ⟨target.text, revision⟩) choice = some (after, reply)) :
    StopInv after ∧ stopGuar actor world after ∧ Entitled actor target revision after := by
  cases hsem
  refine ⟨⟨hinv.stopped, ?_⟩, ⟨⟨id, hinv.stopped, fun _ => rfl, fun _ => .inl⟩, ?_⟩,
    hent.of_revision_eq rfl⟩
  · intro change hchange
    rcases mem_append.mp hchange with hold | hnew
    · exact hinv.entries change hold
    · obtain rfl := mem_singleton.mp hnew
      exact hent.args.2
  · intro other hother
    cases other with
    | stopper => trivial
    | retrier => exact prefix_append _ _
    | runner =>
      refine ⟨rfl, rfl, fun change hchange hne => ?_⟩
      rcases mem_append.mp hchange with hold | hnew
      · exact hold
      · -- only the stopper is left, and it queues stops
        obtain rfl := mem_singleton.mp hnew
        cases actor with
        | stopper => exact absurd (hent.args.1 rfl) hne
        | runner => exact absurd rfl hother
        | retrier => exact hent.elim

theorem compareAndSet_safe (hent : Entitled actor target info.revision world) :
    Safe actor (Answered actor target info.revision) (compareAndSet actor info target) world := by
  intro now choice after reply hrely hinv _ hsem
  have hnow := hent.stable hrely
  obtain ⟨hafter, hguar, hrevision, -⟩ := setStatus_step hinv hnow.args.1 hnow.args.2 hsem
  have hent' := hnow.of_revision_eq hrevision
  refine ⟨hafter, hguar, ?_⟩
  match reply with
  | .error cause | .ok none => exact Secured.ret (fun _ hr h => h.stable hr) (answered_error hent')
  | .ok (some text) =>
    by_cases htext : text = "ok"
    · subst htext
      refine Secured.ret (fun _ hr h => h.stable hr) ⟨hent', ?_⟩
      rintro - rfl rfl
      exact switched_of_reply_ok hsem
    · show Safe actor _ (if text = "ok" then _ else _) after
      rw [if_neg htext]
      exact Secured.ret (fun _ hr h => h.stable hr) (answered_error hent')

theorem updateStatusWithRetry_safe (hinv : StopInv world)
    (hent : Entitled actor target info.revision world) :
    Safe actor (Answered actor target info.revision)
      (updateStatusWithRetry actor info target) world := by
  refine Secured.bind (stopRely_refl actor) hinv (compareAndSet_safe hent) ?_
  intro result later hlater hanswered
  split_ifs with hdone
  · exact Secured.ret (fun _ hr h => h.stable hr) hanswered
  · intro now choice after reply hrely hinv' _ hsem
    obtain ⟨hafter, hguar, hent'⟩ := pushRetry_step hinv' (hanswered.entitled.stable hrely) hsem
    refine ⟨hafter, hguar, Secured.ret (fun _ hr h => h.stable hr) ⟨hent', ?_⟩⟩
    rintro rfl
    exact absurd (.inl rfl) hdone

theorem fireHookEvent_uses (info : StatsInfo) : (fireHookEvent info).Uses IsQuiet := by
  unfold fireHookEvent
  split_ifs
  · trivial
  · exact ⟨trivial, fun _ => trivial⟩

theorem fireAfter_safe {result : Except Failure Unit} (hinv : StopInv world)
    (hanswered : Answered actor target revision result world) :
    Safe actor (fun answer later => answer.1 = info ∧ Answered actor target revision answer.2 later)
      (fireAfter info result) world := by
  refine Secured.bind (stopRely_refl actor) hinv
    (safe_of_quiet (fun _ _ hr h => Answered.stable h hr)
      (fun _ _ hquiet h => ⟨h.entitled.of_revision_eq hquiet.revision,
        fun hr ha ht => hquiet.switched ▸ h.switched hr ha ht⟩)
      (fireHookEvent_uses _) hanswered) ?_
  intro fired last _ hlast
  have hret : ∀ answer, Answered actor target revision answer last →
      Safe actor (fun answer later => answer.1 = info ∧
        Answered actor target revision answer.2 later) (.ret (info, answer)) last :=
    fun answer h => Secured.ret (fun _ hr h => ⟨h.1, h.2.stable hr⟩) ⟨rfl, h⟩
  match fired, result with
  | .error er, .error err | .error er, .ok () => exact hret _ (answered_error hlast.entitled)
  | .ok (), result => exact hret _ hlast

/-- `setStatus` answers with the revision it was given. -/
theorem setStatus_safe (hinv : StopInv world) (hent : Entitled actor target info.revision world) :
    Safe actor (fun answer later => answer.1.revision = info.revision ∧
      Answered actor target info.revision answer.2 later) (setStatus actor info target) world := by
  refine Secured.bind (stopRely_refl actor) hinv (updateStatusWithRetry_safe hinv hent) ?_
  intro result later hlater hanswered
  split_ifs
  · exact Secured.ret (fun _ hr h => ⟨h.1, h.2.stable hr⟩) ⟨rfl, hanswered⟩
  · exact (fireAfter_safe hlater hanswered).mono fun answer _ _ h => ⟨by rw [h.1], h.2⟩

end Tracker

/-! ## The stopper -/

theorem track_uses : track.Uses IsQuiet := ⟨trivial, fun _ => trivial⟩

theorem stopJob_safe (hinv : StopInv world) (jobID : String) :
    Safe .stopper (fun _ _ => True) (stopJob jobID) world := by
  have hquiet : ∀ {Result : Type} {program : JobProgram Result} {world : JobWorld},
      program.Uses IsQuiet → Safe .stopper (fun _ _ => True) program world :=
    fun huses => safe_of_quiet (fun _ _ _ => id) (fun _ _ _ => id) huses trivial
  unfold stopJob
  split_ifs
  · exact hquiet trivial
  refine Secured.bind (stopRely_refl _) hinv (hquiet track_uses) ?_
  intro loaded later hlater _
  match loaded with
  | .error err =>
    show Safe _ _ (if err = .notFound then _ else _) later
    split_ifs
    · exact hquiet ⟨trivial, fun _ => trivial⟩
    · exact hquiet trivial
  | .ok info =>
    show Safe _ _ (if info.jobKind = kindPeriodic then _ else _) later
    split_ifs
    · exact hquiet ⟨trivial, fun _ => trivial⟩
    · exact hquiet trivial
    · refine Secured.bind (stopRely_refl _) hlater (setStatus_safe hlater rfl) ?_
      rintro ⟨info, result⟩ last _ -
      refine hquiet ?_
      match result with
      | .error err => exact trivial
      | .ok () =>
        show (if info.jobKind = kindScheduled then _ else _ : JobProgram _).Uses IsQuiet
        split_ifs
        · exact ⟨trivial, fun _ => trivial⟩
        · exact trivial

/-! ## The retrier -/

theorem removeRetry_step {after : JobWorld} {index : ℕ} {choice : JobChoice} {reply : Unit}
    (hinv : StopInv world) (hsem : jobSem world (.removeRetry index) choice = some (after, reply)) :
    StopInv after ∧ stopGuar .retrier world after := by
  cases hsem
  have hsubset : ∀ change ∈ world.retries.eraseIdx index, change ∈ world.retries :=
    fun _ hchange => mem_of_mem_eraseIdx hchange
  refine ⟨⟨hinv.stopped, fun change hchange => hinv.entries change (hsubset change hchange)⟩,
    ⟨id, hinv.stopped, fun _ => rfl, fun _ => .inl⟩, fun other hother => ?_⟩
  cases other with
  | stopper => trivial
  | runner => exact ⟨rfl, rfl, fun change hchange _ => hsubset change hchange⟩
  | retrier => exact absurd rfl hother

theorem retryLoop_safe (hinv : StopInv world) (fuel index : ℕ) :
    Safe .retrier (fun _ _ => True) (retryLoop fuel index) world := by
  induction fuel generalizing world index with
  | zero => exact fun _ _ _ => trivial
  | succ fuel ih =>
    intro first choice after reply _ hfirst _ hsem
    cases hsem
    refine ⟨hfirst, (Quiet.refl first).guar hfirst _, ?_⟩
    cases hchange : first.retries[index]? with
    | none => exact fun _ _ _ => trivial
    | some change =>
      intro second choice after reply hrely hsecond _ hsem
      -- nobody else takes the change off the list in the meantime
      have hmem : change ∈ second.retries := hrely.subset (mem_of_getElem? hchange)
      obtain ⟨hafter, hguar, -, -⟩ :=
        setStatus_step hsecond (by simp) (hsecond.entries change hmem) hsem
      refine ⟨hafter, hguar, ?_⟩
      match reply with
      | .ok none | .error _ => exact ih hafter _
      | .ok (some _) =>
        intro third choice after reply _ hthird _ hsem
        obtain ⟨hafter, hguar⟩ := removeRetry_step hthird hsem
        exact ⟨hafter, hguar, ih hafter _⟩

theorem retryDaemon_safe (hinv : StopInv world) (fuel rounds : ℕ) :
    Safe .retrier (fun _ _ => True) (retryDaemon fuel rounds) world := by
  induction rounds generalizing world with
  | zero => exact fun _ _ _ => trivial
  | succ rounds ih =>
    exact Secured.bind (stopRely_refl _) hinv (retryLoop_safe hinv fuel 0)
      fun _ _ hlater _ => ih hlater

/-! ## The runner -/

section Runner

variable {world later after : JobWorld} {info : StatsInfo}

def OnlyStops (world : JobWorld) : Prop :=
  ∀ change ∈ world.retries, change.targetStatus = Status.stopped.text

variable {revision : ℤ} {choice : JobChoice}

theorem OnlyStops.stable (hstops : OnlyStops world) (hrely : stopRely .runner world later) :
    OnlyStops later := by
  intro change hchange
  by_contra hne
  exact hne (hstops change (hrely.2.2 change hchange hne))

/-- The runner is not ahead of the stored revision. -/
def Owned (revision : ℤ) (world : JobWorld) : Prop :=
  revision ≤ world.keys.revision

theorem Owned.stable (howned : Owned revision world) (hrely : stopRely .runner world later) :
    Owned revision later :=
  le_of_le_of_eq howned hrely.1.symm

theorem Owned.of_quiet (howned : Owned revision world) (hquiet : Quiet world later) :
    Owned revision later :=
  le_of_le_of_eq howned hquiet.revision.symm

theorem retrieve_step {reply : Except Failure StatsInfo}
    (hsem : jobSem world .retrieve choice = some (after, reply)) :
    after = world ∧ ∀ info, reply = .ok info → info.revision = world.keys.revision := by
  obtain ⟨rfl, hreply⟩ := Prod.mk.inj (Option.some.inj hsem)
  refine ⟨rfl, ?_⟩
  rintro info rfl
  cases houtcome : choice.outcome <;> cases hretrieve : retrieve world.keys <;>
    simp only [houtcome, hretrieve, reduceCtorEq] at hreply
  rw [← Except.ok.inj hreply]
  exact retrieve_revision hretrieve

/-- The first status the runner sees comes with the stored revision. -/
def Loaded (result : Except Failure StatsInfo) (world : JobWorld) : Prop :=
  OnlyStops world ∧ ∀ info, result = .ok info → Owned info.revision world

theorem Loaded.stable {result : Except Failure StatsInfo} (hloaded : Loaded result world)
    (hrely : stopRely .runner world later) : Loaded result later :=
  ⟨hloaded.1.stable hrely, fun info hinfo => (hloaded.2 info hinfo).stable hrely⟩

theorem track_safe (hstops : OnlyStops world) : Safe .runner Loaded track world := by
  intro now choice after reply hrely hinv _ hsem
  obtain ⟨rfl, hrevision⟩ := retrieve_step hsem
  refine ⟨hinv, (Quiet.refl _).guar hinv _, Secured.ret (fun _ hr h => h.stable hr) ?_⟩
  exact ⟨hstops.stable hrely, fun info hinfo => (hrevision info hinfo).le⟩

theorem trackWithRetry_safe (hinv : StopInv world) (hstops : OnlyStops world) (remaining : ℕ) :
    Safe .runner Loaded (trackWithRetry remaining) world := by
  induction remaining generalizing world with
  | zero => exact track_safe hstops
  | succ remaining ih =>
    refine Secured.bind (stopRely_refl _) hinv (track_safe hstops) ?_
    intro result later hlater hloaded
    match result with
    | .ok info => exact Secured.ret (fun _ hr h => h.stable hr) hloaded
    | .error err =>
      show Safe _ _ (if err = .notFound then _ else _) later
      split_ifs
      · exact ih hlater hloaded.1
      · exact Secured.ret (fun _ hr h => h.stable hr) hloaded

theorem reset_step {reply : Except Failure ℤ} (hinv : StopInv world) (hstops : OnlyStops world)
    (howned : Owned revision world) (hallowed : NoLateReset world .reset choice)
    (hsem : jobSem world .reset choice = some (after, reply)) :
    StopInv after ∧ stopGuar .runner world after ∧
      (∀ now, reply = .ok now → Owned now after) ∧
      (∀ err, reply = .error err → Owned revision after) := by
  simp only [jobSem] at hsem
  split_ifs at hsem with hfailed
  · cases hsem
    exact ⟨hinv, (Quiet.refl _).guar hinv _, fun _ h => (by cases h), fun _ _ => howned⟩
  · cases hsem
    have hnot : ¬ world.stopMoved = true := by simp [hallowed.1]
    refine ⟨⟨fun hmoved => absurd hmoved hnot, fun change hchange => .inl (hstops change hchange)⟩,
      ⟨⟨fun hmoved => absurd hmoved hnot, fun hmoved => absurd hmoved hnot,
        fun hmoved => absurd hmoved hnot, fun hmoved => absurd hmoved hnot⟩, ?_⟩, ?_, ?_⟩
    · intro other hother
      cases other with
      | stopper => trivial
      | runner => exact absurd rfl hother
      | retrier => exact prefix_rfl
    · intro now hreply
      simp [Owned, Outcome.reply_eq_ok hreply]
    · intro err hreply
      have hlost : choice.outcome = .lost := by
        cases houtcome : choice.outcome with
        | done => simp [houtcome, Outcome.reply] at hreply
        | failed => exact absurd houtcome hfailed
        | lost => rfl
      simpa [Owned] using le_trans howned (hallowed.2 hlost)

theorem startBody_step {reply : Unit} (hinv : StopInv world) (hswitched : world.switched = true)
    (hsem : jobSem world .startBody choice = some (after, reply)) :
    StopInv after ∧ stopGuar .runner world after ∧ after.keys = world.keys := by
  cases hsem
  refine ⟨⟨hinv.stopped, hinv.entries⟩,
    ⟨⟨id, hinv.stopped, fun _ => rfl, fun _ _ => .inr hswitched⟩, fun other hother => ?_⟩, rfl⟩
  cases other with
  | stopper => trivial
  | runner => exact absurd rfl hother
  | retrier => exact prefix_rfl

variable {body : StatsInfo → JobCall}

theorem owned_ret {answer : StatsInfo × Except Failure Unit}
    (howned : Owned answer.1.revision world) :
    Safe .runner (fun answer later => Owned answer.1.revision later) (.ret answer) world :=
  Secured.ret (fun _ hrely h => h.stable hrely) howned

theorem owned_quiet {Result : Type} {program : JobProgram Result} (huses : program.Uses IsQuiet)
    (howned : Owned revision world) :
    Safe .runner (fun _ later => Owned revision later) program world :=
  safe_of_quiet (fun _ _ hrely h => h.stable hrely) (fun _ _ hquiet h => h.of_quiet hquiet)
    huses howned

theorem runBody_safe (hbody : ∀ info, (body info).Uses IsQuiet) (hinv : StopInv world)
    (howned : Owned info.revision world) :
    Safe .runner (fun answer later => Owned answer.1.revision later) (runBody body info) world := by
  refine Secured.bind (stopRely_refl _) hinv (owned_quiet ⟨trivial, fun _ => trivial⟩ howned) ?_
  intro built later hlater howned
  match built with
  | .error err => exact owned_ret howned
  | .ok () =>
    refine Secured.bind (stopRely_refl _) hlater (setStatus_safe hlater howned) ?_
    rintro ⟨running, result⟩ last hlast ⟨hrevision, hanswered⟩
    have howned' : Owned running.revision last := le_of_eq_of_le hrevision hanswered.entitled
    match result with
    | .error err => exact owned_ret howned'
    | .ok () =>
      intro now choice after reply hrely hinv' _ hsem
      -- the body starts only after the script has answered ok, and no other step undoes that
      have hswitched : now.switched = true := (hanswered.stable hrely).switched rfl rfl rfl
      obtain ⟨hafter, hguar, hkeys⟩ := startBody_step hinv' hswitched hsem
      refine ⟨hafter, hguar, ?_⟩
      have hstart : Owned running.revision after := by
        unfold Owned
        rw [hkeys]
        exact howned'.stable hrely
      show Safe _ _ (body running >>= _) after
      refine Secured.bind (stopRely_refl _) hafter (owned_quiet (hbody running) hstart) ?_
      intro result _ _ hend
      cases result <;> exact owned_ret hend

theorem runTracked_safe (hbody : ∀ info, (body info).Uses IsQuiet) (hinv : StopInv world)
    (hstops : OnlyStops world) (howned : Owned info.revision world) :
    Safe .runner (fun answer later => Owned answer.1.revision later)
      (runTracked body info) world := by
  have hreset : ∀ {Post : StatsInfo × Except Failure Unit → JobWorld → Prop}
      {next : Except Failure ℤ → JobProgram (StatsInfo × Except Failure Unit)},
      (∀ err later, Owned info.revision later → Safe .runner Post (next (.error err)) later) →
      (∀ now later, StopInv later → Owned now later → Safe .runner Post (next (.ok now)) later) →
      Safe .runner Post (.call .reset next) world := by
    intro Post next herror hok now choice after reply hrely hinv' hallowed hsem
    obtain ⟨hafter, hguar, howned'⟩ :=
      reset_step hinv' (hstops.stable hrely) (howned.stable hrely) hallowed hsem
    refine ⟨hafter, hguar, ?_⟩
    cases reply with
    | error err => exact herror err after (howned'.2 err rfl)
    | ok now => exact hok now after hafter (howned'.1 now rfl)
  -- one case per status the tracker reads; a running or failed job is reset before it runs
  unfold runTracked
  split
  · exact runBody_safe hbody hinv howned
  · exact runBody_safe hbody hinv howned
  · exact owned_ret howned
  · exact owned_ret howned
  · exact hreset (fun _ _ h => owned_ret h) fun _ _ hinv h => runBody_safe hbody hinv h
  · exact hreset (fun _ _ h => owned_ret h) fun _ _ hinv h => runBody_safe hbody hinv h
  · exact owned_ret howned

theorem switchStatus_safe {result : Except Failure Unit} (hinv : StopInv world)
    (howned : Owned info.revision world) :
    Safe .runner (fun _ _ => True) (switchStatus info result) world := by
  have hset : ∀ {world : JobWorld} (target : Status) (result : Except Failure Unit),
      StopInv world → Owned info.revision world →
      Safe .runner (fun _ _ => True) (do
        let _ ← setStatus .runner info target
        return result) world :=
    fun _ _ hinv howned => Secured.bind (stopRely_refl _) hinv
      (setStatus_safe hinv howned) fun _ _ _ _ _ _ _ => trivial
  match result with
  | .error err => exact hset .error _ hinv howned
  | .ok () =>
    have hget : Safe .runner (fun _ later => Owned info.revision later) getStatus world :=
      owned_quiet ⟨trivial, fun _ => trivial⟩ howned
    refine Secured.bind (stopRely_refl _) hinv hget ?_
    intro latest later hlater howned'
    match latest with
    | .ok none => exact fun _ _ _ => trivial
    | .error _ => exact hset .success _ hlater howned'
    | .ok (some latest) =>
      show Safe _ _ (if latest = Status.stopped.text then _ else _) later
      split_ifs
      · exact fun _ _ _ => trivial
      · exact hset .success _ hlater howned'

theorem run_safe (hbody : ∀ info, (body info).Uses IsQuiet) (hinv : StopInv world)
    (hstops : OnlyStops world) : Safe .runner (fun _ _ => True) (run body) world := by
  refine Secured.bind (stopRely_refl _) hinv (trackWithRetry_safe hinv hstops _) ?_
  intro result later hlater hloaded
  match result with
  | .error err => exact fun _ _ _ => trivial
  | .ok info =>
    refine Secured.bind (stopRely_refl _) hlater
      (runTracked_safe hbody hlater hloaded.1 (hloaded.2 info rfl)) ?_
    intro answer last hlast howned
    exact switchStatus_safe hlast howned

end Runner

/-! ## Every interleaving -/

/-- One `StopJob` and one `Run` of the same job, with the retry loop beside them. -/
def stopPool (keys : JobKeys) (jobID : String) (body : StatsInfo → JobCall) (fuel rounds : ℕ) :
    Pool JobWorld JobOp JobReply Actor (Except Failure Unit) where
  world := { keys := keys }
  threads := fun
    | .stopper => stopJob jobID
    | .runner => run body
    | .retrier => retryDaemon fuel rounds

theorem stopPool_isSecured (keys : JobKeys) (jobID : String) (fuel rounds : ℕ)
    {body : StatsInfo → JobCall} (hbody : ∀ info, (body info).Uses IsQuiet) :
    Pool.IsSecured jobSem NoLateReset StopInv stopRely stopGuar (fun _ _ _ => True)
      (stopPool keys jobID body fuel rounds) := by
  have hinv : StopInv { keys := keys } := ⟨by simp, by simp⟩
  refine ⟨hinv, fun actor => ?_⟩
  cases actor with
  | stopper => exact stopJob_safe hinv jobID
  | runner => exact run_safe hbody hinv (by simp [OnlyStops, stopPool])
  | retrier => exact retryDaemon_safe hinv fuel rounds

/-- Once `StopJob` has moved the status, and as long as `Run` does not reset it
after that, the status stays stopped through every later step, and the body is
only started if `Run` had switched to running before the stop. -/
theorem stop_kept_without_late_reset {keys : JobKeys} {jobID : String} {fuel rounds : ℕ}
    {body : StatsInfo → JobCall} {actions : List (Actor × JobChoice)}
    {final : Pool JobWorld JobOp JobReply Actor (Except Failure Unit)}
    (hbody : ∀ info, (body info).Uses IsQuiet)
    (hresets : EveryStep (Pool.step jobSem) (Pool.Admits NoLateReset)
      (stopPool keys jobID body fuel rounds) actions)
    (hrun : exec (Pool.step jobSem) (stopPool keys jobID body fuel rounds) actions =
      some final) :
    (final.world.stopMoved = true → final.world.keys.status = some Status.stopped.text) ∧
      EveryStep (Pool.step jobSem) (fun before _ after => StopKept before.world after.world)
        (stopPool keys jobID body fuel rounds) actions := by
  have hsecured := stopPool_isSecured keys jobID fuel rounds hbody
  refine ⟨(secured_exec stop_compatible hsecured hresets hrun).1.stopped, ?_⟩
  exact (guarantee_exec stop_compatible hsecured hresets).mono fun _ _ _ h => h.2.1

/-- A job that was running when the job service crashed. -/
def interruptedKeys : JobKeys :=
  ((({} : JobKeys).hmset [(.id, .text "5a1f"), (.name, .text "REPLICATION"),
    (.kind, .text "Generic"), (.status, .text "Running"), (.revision, .int 5)]).setTrack 2)

def pendingKeys : JobKeys :=
  interruptedKeys.hmset [(.status, .text "Pending")]

def emptyBody (_ : StatsInfo) : JobCall :=
  return .ok ()

/-- The run resets an interrupted job, is overtaken by the stop and refused. -/
theorem stop_kept_after_reset :
    ∃ final, exec (Pool.step jobSem) (stopPool interruptedKeys "5a1f" emptyBody 0 0)
        [(.runner, {}), (.runner, { now := 6 }), (.stopper, {}), (.stopper, { now := 7 }),
          (.runner, {}), (.runner, { now := 8 })] = some final ∧
      final.world.stopMoved = true ∧ final.world.started = false ∧
      final.world.keys.status = some "Stopped" := by
  refine ⟨_, rfl, rfl, rfl, ?_⟩
  refine (@stop_kept_without_late_reset interruptedKeys "5a1f" 0 0 emptyBody
    [(.runner, {}), (.runner, { now := 6 }), (.stopper, {}), (.stopper, { now := 7 }),
      (.runner, {}), (.runner, { now := 8 })] _ (fun _ => trivial) ?_ rfl).1 rfl
  refine everyStep_cons rfl (admits_of_nextOp rfl trivial) ?_
  refine everyStep_cons rfl (admits_of_nextOp rfl ⟨rfl, fun hlost => by cases hlost⟩) ?_
  iterate 4 refine everyStep_cons rfl (admits_of_nextOp rfl trivial) ?_
  trivial

/-- The stop is undone by a reset that comes after it, and a body whose run had
just switched to running is started after it. -/
theorem stop_lost :
    (∃ mid final,
      exec (Pool.step jobSem) (stopPool interruptedKeys "5a1f" emptyBody 0 0)
        [(.runner, {}), (.stopper, {}), (.stopper, { now := 7 })] = some mid ∧
      mid.threads .stopper = .ret (.ok ()) ∧ mid.world.stopMoved = true ∧
      mid.world.keys.status = some "Stopped" ∧ mid.world.started = false ∧
      exec (step jobSem) mid
        [(.runner, { now := 8 }), (.runner, {}), (.runner, { now := 9 }), (.runner, {})] =
          some final ∧
      final.world.keys.status = some "Running" ∧ final.world.started = true) ∧
    ∃ mid final,
      exec (step jobSem) (stopPool pendingKeys "5a1f" emptyBody 0 0)
        [(.runner, {}), (.runner, {}), (.runner, { now := 6 }), (.stopper, {}),
          (.stopper, { now := 7 })] = some mid ∧
      mid.threads .stopper = .ret (.ok ()) ∧ mid.world.stopMoved = true ∧
      mid.world.keys.status = some "Stopped" ∧ mid.world.started = false ∧
      exec (step jobSem) mid [(.runner, {})] = some final ∧
      final.world.started = true :=
  ⟨⟨_, _, rfl, rfl, rfl, rfl, rfl, rfl, rfl, rfl⟩, _, _, rfl, rfl, rfl, rfl, rfl, rfl, rfl⟩

end Harbor.JobService
