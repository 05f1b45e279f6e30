import Harbor.Period.Programs

/-!
# Unscheduling a periodic job

`UnSchedule` removes policies by score.  The score is the right one, whether it
comes from the stats of the job or from the list of policies; but another policy
may have been given the same one.  `unSchedule_precise_iff` says that this is all
that can go wrong, and after it comes a run in which it does.
-/

namespace Harbor.Period

open Harbor.Concurrency Harbor.Data Harbor.JobService

/-! ## How an unschedule ends -/

variable (policyID : String)

/-- The operation has removed a score for the policy. -/
def IsRemoval : (op : PeriodOp) → PeriodReply op → Prop
  | .removePolicies id _, reply => id = policyID ∧
      ∃ count, reply = (.ok count : Except PeriodFailure ℕ)
  | _, _ => False

/-- Errors may be returned at any point. -/
def ErrorsPass (Last : Except PeriodFailure Unit → Prop) : Prop :=
  ∀ err, Last (.error err)

theorem errorsPass_of_removal (op : PeriodOp) (reply : PeriodReply op) :
    ErrorsPass fun result => result = .ok () → IsRemoval policyID op reply := by
  intro err hok
  cases hok

theorem unScheduleAt_ends (numericID : ℤ) {Last : Except PeriodFailure Unit → Prop}
    (hLast : ErrorsPass Last) :
    (unScheduleAt policyID numericID).Ends periodSem
      (fun op reply result => result = .ok () → IsRemoval policyID op reply) Last := by
  refine Program.ends_bind (errorsPass_of_removal policyID) hLast ?_
  intro _ _ _ world choice after reply _
  match reply with
  | .error err => exact errorsPass_of_removal policyID _ _ err
  | .ok count => exact fun _ => ⟨rfl, count, rfl⟩

/-- `UnSchedule` returns nil only right after a removal that has worked. -/
theorem unSchedule_ends (parsers : Parsers) (policyID : String) :
    (unSchedule parsers policyID).Ends periodSem
      (fun op reply result => result = .ok () → IsRemoval policyID op reply)
      (fun result => ∃ err, result = .error err) := by
  have hstart : ErrorsPass fun result => ∃ err, result = .error err := fun err => ⟨err, rfl⟩
  unfold unSchedule
  split_ifs
  · exact hstart _
  refine Program.ends_bind (errorsPass_of_removal policyID) hstart ?_
  intro located Last hLast
  cases located with
  | error err => exact hLast err
  | ok numericID => exact unScheduleAt_ends policyID numericID hLast

/-! ## What a removal does -/

section Removal

variable {world after : PeriodWorld} {policyID : String} {numericID : ℤ} {choice : PeriodChoice}

/-- The policies whose score was removed are those of the given ID iff no other policy has
that score. -/
theorem keep_score_eq_iff (hinv : PeriodInv world)
    (hscore : world.scheduledAs policyID = some numericID) :
    world.policies.keep (fun entry => entry.2 ≠ numericID) =
        world.policies.keep (fun entry => entry.1.id ≠ policyID) ↔
      ∀ entry ∈ world.policies, entry.1.id ≠ policyID →
        world.scheduledAs policyID ≠ some entry.2 := by
  have hown : ∀ entry ∈ world.policies, entry.1.id = policyID → entry.2 = numericID := by
    intro entry hentry hid
    have hentryScore := (hinv.known entry hentry).2
    rw [hid, hscore] at hentryScore
    exact (Option.some.inj hentryScore).symm
  constructor
  · intro hkeep entry hentry hid hsame
    have hmem : entry ∈ world.policies.keep (fun entry => entry.1.id ≠ policyID) :=
      SortedSet.mem_keep.mpr ⟨hentry, hid⟩
    rw [← hkeep] at hmem
    rw [hscore] at hsame
    exact (SortedSet.mem_keep.mp hmem).2 (Option.some.inj hsame).symm
  · intro hothers
    refine SortedSet.ext_entries (List.filter_congr fun entry hentry => ?_)
    have hiff : entry.2 ≠ numericID ↔ entry.1.id ≠ policyID := by
      constructor
      · exact fun hne hid => hne (hown entry hentry hid)
      · intro hid hsame
        exact hothers entry hentry hid (by rw [hscore, hsame])
    exact decide_eq_decide.mpr hiff

theorem removePolicies_cases (hafter : PeriodInv after) {reply : Except PeriodFailure ℕ}
    (hsem : periodSem world (.removePolicies policyID numericID) choice = some (after, reply)) :
    (after.policies = world.policies ∧ ∃ err, reply = .error err) ∨
      (world.scheduledAs policyID = some numericID ∧
        after.policies = world.policies.keep fun entry => entry.2 ≠ numericID) := by
  obtain ⟨-, ⟨rfl, hfailure⟩ | ⟨answer, hperform, -⟩⟩ := periodSem_cases hsem
  · exact .inl ⟨rfl, _, (Option.some.inj hfailure).symm⟩
  · cases hperform
    exact .inr ⟨hafter.removed (policyID, numericID) List.mem_cons_self, rfl⟩

theorem clearOp_policies {op : PeriodOp} {reply : PeriodReply op} (hop : ClearOp op)
    (hsem : periodSem world op choice = some (after, reply)) : after.policies = world.policies := by
  obtain ⟨-, ⟨rfl, -⟩ | ⟨answer, hperform, -⟩⟩ := periodSem_cases hsem
  · rfl
  · cases op with
    | loadPolicies | deleteScheduledJob | track | setStatus | fireHook | getExecutions =>
      cases hperform
      rfl
    | _ => exact hop.elim

end Removal

/-! ## Precision -/

section Runs

variable {parsers : Parsers} {start : ℤ} {actors : ℕ → Actor}

/-- What an actor that unschedules a policy may do. -/
def ActorUses (actor : Actor) (op : PeriodOp) : Prop :=
  ∀ policyID, actor = .unSchedule policyID → UnScheduleOp policyID op

/-- What an actor that unschedules a policy has done last. -/
def ActorEnds (actor : Actor) (op : PeriodOp) (reply : PeriodReply op)
    (result : Except PeriodFailure Unit) : Prop :=
  ∀ policyID, actor = .unSchedule policyID → result = .ok () → IsRemoval policyID op reply

theorem Actor.program_uses (parsers : Parsers) (thread : ℕ) (actor : Actor) :
    (actor.program parsers thread).Uses (ActorUses actor) := by
  cases actor with
  | unSchedule policyID =>
    refine (unSchedule_uses parsers policyID).mono fun op hop other hother => ?_
    obtain rfl : policyID = other := by simpa using hother
    exact hop
  | _ => exact Program.uses_of_forall (fun op policyID hother => by cases hother) _

theorem Actor.program_ends (parsers : Parsers) (thread : ℕ) (actor : Actor) :
    ∃ Last, (actor.program parsers thread).Ends periodSem (ActorEnds actor) Last := by
  cases actor with
  | unSchedule policyID =>
    refine ⟨_, (unSchedule_ends parsers policyID).mono (fun op reply result hends => ?_)
      fun _ h => h⟩
    intro other hother
    obtain rfl : policyID = other := by simpa using hother
    exact hends
  | _ =>
    exact ⟨fun _ => True, Program.ends_of_forall
      (fun op reply result policyID hother => by cases hother) (fun _ => trivial) _⟩

/-- A step that changes the set of policies or returns nil has removed the score of the policy. -/
theorem unSchedule_step_removes {before after : PeriodPool} {action : ℕ × PeriodChoice}
    {policyID : String} (hafter : PeriodInv after.world)
    (huses : ∃ op reply, UnScheduleOp policyID op ∧
      periodSem before.world op action.2 = some (after.world, reply))
    (hends : after.threads action.1 = .ret (.ok ()) → ∃ op reply,
      periodSem before.world op action.2 = some (after.world, reply) ∧
      IsRemoval policyID op reply) (hstep : after.threads action.1 = .ret (.ok ()) ∨
      after.world.policies ≠ before.world.policies) :
    ∃ numericID, before.world.scheduledAs policyID = some numericID ∧
      after.world.policies = before.world.policies.keep fun entry => entry.2 ≠ numericID := by
  rcases hstep with hreturns | hchanged
  · obtain ⟨op, reply, hsem, hremoval⟩ := hends hreturns
    cases op with
    | removePolicies id numericID =>
      obtain ⟨rfl, count, rfl⟩ := hremoval
      rcases removePolicies_cases hafter hsem with ⟨-, err, herr⟩ | hremoved
      · cases herr
      · exact ⟨numericID, hremoved⟩
    | _ => exact hremoval.elim
  · obtain ⟨op, reply, hclear | ⟨numericID, rfl⟩, hsem⟩ := huses
    · exact absurd (clearOp_policies hclear hsem) hchanged
    · rcases removePolicies_cases hafter hsem with ⟨hsame, -⟩ | hremoved
      · exact absurd hsame hchanged
      · exact ⟨numericID, hremoved⟩

/-- Whenever `UnSchedule` changes the set of policies or returns nil, it has removed the
policy with the given ID and no other one iff no other policy in the set has the score with
which that policy was scheduled. -/
theorem unSchedule_precise_iff (parsers : Parsers) (start : ℤ) (actors : ℕ → Actor)
    (actions : List (ℕ × PeriodChoice)) :
    EveryStep (Pool.step periodSem) (fun before action after => ∀ policyID,
      actors action.1 = .unSchedule policyID →
      (after.threads action.1 = .ret (.ok ()) ∨
        after.world.policies ≠ before.world.policies) →
      (after.world.policies = before.world.policies.keep (fun entry => entry.1.id ≠ policyID) ↔
        ∀ entry ∈ before.world.policies, entry.1.id ≠ policyID →
          before.world.scheduledAs policyID ≠ some entry.2))
      (periodPool parsers start actors) actions := by
  have huses : ∀ thread, ((periodPool parsers start actors).threads thread).Uses
      (ActorUses (actors thread)) := fun thread => (actors thread).program_uses parsers thread
  have hends : ∀ thread, ∃ Last, ((periodPool parsers start actors).threads thread).Ends
      periodSem (ActorEnds (actors thread)) Last :=
    fun thread => (actors thread).program_ends parsers thread
  refine ((periodInv_everyStep actions).and
    ((Pool.uses_exec huses).and (Pool.ends_exec hends))).mono ?_
  rintro before action after ⟨⟨hbefore, hafter⟩, ⟨op, reply, -, huses, hsem⟩, hends⟩ policyID
    hactor hstep
  obtain ⟨numericID, hscore, hpolicies⟩ :=
    unSchedule_step_removes hafter ⟨op, reply, huses policyID hactor, hsem⟩
      (fun hreturns => by
        obtain ⟨op, reply, hsem, hremoval⟩ := hends _ hreturns
        exact ⟨op, reply, hsem, hremoval policyID hactor rfl⟩) hstep
  rw [hpolicies]
  exact keep_score_eq_iff hbefore hscore

end Runs

/-! ## A policy that goes with another one -/

/-- Two policies are scheduled, and one of them is unscheduled. -/
def sameScoreActors : ℕ → Actor
  | 0 | 1 => .periodicallyEnqueue 1 scanPolicy
  | 2 => .unSchedule "5a"
  | _ => .clearDirtyJobs

/-- The second policy is scheduled three seconds after the first one and draws a smaller
offset, so that both have the score 105. -/
def sameScoreSteps : List (ℕ × PeriodChoice) :=
  [(0, { now := 100, identifier := "5a" }), (0, { now := 100 }), (0, { now := 100, offset := 5 }),
    (0, { now := 100 }), (0, { now := 100 }), (0, { now := 100 }), (0, { now := 100 }),
    (1, { now := 103, identifier := "5b" }), (1, { now := 103 }), (1, { now := 103, offset := 2 }),
    (1, { now := 103 }), (1, { now := 103 }), (1, { now := 103 }), (1, { now := 103 }),
    (2, { now := 110 }), (2, { now := 110 }), (2, { now := 110 })]

/-- Unscheduling one policy removes another one as well. -/
theorem unSchedule_removes_other_policy :
    ∃ before after : PeriodPool,
      exec (Pool.step periodSem) (periodPool dailyParsers 100 sameScoreActors) sameScoreSteps =
        some before ∧
      Pool.step periodSem before (2, { now := 110 }) = some after ∧
      after.threads 2 = .ret (.ok ()) ∧
      before.world.policies.entries =
        [({ scanPolicy with id := "5b" }, 105), ({ scanPolicy with id := "5a" }, 105)] ∧
      after.world.policies.entries = [] :=
  ⟨_, _, rfl, rfl, rfl, rfl, rfl⟩

end Harbor.Period
