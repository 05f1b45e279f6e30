import Harbor.Data.Split
import Mathlib.Logic.Function.Basic
import Mathlib.Tactic

/-!
# Schedules of retention policies

`CreateRetention`, `UpdateRetention` and `DeleteRetention` keep a schedule for each policy with
a cron.  Creation looks whether there is a cron; the other two read it as a text, which panics
if there is none.  Policies are taken to have passed `ValidateRetentionPolicy`.

The scheduler replaces the seconds of a cron by random ones before it stores it, so the schedule
of a policy has its cron up to the seconds (`Scheduled`).
-/

namespace Harbor.Retention.Schedules

/-- The kind of a trigger: `Schedule`, or empty. -/
inductive Kind
  | schedule
  | empty
  deriving DecidableEq

structure Trigger where
  kind : Kind
  /-- the setting `cron`, which may be missing -/
  cron : Option String
  deriving DecidableEq

inductive Failure
  | panic
  | error (message : String)
  deriving DecidableEq

/-- `settings["cron"].(string)`. -/
def Trigger.cronText (trigger : Trigger) : Except Failure String :=
  match trigger.cron with
  | some cron => .ok cron
  | none => .error .panic

/-! ## The schedules of one policy -/

/-- The cron with other seconds. -/
def withSeconds (seconds : Fin 60) (cron : String) : String :=
  toString seconds ++ " " ++ Data.Split.join (Data.Split.split cron ' ').tail ' '

section Calls

-- the seconds that the scheduler draws, `rand.Intn(60)`
variable (seconds : Fin 60)

/-- `Schedule`, which refuses an empty cron only. -/
def schedule (schedules : List String) (cron : String) : Except Failure (List String) :=
  if cron = "" then .error (.error ("invalid cron " ++ withSeconds seconds cron))
  else .ok (schedules ++ [withSeconds seconds cron])

def createRetention (p : Trigger) (schedules : List String) : Except Failure (List String) :=
  match p.kind, p.cron with
  | .schedule, some cron => if cron ≠ "" then schedule seconds schedules cron else .ok schedules
  | _, _ => .ok schedules

/-- Whether to remove the old schedule and whether to add one. -/
def needs (p0 p : Trigger) : Except Failure (Bool × Bool) :=
  if p0.kind ≠ p.kind then .ok (p0.kind = .schedule, p.kind = .schedule)
  else if p.kind = .schedule ∧ p0.cron ≠ p.cron then do
    let old ← p0.cronText
    let new ← p.cronText
    .ok (old ≠ "", new ≠ "")
  else .ok (false, false)

def updateRetention (p0 p : Trigger) (schedules : List String) :
    Except Failure (List String) := do
  let (needUn, needSch) ← needs p0 p
  let schedules := if needUn then [] else schedules
  if needSch then do
    let cron ← p.cronText
    schedule seconds schedules cron
  else .ok schedules

def deleteRetention (p : Trigger) (schedules : List String) : Except Failure (List String) :=
  if p.kind = .schedule then do
    let cron ← p.cronText
    .ok (if cron ≠ "" then [] else schedules)
  else .ok schedules

end Calls

/-- A policy with a cron has exactly one schedule, with the cron up to its seconds, and any other
has none. -/
def Scheduled (p : Option Trigger) (schedules : List String) : Prop :=
  match p with
  | some ⟨.schedule, some cron⟩ =>
    if cron = "" then schedules = [] else ∃ seconds, schedules = [withSeconds seconds cron]
  | _ => schedules = []

variable {seconds : Fin 60} {schedules : List String}

theorem createRetention_scheduled (p : Trigger) :
    ∃ after, createRetention seconds p [] = .ok after ∧ Scheduled (some p) after := by
  rcases p with ⟨_ | _, _ | cron⟩ <;> simp [createRetention, schedule, Scheduled]
  split_ifs
  · simp
  · exact ⟨_, rfl, seconds, rfl⟩

/-- The crons that are read as texts are there, and a policy that becomes a scheduled one has
a cron that is not empty. -/
def Updatable (p0 p : Trigger) : Prop :=
  p.kind = .schedule →
    if p0.kind = .schedule then p0.cron = p.cron ∨ p0.cron.isSome ∧ p.cron.isSome
    else p.cron.any (· ≠ "")

theorem updateRetention_iff {p0 : Trigger} (h : Scheduled (some p0) schedules) (p : Trigger) :
    (∃ after, updateRetention seconds p0 p schedules = .ok after ∧ Scheduled (some p) after) ↔
      Updatable p0 p := by
  rcases p0 with ⟨_ | _, _ | old⟩ <;> rcases p with ⟨_ | _, _ | new⟩ <;>
    simp [updateRetention, needs, Trigger.cronText, schedule, Updatable, Scheduled, bind,
      Except.bind] at h ⊢
  case schedule.some.schedule.some =>
    by_cases hsame : old = new
    · subst hsame
      simpa using h
    · by_cases hnew : new = ""
      · simp [hnew, hnew ▸ hsame]
      · refine ⟨[withSeconds seconds new], ?_, by rw [if_neg hnew]; exact ⟨seconds, rfl⟩⟩
        by_cases hold : old = "" <;> simp_all
  case empty.none.schedule.some | empty.some.schedule.some =>
    subst h
    by_cases hnew : new = ""
    · simp [hnew]
    · simp only [hnew, if_false, Except.ok.injEq, exists_eq_left', not_false_eq_true, iff_true]
      exact ⟨seconds, rfl⟩
  all_goals exact h

def Deletable (p : Trigger) : Prop := p.kind = .schedule → p.cron.isSome

theorem deleteRetention_iff {p : Trigger} (h : Scheduled (some p) schedules) :
    (∃ after, deleteRetention p schedules = .ok after ∧ Scheduled none after) ↔ Deletable p := by
  rcases p with ⟨_ | _, _ | cron⟩ <;>
    simp [deleteRetention, Trigger.cronText, Deletable, Scheduled, bind, Except.bind] at h ⊢
  · intro hempty
    rwa [if_pos hempty] at h
  all_goals exact h

/-! ## Runs -/

structure State where
  policies : ℕ → Option Trigger := fun _ => none
  schedules : ℕ → List String := fun _ => []

inductive Call
  | create (id : ℕ) (p : Trigger) (seconds : Fin 60)
  | update (id : ℕ) (p : Trigger) (seconds : Fin 60)
  | delete (id : ℕ)

/-- The policy and its schedules after a call. -/
def State.set (state : State) (id : ℕ) (p : Option Trigger) (schedules : List String) : State :=
  ⟨Function.update state.policies id p, Function.update state.schedules id schedules⟩

/-- A call.  A new policy has an id that is not in use. -/
def State.step (state : State) : Call → Except Failure State
  | .create id p seconds =>
    match state.policies id with
    | some _ => .error (.error "the id is in use")
    | none => (createRetention seconds p (state.schedules id)).map (state.set id (some p))
  | .update id p seconds =>
    match state.policies id with
    | some p0 => (updateRetention seconds p0 p (state.schedules id)).map (state.set id (some p))
    | none => .error (.error "no such Retention policy")
  | .delete id =>
    match state.policies id with
    | some p => (deleteRetention p (state.schedules id)).map (state.set id none)
    | none => .error (.error "no such Retention policy")

/-- The calls of the manager succeed, and the condition on the crons holds. -/
def State.Handles (state : State) : Call → Prop
  | .create id _ _ => state.policies id = none
  | .update id p _ => ∃ p0, state.policies id = some p0 ∧ Updatable p0 p
  | .delete id => ∃ p, state.policies id = some p ∧ Deletable p

/-- Every policy has its schedule, and no other id has one. -/
def State.Matches (state : State) : Prop :=
  ∀ id, Scheduled (state.policies id) (state.schedules id)

theorem set_matches {state : State} (h : state.Matches) {id : ℕ} {p : Option Trigger}
    {schedules : List String} : (state.set id p schedules).Matches ↔ Scheduled p schedules := by
  refine ⟨fun hset => by simpa [State.set] using hset id, fun heq other => ?_⟩
  by_cases hother : other = id
  · subst hother
    simpa [State.set] using heq
  · simpa [State.set, Function.update_of_ne hother] using h other

theorem step_iff {state : State} (h : state.Matches) (call : Call) :
    (∃ next, state.step call = .ok next ∧ next.Matches) ↔ state.Handles call := by
  have hmap : ∀ {id p} {result : Except Failure (List String)},
      (∃ next, result.map (state.set id p) = .ok next ∧ next.Matches) ↔
        ∃ after, result = .ok after ∧ Scheduled p after := by
    intro id p result
    cases result <;> simp [Except.map, set_matches h]
  cases call with
  | create id p seconds =>
    cases hid : state.policies id with
    | some p0 => simp [State.step, State.Handles, hid]
    | none =>
      have hnone : state.schedules id = [] := by simpa [Scheduled, hid] using h id
      simp only [State.step, State.Handles, hid, hmap, hnone]
      exact iff_of_true (createRetention_scheduled p) trivial
  | update id p seconds =>
    cases hid : state.policies id with
    | none => simp [State.step, State.Handles, hid]
    | some p0 => simp [State.step, State.Handles, hid, hmap, updateRetention_iff (hid ▸ h id)]
  | delete id =>
    cases hid : state.policies id with
    | none => simp [State.step, State.Handles, hid]
    | some p => simp [State.step, State.Handles, hid, hmap, deleteRetention_iff (hid ▸ h id)]

/-- Every call returns, and the schedules match the policies after it. -/
def State.Runs (state : State) : List Call → Prop
  | [] => True
  | call :: rest => ∃ next, state.step call = .ok next ∧ next.Matches ∧ next.Runs rest

/-- The condition holds of every call that is made. -/
def State.AllHandled (state : State) : List Call → Prop
  | [] => True
  | call :: rest =>
    state.Handles call ∧ ∀ next, state.step call = .ok next → next.AllHandled rest

theorem runs_iff {state : State} (h : state.Matches) (calls : List Call) :
    state.Runs calls ↔ state.AllHandled calls := by
  induction calls generalizing state with
  | nil => exact Iff.rfl
  | cons call rest ih =>
    rw [State.Runs, State.AllHandled, ← step_iff h]
    constructor
    · rintro ⟨next, hstep, hnext, hrest⟩
      refine ⟨⟨next, hstep, hnext⟩, fun other hother => ?_⟩
      rw [hstep] at hother
      cases hother
      exact (ih hnext).mp hrest
    · rintro ⟨⟨next, hstep, hnext⟩, hrest⟩
      exact ⟨next, hstep, hnext, (ih hnext).mpr (hrest next hstep)⟩

/-- **Schedules of policies.**  Over all sequences of calls, every call returns and leaves each
policy with exactly its schedule, exactly if every call that is made meets the condition. -/
theorem schedules_match (calls : List Call) : State.Runs {} calls ↔ State.AllHandled {} calls :=
  runs_iff (fun _ => by simp [Scheduled]) calls

/-- A policy without a cron cannot be deleted, and one with an empty cron cannot become a
scheduled one. -/
theorem schedules_fail :
    (State.step {} (.create 1 ⟨.schedule, none⟩ 7)).bind (State.step · (.delete 1)) =
      .error .panic ∧
    (State.step {} (.create 1 ⟨.empty, none⟩ 7)).bind
      (State.step · (.update 1 ⟨.schedule, some ""⟩ 7)) = .error (.error "invalid cron 7 ") :=
  ⟨rfl, rfl⟩

end Harbor.Retention.Schedules
