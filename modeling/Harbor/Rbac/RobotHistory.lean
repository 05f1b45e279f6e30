import Harbor.Rbac.RobotContext
import Harbor.Concurrency.Transition

/-!
# Answers of a robot's context and earlier questions

The builder of a project-level robot assigns what its filter keeps to the variable that
holds the policies.  So the evaluator of a second project is built from what is left after
the first one: the answers agree with those of a fresh context as long as all questions
concern one project, and need not do so afterwards.
-/

namespace Harbor.Rbac

open Concurrency

variable {Ctx : Type}

/-! ## Filtering twice -/

variable {project : Project} {kept : Policy}

theorem mem_keptPolicies {policy : Policy} :
    kept ∈ keptPolicies project policy ↔ resourceAllowedInProject policy.resource project = true ∧
      (kept = policy ∨
        policy.action = "push" ∧ kept = { resource := policy.resource, action := "pull" }) := by
  unfold keptPolicies
  split_ifs with hallowed hpush
  · simp [hallowed, hpush]
  · simp [hallowed, hpush]
  · simp [hallowed]

theorem mem_filterRobotPolicies {policies : List Policy} :
    kept ∈ filterRobotPolicies project policies ↔ ∃ policy ∈ policies,
      resourceAllowedInProject policy.resource project = true ∧ (kept = policy ∨
        policy.action = "push" ∧ kept = { resource := policy.resource, action := "pull" }) := by
  simp only [filterRobotPolicies, List.mem_flatMap, mem_keptPolicies]

/-- Filtering for the same project again neither adds nor drops a policy. -/
theorem mem_filterRobotPolicies_twice (project : Project) (policies : List Policy) (kept : Policy) :
    kept ∈ filterRobotPolicies project (filterRobotPolicies project policies) ↔
      kept ∈ filterRobotPolicies project policies := by
  constructor
  · intro hkept
    obtain ⟨policy, hpolicy, hallowed, hfrom⟩ := mem_filterRobotPolicies.mp hkept
    rcases hfrom with rfl | ⟨hpush, rfl⟩
    · exact hpolicy
    · obtain ⟨original, horiginal, hallowed', hfrom'⟩ := mem_filterRobotPolicies.mp hpolicy
      rcases hfrom' with rfl | ⟨-, rfl⟩
      · exact mem_filterRobotPolicies.mpr ⟨_, horiginal, hallowed', .inr ⟨hpush, rfl⟩⟩
      · -- an implied policy pulls, so nothing is implied by it
        simp at hpush
  · intro hkept
    obtain ⟨policy, -, hallowed, hfrom⟩ := mem_filterRobotPolicies.mp hkept
    refine mem_filterRobotPolicies.mpr ⟨kept, hkept, ?_, .inl rfl⟩
    rcases hfrom with rfl | ⟨-, rfl⟩ <;> exact hallowed

namespace ProjectEvaluator

variable {identity : ℤ} {resource : String}

theorem mem_filterPolicies_twice (filtered : Bool) (project : Project) (policies : List Policy)
    (kept : Policy) :
    kept ∈ filterPolicies filtered project (filterPolicies filtered project policies) ↔
      kept ∈ filterPolicies filtered project policies := by
  cases filtered with
  | true => exact mem_filterRobotPolicies_twice project policies kept
  | false => exact Iff.rfl

/-! ## What the evaluator for projects keeps -/

/-- The projects for which an evaluator was built. -/
def built (evaluator : ProjectEvaluator Ctx) : List ℤ :=
  evaluator.cache.filterMap fun entry => entry.2.map fun _ => entry.1.2

/-- No evaluator was built for another project, or the builder does not filter. -/
def Untouched (evaluator : ProjectEvaluator Ctx) (identity : ℤ) : Prop :=
  evaluator.filtered = true → ∀ other ∈ evaluator.built, other = identity

/-- The remembered evaluators are those of a robot without history, and the captured policies
are as good as the original ones for a project that is untouched by others. -/
structure Consistent (table : ProjectTable) (robot : Robot)
    (evaluator : ProjectEvaluator Ctx) : Prop where
  username : evaluator.username = robot.name
  filtered : evaluator.filtered = robot.filtered
  missing : ∀ ctx identity, ((ctx, identity), none) ∈ evaluator.cache → table.get identity = none
  found : ∀ ctx identity user, ((ctx, identity), some user) ∈ evaluator.cache →
    ∃ project, table.get identity = some project ∧ user.username = robot.name ∧
      ∀ policy, policy ∈ user.policies ↔ policy ∈ (robot.projectUser project).policies
  captured : ∀ identity project, table.get identity = some project →
    evaluator.Untouched identity → ∀ policy,
      policy ∈ filterPolicies robot.filtered project evaluator.policies ↔
        policy ∈ filterPolicies robot.filtered project robot.projectPolicies

variable {table : ProjectTable} {robot : Robot} {evaluator : ProjectEvaluator Ctx}

theorem Consistent.of_fresh (husername : evaluator.username = robot.name)
    (hfiltered : evaluator.filtered = robot.filtered) (hcache : evaluator.cache = [])
    (hpolicies : evaluator.policies = robot.projectPolicies) :
    evaluator.Consistent table robot where
  username := husername
  filtered := hfiltered
  missing ctx identity hmem := by simp [hcache] at hmem
  found ctx identity user hmem := by simp [hcache] at hmem
  captured identity project _ _ policy := by rw [hpolicies]

variable (h : evaluator.Consistent table robot)
include h

theorem Consistent.build_user {project : Project} (hget : table.get identity = some project)
    (huntouched : evaluator.Untouched identity) :
    (evaluator.build project).1.username = robot.name ∧ ∀ policy,
      policy ∈ (evaluator.build project).1.policies ↔
        policy ∈ (robot.projectUser project).policies := by
  refine ⟨h.username, fun policy => ?_⟩
  simp only [build, userOf, Robot.projectUser, List.mem_append, h.filtered,
    h.captured identity project hget huntouched]

variable [DecidableEq Ctx]

/-- Looking an evaluator up for an untouched project keeps the evaluators consistent. -/
theorem Consistent.find (ctx : Ctx)
    (huntouched : table.get identity ≠ none → evaluator.Untouched identity) :
    (evaluator.find table ctx identity).2.Consistent table robot := by
  unfold ProjectEvaluator.find
  cases hlookup : evaluator.cache.lookup (ctx, identity) with
  | some found => exact h
  | none =>
    cases hget : table.get identity with
    | none =>
      refine ⟨h.username, h.filtered, fun c i hmem => ?_, fun c i user hmem => ?_,
        fun i project hproject hother => h.captured i project hproject ?_⟩
      · cases hmem with
        | head => exact hget
        | tail _ hmem => exact h.missing c i hmem
      · cases hmem with
        | tail _ hmem => exact h.found c i user hmem
      · exact hother
    | some project =>
      have hown := huntouched (by simp [hget])
      refine ⟨h.username, h.filtered, fun c i hmem => ?_, fun c i user hmem => ?_,
        fun i other hother hlast policy => ?_⟩
      · cases hmem with
        | tail _ hmem => exact h.missing c i hmem
      · cases hmem with
        | head => exact ⟨project, hget, h.build_user hget hown⟩
        | tail _ hmem => exact h.found c i user hmem
      · show policy ∈ filterPolicies robot.filtered other
          (filterPolicies evaluator.filtered project evaluator.policies) ↔ _
        have hcaptured := h.captured identity project hget hown
        rw [h.filtered]
        cases hfiltered : robot.filtered with
        | false =>
          rw [hfiltered] at hcaptured
          exact hcaptured policy
        | true =>
          -- the evaluator just built is for the project in question
          obtain rfl : identity = i := hlast (h.filtered.trans hfiltered) identity (by simp [built])
          cases hget.symm.trans hother
          rw [mem_filterPolicies_twice, ← hfiltered]
          exact hcaptured policy

/-- The answer for an untouched project is that of a robot without history. -/
theorem Consistent.find_enforce (ctx : Ctx)
    (huntouched : table.get identity ≠ none → evaluator.Untouched identity)
    (resource action : String) :
    ((evaluator.find table ctx identity).1.any fun user => user.enforce resource action) =
      (table.get identity).any fun project =>
        (robot.projectUser project).enforce resource action := by
  unfold ProjectEvaluator.find
  cases hlookup : evaluator.cache.lookup (ctx, identity) with
  | some found =>
    obtain ⟨before, after, hcache, -⟩ := List.lookup_eq_some_iff.mp hlookup
    have hmem : ((ctx, identity), found) ∈ evaluator.cache := by simp [hcache]
    cases found with
    | none => simp [h.missing ctx identity hmem]
    | some user =>
      obtain ⟨project, hget, hname, hpolicies⟩ := h.found ctx identity user hmem
      simp only [hget, Option.any_some]
      exact RbacUser.enforce_congr hname hpolicies resource action
  | none =>
    cases hget : table.get identity with
    | none => rfl
    | some project =>
      obtain ⟨hname, hpolicies⟩ := h.build_user hget (huntouched (by simp [hget]))
      exact RbacUser.enforce_congr hname hpolicies resource action

theorem Consistent.hasPermission (ctx : Ctx)
    (huntouched : ∀ identity, namespaceFromResource resource = some (.project identity) →
      table.get identity ≠ none → evaluator.Untouched identity) (action : String) :
    (evaluator.hasPermission table ctx resource action).2.Consistent table robot := by
  unfold ProjectEvaluator.hasPermission
  split
  · rename_i identity hns
    exact h.find ctx (huntouched identity hns)
  · exact h

omit h

/-- The evaluator for projects knows nothing of other resources. -/
theorem hasPermission_of_other
    (hns : ∀ identity, namespaceFromResource resource ≠ some (.project identity)) (ctx : Ctx)
    (action : String) : (evaluator.hasPermission table ctx resource action).1 = false := by
  unfold ProjectEvaluator.hasPermission
  split
  · rename_i identity heq
    exact absurd heq (hns identity)
  · rfl

end ProjectEvaluator

namespace Evaluators

variable [DecidableEq Ctx] {table : ProjectTable} {evaluators : Evaluators Ctx} (username : String)

theorem hasPermission_system (ctx : Ctx) (resource action : String) :
    (evaluators.hasPermission table username ctx resource action).2.system =
      evaluators.system := by
  unfold hasPermission
  split_ifs
  · rfl
  · split <;> rfl

theorem hasPermission_project (ctx : Ctx) (resource action : String) :
    (evaluators.hasPermission table username ctx resource action).2.project =
        evaluators.project ∨
      ∃ evaluator, evaluators.project = some evaluator ∧
        (evaluators.hasPermission table username ctx resource action).2.project =
          some (evaluator.hasPermission table ctx resource action).2 := by
  unfold hasPermission
  split_ifs
  · exact .inl rfl
  · split
    · exact .inl rfl
    · exact .inr ⟨_, ‹_›, rfl⟩

theorem hasPermission_fst (ctx : Ctx) (resource action : String) :
    (evaluators.hasPermission table username ctx resource action).1 =
      (evaluators.system.any (fun policies =>
          systemHasPermission username policies resource action) ||
        evaluators.project.any fun evaluator =>
          (evaluator.hasPermission table ctx resource action).1) := by
  unfold hasPermission
  split_ifs with hsystem
  · simp [hsystem]
  · split <;> simp_all

end Evaluators

namespace SecurityContext

/-- The evaluators are those that `once` makes, up to what the questions so far left in the
evaluator for projects. -/
structure Faithful (table : ProjectTable) (robot : Robot) (context : SecurityContext Ctx) :
    Prop where
  sameRobot : context.robot = robot
  system : context.evaluators.system = (robot.evaluators Ctx).system
  asksProjects : context.evaluators.project.isSome = true ↔ robot.asksProjects
  project : ∀ evaluator ∈ context.evaluators.project, evaluator.Consistent table robot

variable {table : ProjectTable} {robot : Robot} {context : SecurityContext Ctx} {resource : String}
  {evaluator : ProjectEvaluator Ctx}

theorem evaluators_project (h : evaluator ∈ (robot.evaluators Ctx).project) :
    evaluator = { username := robot.name, policies := robot.projectPolicies,
                  filtered := robot.filtered } := by
  unfold Robot.evaluators at h
  unfold Robot.projectPolicies Robot.filtered
  cases hlevel : robot.level with
  | system =>
    simp only [hlevel] at h
    split_ifs at h
    · cases h
    · exact (Option.some.inj h).symm
  | project =>
    simp only [hlevel] at h
    exact (Option.some.inj h).symm

theorem faithful_new (table : ProjectTable) (robot : Robot) :
    (new robot : SecurityContext Ctx).Faithful table robot := by
  refine ⟨rfl, rfl, ?_, fun evaluator hevaluator => ?_⟩
  · show ((robot.evaluators Ctx).project).isSome = true ↔ _
    unfold Robot.evaluators Robot.asksProjects
    cases robot.level with
    | system => by_cases hnone : robot.proPolicies = [] <;> simp [hnone]
    | project => simp
  · obtain rfl := evaluators_project hevaluator
    exact .of_fresh rfl rfl rfl rfl

/-- Every evaluator built so far is for the project of the resource; for a resource of no
project, or of a project that does not exist, nothing is asked. -/
def SameProject (table : ProjectTable) (context : SecurityContext Ctx) (resource : String) : Prop :=
  match namespaceFromResource resource with
  | some (.project identity) =>
    table.get identity ≠ none → ∀ evaluator ∈ context.evaluators.project,
      evaluator.Untouched identity
  | _ => True

instance (table : ProjectTable) (context : SecurityContext Ctx) (resource : String) :
    Decidable (context.SameProject table resource) := by
  unfold SameProject ProjectEvaluator.Untouched
  split <;> infer_instance

theorem SameProject.untouched (h : context.SameProject table resource) {identity : ℤ}
    (hns : namespaceFromResource resource = some (.project identity))
    (hget : table.get identity ≠ none) (hevaluator : evaluator ∈ context.evaluators.project) :
    evaluator.Untouched identity := by
  simp only [SameProject, hns] at h
  exact h hget evaluator hevaluator

theorem sameProject_new (table : ProjectTable) (robot : Robot) (resource : String) :
    (new robot : SecurityContext Ctx).SameProject table resource := by
  unfold SameProject
  split
  · intro _ evaluator hevaluator _ other hbuilt
    obtain rfl := evaluators_project hevaluator
    cases hbuilt
  · trivial

variable [DecidableEq Ctx]

theorem Faithful.can (h : context.Faithful table robot) (ctx : Ctx)
    (hsame : context.SameProject table resource) (action : String) :
    (context.can table ctx action resource).2.Faithful table robot := by
  refine ⟨h.sameRobot, (Evaluators.hasPermission_system ..).trans h.system, ?_, ?_⟩
  · rw [← h.asksProjects]
    rcases @Evaluators.hasPermission_project _ _ table context.evaluators context.robot.name ctx
      resource action with hkept | ⟨evaluator, hevaluator, hnext⟩
    · exact iff_of_eq (congrArg (fun found => found.isSome = true) hkept)
    · rw [hevaluator]
      exact iff_of_eq (congrArg (fun found => found.isSome = true) hnext)
  · intro next hnext
    change next ∈ (context.evaluators.hasPermission table context.robot.name ctx resource
      action).2.project at hnext
    rcases @Evaluators.hasPermission_project _ _ table context.evaluators context.robot.name ctx
      resource action with hkept | ⟨evaluator, hevaluator, hbuilt⟩
    · rw [hkept] at hnext
      exact h.project next hnext
    · rw [hbuilt] at hnext
      cases hnext
      exact (h.project evaluator hevaluator).hasPermission ctx
        (fun _ hns hget => hsame.untouched hns hget hevaluator) action

theorem system_any (Ctx : Type) (robot : Robot) (resource action : String) :
    ((robot.evaluators Ctx).system.any fun policies =>
        systemHasPermission robot.name policies resource action) =
      (namespaceFromResource resource == some .system && (robot.level == .system &&
        RbacUser.enforce { username := robot.name, policies := robot.sysPolicies }
          resource action)) := by
  unfold Robot.evaluators
  cases robot.level with
  | project => simp
  | system =>
    by_cases hnone : robot.sysPolicies = []
    · simp [hnone, RbacUser.enforce, allows]
    · simp [hnone, systemHasPermission]

theorem Faithful.can_eq_permits (h : context.Faithful table robot) (ctx : Ctx)
    (hsame : context.SameProject table resource) (action : String) :
    (context.can table ctx action resource).1 = robot.permits table action resource := by
  show (context.evaluators.hasPermission table context.robot.name ctx resource action).1 = _
  rw [Evaluators.hasPermission_fst, h.system, h.sameRobot, system_any]
  unfold Robot.permits
  have hother : (∀ identity, namespaceFromResource resource ≠ some (.project identity)) →
      (context.evaluators.project.any fun evaluator =>
        (evaluator.hasPermission table ctx resource action).1) = false := by
    intro hns
    cases context.evaluators.project with
    | none => rfl
    | some evaluator => exact ProjectEvaluator.hasPermission_of_other hns ctx action
  cases hns : namespaceFromResource resource with
  | none => simp [hother, hns]
  | some ns =>
    cases ns with
    | system => simp [hother, hns]
    | project identity =>
      have hasks := h.asksProjects
      cases hproject : context.evaluators.project with
      | none =>
        have hnot : ¬robot.asksProjects := by simpa [hproject] using hasks
        simp [hnot]
      | some evaluator =>
        have hyes : robot.asksProjects := by simpa [hproject] using hasks
        have hanswer := (h.project evaluator hproject).find_enforce ctx
          (fun hget => hsame.untouched hns hget hproject) resource action
        simp [hyes, ProjectEvaluator.hasPermission, hns, hanswer]

theorem can_new (table : ProjectTable) (robot : Robot) (ctx : Ctx) (action resource : String) :
    ((new robot : SecurityContext Ctx).can table ctx action resource).1 =
      robot.permits table action resource :=
  (faithful_new table robot).can_eq_permits ctx (sameProject_new table robot resource) action

/-! ## Sequences of questions -/

structure Call (Ctx : Type) where
  ctx : Ctx
  action : String
  resource : String

/-- The step of a context that is asked. -/
def ask (table : ProjectTable) (context : SecurityContext Ctx) (call : Call Ctx) :
    Option (SecurityContext Ctx) :=
  some (context.can table call.ctx call.action call.resource).2

/-- **Answers do not depend on earlier questions** when the evaluators built before each
question are for the same project. -/
theorem answers_without_history (table : ProjectTable) (robot : Robot) (calls : List (Call Ctx))
    (hsame : EveryStep (ask table) (fun before call _ => before.SameProject table call.resource)
      (new robot) calls) :
    EveryStep (ask table) (fun before call _ =>
      (before.can table call.ctx call.action call.resource).1 =
        ((new robot : SecurityContext Ctx).can table call.ctx call.action call.resource).1)
      (new robot) calls := by
  refine everyStep_of_invariant (Faithful table robot) ?_ (faithful_new table robot) hsame
  intro before call next hfaithful hnext hcall
  cases hnext
  refine ⟨hfaithful.can call.ctx hcall call.action, ?_⟩
  rw [can_new]
  exact hfaithful.can_eq_permits call.ctx hcall call.action

/-- A robot of the first project that pushes. -/
def pusher : Robot where
  name := "robot$library+ci"
  level := .project
  permissions := [
    { kind := "project", ns := "library", scope := "/project/1"
      access := [{ resource := "repository", action := "push" }] }]

def pushTo (resource : String) : Call ℕ where
  ctx := 0
  action := "push"
  resource := resource

/-- The robot is asked about its own project, about the system, about a project that does
not exist, and about its own project again in another request. -/
def ownProject : List (Call ℕ) :=
  [pushTo "/project/1/repository", pushTo "/system/robot", pushTo "/project/7/repository",
    { ctx := 1, action := "pull", resource := "/project/1/repository" }]

theorem answers_without_history_ownProject :
    EveryStep (ask twoProjects) (fun before call _ =>
      (before.can twoProjects call.ctx call.action call.resource).1 =
        ((new pusher : SecurityContext ℕ).can twoProjects call.ctx call.action call.resource).1)
      (new pusher) ownProject := by
  refine answers_without_history twoProjects pusher ownProject ?_
  exact everyStep_cons rfl (by decide +kernel) (everyStep_cons rfl (by decide +kernel)
    (everyStep_cons rfl (by decide +kernel) (everyStep_cons rfl (by decide +kernel) trivial)))

/-- The context of the robot after a question about the second project. -/
def askedAboutTools : SecurityContext ℕ :=
  ((new pusher).can twoProjects 0 "push" "/project/2/repository").2

/-- The robot may push to its own project, but no longer after that question. -/
theorem own_project_forgotten :
    ((new pusher : SecurityContext ℕ).can twoProjects 0 "push" "/project/1/repository").1 = true ∧
      (askedAboutTools.can twoProjects 0 "push" "/project/1/repository").1 = false := by
  decide +kernel

end SecurityContext

end Harbor.Rbac
