import Harbor.Rbac.Policies

/-!
# The security context of a robot

A robot's context turns the permissions of the robot into policies when it is first asked,
and evaluates them per namespace.  The evaluator of a project is built from the policies
that the builder of a project-level robot keeps for that project, and is remembered under
the request context and the project.

`Robot.permits` says what a robot may do when its context is asked for the first time.
-/

namespace Harbor.Rbac

/-! ## Robots and their policies -/

inductive Level
  | system
  | project
  deriving DecidableEq, Repr

/-- A permission of a robot: what it may do in the resources under `scope`. -/
structure Permission where
  kind : String
  ns : String
  scope : String
  access : List Policy
  deriving DecidableEq, Repr

structure Robot where
  name : String
  level : Level
  permissions : List Permission
  deriving DecidableEq, Repr

def getPolicyResource (perm : Permission) (pol : Policy) : String :=
  if hasPrefix perm.scope "/project" && pol.resource == "project" then perm.scope
  else perm.scope ++ "/" ++ pol.resource

def Permission.policies (perm : Permission) : List Policy :=
  perm.access.map fun pol => { pol with resource := getPolicyResource perm pol }

variable (robot : Robot)

def Robot.accesses : List Policy :=
  robot.permissions.flatMap Permission.policies

/-- `ResourceAllowedInNamespace`, for the namespace of a project. -/
def resourceAllowedInProject (resource : String) (project : Project) : Bool :=
  namespaceFromResource resource == some (.project project.projectID)

variable (project : Project)

/-- What the filter keeps of one policy; pushing includes pulling. -/
def keptPolicies (policy : Policy) : List Policy :=
  if resourceAllowedInProject policy.resource project then
    if policy.action = "push" then
      [policy, { resource := policy.resource, action := "pull" }]
    else [policy]
  else []

def filterRobotPolicies (policies : List Policy) : List Policy :=
  policies.flatMap (keptPolicies project)

/-! ## Evaluators -/

/-- The evaluator for projects. -/
structure ProjectEvaluator (Ctx : Type) where
  username : String
  /-- the variable that the builder captures -/
  policies : List Policy
  /-- the builder has the filter of robots -/
  filtered : Bool
  /-- evaluators by request context and project; there is none for a missing project -/
  cache : List ((Ctx × ℤ) × Option RbacUser) := []

/-- The evaluators that the first call makes. -/
structure Evaluators (Ctx : Type) where
  system : Option (List Policy)
  project : Option (ProjectEvaluator Ctx)

structure SecurityContext (Ctx : Type) where
  robot : Robot
  evaluator : Option (Evaluators Ctx) := none

variable {Ctx : Type} (table : ProjectTable) (username : String)

namespace ProjectEvaluator

/-- What the builder makes of the captured policies. -/
def filterPolicies (filtered : Bool) (project : Project) (policies : List Policy) : List Policy :=
  if filtered then filterRobotPolicies project policies else policies

/-- The user that the builder returns for the project. -/
def userOf (project : Project) (policies : List Policy) : RbacUser where
  username := username
  policies := policies ++ project.publicPolicies

variable (evaluator : ProjectEvaluator Ctx)

/-- The builder of `NewBuilderForPolicies`: it keeps the filtered policies for the next
project. -/
def build : RbacUser × ProjectEvaluator Ctx :=
  let policies := filterPolicies evaluator.filtered project evaluator.policies
  (userOf evaluator.username project policies, { evaluator with policies })

variable [DecidableEq Ctx]

/-- The evaluator for a project, from the cache if it is there. -/
def find (ctx : Ctx) (identity : ℤ) : Option RbacUser × ProjectEvaluator Ctx :=
  match evaluator.cache.lookup (ctx, identity) with
  | some found => (found, evaluator)
  | none =>
    match table.get identity with
    | none => (none, { evaluator with cache := ((ctx, identity), none) :: evaluator.cache })
    | some project =>
      let (user, built) := evaluator.build project
      (some user, { built with cache := ((ctx, identity), some user) :: built.cache })

def hasPermission (ctx : Ctx) (resource action : String) : Bool × ProjectEvaluator Ctx :=
  match namespaceFromResource resource with
  | some (.project identity) =>
    let (user, next) := evaluator.find table ctx identity
    (user.any fun user => user.enforce resource action, next)
  | _ => (false, evaluator)

end ProjectEvaluator

/-- `HasPermission` of the evaluator for the system.  The evaluators it remembers are all made
of the same policies. -/
def systemHasPermission (policies : List Policy) (resource action : String) : Bool :=
  namespaceFromResource resource == some .system &&
    RbacUser.enforce { username, policies } resource action

namespace Robot

/-- The policies of a system-level robot for the system. -/
def sysPolicies : List Policy :=
  robot.accesses.filter fun policy => hasPrefix policy.resource "/system"

/-- The policies of a system-level robot for projects. -/
def proPolicies : List Policy :=
  robot.accesses.filter fun policy =>
    !hasPrefix policy.resource "/system" && hasPrefix policy.resource "/project"

/-- The evaluators that `once` makes. -/
def evaluators (Ctx : Type) (robot : Robot) : Evaluators Ctx :=
  match robot.level with
  | .system =>
    { system := if robot.sysPolicies = [] then none else some robot.sysPolicies
      project :=
        if robot.proPolicies = [] then none
        else some { username := robot.name, policies := robot.proPolicies, filtered := false } }
  | .project =>
    { system := none
      project := some { username := robot.name, policies := robot.accesses, filtered := true } }

end Robot

/-- `HasPermission` of the evaluators in turn, until one has it. -/
def Evaluators.hasPermission [DecidableEq Ctx] (evaluators : Evaluators Ctx) (ctx : Ctx)
    (resource action : String) : Bool × Evaluators Ctx :=
  if evaluators.system.any fun policies =>
      systemHasPermission username policies resource action then
    (true, evaluators)
  else
    match evaluators.project with
    | none => (false, evaluators)
    | some project =>
      let (answer, next) := project.hasPermission table ctx resource action
      (answer, { evaluators with project := some next })

namespace SecurityContext

def new : SecurityContext Ctx := { robot }

/-- The evaluators after `once`. -/
def evaluators (context : SecurityContext Ctx) : Evaluators Ctx :=
  context.evaluator.getD (context.robot.evaluators Ctx)

def can [DecidableEq Ctx] (context : SecurityContext Ctx) (ctx : Ctx) (action resource : String) :
    Bool × SecurityContext Ctx :=
  let (answer, next) :=
    context.evaluators.hasPermission table context.robot.name ctx resource action
  (answer, { context with evaluator := some next })

end SecurityContext

/-! ## Answers of a fresh context -/

/-- The policies from which the evaluator of a project is built first. -/
def Robot.projectPolicies : List Policy :=
  match robot.level with
  | .system => robot.proPolicies
  | .project => robot.accesses

/-- The builder of the robot has the filter. -/
def Robot.filtered : Bool :=
  robot.level == .project

/-- The user as which a robot without history acts in a project. -/
def Robot.projectUser : RbacUser :=
  ProjectEvaluator.userOf robot.name project
    (ProjectEvaluator.filterPolicies robot.filtered project robot.projectPolicies)

/-- The robot has policies for projects. -/
def Robot.asksProjects : Prop :=
  robot.level = .project ∨ robot.proPolicies ≠ []

instance (robot : Robot) : Decidable robot.asksProjects :=
  inferInstanceAs (Decidable (_ ∨ _))

/-- What a robot may do, by the namespace of the resource. -/
def Robot.permits (robot : Robot) (action resource : String) : Bool :=
  match namespaceFromResource resource with
  | some .system =>
    robot.level == .system &&
      RbacUser.enforce { username := robot.name, policies := robot.sysPolicies } resource action
  | some (.project identity) =>
    robot.asksProjects &&
      (table.get identity).any fun project => (robot.projectUser project).enforce resource action
  | none => false

end Harbor.Rbac
