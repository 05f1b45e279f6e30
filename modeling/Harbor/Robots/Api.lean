import Harbor.Data.Checks
import Harbor.Robots.Scopes

/-!
# Creating and updating robots

The requests of the API that store permissions of robots, when the caller is a robot.  Both
validate the request and require access.  Only the creation compares the permissions with
those of the caller.

Requests in which an entry of a list is missing are refused by the validation and are not
represented; a name that is taken already is refused by the database.
-/

namespace Harbor.Robots

open Rbac Data.Checks

/-! ## Requests -/

inductive ErrorCode
  | badRequest
  | denied
  | forbidden
  | notFound
  deriving DecidableEq, Repr

structure ApiError where
  code : ErrorCode
  message : String
  deriving DecidableEq, Repr

def ApiError.badRequest (message : String) : ApiError :=
  { code := .badRequest, message }

/-- The error of a project that cannot be returned. -/
def ApiError.ofProject : ProjectError → ApiError
  | .badRequest message => .badRequest message
  | .notFound message => { code := .notFound, message }

structure RobotPermission where
  kind : String
  ns : String
  access : List Policy
  deriving DecidableEq, Repr

structure RobotCreate where
  name : String
  description : String := ""
  duration : ℤ
  level : String
  permissions : List RobotPermission
  deriving DecidableEq, Repr

structure RobotUpdate where
  name : String
  description : String := ""
  duration : Option ℤ := none
  level : String
  disable : Bool := false
  permissions : List RobotPermission
  deriving DecidableEq, Repr

def firstNamespace (permissions : List RobotPermission) : String :=
  (permissions.head?.map RobotPermission.ns).getD ""

/-! ## Validation -/

/-- `GetPermissions` for the system, by resource. -/
def systemPermissions : List (String × List String) :=
  [("audit-log", ["list"]), ("preheat-instance", ["read", "create", "delete", "list", "update"]),
    ("project", ["list", "create"]),
    ("replication-policy", ["read", "create", "delete", "list", "update"]),
    ("replication", ["read", "create", "list"]), ("replication-adapter", ["list"]),
    ("registry", ["read", "create", "delete", "list", "update"]),
    ("scan-all", ["read", "update", "stop", "create"]), ("system-volumes", ["read"]),
    ("garbage-collection", ["read", "create", "list", "update", "stop"]),
    ("purge-audit", ["read", "create", "list", "update", "stop"]),
    ("jobservice-monitor", ["list", "stop"]),
    ("scanner", ["read", "create", "delete", "list", "update"]),
    ("label", ["read", "create", "delete", "update"]), ("security-hub", ["read", "list"]),
    ("catalog", ["read"]), ("quota", ["read", "list"]),
    ("robot", ["create", "read", "list", "delete"]),
    ("user", ["create", "read", "update", "list", "delete"]), ("ldap-user", ["create", "list"]),
    ("quota", ["update"]), ("user-group", ["create", "read", "update", "list", "delete"])]

/-- `GetPermissions` for projects, by resource. -/
def projectPermissions : List (String × List String) :=
  [("log", ["list"]), ("project", ["read", "delete", "update"]),
    ("metadata", ["read", "create", "delete", "list", "update"]),
    ("repository", ["read", "update", "delete", "list", "pull", "push"]),
    ("artifact", ["read", "create", "list", "delete"]), ("scan", ["create", "read", "stop"]),
    ("sbom", ["create", "stop", "read"]), ("tag", ["create", "list", "delete"]),
    ("accessory", ["list"]), ("artifact-addition", ["read"]),
    ("artifact-label", ["create", "delete"]), ("scanner", ["create", "read"]),
    ("preheat-policy", ["read", "create", "delete", "list", "update"]),
    ("immutable-tag", ["create", "delete", "list", "update"]),
    ("notification-policy", ["read", "create", "delete", "list", "update"]),
    ("tag-retention", ["read", "create", "delete", "list", "update"]),
    ("label", ["read", "create", "delete", "list", "update"]), ("quota", ["read"]),
    ("robot", ["create", "read", "list", "delete"]), ("export-cve", ["create", "read"]),
    ("member", ["create", "read", "update", "list", "delete"])]

def containsAccess (policies : List (String × List String)) (item : Policy) : Bool :=
  policies.any fun entry => entry.1 == item.resource && entry.2.contains item.action

def isValidLevel (level : String) : Bool :=
  level == "system" || level == "project"

def isValidDuration (d : ℤ) : Bool :=
  d == -1 || (0 < d && d < 2 ^ 31 - 1)

def validateName (name : String) : Except ApiError Unit :=
  require (validNameFrom false name.toList)
    (.badRequest "robot name is not in lower case or contains illegal characters")

/-- The access entries of a permission are among those of its kind. -/
def validateAccess (perm : RobotPermission) : Except ApiError Unit :=
  let checkIn (policies : List (String × List String)) :=
    checkAll (fun acc => require (containsAccess policies acc)
      (.badRequest ("bad request permission: " ++ acc.resource ++ ":" ++ acc.action))) perm.access
  if perm.kind = "system" then checkIn systemPermissions
  else if perm.kind = "project" then checkIn projectPermissions
  else .error (.badRequest ("bad request permission level: " ++ perm.kind))

def validate (d : ℤ) (level : String) (permissions : List RobotPermission) :
    Except ApiError Unit := do
  require (isValidDuration d) (.badRequest ("bad request error duration input: " ++ toString d ++
    ", duration must be either -1(Never) or a positive integer"))
  require (isValidLevel level) (.badRequest ("bad request error level input: " ++ level))
  require (!permissions.isEmpty) (.badRequest "bad request empty permission")
  checkAll (fun perm => require (!perm.access.isEmpty) (.badRequest "bad request empty access"))
    permissions
  require (!(level == "project" && 1 < permissions.length)) (.badRequest "bad request permission")
  checkAll validateAccess permissions

/-! ## Access of the caller -/

def levelText : Level → String
  | .system => "system"
  | .project => "project"

def requireSystemAccess (table : ProjectTable) (caller : Account) (action : String) :
    Except ApiError Unit :=
  require (caller.can table action "/system/robot")
    { code := .forbidden, message := caller.name }

/-- The project whose robots are accessed; a name that is not found stands for no project. -/
def accessedProject (table : ProjectTable) (name : String) : Except ApiError ℕ :=
  if name = "" then .ok 0
  else
    match table.getByName name with
    | .ok project => .ok project.projectID
    | .error (.notFound _) => .ok 0
    | .error (.badRequest message) => .error (.badRequest message)

def requireProjectAccess (table : ProjectTable) (caller : Account) (name action : String) :
    Except ApiError Unit := do
  let projectID ← accessedProject table name
  require (caller.can table action (projectResource projectID "robot"))
    { code := .forbidden, message := "" }

def requireAccess (table : ProjectTable) (caller : Account) (level name action : String) :
    Except ApiError Unit :=
  if level = "system" then requireSystemAccess table caller action
  else if level = "project" then requireProjectAccess table caller name action
  else .error { code := .forbidden, message := "" }

/-! ## Permissions of the caller -/

def scopeKey (kind ns : String) : String :=
  kind ++ ":" ++ ns

def accessKey (policy : Policy) : String :=
  policy.resource ++ ":" ++ policy.action ++ ":" ++ policy.effect

/-- The entry of the map of permissions; a later permission replaces an earlier one. -/
def permissionFor (creator : List Permission) (key : String) : Option Permission :=
  creator.reverse.find? fun perm => scopeKey perm.kind perm.ns == key

def hasLessThanOrEqualAccess (creating creator : List Policy) : Bool :=
  creating.all fun policy => creator.any fun other => accessKey other == accessKey policy

def isValidPermissionScope (creating : List RobotPermission) (creator : List Permission) : Bool :=
  creating.all fun perm =>
    ((permissionFor creator (scopeKey perm.kind perm.ns)).or
        (permissionFor creator (scopeKey perm.kind "*"))).any fun found =>
      hasLessThanOrEqualAccess perm.access found.access

/-! ## The requests -/

def toScope (table : ProjectTable) (perm : RobotPermission) : Except ApiError Scope :=
  if perm.kind = "system" then
    if perm.ns = "/" then .ok .system else .error (.badRequest "unknown namespace")
  else if perm.kind = "project" then
    if perm.ns = "*" then .ok .allProjects
    else
      match table.getNamed perm.ns with
      | .ok project => .ok (.project project.projectID)
      | .error e => .error (.ofProject e)
  else .error (.badRequest "unknown robot kind")

/-- `createPermission`: the rows of the permissions. -/
def createPermission (table : ProjectTable) : List RobotPermission → Except ApiError (List Row)
  | [] => .ok []
  | perm :: rest => do
    let scope ← toScope table perm
    let rows ← createPermission table rest
    .ok (perm.access.map (Row.mk scope) ++ rows)

/-- `SetProject`: the name and the ID of the project of a project-level robot. -/
def setProject (table : ProjectTable) (level : String) (permissions : List RobotPermission) :
    Except ApiError (String × ℕ) :=
  if level = "project" then
    match table.getNamed (firstNamespace permissions) with
    | .ok project => .ok (project.name, project.projectID)
    | .error e => .error (.ofProject e)
  else .ok ("", 0)

/-- `CreateRobot`, with a robot as the caller. -/
def createRobot (table : ProjectTable) (robotPrefix : String) (creator : Account)
    (params : RobotCreate) : Except ApiError Account := do
  validateName params.name
  validate params.duration params.level params.permissions
  requireAccess table creator params.level (firstNamespace params.permissions) "create"
  require (isValidPermissionScope params.permissions (creator.populate table).permissions)
    { code := .denied
      message := "permission scope is invalid. It must be equal to or more restrictive than " ++
        "the creator robot's permissions: " ++ creator.name }
  let (projectName, projectID) ← setProject table params.level params.permissions
  let rows ← createPermission table params.permissions
  .ok {
    name := robotPrefix ++
      if params.level = "project" then projectName ++ "+" ++ params.name else params.name
    projectID
    duration := params.duration
    description := params.description
    rows := rows.dedup }

/-- The project of a project-level robot stays the same. -/
def requireSameProject (table : ProjectTable) (account : Account)
    (permissions : List RobotPermission) : Except ApiError Unit :=
  match account.level with
  | .system => .ok ()
  | .project =>
    match table.getNamed (firstNamespace permissions) with
    | .ok project =>
      require (account.projectID == project.projectID)
        (.badRequest "cannot update the project id of robot")
    | .error e => .error (.ofProject e)

/-! ### Copying the permissions of an update

`lib.JSONCopy` decodes the permissions of the request over those that the robot was read with:
entry over entry by position, and a text that is empty is omitted in the JSON, so that the text
of the old entry stays. -/

def jsonCopy {α : Type*} (decode : α → α → α) : List α → List α → List α
  | _, [] => []
  | [], srcs => srcs
  | dst :: dsts, src :: srcs => decode dst src :: jsonCopy decode dsts srcs

def copyText (dst src : String) : String := if src = "" then dst else src

def copyPolicy (dst src : Policy) : Policy where
  resource := copyText dst.resource src.resource
  action := copyText dst.action src.action
  effect := copyText dst.effect src.effect

def copyPermission (dst src : RobotPermission) : RobotPermission where
  kind := copyText dst.kind src.kind
  ns := copyText dst.ns src.ns
  access := jsonCopy copyPolicy dst.access src.access

/-- `updateV2Robot`, with the permissions that the robot was read with. -/
def updateV2Robot (table : ProjectTable) (caller account : Account)
    (loaded : List RobotPermission) (params : RobotUpdate) : Except ApiError Account := do
  let duration := params.duration.getD account.duration
  validate duration params.level params.permissions
  requireSameProject table account params.permissions
  requireAccess table caller (levelText account.level) (firstNamespace params.permissions) "update"
  require (params.level == levelText account.level && params.name == account.name)
    (.badRequest "cannot update the level or name of robot")
  let rows ← createPermission table (jsonCopy copyPermission loaded params.permissions)
  .ok { account with
    duration
    description := params.description
    disabled := params.disable
    rows := rows.dedup }

/-- `UpdateRobot`, with a robot as the caller. -/
def updateRobot (table : ProjectTable) (caller account : Account)
    (loaded : List RobotPermission) (params : RobotUpdate) : Except ApiError Account :=
  if account.editable then updateV2Robot table caller account loaded params
  else .error { code := .denied, message := "editing of legacy robot is not allowed" }

end Harbor.Robots
