import Harbor.Rbac.RobotHistory
import Mathlib.Data.List.Dedup

/-!
# Robot accounts and what they may do

A robot account is stored with rows, each an access entry in a scope: the system, all
projects, or one project.  Its context works on texts: the scope and the resource of a row
make a pattern, and a target is compared with it.

`Scope.Covers` says directly which targets a row is about.  `Account.can_iff` describes the
answers of a fresh context in these terms: some row grants the action, or a row for pushing
does in the case of a project-level robot that pulls, or the project is public; and no row
refuses it.
-/

namespace Harbor.Robots

open Rbac List Robot SecurityContext

/-! ## Rows -/

inductive Scope
  | system
  | allProjects
  | project (projectID : ℕ)
  deriving DecidableEq, Repr

/-- The scope as it is stored. -/
def Scope.text : Scope → String
  | .system => "/system"
  | .allProjects => "/project/*"
  | .project projectID => "/project/" ++ toString projectID

/-- An access entry in a scope. -/
structure Row where
  scope : Scope
  access : Policy
  deriving DecidableEq, Repr

/-- Names of resources and actions: letters, digits and dashes. -/
def Plain (text : String) : Prop :=
  ∀ c ∈ text.toList, (c.isAlphanum || c == '-') = true

instance (text : String) : Decidable (Plain text) :=
  List.decidableBAll (fun c => (c.isAlphanum || c == '-') = true) text.toList

/-- The row is about something that has a name, and its project has an ID. -/
structure Row.Valid (row : Row) : Prop where
  resource : Plain row.access.resource
  action : Plain row.access.action
  projectID : ∀ projectID, row.scope = .project projectID → 0 < projectID ∧ projectID < 2 ^ 63

variable {row : Row} {resource target : String} {table : ProjectTable}

theorem Plain.notMem {text : String} (h : Plain text) {c : Char}
    (hc : (c.isAlphanum || c == '-') = false) : c ∉ text.toList := by
  intro hmem
  rw [h c hmem] at hc
  cases hc

/-! ## Accounts -/

/-- A robot account with the rows of its permissions.  The name is the one that the account
is known by, and `editable` is false for accounts of an old format. -/
structure Account where
  name : String
  projectID : ℕ
  editable : Bool := true
  duration : ℤ := -1
  description : String := ""
  disabled : Bool := false
  rows : List Row
  deriving DecidableEq, Repr

/-- `setLevel`. -/
def Account.level (account : Account) : Level :=
  if account.projectID = 0 then .system else .project

/-- The rows are valid, and those of a project-level robot are all in its project. -/
structure Account.Valid (account : Account) : Prop where
  rows : ∀ row ∈ account.rows, row.Valid
  own : account.projectID ≠ 0 → ∀ row ∈ account.rows, row.scope = .project account.projectID

/-- `convertScope`; there is nothing for a project that was removed. -/
def convertScope (table : ProjectTable) : Scope → Option (String × String)
  | .system => some ("system", "/")
  | .allProjects => some ("project", "*")
  | .project projectID => (table.get projectID).map fun project => ("project", project.name)

/-- `populatePermissions`: the rows by scope; the order of the scopes is not determined in the
source. -/
def populatePermissions (table : ProjectTable) (rows : List Row) : List Permission :=
  (rows.map Row.scope).dedup.filterMap fun scope =>
    (convertScope table scope).map fun kindAndNamespace =>
      { kind := kindAndNamespace.1
        ns := kindAndNamespace.2
        scope := scope.text
        access := (rows.filter (·.scope = scope)).map Row.access }

def Account.populate (table : ProjectTable) (account : Account) : Robot where
  name := account.name
  level := account.level
  permissions := populatePermissions table account.rows

/-- The answer of a fresh context of the robot. -/
def Account.can (table : ProjectTable) (account : Account) (action target : String) : Bool :=
  ((new (account.populate table) : SecurityContext Unit).can table () action
    target).1

/-! ## Patterns of rows -/

/-- The targets that an access entry is about.  In all projects, the entry for the resource
`project` is about everything below `/project/`. -/
def Scope.Covers (scope : Scope) (resource target : String) : Prop :=
  match scope with
  | .system => target = "/system/" ++ resource
  | .project projectID =>
    target = if resource = "project" then "/project/" ++ toString projectID
      else "/project/" ++ toString projectID ++ "/" ++ resource
  | .allProjects =>
    ∃ middle : String, '\n' ∉ middle.toList ∧
      target = if resource = "project" then "/project/" ++ middle
        else "/project/" ++ middle ++ "/" ++ resource

/-- The row is about the action on the target. -/
def Row.Covers (row : Row) (target action : String) : Prop :=
  row.scope.Covers row.access.resource target ∧ action = row.access.action

/-- The policy that the context makes of a row. -/
def Row.policy (row : Row) : Policy where
  resource :=
    if row.scope ≠ .system ∧ row.access.resource = "project" then row.scope.text
    else row.scope.text ++ "/" ++ row.access.resource
  action := row.access.action
  effect := row.access.effect

theorem hasPrefix_scope_text (scope : Scope) :
    hasPrefix scope.text "/project" = true ↔ scope ≠ .system := by
  cases scope with
  | system | allProjects => decide
  | project projectID =>
    have hprefix := hasPrefix_append "/project" ("/" ++ toString projectID)
    rw [← String.append_assoc] at hprefix
    simpa [Scope.text] using hprefix

theorem getPolicyResource_row {perm : Permission} (hscope : perm.scope = row.scope.text) :
    getPolicyResource perm row.access = row.policy.resource := by
  unfold getPolicyResource Row.policy
  simp only [hscope, Bool.and_eq_true, hasPrefix_scope_text, beq_iff_eq]

/-- The policies of a robot are those of its rows, but for projects that were removed. -/
theorem mem_populate_accesses {account : Account} {policy : Policy} :
    policy ∈ (account.populate table).accesses ↔
      ∃ row ∈ account.rows, (convertScope table row.scope).isSome = true ∧ policy = row.policy := by
  simp only [Account.populate, accesses, populatePermissions, mem_flatMap,
    mem_filterMap, mem_dedup, mem_map]
  constructor
  · rintro ⟨perm, ⟨scope, -, hperm⟩, hpolicy⟩
    obtain ⟨found, hfound, rfl⟩ := Option.map_eq_some_iff.mp hperm
    obtain ⟨access, haccess, rfl⟩ := mem_map.mp hpolicy
    obtain ⟨row, hrow, rfl⟩ := mem_map.mp haccess
    obtain ⟨hmem, hscope⟩ := mem_filter.mp hrow
    obtain rfl : row.scope = scope := by simpa using hscope
    refine ⟨row, hmem, by simp [hfound], ?_⟩
    rw [getPolicyResource_row rfl]
    rfl
  · rintro ⟨row, hmem, hsome, rfl⟩
    obtain ⟨found, hfound⟩ := Option.isSome_iff_exists.mp hsome
    refine ⟨_, ⟨row.scope, ⟨row, hmem, rfl⟩, Option.map_eq_some_iff.mpr ⟨found, hfound, rfl⟩⟩, ?_⟩
    refine mem_map.mpr ⟨row.access, mem_map_of_mem ?_, ?_⟩
    · exact mem_filter.mpr ⟨hmem, by simp⟩
    · rw [getPolicyResource_row rfl]
      rfl

theorem keyMatch2_literal {pattern : String} (h : '*' ∉ pattern.toList) (target : String) :
    keyMatch2 target pattern = true ↔ target = pattern := by
  rw [keyMatch2, globMatch_literal h, String.toList_inj]

theorem keyMatch2_projects {rest : String} (h : '*' ∉ rest.toList) (target : String) :
    keyMatch2 target ("/project/*" ++ rest) = true ↔
      ∃ middle : String, '\n' ∉ middle.toList ∧ target = "/project/" ++ middle ++ rest := by
  have hpattern : ("/project/*" ++ rest).toList =
      "/project".toList ++ '/' :: '*' :: rest.toList := by
    rw [String.toList_append]
    rfl
  have hbefore : '*' ∉ "/project".toList := by decide
  rw [keyMatch2, hpattern, globMatch_star hbefore]
  constructor
  · rintro ⟨middle, suffix, hmiddle, htarget, hsuffix⟩
    obtain rfl := (globMatch_literal h suffix).mp hsuffix
    refine ⟨String.ofList middle, by simpa using hmiddle, ?_⟩
    have hlist : (String.ofList middle).toList = middle := String.toList_ofList
    rw [← String.toList_inj, htarget, String.toList_append, String.toList_append, hlist,
      append_assoc]
    rfl
  · rintro ⟨middle, hmiddle, rfl⟩
    refine ⟨middle.toList, rest.toList, hmiddle, ?_, (globMatch_literal h _).mpr rfl⟩
    rw [String.toList_append, String.toList_append, append_assoc]
    rfl

theorem star_notMem_toString (n : ℕ) : '*' ∉ (toString n).toList := Data.Decimal.notMem_repr rfl n

theorem keyMatch2_row (hvalid : row.Valid) (target : String) :
    keyMatch2 target row.policy.resource = true ↔
      row.scope.Covers row.access.resource target := by
  have hstar : '*' ∉ row.access.resource.toList := hvalid.resource.notMem rfl
  unfold Row.policy
  cases hscope : row.scope with
  | system =>
    rw [if_neg (by simp), keyMatch2_literal (by simp [Scope.text, hstar])]
    rfl
  | project projectID =>
    have hid := star_notMem_toString projectID
    show _ ↔ target = _
    split_ifs with hboth hproject hproject
    · exact keyMatch2_literal (by simpa [Scope.text] using hid) target
    · exact absurd hboth.2 hproject
    · exact absurd ⟨by simp, hproject⟩ hboth
    · exact keyMatch2_literal (by simpa [Scope.text, hstar] using hid) target
  | allProjects =>
    show _ ↔ ∃ middle : String, _ ∧ target = _
    by_cases hproject : row.access.resource = "project"
    · have h := @keyMatch2_projects "" (by decide) target
      simpa [hproject, Scope.text] using h
    · have h := @keyMatch2_projects ("/" ++ row.access.resource) (by simpa using hstar) target
      simp only [hproject, Scope.text, and_false, if_false]
      simpa only [String.append_assoc] using h

theorem applies_row (hvalid : row.Valid) (target action : String) :
    row.policy.applies target action = true ↔ row.Covers target action := by
  have hstar : row.access.action ≠ "*" := by
    intro hstar
    have hplain := hvalid.action
    rw [hstar] at hplain
    exact absurd hplain (by decide)
  rw [Policy.applies, Bool.and_eq_true, keyMatch2_row hvalid]
  simp [Row.policy, Row.Covers, hstar]

/-! ## Namespaces of targets -/

theorem namespace_of_covers_system (h : Scope.system.Covers resource target) :
    namespaceFromResource target = some .system := by
  have hprefix : hasPrefix ("/system/" ++ resource) "/system" = true := by
    rw [hasPrefix, String.toList_append]
    rfl
  obtain rfl : target = "/system/" ++ resource := h
  rw [namespaceFromResource, if_pos hprefix]

theorem namespace_of_covers_project {projectID : ℕ} (hid : projectID < 2 ^ 63)
    (h : (Scope.project projectID).Covers resource target) :
    namespaceFromResource target = some (.project projectID) := by
  change target = _ at h
  split_ifs at h
  · have hbelow := @namespaceFromResource_below projectID "" hid (by simp)
    rwa [String.append_empty, ← h] at hbelow
  · have hbelow := @namespaceFromResource_below projectID ("/" ++ resource) hid (by simp)
    rwa [← String.append_assoc, ← String.append_assoc, ← h] at hbelow

theorem namespace_of_covers_allProjects (h : Scope.allProjects.Covers resource target) :
    namespaceFromResource target ≠ some .system := by
  obtain ⟨middle, -, htarget⟩ := h
  have hproject : ∃ rest, target = "/project/" ++ rest := by
    split_ifs at htarget
    · exact ⟨middle, htarget⟩
    · exact ⟨middle ++ "/" ++ resource, by rw [htarget, String.append_assoc, String.append_assoc,
        String.append_assoc]⟩
  obtain ⟨rest, rfl⟩ := hproject
  rw [namespaceFromResource_project]
  simp

theorem namespace_system_iff {row : Row} (hvalid : row.Valid) {target : String}
    (h : row.scope.Covers row.access.resource target) :
    namespaceFromResource target = some .system ↔ row.scope = .system := by
  cases hscope : row.scope with
  | system =>
    rw [hscope] at h
    simp [namespace_of_covers_system h]
  | allProjects =>
    rw [hscope] at h
    simp [namespace_of_covers_allProjects h]
  | project projectID =>
    rw [hscope] at h
    simp [namespace_of_covers_project (hvalid.projectID projectID hscope).2 h]

/-- A row about a target in an existing project is not for a project that was removed. -/
theorem convertScope_isSome (hvalid : row.Valid) (h : row.scope.Covers row.access.resource target)
    {identity : ℤ} (hns : namespaceFromResource target = some (.project identity))
    {project : Project} (hget : table.get identity = some project) :
    (convertScope table row.scope).isSome = true := by
  cases hscope : row.scope with
  | system | allProjects => rfl
  | project projectID =>
    rw [hscope] at h
    have hown := namespace_of_covers_project (hvalid.projectID projectID hscope).2 h
    rw [hns] at hown
    cases hown
    simp [convertScope, hget]

/-! ## What a robot may do -/

/-- Some row allows the action on the target. -/
def Granted (rows : List Row) (target action : String) : Prop :=
  ∃ row ∈ rows, row.access.getEffect = "allow" ∧ row.Covers target action

/-- Some row denies the action on the target. -/
def Refused (rows : List Row) (target action : String) : Prop :=
  ∃ row ∈ rows, row.access.getEffect = "deny" ∧ row.Covers target action

/-- The action is to pull, and some row is about pushing to the target. -/
def PullImplied (rows : List Row) (target action : String) : Prop :=
  action = "pull" ∧ ∃ row ∈ rows, row.Covers target "push"

/-- The action on the target is one that everybody may do in a public project. -/
def OpenToAll (table : ProjectTable) (target action : String) : Prop :=
  ∃ project ∈ table.projects, project.isPublic = true ∧ ∃ entry ∈ publicProjectPolicies,
    target = projectResource project.projectID entry.1 ∧ action = entry.2

/-- Some row is for all projects or for one that exists. -/
def ReachesProjects (table : ProjectTable) (rows : List Row) : Prop :=
  ∃ row ∈ rows, row.scope ≠ .system ∧ (convertScope table row.scope).isSome = true

/-- What a robot with the rows may do if nothing is refused. -/
def Allowed (table : ProjectTable) (level : Level) (rows : List Row) (target action : String) :
    Prop :=
  Granted rows target action ∨ level = .project ∧ PullImplied rows target action ∨
    (level = .project ∨ ReachesProjects table rows) ∧ OpenToAll table target action

/-- The target belongs to the system or to an existing project. -/
def Known (table : ProjectTable) (target : String) : Prop :=
  match namespaceFromResource target with
  | none => False
  | some .system => True
  | some (.project identity) => (table.get identity).isSome = true

section

variable {table : ProjectTable} {account : Account} {row : Row} {target : String} {policy : Policy}
  {rows : List Row} {Selected : Row → Prop} {action : String}

theorem row_policy_of_system (hscope : row.scope = .system) :
    hasPrefix row.policy.resource "/system" = true := by
  rw [Row.policy, if_neg (by simp [hscope]), hscope, hasPrefix, Scope.text, String.toList_append,
    String.toList_append]
  rfl

theorem row_policy_of_project (hscope : row.scope ≠ .system) :
    ∃ rest, row.policy.resource = "/project/" ++ rest := by
  have htext : ∃ rest, row.scope.text = "/project/" ++ rest := by
    cases h : row.scope with
    | system => exact absurd h hscope
    | allProjects => exact ⟨"*", rfl⟩
    | project projectID => exact ⟨toString projectID, rfl⟩
  obtain ⟨rest, hrest⟩ := htext
  unfold Row.policy
  split_ifs
  · exact ⟨rest, hrest⟩
  · exact ⟨rest ++ "/" ++ row.access.resource, by
      rw [hrest, String.append_assoc, String.append_assoc, String.append_assoc]⟩

theorem mem_sysPolicies :
    policy ∈ (account.populate table).sysPolicies ↔
      ∃ row ∈ account.rows, row.scope = .system ∧ policy = row.policy := by
  rw [sysPolicies, mem_filter, mem_populate_accesses]
  constructor
  · rintro ⟨⟨row, hrow, -, rfl⟩, hprefix⟩
    refine ⟨row, hrow, ?_, rfl⟩
    by_contra hscope
    obtain ⟨rest, hrest⟩ := row_policy_of_project hscope
    rw [hrest, hasPrefix_system_project] at hprefix
    cases hprefix
  · rintro ⟨row, hrow, hscope, rfl⟩
    exact ⟨⟨row, hrow, by simp [hscope, convertScope], rfl⟩, row_policy_of_system hscope⟩

theorem mem_proPolicies :
    policy ∈ (account.populate table).proPolicies ↔ ∃ row ∈ account.rows,
      (row.scope ≠ .system ∧ (convertScope table row.scope).isSome = true) ∧
        policy = row.policy := by
  rw [proPolicies, mem_filter, mem_populate_accesses]
  constructor
  · rintro ⟨⟨row, hrow, hsome, rfl⟩, hprefix⟩
    refine ⟨row, hrow, ⟨fun hscope => ?_, hsome⟩, rfl⟩
    simp [row_policy_of_system hscope] at hprefix
  · rintro ⟨row, hrow, ⟨hscope, hsome⟩, rfl⟩
    obtain ⟨rest, hrest⟩ := row_policy_of_project hscope
    have hproject : hasPrefix ("/project/" ++ rest) "/project" = true := by
      rw [hasPrefix, String.toList_append]
      rfl
    refine ⟨⟨row, hrow, hsome, rfl⟩, ?_⟩
    rw [hrest, hasPrefix_system_project, hproject]
    rfl

/-- Policies that come from rows apply where the rows are about the target. -/
theorem exists_applies_iff (hrows : ∀ row ∈ rows, row.Valid) {policies : List Policy}
    (hmem : ∀ policy, policy ∈ policies ↔ ∃ row ∈ rows, Selected row ∧ policy = row.policy)
    (target action effect : String) :
    (∃ policy ∈ policies, policy.applies target action = true ∧ policy.getEffect = effect) ↔
      ∃ row ∈ rows, Selected row ∧ row.access.getEffect = effect ∧ row.Covers target action := by
  constructor
  · rintro ⟨policy, hpolicy, happlies, heffect⟩
    obtain ⟨row, hrow, hselected, rfl⟩ := (hmem policy).mp hpolicy
    exact ⟨row, hrow, hselected, heffect, (applies_row (hrows row hrow) target action).mp happlies⟩
  · rintro ⟨row, hrow, hselected, heffect, hcovers⟩
    exact ⟨row.policy, (hmem _).mpr ⟨row, hrow, hselected, rfl⟩,
      (applies_row (hrows row hrow) target action).mpr hcovers, heffect⟩

/-- Among the rows about targets of the kind in question, all are selected. -/
theorem exists_selected_iff (hselected : ∀ row ∈ rows, row.Covers target action → Selected row)
    (effect : String) :
    (∃ row ∈ rows, Selected row ∧ row.access.getEffect = effect ∧ row.Covers target action) ↔
      ∃ row ∈ rows, row.access.getEffect = effect ∧ row.Covers target action :=
  exists_congr fun row => and_congr_right fun hrow =>
    ⟨fun h => h.2, fun h => ⟨hselected row hrow h.2, h⟩⟩

theorem Account.can_system (hvalid : account.Valid)
    (hns : namespaceFromResource target = some .system) (action : String) :
    account.can table action target = true ↔ account.name ≠ "" ∧ account.level = .system ∧
      Granted account.rows target action ∧ ¬Refused account.rows target action := by
  have happlies := exists_applies_iff hvalid.rows
    (fun policy => @mem_sysPolicies table account policy) target action
  have hselected : ∀ row ∈ account.rows, row.Covers target action → row.scope = .system :=
    fun row hrow hcovers => (namespace_system_iff (hvalid.rows row hrow) hcovers.1).mp hns
  rw [Account.can, can_new]
  simp only [permits, hns, Bool.and_eq_true, beq_iff_eq, RbacUser.enforce_iff, ne_eq,
    ← Bool.not_eq_true, allows_iff, denies_iff, happlies, exists_selected_iff hselected]
  exact and_left_comm

theorem target_of_covers_project {projectID : ℕ} (hscope : row.scope = .project projectID)
    (h : row.scope.Covers row.access.resource target) : target = row.policy.resource := by
  rw [hscope] at h
  rw [h, Row.policy]
  simp [hscope, Scope.text]

theorem mem_filter_accesses {project : Project} {kept : Policy} :
    kept ∈ filterRobotPolicies project (account.populate table).accesses ↔ ∃ row ∈ account.rows,
      ((convertScope table row.scope).isSome = true ∧
        resourceAllowedInProject row.policy.resource project = true) ∧
      (kept = row.policy ∨ row.access.action = "push" ∧
        kept = { resource := row.policy.resource, action := "pull" }) := by
  simp only [mem_filterRobotPolicies, mem_populate_accesses]
  constructor
  · rintro ⟨policy, ⟨row, hrow, hsome, rfl⟩, hallowed, hkept⟩
    exact ⟨row, hrow, ⟨hsome, hallowed⟩, hkept⟩
  · rintro ⟨row, hrow, ⟨hsome, hallowed⟩, hkept⟩
    exact ⟨row.policy, ⟨row, hrow, hsome, rfl⟩, hallowed, hkept⟩

theorem applies_implied (hvalid : row.Valid) (target action : String) :
    Policy.applies { resource := row.policy.resource, action := "pull" } target action = true ↔
      row.scope.Covers row.access.resource target ∧ action = "pull" := by
  rw [Policy.applies, Bool.and_eq_true, keyMatch2_row hvalid]
  simp

section

variable {identity : ℤ} {project : Project} {target : String}

theorem applies_public {projectID : ℕ} {entry : String × String}
    (hentry : entry ∈ publicProjectPolicies) (target action : String) :
    Policy.applies { resource := projectResource projectID entry.1, action := entry.2 } target
        action = true ↔
      target = projectResource projectID entry.1 ∧ action = entry.2 := by
  have hplain : ∀ entry ∈ publicProjectPolicies, '*' ∉ entry.1.toList ∧ entry.2 ≠ "*" := by decide
  obtain ⟨hresource, haction⟩ := hplain entry hentry
  have hid := star_notMem_toString projectID
  have hstar : '*' ∉ (projectResource projectID entry.1).toList := by
    unfold projectResource
    split_ifs
    · simpa using hid
    · simpa [hresource] using hid
  rw [Policy.applies, Bool.and_eq_true, keyMatch2_literal hstar]
  simp [haction]

theorem allows_publicPolicies (hns : namespaceFromResource target = some (.project identity))
    (hget : table.get identity = some project) (action : String) :
    allows project.publicPolicies target action = true ↔ OpenToAll table target action := by
  obtain ⟨hmem, hid⟩ := ProjectTable.mem_of_get hget
  rw [allows_iff, Project.publicPolicies]
  constructor
  · split_ifs with hpublic
    · rintro ⟨policy, hpolicy, happlies, -⟩
      obtain ⟨entry, hentry, rfl⟩ := mem_map.mp hpolicy
      exact ⟨project, hmem, hpublic, entry, hentry,
        (applies_public hentry target action).mp happlies⟩
    · rintro ⟨policy, hpolicy, -⟩
      cases hpolicy
  · rintro ⟨other, hother, hpublic, entry, hentry, htarget, haction⟩
    -- the target belongs to one project only
    obtain rfl : other = project := by
      have hown := namespaceFromResource_projectResource (table.id_range other hother).2 entry.1
      rw [← htarget, hns] at hown
      cases hown
      rw [ProjectTable.get_eq_some.mpr hother] at hget
      exact Option.some.inj hget
    rw [if_pos hpublic]
    exact ⟨_, mem_map_of_mem hentry,
      (applies_public hentry target action).mpr ⟨htarget, haction⟩, rfl⟩

theorem denies_publicPolicies (project : Project) (target action : String) :
    denies project.publicPolicies target action = false := by
  rw [← Bool.not_eq_true, denies_iff, Project.publicPolicies]
  split_ifs
  · rintro ⟨policy, hpolicy, -, heffect⟩
    obtain ⟨entry, -, rfl⟩ := mem_map.mp hpolicy
    simp [Policy.getEffect] at heffect
  · rintro ⟨policy, hpolicy, -⟩
    cases hpolicy

theorem allows_append (first second : List Policy) (target action : String) :
    allows (first ++ second) target action =
      (allows first target action || allows second target action) :=
  any_append

theorem denies_append (first second : List Policy) (target action : String) :
    denies (first ++ second) target action =
      (denies first target action || denies second target action) :=
  any_append

theorem asksProjects_iff : (account.populate table).asksProjects ↔
    account.level = .project ∨ ReachesProjects table account.rows := by
  refine or_congr_right ⟨fun hne => ?_, ?_⟩
  · obtain ⟨policy, hpolicy⟩ := exists_mem_of_ne_nil _ hne
    obtain ⟨row, hrow, hselected, -⟩ := mem_proPolicies.mp hpolicy
    exact ⟨row, hrow, hselected⟩
  · rintro ⟨row, hrow, hselected⟩
    exact ne_nil_of_mem (mem_proPolicies.mpr ⟨row, hrow, hselected, rfl⟩)

variable (hvalid : account.Valid) (hns : namespaceFromResource target = some (.project identity))
    (hget : table.get identity = some project)
include hvalid hns hget

theorem reaches_of_covers {row : Row} (hrow : row ∈ account.rows)
    (hcovers : row.scope.Covers row.access.resource target) :
    row.scope ≠ .system ∧ (convertScope table row.scope).isSome = true := by
  refine ⟨fun hscope => ?_, convertScope_isSome (hvalid.rows row hrow) hcovers hns hget⟩
  have hsystem := (namespace_system_iff (hvalid.rows row hrow) hcovers).mpr hscope
  simp [hns] at hsystem

theorem selected_of_covers (hlevel : account.level = .project) {row : Row}
    (hrow : row ∈ account.rows) (hcovers : row.scope.Covers row.access.resource target) :
    (convertScope table row.scope).isSome = true ∧
      resourceAllowedInProject row.policy.resource project = true := by
  have hid : account.projectID ≠ 0 := by
    intro hzero
    simp [Account.level, hzero] at hlevel
  have hscope := hvalid.own hid row hrow
  refine ⟨convertScope_isSome (hvalid.rows row hrow) hcovers hns hget, ?_⟩
  rw [← target_of_covers_project hscope hcovers, resourceAllowedInProject, hns,
    (ProjectTable.mem_of_get hget).2]
  simp

theorem filter_iff (hlevel : account.level = .project) (action effect : String) :
    (∃ kept ∈ filterRobotPolicies project (account.populate table).accesses,
        kept.applies target action = true ∧ kept.getEffect = effect) ↔
      (∃ row ∈ account.rows, row.access.getEffect = effect ∧ row.Covers target action) ∨
        effect = "allow" ∧ PullImplied account.rows target action := by
  constructor
  · rintro ⟨kept, hkept, happlies, heffect⟩
    obtain ⟨row, hrow, -, rfl | ⟨hpush, rfl⟩⟩ := mem_filter_accesses.mp hkept
    · exact .inl ⟨row, hrow, heffect,
        (applies_row (hvalid.rows row hrow) target action).mp happlies⟩
    · obtain ⟨hcovers, hpull⟩ := (applies_implied (hvalid.rows row hrow) target action).mp happlies
      exact .inr ⟨heffect.symm, hpull, row, hrow, hcovers, hpush.symm⟩
  · rintro (⟨row, hrow, heffect, hcovers⟩ | ⟨rfl, hpull, row, hrow, hcovers, hpush⟩)
    · have hselected := selected_of_covers hvalid hns hget hlevel hrow hcovers.1
      exact ⟨row.policy, mem_filter_accesses.mpr ⟨row, hrow, hselected, .inl rfl⟩,
        (applies_row (hvalid.rows row hrow) target action).mpr hcovers, heffect⟩
    · have hselected := selected_of_covers hvalid hns hget hlevel hrow hcovers
      exact ⟨_, mem_filter_accesses.mpr ⟨row, hrow, hselected, .inr ⟨hpush.symm, rfl⟩⟩,
        (applies_implied (hvalid.rows row hrow) target action).mpr ⟨hcovers, hpull⟩, rfl⟩

theorem proPolicies_iff (action effect : String) :
    (∃ policy ∈ (account.populate table).proPolicies,
        policy.applies target action = true ∧ policy.getEffect = effect) ↔
      ∃ row ∈ account.rows, row.access.getEffect = effect ∧ row.Covers target action := by
  rw [exists_applies_iff hvalid.rows (fun policy => @mem_proPolicies table account policy),
    exists_selected_iff]
  exact fun row hrow hcovers => reaches_of_covers hvalid hns hget hrow hcovers.1

/-- The policies from which the evaluator of a project is built. -/
theorem projectPolicies_iff (action effect : String) :
    (∃ policy ∈ ProjectEvaluator.filterPolicies (account.populate table).filtered project
        (account.populate table).projectPolicies,
        policy.applies target action = true ∧ policy.getEffect = effect) ↔
      (∃ row ∈ account.rows, row.access.getEffect = effect ∧ row.Covers target action) ∨
        effect = "allow" ∧ account.level = .project ∧ PullImplied account.rows target action := by
  rw [filtered, projectPolicies, show (account.populate table).level = account.level from rfl]
  cases hlevel : account.level with
  | system => exact (proPolicies_iff hvalid hns hget action effect).trans (by simp)
  | project => exact (filter_iff hvalid hns hget hlevel action effect).trans (by simp)

theorem allows_projectPolicies (action : String) :
    allows (ProjectEvaluator.filterPolicies (account.populate table).filtered project
        (account.populate table).projectPolicies) target action = true ↔
      Granted account.rows target action ∨
        account.level = .project ∧ PullImplied account.rows target action :=
  allows_iff.trans ((projectPolicies_iff hvalid hns hget action _).trans (by simp [Granted]))

theorem denies_projectPolicies (action : String) :
    denies (ProjectEvaluator.filterPolicies (account.populate table).filtered project
        (account.populate table).projectPolicies) target action = true ↔
      Refused account.rows target action :=
  denies_iff.trans ((projectPolicies_iff hvalid hns hget action _).trans (by simp [Refused]))

theorem Account.can_project (action : String) :
    account.can table action target = true ↔ account.name ≠ "" ∧
      Allowed table account.level account.rows target action ∧
      ¬Refused account.rows target action := by
  rw [Account.can, can_new]
  simp only [permits, hns, hget, Option.any_some, Bool.and_eq_true, decide_eq_true_eq,
    RbacUser.enforce_iff, projectUser, ProjectEvaluator.userOf, allows_append, denies_append,
    denies_publicPolicies, Bool.or_false, Bool.or_eq_true, allows_publicPolicies hns hget,
    ← Bool.not_eq_true, allows_projectPolicies hvalid hns hget,
    denies_projectPolicies hvalid hns hget, asksProjects_iff]
  have hreaches : Granted account.rows target action → ReachesProjects table account.rows := by
    rintro ⟨row, hrow, -, hcovers⟩
    exact ⟨row, hrow, reaches_of_covers hvalid hns hget hrow hcovers.1⟩
  constructor
  · rintro ⟨hasks, hname, hallowed, hrefused⟩
    refine ⟨hname, ?_, hrefused⟩
    rcases hallowed with (hgranted | himplied) | hopen
    · exact .inl hgranted
    · exact .inr (.inl himplied)
    · exact .inr (.inr ⟨hasks, hopen⟩)
  · rintro ⟨hname, hgranted | himplied | ⟨hasks, hopen⟩, hrefused⟩
    · exact ⟨.inr (hreaches hgranted), hname, .inl (.inl hgranted), hrefused⟩
    · exact ⟨.inl himplied.1, hname, .inl (.inr himplied), hrefused⟩
    · exact ⟨hasks, hname, .inr hopen, hrefused⟩

end

theorem not_openToAll_of_system (hns : namespaceFromResource target = some .system)
    (action : String) : ¬OpenToAll table target action := by
  rintro ⟨project, hmem, -, entry, -, rfl, -⟩
  rw [namespaceFromResource_projectResource (table.id_range project hmem).2] at hns
  cases hns

/-- Project-level robots are allowed nothing in the system. -/
theorem Account.level_of_allowed (hvalid : account.Valid)
    (hns : namespaceFromResource target = some .system)
    (hallowed : Allowed table account.level account.rows target action) :
    account.level = .system := by
  by_contra hlevel
  have hid : account.projectID ≠ 0 := by
    intro hzero
    simp [Account.level, hzero] at hlevel
  have hnone : ∀ row ∈ account.rows, ¬row.scope.Covers row.access.resource target := by
    intro row hrow hcovers
    have hsystem := (namespace_system_iff (hvalid.rows row hrow) hcovers).mp hns
    rw [hvalid.own hid row hrow] at hsystem
    cases hsystem
  rcases hallowed with ⟨row, hrow, -, hcovers⟩ | ⟨-, -, row, hrow, hcovers⟩ | ⟨-, hopen⟩
  · exact hnone row hrow hcovers.1
  · exact hnone row hrow hcovers.1
  · exact not_openToAll_of_system hns action hopen

/-- **What a robot may do**, in terms of its rows. -/
theorem Account.can_iff (hvalid : account.Valid) (action target : String) :
    account.can table action target = true ↔ account.name ≠ "" ∧ Known table target ∧
      Allowed table account.level account.rows target action ∧
      ¬Refused account.rows target action := by
  unfold Known
  cases hns : namespaceFromResource target with
  | none =>
    rw [Account.can, can_new]
    simp [permits, hns]
  | some ns =>
    cases ns with
    | system =>
      rw [Account.can_system hvalid hns]
      constructor
      · rintro ⟨hname, hlevel, hgranted, hrefused⟩
        exact ⟨hname, trivial, .inl hgranted, hrefused⟩
      · rintro ⟨hname, -, hallowed, hrefused⟩
        have hlevel := Account.level_of_allowed hvalid hns hallowed
        refine ⟨hname, hlevel, ?_, hrefused⟩
        rcases hallowed with hgranted | ⟨hproject, -⟩ | ⟨-, hopen⟩
        · exact hgranted
        · rw [hlevel] at hproject
          cases hproject
        · exact absurd hopen (not_openToAll_of_system hns action)
    | project identity =>
      cases hget : table.get identity with
      | none =>
        rw [Account.can, can_new]
        simp [permits, hns, hget]
      | some project =>
        rw [Account.can_project hvalid hns hget]
        simp [hget]

end

end Harbor.Robots
