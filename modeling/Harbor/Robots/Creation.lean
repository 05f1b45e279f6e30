import Harbor.Data.Split
import Harbor.Robots.Api

/-!
# Robots created by robots

A robot may create another one if its own permissions, compared entry by entry, include the
requested ones.  Entries are compared with their effects, but not all of the creator's
entries have to be requested: what the creator is denied by an entry of its own, the new
robot may do when the request leaves that entry out.  And a project-level robot that pushes
may also pull, which a system-level creator with the same entry may not.

These are the only two ways in which the new robot can be stronger.
-/

namespace Harbor.Robots

open Rbac Data.Checks Data.Decimal Data.Split List Option ProjectTable

/-! ## Comparing permissions -/

section Keys

theorem scopeKey_inj {kind ns kind' ns' : String} (hkind : ':' ∉ kind.toList)
    (hkind' : ':' ∉ kind'.toList) (h : scopeKey kind ns = scopeKey kind' ns') :
    kind = kind' ∧ ns = ns' := by
  have hlist : kind.toList ++ ':' :: ns.toList = kind'.toList ++ ':' :: ns'.toList := by
    have htext := congrArg String.toList h
    simpa [scopeKey] using htext
  have hcut := congrArg (cut ':') hlist
  rw [cut_append hkind, cut_append hkind', some.injEq, Prod.mk.injEq] at hcut
  exact ⟨String.toList_inj.mp hcut.1, String.toList_inj.mp hcut.2⟩

theorem accessKey_inj {first second : Policy} (hfirst : Plain first.resource ∧ Plain first.action)
    (hsecond : Plain second.resource ∧ Plain second.action)
    (h : accessKey first = accessKey second) : first = second := by
  have hkey : ∀ policy : Policy, accessKey policy =
      scopeKey policy.resource (scopeKey policy.action policy.effect) := by
    intro policy
    simp only [accessKey, scopeKey, String.append_assoc]
  rw [hkey, hkey] at h
  obtain ⟨hresource, hrest⟩ := scopeKey_inj (hfirst.1.notMem rfl) (hsecond.1.notMem rfl) h
  obtain ⟨haction, heffect⟩ := scopeKey_inj (hfirst.2.notMem rfl) (hsecond.2.notMem rfl) hrest
  cases first
  cases second
  simp_all

end Keys

variable {table : ProjectTable} {rows : List Row} {scope : Scope} {perm : RobotPermission}
  {creator : Account} {permissions : List RobotPermission} {level : String} {kind : String}
  {stored : Scope} {target : String} {found : Permission} {access : Policy} {action : String}
  {created : Account} {params : RobotCreate}

theorem mem_populatePermissions {perm : Permission} (h : perm ∈ populatePermissions table rows) :
    ∃ scope, convertScope table scope = some (perm.kind, perm.ns) ∧
      ∀ access ∈ perm.access, Row.mk scope access ∈ rows := by
  obtain ⟨scope, -, hscope⟩ := mem_filterMap.mp h
  obtain ⟨found, hfound, rfl⟩ := map_eq_some_iff.mp hscope
  refine ⟨scope, hfound, fun access haccess => ?_⟩
  obtain ⟨row, hrow, rfl⟩ := mem_map.mp haccess
  obtain ⟨hmem, hsame⟩ := mem_filter.mp hrow
  obtain rfl : row.scope = scope := by simpa using hsame
  exact hmem

theorem kind_of_convertScope {ns : String} (h : convertScope table scope = some (kind, ns)) :
    ':' ∉ kind.toList := by
  have hkind : kind = "system" ∨ kind = "project" := by
    cases scope with
    | system => cases h; exact .inl rfl
    | allProjects => cases h; exact .inr rfl
    | project projectID =>
      obtain ⟨project, -, heq⟩ := map_eq_some_iff.mp h
      cases heq
      exact .inr rfl
  rcases hkind with rfl | rfl <;> decide

theorem kind_of_toScope (h : toScope table perm = .ok scope) : ':' ∉ perm.kind.toList := by
  unfold toScope at h
  split_ifs at h with hsystem _ hproject
  · rw [hsystem]; decide
  all_goals (rw [hproject]; decide)

/-- A stored scope can be asked for by its kind and namespace. -/
theorem toScope_of_convertScope (hstored : convertScope table stored = some (perm.kind, perm.ns)) :
    toScope table perm = .ok stored := by
  cases stored with
  | system | allProjects =>
    obtain ⟨hkind, hns⟩ := Prod.mk.inj (some.inj hstored)
    simp [toScope, ← hkind, ← hns]
  | project projectID =>
    obtain ⟨project, hget, heq⟩ := map_eq_some_iff.mp hstored
    obtain ⟨hkind, hns⟩ := Prod.mk.inj heq
    obtain ⟨hmem, hid⟩ := mem_of_get hget
    have hstar : project.name ≠ "*" := by
      intro hstar
      have hvalid := table.name_valid project hmem
      rw [hstar] at hvalid
      cases hvalid
    have hsame : project.projectID = projectID := by omega
    rw [toScope, ← hkind, ← hns, if_neg (by decide), if_pos rfl, if_neg hstar,
      getNamed_eq_ok hmem, ← hsame]

/-- The only stored scope with the namespace `*` is that of all projects. -/
theorem convertScope_star (hstored : convertScope table stored = some (kind, "*")) :
    stored = .allProjects ∧ kind = "project" := by
  cases stored with
  | system => simp [convertScope] at hstored
  | allProjects => exact ⟨rfl, (Prod.mk.inj (some.inj hstored)).1.symm⟩
  | project projectID =>
    obtain ⟨project, hget, heq⟩ := map_eq_some_iff.mp hstored
    have hvalid := table.name_valid project (mem_of_get hget).1
    rw [(Prod.mk.inj heq).2] at hvalid
    cases hvalid

/-- Everything in the second scope is also in the first. -/
def Scope.Includes (outer inner : Scope) : Prop :=
  outer = inner ∨ outer = .allProjects ∧ inner ≠ .system

theorem Scope.Includes.covers {outer inner : Scope} (h : outer.Includes inner) {resource : String}
    (hcovers : inner.Covers resource target) : outer.Covers resource target := by
  rcases h with rfl | ⟨rfl, hinner⟩
  · exact hcovers
  · cases inner with
    | system => exact absurd rfl hinner
    | allProjects => exact hcovers
    | project projectID =>
      exact ⟨toString projectID, notMem_repr rfl projectID, hcovers⟩

theorem mem_of_permissionFor {creator : List Permission} {key : String}
    (h : permissionFor creator key = some found) :
    found ∈ creator ∧ scopeKey found.kind found.ns = key := by
  have hkey := find?_some h
  exact ⟨mem_reverse.mp (mem_of_find?_eq_some h), beq_iff_eq.mp hkey⟩

/-- The permission with which a requested one is compared is in a scope that includes it. -/
theorem scope_of_permissionFor (hscope : toScope table perm = .ok scope)
    (hfound : (permissionFor (populatePermissions table rows) (scopeKey perm.kind perm.ns)).or
      (permissionFor (populatePermissions table rows) (scopeKey perm.kind "*")) = some found) :
    ∃ stored, stored.Includes scope ∧ (convertScope table stored).isSome = true ∧
      ∀ access ∈ found.access, Row.mk stored access ∈ rows := by
  have hkind := kind_of_toScope hscope
  rcases or_eq_some_iff.mp hfound with hsame | ⟨-, hall⟩
  · obtain ⟨hmem, hkey⟩ := mem_of_permissionFor hsame
    obtain ⟨stored, hstored, hrows⟩ := mem_populatePermissions hmem
    obtain ⟨hkinds, hns⟩ := scopeKey_inj (kind_of_convertScope hstored) hkind hkey
    have hsame : toScope table perm = .ok stored :=
      toScope_of_convertScope (by rw [hstored, hkinds, hns])
    exact ⟨stored, .inl (Except.ok.inj (hsame.symm.trans hscope)), by simp [hstored], hrows⟩
  · obtain ⟨hmem, hkey⟩ := mem_of_permissionFor hall
    obtain ⟨stored, hstored, hrows⟩ := mem_populatePermissions hmem
    obtain ⟨hkinds, hns⟩ := scopeKey_inj (kind_of_convertScope hstored) hkind hkey
    have hsome : (convertScope table stored).isSome = true := by simp [hstored]
    rw [hns] at hstored
    obtain ⟨rfl, hproject⟩ := convertScope_star hstored
    refine ⟨.allProjects, .inr ⟨rfl, ?_⟩, hsome, hrows⟩
    rintro rfl
    -- a permission for the system is of another kind
    rw [toScope, ← hkinds, hproject, if_neg (by decide), if_pos rfl] at hscope
    split_ifs at hscope
    · cases hscope
    · split at hscope <;> cases hscope

/-- What a comparison of permissions says about one requested access entry. -/
theorem row_of_isValidPermissionScope (hvalid : creator.Valid) {creating : List RobotPermission}
    (hscopes : isValidPermissionScope creating (creator.populate table).permissions = true)
    (hperm : perm ∈ creating) (hscope : toScope table perm = .ok scope)
    (haccess : access ∈ perm.access) (hplain : Plain access.resource ∧ Plain access.action) :
    ∃ row ∈ creator.rows, row.access = access ∧ row.scope.Includes scope ∧
      (convertScope table row.scope).isSome = true := by
  have hany := all_eq_true.mp hscopes perm hperm
  obtain ⟨found, hfound, hless⟩ := (any_eq_true _ _).mp hany
  obtain ⟨stored, hincludes, hsome, hrows⟩ := scope_of_permissionFor hscope hfound
  obtain ⟨other, hother, hkey⟩ := any_eq_true.mp (all_eq_true.mp hless access haccess)
  have hrow := hrows other hother
  have hstored := hvalid.rows _ hrow
  obtain rfl := accessKey_inj ⟨hstored.resource, hstored.action⟩ hplain (beq_iff_eq.mp hkey)
  exact ⟨_, hrow, rfl, hincludes, hsome⟩

/-! ## Accepted requests -/

/-- The rows of a list of permissions. -/
def requestedRows (table : ProjectTable) (permissions : List RobotPermission) : List Row :=
  permissions.flatMap fun perm =>
    match toScope table perm with
    | .ok scope => perm.access.map (Row.mk scope)
    | .error _ => []

theorem createPermission_eq_ok (h : createPermission table permissions = .ok rows) :
    rows = requestedRows table permissions ∧
      ∀ perm ∈ permissions, ∃ scope, toScope table perm = .ok scope := by
  induction permissions generalizing rows with
  | nil =>
    cases h
    exact ⟨rfl, by simp⟩
  | cons perm rest ih =>
    rw [createPermission, bind_eq_ok] at h
    obtain ⟨scope, hscope, h⟩ := h
    obtain ⟨more, hmore, h⟩ := bind_eq_ok.mp h
    obtain ⟨rfl, hrest⟩ := ih hmore
    cases h
    refine ⟨?_, forall_mem_cons.mpr ⟨⟨scope, hscope⟩, hrest⟩⟩
    simp [requestedRows, hscope]

theorem mem_requestedRows {row : Row} :
    row ∈ requestedRows table permissions ↔ ∃ perm ∈ permissions,
      toScope table perm = .ok row.scope ∧ row.access ∈ perm.access := by
  rw [requestedRows, mem_flatMap]
  refine exists_congr fun perm => and_congr_right fun _ => ?_
  cases hscope : toScope table perm with
  | error e => simp
  | ok scope =>
    constructor
    · intro hrow
      obtain ⟨access, haccess, rfl⟩ := mem_map.mp hrow
      exact ⟨rfl, haccess⟩
    · rintro ⟨heq, haccess⟩
      cases heq
      exact mem_map_of_mem haccess

/-- A plain text that is not empty. -/
def Named (text : String) : Prop := text ≠ "" ∧ Plain text

instance (text : String) : Decidable (Named text) := inferInstanceAs (Decidable (_ ∧ _))

theorem named_of_validateAccess (h : validateAccess perm = .ok ()) {access : Policy}
    (haccess : access ∈ perm.access) : Named access.resource ∧ Named access.action := by
  have hlists : ∀ entry ∈ systemPermissions ++ projectPermissions,
      Named entry.1 ∧ ∀ action ∈ entry.2, Named action := by decide +kernel
  have hcontained : ∀ policies ⊆ systemPermissions ++ projectPermissions,
      containsAccess policies access = true → Named access.resource ∧ Named access.action := by
    intro policies hsub hcontains
    obtain ⟨entry, hentry, hmatch⟩ := any_eq_true.mp hcontains
    obtain ⟨hresource, haction⟩ := Bool.and_eq_true_iff.mp hmatch
    rw [← beq_iff_eq.mp hresource]
    obtain ⟨hname, hactions⟩ := hlists entry (hsub hentry)
    exact ⟨hname, hactions _ (contains_iff_mem.mp haction)⟩
  unfold validateAccess at h
  split_ifs at h
  · exact hcontained systemPermissions (subset_append_left _ _)
      (require_eq_ok.mp (checkAll_eq_ok.mp h access haccess))
  · exact hcontained projectPermissions (subset_append_right _ _)
      (require_eq_ok.mp (checkAll_eq_ok.mp h access haccess))

/-- What the validation of a request makes sure of. -/
structure Validated (level : String) (permissions : List RobotPermission) : Prop where
  knownLevel : level = "system" ∨ level = "project"
  nonempty : permissions ≠ []
  access : ∀ perm ∈ permissions, perm.access ≠ []
  named : ∀ perm ∈ permissions, ∀ access ∈ perm.access,
    Named access.resource ∧ Named access.action
  single : level = "project" → ∃ perm, permissions = [perm]

theorem validate_eq_ok {d : ℤ} (h : validate d level permissions = .ok ()) :
    Validated level permissions := by
  obtain ⟨-, h⟩ := require_bind_eq_ok.mp h
  obtain ⟨hlevel, h⟩ := require_bind_eq_ok.mp h
  obtain ⟨hnonempty, h⟩ := require_bind_eq_ok.mp h
  obtain ⟨_, haccess, h⟩ := bind_eq_ok.mp h
  obtain ⟨hsingle, h⟩ := require_bind_eq_ok.mp h
  have hne : permissions ≠ [] := by simpa using hnonempty
  refine ⟨by simpa [isValidLevel] using hlevel, hne, fun perm hperm => ?_,
    fun perm hperm access => named_of_validateAccess (checkAll_eq_ok.mp h perm hperm), ?_⟩
  · simpa [require_eq_ok] using checkAll_eq_ok.mp haccess perm hperm
  · rintro rfl
    have hlength : permissions.length ≤ 1 := by simpa using hsingle
    exact length_eq_one_iff.mp (Nat.le_antisymm hlength (length_pos_iff.mpr hne))

theorem requestedRows_valid (hnamed : ∀ perm ∈ permissions, ∀ access ∈ perm.access,
      Named access.resource ∧ Named access.action) :
    ∀ row ∈ requestedRows table permissions, row.Valid := by
  intro row hrow
  obtain ⟨perm, hperm, hscope, haccess⟩ := mem_requestedRows.mp hrow
  obtain ⟨hresource, haction⟩ := hnamed perm hperm row.access haccess
  refine ⟨hresource.2, haction.2, fun projectID hproject => ?_⟩
  rw [hproject, toScope] at hscope
  split_ifs at hscope
  · cases hscope
  · cases hscope
  · split at hscope
    · rename_i project hget
      cases hscope
      exact table.id_range project (mem_of_getNamed hget).1
    · cases hscope

theorem toScope_of_getNamed {project : Project} (hget : table.getNamed perm.ns = .ok project)
    (hscope : toScope table perm = .ok scope) : scope = .project project.projectID := by
  obtain ⟨hmem, hname⟩ := mem_of_getNamed hget
  have hvalid := table.name_valid project hmem
  rw [hname] at hvalid
  unfold toScope at hscope
  split_ifs at hscope with _ hslash _ hstar
  · rw [hslash] at hvalid
    cases hvalid
  · rw [hstar] at hvalid
    cases hvalid
  · rw [hget] at hscope
    exact (Except.ok.inj hscope).symm

/-- What is known of a robot when its creation was accepted. -/
structure Created (table : ProjectTable) (creator : Account) (params : RobotCreate)
    (created : Account) : Prop where
  validated : Validated params.level params.permissions
  creatorNamed : creator.name ≠ ""
  compared : isValidPermissionScope params.permissions (creator.populate table).permissions = true
  resolved : ∀ perm ∈ params.permissions, ∃ scope, toScope table perm = .ok scope
  named : created.name ≠ ""
  rows : created.rows = (requestedRows table params.permissions).dedup
  systemLevel : params.level ≠ "project" → created.projectID = 0
  projectLevel : params.level = "project" → created.projectID ≠ 0 ∧
    ∀ row ∈ created.rows, row.scope = .project created.projectID

theorem name_of_requireAccess {caller : Account} (hvalid : caller.Valid) {name : String}
    (h : requireAccess table caller level name action = .ok ()) : caller.name ≠ "" := by
  have hcan : ∃ target, caller.can table action target = true := by
    unfold requireAccess at h
    split_ifs at h
    · exact ⟨_, require_eq_ok.mp h⟩
    · obtain ⟨projectID, -, h⟩ := bind_eq_ok.mp h
      exact ⟨_, require_eq_ok.mp h⟩
  obtain ⟨target, hcan⟩ := hcan
  exact ((Account.can_iff hvalid action target).mp hcan).1

theorem setProject_eq_ok {projectName : String} {projectID : ℕ}
    (h : setProject table level permissions = .ok (projectName, projectID)) :
    (level ≠ "project" → projectID = 0) ∧
      (level = "project" → ∃ project ∈ table.projects, projectID = project.projectID ∧
        table.getNamed (firstNamespace permissions) = .ok project) := by
  unfold setProject at h
  split_ifs at h with hlevel
  · refine ⟨fun hne => absurd hlevel hne, fun _ => ?_⟩
    split at h
    · rename_i project hget
      cases h
      exact ⟨project, (mem_of_getNamed hget).1, rfl, hget⟩
    · cases h
  · cases h
    exact ⟨fun _ => rfl, fun hproject => absurd hproject hlevel⟩

theorem createRobot_eq_ok {robotPrefix : String} (hvalid : creator.Valid)
    (h : createRobot table robotPrefix creator params = .ok created) :
    Created table creator params created := by
  obtain ⟨_, hname, h⟩ := bind_eq_ok.mp h
  obtain ⟨_, hvalidated, h⟩ := bind_eq_ok.mp h
  obtain ⟨_, haccess, h⟩ := bind_eq_ok.mp h
  obtain ⟨hcompared, h⟩ := require_bind_eq_ok.mp h
  obtain ⟨⟨projectName, projectID⟩, hproject, h⟩ := bind_eq_ok.mp h
  obtain ⟨rows, hrows, h⟩ := bind_eq_ok.mp h
  obtain ⟨rfl, hscopes⟩ := createPermission_eq_ok hrows
  have hvalidated := validate_eq_ok hvalidated
  obtain ⟨hsystem, hown⟩ := setProject_eq_ok hproject
  cases h
  refine ⟨hvalidated, name_of_requireAccess hvalid haccess, hcompared, hscopes, ?_, rfl, hsystem,
    ?_⟩
  · have hne : params.name ≠ "" := by
      intro hempty
      have hlegal := require_eq_ok.mp hname
      rw [hempty] at hlegal
      cases hlegal
    split_ifs <;> simp [hne]
  · intro hlevel
    obtain ⟨project, hmem, rfl, hget⟩ := hown hlevel
    obtain ⟨perm, hperm⟩ := hvalidated.single hlevel
    refine ⟨Nat.ne_of_gt (table.id_range project hmem).1, fun row hrow => ?_⟩
    obtain ⟨other, hother, hscope, -⟩ := mem_requestedRows.mp (mem_dedup.mp hrow)
    rw [hperm, mem_singleton] at hother
    rw [hperm] at hget
    exact toScope_of_getNamed hget (hother ▸ hscope)

/-- The level that is asked for. -/
def RobotCreate.robotLevel (params : RobotCreate) : Level :=
  if params.level = "project" then .project else .system

section

variable {creator created : Account} {params : RobotCreate} {row : Row} {target action : String}

variable (h : Created table creator params created)
include h

theorem Created.mem_rows : row ∈ created.rows ↔ row ∈ requestedRows table params.permissions := by
  rw [h.rows, mem_dedup]

theorem Created.level_eq : created.level = params.robotLevel := by
  unfold Account.level RobotCreate.robotLevel
  by_cases hlevel : params.level = "project"
  · rw [if_neg (h.projectLevel hlevel).1, if_pos hlevel]
  · rw [if_pos (h.systemLevel hlevel), if_neg hlevel]

theorem Created.valid : created.Valid := by
  refine ⟨fun row hrow => requestedRows_valid h.validated.named row (h.mem_rows.mp hrow),
    fun hid => ?_⟩
  refine (h.projectLevel ?_).2
  by_contra hlevel
  exact hid (h.systemLevel hlevel)

/-- Every row of the new robot is one of the creator, in a scope that includes it. -/
theorem Created.row_of_creator (hvalid : creator.Valid) (hrow : row ∈ created.rows) :
    ∃ own ∈ creator.rows, own.access = row.access ∧ own.scope.Includes row.scope ∧
      (convertScope table own.scope).isSome = true := by
  obtain ⟨perm, hperm, hscope, haccess⟩ := mem_requestedRows.mp (h.mem_rows.mp hrow)
  exact row_of_isValidPermissionScope hvalid h.compared hperm hscope haccess
    ((h.validated.named perm hperm row.access haccess).imp And.right And.right)

theorem Created.granted (hvalid : creator.Valid) (hgranted : Granted created.rows target action) :
    Granted creator.rows target action := by
  obtain ⟨row, hrow, heffect, hcovers, haction⟩ := hgranted
  obtain ⟨own, hown, haccess, hincludes, -⟩ := h.row_of_creator hvalid hrow
  exact ⟨own, hown, haccess ▸ heffect, haccess ▸ hincludes.covers hcovers, haccess ▸ haction⟩

/-- A project-level creator pulls wherever the new robot pushes. -/
theorem Created.pullImplied (hvalid : creator.Valid)
    (himplied : PullImplied created.rows target action) :
    PullImplied creator.rows target action := by
  obtain ⟨hpull, row, hrow, hcovers, haction⟩ := himplied
  obtain ⟨own, hown, haccess, hincludes, -⟩ := h.row_of_creator hvalid hrow
  exact ⟨hpull, own, hown, haccess ▸ hincludes.covers hcovers, haccess ▸ haction⟩

theorem Created.exists_row (hlevel : created.level = .project) :
    ∃ row ∈ created.rows, row.scope ≠ .system := by
  have hparams : params.level = "project" := by
    rw [h.level_eq, RobotCreate.robotLevel] at hlevel
    by_contra hne
    simp [hne] at hlevel
  obtain ⟨perm, hperm⟩ := exists_mem_of_ne_nil _ h.validated.nonempty
  obtain ⟨access, haccess⟩ := exists_mem_of_ne_nil _ (h.validated.access perm hperm)
  obtain ⟨scope, hscope⟩ := h.resolved perm hperm
  have hrow : Row.mk scope access ∈ created.rows :=
    h.mem_rows.mpr (mem_requestedRows.mpr ⟨perm, hperm, hscope, haccess⟩)
  have hproject := (h.projectLevel hparams).2 _ hrow
  refine ⟨_, hrow, fun hsystem => ?_⟩
  rw [hproject] at hsystem
  cases hsystem

theorem Created.reachesProjects (hvalid : creator.Valid)
    (hreaches : created.level = .project ∨ ReachesProjects table created.rows) :
    ReachesProjects table creator.rows := by
  have hrow : ∃ row ∈ created.rows, row.scope ≠ .system := by
    rcases hreaches with hlevel | ⟨row, hrow, hscope, -⟩
    · exact h.exists_row hlevel
    · exact ⟨row, hrow, hscope⟩
  obtain ⟨row, hrow, hscope⟩ := hrow
  obtain ⟨own, hown, -, hincludes, hsome⟩ := h.row_of_creator hvalid hrow
  refine ⟨own, hown, ?_, hsome⟩
  rcases hincludes with heq | ⟨heq, -⟩
  · rwa [heq]
  · simp [heq]

theorem Created.allowed_iff (target action : String) :
    Allowed table created.level created.rows target action ↔
      Allowed table params.robotLevel (requestedRows table params.permissions) target action := by
  simp only [Allowed, Granted, PullImplied, ReachesProjects, h.mem_rows, h.level_eq]

theorem Created.refused_iff (target action : String) :
    Refused created.rows target action ↔
      Refused (requestedRows table params.permissions) target action := by
  simp only [Refused, h.mem_rows]

end

/-! ## When the new robot is not stronger -/

/-- Where a requested entry allows something that an entry of the creator denies, it is denied
by the request as well. -/
def DeniesKept (table : ProjectTable) (params : RobotCreate) (creator : Account) : Prop :=
  ∀ target action, Known table target →
    Allowed table params.robotLevel (requestedRows table params.permissions) target action →
    Refused creator.rows target action →
    Refused (requestedRows table params.permissions) target action

/-- A system-level creator that asks for a project-level robot that pushes may itself pull,
unless the request denies it to the robot. -/
def PullsCovered (table : ProjectTable) (params : RobotCreate) (creator : Account) : Prop :=
  params.robotLevel = .project → creator.level = .system → ∀ target, Known table target →
    PullImplied (requestedRows table params.permissions) target "pull" →
    ¬Refused (requestedRows table params.permissions) target "pull" →
    Granted creator.rows target "pull" ∨ OpenToAll table target "pull"

/-- Apart from implied pulls, the creator is allowed what the new robot is allowed. -/
theorem Created.allowed_creator (h : Created table creator params created) (hvalid : creator.Valid)
    (hpulls : PullsCovered table params creator) (hknown : Known table target)
    (hrefused : ¬Refused created.rows target action)
    (hallowed : Allowed table created.level created.rows target action) :
    Allowed table creator.level creator.rows target action := by
  rcases hallowed with hgranted | ⟨hlevel, himplied⟩ | ⟨hreaches, hopen⟩
  · exact .inl (h.granted hvalid hgranted)
  · cases hcreator : creator.level with
    | project => exact .inr (.inl ⟨rfl, h.pullImplied hvalid himplied⟩)
    | system =>
      have hreaches := h.reachesProjects hvalid (.inl hlevel)
      rw [h.level_eq] at hlevel
      obtain rfl := himplied.1
      rw [h.refused_iff] at hrefused
      have himplied' : PullImplied (requestedRows table params.permissions) target "pull" := by
        simpa only [PullImplied, h.mem_rows] using himplied
      rcases hpulls hlevel hcreator target hknown himplied' hrefused with hgranted | hopen
      · exact .inl hgranted
      · exact .inr (.inr ⟨.inr hreaches, hopen⟩)
  · exact .inr (.inr ⟨.inr (h.reachesProjects hvalid hreaches), hopen⟩)

/-- **The new robot is not stronger than its creator** if and only if the entries that deny
something to the creator are requested where they matter, and the creator may pull where the
new robot pushes. -/
theorem created_robot_not_stronger_iff (table : ProjectTable) (robotPrefix : String)
    (creator : Account) (hvalid : creator.Valid) (params : RobotCreate) (created : Account)
    (haccepted : createRobot table robotPrefix creator params = .ok created) :
    (∀ action target, created.can table action target = true →
        creator.can table action target = true) ↔
      DeniesKept table params creator ∧ PullsCovered table params creator := by
  have h := createRobot_eq_ok hvalid haccepted
  constructor
  · intro hweaker
    have hcreator : ∀ target action, Known table target →
        Allowed table params.robotLevel (requestedRows table params.permissions) target action →
        ¬Refused (requestedRows table params.permissions) target action →
        Allowed table creator.level creator.rows target action ∧
          ¬Refused creator.rows target action := by
      intro target action hknown hallowed hrefused
      rw [← h.allowed_iff] at hallowed
      rw [← h.refused_iff] at hrefused
      have hcan := (Account.can_iff h.valid action target).mpr ⟨h.named, hknown, hallowed, hrefused⟩
      exact ((Account.can_iff hvalid action target).mp (hweaker action target hcan)).2.2
    constructor
    · intro target action hknown hallowed hdenied
      by_contra hrefused
      exact (hcreator target action hknown hallowed hrefused).2 hdenied
    · intro hlevel hsystem target hknown himplied hrefused
      obtain ⟨hallowed, -⟩ :=
        hcreator target "pull" hknown (.inr (.inl ⟨hlevel, himplied⟩)) hrefused
      rcases hallowed with hgranted | ⟨hproject, -⟩ | ⟨-, hopen⟩
      · exact .inl hgranted
      · rw [hsystem] at hproject
        cases hproject
      · exact .inr hopen
  · rintro ⟨hdenies, hpulls⟩ action target hcan
    obtain ⟨-, hknown, hallowed, hrefused⟩ := (Account.can_iff h.valid action target).mp hcan
    refine (Account.can_iff hvalid action target).mpr ⟨h.creatorNamed, hknown,
      h.allowed_creator hvalid hpulls hknown hrefused hallowed, fun hdenied => ?_⟩
    rw [h.refused_iff] at hrefused
    exact hrefused (hdenies target action hknown ((h.allowed_iff target action).mp hallowed)
      hdenied)

def allow (scope : Scope) (resource action : String) : Row where
  scope := scope
  access := { resource := resource, action := action, effect := "allow" }

/-- A robot of the project `library` that pushes. -/
def pushingRequest : RobotCreate where
  name := "ci"
  duration := 30
  level := "project"
  permissions := [{
    kind := "project"
    ns := "library"
    access := [{ resource := "repository", action := "push", effect := "allow" }] }]

/-- The robot that is created for this request. -/
def pushingRobot : Account where
  name := "robot$library+ci"
  projectID := 1
  duration := 30
  rows := [allow (.project 1) "repository" "push"]

/-- A system-level robot that makes robots, pushes and pulls, in all projects. -/
def fullCreator : Account where
  name := "robot$admin"
  projectID := 0
  rows := [allow .allProjects "robot" "create", allow .allProjects "repository" "push",
    allow .allProjects "repository" "pull"]

theorem fullCreator_valid : fullCreator.Valid where
  rows row hrow := by
    have hplain : ∀ row ∈ fullCreator.rows, Plain row.access.resource ∧ Plain row.access.action ∧
        row.scope = .allProjects := by decide +kernel
    obtain ⟨hresource, haction, hscope⟩ := hplain row hrow
    exact ⟨hresource, haction, by simp [hscope]⟩
  own hid := absurd rfl hid

theorem created_robot_not_stronger_full :
    createRobot twoProjects "robot$" fullCreator pushingRequest = .ok pushingRobot ∧
      ∀ action target, pushingRobot.can twoProjects action target = true →
        fullCreator.can twoProjects action target = true := by
  have haccepted : createRobot twoProjects "robot$" fullCreator pushingRequest =
      .ok pushingRobot := by decide +kernel
  refine ⟨haccepted, (created_robot_not_stronger_iff twoProjects "robot$" fullCreator
    fullCreator_valid pushingRequest pushingRobot haccepted).mpr ⟨?_, ?_⟩⟩
  · rintro target action - - ⟨row, hrow, hdeny, -⟩
    have hallow : ∀ row ∈ fullCreator.rows, row.access.getEffect = "allow" := by decide
    rw [hallow row hrow] at hdeny
    simp at hdeny
  · rintro - - target - ⟨-, row, hrow, hcovers, -⟩ -
    have hrows : requestedRows twoProjects pushingRequest.permissions =
        [allow (.project 1) "repository" "push"] := by decide +kernel
    rw [hrows, mem_singleton] at hrow
    subst hrow
    refine .inl ⟨allow .allProjects "repository" "pull", by decide, rfl, ?_, rfl⟩
    exact Scope.Includes.covers (.inr ⟨rfl, by simp [allow]⟩) hcovers

/-- A system-level robot that makes robots and pushes, in all projects. -/
def pushingCreator : Account where
  name := "robot$ops"
  projectID := 0
  rows := [allow .allProjects "robot" "create", allow .allProjects "repository" "push"]

/-- A system-level robot that makes robots and pulls from all projects but one. -/
def pullingCreator : Account where
  name := "robot$mirror"
  projectID := 0
  rows := [allow .system "robot" "create", allow .allProjects "repository" "pull",
    { scope := .project 2
      access := { resource := "repository", action := "pull", effect := "deny" } }]

/-- A robot that pulls from all projects. -/
def pullingRequest : RobotCreate where
  name := "puller"
  duration := -1
  level := "system"
  permissions := [{
    kind := "project"
    ns := "*"
    access := [{ resource := "repository", action := "pull", effect := "allow" }] }]

def pullingRobot : Account where
  name := "robot$puller"
  projectID := 0
  rows := [allow .allProjects "repository" "pull"]

/-- The first new robot pulls and its creator does not; the second pulls from a project that
is denied to its creator. -/
theorem created_robot_stronger :
    (createRobot twoProjects "robot$" pushingCreator pushingRequest = .ok pushingRobot ∧
      pushingRobot.can twoProjects "pull" "/project/1/repository" = true ∧
      pushingCreator.can twoProjects "pull" "/project/1/repository" = false) ∧
    (createRobot twoProjects "robot$" pullingCreator pullingRequest = .ok pullingRobot ∧
      pullingRobot.can twoProjects "pull" "/project/2/repository" = true ∧
      pullingCreator.can twoProjects "pull" "/project/2/repository" = false) := by
  decide +kernel

end Harbor.Robots
