import Harbor.Robots.Creation

/-!
# Robots updated by robots

An update stores the permissions of the request for the robot in question.  The access to
the robot is all that is required of the caller; its own permissions are not compared with
the requested ones.  So what is stored is covered by the permissions of the caller when the
request only takes entries away from a robot that was covered before, or that is the caller
itself, and need not be so otherwise.  What is stored is not quite the request: texts that it
leaves empty are those of the entries that the robot had at the same positions.
-/

namespace Harbor.Robots

open Rbac Concurrency Data.Checks List

/-! ## Sequences of updates -/

/-- An update of one account by another. -/
structure UpdateCall where
  caller : ℕ
  target : ℕ
  /-- the permissions of the account, in the order in which they are read -/
  loaded : List RobotPermission
  params : RobotUpdate
  deriving DecidableEq, Repr

/-- What is stored for the request. -/
def UpdateCall.permissions (call : UpdateCall) : List RobotPermission :=
  jsonCopy copyPermission call.loaded call.params.permissions

variable (table : ProjectTable)

/-- The permissions of a robot in the form of a request. -/
def Account.asRequest (account : Account) : List RobotPermission :=
  (account.populate table).permissions.map fun perm =>
    { kind := perm.kind, ns := perm.ns, access := perm.access }

/-- The permissions with their entries, up to the order of both, which is not determined. -/
def unordered (permissions : List RobotPermission) : Multiset (String × String × Multiset Policy) :=
  permissions.map fun perm => (perm.kind, perm.ns, Multiset.ofList perm.access)

/-- The accounts after an update that is accepted. -/
def update (accounts : List Account) (call : UpdateCall) : Option (List Account) := do
  let caller ← accounts[call.caller]?
  let target ← accounts[call.target]?
  if unordered call.loaded = unordered (target.asRequest table) then
    let updated ← (updateRobot table caller target call.loaded call.params).toOption
    pure (accounts.set call.target updated)
  else none

/-- The permissions of the robot are covered by those of the caller. -/
def Covered (account caller : Account) : Prop :=
  isValidPermissionScope (account.asRequest table) (caller.populate table).permissions = true

instance (table : ProjectTable) (account caller : Account) :
    Decidable (Covered table account caller) :=
  inferInstanceAs (Decidable (_ = _))

/-- What is stored after the update is covered by what the caller had before. -/
def CoveredAfter (before : List Account) (call : UpdateCall) (after : List Account) : Prop :=
  ∀ caller ∈ before[call.caller]?, ∀ updated ∈ after[call.target]?, Covered table updated caller

instance (table : ProjectTable) (before : List Account) (call : UpdateCall)
    (after : List Account) : Decidable (CoveredAfter table before call after) :=
  Option.decidableForallMem _

/-- Nothing is stored that the robot does not have, and the caller covers the robot or is the
robot. -/
def OnlyTakesAway (before : List Account) (call : UpdateCall) : Prop :=
  ∀ caller ∈ before[call.caller]?, ∀ target ∈ before[call.target]?,
    requestedRows table call.permissions ⊆ target.rows ∧
      (call.caller = call.target ∨ Covered table target caller)

instance (table : ProjectTable) (before : List Account) (call : UpdateCall) :
    Decidable (OnlyTakesAway table before call) :=
  Option.decidableForallMem _

/-! ## Comparing permissions by rows -/

variable {table : ProjectTable}

/-- The permission that the rows of a scope make. -/
def scopePermission (rows : List Row) (scope : Scope) (kind ns : String) : Permission where
  kind := kind
  ns := ns
  scope := scope.text
  access := (rows.filter (·.scope = scope)).map Row.access

variable {account caller : Account} {before after : List Account} {call : UpdateCall}

theorem mem_populatePermissions_iff {rows : List Row} {perm : Permission} :
    perm ∈ populatePermissions table rows ↔ ∃ scope ∈ rows.map Row.scope, ∃ kind ns,
      convertScope table scope = some (kind, ns) ∧ perm = scopePermission rows scope kind ns := by
  rw [populatePermissions, mem_filterMap]
  simp only [mem_dedup, Option.map_eq_some_iff, Prod.exists]
  refine exists_congr fun scope => and_congr_right fun _ => exists_congr fun kind =>
    exists_congr fun ns => and_congr_right fun _ => ?_
  exact eq_comm

theorem covered_iff :
    Covered table account caller ↔ ∀ scope ∈ account.rows.map Row.scope, ∀ kind ns,
      convertScope table scope = some (kind, ns) →
        ((permissionFor (caller.populate table).permissions (scopeKey kind ns)).or
          (permissionFor (caller.populate table).permissions (scopeKey kind "*"))).any
            (fun found => hasLessThanOrEqualAccess
              (scopePermission account.rows scope kind ns).access found.access) = true := by
  rw [Covered, isValidPermissionScope, Account.asRequest, all_map, all_eq_true]
  constructor
  · intro h scope hscope kind ns hconvert
    exact h _ (mem_populatePermissions_iff.mpr ⟨scope, hscope, kind, ns, hconvert, rfl⟩)
  · intro h perm hperm
    obtain ⟨scope, hscope, kind, ns, hconvert, rfl⟩ := mem_populatePermissions_iff.mp hperm
    exact h scope hscope kind ns hconvert

theorem Covered.mono {smaller : Account} (h : Covered table account caller)
    (hrows : smaller.rows ⊆ account.rows) : Covered table smaller caller := by
  rw [covered_iff] at h ⊢
  intro scope hscope kind ns hconvert
  obtain ⟨found, hfound, hless⟩ := (Option.any_eq_true _ _).mp
    (h scope (map_subset Row.scope hrows hscope) kind ns hconvert)
  refine (Option.any_eq_true _ _).mpr ⟨found, hfound, ?_⟩
  refine all_eq_true.mpr fun access haccess => all_eq_true.mp hless access ?_
  obtain ⟨row, hrow, rfl⟩ := mem_map.mp haccess
  obtain ⟨hmem, hsame⟩ := mem_filter.mp hrow
  exact mem_map_of_mem (mem_filter.mpr ⟨hrows hmem, hsame⟩)

theorem covered_self (account : Account) : Covered table account account := by
  rw [covered_iff]
  intro scope hscope kind ns hconvert
  have hmem : scopePermission account.rows scope kind ns ∈ (account.populate table).permissions :=
    mem_populatePermissions_iff.mpr ⟨scope, hscope, kind, ns, hconvert, rfl⟩
  obtain ⟨found, hfound⟩ : ∃ found,
      permissionFor (account.populate table).permissions (scopeKey kind ns) = some found := by
    refine Option.isSome_iff_exists.mp (find?_isSome.mpr ⟨_, mem_reverse.mpr hmem, ?_⟩)
    exact beq_self_eq_true _
  -- scopes of the same kind and namespace are the same
  obtain ⟨hfoundMem, hkey⟩ := mem_of_permissionFor hfound
  obtain ⟨other, -, kind', ns', hother, rfl⟩ := mem_populatePermissions_iff.mp hfoundMem
  obtain ⟨rfl, rfl⟩ := scopeKey_inj (kind_of_convertScope hother)
    (kind_of_convertScope hconvert) hkey
  have hsame : (Except.ok other : Except ApiError Scope) = .ok scope :=
    (@toScope_of_convertScope table ⟨kind', ns', []⟩ other hother).symm.trans
      (toScope_of_convertScope hconvert)
  cases hsame
  rw [hfound, Option.some_or, Option.any_some]
  refine all_eq_true.mpr fun access haccess => any_eq_true.mpr ⟨access, haccess, ?_⟩
  exact beq_self_eq_true _

/-! ## Updates that only take away -/

theorem mem_jsonCopy {α : Type*} {decode : α → α → α} {dsts srcs : List α} {item : α}
    (h : item ∈ jsonCopy decode dsts srcs) :
    ∃ src ∈ srcs, item = src ∨ ∃ dst, item = decode dst src := by
  fun_induction jsonCopy decode dsts srcs with
  | case1 dsts => cases h
  | case2 srcs => exact ⟨item, h, .inl rfl⟩
  | case3 dst dsts src srcs ih =>
    rcases mem_cons.mp h with rfl | h
    · exact ⟨src, mem_cons_self, .inr ⟨dst, rfl⟩⟩
    · obtain ⟨other, hother, hitem⟩ := ih h
      exact ⟨other, mem_cons_of_mem _ hother, hitem⟩

theorem copyText_of_ne {dst src : String} (h : src ≠ "") : copyText dst src = src := if_neg h

/-- The resources and actions are those of the request, which are not empty. -/
theorem named_jsonCopy {loaded permissions : List RobotPermission}
    (h : ∀ perm ∈ permissions, ∀ access ∈ perm.access,
      Named access.resource ∧ Named access.action) :
    ∀ perm ∈ jsonCopy copyPermission loaded permissions, ∀ access ∈ perm.access,
      Named access.resource ∧ Named access.action := by
  intro perm hperm access haccess
  obtain ⟨src, hsrc, rfl | ⟨dst, rfl⟩⟩ := mem_jsonCopy hperm
  · exact h perm hsrc access haccess
  · obtain ⟨policy, hpolicy, rfl | ⟨old, rfl⟩⟩ := mem_jsonCopy haccess
    · exact h src hsrc access hpolicy
    · obtain ⟨hresource, haction⟩ := h src hsrc policy hpolicy
      simp only [copyPolicy, copyText_of_ne hresource.1, copyText_of_ne haction.1]
      exact ⟨hresource, haction⟩

/-- An accepted update stores the copied rows, and leaves a valid robot. -/
theorem updateRobot_eq_ok {updated : Account} {loaded : List RobotPermission}
    {params : RobotUpdate} (h : updateRobot table caller account loaded params = .ok updated) :
    updated.rows = (requestedRows table
      (jsonCopy copyPermission loaded params.permissions)).dedup ∧ updated.Valid := by
  unfold updateRobot at h
  split_ifs at h
  obtain ⟨_, hvalidated, h⟩ := bind_eq_ok.mp h
  obtain ⟨_, hproject, h⟩ := bind_eq_ok.mp h
  obtain ⟨_, -, h⟩ := bind_eq_ok.mp h
  obtain ⟨hlevel, h⟩ := require_bind_eq_ok.mp h
  obtain ⟨rows, hrows, h⟩ := bind_eq_ok.mp h
  obtain ⟨rfl, -⟩ := createPermission_eq_ok hrows
  have hvalidated := validate_eq_ok hvalidated
  cases h
  refine ⟨rfl, fun row hrow => requestedRows_valid (named_jsonCopy hvalidated.named) row
    (mem_dedup.mp hrow), fun hid row hrow => ?_⟩
  -- a project-level robot has one permission, whose project is that of the robot
  obtain ⟨hsame, -⟩ := Bool.and_eq_true_iff.mp hlevel
  have hown : account.level = .project := if_neg hid
  rw [hown] at hsame
  obtain ⟨perm, hperm⟩ := hvalidated.single (beq_iff_eq.mp hsame)
  rw [requireSameProject, hown, hperm] at hproject
  rw [hperm] at hrow
  obtain ⟨copied, hcopied, hscope, -⟩ := mem_requestedRows.mp (mem_dedup.mp hrow)
  cases hget : table.getNamed (firstNamespace [perm]) with
  | error e => simp [hget] at hproject
  | ok project =>
    have hid := beq_iff_eq.mp (require_eq_ok.mp (hget ▸ hproject))
    obtain ⟨hmem, hname⟩ : project ∈ table.projects ∧ project.name = perm.ns :=
      ProjectTable.mem_of_getNamed hget
    have hns : copied.ns = perm.ns := by
      obtain ⟨src, hsrc, rfl | ⟨dst, rfl⟩⟩ := mem_jsonCopy hcopied
      · rw [mem_singleton.mp hsrc]
      · rw [mem_singleton.mp hsrc]
        exact copyText_of_ne (hname ▸ ProjectTable.name_ne_empty hmem)
    rw [@toScope_of_getNamed table _ copied project (hns ▸ hget) hscope, hid]

theorem update_eq_some (h : update table before call = some after) :
    ∃ caller target updated, before[call.caller]? = some caller ∧
      before[call.target]? = some target ∧
      updateRobot table caller target call.loaded call.params = .ok updated ∧
      after = before.set call.target updated := by
  simp only [update, bind, Option.bind_eq_some_iff] at h
  obtain ⟨caller, hcaller, target, htarget, h⟩ := h
  split_ifs at h
  obtain ⟨updated, hupdated, hafter⟩ := Option.bind_eq_some_iff.mp h
  refine ⟨caller, target, updated, hcaller, htarget, ?_, (Option.some.inj hafter).symm⟩
  cases hresult : updateRobot table caller target call.loaded call.params with
  | error e => simp [hresult, Except.toOption] at hupdated
  | ok result =>
    rw [hresult] at hupdated
    rw [Option.some.inj hupdated]

theorem accounts_valid {accounts final : List Account} {calls : List UpdateCall}
    (hvalid : ∀ account ∈ accounts, account.Valid)
    (hrun : exec (update table) accounts calls = some final) :
    ∀ account ∈ final, account.Valid := by
  refine exec_invariant (fun accounts => ∀ account ∈ accounts, account.Valid) ?_ hvalid
    (everyStep_true _ calls) hrun
  intro before call after hbefore hupdate _ account haccount
  obtain ⟨caller, target, updated, -, -, hupdated, rfl⟩ := update_eq_some hupdate
  rcases mem_or_eq_of_mem_set haccount with hmem | rfl
  · exact hbefore account hmem
  · exact (updateRobot_eq_ok hupdated).2

theorem coveredAfter_of_onlyTakesAway (hupdate : update table before call = some after)
    (h : OnlyTakesAway table before call) : CoveredAfter table before call after := by
  obtain ⟨caller, target, updated, hcaller, htarget, hupdated, rfl⟩ := update_eq_some hupdate
  intro other hother result hresult
  cases hcaller.symm.trans hother
  obtain ⟨hlt, -⟩ := List.getElem?_eq_some_iff.mp htarget
  obtain rfl : updated = result := by simpa [hlt] using hresult
  obtain ⟨hsubset, hcovers⟩ := h caller hcaller target htarget
  have hrows : updated.rows ⊆ target.rows := by
    rw [(updateRobot_eq_ok hupdated).1]
    exact fun row hrow => hsubset (mem_dedup.mp hrow)
  have hbefore : Covered table target caller := by
    rcases hcovers with hself | hcovers
    · rw [hself, htarget] at hcaller
      rw [Option.some.inj hcaller]
      exact covered_self caller
    · exact hcovers
  exact hbefore.mono hrows

/-- **Robots are not strengthened by updates** that only take entries away. -/
theorem updates_covered (table : ProjectTable) (accounts : List Account) (calls : List UpdateCall)
    (haway : EveryStep (update table) (fun before call _ => OnlyTakesAway table before call)
      accounts calls) : EveryStep (update table) (CoveredAfter table) accounts calls := by
  refine everyStep_of_invariant (fun _ => True) ?_ trivial haway
  intro before call after _ hupdate h
  exact ⟨trivial, coveredAfter_of_onlyTakesAway hupdate h⟩

/-- A system-level robot that may update all projects and reads repositories, and a robot of
one project with the given actions on repositories. -/
def updaterAnd (actions : List String) : List Account :=
  [{ name := "robot$updater", projectID := 0
     rows := [allow .allProjects "project" "update", allow .allProjects "repository" "pull",
       allow .allProjects "repository" "list"] },
    { name := "robot$library+reader", projectID := 1
      rows := actions.map (allow (.project 1) "repository") }]

/-- The permission for some actions on repositories. -/
def repositoryActions (effect : String) (actions : List String) : RobotPermission where
  kind := "project"
  ns := "library"
  access := actions.map fun action => { resource := "repository", action, effect }

/-- The first robot asks for the given actions for the second, which has some already. -/
def setActions (old : List String) (effect : String) (actions : List String) : UpdateCall where
  caller := 0
  target := 1
  loaded := [repositoryActions "allow" old]
  params := {
    name := "robot$library+reader"
    level := "project"
    permissions := [repositoryActions effect actions] }

/-- The effect is left out the second time. -/
theorem updates_covered_fewer_actions :
    exec (update twoProjects) (updaterAnd ["pull", "list"])
          [setActions ["pull", "list"] "allow" ["list"], setActions ["list"] "" ["list"]] =
        some (updaterAnd ["list"]) ∧
      EveryStep (update twoProjects) (CoveredAfter twoProjects) (updaterAnd ["pull", "list"])
        [setActions ["pull", "list"] "allow" ["list"], setActions ["list"] "" ["list"]] := by
  have hfirst : update twoProjects (updaterAnd ["pull", "list"])
      (setActions ["pull", "list"] "allow" ["list"]) = some (updaterAnd ["list"]) := by
    decide +kernel
  have hsecond : update twoProjects (updaterAnd ["list"]) (setActions ["list"] "" ["list"]) =
      some (updaterAnd ["list"]) := by decide +kernel
  refine ⟨by simp [hfirst, hsecond], updates_covered twoProjects _ _ ?_⟩
  exact everyStep_cons hfirst (by decide +kernel)
    (everyStep_cons hsecond (by decide +kernel) trivial)

/-- The update is accepted, and the robot may push although the caller may not. -/
theorem robot_strengthened_by_update :
    update twoProjects (updaterAnd ["pull"]) (setActions ["pull"] "allow" ["push"]) =
        some (updaterAnd ["push"]) ∧
      ¬CoveredAfter twoProjects (updaterAnd ["pull"]) (setActions ["pull"] "allow" ["push"])
        (updaterAnd ["push"]) := by
  decide +kernel

end Harbor.Robots
