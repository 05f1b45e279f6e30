import Harbor.Data.Decimal

/-!
# Policies and their evaluation

A policy allows or denies an action on the resources that its pattern matches.  The
enforcer permits what some policy allows and no policy denies.  Resources are texts:
those of a project start with `/project/` and its ID, those of the system with
`/system`.

In a pattern `/*` stands for a slash and any text; `keyMatch2` makes a regular
expression of it, in which the other characters of the resources of Harbor (letters,
digits, dashes and slashes) stand for themselves.
-/

namespace Harbor.Rbac

open Data.Decimal List

/-! ## The enforcer -/

structure Policy where
  resource : String
  action : String
  effect : String := ""
  deriving DecidableEq, Repr

def Policy.getEffect (policy : Policy) : String :=
  if policy.effect = "" then "allow" else policy.effect

/-- What may be left of a text after `.*`, which does not match a line break. -/
def suffixes : List Char → List (List Char)
  | [] => [[]]
  | c :: rest => (c :: rest) :: if c = '\n' then [] else suffixes rest

/-- The text starts with the character, and what follows matches. -/
def afterChar (p : Char) (next : List Char → Bool) : List Char → Bool
  | [] => false
  | c :: rest => p == c && next rest

/-- The text matches the whole pattern. -/
def globMatch : List Char → List Char → Bool
  | [] => List.isEmpty
  | '/' :: '*' :: pattern => afterChar '/' fun rest => (suffixes rest).any (globMatch pattern)
  | p :: pattern => afterChar p (globMatch pattern)

def keyMatch2 (key1 key2 : String) : Bool :=
  globMatch key2.toList key1.toList

/-- The matcher of the model, for a policy of the user in question. -/
def Policy.applies (policy : Policy) (resource action : String) : Bool :=
  keyMatch2 resource policy.resource && (action == policy.action || policy.action == "*")

def allows (policies : List Policy) (resource action : String) : Bool :=
  policies.any fun policy => policy.applies resource action && policy.getEffect == "allow"

def denies (policies : List Policy) (resource action : String) : Bool :=
  policies.any fun policy => policy.applies resource action && policy.getEffect == "deny"

/-- `rbacUser`, without roles. -/
structure RbacUser where
  username : String
  policies : List Policy
  deriving DecidableEq, Repr

/-- `Enforce`; a user without a name has no policies. -/
def RbacUser.enforce (user : RbacUser) (resource action : String) : Bool :=
  user.username != "" && allows user.policies resource action &&
    !denies user.policies resource action

variable {resource action : String} {projectID : ℕ} {policies first second : List Policy}
  {text : List Char} {p : Char} {pattern : List Char} {rest : String}

theorem allows_iff :
    allows policies resource action = true ↔
      ∃ policy ∈ policies, policy.applies resource action = true ∧ policy.getEffect = "allow" := by
  simp [allows]

theorem denies_iff :
    denies policies resource action = true ↔
      ∃ policy ∈ policies, policy.applies resource action = true ∧ policy.getEffect = "deny" := by
  simp [denies]

theorem RbacUser.enforce_iff {user : RbacUser} :
    user.enforce resource action = true ↔ user.username ≠ "" ∧
      allows user.policies resource action = true ∧
      denies user.policies resource action = false := by
  simp [RbacUser.enforce, and_assoc]

/-- Order and repetition of policies do not matter. -/
theorem allows_congr (h : ∀ policy, policy ∈ first ↔ policy ∈ second) (resource action : String) :
    allows first resource action = allows second resource action :=
  Bool.eq_iff_iff.mpr (by simp [allows_iff, h])

theorem denies_congr (h : ∀ policy, policy ∈ first ↔ policy ∈ second) (resource action : String) :
    denies first resource action = denies second resource action :=
  Bool.eq_iff_iff.mpr (by simp [denies_iff, h])

theorem RbacUser.enforce_congr {first second : RbacUser} (hname : first.username = second.username)
    (hpolicies : ∀ policy, policy ∈ first.policies ↔ policy ∈ second.policies)
    (resource action : String) :
    first.enforce resource action = second.enforce resource action := by
  rw [RbacUser.enforce, RbacUser.enforce, hname, allows_congr hpolicies, denies_congr hpolicies]

/-! ## Patterns -/

theorem mem_suffixes {suffix : List Char} :
    suffix ∈ suffixes text ↔ ∃ middle, '\n' ∉ middle ∧ text = middle ++ suffix := by
  induction text with
  | nil => simp [suffixes]
  | cons c rest ih =>
    rw [suffixes, mem_cons]
    constructor
    · rintro (rfl | hsuffix)
      · exact ⟨[], not_mem_nil, rfl⟩
      · split_ifs at hsuffix with hc
        · cases hsuffix
        · obtain ⟨middle, hmiddle, rfl⟩ := ih.mp hsuffix
          exact ⟨c :: middle, by simp [hmiddle, Ne.symm hc], rfl⟩
    · rintro ⟨middle, hmiddle, htext⟩
      cases middle with
      | nil => exact .inl htext.symm
      | cons d middle =>
        obtain ⟨rfl, hrest⟩ := cons.inj htext
        rw [mem_cons, not_or] at hmiddle
        rw [if_neg (Ne.symm hmiddle.1)]
        exact .inr (ih.mpr ⟨middle, hmiddle.2, hrest⟩)

theorem afterChar_iff {next : List Char → Bool} :
    afterChar p next text = true ↔ ∃ rest, text = p :: rest ∧ next rest = true := by
  cases text with
  | nil => simp [afterChar]
  | cons c rest =>
    rw [afterChar, Bool.and_eq_true, beq_iff_eq]
    constructor
    · rintro ⟨rfl, hrest⟩
      exact ⟨rest, rfl, hrest⟩
    · rintro ⟨other, hother, hrest⟩
      obtain ⟨rfl, rfl⟩ := cons.inj hother
      exact ⟨rfl, hrest⟩

/-- A character that does not begin `/*` stands for itself. -/
theorem globMatch_cons (h : pattern.head? ≠ some '*') (text : List Char) :
    globMatch (p :: pattern) text = true ↔
      ∃ rest, text = p :: rest ∧ globMatch pattern rest = true := by
  have hstep : globMatch (p :: pattern) = afterChar p (globMatch pattern) := by
    rw [globMatch]
    rintro more rfl rfl
    exact h rfl
  rw [hstep, afterChar_iff]

theorem globMatch_literal (h : '*' ∉ pattern) (text : List Char) :
    globMatch pattern text = true ↔ text = pattern := by
  induction pattern generalizing text with
  | nil => simp [globMatch]
  | cons p pattern ih =>
    rw [mem_cons, not_or] at h
    have hhead : pattern.head? ≠ some '*' := fun hhead => h.2 (mem_of_head? hhead)
    rw [globMatch_cons hhead]
    constructor
    · rintro ⟨rest, rfl, hrest⟩
      rw [(ih h.2 rest).mp hrest]
    · rintro rfl
      exact ⟨pattern, rfl, (ih h.2 pattern).mpr rfl⟩

/-- The first `/*` of a pattern stands for a slash and any text. -/
theorem globMatch_star {before : List Char} (h : '*' ∉ before) (pattern text : List Char) :
    globMatch (before ++ '/' :: '*' :: pattern) text = true ↔
      ∃ middle suffix, '\n' ∉ middle ∧ text = before ++ '/' :: (middle ++ suffix) ∧
        globMatch pattern suffix = true := by
  induction before generalizing text with
  | nil =>
    rw [nil_append, globMatch, afterChar_iff]
    constructor
    · rintro ⟨rest, rfl, hrest⟩
      obtain ⟨suffix, hsuffix, hmatch⟩ := any_eq_true.mp hrest
      obtain ⟨middle, hmiddle, rfl⟩ := mem_suffixes.mp hsuffix
      exact ⟨middle, suffix, hmiddle, rfl, hmatch⟩
    · rintro ⟨middle, suffix, hmiddle, rfl, hmatch⟩
      refine ⟨middle ++ suffix, rfl, any_eq_true.mpr ⟨suffix, ?_, hmatch⟩⟩
      exact mem_suffixes.mpr ⟨middle, hmiddle, rfl⟩
  | cons p before ih =>
    rw [mem_cons, not_or] at h
    have hhead : (before ++ '/' :: '*' :: pattern).head? ≠ some '*' := by
      cases before with
      | nil => simp
      | cons q before =>
        rintro hq
        exact h.2 (by simpa using Or.inl (Option.some.inj hq).symm)
    rw [cons_append, globMatch_cons hhead]
    constructor
    · rintro ⟨rest, rfl, hrest⟩
      obtain ⟨middle, suffix, hmiddle, rfl, hmatch⟩ := (ih h.2 rest).mp hrest
      exact ⟨middle, suffix, hmiddle, rfl, hmatch⟩
    · rintro ⟨middle, suffix, hmiddle, rfl, hmatch⟩
      exact ⟨_, rfl, (ih h.2 _).mpr ⟨middle, suffix, hmiddle, rfl, hmatch⟩⟩

/-! ## Namespaces -/

def hasPrefix (text start : String) : Bool :=
  start.toList.isPrefixOf text.toList

inductive Namespace
  | project (identity : ℤ)
  | system
  deriving DecidableEq, Repr

/-- `NamespaceParse` of projects: what follows `/project/`, up to the next slash. -/
def projectOf (resource : String) : Option ℤ :=
  if hasPrefix resource "/project/" then
    (parseInt (String.ofList ((resource.toList.drop 9).takeWhile (· ≠ '/')))).map Int64.toInt
  else none

def namespaceFromResource (resource : String) : Option Namespace :=
  if hasPrefix resource "/system" then some .system else (projectOf resource).map .project

/-- `Resource` of a project namespace. -/
def projectResource (projectID : ℕ) (subresource : String) : String :=
  if subresource = "" then "/project/" ++ toString projectID
  else "/project/" ++ toString projectID ++ "/" ++ subresource

theorem hasPrefix_append (start rest : String) : hasPrefix (start ++ rest) start = true := by
  rw [hasPrefix, String.toList_append, isPrefixOf_iff_prefix]
  exact prefix_append _ _

theorem projectOf_append (rest : String) :
    projectOf ("/project/" ++ rest) =
      (parseInt (String.ofList (rest.toList.takeWhile (· ≠ '/')))).map Int64.toInt := by
  have hdrop : ("/project/" ++ rest).toList.drop 9 = rest.toList := by
    rw [String.toList_append]
    exact drop_left' (by decide)
  rw [projectOf, if_pos (hasPrefix_append _ _), hdrop]

theorem parse_projectID (hid : projectID < 2 ^ 63) {rest : List Char}
    (hrest : ∀ c ∈ rest.head?, c = '/') :
    (parseInt (String.ofList (((toString projectID).toList ++ rest).takeWhile (· ≠ '/')))).map
      Int64.toInt = some (projectID : ℤ) := by
  have hdigits : ∀ c ∈ (toString projectID).toList, decide (c ≠ '/') = true := by
    intro c hc
    have hdigit : c.isDigit = true := isDigit_of_mem_repr hc
    rw [decide_eq_true_eq]
    rintro rfl
    cases hdigit
  have htake : rest.takeWhile (· ≠ '/') = [] := by
    cases rest with
    | nil => rfl
    | cons c more => simp [hrest c rfl]
  rw [takeWhile_append_of_pos hdigits, htake, append_nil, String.ofList_toList,
    parseInt_repr, if_pos hid, Option.map_some, Int64.toInt_ofNat_of_lt hid]

theorem projectOf_below (hid : projectID < 2 ^ 63) (hrest : ∀ c ∈ rest.toList.head?, c = '/') :
    projectOf ("/project/" ++ (toString projectID ++ rest)) = some (projectID : ℤ) := by
  rw [projectOf_append, String.toList_append]
  exact parse_projectID hid hrest

theorem hasPrefix_system_project (rest : String) :
    hasPrefix ("/project/" ++ rest) "/system" = false := by
  rw [hasPrefix, String.toList_append]
  rfl

theorem namespaceFromResource_project (rest : String) :
    namespaceFromResource ("/project/" ++ rest) =
      (projectOf ("/project/" ++ rest)).map .project := by
  rw [namespaceFromResource, hasPrefix_system_project]
  rfl

theorem namespaceFromResource_below (hid : projectID < 2 ^ 63)
    (hrest : ∀ c ∈ rest.toList.head?, c = '/') :
    namespaceFromResource ("/project/" ++ (toString projectID ++ rest)) =
      some (.project projectID) := by
  rw [namespaceFromResource_project, projectOf_below hid hrest, Option.map_some]

theorem projectResource_eq (projectID : ℕ) (subresource : String) :
    ∃ rest : String, (∀ c ∈ rest.toList.head?, c = '/') ∧
      projectResource projectID subresource = "/project/" ++ (toString projectID ++ rest) := by
  unfold projectResource
  split_ifs
  · exact ⟨"", by simp, by rw [String.append_empty]⟩
  · exact ⟨"/" ++ subresource, by simp, by rw [String.append_assoc, String.append_assoc]⟩

theorem projectOf_projectResource (hid : projectID < 2 ^ 63) (subresource : String) :
    projectOf (projectResource projectID subresource) = some (projectID : ℤ) := by
  obtain ⟨rest, hrest, heq⟩ := projectResource_eq projectID subresource
  rw [heq, projectOf_below hid hrest]

theorem namespaceFromResource_projectResource (hid : projectID < 2 ^ 63) (subresource : String) :
    namespaceFromResource (projectResource projectID subresource) = some (.project projectID) := by
  obtain ⟨rest, hrest, heq⟩ := projectResource_eq projectID subresource
  rw [heq, namespaceFromResource_below hid hrest]

/-! ## Projects -/

structure Project where
  projectID : ℕ
  name : String
  isPublic : Bool := false
  deriving DecidableEq, Repr

/-- Words of lower-case letters and digits, separated by single dots, dashes or underscores.
`inWord` says that the last character belongs to a word. -/
def validNameFrom : Bool → List Char → Bool
  | inWord, [] => inWord
  | inWord, c :: rest =>
    if c.isLower || c.isDigit then validNameFrom true rest
    else inWord && (c == '.' || c == '_' || c == '-') && validNameFrom false rest

/-- The names with which projects are created. -/
def validProjectName (name : String) : Bool :=
  validNameFrom false name.toList

theorem notMem_of_validNameFrom {c : Char} (hword : (c.isLower || c.isDigit) = false)
    (hsep : (c == '.' || c == '_' || c == '-') = false) {inWord : Bool} {chars : List Char}
    (hvalid : validNameFrom inWord chars = true) : c ∉ chars := by
  induction chars generalizing inWord with
  | nil => exact not_mem_nil
  | cons first rest ih =>
    unfold validNameFrom at hvalid
    rw [mem_cons, not_or]
    split_ifs at hvalid with hfirst
    · refine ⟨?_, ih hvalid⟩
      rintro rfl
      simp [hword] at hfirst
    · simp only [Bool.and_eq_true] at hvalid
      refine ⟨?_, ih hvalid.2⟩
      rintro rfl
      simp [hsep] at hvalid

/-- The table of projects: IDs and names are unique, IDs are positive 64-bit integers, and
names are valid. -/
structure ProjectTable where
  projects : List Project
  ids_nodup : (projects.map Project.projectID).Nodup
  names_nodup : (projects.map Project.name).Nodup
  id_range : ∀ project ∈ projects, 0 < project.projectID ∧ project.projectID < 2 ^ 63
  name_valid : ∀ project ∈ projects, validProjectName project.name = true

/-- Why a project is not returned. -/
inductive ProjectError
  | badRequest (message : String)
  | notFound (message : String)
  deriving DecidableEq, Repr

namespace ProjectTable

variable (table : ProjectTable)

def get (identity : ℤ) : Option Project :=
  table.projects.find? fun project => (project.projectID : ℤ) = identity

def getNamed (name : String) : Except ProjectError Project :=
  if ' ' ∈ name.toList then .error (.badRequest ("invalid project name: '" ++ name ++ "'"))
  else
    match table.projects.find? fun project => project.name = name with
    | some project => .ok project
    | none => .error (.notFound ("project " ++ name ++ " not found"))

def getByName (name : String) : Except ProjectError Project :=
  if name = "" then .error (.badRequest "project name required") else table.getNamed name

variable {table} {project : Project}

theorem get_eq_some : table.get project.projectID = some project ↔ project ∈ table.projects := by
  constructor
  · exact mem_of_find?_eq_some
  · intro hmem
    cases hget : table.get project.projectID with
    | none =>
      have hnone := find?_eq_none.mp hget project hmem
      simp at hnone
    | some other =>
      have hid := find?_some hget
      have hsame : other.projectID = project.projectID := by
        rw [decide_eq_true_eq] at hid
        omega
      rw [inj_on_of_nodup_map table.ids_nodup (mem_of_find?_eq_some hget) hmem hsame]

theorem mem_of_get {identity : ℤ} (hget : table.get identity = some project) :
    project ∈ table.projects ∧ (project.projectID : ℤ) = identity :=
  ⟨mem_of_find?_eq_some hget, by simpa using find?_some hget⟩

theorem mem_of_getNamed {name : String} (hget : table.getNamed name = .ok project) :
    project ∈ table.projects ∧ project.name = name := by
  unfold getNamed at hget
  split_ifs at hget
  cases hfind : table.projects.find? fun project => project.name = name with
  | none => simp [hfind] at hget
  | some other =>
    rw [hfind] at hget
    cases hget
    exact ⟨mem_of_find?_eq_some hfind, by simpa using find?_some hfind⟩

theorem name_ne_empty (hmem : project ∈ table.projects) : project.name ≠ "" := by
  intro hempty
  have hvalid := table.name_valid project hmem
  rw [hempty] at hvalid
  cases hvalid

theorem getNamed_eq_ok (hmem : project ∈ table.projects) :
    table.getNamed project.name = .ok project := by
  have hspace : ' ' ∉ project.name.toList :=
    notMem_of_validNameFrom rfl rfl (table.name_valid project hmem)
  unfold getNamed
  rw [if_neg hspace]
  cases hfind : table.projects.find? fun other => other.name = project.name with
  | none =>
    have hnone := find?_eq_none.mp hfind project hmem
    simp at hnone
  | some other =>
    have hname : other.name = project.name := by simpa using find?_some hfind
    rw [inj_on_of_nodup_map table.names_nodup (mem_of_find?_eq_some hfind) hmem hname]

theorem getByName_eq_ok (hmem : project ∈ table.projects) :
    table.getByName project.name = .ok project := by
  rw [getByName, if_neg (name_ne_empty hmem), getNamed_eq_ok hmem]

end ProjectTable

def twoProjects : ProjectTable where
  projects := [{ projectID := 1, name := "library" }, { projectID := 2, name := "tools" }]
  ids_nodup := by decide
  names_nodup := by decide
  id_range := by decide
  name_valid := by decide

/-- `publicProjectPolicies`, by subresource and action. -/
def publicProjectPolicies : List (String × String) :=
  [("", "read"), ("label", "read"), ("label", "list"), ("repository", "list"),
    ("repository", "pull"), ("scan", "read"), ("scanner", "read"), ("tag", "list"),
    ("artifact", "read"), ("artifact", "list"), ("artifact-addition", "read"),
    ("accessory", "list")]

def getPoliciesForPublicProject (projectID : ℕ) : List Policy :=
  publicProjectPolicies.map fun entry =>
    { resource := projectResource projectID entry.1, action := entry.2 }

/-- What everybody may do in the project. -/
def Project.publicPolicies (project : Project) : List Policy :=
  if project.isPublic then getPoliciesForPublicProject project.projectID else []

end Harbor.Rbac
