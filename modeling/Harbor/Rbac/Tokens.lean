import Harbor.Data.Split
import Harbor.Rbac.Policies

/-!
# Registry tokens

A client asks for a token with a list of scopes.  Each scope becomes an access entry, whose
actions are replaced by those that the client's security context permits.  When the token
is presented, its entries become a map from project names to actions; an entry replaces an
earlier one of the same project.

The issuer takes the project from the text before the first slash of a name, the verifier
from the first part of the name split at slashes.  The token never permits more than the
client was permitted, and no less on the projects that are named when all scopes are well
formed.
-/

namespace Harbor.Rbac

open Data.Split List

/-! ## The access list of a token -/

structure ResourceActions where
  type : String
  name : String
  actions : List String
  deriving DecidableEq, Repr

/-- The access entry of one scope. -/
def parseScope (scope : String) : ResourceActions :=
  match split scope ':' with
  | [] => { type := "", name := "", actions := [] }
  | [type] => { type, name := "", actions := [] }
  | [type, name] => { type, name, actions := [] }
  | type :: items =>
    { type
      name := join items.dropLast ':'
      actions := if items.getLastD "" = "" then [] else split (items.getLastD "") ',' }

def getResourceActions (scopes : List String) : List ResourceActions :=
  (scopes.filter (· ≠ "")).map parseScope

/-- The security context of the client.  `can` is the answer that it gives while the entry of
the given number is filtered; answers may change from one entry to the next. -/
structure Requester where
  isSysAdmin : Bool
  can : ℕ → String → String → Bool

structure Image where
  «namespace» : String
  repo : String
  tag : String
  deriving DecidableEq, Repr

def parseImg (text : String) : Except String Image :=
  match cut '/' text.toList with
  | none => .error ("unable to parse image from string: " ++ text)
  | some (ns, rest) =>
    match cut ':' rest with
    | none => .ok { «namespace» := String.ofList ns, repo := String.ofList rest, tag := "" }
    | some (repo, tag) =>
      .ok { «namespace» := String.ofList ns, repo := String.ofList repo,
            tag := String.ofList tag }

def actionScopeMap : List (String × String) :=
  [("pull", "pull"), ("push", "push"), ("delete", "delete"), ("scanner-pull", "scanner-pull")]

/-- `resourceScopes`; the order of the scopes is not determined in the source. -/
def resourceScopes (can : String → String → Bool) (resource : String) : List String :=
  (actionScopeMap.filter fun entry => can entry.1 resource).map Prod.snd

variable (table : ProjectTable)

def repositoryFilter (can : String → String → Bool) (access : ResourceActions) :
    Except String (List String) := do
  let image ← parseImg access.name
  match table.getByName image.namespace with
  | .ok project => .ok (resourceScopes can (projectResource project.projectID "repository"))
  | .error (.notFound _) => .ok []
  | .error (.badRequest message) => .error message

def registryFilter (isSysAdmin : Bool) (access : ResourceActions) : Except String (List String) :=
  if access.name ≠ "catalog" then
    .error ("unable to handle, type: " ++ access.type ++ ", name: " ++ access.name)
  else if isSysAdmin then .ok access.actions
  else .ok []

/-- The actions that are left of an entry; there are none after an error or without filter. -/
def filteredActions (isSysAdmin : Bool) (can : String → String → Bool) (access : ResourceActions) :
    List String :=
  let result :=
    if access.type = "repository" then repositoryFilter table can access
    else if access.type = "registry" then registryFilter isSysAdmin access
    else .ok []
  match result with
  | .ok actions => actions
  | .error _ => []

variable (requester : Requester)

/-- What the entry of the given number becomes. -/
def filterEntry (i : ℕ) (access : ResourceActions) : ResourceActions :=
  { access with actions := filteredActions table requester.isSysAdmin (requester.can i) access }

def filterAccess (access : List ResourceActions) : List ResourceActions :=
  access.mapIdx (filterEntry table requester)

/-! ## The security context of a token -/

/-- The actions that stand for one action of the token. -/
def tokenActions (action : String) : List String :=
  if action = "*" then ["pull", "push", "delete"]
  else if action ∈ ["pull", "push", "delete", "scanner-pull"] then [action]
  else []

/-- The entry that an access makes in the map. -/
def accessEntry (access : ResourceActions) : Option (String × List String) :=
  if access.type ≠ "repository" then none
  else
    match split access.name '/' with
    | [] => none
    | project :: _ => some (project, access.actions.flatMap tokenActions)

/-- `New`: the map from projects to actions, with the latest entry first. -/
def newAccessMap (access : List ResourceActions) : List (String × List String) :=
  access.foldl (fun accessMap entry => (accessEntry entry).toList ++ accessMap) []

def hasSuffix (text ending : String) : Bool :=
  ending.toList.isSuffixOf text.toList

def tokenCan (accessMap : List (String × List String)) (action resource : String) : Bool :=
  hasSuffix resource "repository" &&
    match projectOf resource with
    | none => false
    | some identity =>
      match table.get identity with
      | none => false
      | some project => (accessMap.lookup project.name).any fun actions => actions.contains action

/-- The map of the token that a client gets for the scopes. -/
def tokenFor (scopes : List String) : List (String × List String) :=
  newAccessMap (filterAccess table requester (getResourceActions scopes))

/-! ## Entries of the map -/

variable {actions : List String} {action : String} {image : Image} {scopes : List String}

theorem mem_newAccessMap {access : List ResourceActions} {key : String} :
    (key, actions) ∈ newAccessMap access ↔
      ∃ entry ∈ access, accessEntry entry = some (key, actions) := by
  -- over any map to begin with
  suffices h : ∀ accessMap : List (String × List String),
      (key, actions) ∈ access.foldl (fun m entry => (accessEntry entry).toList ++ m) accessMap ↔
        (∃ entry ∈ access, accessEntry entry = some (key, actions)) ∨
          (key, actions) ∈ accessMap by
    exact (h []).trans (by simp)
  induction access with
  | nil => simp
  | cons first rest ih =>
    intro accessMap
    rw [foldl_cons, ih]
    simp only [mem_append, Option.mem_toList, exists_mem_cons_iff]
    exact or_left_comm.trans or_assoc.symm

/-- The token permits what the entries say on the project. -/
theorem tokenCan_repository {table : ProjectTable} {project : Project}
    (hmem : project ∈ table.projects) (accessMap : List (String × List String)) (action : String) :
    tokenCan table accessMap action (projectResource project.projectID "repository") =
      (accessMap.lookup project.name).any fun actions => actions.contains action := by
  have hsuffix : hasSuffix (projectResource project.projectID "repository") "repository" =
      true := by
    rw [hasSuffix, isSuffixOf_iff_suffix, projectResource, if_neg (by decide), String.toList_append]
    exact suffix_append _ _
  rw [tokenCan, hsuffix, projectOf_projectResource (table.id_range project hmem).2]
  simp only [ProjectTable.get_eq_some.mpr hmem, Bool.true_and]

/-- The actions that a token can carry. -/
def repositoryActions : List String :=
  ["pull", "push", "delete", "scanner-pull"]

theorem mem_flatMap_resourceScopes {can : String → String → Bool} {resource : String} :
    action ∈ (resourceScopes can resource).flatMap tokenActions ↔
      action ∈ repositoryActions ∧ can action resource = true := by
  have hscopes : ∀ scope, scope ∈ resourceScopes can resource ↔
      scope ∈ repositoryActions ∧ can scope resource = true := by
    intro scope
    simp only [resourceScopes, actionScopeMap, repositoryActions, mem_map, mem_filter, Prod.exists]
    aesop
  have hself : ∀ scope ∈ repositoryActions, tokenActions scope = [scope] := by decide
  rw [mem_flatMap]
  constructor
  · rintro ⟨scope, hscope, haction⟩
    obtain ⟨hlisted, hcan⟩ := (hscopes scope).mp hscope
    rw [hself scope hlisted, mem_singleton] at haction
    rw [haction]
    exact ⟨hlisted, hcan⟩
  · rintro ⟨hlisted, hcan⟩
    refine ⟨action, (hscopes action).mpr ⟨hlisted, hcan⟩, ?_⟩
    rw [hself action hlisted]
    exact mem_singleton_self action

theorem split_of_parseImg {name : String} (himage : parseImg name = .ok image) :
    ∃ rest, split name '/' = image.namespace :: rest := by
  unfold parseImg at himage
  cases hcut : cut '/' name.toList with
  | none => simp [hcut] at himage
  | some parts =>
    obtain ⟨ns, rest⟩ := parts
    obtain ⟨hname, hslash⟩ := eq_append_of_cut hcut
    have hns : image.namespace = String.ofList ns := by
      simp only [hcut] at himage
      split at himage <;> (cases himage; rfl)
    refine ⟨(rest.splitOn '/').map String.ofList, ?_⟩
    rw [split, hname, splitOn_append_cons_self_of_not_mem hslash, hns, map_cons]

variable {table : ProjectTable} {project : Project} {access : ResourceActions} {isSysAdmin : Bool}
  {can : String → String → Bool}

/-- An entry whose name starts with the project gets what the client may do there. -/
theorem filteredActions_of_parse (hmem : project ∈ table.projects)
    (htype : access.type = "repository") (himage : parseImg access.name = .ok image)
    (hname : image.namespace = project.name) :
    filteredActions table isSysAdmin can access =
      resourceScopes can (projectResource project.projectID "repository") := by
  have hfound := ProjectTable.getByName_eq_ok hmem
  simp [filteredActions, htype, repositoryFilter, himage, hname, hfound, bind, Except.bind]

theorem filteredActions_of_error (htype : access.type = "repository") {message : String}
    (himage : parseImg access.name = .error message) :
    filteredActions table isSysAdmin can access = [] := by
  simp [filteredActions, htype, repositoryFilter, himage, bind, Except.bind]

variable {requester : Requester} {i : ℕ}

/-- What an entry of the map may permit on a project. -/
theorem granted_of_accessEntry (hmem : project ∈ table.projects)
    (hentry : accessEntry (filterEntry table requester i access) = some (project.name, actions))
    (haction : action ∈ actions) :
    action ∈ repositoryActions ∧
      requester.can i action (projectResource project.projectID "repository") = true := by
  unfold accessEntry filterEntry at hentry
  split_ifs at hentry with htype
  have htype : access.type = "repository" := not_not.mp htype
  cases himage : parseImg access.name with
  | error message =>
    rw [filteredActions_of_error htype himage] at hentry
    split at hentry
    · cases hentry
    · cases hentry
      cases haction
  | ok image =>
    obtain ⟨rest, hsplit⟩ := split_of_parseImg himage
    simp only [hsplit, Option.some.injEq, Prod.mk.injEq] at hentry
    rw [← hentry.2, filteredActions_of_parse hmem htype himage hentry.1] at haction
    exact mem_flatMap_resourceScopes.mp haction

theorem accessEntry_of_parse (htype : access.type = "repository")
    (himage : parseImg access.name = .ok image) :
    accessEntry (filterEntry table requester i access) = some (image.namespace,
      (filteredActions table requester.isSysAdmin (requester.can i) access).flatMap
        tokenActions) := by
  obtain ⟨rest, hsplit⟩ := split_of_parseImg himage
  simp [accessEntry, filterEntry, htype, hsplit]

/-! ## Well-formed scopes -/

/-- The scope asks for a repository of the project. -/
inductive WellFormed : String → String → Prop
  | bare {project repo : String} (hslash : '/' ∉ project.toList)
      (hproject : ':' ∉ project.toList) (hrepo : ':' ∉ repo.toList) :
      WellFormed ("repository:" ++ project ++ "/" ++ repo) project
  | withActions {project repo actions : String} (hslash : '/' ∉ project.toList)
      (hactions : ':' ∉ actions.toList) :
      WellFormed ("repository:" ++ project ++ "/" ++ repo ++ ":" ++ actions) project

theorem parseImg_append {project : List Char} (hslash : '/' ∉ project) (repo : List Char) :
    ∃ image, parseImg (String.ofList (project ++ '/' :: repo)) = .ok image ∧
      image.namespace = String.ofList project := by
  unfold parseImg
  simp only [String.toList_ofList, cut_append hslash]
  cases cut ':' repo with
  | none | some parts => exact ⟨_, rfl, rfl⟩

/-- A scope with actions: the name may contain colons, the actions are what follows the last. -/
theorem parseScope_append {type name actions : List Char} (htype : ':' ∉ type)
    (hactions : ':' ∉ actions) :
    (parseScope (String.ofList (type ++ ':' :: (name ++ ':' :: actions)))).type =
        String.ofList type ∧
      (parseScope (String.ofList (type ++ ':' :: (name ++ ':' :: actions)))).name =
        String.ofList name := by
  have hsplit : split (String.ofList (type ++ ':' :: (name ++ ':' :: actions))) ':' =
      String.ofList type ::
        ((name.splitOn ':').map String.ofList ++ [String.ofList actions]) := by
    rw [split, String.toList_ofList, splitOn_append_cons_self_of_not_mem htype,
      splitOn_append_cons_self, splitOn_eq_singleton hactions, map_cons,
      map_append, map_singleton]
  have hjoin : join ((name.splitOn ':').map String.ofList) ':' = String.ofList name := by
    rw [join, map_map, show String.toList ∘ String.ofList = id from
      funext fun _ => String.toList_ofList, map_id, intercalate_splitOn]
  unfold parseScope
  rw [hsplit]
  cases hname : (name.splitOn ':').map String.ofList with
  | nil => exact absurd (map_eq_nil_iff.mp hname) (splitOn_ne_nil ':' name)
  | cons first rest =>
    rw [hname] at hjoin
    obtain ⟨second, more, hrest⟩ : ∃ second more, rest ++ [String.ofList actions] =
        second :: more := exists_cons_of_ne_nil (by simp)
    have hdrop : (first :: second :: more).dropLast = first :: rest := by
      rw [← hrest, ← cons_append, dropLast_concat]
    simp only [cons_append, hrest, hdrop, hjoin, and_self]

theorem parseScope_bare {type name : List Char} (htype : ':' ∉ type) (hname : ':' ∉ name) :
    parseScope (String.ofList (type ++ ':' :: name)) =
      { type := String.ofList type, name := String.ofList name, actions := [] } := by
  unfold parseScope
  rw [split, String.toList_ofList, splitOn_append_cons_self_of_not_mem htype,
    splitOn_eq_singleton hname]
  rfl

theorem WellFormed.parse {scope projectName : String} (h : WellFormed scope projectName) :
    scope ≠ "" ∧ (parseScope scope).type = "repository" ∧
      ∃ image, parseImg (parseScope scope).name = .ok image ∧ image.namespace = projectName := by
  have htype : ':' ∉ "repository".toList := by decide
  cases h with
  | @bare project repo hslash hproject hrepo =>
    have hname : ':' ∉ projectName.toList ++ '/' :: repo.toList := by simp [hproject, hrepo]
    have htext : "repository:" ++ projectName ++ "/" ++ repo =
        String.ofList
          ("repository".toList ++ ':' :: (projectName.toList ++ '/' :: repo.toList)) := by
      rw [← String.toList_inj]
      simp [String.toList_append]
    have himage := parseImg_append hslash repo.toList
    rw [String.ofList_toList] at himage
    rw [htext, parseScope_bare htype hname]
    exact ⟨by simp, rfl, himage⟩
  | @withActions project repo actions hslash hactions =>
    have htext : "repository:" ++ projectName ++ "/" ++ repo ++ ":" ++ actions =
        String.ofList ("repository".toList ++
          ':' :: ((projectName.toList ++ '/' :: repo.toList) ++ ':' :: actions.toList)) := by
      rw [← String.toList_inj]
      simp [String.toList_append]
    have himage := parseImg_append hslash repo.toList
    rw [String.ofList_toList] at himage
    have hparse := @parseScope_append "repository".toList
      (projectName.toList ++ '/' :: repo.toList) actions.toList htype hactions
    rw [htext, hparse.1, hparse.2]
    exact ⟨by simp, rfl, himage⟩

/-! ## Rights of a token -/

theorem mem_tokenFor {key : String} :
    (key, actions) ∈ tokenFor table requester scopes ↔
      ∃ i access, (getResourceActions scopes)[i]? = some access ∧
        accessEntry (filterEntry table requester i access) = some (key, actions) := by
  rw [tokenFor, mem_newAccessMap]
  simp only [filterAccess, mem_iff_getElem?, getElem?_mapIdx, Option.map_eq_some_iff]
  constructor
  · rintro ⟨_, ⟨i, access, hget, rfl⟩, hentry⟩
    exact ⟨i, access, hget, hentry⟩
  · rintro ⟨i, access, hget, hentry⟩
    exact ⟨_, ⟨i, access, hget, rfl⟩, hentry⟩

/-- With well-formed scopes only, every entry for a project permits what the client may do
there. -/
theorem grants_of_wellFormed (hall : ∀ scope ∈ scopes, ∃ name, WellFormed scope name)
    (hmem : project ∈ table.projects)
    (hentry : (project.name, actions) ∈ tokenFor table requester scopes)
    (haction : action ∈ repositoryActions) (hcan : ∀ i < (getResourceActions scopes).length,
      requester.can i action (projectResource project.projectID "repository") = true) :
    action ∈ actions := by
  obtain ⟨i, access, hget, hentry⟩ := mem_tokenFor.mp hentry
  obtain ⟨scope, hscope, rfl⟩ := mem_map.mp (mem_of_getElem? hget)
  obtain ⟨name, hformed⟩ := hall scope (mem_of_mem_filter hscope)
  obtain ⟨-, htype, image, himage, -⟩ := hformed.parse
  rw [accessEntry_of_parse htype himage, Option.some.injEq, Prod.mk.injEq] at hentry
  rw [← hentry.2, filteredActions_of_parse hmem htype himage hentry.1]
  exact mem_flatMap_resourceScopes.mpr ⟨haction, hcan i (List.getElem?_eq_some_iff.mp hget).1⟩

theorem exists_mem_tokenFor {scope name : String} (hscope : scope ∈ scopes)
    (hformed : WellFormed scope name) :
    ∃ actions, (name, actions) ∈ tokenFor table requester scopes := by
  obtain ⟨hne, htype, image, himage, rfl⟩ := hformed.parse
  have haccess : parseScope scope ∈ getResourceActions scopes :=
    mem_map_of_mem (mem_filter.mpr ⟨hscope, decide_eq_true hne⟩)
  obtain ⟨i, hget⟩ := mem_iff_getElem?.mp haccess
  exact ⟨_, mem_tokenFor.mpr ⟨i, _, hget, accessEntry_of_parse htype himage⟩⟩

/-- **Registry tokens never add rights.**  What a token permits on the repositories of a
project, the client was permitted while the token was made; and when every scope is well
formed, a token permits on each project that a scope names everything that the client was
permitted there each time. -/
theorem token_rights (table : ProjectTable) (requester : Requester) (scopes : List String) :
    (∀ project ∈ table.projects, ∀ action,
      tokenCan table (tokenFor table requester scopes) action
          (projectResource project.projectID "repository") = true →
        action ∈ repositoryActions ∧ ∃ i < (getResourceActions scopes).length,
          requester.can i action (projectResource project.projectID "repository") = true) ∧
    ((∀ scope ∈ scopes, ∃ name, WellFormed scope name) →
      ∀ scope ∈ scopes, ∀ project ∈ table.projects, WellFormed scope project.name →
        ∀ action ∈ repositoryActions,
          (∀ i < (getResourceActions scopes).length,
            requester.can i action (projectResource project.projectID "repository") = true) →
            tokenCan table (tokenFor table requester scopes) action
              (projectResource project.projectID "repository") = true) := by
  refine ⟨fun project hmem action hcan => ?_, fun hall scope hscope project hmem hformed action
    haction hcan => ?_⟩
  · rw [tokenCan_repository hmem] at hcan
    cases hlookup : (tokenFor table requester scopes).lookup project.name with
    | none => simp [hlookup] at hcan
    | some actions =>
      have hpermitted : action ∈ actions := by simpa [hlookup] using hcan
      obtain ⟨before, after, hmap, -⟩ := lookup_eq_some_iff.mp hlookup
      obtain ⟨i, access, hget, hentry⟩ := mem_tokenFor.mp
        (show (project.name, actions) ∈ tokenFor table requester scopes by simp [hmap])
      obtain ⟨hlisted, hanswer⟩ := granted_of_accessEntry hmem hentry hpermitted
      exact ⟨hlisted, i, (List.getElem?_eq_some_iff.mp hget).1, hanswer⟩
  · rw [tokenCan_repository hmem]
    cases hlookup : (tokenFor table requester scopes).lookup project.name with
    | none =>
      obtain ⟨actions, hentry⟩ := exists_mem_tokenFor hscope hformed
      have hother := lookup_eq_none_iff.mp hlookup _ hentry
      simp at hother
    | some actions =>
      obtain ⟨before, after, hmap, -⟩ := lookup_eq_some_iff.mp hlookup
      have hentry : (project.name, actions) ∈ tokenFor table requester scopes := by simp [hmap]
      have hgranted := grants_of_wellFormed hall hmem hentry haction hcan
      simpa using hgranted

/-- A client that may pull, from any project. -/
def puller : Requester where
  isSysAdmin := false
  can _ action _ := action == "pull"

theorem token_rights_same_project :
    tokenCan twoProjects
        (tokenFor twoProjects puller ["repository:library/a:pull,push", "repository:library/b"])
        "pull" (projectResource 1 "repository") = true ∧
      tokenCan twoProjects
        (tokenFor twoProjects puller ["repository:library/a:pull,push", "repository:library/b"])
        "push" (projectResource 1 "repository") = false := by
  have hfirst : WellFormed "repository:library/a:pull,push" "library" :=
    @WellFormed.withActions "library" "a" "pull,push" (by decide) (by decide)
  have hsecond : WellFormed "repository:library/b" "library" :=
    @WellFormed.bare "library" "b" (by decide) (by decide) (by decide)
  have hrights := token_rights twoProjects puller
    ["repository:library/a:pull,push", "repository:library/b"]
  constructor
  · refine hrights.2 ?_ _ mem_cons_self { projectID := 1, name := "library" } (by decide)
      hfirst "pull" (by decide) fun i _ => rfl
    intro scope hscope
    simp only [mem_cons, not_mem_nil, or_false] at hscope
    rcases hscope with rfl | rfl
    · exact ⟨_, hfirst⟩
    · exact ⟨_, hsecond⟩
  · rw [Bool.eq_false_iff]
    intro hpush
    obtain ⟨-, i, -, hcan⟩ :=
      hrights.1 { projectID := 1, name := "library" } (by decide) "push" hpush
    cases hcan

end Harbor.Rbac
