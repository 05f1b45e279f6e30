import Harbor.Data.Split
import Mathlib.Data.List.Dedup
import Mathlib.Logic.Function.Basic
import Mathlib.Tactic

/-!
# Projects for pushed resources

Before artifacts are pushed to another Harbor, the projects that it does not have are created.
The visibility of a project is merged from its resources, one after the other: the first one
counts as it is, and from the second one on the result is kept as a text.  Parsed, it is the
conjunction over all resources of the project (`parsePublic_collect`), whatever their order.  The
preparation fails only with the listing or with a creation that is no conflict, and otherwise
creates each missing project (`prepareForPush_created`).
-/

namespace Harbor.Replication.Push

open List

inductive Value
  | bool (value : Bool)
  | text (value : String)
  | other

/-- A metadata map, or nil. -/
abbrev Metadata := Option (String → Option Value)

/-- A resource with a repository and a name for it. -/
structure Resource where
  repository : String
  metadata : Metadata
  skip : Bool := false
  named : repository ≠ ""

structure Project where
  name : String
  metadata : Metadata := none
  registryID : ℤ := 0

/-- What the destination answers. -/
structure Destination where
  projects : List Project
  supportsQuery : Bool
  listError : Option String
  /-- The status code and the error of a creation that fails. -/
  createError : Project → Option (ℕ × String)

def strconvParseBool : String → Option Bool
  | "1" | "t" | "T" | "true" | "TRUE" | "True" => some true
  | "0" | "f" | "F" | "false" | "FALSE" | "False" => some false
  | _ => none

def formatBool (value : Bool) : String := if value then "true" else "false"

variable (metadata : Metadata)

def abstractPublicMetadata : Metadata := do
  let entries ← metadata
  let pub ← entries "public"
  some fun key => if key = "public" then some pub else none

def parsePublic : Bool :=
  match metadata with
  | none => false
  | some entries =>
    match entries "public" with
    | some (.bool value) => value
    | some (.text text) => (strconvParseBool text).getD false
    | _ => false

def mergeMetadata (metadata1 metadata2 : Metadata) : Metadata :=
  some fun key =>
    if key = "public" then
      some (.text (formatBool (parsePublic metadata1 && parsePublic metadata2)))
    else none

def Resource.projectName (resource : Resource) : String :=
  (Data.Split.split resource.repository '/').headD ""

/-- The projects of the resources so far, with one more resource. -/
def collect (projects : String → Option Metadata) (resource : Resource) :
    String → Option Metadata :=
  let metadata := abstractPublicMetadata resource.metadata
  Function.update projects resource.projectName
    (match projects resource.projectName with
    | some pro => some (mergeMetadata pro metadata)
    | none => some metadata)

/-- Old versions ignore the query and list all projects. -/
def Destination.listProjectsWithQuery (destination : Destination) (names : List String) :
    List Project :=
  if destination.supportsQuery then
    destination.projects.filter fun project => decide (project.name ∈ names)
  else destination.projects

/-- The projects that are asked to be created, up to the first error but a conflict. -/
def Destination.createProjects (destination : Destination) :
    List Project → List Project × Option String
  | [] => ([], none)
  | project :: rest =>
    match (destination.createError project).filter (·.1 ≠ 409) with
    | some (_, err) => ([project], some err)
    | none =>
      let (calls, err) := destination.createProjects rest
      (project :: calls, err)

def Destination.notExistProjects (destination : Destination) (names : List String)
    (projects : String → Option Metadata) : List Project :=
  names.filterMap fun name =>
    if (destination.listProjectsWithQuery names).any (·.name = name) then none
    else (projects name).map fun metadata => { name, metadata }

/-- Resources of proxy-cache projects are skipped. -/
def Destination.markSkip (destination : Destination) (names : List String)
    (resource : Resource) : Resource :=
  if (destination.listProjectsWithQuery names).any fun p =>
      p.name = resource.projectName ∧ 0 < p.registryID then
    { resource with skip := true }
  else resource

structure Prepared where
  /-- The calls of `CreateProject`. -/
  created : List Project := []
  resources : List Resource
  err : Option String

/-- The order in which a map is gone through. -/
abbrev MapOrder := (names : List String) → { other : List String // other.Perm names }

open Resource

def prepareForPush (destination : Destination) (order : MapOrder) (resources : List Resource) :
    Prepared :=
  let names := (order (resources.map projectName).dedup).1
  match destination.listError with
  | some err => { resources, err := some err }
  | none =>
    let (created, err) := destination.createProjects
      (destination.notExistProjects names (resources.foldl collect fun _ => none))
    match err with
    | some err => { created, resources, err := some err }
    | none => { created, resources := resources.map (destination.markSkip names), err := none }

theorem parsePublic_abstract :
    parsePublic (abstractPublicMetadata metadata) = parsePublic metadata := by
  cases metadata with
  | none => rfl
  | some entries => cases hpublic : entries "public" <;>
      simp [abstractPublicMetadata, parsePublic, hpublic]

theorem parsePublic_merge (metadata1 metadata2 : Metadata) :
    parsePublic (mergeMetadata metadata1 metadata2) =
      (parsePublic metadata1 && parsePublic metadata2) := by
  rw [mergeMetadata]
  generalize (parsePublic metadata1 && parsePublic metadata2) = merged
  cases merged <;> rfl

/-- The visibility of a project is the conjunction over its resources. -/
theorem parsePublic_collect (name : String) (resources : List Resource)
    (projects : String → Option Metadata) :
    ((resources.foldl collect projects name).elim true parsePublic) =
      ((projects name).elim true parsePublic &&
        resources.all fun resource =>
          resource.projectName ≠ name ∨ parsePublic resource.metadata) := by
  induction resources generalizing projects with
  | nil => simp
  | cons resource rest ih =>
    rw [foldl_cons, ih, all_cons, ← Bool.and_assoc]
    congr 1
    by_cases hname : resource.projectName = name
    · subst hname
      cases hprojects : projects resource.projectName <;>
        simp [collect, hprojects, parsePublic_abstract, parsePublic_merge]
    · simp [collect, Function.update_of_ne (Ne.symm hname), hname]

open Destination

theorem createProjects_subset {destination : Destination} (projects : List Project) :
    (destination.createProjects projects).1 ⊆ projects := by
  induction projects with
  | nil => exact List.Subset.refl _
  | cons first rest ih =>
    rw [createProjects]
    split
    · exact cons_subset_cons _ (nil_subset _)
    · exact cons_subset_cons _ ih

variable {destination : Destination} {order : MapOrder} {resources : List Resource}

theorem any_listProjectsWithQuery {names : List String} {f : Project → Bool}
    (hnames : ∀ p, f p → p.name ∈ names) :
    (destination.listProjectsWithQuery names).any f = destination.projects.any f := by
  unfold listProjectsWithQuery
  split_ifs
  · rw [any_filter]
    congr 1
    funext p
    cases hp : f p with
    | false => rw [Bool.and_false]
    | true => simp [hnames p hp]
  · rfl

theorem isSome_collect {name : String} {projects : String → Option Metadata}
    (h : (projects name).isSome ∨ ∃ resource ∈ resources, resource.projectName = name) :
    (resources.foldl collect projects name).isSome := by
  induction resources generalizing projects with
  | nil => simpa using h
  | cons resource rest ih =>
    refine ih ?_
    by_cases hname : resource.projectName = name
    · subst hname
      left
      unfold collect
      rw [Function.update_self]
      split <;> rfl
    · rw [collect, Function.update_of_ne (Ne.symm hname)]
      simpa [hname] using h

/-- The listing succeeds, and so does every creation, unless it is a conflict. -/
def Destination.Answers (destination : Destination) : Prop :=
  destination.listError = none ∧ ∀ project err, destination.createError project = some err →
    err.1 = 409

theorem createProjects_eq (hanswers : destination.Answers) (projects : List Project) :
    destination.createProjects projects = (projects, none) := by
  induction projects with
  | nil => rfl
  | cons project rest ih =>
    have hnone : (destination.createError project).filter (·.1 ≠ 409) = none :=
      Option.filter_eq_none_iff.mpr fun err herr => by simp [hanswers.2 project err herr]
    rw [createProjects, hnone, ih]

/-- The preparation returns nil, and has asked for each project that is missing. -/
theorem prepareForPush_created (hanswers : destination.Answers) :
    (prepareForPush destination order resources).err = none ∧ ∀ name,
      (∃ project ∈ (prepareForPush destination order resources).created, project.name = name) ↔
        (∃ resource ∈ resources, resource.projectName = name) ∧
          ∀ p ∈ destination.projects, p.name ≠ name := by
  simp only [prepareForPush, hanswers.1, createProjects_eq hanswers, true_and]
  intro name
  have hnames : name ∈ (order (resources.map projectName).dedup).1 ↔
      ∃ resource ∈ resources, resource.projectName = name := by
    rw [(order _).2.mem_iff, mem_dedup, mem_map]
  have hlisted : name ∈ (order (resources.map projectName).dedup).1 →
      (destination.listProjectsWithQuery (order (resources.map projectName).dedup).1).any
        (·.name = name) = destination.projects.any (·.name = name) := fun hname =>
    any_listProjectsWithQuery fun p hp => of_decide_eq_true hp ▸ hname
  constructor
  · rintro ⟨project, hproject, rfl⟩
    obtain ⟨name, hname, hnew⟩ := mem_filterMap.mp hproject
    split_ifs at hnew with hexists
    obtain ⟨metadata, -, rfl⟩ := Option.map_eq_some_iff.mp hnew
    rw [hlisted hname] at hexists
    exact ⟨hnames.mp hname, by simpa using hexists⟩
  · rintro ⟨hresource, hmissing⟩
    have hname := hnames.mpr hresource
    obtain ⟨metadata, hmetadata⟩ := Option.isSome_iff_exists.mp
      (@isSome_collect resources name (fun _ => none) (.inr hresource))
    refine ⟨{ name, metadata }, mem_filterMap.mpr ⟨name, hname, ?_⟩, rfl⟩
    rw [if_neg (by rw [hlisted hname]; simpa using hmissing), hmetadata]
    rfl

theorem collect_of_mem_created {project : Project}
    (h : project ∈ (prepareForPush destination order resources).created) :
    resources.foldl collect (fun _ => none) project.name = some project.metadata := by
  have hcalls : project ∈ (destination.createProjects (destination.notExistProjects
      (order (resources.map projectName).dedup).1
      (resources.foldl collect fun _ => none))).1 := by
    simp only [prepareForPush] at h
    split at h
    · cases h
    · split at h <;> exact h
  obtain ⟨name, -, hname⟩ := mem_filterMap.mp (createProjects_subset _ hcalls)
  split_ifs at hname
  obtain ⟨metadata, hmetadata, rfl⟩ := Option.map_eq_some_iff.mp hname
  exact hmetadata

theorem parsePublic_created {project : Project}
    (h : project ∈ (prepareForPush destination order resources).created) :
    parsePublic project.metadata = resources.all fun resource =>
      resource.projectName ≠ project.name ∨ parsePublic resource.metadata := by
  have hparse := parsePublic_collect project.name resources fun _ => none
  rw [collect_of_mem_created h] at hparse
  simpa using hparse

/-- **Visibility of created projects.**  A project is created as public only if all its resources
are, whatever their order.  If the destination answers, the preparation returns nil and creates
exactly the missing projects, and whenever it returns nil, exactly the resources of proxy-cache
projects are marked. -/
theorem prepareForPush_keeps_private (destination : Destination) (order : MapOrder)
    (resources : List Resource) :
    (∀ project ∈ (prepareForPush destination order resources).created,
      parsePublic project.metadata = true →
        ∀ resource ∈ resources, resource.projectName = project.name →
          parsePublic resource.metadata = true) ∧
    (∀ order' resources', resources'.Perm resources →
      ∀ project ∈ (prepareForPush destination order resources).created,
      ∀ project' ∈ (prepareForPush destination order' resources').created,
        project.name = project'.name →
          parsePublic project.metadata = parsePublic project'.metadata) ∧
    (destination.Answers → (prepareForPush destination order resources).err = none ∧ ∀ name,
      (∃ project ∈ (prepareForPush destination order resources).created, project.name = name) ↔
        (∃ resource ∈ resources, resource.projectName = name) ∧
          ∀ p ∈ destination.projects, p.name ≠ name) ∧
    ((prepareForPush destination order resources).err = none →
      (prepareForPush destination order resources).resources =
        resources.map fun resource => { resource with
          skip := resource.skip || destination.projects.any fun p =>
            p.name = resource.projectName ∧ 0 < p.registryID }) := by
  refine ⟨fun project hproject hpublic resource hresource hname => ?_,
    fun order' resources' hperm project hproject project' hproject' hname => ?_,
    prepareForPush_created, fun herr => ?_⟩
  · rw [parsePublic_created hproject, all_eq_true] at hpublic
    simpa [hname] using hpublic resource hresource
  · rw [parsePublic_created hproject, parsePublic_created hproject', hname, hperm.all_eq]
  · simp only [prepareForPush] at herr ⊢
    split at herr
    · cases herr
    · split at herr
      · cases herr
      · refine map_congr_left fun resource hresource => ?_
        have hname : resource.projectName ∈ (order (resources.map projectName).dedup).1 :=
          (order _).2.mem_iff.mpr (mem_dedup.mpr (mem_map_of_mem hresource))
        rw [markSkip, any_listProjectsWithQuery fun p hp =>
          (of_decide_eq_true hp).1 ▸ hname]
        split_ifs with hproxy
        · rw [hproxy, Bool.or_true]
        · rw [Bool.eq_false_iff.mpr hproxy, Bool.or_false]

/-- A destination with a proxy-cache project. -/
def proxied : Destination where
  projects := [{ name := "cache", registryID := 3 }]
  supportsQuery := true
  listError := none
  createError := fun _ => none

/-- A resource of a project with its visibility. -/
def visible (repository : String) (value : Value) (named : repository ≠ "") : Resource where
  repository := repository
  metadata := some fun key => if key = "public" then some value else none
  named := named

/-- Of a public and a private repository a private project is made. -/
theorem prepareForPush_keeps_private_library :
    let resources := [visible "library/a" (.bool true) (by decide),
      visible "library/b" (.text "false") (by decide),
      visible "cache/c" (.text "true") (by decide)]
    let prepared := prepareForPush proxied (fun names => ⟨names, .refl _⟩) resources
    prepared.err = none ∧ prepared.resources.map skip = [false, false, true] ∧
      ∃ project ∈ prepared.created, project.name = "library" ∧
        parsePublic project.metadata = false := by
  intro resources prepared
  obtain ⟨hprivate, -, hanswers, hskip⟩ := prepareForPush_keeps_private proxied
    (fun names => ⟨names, .refl _⟩) resources
  obtain ⟨herr, hcreated⟩ := hanswers ⟨rfl, fun _ _ => nofun⟩
  obtain ⟨project, hproject, hname⟩ := (hcreated "library").mpr ⟨⟨_, mem_cons_self, rfl⟩, by decide⟩
  refine ⟨herr, by rw [hskip herr]; rfl, project, hproject, hname, ?_⟩
  refine Bool.eq_false_iff.mpr fun hpublic => ?_
  exact absurd (hprivate project hproject hpublic (visible "library/b" (.text "false") (by decide))
    (by simp [resources]) (by rw [hname]; rfl)) (by decide)

end Harbor.Replication.Push
