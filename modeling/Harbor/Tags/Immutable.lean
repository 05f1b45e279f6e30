import Harbor.Concurrency.Transition
import Harbor.Data.Split
import Mathlib.Data.List.Nodup

/-!
# Immutable tags

The immutability rules of a project (`pkg/immutable`), the matcher that reads them, and the
operations that act on its answer: `Ensure`, `Delete` and `DeleteTags` of the tag controller,
and the middleware in front of a manifest push.

The controller asks for the immutable status of a tag through `populateImmutableStatus`,
which leaves the flag at `false` when the artifact cannot be read, the rules cannot be listed
or a rule cannot be evaluated.  `State.Immutable` says when a tag matches an enabled rule,
whatever the lookups answer; `immutableTags_stay` compares the two over whole runs.
-/

namespace Harbor.Tags

open Harbor.Concurrency Harbor.Data List

/-! ## Selectors -/

/-- What the matcher shows to the selectors. -/
structure Candidate where
  repository : String
  tags : List String
  namespaceName : String := ""
deriving DecidableEq, Repr

/-- Code outside the repository or without a part in the matching itself: the glob
expressions of the doublestar package, and the evaluators of the retention templates. -/
structure Engine where
  doublestar : String → String → Except String Bool
  process : String → List (String × Int) → Candidate → Except String Bool

inductive Decoration
  | «matches» | excludes | repoMatches | repoExcludes | nsMatches | nsExcludes
deriving DecidableEq, Repr

/-- The decorations registered for the doublestar kind. -/
def Decoration.ofText : String → Option Decoration
  | "matches" => some .«matches»
  | "excludes" => some .excludes
  | "repoMatches" => some .repoMatches
  | "repoExcludes" => some .repoExcludes
  | "nsMatches" => some .nsMatches
  | "nsExcludes" => some .nsExcludes
  | _ => none

/-- The selector of a rule, as it is stored. -/
structure SelectorMetadata where
  kind : String
  decoration : String
  pattern : String
deriving DecidableEq, Repr

structure Selector where
  decoration : Decoration
  pattern : String
  untagged : Bool
deriving DecidableEq, Repr

/-- `New` of the doublestar selector; the extras say what becomes of untagged artifacts. -/
def Selector.new (decoration : Decoration) (pattern : String) (extras : Option Bool) : Selector :=
  { decoration, pattern, untagged := extras.getD (decoration ≠ .excludes) }

/-- `index.Get`. -/
def SelectorMetadata.get (selector : SelectorMetadata) (extras : Option Bool) :
    Except String Selector :=
  if selector.kind = "" ∨ selector.decoration = "" then
    .error "empty selector kind or decoration"
  else if selector.kind ≠ "doublestar" then
    .error s!"selector {selector.kind} is not registered"
  else
    match Decoration.ofText selector.decoration with
    | some decoration => .ok (Selector.new decoration selector.pattern extras)
    | none =>
      .error s!"decoration {selector.decoration} of selector {selector.kind} is not supported"

section Matching

variable (engine : Engine)

/-- The empty pattern matches everything. -/
def globMatch (pattern text : String) : Except String Bool :=
  if pattern = "" then .ok true else engine.doublestar pattern text

/-- Whether the pattern answers `wanted` for some tag; the first error ends the loop. -/
def someTag (pattern : String) (wanted : Bool) : List String → Except String Bool
  | [] => .ok false
  | tag :: rest =>
    match globMatch engine pattern tag with
    | .error err => .error err
    | .ok matched => if matched = wanted then .ok true else someTag pattern wanted rest

variable (selector : Selector)

def Selector.tagSelectMatch (art : Candidate) : Except String Bool :=
  if art.tags = [] then .ok selector.untagged
  else someTag engine selector.pattern true art.tags

def Selector.tagSelectExclude (art : Candidate) : Except String Bool :=
  if art.tags = [] then .ok !selector.untagged
  else someTag engine selector.pattern false art.tags

/-- The comparison for repositories and namespaces: an empty value is never selected. -/
def Selector.valueSelect (value : String) (excludes : Bool) : Except String Bool :=
  if value = "" then .ok false
  else (globMatch engine selector.pattern value).map (· != excludes)

/-- `Select`, for the one candidate the matcher passes. -/
def Selector.select (art : Candidate) : Except String Bool :=
  match selector.decoration with
  | .«matches» => selector.tagSelectMatch engine art
  | .excludes => selector.tagSelectExclude engine art
  | .repoMatches => selector.valueSelect engine art.repository false
  | .repoExcludes => selector.valueSelect engine art.repository true
  | .nsMatches => selector.valueSelect engine art.namespaceName false
  | .nsExcludes => selector.valueSelect engine art.namespaceName true

/-! ## Rules -/

/-- The templates of the rule evaluators, with the parameters each requires. -/
def registered : List (String × List String) :=
  [("latestPushedK", ["latestPushedK"]), ("latestPulledN", ["latestPulledN"]),
    ("latestActiveK", ["latestActiveK"]), ("lastXDays", ["lastXDays"]), ("always", []),
    ("nDaysSinceLastPull", ["nDaysSinceLastPull"]),
    ("nDaysSinceLastPush", ["nDaysSinceLastPush"])]

/-- `Get` of the rule index: the template whose evaluator is used. -/
def evaluatorOf (template : String) (parameters : List (String × Int)) : Except String String :=
  if template = "" then .error "empty rule template ID"
  else
    let templateID := if template = "immutable_template" then "always" else template
    match registered.lookup templateID with
    | none => .error s!"rule evaluator {templateID} is not registered"
    | some required =>
      match required.find? fun name => (parameters.lookup name).isNone with
      | some name => .error s!"missing required parameter {name} for rule {templateID}"
      | none => .ok templateID

/-- The always evaluator returns its input. -/
def process (templateID : String) (parameters : List (String × Int)) (art : Candidate) :
    Except String Bool :=
  if templateID = "always" then .ok true else engine.process templateID parameters art

structure Rule where
  id : ℕ
  projectID : ℕ
  disabled : Bool := false
  template : String := "immutable_template"
  parameters : List (String × Int) := []
  tagSelectors : List SelectorMetadata
  repositorySelectors : List SelectorMetadata
deriving DecidableEq, Repr

/-- One round of the loop over the rules, for an enabled rule.  The evaluation fails if a
selector or the template is not registered, if a pattern is malformed, or if `fails`. -/
def Rule.evaluate (rule : Rule) (fails : Bool) (art : Candidate) : Except String Bool :=
  match rule.repositorySelectors with
  | [] => .ok false
  | repositorySelector :: _ => do
    if fails then throw "failed to evaluate the rule"
    let selector ← repositorySelector.get none
    let repositoryCandidate ← selector.select engine art
    if !repositoryCandidate then return false
    match rule.tagSelectors with
    | [] => return false
    | tagSelector :: _ =>
      -- for immutable policy, untagged artifacts are not kept by default
      let selector ← tagSelector.get (some false)
      let tagCandidate ← selector.select engine art
      if !tagCandidate then return false
      let evaluator ← evaluatorOf rule.template rule.parameters
      process engine evaluator rule.parameters art

/-- An enabled rule that selects the candidate. -/
def Rule.Matches (rule : Rule) (art : Candidate) : Prop :=
  rule.disabled = false ∧ rule.evaluate engine false art = .ok true

/-- Which of the lookups behind the immutable status of one tag fail. -/
structure Lookups where
  artifact : Bool := false
  rules : Bool := false
  evaluation : ℕ → Bool := fun _ => false

/-- The loop of `Match`: the first matching rule decides, the first error ends it. -/
def matchRules (lookups : Lookups) (art : Candidate) : List Rule → Except String Bool
  | [] => .ok false
  | rule :: rest =>
    if rule.disabled then matchRules lookups art rest
    else
      match rule.evaluate engine (lookups.evaluation rule.id) art with
      | .error err => .error err
      | .ok true => .ok true
      | .ok false => matchRules lookups art rest

/-- Every enabled rule up to the first one that matches can be evaluated. -/
def Evaluates (lookups : Lookups) (art : Candidate) (rules : List Rule) : Prop :=
  ∀ pre rule post, rules = pre ++ rule :: post → rule.disabled = false →
    (∀ earlier ∈ pre, ¬ earlier.Matches engine art) →
    ∃ matched, rule.evaluate engine (lookups.evaluation rule.id) art = .ok matched

variable {engine} {lookups : Lookups} {art : Candidate} {rules : List Rule}

theorem Rule.evaluate_of_ok {rule : Rule} {fails matched : Bool}
    (hok : rule.evaluate engine fails art = .ok matched) :
    rule.evaluate engine false art = .ok matched := by
  cases hselectors : rule.repositorySelectors with
  | nil => simpa only [evaluate, hselectors] using hok
  | cons repositorySelector rest =>
    cases fails with
    | false => exact hok
    | true =>
      simp only [evaluate, hselectors] at hok
      cases hok

theorem matchRules_eq_true (heval : Evaluates engine lookups art rules)
    (hmatches : ∃ rule ∈ rules, rule.Matches engine art) :
    matchRules engine lookups art rules = .ok true := by
  induction rules with
  | nil => simp at hmatches
  | cons rule rest ih =>
    -- a rule that does not match is passed over, and what follows it can be evaluated
    have hnext : ¬ rule.Matches engine art →
        matchRules engine lookups art rest = .ok true := by
      intro hnot
      apply ih
      · intro pre later post hrest henabled hearlier
        refine heval (rule :: pre) later post (by rw [hrest, cons_append]) henabled ?_
        rintro earlier hmem
        cases mem_cons.mp hmem with
        | inl heq => rwa [heq]
        | inr hmem => exact hearlier earlier hmem
      · obtain ⟨found, hmem, hfound⟩ := hmatches
        cases mem_cons.mp hmem with
        | inl heq => exact absurd (heq ▸ hfound) hnot
        | inr hmem => exact ⟨found, hmem, hfound⟩
    cases hdisabled : rule.disabled with
    | true =>
      rw [matchRules, if_pos hdisabled]
      apply hnext
      intro hrule
      rw [hrule.1] at hdisabled
      cases hdisabled
    | false =>
      obtain ⟨matched, hmatched⟩ := heval [] rule rest rfl hdisabled (by simp)
      rw [matchRules, hdisabled, if_neg (by simp), hmatched]
      cases matched with
      | true => rfl
      | false =>
        apply hnext
        intro hrule
        have hsame := (Rule.evaluate_of_ok hmatched).symm.trans hrule.2
        cases hsame

end Matching

/-! ## The database -/

structure Artifact where
  id : ℕ
  projectID : ℕ
  repositoryName : String
deriving DecidableEq, Repr

structure Tag where
  id : ℕ
  repositoryID : ℕ
  artifactID : ℕ
  name : String
deriving DecidableEq, Repr

structure State where
  artifacts : List Artifact := []
  tags : List Tag := []
  rules : List Rule := []
  nextTag : ℕ := 1
deriving DecidableEq, Repr

inductive TagError
  | precondition (message : String)
  | notFound (message : String)
  | badRequest (message : String)
  | conflict (message : String)
  | violateForeignKey (message : String)
  | general (message : String)
deriving DecidableEq, Repr

/-- The database after an operation, and the error it returns. -/
abbrev Outcome := State × Option TagError

/-- Which statements of an operation fail, and which lookups behind the immutable status of
each tag.  The middleware of a push makes its own lookups. -/
structure Faults where
  reference : Bool := false
  referenceTags : Bool := false
  middleware : ℕ → Lookups := fun _ => {}
  list : Bool := false
  create : Bool := false
  get : ℕ → Bool := fun _ => false
  write : ℕ → Bool := fun _ => false
  status : ℕ → Lookups := fun _ => {}
  statusAgain : ℕ → Lookups := fun _ => {}

/-- The project and the rest of the name of a repository. -/
def parseRepository (repository : String) : String × String :=
  let trimmed := (repository.toList.dropWhile (· = '/')).reverse.dropWhile (· = '/')
  match Split.cut '/' trimmed.reverse with
  | none => ("", String.ofList trimmed.reverse)
  | some (project, rest) => (String.ofList project, String.ofList rest)

/-- The pattern for tag names: a letter, a digit or an underscore first, then at most 127 of
these, dots and hyphens. -/
def isValidTag (name : String) : Bool :=
  let word := fun c : Char => c.isAlphanum || c == '_'
  match name.toList with
  | [] => false
  | first :: rest =>
    word first && rest.all (fun c => word c || c == '.' || c == '-') && rest.length ≤ 127

/-- What the selectors see of a tag of the artifact. -/
def Artifact.candidate (art : Artifact) (name : String) : Candidate :=
  { repository := (parseRepository art.repositoryName).2, tags := [name] }

namespace State

variable (engine : Engine) (state : State)

def artifact (id : ℕ) : Option Artifact :=
  state.artifacts.find? (·.id = id)

/-- The tags of that name under the repository. -/
def named (repositoryID : ℕ) (name : String) : List Tag :=
  state.tags.filter fun tag => tag.repositoryID = repositoryID ∧ tag.name = name

def projectRules (projectID : ℕ) : List Rule :=
  state.rules.filter (·.projectID = projectID)

/-- The tag matches an enabled immutability rule of its project. -/
def Immutable (tag : Tag) : Prop :=
  ∃ art, state.artifact tag.artifactID = some art ∧
    ∃ rule ∈ state.projectRules art.projectID, rule.Matches engine (art.candidate tag.name)

variable (lookups : Lookups)

def «match» (projectID : ℕ) (art : Candidate) : Except String Bool :=
  if lookups.rules then .error "failed to list the immutable rules"
  else matchRules engine lookups art (state.projectRules projectID)

/-- The flag stays `false` when a lookup fails. -/
def populateImmutableStatus (tag : Tag) : Bool :=
  if lookups.artifact then false
  else
    match state.artifact tag.artifactID with
    | none => false
    | some art =>
      match state.match engine lookups art.projectID (art.candidate tag.name) with
      | .error _ => false
      | .ok matched => matched

/-- The lookups behind the immutable status of the tag succeed: the artifact is read, the
rules are listed, and every rule up to the first one that matches can be evaluated. -/
def Answered (tag : Tag) : Prop :=
  lookups.artifact = false ∧ lookups.rules = false ∧
    ∀ art, state.artifact tag.artifactID = some art →
      Evaluates engine lookups (art.candidate tag.name) (state.projectRules art.projectID)

variable {engine state}

theorem populateImmutableStatus_eq_true {lookups : Lookups} {tag : Tag}
    (himmutable : state.Immutable engine tag) (hanswered : state.Answered engine lookups tag) :
    state.populateImmutableStatus engine lookups tag = true := by
  obtain ⟨art, hart, hmatches⟩ := himmutable
  obtain ⟨hartifact, hrules, heval⟩ := hanswered
  have hmatch : state.match engine lookups art.projectID (art.candidate tag.name) = .ok true := by
    rw [State.match, hrules, if_neg (by simp)]
    exact matchRules_eq_true (heval art hart) hmatches
  rw [populateImmutableStatus, hartifact, if_neg (by simp), hart]
  simp only [hmatch]

variable (engine state)

/-! ## The operations -/

/-- `Create`: the name is checked, the row is inserted under its constraints. -/
def create (faults : Faults) (repositoryID artifactID : ℕ) (name : String) : Outcome :=
  if !isValidTag name then (state, some (.badRequest s!"invalid tag name: {name}"))
  else if faults.create then (state, some (.general "failed to create the tag"))
  else if state.named repositoryID name ≠ [] then
    (state, some (.conflict s!"tag {name} already exists under the repository {repositoryID}"))
  else if (state.artifact artifactID).isNone then
    (state, some (.violateForeignKey
      s!"the tag {name} tries to attach to a non existing artifact {artifactID}"))
  else
    ({ state with
        tags := state.tags ++ [⟨state.nextTag, repositoryID, artifactID, name⟩]
        nextTag := state.nextTag + 1 }, none)

/-- `Update` of the artifact a tag points to. -/
def update (faults : Faults) (id artifactID : ℕ) : Outcome :=
  if faults.write id then (state, some (.general "failed to update the tag"))
  else if (state.tags.find? (·.id = id)).isNone then
    (state, some (.notFound s!"tag {id} not found"))
  else if (state.artifact artifactID).isNone then
    (state, some (.violateForeignKey
      s!"the tag {id} tries to attach to a non existing artifact {artifactID}"))
  else
    ({ state with
        tags := state.tags.map fun tag => if tag.id = id then { tag with artifactID } else tag },
      none)

def ensureExistingTag (faults : Faults) (lookups : Lookups) (tag : Tag) (artifactID : ℕ) :
    Outcome :=
  if tag.artifactID = artifactID then (state, none)
  else if state.populateImmutableStatus engine lookups tag then
    (state, some (.precondition
      s!"the tag {tag.name} configured as immutable, cannot be updated"))
  else state.update faults tag.id artifactID

/-- `Ensure`.  The second listing is for a tag that another request has created in between. -/
def ensure (faults : Faults) (repositoryID artifactID : ℕ) (name : String) : Outcome :=
  if faults.list then (state, some (.general "failed to list the tags"))
  else
    match state.named repositoryID name with
    | tag :: _ => state.ensureExistingTag engine faults (faults.status tag.id) tag artifactID
    | [] =>
      match state.create faults repositoryID artifactID name with
      | (after, some (.conflict message)) =>
        match after.named repositoryID name with
        | [] => (after, some (.conflict message))
        | tag :: _ =>
          after.ensureExistingTag engine faults (faults.statusAgain tag.id) tag artifactID
      | outcome => outcome

def delete (faults : Faults) (id : ℕ) : Outcome :=
  if faults.get id then (state, some (.general "failed to get the tag"))
  else
    match state.tags.find? (·.id = id) with
    | none => (state, some (.notFound s!"tag {id} not found"))
    | some tag =>
      if state.populateImmutableStatus engine (faults.status tag.id) tag then
        (state, some (.precondition
          s!"the tag {tag.name} configured as immutable, cannot be deleted"))
      else if faults.write id then (state, some (.general "failed to delete the tag"))
      else ({ state with tags := state.tags.filter (·.id ≠ id) }, none)

end State

/-- `DeleteTags` stops at the first error. -/
def State.deleteTags (engine : Engine) (faults : Faults) : State → List ℕ → Outcome
  | state, [] => (state, none)
  | state, id :: rest =>
    match state.delete engine faults id with
    | (after, none) => deleteTags engine faults after rest
    | (after, some err) => (after, some err)

/-- `handlePush`: refuse the push if the tag is seen to be immutable.  If the artifact or its
tags cannot be read, the push goes on. -/
def State.handlePush (engine : Engine) (state : State) (faults : Faults) (repositoryID : ℕ)
    (repository name : String) : Option TagError :=
  if faults.reference then none
  else
    match state.named repositoryID name with
    | [] => none
    | referenced :: _ =>
      let tags := if faults.referenceTags then []
        else state.tags.filter (·.artifactID = referenced.artifactID)
      if tags.any fun tag =>
          tag.name = name ∧ state.populateImmutableStatus engine (faults.middleware tag.id) tag
      then some (.precondition
        ("Failed to process request due to '" ++ (parseRepository repository).2 ++ ":" ++ name
          ++ "' configured as immutable."))
      else none

/-- A push by tag: the middleware, and behind it the tag of the pushed artifact is ensured. -/
def State.push (engine : Engine) (state : State) (faults : Faults) (repositoryID : ℕ)
    (repository : String) (artifactID : ℕ) (name : String) : Outcome :=
  match state.handlePush engine faults repositoryID repository name with
  | some err => (state, some err)
  | none => state.ensure engine faults repositoryID artifactID name

/-! ## What the operations can do -/

namespace State

variable {engine : Engine} {state : State} {faults : Faults} {repositoryID artifactID : ℕ}
  {name : String} {tag : Tag}

theorem delete_cases (id : ℕ) :
    (state.delete engine faults id).1 = state ∨
      (∃ tag, state.tags.find? (·.id = id) = some tag ∧
        state.populateImmutableStatus engine (faults.status tag.id) tag = false) ∧
      (state.delete engine faults id).1 =
        { state with tags := state.tags.filter (·.id ≠ id) } := by
  rw [delete]
  cases hfind : state.tags.find? (·.id = id) with
  | none => split_ifs <;> exact .inl rfl
  | some tag =>
    simp only
    split_ifs with _ hflag
    · exact .inl rfl
    · exact .inl rfl
    · exact .inl rfl
    · exact .inr ⟨⟨tag, rfl, by simpa using hflag⟩, rfl⟩

theorem update_cases (id artifactID : ℕ) :
    (state.update faults id artifactID).1 = state ∨
      (state.update faults id artifactID).1 =
        { state with
          tags := state.tags.map fun tag =>
            if tag.id = id then { tag with artifactID } else tag } := by
  rw [update]
  split_ifs <;> simp

theorem create_cases (repositoryID artifactID : ℕ) (name : String) :
    (state.create faults repositoryID artifactID name).1 = state ∨
      (state.create faults repositoryID artifactID name).1 =
        { state with
          tags := state.tags ++ [⟨state.nextTag, repositoryID, artifactID, name⟩]
          nextTag := state.nextTag + 1 } := by
  rw [create]
  split_ifs <;> simp

theorem create_ne_conflict {message : String} {after : State}
    (hnone : state.named repositoryID name = []) :
    state.create faults repositoryID artifactID name ≠ (after, some (.conflict message)) := by
  rw [create]
  split_ifs <;> simp_all

theorem ensure_cases (repositoryID artifactID : ℕ) (name : String) :
    (state.ensure engine faults repositoryID artifactID name).1 = state ∨
      (∃ tag ∈ state.named repositoryID name, tag.artifactID ≠ artifactID ∧
        state.populateImmutableStatus engine (faults.status tag.id) tag = false ∧
        (state.ensure engine faults repositoryID artifactID name).1 =
          { state with
            tags := state.tags.map fun other =>
              if other.id = tag.id then { other with artifactID } else other }) ∨
      (state.ensure engine faults repositoryID artifactID name).1 =
        { state with
          tags := state.tags ++ [⟨state.nextTag, repositoryID, artifactID, name⟩]
          nextTag := state.nextTag + 1 } := by
  rw [ensure]
  split_ifs
  · exact .inl rfl
  cases hnamed : state.named repositoryID name with
  | nil =>
    simp only
    split
    · next after message hcreate => exact absurd hcreate (create_ne_conflict hnamed)
    · exact (create_cases repositoryID artifactID name).imp_right .inr
  | cons tag rest =>
    simp only
    rw [ensureExistingTag]
    split_ifs with hsame hflag
    · exact .inl rfl
    · exact .inl rfl
    · refine (update_cases tag.id artifactID).imp_right fun hupdate => .inl ?_
      exact ⟨tag, mem_cons_self, hsame, by simpa using hflag, hupdate⟩

theorem push_cases (repositoryID : ℕ) (repository : String) (artifactID : ℕ) (name : String) :
    (state.push engine faults repositoryID repository artifactID name).1 = state ∨
      (state.push engine faults repositoryID repository artifactID name).1 =
        (state.ensure engine faults repositoryID artifactID name).1 := by
  rw [push]
  cases state.handlePush engine faults repositoryID repository name with
  | none => exact .inr rfl
  | some err => exact .inl rfl

theorem deleteTags_invariant {P : State → Prop} {ids : List ℕ}
    (hdelete : ∀ id ∈ ids, ∀ state, P state → P (State.delete engine state faults id).1)
    (h : P state) : P (state.deleteTags engine faults ids).1 := by
  induction ids generalizing state with
  | nil => exact h
  | cons id rest ih =>
    obtain ⟨hid, hrest⟩ := forall_mem_cons.mp hdelete
    have hnext := hid state h
    rw [State.deleteTags]
    split
    · next after hdelete =>
        rw [hdelete] at hnext
        exact ih hrest hnext
    · next after err hdelete => rwa [hdelete] at hnext

/-! ## Runs -/

/-- The ids of the tags are those of a primary key with a sequence behind it. -/
structure Keyed (state : State) : Prop where
  nodup : (state.tags.map (·.id)).Nodup
  lt_next : ∀ tag ∈ state.tags, tag.id < state.nextTag

variable (hkeyed : state.Keyed)
include hkeyed

theorem Keyed.of_sublist {tags : List Tag} (hsub : tags.Sublist state.tags) :
    Keyed { state with tags } where
  nodup := (hsub.map _).nodup hkeyed.nodup
  lt_next := fun tag htag => hkeyed.lt_next tag (hsub.subset htag)

theorem Keyed.eq_of_id_eq {other : Tag} (htag : tag ∈ state.tags) (hother : other ∈ state.tags)
    (hid : tag.id = other.id) : tag = other :=
  inj_on_of_nodup_map hkeyed.nodup htag hother hid

theorem Keyed.delete (id : ℕ) : (state.delete engine faults id).1.Keyed := by
  cases delete_cases id with
  | inl hsame => rwa [hsame]
  | inr hdelete =>
    rw [hdelete.2]
    exact hkeyed.of_sublist filter_sublist

theorem Keyed.deleteTags (ids : List ℕ) : (state.deleteTags engine faults ids).1.Keyed :=
  deleteTags_invariant (fun id _ _ h => h.delete id) hkeyed

theorem Keyed.ensure (repositoryID artifactID : ℕ) (name : String) :
    (state.ensure engine faults repositoryID artifactID name).1.Keyed := by
  obtain hsame | ⟨tag, -, -, -, hmove⟩ | hcreate := ensure_cases repositoryID artifactID name
  · rwa [hsame]
  · rw [hmove]
    have hids : ∀ other : Tag,
        (if other.id = tag.id then { other with artifactID } else other).id = other.id := by
      intro other
      split_ifs <;> rfl
    constructor
    · simp only [map_map, Function.comp_def, hids]
      exact hkeyed.nodup
    · intro moved hmoved
      obtain ⟨other, hother, rfl⟩ := mem_map.mp hmoved
      rw [hids]
      exact hkeyed.lt_next other hother
  · rw [hcreate]
    constructor
    · rw [map_append]
      refine hkeyed.nodup.append (nodup_singleton _) (disjoint_singleton.mpr fun hmem => ?_)
      obtain ⟨tag, htag, hid⟩ := mem_map.mp hmem
      exact absurd hid (Nat.ne_of_lt (hkeyed.lt_next tag htag))
    · intro tag htag
      cases mem_append.mp htag with
      | inl hold => exact Nat.lt_succ_of_lt (hkeyed.lt_next tag hold)
      | inr hnew =>
        obtain rfl := mem_singleton.mp hnew
        exact Nat.lt_succ_self _

theorem mem_delete (htag : tag ∈ state.tags) (id : ℕ) (hflag : tag.id = id →
      state.populateImmutableStatus engine (faults.status tag.id) tag = true) :
    tag ∈ (state.delete engine faults id).1.tags := by
  obtain hsame | ⟨⟨found, hfound, hunset⟩, hdelete⟩ := delete_cases id
  · rwa [hsame]
  · rw [hdelete]
    refine mem_filter.mpr ⟨htag, ?_⟩
    rw [decide_eq_true_iff]
    intro hid
    have hfoundId : found.id = id := by simpa using find?_some hfound
    obtain rfl := hkeyed.eq_of_id_eq htag (mem_of_find?_eq_some hfound) (hid.trans hfoundId.symm)
    rw [hflag hid] at hunset
    cases hunset

theorem mem_ensure (htag : tag ∈ state.tags)
    (hflag : tag.repositoryID = repositoryID → tag.name = name → tag.artifactID ≠ artifactID →
      state.populateImmutableStatus engine (faults.status tag.id) tag = true) :
    tag ∈ (state.ensure engine faults repositoryID artifactID name).1.tags := by
  obtain hsame | ⟨moved, hmoved, hartifact, hunset, hmove⟩ | hcreate :=
    ensure_cases repositoryID artifactID name
  · rwa [hsame]
  · obtain ⟨hmem, hkey⟩ := mem_filter.mp hmoved
    rw [decide_eq_true_iff] at hkey
    rw [hmove]
    refine mem_map.mpr ⟨tag, htag, if_neg fun hid => ?_⟩
    obtain rfl := hkeyed.eq_of_id_eq htag hmem hid
    rw [hflag hkey.1 hkey.2 hartifact] at hunset
    cases hunset
  · rw [hcreate]
    exact mem_append_left _ htag

/-- The deletions before a tag change neither the artifacts nor the rules, so its flag stays
the same. -/
theorem mem_deleteTags (htag : tag ∈ state.tags) (himmutable : state.Immutable engine tag)
    {ids : List ℕ} (hanswered : tag.id ∈ ids → state.Answered engine (faults.status tag.id) tag) :
    tag ∈ (state.deleteTags engine faults ids).1.tags := by
  refine (deleteTags_invariant (P := fun s => s.Keyed ∧ tag ∈ s.tags ∧
    ∃ tags, s = { state with tags }) ?_ ⟨hkeyed, htag, _, rfl⟩).2.1
  rintro id hid _ ⟨hkeyed', hmem, tags, rfl⟩
  refine ⟨hkeyed'.delete id, mem_delete hkeyed' hmem id fun heq => ?_, ?_⟩
  · exact populateImmutableStatus_eq_true himmutable (hanswered (heq ▸ hid))
  · cases delete_cases id with
    | inl hsame => exact ⟨tags, hsame⟩
    | inr hdelete => exact ⟨_, hdelete.2⟩

end State

/-- The operations on tags, and what else changes the answers about them: the rules of a
project are edited, artifacts are created, and removed once no tag points to them. -/
inductive Op
  | ensure (repositoryID artifactID : ℕ) (name : String)
  | delete (id : ℕ)
  | deleteTags (ids : List ℕ)
  | push (repositoryID : ℕ) (repository : String) (artifactID : ℕ) (name : String)
  | rulesChanged (rules : List Rule)
  | artifactCreated (art : Artifact)
  | artifactRemoved (id : ℕ)

/-- An operation with the failures it meets. -/
structure Action where
  op : Op
  faults : Faults := {}

def step (engine : Engine) (state : State) (action : Action) : Option State :=
  match action.op with
  | .ensure repositoryID artifactID name =>
    some (state.ensure engine action.faults repositoryID artifactID name).1
  | .delete id => some (state.delete engine action.faults id).1
  | .deleteTags ids => some (state.deleteTags engine action.faults ids).1
  | .push repositoryID repository artifactID name =>
    some (state.push engine action.faults repositoryID repository artifactID name).1
  | .rulesChanged rules => some { state with rules }
  | .artifactCreated art =>
    if (state.artifact art.id).isSome then none
    else some { state with artifacts := state.artifacts ++ [art] }
  | .artifactRemoved id =>
    if state.tags.any (·.artifactID = id) then none
    else some { state with artifacts := state.artifacts.filter (·.id ≠ id) }

/-- The operation would delete the tag or move it to another artifact. -/
def Op.Touches (tag : Tag) : Op → Prop
  | .ensure repositoryID artifactID name =>
    tag.repositoryID = repositoryID ∧ tag.name = name ∧ tag.artifactID ≠ artifactID
  | .delete id => tag.id = id
  | .deleteTags ids => tag.id ∈ ids
  | .push repositoryID _ artifactID name =>
    tag.repositoryID = repositoryID ∧ tag.name = name ∧ tag.artifactID ≠ artifactID
  | .rulesChanged _ => False
  | .artifactCreated _ => False
  | .artifactRemoved _ => False

/-- For every immutable tag the operation would delete or move, the controller's lookups of
the immutable status succeed. -/
def LookupsAnswer (engine : Engine) (before : State) (action : Action) (_ : State) : Prop :=
  ∀ tag ∈ before.tags, before.Immutable engine tag → action.op.Touches tag →
    before.Answered engine (action.faults.status tag.id) tag

/-- Every tag that matches an enabled rule is still there, and on the same artifact. -/
def ImmutableStay (engine : Engine) (before : State) (_ : Action) (after : State) : Prop :=
  ∀ tag ∈ before.tags, before.Immutable engine tag → tag ∈ after.tags

section Runs

variable {engine : Engine} {state next : State} {action : Action}

theorem State.Keyed.step (hkeyed : state.Keyed) (hstep : step engine state action = some next) :
    next.Keyed := by
  obtain ⟨op, faults⟩ := action
  cases op with
  | ensure repositoryID artifactID name =>
    cases hstep
    exact hkeyed.ensure repositoryID artifactID name
  | delete id =>
    cases hstep
    exact hkeyed.delete id
  | deleteTags ids =>
    cases hstep
    exact hkeyed.deleteTags ids
  | push repositoryID repository artifactID name =>
    cases hstep
    cases State.push_cases repositoryID repository artifactID name with
    | inl hsame => rwa [hsame]
    | inr hensure =>
      rw [hensure]
      exact hkeyed.ensure repositoryID artifactID name
  | rulesChanged rules =>
    cases hstep
    exact ⟨hkeyed.nodup, hkeyed.lt_next⟩
  | artifactCreated art | artifactRemoved id =>
    obtain ⟨-, hnext⟩ := Option.ite_none_left_eq_some.mp hstep
    cases hnext
    exact ⟨hkeyed.nodup, hkeyed.lt_next⟩

theorem immutableStay_step (hkeyed : state.Keyed) (hstep : step engine state action = some next)
    (hanswer : LookupsAnswer engine state action next) :
    ImmutableStay engine state action next := by
  intro tag htag himmutable
  have hflag : action.op.Touches tag →
      state.populateImmutableStatus engine (action.faults.status tag.id) tag = true :=
    fun htouches => State.populateImmutableStatus_eq_true himmutable
      (hanswer tag htag himmutable htouches)
  obtain ⟨op, faults⟩ := action
  cases op with
  | ensure repositoryID artifactID name =>
    cases hstep
    exact State.mem_ensure hkeyed htag fun hrepo hname hart => hflag ⟨hrepo, hname, hart⟩
  | delete id =>
    cases hstep
    exact State.mem_delete hkeyed htag id hflag
  | deleteTags ids =>
    cases hstep
    exact State.mem_deleteTags hkeyed htag himmutable (hanswer tag htag himmutable)
  | push repositoryID repository artifactID name =>
    cases hstep
    cases State.push_cases repositoryID repository artifactID name with
    | inl hsame => rwa [hsame]
    | inr hensure =>
      rw [hensure]
      exact State.mem_ensure hkeyed htag fun hrepo hname hart => hflag ⟨hrepo, hname, hart⟩
  | rulesChanged rules =>
    cases hstep
    exact htag
  | artifactCreated art | artifactRemoved id =>
    obtain ⟨-, hnext⟩ := Option.ite_none_left_eq_some.mp hstep
    cases hnext
    exact htag

/-- **Immutable tags stay put.**  In every run in which the lookups of the immutable status
succeed for the immutable tags the operations would delete or move, no step deletes such a
tag or moves it to another artifact. -/
theorem immutableTags_stay {start : State} (hstart : start.Keyed) {actions : List Action}
    (hanswer : EveryStep (step engine) (LookupsAnswer engine) start actions) :
    EveryStep (step engine) (ImmutableStay engine) start actions :=
  everyStep_of_invariant State.Keyed
    (fun _ _ _ hkeyed hstep hanswer =>
      ⟨hkeyed.step hstep, immutableStay_step hkeyed hstep hanswer⟩)
    hstart hanswer

end Runs

/-- Glob expressions without wildcards, apart from the one that matches everything. -/
private def literalGlobs : Engine where
  doublestar := fun pattern text =>
    if pattern = "[" then .error "syntax error in pattern"
    else .ok (pattern = "**" || pattern = text)
  process := fun _ _ _ => .ok true

/-- All tags of the project are immutable. -/
private def everyTag : Rule where
  id := 1
  projectID := 1
  tagSelectors := [⟨"doublestar", "matches", "**"⟩]
  repositorySelectors := [⟨"doublestar", "repoMatches", "**"⟩]

/-- A rule with a malformed pattern. -/
private def malformed : Rule where
  id := 2
  projectID := 1
  tagSelectors := [⟨"doublestar", "matches", "["⟩]
  repositorySelectors := [⟨"doublestar", "repoMatches", "**"⟩]

private def released (rules : List Rule) : State where
  artifacts := [⟨1, 1, "library/app"⟩, ⟨2, 1, "library/app"⟩]
  tags := [⟨1, 1, 1, "v1"⟩]
  rules := rules
  nextTag := 2

private theorem released_immutable {rules : List Rule} (hrule : everyTag ∈ rules) :
    (released rules).Immutable literalGlobs ⟨1, 1, 1, "v1"⟩ :=
  ⟨⟨1, 1, "library/app"⟩, rfl, everyTag, mem_filter.mpr ⟨hrule, rfl⟩, rfl, by decide +kernel⟩

/-- Another artifact is pushed to the tag and the tag is deleted: both are refused. -/
theorem immutableTags_stay_released :
    EveryStep (step literalGlobs) (ImmutableStay literalGlobs) (released [everyTag])
      [⟨.push 1 "library/app" 2 "v1", {}⟩, ⟨.delete 1, {}⟩] := by
  have hanswered : ∀ tag ∈ (released [everyTag]).tags,
      (released [everyTag]).Answered literalGlobs {} tag := by
    intro tag htag
    obtain rfl := mem_singleton.mp htag
    refine ⟨rfl, rfl, fun art hart pre rule post hrules _ _ => ⟨true, ?_⟩⟩
    cases hart
    have hmem : rule ∈ [everyTag] := by
      have hsplit : [everyTag] = pre ++ rule :: post := hrules
      simp [hsplit]
    obtain rfl := mem_singleton.mp hmem
    decide +kernel
  have hkeyed : (released [everyTag]).Keyed := ⟨by decide, by decide⟩
  have hpush : step literalGlobs (released [everyTag]) ⟨.push 1 "library/app" 2 "v1", {}⟩ =
      some (released [everyTag]) := by decide +kernel
  have hdelete : step literalGlobs (released [everyTag]) ⟨.delete 1, {}⟩ =
      some (released [everyTag]) := by decide +kernel
  refine immutableTags_stay hkeyed ?_
  refine everyStep_cons hpush (fun tag htag _ _ => hanswered tag htag) ?_
  exact everyStep_cons hdelete (fun tag htag _ _ => hanswered tag htag) trivial

/-- The tag is immutable, but the lookup of its artifact fails, and the tag is deleted.  A
rule with a malformed pattern in front of the matching one has the same effect with no
failure at all: another artifact takes the tag over. -/
theorem immutableTag_lost :
    ((released [everyTag]).Immutable literalGlobs ⟨1, 1, 1, "v1"⟩ ∧
      step literalGlobs (released [everyTag])
        ⟨.delete 1, { status := fun _ => { artifact := true } }⟩ =
          some { released [everyTag] with tags := [] }) ∧
    (released [malformed, everyTag]).Immutable literalGlobs ⟨1, 1, 1, "v1"⟩ ∧
      step literalGlobs (released [malformed, everyTag])
        ⟨.push 1 "library/app" 2 "v1", {}⟩ =
          some { released [malformed, everyTag] with tags := [⟨1, 1, 2, "v1"⟩] } :=
  ⟨⟨released_immutable (by simp), by decide +kernel⟩,
    released_immutable (by simp), by decide +kernel⟩

end Harbor.Tags
