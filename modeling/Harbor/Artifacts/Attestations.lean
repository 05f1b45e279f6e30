import Mathlib.Data.List.Basic
import Harbor.Data.FirstByKey
import Harbor.Data.Loops

/-!
# Attestations of an index

`Classify` divides the descriptors of an index into references and candidates for accessories.
An attestation becomes a candidate if its annotation names a child of the index, or if the
in-toto statement in its payload leads to one: by the digests of its subjects or, where these
lead to none or to several, by their names.

An attestation whose digests lead to several children is to stay a reference.  The names are
asked after such digests as well, and can lead to one child only.
-/

namespace Harbor.Artifacts.Attestations

open Harbor.Data List

/-! ## Descriptors and statements -/

structure Platform where
  architecture : String
  os : String
  variant : String
  deriving DecidableEq

structure Descriptor where
  mediaType : String
  digest : String
  annotations : List (String × String)
  platform : Option Platform
  deriving DecidableEq

/-- The value of an annotation, empty if there is none. -/
def Descriptor.annotation (d : Descriptor) (key : String) : String :=
  (d.annotations.lookup key).getD ""

/-- A subject of a statement; the digests by their algorithms, in the order of the iteration. -/
structure InTotoSubject where
  name : String
  digest : List (String × String)

structure Layer where
  mediaType : String
  size : ℤ
  digest : String

/-- The answers of the registry: media type and layers of a manifest, length and subjects of a
blob.  What is no JSON of the expected form has no layers or subjects. -/
structure Registry where
  pullManifest : String → Except String (String × Option (List Layer))
  pullBlob : String → Except String (ℕ × Option (List InTotoSubject))

structure Row where
  id : ℕ
  digest : String
  size : ℕ

/-- The lookup of artifacts in the repository, which returns the artifact that it was asked for
if it returns one. -/
structure ArtifactManager where
  getByDigest : String → Except String Row
  digest_eq : ∀ digest row, getByDigest digest = .ok row → row.digest = digest

/-- The functions on texts that come from libraries. -/
structure Texts where
  validate : String → Bool
  trimSpace : String → String
  toLower : String → String
  equalFold : String → String → Bool

structure AccessoryCandidate where
  artifactID : ℕ
  subArtifactID : ℕ
  subArtifactRepo : String
  subArtifactDigest : String
  digest : String
  size : ℕ
  type : String

/-! ## The classifier -/

def ociManifest : String := "application/vnd.oci.image.manifest.v1+json"
def dockerManifest : String := "application/vnd.docker.distribution.manifest.v2+json"
def inTotoLayer : String := "application/vnd.in-toto+json"
def maxStatementBytes : ℕ := 4 * 2 ^ 20
def maxSubjectLookups : ℕ := 32

def isAttestationDescriptor (d : Descriptor) : Bool :=
  (d.mediaType = ociManifest || d.mediaType = dockerManifest) &&
    d.annotation "vnd.docker.reference.type" = "attestation-manifest"

def platformChildren (siblings : List Descriptor) : List Descriptor :=
  siblings.filter fun sibling => !isAttestationDescriptor sibling

def digestInIndex (siblings : List Descriptor) (digestRef : String) : Bool :=
  digestRef ≠ "" && siblings.any fun sibling => sibling.digest = digestRef

/-- The loop of `uniqueDigestInIndex` with the match so far. -/
def uniqueFrom (siblings : List Descriptor) : String → List String → String
  | found, [] => found
  | found, digestRef :: rest =>
    if !digestInIndex siblings digestRef then uniqueFrom siblings found rest
    -- a second child: no match at all
    else if found ≠ "" ∧ found ≠ digestRef then ""
    else uniqueFrom siblings digestRef rest

def uniqueDigestInIndex (siblings : List Descriptor) (digestRefs : List String) : String :=
  uniqueFrom siblings "" digestRefs

section Resolution

variable (texts : Texts)

def subjectDigests (subject : InTotoSubject) : List String :=
  (subject.digest.filter fun entry => entry.2 ≠ "").map (fun entry => entry.1 ++ ":" ++ entry.2)
    |>.filter texts.validate

def platformMatchesName (platform : Option Platform) (name : String) : Bool :=
  match platform with
  | none => false
  | some p =>
    ([p.architecture] ++
      (if p.os ≠ "" ∧ p.architecture ≠ "" then [p.os ++ "/" ++ p.architecture] else []) ++
      (if p.os ≠ "" ∧ p.architecture ≠ "" ∧ p.variant ≠ "" then
        [p.os ++ "/" ++ p.architecture ++ "/" ++ p.variant] else [])).any fun candidate =>
      candidate ≠ "" && texts.equalFold candidate name

/-- The loop of `digestBySubjectName` with the match so far. -/
def namedFrom (name : String) : String → List Descriptor → String
  | found, [] => found
  | found, sibling :: rest =>
    if !platformMatchesName texts sibling.platform name then namedFrom name found rest
    -- unlike above, a second match counts even if it has the same digest
    else if found ≠ "" then ""
    else namedFrom name sibling.digest rest

def digestBySubjectName (siblings : List Descriptor) (name : String) : String :=
  if texts.toLower (texts.trimSpace name) = "" then ""
  else namedFrom texts (texts.toLower (texts.trimSpace name)) "" siblings

def resolveSubjectFromStatement (children : List Descriptor) (subjects : List InTotoSubject) :
    String :=
  if uniqueDigestInIndex children (subjects.flatMap (subjectDigests texts)) ≠ "" then
    uniqueDigestInIndex children (subjects.flatMap (subjectDigests texts))
  else
    -- also reached if the digests have led to several children
    uniqueDigestInIndex children
      ((subjects.map fun subject => digestBySubjectName texts children subject.name).filter
        (· ≠ ""))

end Resolution

def readSubjects (regCli : Registry) (digestRef : String) : Except String (List InTotoSubject) :=
  (regCli.pullBlob digestRef).bind fun blob =>
    if blob.1 > maxStatementBytes then .error "in-toto payload exceeds 4194304 bytes"
    else match blob.2 with
      | none => .error "the payload is no statement"
      | some subjects => .ok subjects

def loadSubjects (regCli : Registry) (digestRef : String) : Except String (List InTotoSubject) :=
  (regCli.pullManifest digestRef).bind fun manifest =>
    if manifest.1 ≠ ociManifest ∧ manifest.1 ≠ dockerManifest then
      .error ("unexpected attestation media type " ++ manifest.1)
    else match manifest.2 with
      | none => .error "the content is no manifest"
      | some layers =>
        match layers.find? fun layer => layer.mediaType = inTotoLayer with
        | none => .error ("no in-toto payload found in " ++ digestRef)
        | some layer =>
          if layer.size > maxStatementBytes then
            .error ("in-toto payload too large: " ++ toString layer.size)
          else readSubjects regCli layer.digest

section Classify

variable (texts : Texts) (repository : String) (artMgr : ArtifactManager) (regCli : Registry)
  (children : List Descriptor)

/-- The subject by the payload.  What cannot be loaded has no subjects. -/
def statementSubject (d : Descriptor) : String :=
  resolveSubjectFromStatement texts children
    (match loadSubjects regCli d.digest with
    | .ok subjects => subjects
    | .error _ => [])

/-- The annotated digest if it is one of a child, else that of the payload while there are
lookups left; with the lookups that are left then. -/
def target (lookups : ℕ) (d : Descriptor) : String × ℕ :=
  if digestInIndex children (d.annotation "vnd.docker.reference.digest") then
    (d.annotation "vnd.docker.reference.digest", lookups)
  else if 0 < lookups then (statementSubject texts regCli children d, lookups - 1)
  else ("", lookups)

/-- The subject of a candidate, from the cache or else from the database. -/
def subjectRow (targetDigest : String) (subjects : List (String × Row)) :
    Except String (Row × List (String × Row)) :=
  match subjects.lookup targetDigest with
  | some row => .ok (row, subjects)
  | none => (artMgr.getByDigest targetDigest).map fun row => (row, (targetDigest, row) :: subjects)

def candidate (d : Descriptor) (targetDigest : String) (subjects : List (String × Row)) :
    Except String (AccessoryCandidate × List (String × Row)) :=
  (artMgr.getByDigest d.digest).bind fun accessoryArt =>
    (subjectRow artMgr targetDigest subjects).map fun found =>
      (⟨accessoryArt.id, found.1.id, repository, targetDigest, accessoryArt.digest,
        accessoryArt.size, "attestation.intoto"⟩, found.2)

/-- The loop of `Classify` over the rest of the descriptors. -/
def classifyFrom : ℕ → List (String × Row) → List Descriptor →
    Except String (List Descriptor × List AccessoryCandidate)
  | _, _, [] => .ok ([], [])
  | lookups, subjects, d :: rest =>
    if !isAttestationDescriptor d then
      (classifyFrom lookups subjects rest).map fun result => (d :: result.1, result.2)
    else if (target texts regCli children lookups d).1 = "" then
      (classifyFrom (target texts regCli children lookups d).2 subjects rest).map
        fun result => (d :: result.1, result.2)
    else
      (candidate repository artMgr d (target texts regCli children lookups d).1 subjects).bind
        fun made =>
          (classifyFrom (target texts regCli children lookups d).2 made.2 rest).map
            fun result => (result.1, made.1 :: result.2)

def classify (manifests : List Descriptor) :
    Except String (List Descriptor × List AccessoryCandidate) :=
  if !manifests.any isAttestationDescriptor then .ok (manifests, [])
  else if platformChildren manifests = [] then .ok (manifests, [])
  else
    classifyFrom texts repository artMgr regCli (platformChildren manifests) maxSubjectLookups []
      manifests

end Classify

/-! ## Resolution of a statement -/

section Resolved

variable {texts : Texts} {children : List Descriptor}

theorem digestInIndex_iff {digestRef : String} : digestInIndex children digestRef ↔
    digestRef ≠ "" ∧ ∃ child ∈ children, child.digest = digestRef := by
  simp [digestInIndex]

private theorem uniqueFrom_eq_iff {d : String} (hd : d ≠ "") :
    ∀ (digestRefs : List String) (found : String), uniqueFrom children found digestRefs = d ↔
      (found = d ∨ found = "" ∧ d ∈ digestRefs ∧ digestInIndex children d) ∧
        ∀ digestRef ∈ digestRefs, digestInIndex children digestRef → digestRef = d := by
  intro digestRefs
  induction digestRefs with
  | nil => intro found; simp [uniqueFrom]
  | cons first rest ih =>
    intro found
    rw [uniqueFrom]
    cases hin : digestInIndex children first with
    | false =>
      rw [if_pos (by simp), ih]
      have hne : digestInIndex children d → d ≠ first := by
        rintro hd rfl
        rw [hin] at hd
        cases hd
      grind
    | true =>
      rw [if_neg (by simp)]
      have hfirst : first ≠ "" := (digestInIndex_iff.mp hin).1
      split_ifs with hother
      · grind
      · rw [ih]
        grind

theorem uniqueDigestInIndex_eq_iff {d : String} (hd : d ≠ "") {digestRefs : List String} :
    uniqueDigestInIndex children digestRefs = d ↔ (d ∈ digestRefs ∧ digestInIndex children d) ∧
      ∀ digestRef ∈ digestRefs, digestInIndex children digestRef → digestRef = d := by
  rw [uniqueDigestInIndex, uniqueFrom_eq_iff hd]
  simp [Ne.symm hd]

theorem uniqueDigestInIndex_congr {digestRefs digestRefs' : List String}
    (hsame : ∀ d, d ∈ digestRefs ↔ d ∈ digestRefs') :
    uniqueDigestInIndex children digestRefs = uniqueDigestInIndex children digestRefs' := by
  have hiff : ∀ {d : String}, d ≠ "" → (uniqueDigestInIndex children digestRefs = d ↔
      uniqueDigestInIndex children digestRefs' = d) := by
    intro d hd
    simp only [uniqueDigestInIndex_eq_iff hd, hsame]
  by_cases hempty : uniqueDigestInIndex children digestRefs = ""
  · by_contra hne
    have hempty' : uniqueDigestInIndex children digestRefs' ≠ "" :=
      fun h => hne (hempty.trans h.symm)
    exact hempty' (((hiff hempty').mpr rfl).symm.trans hempty)
  · exact ((hiff hempty).mp rfl).symm

private theorem namedFrom_mem {name : String} :
    ∀ (siblings : List Descriptor) (found : String), namedFrom texts name found siblings = "" ∨
      namedFrom texts name found siblings = found ∨
        ∃ sibling ∈ siblings, sibling.digest = namedFrom texts name found siblings := by
  intro siblings
  induction siblings with
  | nil => intro found; exact .inr (.inl rfl)
  | cons sibling rest ih =>
    intro found
    rw [namedFrom]
    split_ifs with hmatch hfound
    · rcases ih found with h | h | ⟨child, hchild, h⟩
      · exact .inl h
      · exact .inr (.inl h)
      · exact .inr (.inr ⟨child, mem_cons_of_mem _ hchild, h⟩)
    · exact .inl rfl
    · rcases ih sibling.digest with h | h | ⟨child, hchild, h⟩
      · exact .inl h
      · exact .inr (.inr ⟨sibling, mem_cons_self, h.symm⟩)
      · exact .inr (.inr ⟨child, mem_cons_of_mem _ hchild, h⟩)

theorem digestInIndex_digestBySubjectName {name : String}
    (hfound : digestBySubjectName texts children name ≠ "") :
    digestInIndex children (digestBySubjectName texts children name) := by
  refine digestInIndex_iff.mpr ⟨hfound, ?_⟩
  rw [digestBySubjectName] at hfound ⊢
  split_ifs at hfound ⊢ with hname
  · exact absurd rfl hfound
  · rcases @namedFrom_mem texts (texts.toLower (texts.trimSpace name)) children "" with h | h | h
    · exact absurd h hfound
    · exact absurd h hfound
    · exact h

variable (texts children)

/-- The digests of the statement lead to at least two children. -/
def Ambiguous (subjects : List InTotoSubject) : Prop :=
  ∃ d ∈ subjects.flatMap (subjectDigests texts), ∃ d' ∈ subjects.flatMap (subjectDigests texts),
    digestInIndex children d ∧ digestInIndex children d' ∧ d ≠ d'

/-- The names of the statement lead to exactly one child. -/
def NamesOne (subjects : List InTotoSubject) : Prop :=
  ∃ d ≠ "", (∃ subject ∈ subjects, digestBySubjectName texts children subject.name = d) ∧
    ∀ subject ∈ subjects, digestBySubjectName texts children subject.name ≠ "" →
      digestBySubjectName texts children subject.name = d

variable {texts children} {subjects subjects' : List InTotoSubject}

private theorem byName_ne_iff : uniqueDigestInIndex children
      ((subjects.map fun subject => digestBySubjectName texts children subject.name).filter
        (· ≠ "")) ≠ "" ↔ NamesOne texts children subjects := by
  constructor
  · intro hne
    obtain ⟨⟨hmem, -⟩, hall⟩ := (uniqueDigestInIndex_eq_iff hne).mp rfl
    obtain ⟨hmem, -⟩ := mem_filter.mp hmem
    refine ⟨_, hne, mem_map.mp hmem, fun subject hsubject hfound => ?_⟩
    refine hall _ (mem_filter.mpr ⟨mem_map_of_mem hsubject, decide_eq_true hfound⟩) ?_
    exact digestInIndex_digestBySubjectName hfound
  · rintro ⟨d, hd, ⟨subject, hsubject, rfl⟩, hall⟩
    have hone := (@uniqueDigestInIndex_eq_iff children _ hd
      ((subjects.map fun subject => digestBySubjectName texts children subject.name).filter
        (· ≠ ""))).mpr
      ⟨⟨mem_filter.mpr ⟨mem_map_of_mem hsubject, decide_eq_true hd⟩,
        digestInIndex_digestBySubjectName hd⟩, ?_⟩
    · rw [hone]
      exact hd
    · intro d' hd' _
      obtain ⟨hd', hne⟩ := mem_filter.mp hd'
      obtain ⟨other, hother, rfl⟩ := mem_map.mp hd'
      exact hall other hother (of_decide_eq_true hne)

/-- After ambiguous digests the names decide. -/
theorem resolve_ne_iff_of_ambiguous (hambiguous : Ambiguous texts children subjects) :
    resolveSubjectFromStatement texts children subjects ≠ "" ↔
      NamesOne texts children subjects := by
  rw [resolveSubjectFromStatement, if_neg, byName_ne_iff]
  intro hne
  obtain ⟨d, hd, d', hd', hin, hin', hother⟩ := hambiguous
  obtain ⟨-, hall⟩ := (uniqueDigestInIndex_eq_iff hne).mp rfl
  exact hother ((hall d hd hin).trans (hall d' hd' hin').symm)

theorem digestInIndex_resolve (hne : resolveSubjectFromStatement texts children subjects ≠ "") :
    digestInIndex children (resolveSubjectFromStatement texts children subjects) := by
  rw [resolveSubjectFromStatement] at hne ⊢
  split_ifs at hne ⊢
  all_goals exact ((uniqueDigestInIndex_eq_iff hne).mp rfl).1.2

/-- The same subject, with its digests in another order. -/
def SameSubject (subject subject' : InTotoSubject) : Prop :=
  subject.name = subject'.name ∧ subject.digest.Perm subject'.digest

private theorem perm_digests (hsame : List.Forall₂ SameSubject subjects subjects') :
    (subjects.flatMap (subjectDigests texts)).Perm (subjects'.flatMap (subjectDigests texts)) := by
  induction hsame with
  | nil => exact List.Perm.refl _
  | cons hhead _ ih =>
    exact (((hhead.2.filter _).map _).filter _).append ih

private theorem names_eq (hsame : List.Forall₂ SameSubject subjects subjects') :
    subjects.map (·.name) = subjects'.map (·.name) := by
  induction hsame with
  | nil => rfl
  | cons hhead _ ih => rw [map_cons, map_cons, hhead.1, ih]

theorem resolve_congr (hsame : Rearranges SameSubject subjects subjects') :
    resolveSubjectFromStatement texts children subjects =
      resolveSubjectFromStatement texts children subjects' := by
  obtain ⟨middle, hmiddle, hperm⟩ := hsame
  have hnames : (subjects.map fun subject => digestBySubjectName texts children subject.name).Perm
      (subjects'.map fun subject => digestBySubjectName texts children subject.name) := by
    have hmap := congrArg (map (digestBySubjectName texts children)) (names_eq hmiddle)
    rw [map_map, map_map] at hmap
    exact (List.Perm.of_eq hmap).trans (hperm.map _)
  have hbyDigest := @uniqueDigestInIndex_congr children _ _ fun d =>
    ((@perm_digests texts _ _ hmiddle).trans (hperm.flatMap_right _)).mem_iff
  have hbyName := @uniqueDigestInIndex_congr children _ _ fun d =>
    ((hnames.filter (· ≠ "")).mem_iff : d ∈ _ ↔ _)
  rw [resolveSubjectFromStatement, resolveSubjectFromStatement, hbyDigest, hbyName]

end Resolved

/-! ## The division of the descriptors -/

section Division

variable (texts : Texts) (repository : String) (artMgr : ArtifactManager) (regCli : Registry)
  (children : List Descriptor)

/-- An attestation whose annotation names no child. -/
def unnamed (d : Descriptor) : Bool :=
  isAttestationDescriptor d && !digestInIndex children (d.annotation "vnd.docker.reference.digest")

/-- The digest to which a descriptor is attached, empty for a reference. -/
def attach (lookups : ℕ) (d : Descriptor) : String :=
  if isAttestationDescriptor d then (target texts regCli children lookups d).1 else ""

/-- The descriptors with the digests to which they are attached. -/
def division : ℕ → List Descriptor → List (Descriptor × String)
  | _, [] => []
  | lookups, d :: rest =>
    (d, attach texts regCli children lookups d) ::
      division (lookups - if unnamed children d then 1 else 0) rest

/-- The rows in the cache are those of the database. -/
def Cached (subjects : List (String × Row)) : Prop :=
  ∀ digest row, subjects.lookup digest = some row → artMgr.getByDigest digest = .ok row

/-- The candidate is made of the artifact of the descriptor and that of the digest. -/
def MadeFrom (p : Descriptor × String) (c : AccessoryCandidate) : Prop :=
  c.subArtifactDigest = p.2 ∧ c.digest = p.1.digest ∧
    (∃ row, artMgr.getByDigest p.1.digest = .ok row ∧ c.artifactID = row.id) ∧
    ∃ row, artMgr.getByDigest p.2 = .ok row ∧ c.subArtifactID = row.id

variable {texts repository artMgr regCli children} {lookups : ℕ} {subjects : List (String × Row)}
  {d : Descriptor} {refs manifests : List Descriptor} {cands : List AccessoryCandidate}

theorem map_fst_division : ∀ (ds : List Descriptor) (lookups : ℕ),
    (division texts regCli children lookups ds).map (·.1) = ds := by
  intro ds
  induction ds with
  | nil => intro lookups; rfl
  | cons d rest ih => intro lookups; rw [division, map_cons, ih]

/-- A descriptor is attached with the lookups that those before it have left. -/
theorem mem_division_iff {digest : String} : ∀ (ds : List Descriptor) (lookups : ℕ),
    (d, digest) ∈ division texts regCli children lookups ds ↔
      ∃ before after, ds = before ++ d :: after ∧
        digest = attach texts regCli children (lookups - before.countP (unnamed children)) d := by
  intro ds
  induction ds with
  | nil => intro lookups; simp [division]
  | cons first rest ih =>
    intro lookups
    rw [division, mem_cons, ih]
    constructor
    · rintro (heq | ⟨before, after, rfl, rfl⟩)
      · cases heq
        exact ⟨[], rest, rfl, rfl⟩
      · refine ⟨first :: before, after, rfl, ?_⟩
        rw [countP_cons, Nat.sub_sub, Nat.add_comm]
    · rintro ⟨before, after, heq, rfl⟩
      cases before with
      | nil =>
        cases heq
        exact .inl rfl
      | cons _ before =>
        cases heq
        refine .inr ⟨before, after, rfl, ?_⟩
        rw [countP_cons, Nat.sub_sub, Nat.add_comm]

theorem target_snd (hd : isAttestationDescriptor d) :
    (target texts regCli children lookups d).2 =
      lookups - if unnamed children d then 1 else 0 := by
  rw [target, unnamed, hd]
  split_ifs with hin hleft
  all_goals simp_all

theorem candidate_ok {targetDigest : String} {made : AccessoryCandidate × List (String × Row)}
    (hcached : Cached artMgr subjects)
    (hmade : candidate repository artMgr d targetDigest subjects = .ok made) :
    MadeFrom artMgr (d, targetDigest) made.1 ∧ Cached artMgr made.2 := by
  obtain ⟨accessoryArt, hart, hmade⟩ := bind_eq_ok.mp hmade
  obtain ⟨found, hfound, rfl⟩ := map_eq_ok.mp hmade
  have hrow : artMgr.getByDigest targetDigest = .ok found.1 ∧ Cached artMgr found.2 := by
    rw [subjectRow] at hfound
    cases hlookup : subjects.lookup targetDigest with
    | some row =>
      rw [hlookup] at hfound
      cases hfound
      exact ⟨hcached _ _ hlookup, hcached⟩
    | none =>
      rw [hlookup] at hfound
      obtain ⟨row, hrow, rfl⟩ := map_eq_ok.mp hfound
      refine ⟨hrow, fun digest row' hrow' => ?_⟩
      by_cases hdigest : digest = targetDigest
      · subst hdigest
        simp only [lookup_cons_self, Option.some.injEq] at hrow'
        rw [hrow, hrow']
      · refine hcached digest row' ?_
        rwa [lookup_cons, beq_false_of_ne hdigest] at hrow'
  exact ⟨⟨rfl, artMgr.digest_eq _ _ hart, ⟨_, hart, rfl⟩, ⟨_, hrow.1, rfl⟩⟩, hrow.2⟩

/-- The loop keeps what is attached to nothing and makes candidates of the rest. -/
theorem classifyFrom_ok : ∀ (ds : List Descriptor) (lookups : ℕ) (subjects : List (String × Row))
    (refs : List Descriptor) (cands : List AccessoryCandidate), Cached artMgr subjects →
    classifyFrom texts repository artMgr regCli children lookups subjects ds = .ok (refs, cands) →
      refs = ((division texts regCli children lookups ds).filter (·.2 = "")).map (·.1) ∧
        List.Forall₂ (MadeFrom artMgr)
          ((division texts regCli children lookups ds).filter (·.2 ≠ "")) cands := by
  intro ds
  induction ds with
  | nil =>
    rintro lookups subjects refs cands - hok
    cases hok
    exact ⟨rfl, .nil⟩
  | cons d rest ih =>
    intro lookups subjects refs cands hcached hok
    rw [classifyFrom] at hok
    rw [division]
    cases hatt : isAttestationDescriptor d with
    | false =>
      rw [hatt, if_pos (by rfl)] at hok
      obtain ⟨result, hresult, hpair⟩ := map_eq_ok.mp hok
      cases hpair
      obtain ⟨hrefs, hcands⟩ := ih _ _ _ _ hcached hresult
      have hnone : attach texts regCli children lookups d = "" := by simp [attach, hatt]
      have hsame : (if unnamed children d then 1 else 0) = 0 := by simp [unnamed, hatt]
      rw [hnone, hsame, Nat.sub_zero]
      simpa [hrefs] using hcands
    | true =>
      have hattach : attach texts regCli children lookups d =
          (target texts regCli children lookups d).1 := by simp [attach, hatt]
      rw [hatt, if_neg (by simp), ← hattach, target_snd hatt] at hok
      generalize lookups - (if unnamed children d then 1 else 0) = left at hok ⊢
      split_ifs at hok with hnone
      · obtain ⟨result, hresult, hpair⟩ := map_eq_ok.mp hok
        cases hpair
        obtain ⟨hrefs, hcands⟩ := ih _ _ _ _ hcached hresult
        simpa [hnone, hrefs] using hcands
      · obtain ⟨made, hmade, hok⟩ := bind_eq_ok.mp hok
        obtain ⟨result, hresult, hpair⟩ := map_eq_ok.mp hok
        cases hpair
        obtain ⟨hfrom, hcached'⟩ := candidate_ok hcached hmade
        obtain ⟨hrefs, hcands⟩ := ih _ _ _ _ hcached' hresult
        refine ⟨by simpa [hnone] using hrefs, ?_⟩
        simp only [filter_cons, hnone, ne_eq, not_false_eq_true, decide_true, if_true]
        exact .cons hfrom (by simpa using hcands)

theorem digestInIndex_target (hne : (target texts regCli children lookups d).1 ≠ "") :
    digestInIndex children (target texts regCli children lookups d).1 := by
  rw [target] at hne ⊢
  split_ifs at hne ⊢ with hin hleft
  · exact hin
  · exact digestInIndex_resolve hne
  · exact absurd rfl hne

private theorem classifyFrom_of_none {ds : List Descriptor}
    (hnone : ∀ d ∈ ds, isAttestationDescriptor d →
      ∀ lookups, (target texts regCli children lookups d).1 = "") :
    ∀ lookups, classifyFrom texts repository artMgr regCli children lookups subjects ds =
      .ok (ds, []) := by
  induction ds with
  | nil => intro lookups; rfl
  | cons d rest ih =>
    have hrest := ih fun other hother => hnone other (mem_cons_of_mem _ hother)
    intro lookups
    rw [classifyFrom]
    split_ifs with hatt htarget
    · rw [hrest]
      rfl
    · rw [hrest]
      rfl
    · exact absurd (hnone d mem_cons_self (by simpa using hatt) lookups) htarget

/-- The shortcuts change nothing. -/
theorem classify_eq : classify texts repository artMgr regCli manifests =
    classifyFrom texts repository artMgr regCli (platformChildren manifests) maxSubjectLookups []
      manifests := by
  rw [classify]
  split_ifs with hatt hchildren
  · refine (classifyFrom_of_none (fun d hd hd' => ?_) _).symm
    simp only [Bool.not_eq_true', any_eq_false] at hatt
    exact absurd hd' (hatt d hd)
  · refine (classifyFrom_of_none (fun d _ _ lookups => ?_) _).symm
    by_contra hne
    have hin := digestInIndex_target hne
    rw [hchildren] at hin
    simp [digestInIndex] at hin
  · rfl

/-- Between an attestation whose annotation names no child and its place, the names of an
ambiguous statement decide. -/
theorem attach_ne_iff {statement : List InTotoSubject} (hunnamed : unnamed children d)
    (hload : loadSubjects regCli d.digest = .ok statement)
    (hambiguous : Ambiguous texts children statement) :
    attach texts regCli children lookups d ≠ "" ↔
      0 < lookups ∧ NamesOne texts children statement := by
  obtain ⟨hatt, hin⟩ := Bool.and_eq_true_iff.mp hunnamed
  rw [Bool.not_eq_true'] at hin
  rw [attach, if_pos hatt, target, hin, if_neg (by simp), statementSubject, hload]
  split_ifs with hleft
  · rw [resolve_ne_iff_of_ambiguous hambiguous]
    exact (and_iff_right hleft).symm
  · simp [hleft]

end Division

/-! ## Unambiguous subjects -/

/-- The answers are the same up to the order of subjects and digests, or both are failures. -/
def SameStatement : Except String (List InTotoSubject) → Except String (List InTotoSubject) → Prop
  | .ok subjects, .ok subjects' => Rearranges SameSubject subjects subjects'
  | .error _, .error _ => True
  | _, _ => False

theorem classify_congr {texts : Texts} {repository : String} {artMgr : ArtifactManager}
    {regCli regCli' : Registry} {manifests : List Descriptor}
    (hsame : ∀ digest, SameStatement (loadSubjects regCli digest) (loadSubjects regCli' digest)) :
    classify texts repository artMgr regCli' manifests =
      classify texts repository artMgr regCli manifests := by
  have hsubject : ∀ children d, statementSubject texts regCli' children d =
      statementSubject texts regCli children d := by
    intro children d
    have hd := hsame d.digest
    rw [statementSubject, statementSubject]
    revert hd
    rcases loadSubjects regCli d.digest with _ | subjects <;>
      rcases loadSubjects regCli' d.digest with _ | subjects'
    · exact fun _ => rfl
    · exact False.elim
    · exact False.elim
    · exact fun hd => (resolve_congr hd).symm
  have htarget : ∀ children lookups d, target texts regCli' children lookups d =
      target texts regCli children lookups d := by
    intro children lookups d
    rw [target, target, hsubject]
  have hloop : ∀ children ds lookups subjects,
      classifyFrom texts repository artMgr regCli' children lookups subjects ds =
        classifyFrom texts repository artMgr regCli children lookups subjects ds := by
    intro children ds
    induction ds with
    | nil => intro lookups subjects; rfl
    | cons d rest ih =>
      intro lookups subjects
      rw [classifyFrom, classifyFrom, htarget]
      simp only [ih]
  rw [classify_eq, classify_eq, hloop]

/-- A candidate for a descriptor: an attestation, with a child of the index as subject. -/
def Attests (artMgr : ArtifactManager) (manifests : List Descriptor) (d : Descriptor)
    (c : AccessoryCandidate) : Prop :=
  isAttestationDescriptor d ∧ c.digest = d.digest ∧
    (∃ row, artMgr.getByDigest d.digest = .ok row ∧ c.artifactID = row.id) ∧
    ∃ child ∈ manifests, isAttestationDescriptor child = false ∧
      c.subArtifactDigest = child.digest ∧
      ∃ row, artMgr.getByDigest child.digest = .ok row ∧ c.subArtifactID = row.id

/-- References and candidates have each descriptor once, the candidates are attestations of
children and not among those with an ambiguous statement, and another order of subjects and
digests gives the same. -/
def Unambiguous (texts : Texts) (repository : String) (artMgr : ArtifactManager)
    (regCli : Registry) (manifests refs : List Descriptor) (cands : List AccessoryCandidate) :
    Prop :=
  (∃ taken : List Descriptor, (refs ++ taken).Perm manifests ∧
    List.Forall₂ (Attests artMgr manifests) taken cands ∧
    ∀ d ∈ taken, unnamed (platformChildren manifests) d →
      ∀ statement, loadSubjects regCli d.digest = .ok statement →
        ¬ Ambiguous texts (platformChildren manifests) statement) ∧
  ∀ regCli' : Registry,
    (∀ digest, SameStatement (loadSubjects regCli digest) (loadSubjects regCli' digest)) →
      classify texts repository artMgr regCli' manifests = .ok (refs, cands)

theorem MadeFrom.attests {artMgr : ArtifactManager} {texts : Texts} {regCli : Registry}
    {manifests : List Descriptor} {c : AccessoryCandidate} {p : Descriptor × String}
    (hp : p ∈ (division texts regCli (platformChildren manifests) maxSubjectLookups
      manifests).filter (·.2 ≠ ""))
    (hmade : MadeFrom artMgr p c) : Attests artMgr manifests p.1 c := by
  obtain ⟨d, digest⟩ := p
  obtain ⟨hp, hne⟩ := mem_filter.mp hp
  obtain ⟨before, after, -, rfl⟩ := (mem_division_iff manifests _).mp hp
  have hne := of_decide_eq_true hne
  obtain ⟨hsub, hdigest, hrow, hsubRow⟩ := hmade
  have hatt : isAttestationDescriptor d := by
    by_contra hatt
    exact hne (by simp [attach, hatt])
  rw [attach, if_pos hatt] at hne hsub hsubRow
  obtain ⟨-, child, hchild, hchildDigest⟩ := digestInIndex_iff.mp (digestInIndex_target hne)
  obtain ⟨hchild, hkind⟩ := mem_filter.mp hchild
  rw [← hchildDigest] at hsub hsubRow
  exact ⟨hatt, hdigest, hrow, child, hchild, by simpa using hkind, hsub, hsubRow⟩

/-- **Attestations have unambiguous subjects exactly if** the names in an ambiguous statement
that is looked up do not lead to one child only. -/
theorem attestations_unambiguous_iff (texts : Texts) (repository : String)
    (artMgr : ArtifactManager) (regCli : Registry) (manifests refs : List Descriptor)
    (cands : List AccessoryCandidate)
    (hok : classify texts repository artMgr regCli manifests = .ok (refs, cands)) :
    Unambiguous texts repository artMgr regCli manifests refs cands ↔
      ∀ before d after, manifests = before ++ d :: after →
        unnamed (platformChildren manifests) d →
        before.countP (unnamed (platformChildren manifests)) < maxSubjectLookups →
        ∀ statement, loadSubjects regCli d.digest = .ok statement →
          Ambiguous texts (platformChildren manifests) statement →
          ¬ NamesOne texts (platformChildren manifests) statement := by
  obtain ⟨hrefs, hcands⟩ := classifyFrom_ok _ _ _ _ _ (fun _ _ hrow => by cases hrow)
    (classify_eq.symm.trans hok)
  have hmem := fun d digest =>
    @mem_division_iff texts regCli (platformChildren manifests) d digest manifests maxSubjectLookups
  have hall := @map_fst_division texts regCli (platformChildren manifests) manifests
    maxSubjectLookups
  have hattests := fun p hp c => @MadeFrom.attests artMgr texts regCli manifests c p hp
  -- from here on only what has been said about the division is used
  generalize division texts regCli (platformChildren manifests) maxSubjectLookups manifests =
    divided at hrefs hcands hmem hall hattests
  have hperm : (refs ++ (divided.filter (·.2 ≠ "")).map (·.1)).Perm manifests := by
    have hsplit := (filter_append_perm (fun p : Descriptor × String => p.2 = "") divided).map (·.1)
    rw [map_append, hall] at hsplit
    rw [hrefs]
    simpa using hsplit
  constructor
  · rintro ⟨⟨taken, htaken, -, hnone⟩, -⟩ before d after heq hunnamed hleft statement hload
      hambiguous hone
    have hne := (attach_ne_iff hunnamed hload hambiguous).mpr ⟨Nat.sub_pos_of_lt hleft, hone⟩
    -- the references are given, so what is taken can only be what the division attaches
    have hsame := (perm_append_left_iff _).mp (htaken.trans hperm.symm)
    refine hnone d (hsame.mem_iff.mpr (mem_map.mpr ⟨(d, _), mem_filter.mpr
      ⟨(hmem d _).mpr ⟨before, after, heq, rfl⟩, ?_⟩, rfl⟩)) hunnamed statement hload hambiguous
    exact decide_eq_true hne
  · intro hnames
    refine ⟨⟨_, hperm, ?_, ?_⟩, fun regCli' hsame => (classify_congr hsame).trans hok⟩
    · rw [forall₂_map_left_iff]
      have hboth := (forall₂_and_left _ _).mpr ⟨fun p hp => hattests p hp, hcands⟩
      exact hboth.imp fun p c h => h.1 c h.2
    · intro d hd hunnamed statement hload hambiguous
      obtain ⟨⟨d, digest⟩, hp, rfl⟩ := mem_map.mp hd
      obtain ⟨hp, hne⟩ := mem_filter.mp hp
      obtain ⟨before, after, heq, rfl⟩ := (hmem d digest).mp hp
      obtain ⟨hleft, hone⟩ := (attach_ne_iff hunnamed hload hambiguous).mp (of_decide_eq_true hne)
      exact hnames before d after heq hunnamed (Nat.lt_of_sub_pos hleft) statement hload
        hambiguous hone

/-- The functions on texts for lowercase names without blanks. -/
def plainTexts : Texts where
  validate text :=
    match text.toList with
    | 's' :: 'h' :: 'a' :: '2' :: '5' :: '6' :: ':' :: digits =>
      digits.length == 64 && digits.all fun c => c.isDigit || 'a' ≤ c && c ≤ 'f'
    | _ => false
  trimSpace := id
  toLower := id
  equalFold text text' := text = text'

def amd64Image : String :=
  "5861314d7fccb39c2192173240eab44fa35ca66426201ca2acd0630a6258dd51"

def arm64Image : String :=
  "f69162950f235e3cdbbad33f1f912d1a504be90d8a37d002c735d6f3e3882265"

def twoPlatforms : List Descriptor :=
  [⟨ociManifest, "sha256:" ++ amd64Image, [], some ⟨"amd64", "linux", ""⟩⟩,
    ⟨ociManifest, "sha256:" ++ arm64Image, [], some ⟨"arm64", "linux", ""⟩⟩]

def layer : String :=
  "sha256:dac1d7cfa95021764849fd102524e141488c5e3a90f861dbb5a12d9ac8584f85"

/-- A registry that has the statement for every attestation. -/
def registryOf (statement : List InTotoSubject) : Registry where
  pullManifest _ := .ok (ociManifest, some [⟨inTotoLayer, 1, layer⟩])
  pullBlob _ := .ok (1, some statement)

def attestation : Descriptor :=
  ⟨ociManifest, "sha256:813a89a296973e35545cfa74fe3efd172a7d19443c97c625d699e9737229b0a2",
    [("vnd.docker.reference.type", "attestation-manifest")], none⟩

/-- A repository with both images and the attestation. -/
def namedRows : ArtifactManager where
  getByDigest digest :=
    match ((twoPlatforms ++ [attestation]).map Descriptor.digest).idxOf? digest with
    | some index => .ok ⟨index + 1, digest, 0⟩
    | none => .error "not found"
  digest_eq := by
    intro digest row hrow
    split at hrow
    · cases hrow
      rfl
    · cases hrow

/-- A statement with one of the images as its subject. -/
def oneImage : List InTotoSubject := [⟨"app", [("sha256", arm64Image)]⟩]

theorem attestations_unambiguous_oneSubject : ∃ refs cands,
    classify plainTexts "library/app" namedRows (registryOf oneImage)
      (twoPlatforms ++ [attestation]) = .ok (refs, cands) ∧
    Unambiguous plainTexts "library/app" namedRows (registryOf oneImage)
      (twoPlatforms ++ [attestation]) refs cands := by
  refine ⟨_, _, rfl, (attestations_unambiguous_iff _ _ _ _ _ _ _ rfl).mpr ?_⟩
  rintro before d after - - - statement hload ⟨digest, hdigest, digest', hdigest', -, -, hne⟩
  cases hload
  have hone : oneImage.flatMap (subjectDigests plainTexts) = ["sha256:" ++ arm64Image] := rfl
  rw [hone, mem_singleton] at hdigest hdigest'
  exact absurd (hdigest.trans hdigest'.symm) hne

/-- A statement with both images as subjects, only one of which has the name of a platform. -/
def bothImages : List InTotoSubject :=
  [⟨"amd64", [("sha256", amd64Image)]⟩, ⟨"app", [("sha256", arm64Image)]⟩]

/-- The attestation becomes an accessory of the image whose platform is named. -/
theorem ambiguous_attestation_attached : ∃ refs cands,
    classify plainTexts "library/app" namedRows (registryOf bothImages)
      (twoPlatforms ++ [attestation]) = .ok (refs, cands) ∧
    ¬ Unambiguous plainTexts "library/app" namedRows (registryOf bothImages)
      (twoPlatforms ++ [attestation]) refs cands := by
  refine ⟨twoPlatforms, _, rfl, ?_⟩
  rintro ⟨⟨taken, htaken, -, hnone⟩, -⟩
  have hmem : attestation ∈ taken :=
    ((perm_append_left_iff _).mp htaken).mem_iff.mpr (mem_singleton_self _)
  refine hnone attestation hmem rfl bothImages rfl
    ⟨"sha256:" ++ amd64Image, mem_cons_self, "sha256:" ++ arm64Image, ?_, rfl, rfl, by decide⟩
  exact mem_cons_of_mem _ mem_cons_self

end Harbor.Artifacts.Attestations
