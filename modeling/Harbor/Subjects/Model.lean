import Harbor.Concurrency.Transition
import Mathlib.Logic.Function.Basic
import Mathlib.Tactic

/-!
# Pushes of manifests with a subject

A manifest may name a subject.  After the push of a manifest the middleware
`server/middleware/subject` inserts a row of `artifact_accessory` for it, with the id
of the subject if that exists already, and then looks for rows that name this
manifest as their subject and gives them its id.

A push is a sequence of statements: those of `putManifest` (`ensureArtifact` and
`Ensure` of the tag) and those of the middleware.  `Phase` says which statement comes
next, with the local variables that are still needed; one repository is modelled, and
every statement may fail.
-/

namespace Harbor.Subjects

open Harbor.Concurrency

abbrev Digest : Type := String

/-! ## Manifests -/

/-- The part of `ocispec.Manifest` that the middleware reads; of a layer the keys of its
annotations. -/
structure Manifest where
  subject : Option Digest := none
  configMediaType : String := "application/vnd.oci.image.config.v1+json"
  artifactType : String := ""
  layers : List (List String) := []
  deriving DecidableEq

/-- The types of accessories that the middleware gives. -/
inductive AccessoryType
  | subject
  | nydusAccelerator
  | notationSignature
  | cosignSignature
  | harborSBOM
  deriving DecidableEq

def isNydusImage (manifest : Manifest) : Bool :=
  match manifest.layers.getLast? with
  | none => false
  | some annotations => "containerd.io/snapshot/nydus-bootstrap" ∈ annotations

/-- The type of the accessory comes from the artifact type, or from the config. -/
def Manifest.accessoryType (manifest : Manifest) : AccessoryType :=
  let fromType :=
    if manifest.artifactType ≠ "" then manifest.artifactType else manifest.configMediaType
  if fromType = "application/vnd.oci.image.config.v1+json" ∨
      fromType = "application/vnd.docker.container.image.v1+json" then
    if isNydusImage manifest then .nydusAccelerator else .subject
  else if fromType = "application/vnd.cncf.notary.signature" then .notationSignature
  else if fromType = "application/vnd.dev.cosign.artifact.sig.v1+json" ∨
      fromType = "application/vnd.dev.sigstore.bundle.v0.3+json" then .cosignSignature
  else if fromType = "application/vnd.goharbor.harbor.sbom.v1" then .harborSBOM
  else .subject

/-- A push: the reference of the request is a tag or the digest of the manifest. -/
structure Push where
  manifest : Manifest
  digest : Digest
  reference : String
  size : ℕ := 0
  /-- the request comes from the proxy cache -/
  proxyCache : Bool := false
  deriving DecidableEq

/-! ## Tables -/

structure Artifact where
  id : ℕ
  digest : Digest
  size : ℕ
  deriving DecidableEq

/-- `AccessoryData`; the id of the subject is 0 if it was not found. -/
structure AccessoryData where
  artifactId : ℕ
  subArtifactId : ℕ := 0
  subArtifactDigest : Digest
  size : ℕ
  digest : Digest
  type : AccessoryType
  source : String
  deriving DecidableEq

/-- A row of `artifact_accessory`. -/
structure Accessory extends AccessoryData where
  id : ℕ
  deriving DecidableEq

structure World where
  artifacts : List Artifact := []
  nextArtifact : ℕ := 1
  /-- the ids of the artifacts that the tags name -/
  tags : String → Option ℕ := fun _ => none
  accessories : List Accessory := []
  nextAccessory : ℕ := 1

namespace World

variable (world : World) (digest : Digest)

def getByDigest : Option Artifact :=
  world.artifacts.find? fun art => art.digest = digest

def getByTag (tag : String) : Option Artifact :=
  (world.tags tag).bind fun id => world.artifacts.find? fun art => art.id = id

/-- `GetByReference`; `parses` says for which texts `digest.Parse` gives no error. -/
def getByReference (parses : String → Bool) (reference : String) : Option Artifact :=
  if parses reference then world.getByDigest reference else world.getByTag reference

/-- The artifact that an insertion makes. -/
def newArtifact (size : ℕ) : Artifact :=
  { id := world.nextArtifact, digest := digest, size := size }

def insertArtifact (size : ℕ) : World :=
  { world with
    artifacts := world.artifacts ++ [world.newArtifact digest size]
    nextArtifact := world.nextArtifact + 1 }

def setTag (tag : String) (art : Artifact) : World :=
  { world with tags := Function.update world.tags tag (some art.id) }

/-- There is a row for the artifact and the subject, as the unique constraint compares. -/
def HasAccessory (artifactId : ℕ) (subArtifactDigest : Digest) : Prop :=
  ∃ acc ∈ world.accessories,
    acc.artifactId = artifactId ∧ acc.subArtifactDigest = subArtifactDigest

instance (artifactId : ℕ) (subArtifactDigest : Digest) :
    Decidable (world.HasAccessory artifactId subArtifactDigest) :=
  inferInstanceAs (Decidable (∃ acc ∈ world.accessories,
    acc.artifactId = artifactId ∧ acc.subArtifactDigest = subArtifactDigest))

/-- `Create` of the accessory manager; a conflict is not an error for the middleware. -/
def createAccessory (accData : AccessoryData) : World :=
  if world.HasAccessory accData.artifactId accData.subArtifactDigest then world
  else
    { world with
      accessories := world.accessories ++ [{ accData with id := world.nextAccessory }]
      nextAccessory := world.nextAccessory + 1 }

/-- `List` of the accessory manager by the digest of the subject, the ids. -/
def listAccessories : List ℕ :=
  (world.accessories.filter fun acc => acc.subArtifactDigest = digest).map Accessory.id

def updateAccessory (id subArtifactId : ℕ) : World :=
  { world with
    accessories := world.accessories.map fun acc =>
      if acc.id = id then { acc with subArtifactId := subArtifactId } else acc }

end World

/-! ## A push -/

/-- The statement of a push that comes next, and what it needs. -/
inductive Phase
  /-- `ensureArtifact` -/
  | getByDigest
  | createArtifact
  | getAgain
  /-- `Ensure` of the tag controller -/
  | listTags (art : Artifact)
  | createTag (art : Artifact)
  | listTagsAgain (art : Artifact)
  | updateTag (art : Artifact)
  /-- the middleware, for a manifest with a subject -/
  | getSubject (subject : Digest)
  | getArtifact (subject : Digest) (subjectArt : Option Artifact)
  | createAccessory (accData : AccessoryData)
  /-- the middleware, for every manifest -/
  | listAccessories
  | getListed (accs : List ℕ)
  | updateAccessories (art : Artifact) (accs : List ℕ)
  | succeeded
  | failed
  deriving DecidableEq

namespace Push

variable (parses : String → Bool) (push : Push)

/-- `putManifest` takes the digest from the response unless it is the reference. -/
def dgt : Digest :=
  if parses push.reference then push.reference else push.digest

/-- The middleware starts. -/
def middleware : Phase :=
  match push.manifest.subject with
  | none => .listAccessories
  | some subject => .getSubject subject

/-- The artifact is there; a reference that is a tag follows. -/
def ensured (art : Artifact) : Phase :=
  if parses push.reference then push.middleware else .listTags art

def ensureExistingTag (art : Artifact) (artifactId : ℕ) : Phase :=
  if artifactId = art.id then push.middleware else .updateTag art

/-- What is inserted for the artifact that was found under the reference. -/
def accData (subject : Digest) (subjectArt : Option Artifact) (art : Artifact) : AccessoryData where
  artifactId := art.id
  subArtifactId := (subjectArt.map Artifact.id).getD 0
  subArtifactDigest := subject
  size := art.size
  digest := art.digest
  type := push.manifest.accessoryType
  source := if push.proxyCache then "proxycache" else "local"

/-- One statement of a push that does not fail. -/
def advance (world : World) : Phase → Option (World × Phase)
  | .getByDigest =>
    match world.getByDigest (push.dgt parses) with
    | some art => some (world, push.ensured parses art)
    | none => some (world, .createArtifact)
  | .createArtifact =>
    match world.getByDigest (push.dgt parses) with
    | some _ => some (world, .getAgain)
    | none =>
      some (world.insertArtifact (push.dgt parses) push.size,
        push.ensured parses (world.newArtifact (push.dgt parses) push.size))
  | .getAgain =>
    match world.getByDigest (push.dgt parses) with
    | some art => some (world, push.ensured parses art)
    | none => some (world, .failed)
  | .listTags art =>
    match world.tags push.reference with
    | some id => some (world, push.ensureExistingTag art id)
    | none => some (world, .createTag art)
  | .createTag art =>
    match world.tags push.reference with
    | some _ => some (world, .listTagsAgain art)
    | none => some (world.setTag push.reference art, push.middleware)
  | .listTagsAgain art =>
    match world.tags push.reference with
    | some id => some (world, push.ensureExistingTag art id)
    | none => some (world, .failed)
  | .updateTag art => some (world.setTag push.reference art, push.middleware)
  | .getSubject subject =>
    some (world, .getArtifact subject (world.getByReference parses subject))
  | .getArtifact subject subjectArt =>
    match world.getByReference parses push.reference with
    | some art => some (world, .createAccessory (push.accData subject subjectArt art))
    | none => some (world, .failed)
  | .createAccessory accData => some (world.createAccessory accData, .listAccessories)
  | .listAccessories =>
    if world.listAccessories push.digest = [] then some (world, .succeeded)
    else some (world, .getListed (world.listAccessories push.digest))
  | .getListed accs =>
    match world.getByReference parses push.digest with
    | some art => some (world, .updateAccessories art accs)
    | none => some (world, .failed)
  | .updateAccessories _ [] => some (world, .succeeded)
  | .updateAccessories art (acc :: rest) =>
    some (world.updateAccessory acc art.id,
      if rest = [] then .succeeded else .updateAccessories art rest)
  | .succeeded => none
  | .failed => none

end Push

/-! ## Any number of pushes -/

structure State (Thread : Type) where
  world : World := {}
  phase : Thread → Phase := fun _ => .getByDigest

section System

variable {Thread : Type} [DecidableEq Thread] (parses : String → Bool) (push : Thread → Push)

/-- One push performs its next statement; the action says whether that fails. -/
def step (state : State Thread) (action : Thread × Bool) : Option (State Thread) :=
  ((push action.1).advance parses state.world (state.phase action.1)).map fun next =>
    if action.2 then { state with phase := Function.update state.phase action.1 .failed }
    else ⟨next.1, Function.update state.phase action.1 next.2⟩

end System

end Harbor.Subjects
