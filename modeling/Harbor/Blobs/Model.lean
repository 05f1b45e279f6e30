import Harbor.Concurrency.RelyGuarantee
import Mathlib.Tactic

/-!
# Blobs

The table `blob` with its status (`pkg/blob/models`), the tables `project_blob`
and `artifact_blob` that refer to it, and the statements of `pkg/blob/dao`, each
of which is one operation.  Sizes and creation times are left out.

A row is marked for deletion, set to deleting and brought back by statements that
compare the version, so `BlobWorld` also keeps what the running collection
remembers (`remembered`), which blob each of its workers has set to deleting and
is not done with (`sweeping`), and a log of the events that the results are about.
-/

namespace Harbor.Blobs

open Harbor.Concurrency

abbrev Digest : Type := String

/-! ## Rows -/

inductive BlobStatus
  | none
  | delete
  | deleting
  | deleteFailed
  deriving DecidableEq, Repr

/-- `StatusMap`: the accepted source statuses of a target status. -/
def statusMap : BlobStatus → List BlobStatus
  | .none => [.none, .delete, .deleteFailed]
  | .delete => [.none, .delete, .deleteFailed]
  | .deleting => [.delete]
  | .deleteFailed => [.deleting]

/-- A row of the table `blob`, without its id. -/
structure BlobRow where
  digest : Digest
  contentType : String
  status : BlobStatus := .none
  version : ℕ := 0
  updateTime : ℕ := 0
  deriving DecidableEq, Repr

/-- `models.Blob`. -/
structure Blob extends BlobRow where
  id : ℕ
  deriving DecidableEq, Repr

def Blob.isForeignLayer (blob : Blob) : Bool :=
  blob.contentType = "application/vnd.docker.image.rootfs.foreign.diff.tar.gzip"

def Blob.isManifest (blob : Blob) : Bool :=
  blob.contentType ∈
    ["application/vnd.docker.distribution.manifest.v2+json",
      "application/vnd.docker.distribution.manifest.v1+json",
      "application/vnd.docker.distribution.manifest.v1+prettyjws",
      "application/vnd.oci.image.manifest.v1+json", "application/vnd.oci.image.index.v1+json",
      "application/vnd.docker.distribution.manifest.list.v2+json"]

/-- The condition of `UpdateBlobStatus`: bringing a blob back only needs a version that
is not older, everything else needs the very version. -/
def BlobRow.Accepts (row : BlobRow) (version : ℕ) (target : BlobStatus) : Prop :=
  (if target = .none then version ≤ row.version else row.version = version) ∧
    row.status ∈ statusMap target

instance (row : BlobRow) (version : ℕ) (target : BlobStatus) :
    Decidable (row.Accepts version target) :=
  inferInstanceAs (Decidable (_ ∧ _))

/-- What `UpdateBlobStatus` makes of a row. -/
def BlobRow.moveTo (row : BlobRow) (target : BlobStatus) (now : ℕ) : BlobRow :=
  { row with status := target, version := row.version + 1, updateTime := now }

/-! ## Errors -/

/-- The code of an error; `errGcStop` and `readonly.Err` are compared as values. -/
inductive ErrorCode
  | unset
  | badRequest
  | notFound
  | manifestInvalid
  | readOnly
  | canceled
  | timeout
  | gcStop
  deriving DecidableEq, Repr

/-- An error with its code and what `Error()` gives. -/
structure BlobFailure where
  code : ErrorCode := .unset
  text : String
  deriving DecidableEq, Repr

def BlobFailure.isNotFound (err : BlobFailure) : Bool :=
  err.code = .notFound

/-- `errors.Wrapf`, which does not keep the code. -/
def BlobFailure.wrap (err : BlobFailure) (text : String) : BlobFailure :=
  { text := text ++ ": " ++ err.text }

/-! ## The world -/

/-- Who updates a status: a client, the collection when it marks, or one of its workers. -/
inductive Actor
  | client
  | marker
  | worker (index : ℕ)
  deriving DecidableEq

/-- What the results are about; `referenced` is whether a row of `project_blob`
refers to the blob at that moment. -/
inductive BlobEvent
  | snapshot (ids : List ℕ)
  | touched (id : ℕ)
  | deleting (id : ℕ)
  | deleteBlob (id : ℕ) (referenced : Bool)
  deriving DecidableEq

structure ArtifactTrash where
  id : ℕ
  repository : String
  digest : Digest

/-- What the workers of a collection are given. -/
structure SweepPlan where
  trashedArts : List ArtifactTrash
  chunks : List (List Blob)

structure BlobWorld where
  rows : ℕ → Option BlobRow := fun _ => none
  nextId : ℕ := 0
  /-- the projects and the ids of the blobs in them -/
  projectBlobs : List (ℕ × ℕ) := []
  /-- the digests of the artifacts and of the blobs in them -/
  artifactBlobs : List (Digest × Digest) := []
  clock : ℕ := 0
  plan : Option SweepPlan := none
  /-- the ids and versions that the collection has seen -/
  remembered : List (ℕ × ℕ) := []
  sweeping : ℕ → Option ℕ := fun _ => none
  log : List BlobEvent := []

namespace BlobWorld

variable (world : BlobWorld)

/-- Some row of `project_blob` refers to the blob. -/
def Referenced (id : ℕ) : Prop :=
  ∃ reference ∈ world.projectBlobs, reference.2 = id

instance (id : ℕ) : Decidable (world.Referenced id) :=
  inferInstanceAs (Decidable (∃ reference ∈ world.projectBlobs, reference.2 = id))

/-- The rows, in the order of their ids. -/
def blobs : List Blob :=
  (List.range world.nextId).filterMap fun id =>
    (world.rows id).map fun row => { row with id := id }

/-- `GetBlobByDigest`. -/
def getByDigest (digest : Digest) : Option Blob :=
  world.blobs.find? fun blob => blob.digest = digest

/-- `GetBlobsNotRefedByProjectBlob`. -/
def uselessBlobs (timeWindow : ℕ) : List Blob :=
  world.blobs.filter fun blob =>
    ¬ world.Referenced blob.id ∧ blob.updateTime + timeWindow ≤ world.clock

/-- A page of the blobs of a project that were not updated within the window before `now`,
from an id on. -/
def listProject (project fromId now timeWindow pageSize : ℕ) : List Blob :=
  (world.blobs.filter fun blob =>
    (project, blob.id) ∈ world.projectBlobs ∧ fromId ≤ blob.id ∧
      blob.updateTime + timeWindow ≤ now).take pageSize

def setRow (id : ℕ) (row : BlobRow) : BlobWorld :=
  { world with rows := Function.update world.rows id (some row) }

/-- What the collection and the log note when a status is updated. -/
def noteStatus (actor : Actor) (id version : ℕ) (target : BlobStatus) : BlobWorld :=
  match actor, target with
  | .client, .none => { world with log := .touched id :: world.log }
  | .marker, .delete => { world with remembered := (id, version) :: world.remembered }
  | .worker worker, .deleting =>
    { world with
      sweeping := Function.update world.sweeping worker (some id)
      log := .deleting id :: world.log }
  | .worker worker, .deleteFailed =>
    { world with sweeping := Function.update world.sweeping worker none }
  | _, _ => world

/-- `UpdateBlobStatus`: the new version, or nothing if no row was updated. -/
def updateStatus (actor : Actor) (blob : Blob) (target : BlobStatus) : BlobWorld × Option ℕ :=
  match world.rows blob.id with
  | none => (world, none)
  | some row =>
    if row.Accepts blob.version target then
      ((world.setRow blob.id (row.moveTo target world.clock)).noteStatus actor blob.id
          (row.version + 1) target,
        some (row.version + 1))
    else (world, none)

/-- `UpdateBlob`, for the content type. -/
def updateBlob (now : ℕ) (rows : ℕ → Option BlobRow) (blob : Blob) : ℕ → Option BlobRow :=
  Function.update rows blob.id ((rows blob.id).map fun row =>
    { row with contentType := blob.contentType, updateTime := now })

/-- Blobs get their content types. -/
def updateBlobs (blobs : List Blob) : BlobWorld :=
  { world with rows := blobs.foldl (updateBlob world.clock) world.rows }

/-- `CreateBlob`: a row that is already there for the digest is overwritten. -/
def createBlob (digest : Digest) (contentType : String) : BlobWorld × ℕ :=
  let row : BlobRow :=
    { digest := digest, contentType := contentType, updateTime := world.clock }
  match world.getByDigest digest with
  | some blob => (world.setRow blob.id row, blob.id)
  | none => ({ world.setRow world.nextId row with nextId := world.nextId + 1 }, world.nextId)

def createProjectBlob (project id : ℕ) : BlobWorld :=
  { world with projectBlobs := world.projectBlobs.insert (project, id) }

def deleteProjectBlob (project : ℕ) (ids : List ℕ) : BlobWorld :=
  { world with
    projectBlobs := world.projectBlobs.filter fun reference =>
      ¬ (reference.1 = project ∧ reference.2 ∈ ids) }

/-- `UselessBlobs`, as the collection remembers them. -/
def snapshot (timeWindow : ℕ) : BlobWorld × List Blob :=
  ({ world with
      remembered := (world.uselessBlobs timeWindow).map (fun blob => (blob.id, blob.version)) ++
        world.remembered
      log := .snapshot ((world.uselessBlobs timeWindow).map Blob.id) :: world.log },
    world.uselessBlobs timeWindow)

/-- The worker is done with the blob it has set to deleting. -/
def release (worker : ℕ) : BlobWorld :=
  { world with sweeping := Function.update world.sweeping worker none }

/-- The registry is asked to delete a blob. -/
def callDeleteBlob (blob : Blob) : BlobWorld :=
  { world with log := .deleteBlob blob.id (decide (world.Referenced blob.id)) :: world.log }

/-- `DeleteBlob` of the dao. -/
def deleteRow (worker : ℕ) (blob : Blob) : BlobWorld × Except BlobFailure Unit :=
  match world.rows blob.id with
  | none =>
    (world.release worker, .error ⟨.notFound, s!"blob {blob.id} not found"⟩)
  | some _ =>
    ({ world.release worker with rows := Function.update world.rows blob.id none }, .ok ())

end BlobWorld

/-! ## Operations -/

/-- The statements and calls of the requests and of the collection.  Those from `ask`
to `poll` are answered by what is not modelled: the registry, the other tables, the
signal to stop, a timeout. -/
inductive BlobOp
  | get (digest : Digest)
  | list (digests : List Digest)
  | listProject (project fromId now timeWindow pageSize : ℕ)
  | existsArtifact (artifact : Digest)
  | now
  | ask
  | query
  | associations
  | trash
  | poll
  | tick
  | updateStatus (actor : Actor) (blob : Blob) (target : BlobStatus)
  /-- the transaction in which blobs get their content types -/
  | updateBlobs (blobs : List Blob)
  | createBlob (digest : Digest) (contentType : String)
  /-- the writes of the transaction after an upload, when it commits -/
  | commitUpload (project : ℕ) (digest : Digest) (found : Option ℕ)
  | createProjectBlob (project id : ℕ)
  | deleteProjectBlob (project : ℕ) (ids : List ℕ)
  | createArtifactBlob (artifact digest : Digest)
  | deleteArtifactBlob (artifact : Digest)
  | snapshot (timeWindow : ℕ)
  | publish (plan : SweepPlan)
  | takePlan
  | deleteBlob (worker : ℕ) (blob : Blob)
  | deleteRow (worker : ℕ) (blob : Blob)

def BlobReply : BlobOp → Type
  | .get _ => Except BlobFailure (Option Blob)
  | .list _ => Except BlobFailure (List Blob)
  | .listProject _ _ _ _ _ => Except BlobFailure (List Blob)
  | .existsArtifact _ => Except BlobFailure Bool
  | .now => ℕ
  | .ask => Except BlobFailure Unit
  | .query => Except BlobFailure (List ℕ)
  | .associations => Except BlobFailure (List (ℕ × List ℕ))
  | .trash => Except BlobFailure (List ArtifactTrash)
  | .poll => Bool
  | .tick => Unit
  | .updateStatus _ _ _ => Except BlobFailure (Option ℕ)
  | .updateBlobs _ => Except BlobFailure Unit
  | .createBlob _ _ => Except BlobFailure ℕ
  | .commitUpload _ _ _ => Except BlobFailure Unit
  | .createProjectBlob _ _ => Except BlobFailure Unit
  | .deleteProjectBlob _ _ => Except BlobFailure Unit
  | .createArtifactBlob _ _ => Except BlobFailure Unit
  | .deleteArtifactBlob _ => Except BlobFailure Unit
  | .snapshot _ => Except BlobFailure (List Blob)
  | .publish _ => Unit
  | .takePlan => SweepPlan
  | .deleteBlob _ _ => Except BlobFailure Unit
  | .deleteRow _ _ => Except BlobFailure Unit

abbrev BlobProgram (Result : Type) : Type := Program BlobOp BlobReply Result

abbrev BlobCall : Type := BlobProgram (Except BlobFailure Unit)

/-- Whether an operation fails, and what is answered where the model does not say. -/
structure BlobChoice where
  failure : Option BlobFailure := none
  ids : List ℕ := []
  associations : List (ℕ × List ℕ) := []
  trash : List ArtifactTrash := []
  signal : Bool := false

namespace BlobChoice

variable {α : Type} (choice : BlobChoice)

def reply (value : α) : Except BlobFailure α :=
  match choice.failure with
  | some err => .error err
  | none => .ok value

/-- A statement that does nothing if it fails. -/
def perform (world : BlobWorld) (done : BlobWorld × Except BlobFailure α) :
    BlobWorld × Except BlobFailure α :=
  match choice.failure with
  | some err => (world, .error err)
  | none => done

end BlobChoice

namespace BlobWorld

variable (world : BlobWorld)

/-- `Ensure` and `AssociateWithProjectByID`, given what `Ensure` has found. -/
def commitUpload (project : ℕ) (digest : Digest) (found : Option ℕ) : BlobWorld :=
  match found with
  | some id => world.createProjectBlob project id
  | none =>
    (world.createBlob digest "application/octet-stream").1.createProjectBlob project
      (world.createBlob digest "application/octet-stream").2

/-- A worker asks the registry to delete a blob, and is done with it if that works. -/
def deleteBlob (worker : ℕ) (blob : Blob) (choice : BlobChoice) : BlobWorld :=
  match choice.failure with
  | some _ => world.callDeleteBlob blob
  | none => (world.callDeleteBlob blob).release worker

end BlobWorld

def blobSem : Semantics BlobWorld BlobOp BlobReply BlobChoice
  | world, .get digest, choice => some (world, choice.reply (world.getByDigest digest))
  | world, .list digests, choice =>
    some (world, choice.reply (world.blobs.filter fun blob => blob.digest ∈ digests))
  | world, .listProject project fromId now timeWindow pageSize, choice =>
    some (world, choice.reply (world.listProject project fromId now timeWindow pageSize))
  | world, .existsArtifact artifact, choice =>
    some (world, choice.reply
      ((world.getByDigest artifact).isSome &&
        decide ((artifact, artifact) ∈ world.artifactBlobs)))
  | world, .now, _ => some (world, world.clock)
  | world, .ask, choice => some (world, choice.reply ())
  | world, .query, choice => some (world, choice.reply choice.ids)
  | world, .associations, choice => some (world, choice.reply choice.associations)
  | world, .trash, choice => some (world, choice.reply choice.trash)
  | world, .poll, choice => some (world, choice.signal)
  | world, .tick, _ => some ({ world with clock := world.clock + 1 }, ())
  | world, .updateStatus actor blob target, choice =>
    some (choice.perform world
      ((world.updateStatus actor blob target).1, .ok (world.updateStatus actor blob target).2))
  | world, .updateBlobs blobs, choice =>
    some (choice.perform world (world.updateBlobs blobs, .ok ()))
  | world, .createBlob digest contentType, choice =>
    some (choice.perform world
      ((world.createBlob digest contentType).1, .ok (world.createBlob digest contentType).2))
  | world, .commitUpload project digest found, choice =>
    some (choice.perform world (world.commitUpload project digest found, .ok ()))
  | world, .createProjectBlob project id, choice =>
    some (choice.perform world (world.createProjectBlob project id, .ok ()))
  | world, .deleteProjectBlob project ids, choice =>
    some (choice.perform world (world.deleteProjectBlob project ids, .ok ()))
  | world, .createArtifactBlob artifact digest, choice =>
    some (choice.perform world
      ({ world with artifactBlobs := world.artifactBlobs.insert (artifact, digest) }, .ok ()))
  | world, .deleteArtifactBlob artifact, choice =>
    some (choice.perform world
      ({ world with
          artifactBlobs := world.artifactBlobs.filter fun reference =>
            reference.1 ≠ artifact }, .ok ()))
  | world, .snapshot timeWindow, choice =>
    some (choice.perform world
      ((world.snapshot timeWindow).1, .ok (world.snapshot timeWindow).2))
  | world, .publish plan, _ => some ({ world with plan := some plan }, ())
  | world, .takePlan, _ => world.plan.map fun plan => (world, plan)
  | world, .deleteBlob worker blob, choice =>
    some (world.deleteBlob worker blob choice, choice.reply ())
  | world, .deleteRow worker blob, choice =>
    some (choice.perform world (world.deleteRow worker blob))

end Harbor.Blobs
