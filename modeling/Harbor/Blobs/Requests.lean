import Harbor.Blobs.Model

/-!
# Requests on blobs

What the middlewares of `server/middleware/blob` do for `HEAD` of a blob, the end
of an upload, a mount and `PUT` of a manifest, with the functions of
`controller/blob` that they call.  A request that has found the blob it asks for
brings it back with `Touch`, except for a mount and for the references of a
manifest, which are only associated with the project.
-/

namespace Harbor.Blobs

open Harbor.Concurrency

variable (digest : Digest)

/-! ## Single operations -/

namespace Op

abbrev get : BlobProgram (Except BlobFailure (Option Blob)) :=
  .perform (BlobOp.get digest)

abbrev list (digests : List Digest) : BlobProgram (Except BlobFailure (List Blob)) :=
  .perform (BlobOp.list digests)

abbrev existsArtifact (artifact : Digest) : BlobProgram (Except BlobFailure Bool) :=
  .perform (BlobOp.existsArtifact artifact)

abbrev now : BlobProgram ℕ := .perform BlobOp.now

abbrev ask : BlobCall := .perform BlobOp.ask

abbrev updateStatus (actor : Actor) (blob : Blob) (target : BlobStatus) :
    BlobProgram (Except BlobFailure (Option ℕ)) :=
  .perform (BlobOp.updateStatus actor blob target)

abbrev updateBlobs (blobs : List Blob) : BlobCall :=
  .perform (BlobOp.updateBlobs blobs)

abbrev createBlob (contentType : String) : BlobProgram (Except BlobFailure ℕ) :=
  .perform (BlobOp.createBlob digest contentType)

abbrev commitUpload (project : ℕ) (digest : Digest) (found : Option ℕ) : BlobCall :=
  .perform (BlobOp.commitUpload project digest found)

abbrev createProjectBlob (project id : ℕ) : BlobCall :=
  .perform (BlobOp.createProjectBlob project id)

abbrev createArtifactBlob (artifact digest : Digest) : BlobCall :=
  .perform (BlobOp.createArtifactBlob artifact digest)

end Op

/-- Go on if there was no error. -/
def andThen {α β : Type} (program : BlobProgram (Except BlobFailure α))
    (next : α → BlobProgram (Except BlobFailure β)) : BlobProgram (Except BlobFailure β) :=
  program >>= fun result =>
    match result with
    | .error err => .ret (.error err)
    | .ok value => next value

/-- Do something for each of the items, up to the first error. -/
def forEach {α : Type} (body : α → BlobCall) :
    List α → BlobCall
  | [] => .ret (.ok ())
  | item :: rest => andThen (body item) fun () => forEach body rest

/-! ## The controller -/

def blobNotFound : BlobFailure :=
  ⟨.notFound, s!"blob {digest} not found"⟩

def managerGet : BlobProgram (Except BlobFailure Blob) :=
  andThen (Op.get digest) fun found =>
    match found with
    | none => .ret (.error (blobNotFound digest))
    | some blob => .ret (.ok blob)

def controllerGet : BlobProgram (Except BlobFailure Blob) :=
  if digest = "" then .ret (.error ⟨.badRequest, "require digest"⟩)
  else managerGet digest

/-- Update a status for a client, and report if no row was updated. -/
def clientUpdate (blob : Blob) (target : BlobStatus) (name : String) : BlobCall :=
  andThen (Op.updateStatus .client blob target) fun updated =>
    match updated with
    | none =>
      .ret (.error ⟨.notFound,
        s!"no blob item is updated to {name}, id:{blob.id}, digest:{blob.digest}"⟩)
    | some _ => .ret (.ok ())

def touch (blob : Blob) : BlobCall :=
  clientUpdate blob .none "StatusNone"

def fail (blob : Blob) : BlobCall :=
  clientUpdate blob .deleteFailed "StatusDeleteFailed"

/-- `Controller.Ensure`, for a blob outside a transaction. -/
def ensure (contentType : String) : BlobProgram (Except BlobFailure ℕ) :=
  managerGet digest >>= fun result =>
    match result with
    | .ok blob => .ret (.ok blob.id)
    | .error err => if err.isNotFound then Op.createBlob digest contentType else .ret (.error err)

def associateWithProjectByDigest (project : ℕ) (digest : Digest) : BlobCall :=
  andThen (managerGet digest) fun blob => Op.createProjectBlob project blob.id

def associateWithArtifact (digests : List Digest) (artifact : Digest) : BlobCall :=
  if artifact = "" then .ret (.error ⟨.badRequest, "exist blob require digest"⟩)
  else
    andThen (Op.existsArtifact artifact) fun found =>
      if found then .ret (.ok ())
      else forEach (Op.createArtifactBlob artifact) (digests ++ [artifact])

/-- A reference of a manifest. -/
structure Descriptor where
  digest : Digest
  mediaType : String
  deriving DecidableEq

/-- What `Controller.Sync` is going to do: the blobs it has found with the content types
they get, the digests of those to update, and the references without a blob. -/
structure SyncPlan where
  found : List Blob
  updating : List Digest := []
  missing : List Descriptor := []

/-- One turn of the loop of `Controller.Sync` over the references. -/
def SyncPlan.add (plan : SyncPlan) (reference : Descriptor) : SyncPlan :=
  match plan.found.find? fun blob => blob.digest = reference.digest with
  | none => { plan with missing := plan.missing ++ [reference] }
  | some blob =>
    if blob.contentType = reference.mediaType then plan
    else
      -- the blob is shared with the earlier references to the same digest
      { plan with
        found := plan.found.map fun other =>
          if other.digest = reference.digest then
            { other with contentType := reference.mediaType }
          else other
        updating := plan.updating ++ [reference.digest] }

def SyncPlan.updates (plan : SyncPlan) : List Blob :=
  plan.updating.filterMap fun digest => plan.found.find? fun blob => blob.digest = digest

/-- `Controller.Sync` creates a blob that a reference is missing. -/
def createMissing (reference : Descriptor) : BlobCall :=
  andThen (Op.createBlob reference.digest reference.mediaType) fun _ => .ret (.ok ())

def sync (references : List Descriptor) : BlobCall :=
  if references = [] then .ret (.ok ())
  else
    andThen (Op.list (references.map Descriptor.digest)) fun found =>
      let plan := references.foldl SyncPlan.add { found := found }
      andThen (if plan.updating = [] then .ret (.ok ()) else Op.updateBlobs plan.updates) fun () =>
        forEach createMissing plan.missing

/-! ## The middlewares -/

section Middlewares

-- `GetGCTimeWindow`, and the id of the request for the texts of the errors
variable (timeWindow : ℕ) (requestId : String)

def inGC : BlobFailure :=
  ⟨.notFound,
    s!"the asking blob is in GC, mark it as non existing, request id: {requestId}"⟩

def isDeleteFailed : BlobFailure :=
  ⟨.notFound,
    s!"the asking blob is delete failed, mark it as non existing, request id: {requestId}"⟩

/-- An error is sent with the id of the request. -/
def withRequestId {α : Type} (program : BlobProgram (Except BlobFailure α)) :
    BlobProgram (Except BlobFailure α) :=
  program >>= fun result =>
    match result with
    | .error err => .ret (.error (err.wrap s!"the request id is: {requestId}"))
    | .ok value => .ret (.ok value)

/-- A blob that is set to deleting: if that was too long ago it is failed, and then
`program` follows. -/
def failIfOld (blob : Blob) (program : BlobCall) : BlobCall :=
  Op.now >>= fun now =>
    if blob.updateTime + timeWindow < now then
      andThen (withRequestId requestId (fail blob)) fun () => program
    else .ret (.error (inGC requestId))

/-- `handleHead`, for the blob that it has found. -/
def headFound (blob : Blob) : BlobCall :=
  match blob.status with
  | .none | .delete => withRequestId requestId (touch blob)
  | .deleting => failIfOld timeWindow requestId blob (.ret (.error (inGC requestId)))
  | .deleteFailed => .ret (.error (isDeleteFailed requestId))

/-- `handleHead`; without information about the blob there is nothing to ask for. -/
def handleHead (blobInfo : Option Digest) : BlobCall :=
  match blobInfo with
  | none =>
    .ret (.error ⟨.notFound, "cannot get the blob information from request context"⟩)
  | some digest => andThen (controllerGet digest) (headFound timeWindow requestId)

/-- `probeBlob`, for the blob that it has found; `again` is the call of itself. -/
def probeFound (again : BlobCall) (blob : Blob) : BlobCall :=
  match blob.status with
  | .none | .delete | .deleteFailed => withRequestId requestId (touch blob)
  | .deleting => failIfOld timeWindow requestId blob again

/-- `probeBlob`; the fuel bounds how often it starts again. -/
def probeBlob (digest : Digest) : ℕ → BlobCall
  | 0 => .ret (.error ⟨.timeout, ""⟩)
  | fuel + 1 =>
    controllerGet digest >>= fun result =>
      match result with
      | .error err => if err.isNotFound then .ret (.ok ()) else .ret (.error err)
      | .ok blob => probeFound timeWindow requestId (probeBlob digest fuel) blob

/-- The middlewares go on only with the response that something was created. -/
def afterCreated (program : BlobCall) : BlobCall :=
  Op.ask >>= fun response =>
    match response with
    | .error _ => .ret (.ok ())
    | .ok () => program

variable (project : ℕ)

/-- `Ensure` and `AssociateWithProjectByID` in the transaction after an upload. -/
def associateUpload (stored : Digest) : BlobCall :=
  managerGet stored >>= fun result =>
    match result with
    | .ok blob => Op.commitUpload project stored (some blob.id)
    | .error err =>
      if err.isNotFound then Op.commitUpload project stored none else .ret (.error err)

/-- `PutBlobUploadMiddleware`: `digest` is asked for and `stored` is in the response. -/
def putBlobUpload (digest stored : Digest) (fuel : ℕ) : BlobCall :=
  andThen (probeBlob timeWindow requestId digest fuel) fun () =>
    afterCreated <|
      -- the size, then the project
      andThen Op.ask fun () => andThen Op.ask fun () => associateUpload project stored

def postInitiateBlobUpload (mount : Digest) : BlobCall :=
  afterCreated <|
    if mount = "" then .ret (.ok ())
    else andThen Op.ask fun () => associateWithProjectByDigest project mount

/-- What `UnmarshalManifest` gives. -/
structure Manifest where
  digest : Digest
  references : List Descriptor

/-- The references of a manifest are associated with the project. -/
def associateReferences (references : List Descriptor) : BlobCall :=
  forEach (fun reference => associateWithProjectByDigest project reference.digest) references

/-- What is done after a manifest was created. -/
def associateManifest (contentType : String) (manifest : Manifest) : BlobCall :=
  andThen (sync manifest.references) fun () =>
    andThen (associateReferences project manifest.references) fun () =>
      andThen (ensure manifest.digest contentType) fun id =>
        andThen (Op.createProjectBlob project id) fun () =>
          associateWithArtifact (manifest.references.map Descriptor.digest) manifest.digest

/-- `PutManifestMiddleware`; `manifest` is an error if the body cannot be parsed. -/
def putManifest (contentType : String) (manifest : Except BlobFailure Manifest) (fuel : ℕ) :
    BlobCall :=
  -- the body is read
  andThen Op.ask fun () =>
    match manifest with
    | .error err => .ret (.error { err.wrap "unmarshal manifest failed" with
        code := .manifestInvalid })
    | .ok manifest =>
      andThen (probeBlob timeWindow requestId manifest.digest fuel) fun () =>
        afterCreated <|
          -- the project, then the body again
          andThen Op.ask fun () => andThen Op.ask fun () =>
            associateManifest project contentType manifest

end Middlewares

inductive Request
  | head (blobInfo : Option Digest)
  | putBlobUpload (project : ℕ) (digest stored : Digest)
  | postInitiateBlobUpload (project : ℕ) (mount : Digest)
  | putManifest (project : ℕ) (contentType : String) (manifest : Except BlobFailure Manifest)

def Request.program (timeWindow : ℕ) (requestId : String) (fuel : ℕ) :
    Request → BlobCall
  | .head blobInfo => handleHead timeWindow requestId blobInfo
  | .putBlobUpload project digest stored =>
    Blobs.putBlobUpload timeWindow requestId project digest stored fuel
  | .postInitiateBlobUpload project mount => Blobs.postInitiateBlobUpload project mount
  | .putManifest project contentType manifest =>
    Blobs.putManifest timeWindow requestId project contentType manifest fuel

end Harbor.Blobs
