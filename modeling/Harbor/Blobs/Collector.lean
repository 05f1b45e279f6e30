import Harbor.Blobs.Requests

/-!
# The garbage collection

`GarbageCollector.Run` up to the chunks that it hands to its workers, and the
worker of one chunk.  The statistics are left out, and so is what comes after the
workers: waiting for them and cleaning the cache of the registry.  A dry run
changes no row, so what it only counts is left out too.  The workers may all run
at the same time, whatever the limit of their group is.
-/

namespace Harbor.Blobs

open Harbor.Concurrency Op

namespace Op

abbrev listProject (project fromId now timeWindow pageSize : ℕ) :
    BlobProgram (Except BlobFailure (List Blob)) :=
  .perform (BlobOp.listProject project fromId now timeWindow pageSize)

abbrev query : BlobProgram (Except BlobFailure (List ℕ)) := .perform BlobOp.query

abbrev associations : BlobProgram (Except BlobFailure (List (ℕ × List ℕ))) :=
  .perform BlobOp.associations

abbrev trash : BlobProgram (Except BlobFailure (List ArtifactTrash)) := .perform BlobOp.trash

abbrev poll : BlobProgram Bool := .perform BlobOp.poll

abbrev deleteProjectBlob (project : ℕ) (ids : List ℕ) : BlobCall :=
  .perform (BlobOp.deleteProjectBlob project ids)

abbrev deleteArtifactBlob (artifact : Digest) : BlobCall :=
  .perform (BlobOp.deleteArtifactBlob artifact)

abbrev snapshot (timeWindow : ℕ) : BlobProgram (Except BlobFailure (List Blob)) :=
  .perform (BlobOp.snapshot timeWindow)

abbrev publish (plan : SweepPlan) : BlobProgram Unit := .perform (BlobOp.publish plan)

abbrev takePlan : BlobProgram SweepPlan := .perform BlobOp.takePlan

abbrev deleteBlob (worker : ℕ) (blob : Blob) : BlobCall :=
  .perform (BlobOp.deleteBlob worker blob)

abbrev deleteRow (worker : ℕ) (blob : Blob) : BlobCall :=
  .perform (BlobOp.deleteRow worker blob)

end Op

structure GarbageCollector where
  deleteUntagged : Bool := true
  deleteTag : Bool := true
  timeWindow : ℕ := 2
  dryRun : Bool := false
  workers : ℕ := 1

def errGcStop : BlobFailure := ⟨.gcStop, "stopped"⟩

/-- Stop if the signal has come. -/
def unlessStopped {α : Type} (program : BlobProgram (Except BlobFailure α)) :
    BlobProgram (Except BlobFailure α) :=
  poll >>= fun stop => if stop then .ret (.error errGcStop) else program

/-- What follows is done whatever the result is. -/
def regardless {α : Type} (program : BlobProgram α) : BlobCall :=
  program >>= fun _ => .ret (.ok ())

/-! ## Marking -/

section Marking

variable (gc : GarbageCollector) (fuel : ℕ)

/-- `Controller.Delete` of an artifact, as far as `project_blob` is concerned. -/
def deleteArtifact : BlobCall :=
  andThen associations fun associations =>
    andThen (forEach (fun association : ℕ × List ℕ =>
      deleteProjectBlob association.1 association.2) associations) fun () => ask

/-- The turn of `deletedArt` for an untagged artifact. -/
def deleteUntaggedArtifact : BlobCall :=
  if gc.dryRun then regardless ask else unlessStopped (regardless deleteArtifact)

def deletedArt : BlobProgram (Except BlobFailure (List ArtifactTrash)) :=
  andThen (if gc.deleteUntagged then
      andThen query fun untagged =>
        forEach (fun _ => deleteUntaggedArtifact gc) untagged
    else .ret (.ok ())) fun () =>
    if gc.dryRun then .ret (.ok []) else trash

/-- `CleanupAssociationsForProject`; which of the blobs no artifact of the project has is
not modelled. -/
def cleanupAssociationsForProject (project : ℕ) (blobs : List Blob) : BlobCall :=
  if blobs = [] then .ret (.ok ())
  else
    andThen query fun ids =>
      deleteProjectBlob project ((blobs.filter fun blob => blob.id ∈ ids).map Blob.id)

/-- `FindBlobsShouldUnassociatedWithProject` in a dry run. -/
def countUnassociated : BlobCall :=
  andThen query fun _ => .ret (.ok ())

/-- The loop of `markOrSweepUntaggedBlobs` over the pages of a project.  `turn` handles the page
from an id on, and ends the loop with a result if it cannot; a short page is the last one. -/
def forPages {m : Type → Type} [Monad m] {α : Type} (turn : ℕ → m (Except α (List Blob)))
    (pageSize : ℕ) (done timeout : α) : ℕ → ℕ → m α
  | _, 0 => pure timeout
  | lastBlobId, fuel + 1 =>
    turn lastBlobId >>= fun page =>
      match page with
      | .error result => pure result
      | .ok blobs =>
        if blobs.length < pageSize then pure done
        else forPages turn pageSize done timeout ((blobs.getLast?.map Blob.id).getD 0) fuel

/-- One turn of the loop: a failing call is logged and ends it. -/
def cleanPage (project now lastBlobId : ℕ) :
    BlobProgram (Except (Except BlobFailure Unit) (List Blob)) :=
  poll >>= fun stop =>
    if stop then .ret (.error (.error errGcStop))
    else
      listProject project lastBlobId now gc.timeWindow 1000 >>= fun page =>
        match page with
        | .error _ => .ret (.error (.ok ()))
        | .ok blobs =>
          (if gc.dryRun then countUnassociated
            else cleanupAssociationsForProject project blobs) >>= fun result =>
            match result with
            | .error _ => .ret (.error (.ok ()))
            | .ok () => .ret (.ok blobs)

def cleanPages (project now : ℕ) : ℕ → ℕ → BlobCall :=
  forPages (cleanPage gc project now) 1000 (.ok ()) (.error ⟨.timeout, ""⟩)

/-- The turn of `markOrSweepUntaggedBlobs` for a project. -/
def cleanProject (project : ℕ) : BlobCall :=
  unlessStopped <| now >>= fun now => cleanPages gc project now 0 fuel

def markOrSweepUntaggedBlobs : BlobCall :=
  andThen query fun projects => forEach (cleanProject gc fuel) projects

/-- The loop of `mark` over the candidates gives the set to delete. -/
def markCandidates : List Blob → BlobProgram (Except BlobFailure (List Blob))
  | [] => .ret (.ok [])
  | blob :: rest => unlessStopped <|
      updateStatus .marker blob .delete >>= fun updated =>
        match updated with
        | .error _ => markCandidates rest
        | .ok none => markCandidates rest
        | .ok (some version) =>
          andThen (markCandidates rest) fun deleteSet =>
            .ret (.ok ({ blob with status := .delete, version := version } :: deleteSet))

/-- `mark`, with the trashed artifacts and the set to delete. -/
def mark : BlobProgram (Except BlobFailure (List ArtifactTrash × List Blob)) :=
  andThen (deletedArt gc) fun trashedArts =>
    andThen (markOrSweepUntaggedBlobs gc fuel) fun () =>
      andThen (snapshot gc.timeWindow) fun blobs =>
        if gc.dryRun then .ret (.ok (trashedArts, blobs))
        else
          andThen (markCandidates blobs) fun deleteSet => .ret (.ok (trashedArts, deleteSet))

def divide (a b : ℕ) : Except BlobFailure ℕ :=
  if b = 0 then .error ⟨.unset, "the divided cannot be zero"⟩
  else if a / b = 0 then .ok (a % b) else .ok (a / b)

def blobChunks (size : ℕ) (deleteSet : List Blob) : List (List Blob) :=
  (List.range ((deleteSet.length + size - 1) / size)).map fun index =>
    (deleteSet.drop (index * size)).take size

/-- `sweep`, which hands a chunk to each worker. -/
def sweep (trashedArts : List ArtifactTrash) (deleteSet : List Blob) : BlobCall :=
  if deleteSet.length = 0 ∨ gc.workers = 0 then .ret (.ok ())
  else
    match divide deleteSet.length gc.workers with
    | .error err => .ret (.error err)
    | .ok size =>
      publish ⟨trashedArts, blobChunks size deleteSet⟩ >>= fun () => .ret (.ok ())

def GarbageCollector.run : BlobCall :=
  -- the registry controller has to be reachable
  andThen ask fun () =>
    mark gc fuel >>= fun result =>
      match result with
      | .error err => if err = errGcStop then .ret (.ok ()) else .ret (.error err)
      | .ok (trashedArts, deleteSet) =>
        if gc.dryRun then .ret (.ok ()) else sweep gc trashedArts deleteSet

end Marking

/-! ## Sweeping -/

def ignoreNotFound : Except BlobFailure Unit → Except BlobFailure Unit
  | .error err => if err.isNotFound then .ok () else .error err
  | .ok () => .ok ()

/-- `retry.Retry` over `ignoreNotFound`: read-only mode and a cancelled context end it, and
the timeout may come at any time. -/
def retryCall (call : BlobCall) :
    String → ℕ → BlobCall
  | cause, 0 => .ret (.error ⟨.timeout, "retry timeout" ++ cause⟩)
  | cause, fuel + 1 =>
    poll >>= fun timeout =>
      if timeout then .ret (.error ⟨.timeout, "retry timeout" ++ cause⟩)
      else
        call >>= fun result =>
          match ignoreNotFound result with
          | .ok () => .ret (.ok ())
          | .error err =>
            if err.code = .readOnly ∨ err.code = .canceled then .ret (.error err)
            else retryCall call (": " ++ err.text) fuel

section Sweeping

variable (gc : GarbageCollector) (worker fuel : ℕ) (blob : Blob)

/-- `markDeleteFailed`, with the blob as it leaves it. -/
def markDeleteFailed : BlobProgram (Blob × Except BlobFailure Unit) :=
  updateStatus (.worker worker) blob .deleteFailed >>= fun updated =>
    match updated with
    | .error err =>
      .ret ({ blob with status := .deleteFailed }, .error (err.wrap
        s!"failed to mark gc candidate delete failed: {blob.digest}, deletefailed"))
    | .ok none =>
      .ret ({ blob with status := .deleteFailed }, .error ⟨.notFound,
        s!"no blob found to mark delete failed, ID:{blob.id}, digest:{blob.digest}"⟩)
    | .ok (some version) =>
      .ret ({ blob with status := .deleteFailed, version := version }, .ok ())

/-- What the worker does when a call has failed: it stops if that cannot be marked or if
the system is read-only, and otherwise goes on. -/
def failDelete (err : BlobFailure) : BlobProgram (Except BlobFailure Blob) :=
  markDeleteFailed worker blob >>= fun failed =>
    match ignoreNotFound failed.2 with
    | .error other => .ret (.error other)
    | .ok () => if err.code = .readOnly then .ret (.error err) else .ret (.ok failed.1)

def v2DeleteManifest : BlobCall :=
  andThen query fun found => if found = [] then .ret (.ok ()) else ask

/-- The tags and the revision of a manifest in one repository are deleted. -/
def deleteManifest : BlobCall :=
  andThen (if gc.deleteTag then retryCall v2DeleteManifest "" fuel else .ret (.ok ())) fun () =>
    retryCall ask "" fuel

/-- The loop of `sweep` over the trashed artifacts of a manifest, with the blob and whether
it is to be skipped. -/
def deleteArtifacts : List ArtifactTrash → Blob → Bool →
    BlobProgram (Except BlobFailure (Blob × Bool))
  | [], blob, skippedBlob => .ret (.ok (blob, skippedBlob))
  | art :: rest, blob, skippedBlob =>
    deleteManifest gc fuel >>= fun result =>
      match result with
      | .error err =>
        andThen (failDelete worker blob err) fun blob => deleteArtifacts rest blob true
      | .ok () =>
        deleteArtifactBlob art.digest >>= fun result =>
          match ignoreNotFound result with
          | .error err => .ret (.error err)
          | .ok () =>
            -- the record in the trash
            ask >>= fun result =>
              match ignoreNotFound result with
              | .error err => .ret (.error err)
              | .ok () => deleteArtifacts rest blob skippedBlob

def deleteRecord : BlobCall :=
  deleteRow worker blob >>= fun result =>
    match ignoreNotFound result with
    | .ok () => .ret (.ok ())
    | .error err =>
      markDeleteFailed worker blob >>= fun failed =>
        match ignoreNotFound failed.2 with
        | .error other => .ret (.error other)
        | .ok () => .ret (.error err)

/-- The blob is deleted from the storage, if it is there, and its row from the table. -/
def deleteFromStorage : BlobCall :=
  if blob.isForeignLayer then deleteRecord worker blob
  else
    retryCall (deleteBlob worker blob) "" fuel >>= fun result =>
      match result with
      | .error err => andThen (failDelete worker blob err) fun _ => .ret (.ok ())
      | .ok () => deleteRecord worker blob

/-- One turn of the loop of `sweep` over a chunk. -/
def sweepBlob (trashedArts : List ArtifactTrash) (blob : Blob) : BlobCall :=
  unlessStopped <|
    updateStatus (.worker worker) blob .deleting >>= fun updated =>
      match updated with
      | .error _ => .ret (.ok ())
      | .ok none => .ret (.ok ())
      | .ok (some version) =>
        andThen (deleteArtifacts gc worker fuel
            (if blob.isManifest then
              trashedArts.filter fun art => art.digest = blob.digest else [])
            { blob with status := .deleting, version := version } false) fun swept =>
          if swept.2 then .ret (.ok ()) else deleteFromStorage worker fuel swept.1

def sweepWorker : BlobCall :=
  takePlan >>= fun plan =>
    forEach (sweepBlob gc worker fuel plan.trashedArts) ((plan.chunks[worker]?).getD [])

end Sweeping

end Harbor.Blobs
