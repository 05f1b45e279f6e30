import Harbor.Concurrency.Program
import Harbor.Data.Decimal
import Harbor.Data.Split

/-!
# Copying a blob by chunks

`copyChunkWithRetry` copies a blob to another registry in chunks.  It carries the
range of the last chunk and the location of the upload from one attempt to the next,
so that a retry goes on where the attempt before it has stopped.

The destination is a set of uploads with the bytes that each of them has got, a byte
being given by its position in the blob.  Any request may fail.  If a chunk fails,
the destination may have got a part of it, or even all of it.  A chunk is what its
Content-Range header says, and locations that the destination gives out are
well-formed.  The speed limit, the backoff and the logs are left out.
-/

namespace Harbor.Replication

open Concurrency Data.Decimal Data.Split

/-- Where to upload: one of the uploads of the destination, or nowhere (the empty text). -/
abbrev Location : Type := Option ℕ

/-- The calls to the two registries, and to the job that may be stopped. -/
inductive TransferOp
  | shouldStop
  | blobExist
  | canBeMount
  | mountBlob (repository : String)
  | pullBlob
  | pushBlob (size : ℤ)
  | pullBlobChunk (start end_ : ℤ)
  | initiateBlobUpload
  | uploadChunk (location : Location) (lastChunk : Bool) (start end_ : ℤ)
  | uploadStatus (location : Location)
  deriving DecidableEq, Repr

def TransferOp.Reply : TransferOp → Type
  | .shouldStop => Bool
  | .blobExist => Except String Bool
  | .canBeMount => Except String (Option String)
  | .mountBlob _ => Except String Unit
  | .pullBlob => Except String ℤ
  | .pushBlob _ => Except String Unit
  | .pullBlobChunk _ _ => Except String Unit
  | .initiateBlobUpload => Except String Location
  | .uploadChunk _ _ _ _ => Except String Location
  | .uploadStatus _ => Except String (Location × String)

abbrev Transfer (Result : Type) : Type := Program TransferOp TransferOp.Reply Result

/-! ## The destination -/

/-- A chunk that was sent, and the number of bytes that the upload had at that time. -/
structure SentChunk where
  start : ℤ
  end_ : ℤ
  held : ℕ
  deriving DecidableEq, Repr

/-- The bytes of the uploads, whether one of them has been completed to the blob, and the
chunks that were sent. -/
structure Destination where
  uploads : List (List ℤ) := []
  completed : Bool := false
  sent : List SentChunk := []
  deriving DecidableEq, Repr

/-- What the registries decide. -/
inductive Choice
  | fail (message : String)
  | done
  | answer (yes : Bool)
  | mountFrom (repository : String)
  | size (value : ℤ)
  /-- The request fails after some bytes, or even after the upload was completed. -/
  | lost (kept : ℕ) (completed : Bool) (message : String)
  /-- The Range header for an upload without any bytes. -/
  | header (text : String)
  deriving DecidableEq, Repr

/-- The positions of the bytes from `start` to `end_`. -/
def positions (start end_ : ℤ) : List ℤ :=
  (List.range (end_ - start + 1).toNat).map fun i : ℕ => start + i

variable (location : Location)

namespace Destination

variable (world : Destination)

/-- The number of bytes that the destination has got at a location. -/
def held : Location → ℕ
  | some u => ((world.uploads[u]?).getD []).length
  | none => 0

/-- There is an upload at the location, and no upload has been completed. -/
def isOpen : Location → Bool
  | some u => decide (u < world.uploads.length) && !world.completed
  | none => false

def receive (bytes : List ℤ) : Destination :=
  match location with
  | some u => { world with uploads := world.uploads.set u ((world.uploads[u]?).getD [] ++ bytes) }
  | none => world

def send (start end_ : ℤ) : Destination :=
  { world with sent := world.sent ++ [SentChunk.mk start end_ (world.held location)] }

/-- PATCH or PUT of a chunk. -/
def upload (lastChunk : Bool) (start end_ : ℤ) :
    Choice → Option (Destination × Except String Location)
  | .fail message => some (world.send location start end_, .error message)
  | .done =>
    if world.isOpen location then
      some ({ (world.send location start end_).receive location (positions start end_) with
        completed := lastChunk }, .ok location)
    else none
  | .lost kept completed message =>
    if world.isOpen location && decide (kept ≤ (positions start end_).length) &&
        (!completed || (lastChunk && decide (kept = (positions start end_).length))) then
      some ({ (world.send location start end_).receive location
        ((positions start end_).take kept) with completed }, .error message)
    else none
  | _ => none

/-- GET of an upload.  The destination reports `0-(n-1)` for `n` bytes, and anything if there
are none. -/
def status : Choice → Option (Destination × Except String (Location × String))
  | .fail message => some (world, .error message)
  | .done =>
    if world.isOpen location && decide (0 < world.held location) then
      some (world, .ok (location, "0-" ++ toString (world.held location - 1)))
    else none
  | .header text =>
    if world.isOpen location && decide (world.held location = 0) then
      some (world, .ok (location, text))
    else none
  | _ => none

/-- A blob that was completed exists. -/
def exist : Choice → Option (Destination × Except String Bool)
  | .fail message => some (world, .error message)
  | .answer yes => if world.completed && !yes then none else some (world, .ok yes)
  | _ => none

def mountable : Choice → Option (Destination × Except String (Option String))
  | .fail message => some (world, .error message)
  | .answer false => some (world, .ok none)
  | .mountFrom repository => some (world, .ok (some repository))
  | _ => none

def initiate : Choice → Option (Destination × Except String Location)
  | .fail message => some (world, .error message)
  | .done => some ({ world with uploads := world.uploads ++ [[]] }, .ok (some world.uploads.length))
  | _ => none

/-- A request without a result that matters. -/
def request : Choice → Option (Destination × Except String Unit)
  | .fail message => some (world, .error message)
  | .done => some (world, .ok ())
  | _ => none

def blobSize : Choice → Option (Destination × Except String ℤ)
  | .fail message => some (world, .error message)
  | .size value => some (world, .ok value)
  | _ => none

end Destination

def perform (world : Destination) (op : TransferOp) (choice : Choice) :
    Option (Destination × op.Reply) :=
  match op with
  | .shouldStop =>
    match choice with
    | .answer yes => some (world, yes)
    | _ => none
  | .blobExist => world.exist choice
  | .canBeMount => world.mountable choice
  | .mountBlob _ => world.request choice
  | .pullBlob => world.blobSize choice
  | .pushBlob _ => world.request choice
  | .pullBlobChunk _ _ => world.request choice
  | .initiateBlobUpload => world.initiate choice
  | .uploadChunk location lastChunk start end_ => world.upload location lastChunk start end_ choice
  | .uploadStatus location => world.status location choice

/-! ## The calls -/

namespace Registry

def shouldStop : Transfer Bool :=
  Program.perform TransferOp.shouldStop

def blobExist : Transfer (Except String Bool) :=
  Program.perform TransferOp.blobExist

def canBeMount : Transfer (Except String (Option String)) :=
  Program.perform TransferOp.canBeMount

def mountBlob (repository : String) : Transfer (Except String Unit) :=
  Program.perform (TransferOp.mountBlob repository)

def pullBlob : Transfer (Except String ℤ) :=
  Program.perform TransferOp.pullBlob

def pushBlob (size : ℤ) : Transfer (Except String Unit) :=
  Program.perform (TransferOp.pushBlob size)

def pullBlobChunk (start end_ : ℤ) : Transfer (Except String Unit) :=
  Program.perform (TransferOp.pullBlobChunk start end_)

def initiateBlobUpload : Transfer (Except String Location) :=
  Program.perform TransferOp.initiateBlobUpload

def uploadChunk (lastChunk : Bool) (start end_ : ℤ) : Transfer (Except String Location) :=
  Program.perform (TransferOp.uploadChunk location lastChunk start end_)

def uploadStatus : Transfer (Except String (Location × String)) :=
  Program.perform (TransferOp.uploadStatus location)

end Registry

/-! ## The client of the registry -/

/-- The result of an operation on 64-bit integers. -/
def int64 (value : ℤ) : ℤ :=
  value.bmod (2 ^ 64)

def parseContentRange (cr : String) : Except String (ℤ × ℤ) :=
  match cut '-' cr.toList with
  | none => .error ("invalid content range format, " ++ cr)
  | some (first, last) =>
    if '-' ∈ last then .error ("invalid content range format, " ++ cr)
    else
      match parseInt (String.ofList first), parseInt (String.ofList last) with
      | some start, some end_ => .ok (start.toInt, end_.toInt)
      | none, _ => .error ("strconv.ParseInt: parsing " ++ String.ofList first)
      | some _, none => .error ("strconv.ParseInt: parsing " ++ String.ofList last)

def getUploadStatus : Transfer (Except String (Location × ℤ)) := do
  match ← Registry.uploadStatus location with
  | .error e => return .error e
  | .ok (newLocation, range) =>
    match parseContentRange range with
    | .error e => return .error e
    | .ok (_, end_) => return .ok (newLocation, end_)

/-- `PushBlobChunk` after the upload was initiated: the new location, the new end and the
error. -/
def pushChunkTo (blobSize start end_ : ℤ) (location : Location) :
    Transfer (Location × ℤ × Option String) := do
  let lastChunk := end_ = int64 (blobSize - 1)
  match ← Registry.uploadChunk location lastChunk start end_ with
  | .ok next => return (next, end_, none)
  | .error e =>
    match ← getUploadStatus location with
    | .ok (newLocation, newEnd) => return (newLocation, newEnd, some e)
    -- to push this chunk again
    | .error e1 =>
      return (location, int64 (start - 1), some ("failed to get upload status: " ++ e1))

def pushBlobChunk (blobSize start end_ : ℤ) (location : Location) :
    Transfer (Location × ℤ × Option String) := do
  if start = 0 then
    match ← Registry.initiateBlobUpload with
    | .error e => return (none, end_, some e)
    | .ok location => pushChunkTo blobSize start end_ location
  else pushChunkTo blobSize start end_ location

/-! ## The transfer -/

inductive CopyError
  | stopped
  | failed (message : String)
  | outOfFuel
  deriving DecidableEq, Repr

/-- How a copy without an error was done. -/
inductive Copied
  | mounted
  | monolithic
  | chunks
  deriving DecidableEq, Repr

/-- `start`, `end` and `location`, which the attempts share. -/
structure Progress where
  start : ℤ := -1
  end_ : ℤ := -1
  location : Location := none
  deriving DecidableEq, Repr

/-- The second half of `tryMountBlob`, for a blob that does not exist. -/
def mountIfPossible : Transfer (Except CopyError Bool) := do
  match ← Registry.canBeMount with
  | .error e => return .error (.failed e)
  | .ok none => return .ok false
  | .ok (some repository) =>
    match ← Registry.mountBlob repository with
    | .error e => return .error (.failed e)
    | .ok () => return .ok true

def tryMountBlob : Transfer (Except CopyError Bool) := do
  if ← Registry.shouldStop then return .error .stopped
  match ← Registry.blobExist with
  | .error e => return .error (.failed e)
  | .ok true => return .ok true
  | .ok false => mountIfPossible

def copyBlobByMonolithic (sizeFromDescriptor : ℤ) : Transfer (Except CopyError Copied) := do
  match ← Registry.pullBlob with
  | .error e => return .error (.failed e)
  | .ok size =>
    let size := if size = 0 then sizeFromDescriptor else size
    match ← Registry.pushBlob size with
    | .error e => return .error (.failed e)
    | .ok () => return .ok .monolithic

section Chunks

variable (sizeFromDescriptor replicationChunkSize : ℤ) (progress : Progress)

def nextStart : ℤ :=
  int64 (progress.end_ + 1)

def nextEnd : ℤ :=
  min (int64 (nextStart progress + replicationChunkSize - 1)) (int64 (sizeFromDescriptor - 1))

/-- The loop of `copyBlobByChunk`. -/
def copyChunks : ℕ → Progress → Transfer (Progress × Except CopyError Copied)
  | 0, progress => return (progress, .error .outOfFuel)
  | fuel + 1, progress => do
    let start := nextStart progress
    let end_ := nextEnd sizeFromDescriptor replicationChunkSize progress
    match ← Registry.pullBlobChunk start end_ with
    | .error e => return ({ progress with start, end_ }, .error (.failed e))
    | .ok () =>
      match ← pushBlobChunk sizeFromDescriptor start end_ progress.location with
      | (location, failureEnd, some e) =>
        return ({ start, end_ := failureEnd, location }, .error (.failed e))
      | (location, _, none) =>
        if end_ = int64 (sizeFromDescriptor - 1) then
          return ({ start, end_, location }, .ok .chunks)
        else copyChunks fuel { start, end_, location }

def copyBlobByChunk : Transfer (Progress × Except CopyError Copied) := do
  match ← tryMountBlob with
  | .error e => return (progress, .error e)
  | .ok true => return (progress, .ok .mounted)
  | .ok false =>
    if sizeFromDescriptor ≤ replicationChunkSize then
      return (progress, ← copyBlobByMonolithic sizeFromDescriptor)
    else copyChunks sizeFromDescriptor replicationChunkSize sizeFromDescriptor.toNat progress

/-- `copyChunkWithRetry`, with the number of attempts that are left after this one. -/
def copyChunkWithRetry : ℕ → Progress → Transfer (Except CopyError Copied)
  | 0, progress => do
    let (_, result) ← copyBlobByChunk sizeFromDescriptor replicationChunkSize progress
    return result
  | retries + 1, progress => do
    let (progress, result) ← copyBlobByChunk sizeFromDescriptor replicationChunkSize progress
    match result with
    | .ok copied => return .ok copied
    | .error e =>
      if e = .stopped then return .error e else copyChunkWithRetry retries progress

def transferPool (retries : ℕ) :
    Pool Destination TransferOp TransferOp.Reply Unit (Except CopyError Copied) where
  world := {}
  threads := fun _ => copyChunkWithRetry sizeFromDescriptor replicationChunkSize retries {}

end Chunks

end Harbor.Replication
