import Harbor.Concurrency.Transition
import Harbor.Data.Decimal
import Harbor.Data.Split
import Harbor.Quotas.Types

/-!
# Sizes of uploaded blobs

A blob is uploaded with any number of PATCH requests and a PUT request that may
bring the last bytes.  The registry answers a PATCH with the range of bytes it has,
and the middleware around it keeps the size in Redis, by session.  For the PUT two
middlewares ask for the size of the blob: that of the quotas before the request, to
reserve the storage, and that of the blobs after the response, to store it.

Only PATCH requests that the registry accepts count; it has their bytes also if their
size cannot be recorded.  Entries of Redis expire, and Redis may be unavailable for a
while.  The texts of errors that come from the libraries are given without the reason.
-/

namespace Harbor.Uploads

open Concurrency Data.Decimal Data.Split Quotas

/-- The bytes that the registry has for a session, the sizes in Redis, and the tables of
blobs, with their sizes, and of the blobs of projects. -/
structure World (Session : Type) where
  received : Session → ℕ := fun _ => 0
  accepted : Session → Option Int64 := fun _ => none
  available : Bool := true
  blobs : String → Option Int64 := fun _ => none
  projectBlobs : Int64 → String → Bool := fun _ _ => false

section Requests

variable {Session : Type} [DecidableEq Session] (world : World Session) (session : Session)

def setAcceptedBlobSize (size : Int64) : Except String (World Session) :=
  if world.available then
    .ok { world with accepted := Function.update world.accepted session (some size) }
  else .error "failed to connect to redis"

def getAcceptedBlobSize : Except String Int64 :=
  if world.available then .ok ((world.accepted session).getD 0)
  else .error "failed to connect to redis"

/-! ## PATCH -/

/-- The Range header with which the registry answers; it is `0-0` also without any byte. -/
def rangeHeader (total : ℕ) : String :=
  "0-" ++ toString (total - 1)

def parseAcceptedBlobSize (rangeHeader : String) : Except String Int64 :=
  if rangeHeader = "" then .error "range header required"
  else
    match cut '-' rangeHeader.toList with
    | none => .error ("range header bad value: " ++ rangeHeader)
    | some (_, last) =>
      match parseInt (String.ofList last) with
      | none => .error ("strconv.ParseInt: parsing " ++ String.ofList last)
      -- the registry has subtracted one
      | some size => .ok (if 0 < size then size + 1 else size)

/-- The second half of `PatchBlobUploadMiddleware`, after the response of the registry. -/
def recordAccepted (header : String) : Except String (World Session) := do
  let size ← parseAcceptedBlobSize header
  setAcceptedBlobSize world session size

/-- `PatchBlobUploadMiddleware` around the registry, which takes the bytes: what is there
afterwards, and the error. -/
def patchBlobUpload (length : ℕ) : World Session × Option String :=
  let total := world.received session + length
  let world := { world with received := Function.update world.received session total }
  match recordAccepted world session (rangeHeader total) with
  | .ok world => (world, none)
  | .error err => (world, some err)

/-- What happens before the PUT of a session. -/
inductive Action (Session : Type)
  | patch (session : Session) (length : ℕ)
  | expire (session : Session)
  | redis (available : Bool)
  deriving DecidableEq, Repr

def step : Action Session → Option (World Session)
  | .patch session length => some (patchBlobUpload world session length).1
  | .expire session =>
    some { world with accepted := Function.update world.accepted session none }
  | .redis available => some { world with available }

/-! ## PUT -/

/-- A PUT request, with the text of its Content-Length header. -/
structure PutRequest (Session : Type) where
  contentLength : String
  session : Session
  digest : String
  deriving DecidableEq, Repr

variable (r : PutRequest Session)

/-- The size that both middlewares take: the length of the request, or the accepted size if
there is none. -/
def uploadSize : Except String Int64 :=
  match parseInt r.contentLength with
  | some size => if size = 0 then getAcceptedBlobSize world r.session else .ok size
  | none => getAcceptedBlobSize world r.session

/-- `Exist` of the blob controller, for the blobs of a project. -/
def exist (world : World Session) (digest : String) (projectID : Int64) : Except String Bool :=
  if digest = "" then .error "exist blob require digest"
  else .ok ((world.blobs digest).isSome && world.projectBlobs projectID digest)

/-- `putBlobUploadResources`; `none` if nothing is to be reserved. -/
def putBlobUploadResources (referenceID : String) : Except String (Option ResourceList) := do
  let size ← uploadSize world r
  if size = 0 then return none
  let projectID := (parseInt referenceID).getD 0
  if ← exist world r.digest projectID then return none
  return some (AList.singleton Types.resourceStorage size)

/-- `Ensure`: the size is that of the first who has stored the blob. -/
def ensure (digest : String) (size : Int64) : World Session :=
  match world.blobs digest with
  | some _ => world
  | none => { world with blobs := Function.update world.blobs digest (some size) }

/-- `AssociateWithProjectByID`. -/
def associateWithProject (digest : String) (projectID : Int64) : World Session :=
  { world with
    projectBlobs := Function.update world.projectBlobs projectID
      (Function.update (world.projectBlobs projectID) digest true) }

/-- The second half of `PutBlobUploadMiddleware`, after the response of the registry with its
status and the digest in its header. -/
def putBlobUpload (statusCode : ℕ) (digest : String) (project : Except String Int64) :
    Except String (World Session) :=
  if statusCode ≠ 201 then .ok world
  else do
    let size ← uploadSize world r
    let projectID ← project
    return associateWithProject (ensure world digest size) digest projectID

end Requests

end Harbor.Uploads
