import Mathlib.Data.List.Nodup
import Mathlib.Order.Basic

/-!
# Artifacts, references and accessories

The tables behind the artifacts of a repository, and their deletion.  An index references its
children in `artifact_reference`; an accessory names its subject in `artifact_accessory`; tags
point to artifacts.  `deleteDeeply` removes an artifact with what only it keeps alive: its hard
accessories and its children, unless another index references them or a tag keeps them.

Lists of rows come in the order of the table, which may be any.  A call that needs more than
the given number of nested calls ends with `outOfFuel`.  Labels, blobs, the trash and the
events of a deletion are left out; they neither read nor change these tables.
-/

namespace Harbor.Artifacts

/-! ## The tables -/

inductive AccessoryType
  | base
  | cosignSignature
  | notationSignature
  | nydusAccelerator
  | subject
  | harborSBOM
  | inTotoAttestation
deriving DecidableEq, Repr

/-- Only the base type is linked loosely to its subject. -/
def AccessoryType.isHard : AccessoryType → Bool
  | .base => false
  | _ => true

structure Artifact where
  id : ℕ
  digest : String
  isImageIndex : Bool := false
deriving DecidableEq, Repr

structure Reference where
  id : ℕ
  parentID : ℕ
  childID : ℕ
deriving DecidableEq, Repr

structure Accessory where
  artifactID : ℕ
  subArtifactID : ℕ
  subArtifactDigest : String
  digest : String
  type : AccessoryType
deriving DecidableEq, Repr

def Accessory.isHard (acc : Accessory) : Bool :=
  acc.type.isHard

/-- A tag, with the answer of the immutability rules for it. -/
structure Tag where
  id : ℕ
  artifactID : ℕ
  immutable : Bool := false
deriving DecidableEq, Repr

structure State where
  artifacts : List Artifact := []
  references : List Reference := []
  accessories : List Accessory := []
  tags : List Tag := []
deriving DecidableEq, Repr

inductive Error
  | notFound
  | referenced
  | attestation
  | immutableTag
  | foreignKey
  | outOfFuel
deriving DecidableEq, Repr

namespace State

variable (s : State) (id : ℕ)

def artifact : Option Artifact :=
  s.artifacts.find? (·.id = id)

def parents : List Reference :=
  s.references.filter (·.childID = id)

/-- The references of the artifact, which are read for indexes only. -/
def referencesOf (art : Artifact) : List Reference :=
  if art.isImageIndex then s.references.filter (·.parentID = art.id) else []

def accessoriesOf : List Accessory :=
  s.accessories.filter (·.subArtifactID = id)

/-- The rows that make the artifact itself an accessory. -/
def rowsOf : List Accessory :=
  s.accessories.filter (·.artifactID = id)

def tagsOf : List Tag :=
  s.tags.filter (·.artifactID = id)

/-- Delete the accessory rows of the artifact and its digest. -/
def deleteAccessories (digest : String) : State :=
  { s with accessories := s.accessories.filter fun acc =>
      ¬ (acc.artifactID = id ∧ acc.digest = digest) }

def deleteReference : State :=
  { s with references := s.references.filter (·.id ≠ id) }

/-- `DeleteTags`: an immutable tag is refused. -/
def deleteTags (tags : List Tag) : Except Error State :=
  tags.foldlM (fun s tag =>
    if tag.immutable then .error .immutableTag
    else .ok { s with tags := s.tags.filter (·.id ≠ tag.id) }) s

/-- `Delete` of the artifact manager: the references of the artifact go first, and the rest
that points to it makes the database refuse the deletion. -/
def deleteArtifact : Except Error State :=
  if (s.artifact id).isNone then .error .notFound
  else
    let s := { s with references := s.references.filter (·.parentID ≠ id) }
    if s.parents id ≠ [] ∨ s.rowsOf id ≠ [] ∨ s.tagsOf id ≠ [] then .error .foreignKey
    else .ok { s with artifacts := s.artifacts.filter (·.id ≠ id) }

end State

/-! ## Deletion -/

/-- `deleteDeeply`.  The accessories and the references are the ones listed when the artifact
is read, before anything is deleted. -/
def deleteDeeply : ℕ → ℕ → Bool → Bool → State → Except Error State
  | 0, _, _, _, _ => .error .outOfFuel
  | fuel + 1, id, isRoot, isAccessory, s =>
    match s.artifact id with
    | none => if isRoot then .error .notFound else .ok s
    | some art =>
      if !isRoot ∧ s.tagsOf id ≠ [] then .ok s
      else if s.parents id ≠ [] then (if isRoot then .error .referenced else .ok s)
      else do
        let detached := if isAccessory then s.deleteAccessories id art.digest else s
        let s₁ ← (s.accessoriesOf id).foldlM (fun s acc =>
          if acc.isHard then
            deleteDeeply fuel acc.artifactID (s.parents acc.artifactID = []) true s
          else .ok s) detached
        let s₂ ← (s.referencesOf art).foldlM (fun s reference =>
          let s := s.deleteReference reference.id
          deleteDeeply fuel reference.childID false (s.rowsOf reference.childID ≠ []) s) s₁
        let s₃ ← (if isRoot then s₂.deleteTags (s.tagsOf id) else .ok s₂)
        -- a child that is gone by now is passed over
        if !isRoot ∧ (s₃.artifact id).isNone then .ok s₃ else s₃.deleteArtifact id

/-- `Delete`.  An in-toto attestation goes with its subject, never on its own. -/
def delete (fuel id : ℕ) (s : State) : Except Error State :=
  if (s.rowsOf id).any fun acc =>
      acc.type = .inTotoAttestation ∧ (s.artifact acc.subArtifactID).isSome then
    .error .attestation
  else deleteDeeply fuel id true (s.rowsOf id ≠ []) s

end Harbor.Artifacts
