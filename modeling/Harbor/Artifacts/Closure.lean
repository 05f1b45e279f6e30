import Harbor.Artifacts.Sweep
import Harbor.Data.Ranks

/-!
# The closure of a deletion

A deletion is meant to remove the root and what only the root keeps alive: every child all of
whose parents are removed, and every hard accessory of a removed artifact all of whose parents
are removed.  A deletion that succeeds does exactly this, in whatever order the rows are listed.
It does not always succeed: an accessory that is removed while an accessory listed before it is
deleted makes the whole deletion fail.
-/

namespace Harbor.Artifacts

open Harbor.Data List

/-- What the deletion of `root` is meant to remove. -/
inductive Closure (s : State) (root : ℕ) : ℕ → Prop
  | root : Closure s root root
  | child {reference : Reference} (hmem : reference ∈ s.references)
      (hparents : ∀ other ∈ s.references, other.childID = reference.childID →
        Closure s root other.parentID) : Closure s root reference.childID
  | accessory {acc : Accessory} (hmem : acc ∈ s.accessories) (hhard : acc.isHard = true)
      (hsubject : Closure s root acc.subArtifactID)
      (hparents : ∀ other ∈ s.references, other.childID = acc.artifactID →
        Closure s root other.parentID) : Closure s root acc.artifactID

/-- The references and the hard accessories of a repository, as one graph. -/
def State.Edge (s : State) (a b : ℕ) : Prop :=
  (∃ reference ∈ s.references, reference.parentID = a ∧ reference.childID = b) ∨
    ∃ acc ∈ s.accessories, acc.isHard = true ∧ acc.subArtifactID = a ∧ acc.artifactID = b

section Closure

variable {s s' : State} {root fuel : ℕ} {isAccessory : Bool} {id : ℕ}

theorem acyclic_of_ranked (rank : ℕ → ℕ) (h : Ranked rank s) : Acyclic s.Edge := by
  refine acyclic_of_rank rank ?_
  rintro a b (⟨reference, hmem, rfl, rfl⟩ | ⟨acc, hmem, hhard, rfl, rfl⟩)
  · exact h.children reference hmem
  · exact h.accessories acc hmem hhard

/-- Without cycles, no chain of references and accessories is longer than the repository is
large. -/
theorem exists_ranked (hvalid : s.Valid) (hacyclic : Acyclic s.Edge) :
    ∃ rank, Ranked rank s ∧ ∀ id, rank id ≤ s.artifacts.length := by
  have hnode : ∀ id, s.Has id → id ∈ (s.artifacts.map (·.id)).toFinset := by
    rintro id ⟨art, hart, rfl⟩
    exact mem_toFinset.mpr (mem_map_of_mem hart)
  obtain ⟨rank, hrank, hbound⟩ := exists_rank hacyclic (s.artifacts.map (·.id)).toFinset (by
    rintro a b (⟨reference, hmem, -, rfl⟩ | ⟨acc, hmem, -, -, rfl⟩)
    · exact hnode _ (hvalid.child reference hmem)
    · exact hnode _ (hvalid.has_accessory hmem))
  refine ⟨rank, ⟨?_, ?_⟩, fun id => (hbound id).trans ?_⟩
  · exact fun reference hmem => hrank _ _ (.inl ⟨reference, hmem, rfl, rfl⟩)
  · exact fun acc hmem hhard => hrank _ _ (.inr ⟨acc, hmem, hhard, rfl, rfl⟩)
  · exact (toFinset_card_le _).trans (by simp)

theorem Closure.has (hvalid : s.Valid) (hroot : s.Has root) (h : Closure s root id) : s.Has id := by
  cases h with
  | root => exact hroot
  | child hmem _ => exact hvalid.child _ hmem
  | accessory hmem _ _ _ => exact hvalid.has_accessory hmem

theorem closure_absorbs : Absorbs (Closure s root) s :=
  ⟨fun _ hmem _ hparents => .child hmem hparents,
    fun _ hmem hhard _ hsubject hparents => .accessory hmem hhard hsubject hparents⟩

theorem parents_eq_nil_of_gone (hle : s'.Le s) (hvalid : s'.Valid)
    (hgone : ∀ other ∈ s.references, other.childID = id → ¬ s'.Has other.parentID) :
    s'.parents id = [] := by
  rw [State.parents, filter_eq_nil_iff]
  intro other hother hchild
  exact hgone other (hle.references.subset hother) (of_decide_eq_true hchild)
    (hvalid.has_parent hother)

theorem Closure.gone (hroot : s.Has root) (hvalid : s.Valid) (hparents : s.parents root = [])
    (htags : ∀ tag ∈ s.tags, tag.artifactID = root) (hcall : Succeeds s s' root true)
    (h : Closure s root id) : ¬ s'.Has id := by
  have hgoneRoot : ¬ s'.Has root := hcall.gone hparents (.inl rfl)
  have huntagged : ∀ id, id ≠ root → s.tagsOf id = [] := by
    intro id hne
    rw [State.tagsOf, filter_eq_nil_iff]
    intro tag htag hid
    exact hne ((of_decide_eq_true hid).symm.trans (htags tag htag))
  have hle := hcall.shrinks.le
  induction h with
  | root => exact hgoneRoot
  | @child reference hmem _ ih =>
    intro hhas
    have hlisted : reference ∈ s.parents reference.childID := mem_filter.mpr ⟨hmem, by simp⟩
    have hne : reference.childID ≠ root := by
      intro heq
      rw [heq, hparents] at hlisted
      cases hlisted
    exact hcall.shrinks.children _ hhas (huntagged _ hne) (ne_nil_of_mem hlisted)
      (parents_eq_nil_of_gone hle hcall.shrinks.valid ih)
  | @accessory acc hmem hhard hsubject _ ihSubject ihParents =>
    intro hhas
    have hne : acc.artifactID ≠ root := fun heq => hgoneRoot (heq ▸ hhas)
    exact hcall.shrinks.subjects acc hmem hhard (huntagged _ hne) (hsubject.has hvalid hroot)
      ihSubject hhas not_false (parents_eq_nil_of_gone hle hcall.shrinks.valid ihParents)

/-- A deletion that succeeds removes the closure of the root and nothing else. -/
theorem removed_iff_closure (hroot : s.Has root) (hvalid : s.Valid) (hparents : s.parents root = [])
    (htags : ∀ tag ∈ s.tags, tag.artifactID = root)
    (hok : deleteDeeply fuel root true isAccessory s = .ok s') (hid : s.Has id) :
    ¬ s'.Has id ↔ Closure s root id := by
  constructor
  · intro hgone
    have hwithin := deleteDeeply_within hvalid closure_absorbs fuel root true isAccessory s s'
      (.refl s) (fun _ _ => .root) hok
    exact hwithin.gone id hid hgone
  · exact Closure.gone hroot hvalid hparents htags (deleteDeeply_succeeds _ _ _ _ _ _ hvalid hok)

/-- Tags that are immutable make the deletion of their artifact fail. -/
theorem mutable_of_deleteDeeply (hok : deleteDeeply fuel id true isAccessory s = .ok s') :
    ∀ tag ∈ s.tagsOf id, tag.immutable = false := by
  cases fuel with
  | zero => cases hok
  | succ fuel =>
    obtain ⟨-, hroot, -⟩ | ⟨art, s₁, s₂, s₃, -, -, -, -, -, hs₃, -⟩ := deleteDeeply_cases hok
    · cases hroot
    · refine foldlM_forall_mem (fun _ => True) (fun tag _ => tag.immutable = false) ?_ trivial hs₃
      intro tag _ t next _ hnext
      split_ifs at hnext with himmutable
      exact ⟨trivial, by simpa using himmutable, fun _ _ h => h⟩

/-- What is asked of a repository and a root: the tables are consistent and without cycles,
nothing but the root is tagged, no index references the root, and it is not an attestation of an
image that exists. -/
structure DeletableRoot (s : State) (root : ℕ) : Prop where
  valid : s.Valid
  acyclic : Acyclic s.Edge
  has : s.Has root
  untagged : ∀ tag ∈ s.tags, tag.artifactID = root
  parents : s.parents root = []
  attestation : ∀ acc ∈ s.rowsOf root, acc.type = .inTotoAttestation → ¬ s.Has acc.subArtifactID

theorem DeletableRoot.delete_eq (h : DeletableRoot s root) (fuel : ℕ) :
    delete fuel root s = deleteDeeply fuel root true (s.rowsOf root ≠ []) s := by
  refine if_neg ?_
  rw [any_eq_true]
  rintro ⟨acc, hacc, hrefused⟩
  obtain ⟨htype, hsome⟩ := of_decide_eq_true hrefused
  obtain ⟨art, hart⟩ := Option.isSome_iff_exists.mp hsome
  exact h.attestation acc hacc htype ⟨art, State.has_of_artifact hart⟩

end Closure

/-- A deletion succeeds and removes exactly the closure of the root if and only if no tag of the
root is immutable and the sweep of the root is clean. -/
theorem delete_removes_closure_iff (s : State) (root fuel : ℕ) (h : DeletableRoot s root)
    (hfuel : s.artifacts.length < fuel) :
    (∃ s', delete fuel root s = .ok s' ∧ ∀ id, s.Has id → (¬ s'.Has id ↔ Closure s root id)) ↔
      (∀ tag ∈ s.tagsOf root, tag.immutable = false) ∧ Clean fuel root true s := by
  obtain ⟨rank, hranked, hbound⟩ := exists_ranked h.valid h.acyclic
  have hagrees : (∀ tag ∈ s.tagsOf root, tag.immutable = false) → ∀ s',
      deleteDeeply fuel root true (s.rowsOf root ≠ []) s = .ok s' ↔
        Clean fuel root true s ∧ sweep fuel root true s = s' := by
    intro hmutable
    refine agrees rank fuel root true _ s ⟨h.valid, hranked, ?_⟩
      (Nat.lt_of_le_of_lt (hbound root) hfuel) (by simp) (fun _ => ⟨h.has, h.parents⟩)
    intro tag htag
    exact hmutable tag (mem_filter.mpr ⟨htag, by simpa using h.untagged tag htag⟩)
  rw [h.delete_eq]
  constructor
  · rintro ⟨s', hok, -⟩
    have hmutable := mutable_of_deleteDeeply hok
    exact ⟨hmutable, ((hagrees hmutable s').mp hok).1⟩
  · rintro ⟨hmutable, hclean⟩
    have hok := (hagrees hmutable _).mpr ⟨hclean, rfl⟩
    exact ⟨_, hok, fun id hid => removed_iff_closure h.has h.valid h.parents h.untagged hok hid⟩

/-- An index with an image, a signature of the index, and an attestation of the image. -/
def signedIndex : State where
  artifacts := [⟨1, "sha256:index", true⟩, ⟨2, "sha256:image", false⟩,
    ⟨3, "sha256:signature", false⟩, ⟨4, "sha256:attestation", false⟩]
  references := [⟨1, 1, 2⟩]
  accessories := [⟨3, 1, "sha256:index", "sha256:signature", .cosignSignature⟩,
    ⟨4, 2, "sha256:image", "sha256:attestation", .inTotoAttestation⟩]
  tags := [⟨1, 1, false⟩]

theorem signedIndex_deletable : DeletableRoot signedIndex 1 where
  valid := ⟨by decide, by decide, by decide, by decide, by decide, by decide, by decide⟩
  acyclic := acyclic_of_ranked (6 - ·) ⟨by decide, by decide⟩
  has := by decide
  untagged := by decide
  parents := by decide
  attestation := by decide

theorem delete_removes_closure_iff_signedIndex : DeletableRoot signedIndex 1 ∧
    ∃ s', delete 5 1 signedIndex = .ok s' ∧
      ∀ id, signedIndex.Has id → (¬ s'.Has id ↔ Closure signedIndex 1 id) :=
  ⟨signedIndex_deletable,
    (delete_removes_closure_iff signedIndex 1 5 signedIndex_deletable (by decide)).mpr
      ⟨by decide, by decide +kernel⟩⟩

/-- Artifact 2 is an index that is an accessory of the image, and so is its child 3; the index is
listed first. -/
def sharedAccessory : State where
  artifacts := [⟨1, "sha256:image", false⟩, ⟨2, "sha256:index", true⟩,
    ⟨3, "sha256:signature", false⟩]
  references := [⟨1, 2, 3⟩]
  accessories := [⟨2, 1, "sha256:image", "sha256:index", .subject⟩,
    ⟨3, 1, "sha256:image", "sha256:signature", .cosignSignature⟩]
  tags := []

/-- The signature goes with the index that lists it, and its own turn then fails. -/
theorem sharedAccessory_fails : DeletableRoot sharedAccessory 1 ∧
    delete 4 1 sharedAccessory = .error .notFound where
  left :=
    { valid := ⟨by decide, by decide, by decide, by decide, by decide, by decide, by decide⟩
      acyclic := acyclic_of_ranked (6 - ·) ⟨by decide, by decide⟩
      has := by decide
      untagged := by decide
      parents := by decide
      attestation := by decide }
  right := by decide +kernel

end Harbor.Artifacts
