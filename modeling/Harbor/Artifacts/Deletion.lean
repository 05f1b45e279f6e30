import Harbor.Artifacts.Model
import Harbor.Data.Loops

/-!
# What a deletion takes with it

A deletion only removes rows.  `Shrinks` says what else a call of `deleteDeeply` that succeeds
guarantees between the tables before and after it: the rows of an artifact that stays stay too,
an untagged child does not stay behind without its parents, and an untagged hard accessory
does not stay behind without its subject unless an index still references it.

While an artifact is being deleted its own rows go one after the other, so inside the call
these guarantees hold for the other artifacts only.
-/

namespace Harbor.Artifacts

open Harbor.Data List State

namespace State

def Has (s : State) (id : ℕ) : Prop :=
  ∃ art ∈ s.artifacts, art.id = id

variable {s : State} {art : Artifact} {reference : Reference} {id : ℕ}

theorem artifact_eq_none : s.artifact id = none ↔ ¬ s.Has id := by
  simp [artifact, Has]

theorem has_of_artifact (hart : s.artifact id = some art) : art ∈ s.artifacts ∧ art.id = id :=
  ⟨mem_of_find?_eq_some hart, by simpa using find?_some hart⟩

theorem mem_referencesOf (hmem : reference ∈ s.referencesOf art) :
    reference ∈ s.references ∧ reference.parentID = art.id := by
  unfold referencesOf at hmem
  split_ifs at hmem
  · simpa using hmem
  · cases hmem

/-! ## Constraints of the tables -/

/-- The constraints of the database: primary keys, foreign keys, and that only indexes have
references and accessory rows repeat the digest of their artifact. -/
structure Valid (s : State) : Prop where
  artifact_ids : (s.artifacts.map (·.id)).Nodup
  reference_ids : (s.references.map (·.id)).Nodup
  tag_ids : (s.tags.map (·.id)).Nodup
  parent : ∀ reference ∈ s.references,
    ∃ art ∈ s.artifacts, art.id = reference.parentID ∧ art.isImageIndex = true
  child : ∀ reference ∈ s.references, s.Has reference.childID
  accessory : ∀ acc ∈ s.accessories,
    ∃ art ∈ s.artifacts, art.id = acc.artifactID ∧ art.digest = acc.digest
  tag : ∀ tag ∈ s.tags, s.Has tag.artifactID

/-- The tables with some rows removed. -/
structure Le (s' s : State) : Prop where
  artifacts : s'.artifacts.Sublist s.artifacts
  references : s'.references.Sublist s.references
  accessories : s'.accessories.Sublist s.accessories
  tags : s'.tags.Sublist s.tags

variable {s s' s'' : State} {id : ℕ}

theorem Le.refl (s : State) : s.Le s := ⟨.refl _, .refl _, .refl _, .refl _⟩

theorem Le.trans (h' : s''.Le s') (h : s'.Le s) : s''.Le s :=
  ⟨h'.artifacts.trans h.artifacts, h'.references.trans h.references,
    h'.accessories.trans h.accessories, h'.tags.trans h.tags⟩

theorem Le.has (h : s'.Le s) (hid : s'.Has id) : s.Has id := by
  obtain ⟨art, hart, rfl⟩ := hid
  exact ⟨art, h.artifacts.subset hart, rfl⟩

theorem Le.parents_eq_nil (h : s'.Le s) (hid : s.parents id = []) : s'.parents id = [] := by
  rw [parents, filter_eq_nil_iff] at hid ⊢
  exact fun reference hreference => hid reference (h.references.subset hreference)

theorem Le.tagsOf_eq_nil (h : s'.Le s) (hid : s.tagsOf id = []) : s'.tagsOf id = [] := by
  rw [tagsOf, filter_eq_nil_iff] at hid ⊢
  exact fun tag htag => hid tag (h.tags.subset htag)

variable (hvalid : s.Valid)
include hvalid

theorem Valid.artifact_eq {other : Artifact} (hart : art ∈ s.artifacts)
    (hother : other ∈ s.artifacts) (hid : art.id = other.id) : art = other :=
  inj_on_of_nodup_map hvalid.artifact_ids hart hother hid

theorem Valid.reference_eq {other : Reference} (hreference : reference ∈ s.references)
    (hother : other ∈ s.references) (hid : reference.id = other.id) : reference = other :=
  inj_on_of_nodup_map hvalid.reference_ids hreference hother hid

theorem Valid.tag_eq {tag other : Tag} (htag : tag ∈ s.tags) (hother : other ∈ s.tags)
    (hid : tag.id = other.id) : tag = other :=
  inj_on_of_nodup_map hvalid.tag_ids htag hother hid

theorem Valid.has_parent (hreference : reference ∈ s.references) : s.Has reference.parentID := by
  obtain ⟨art, hart, hid, -⟩ := hvalid.parent reference hreference
  exact ⟨art, hart, hid⟩

theorem Valid.has_accessory {acc : Accessory} (hacc : acc ∈ s.accessories) :
    s.Has acc.artifactID := by
  obtain ⟨art, hart, hid, -⟩ := hvalid.accessory acc hacc
  exact ⟨art, hart, hid⟩

/-- Removing rows keeps the constraints as long as nothing points to a removed artifact. -/
theorem Valid.of_le (hle : s'.Le s)
    (hparent : ∀ reference ∈ s'.references, s'.Has reference.parentID)
    (hchild : ∀ reference ∈ s'.references, s'.Has reference.childID)
    (hacc : ∀ acc ∈ s'.accessories, s'.Has acc.artifactID)
    (htag : ∀ tag ∈ s'.tags, s'.Has tag.artifactID) : s'.Valid where
  artifact_ids := (hle.artifacts.map _).nodup hvalid.artifact_ids
  reference_ids := (hle.references.map _).nodup hvalid.reference_ids
  tag_ids := (hle.tags.map _).nodup hvalid.tag_ids
  parent := by
    intro reference hreference
    obtain ⟨art, hart, hid, hindex⟩ := hvalid.parent reference (hle.references.subset hreference)
    obtain ⟨other, hother, hotherId⟩ := hparent reference hreference
    obtain rfl := hvalid.artifact_eq (hle.artifacts.subset hother) hart (hotherId.trans hid.symm)
    exact ⟨other, hother, hid, hindex⟩
  child := hchild
  accessory := by
    intro acc hmem
    obtain ⟨art, hart, hid, hdigest⟩ := hvalid.accessory acc (hle.accessories.subset hmem)
    obtain ⟨other, hother, hotherId⟩ := hacc acc hmem
    obtain rfl := hvalid.artifact_eq (hle.artifacts.subset hother) hart (hotherId.trans hid.symm)
    exact ⟨other, hother, hid, hdigest⟩
  tag := htag

/-- Dropping rows that are not artifacts keeps the constraints. -/
theorem Valid.of_le_of_artifacts_eq (hle : s'.Le s) (hartifacts : s'.artifacts = s.artifacts) :
    s'.Valid := by
  have hhas : ∀ id, s.Has id → s'.Has id := by
    rintro id ⟨art, hart, rfl⟩
    exact ⟨art, by rwa [hartifacts], rfl⟩
  exact hvalid.of_le hle
    (fun reference h => hhas _ (hvalid.has_parent (hle.references.subset h)))
    (fun reference h => hhas _ (hvalid.child _ (hle.references.subset h)))
    (fun acc h => hhas _ (hvalid.has_accessory (hle.accessories.subset h)))
    (fun tag h => hhas _ (hvalid.tag _ (hle.tags.subset h)))

omit hvalid

theorem deleteAccessories_le (s : State) (id : ℕ) (digest : String) :
    (s.deleteAccessories id digest).Le s :=
  ⟨.refl _, .refl _, filter_sublist, .refl _⟩

theorem deleteReference_le (s : State) (id : ℕ) : (s.deleteReference id).Le s :=
  ⟨.refl _, filter_sublist, .refl _, .refl _⟩

theorem deleteTags_eq_ok {tags : List Tag} (hok : s.deleteTags tags = .ok s') :
    s' = { s with tags := s.tags.filter fun tag => tag.id ∉ tags.map (·.id) } := by
  induction tags generalizing s with
  | nil =>
    obtain rfl := foldlM_nil_eq_ok.mp hok
    simp
  | cons tag rest ih =>
    obtain ⟨next, hnext, hrest⟩ := foldlM_cons_eq_ok.mp hok
    split_ifs at hnext
    cases hnext
    rw [ih hrest, filter_filter]
    congr 2
    funext other
    rw [Bool.eq_iff_iff]
    simp only [decide_eq_true_eq, Bool.and_eq_true, map_cons, mem_cons, not_or]
    exact and_comm

theorem deleteArtifact_eq_ok (hok : s.deleteArtifact id = .ok s') :
    s' = { s with
      references := s.references.filter (·.parentID ≠ id)
      artifacts := s.artifacts.filter (·.id ≠ id) } ∧
      s'.parents id = [] ∧ s'.rowsOf id = [] ∧ s'.tagsOf id = [] := by
  simp only [deleteArtifact] at hok
  split_ifs at hok with hnone hpointed
  cases hok
  simp only [not_or, not_not] at hpointed
  exact ⟨rfl, hpointed⟩

end State

/-! ## Calls that succeed -/

/-- What holds between the tables before and after a deletion.  The artifacts in `Y` are still
being deleted. -/
structure Shrinks (Y : ℕ → Prop) (s s' : State) : Prop where
  le : s'.Le s
  valid : s'.Valid
  references : ∀ reference ∈ s.references, s'.Has reference.parentID →
    ¬ Y reference.parentID → reference ∈ s'.references
  accessories : ∀ acc ∈ s.accessories, s'.Has acc.artifactID → ¬ Y acc.artifactID →
    acc ∈ s'.accessories
  tags : ∀ tag ∈ s.tags, s'.Has tag.artifactID → ¬ Y tag.artifactID → tag ∈ s'.tags
  children : ∀ id, s'.Has id → s.tagsOf id = [] → s.parents id ≠ [] → s'.parents id ≠ []
  subjects : ∀ acc ∈ s.accessories, acc.isHard = true → s.tagsOf acc.artifactID = [] →
    s.Has acc.subArtifactID → ¬ s'.Has acc.subArtifactID → s'.Has acc.artifactID →
    ¬ Y acc.artifactID → s'.parents acc.artifactID ≠ []

section Shrinks

variable {Y : ℕ → Prop} {s s' s'' : State} {id : ℕ}

theorem Shrinks.refl (hvalid : s.Valid) : Shrinks Y s s where
  le := .refl s
  valid := hvalid
  references := fun _ hreference _ _ => hreference
  accessories := fun _ hacc _ _ => hacc
  tags := fun _ htag _ _ => htag
  children := fun _ _ _ hparents => hparents
  subjects := fun _ _ _ _ hhas hnot => absurd hhas hnot

theorem Shrinks.mono {Y' : ℕ → Prop} (h : Shrinks Y s s')
    (hY : ∀ id, s'.Has id → Y id → Y' id) : Shrinks Y' s s' where
  le := h.le
  valid := h.valid
  references := fun reference hmem hhas hnot =>
    h.references reference hmem hhas (fun hin => hnot (hY _ hhas hin))
  accessories := fun acc hmem hhas hnot =>
    h.accessories acc hmem hhas (fun hin => hnot (hY _ hhas hin))
  tags := fun tag hmem hhas hnot => h.tags tag hmem hhas (fun hin => hnot (hY _ hhas hin))
  children := h.children
  subjects := fun acc hmem hhard htags hsub hgone hhas hnot =>
    h.subjects acc hmem hhard htags hsub hgone hhas (fun hin => hnot (hY _ hhas hin))

theorem Shrinks.trans (h : Shrinks Y s s') (h' : Shrinks Y s' s'') : Shrinks Y s s'' where
  le := h'.le.trans h.le
  valid := h'.valid
  references := fun reference hmem hhas hnot =>
    h'.references reference (h.references reference hmem (h'.le.has hhas) hnot) hhas hnot
  accessories := fun acc hmem hhas hnot =>
    h'.accessories acc (h.accessories acc hmem (h'.le.has hhas) hnot) hhas hnot
  tags := fun tag hmem hhas hnot =>
    h'.tags tag (h.tags tag hmem (h'.le.has hhas) hnot) hhas hnot
  children := fun id hhas htags hparents =>
    h'.children id hhas (h.le.tagsOf_eq_nil htags) (h.children id (h'.le.has hhas) htags hparents)
  subjects := by
    intro acc hmem hhard htags hsub hgone hhas hnot
    by_cases hmid : s'.Has acc.subArtifactID
    · exact h'.subjects acc (h.accessories acc hmem (h'.le.has hhas) hnot) hhard
        (h.le.tagsOf_eq_nil htags) hmid hgone hhas hnot
    · exact h'.children _ hhas (h.le.tagsOf_eq_nil htags)
        (h.subjects acc hmem hhard htags hsub hmid (h'.le.has hhas) hnot)

/-- The rows that make an artifact an accessory go first. -/
theorem Shrinks.deleteAccessories (hvalid : s.Valid) (id : ℕ) (digest : String) :
    Shrinks (· = id) s (s.deleteAccessories id digest) where
  le := s.deleteAccessories_le id digest
  valid := hvalid.of_le_of_artifacts_eq (s.deleteAccessories_le id digest) rfl
  references := fun _ hreference _ _ => hreference
  accessories := by
    intro acc hacc _ hne
    refine mem_filter.mpr ⟨hacc, ?_⟩
    simp [hne]
  tags := fun _ htag _ _ => htag
  children := fun _ _ _ hparents => hparents
  subjects := fun _ _ _ _ hhas hnot => absurd hhas hnot

theorem Shrinks.deleteTags (hvalid : s.Valid) {tags : List Tag}
    (hartifact : ∀ other ∈ tags, ∀ tag ∈ s.tags, other.id = tag.id → tag.artifactID = id)
    (hok : s.deleteTags tags = .ok s') : Shrinks (· = id) s s' := by
  obtain rfl := deleteTags_eq_ok hok
  refine
    { le := ⟨.refl _, .refl _, .refl _, filter_sublist⟩
      valid := hvalid.of_le_of_artifacts_eq ⟨.refl _, .refl _, .refl _, filter_sublist⟩ rfl
      references := fun _ hreference _ _ => hreference
      accessories := fun _ hacc _ _ => hacc
      tags := ?_
      children := fun _ _ _ hparents => hparents
      subjects := fun _ _ _ _ hhas hnot => absurd hhas hnot }
  intro tag htag _ hne
  refine mem_filter.mpr ⟨htag, ?_⟩
  rw [decide_eq_true_iff]
  intro hmem
  obtain ⟨other, hother, hid⟩ := mem_map.mp hmem
  exact hne (hartifact other hother tag htag hid)

/-- At the end of its deletion the artifact is gone, and nothing is left to be settled. -/
theorem Shrinks.finish (h : Shrinks (· = id) s s') (hgone : ¬ s'.Has id) :
    Shrinks (fun _ => False) s s' :=
  h.mono fun _ hhas heq => hgone (heq ▸ hhas)

/-- An artifact without references of its own is removed after its accessories have been
settled. -/
theorem Shrinks.deleteArtifact (hvalid : s.Valid)
    (hreferences : ∀ reference ∈ s.references, reference.parentID ≠ id)
    (hsettled : ∀ acc ∈ s.accessories, acc.subArtifactID = id → acc.artifactID ≠ id →
      acc.isHard = true → s.tagsOf acc.artifactID = [] → s.parents acc.artifactID ≠ [])
    (hok : s.deleteArtifact id = .ok s') : Shrinks (· = id) s s' ∧ ¬ s'.Has id := by
  obtain ⟨heq, hparents, hrows, htags⟩ := deleteArtifact_eq_ok hok
  have hsame : s.references.filter (·.parentID ≠ id) = s.references :=
    filter_eq_self.mpr fun reference hmem => by simpa using hreferences reference hmem
  rw [hsame] at heq
  subst heq
  have hhas : ∀ other, other ≠ id → s.Has other →
      State.Has { s with artifacts := s.artifacts.filter (·.id ≠ id) } other := by
    rintro other hne ⟨art, hart, rfl⟩
    exact ⟨art, mem_filter.mpr ⟨hart, by simpa using hne⟩, rfl⟩
  have hle : State.Le { s with artifacts := s.artifacts.filter (·.id ≠ id) } s :=
    ⟨filter_sublist, .refl _, .refl _, .refl _⟩
  have hgone : ¬ State.Has { s with artifacts := s.artifacts.filter (·.id ≠ id) } id := by
    rintro ⟨art, hart, hid⟩
    simpa [hid] using (mem_filter.mp hart).2
  simp only [parents, rowsOf, tagsOf, filter_eq_nil_iff, decide_eq_true_eq] at hparents hrows htags
  refine ⟨?_, hgone⟩
  refine
    { le := hle
      valid := hvalid.of_le hle
        (fun reference h => hhas _ (hreferences reference h) (hvalid.has_parent h))
        (fun reference h => hhas _ (hparents reference h) (hvalid.child _ h))
        (fun acc h => hhas _ (hrows acc h) (hvalid.has_accessory h))
        (fun tag h => hhas _ (htags tag h) (hvalid.tag _ h))
      references := fun _ hreference _ _ => hreference
      accessories := fun _ hacc _ _ => hacc
      tags := fun _ htag _ _ => htag
      children := fun _ _ _ hparents => hparents
      subjects := ?_ }
  intro acc hacc hhard hnoTags hsub hnot _ hne
  by_cases hsubject : acc.subArtifactID = id
  · exact hsettled acc hacc hsubject hne hhard hnoTags
  · exact absurd (hhas _ hsubject hsub) hnot

end Shrinks

/-- The round of an accessory in the deletion of its subject. -/
def accessoryRound (fuel : ℕ) (s : State) (acc : Accessory) : Except Error State :=
  if acc.isHard then deleteDeeply fuel acc.artifactID (s.parents acc.artifactID = []) true s
  else .ok s

/-- The round of a reference in the deletion of its parent. -/
def referenceRound (fuel : ℕ) (s : State) (reference : Reference) : Except Error State :=
  deleteDeeply fuel reference.childID false
    ((s.deleteReference reference.id).rowsOf reference.childID ≠ [])
    (s.deleteReference reference.id)

section Calls

variable {s s' : State} {fuel id : ℕ} {isRoot isAccessory : Bool} {s₁ : State} {art : Artifact}
  {s₂ : State}

/-- A call that succeeds passes the artifact over, or deletes it after its accessories and its
children. -/
theorem deleteDeeply_cases (hok : deleteDeeply (fuel + 1) id isRoot isAccessory s = .ok s') :
    (s' = s ∧ isRoot = false ∧ (¬ s.Has id ∨ s.tagsOf id ≠ [] ∨ s.parents id ≠ [])) ∨
      ∃ art s₁ s₂ s₃, s.artifact id = some art ∧ s.parents id = [] ∧
        (isRoot = true ∨ s.tagsOf id = []) ∧
        (s.accessoriesOf id).foldlM (accessoryRound fuel)
          (if isAccessory then s.deleteAccessories id art.digest else s) = .ok s₁ ∧
        (s.referencesOf art).foldlM (referenceRound fuel) s₁ = .ok s₂ ∧
        (if isRoot then s₂.deleteTags (s.tagsOf id) else .ok s₂) = .ok s₃ ∧
        ((isRoot = false ∧ ¬ s₃.Has id ∧ s' = s₃) ∨ s₃.deleteArtifact id = .ok s') := by
  rw [deleteDeeply] at hok
  cases hart : s.artifact id with
  | none =>
    rw [hart] at hok
    cases isRoot with
    | true => cases hok
    | false =>
      cases hok
      exact .inl ⟨rfl, rfl, .inl (artifact_eq_none.mp hart)⟩
  | some art =>
    simp only [hart] at hok
    by_cases htagged : !isRoot ∧ s.tagsOf id ≠ []
    · rw [if_pos htagged] at hok
      cases hok
      exact .inl ⟨rfl, by simpa using htagged.1, .inr (.inl htagged.2)⟩
    rw [if_neg htagged] at hok
    by_cases hparents : s.parents id = []
    · rw [if_neg (not_not.mpr hparents)] at hok
      obtain ⟨s₁, hs₁, hok⟩ := bind_eq_ok.mp hok
      obtain ⟨s₂, hs₂, hok⟩ := bind_eq_ok.mp hok
      obtain ⟨s₃, hs₃, hok⟩ := bind_eq_ok.mp hok
      refine .inr ⟨art, s₁, s₂, s₃, rfl, hparents, ?_, hs₁, hs₂, hs₃, ?_⟩
      · cases isRoot with
        | true => exact .inl rfl
        | false => exact .inr (by simpa using htagged)
      · split_ifs at hok with hgone
        · cases hok
          refine .inl ⟨by simpa using hgone.1, ?_, rfl⟩
          exact artifact_eq_none.mp (Option.isNone_iff_eq_none.mp hgone.2)
        · exact .inr hok
    · rw [if_pos hparents] at hok
      cases isRoot with
      | true => cases hok
      | false =>
        cases hok
        exact .inl ⟨rfl, rfl, .inr (.inr hparents)⟩

structure Succeeds (s s' : State) (id : ℕ) (isRoot : Bool) : Prop where
  shrinks : Shrinks (fun _ => False) s s'
  gone : s.parents id = [] → (isRoot = true ∨ s.tagsOf id = []) → ¬ s'.Has id

/-- Every call with this much fuel that succeeds does what it should. -/
def CallsSucceed (fuel : ℕ) : Prop :=
  ∀ id isRoot isAccessory s s', State.Valid s →
    deleteDeeply fuel id isRoot isAccessory s = .ok s' → Succeeds s s' id isRoot

/-- If the artifact of a hard accessory was untagged in `s` and still exists, it has a parent. -/
def State.Waits (s t : State) (acc : Accessory) : Prop :=
  acc.isHard = true → s.tagsOf acc.artifactID = [] → t.Has acc.artifactID →
    t.parents acc.artifactID ≠ []

variable (ih : CallsSucceed fuel)
include ih

theorem accessoryRound_shrinks (hvalid : s.Valid) {acc : Accessory}
    (hok : accessoryRound fuel s acc = .ok s') :
    Shrinks (fun _ => False) s s' ∧ s.Waits s' acc := by
  unfold accessoryRound at hok
  split_ifs at hok with hhard
  · have hcall := ih _ _ _ _ _ hvalid hok
    refine ⟨hcall.shrinks, fun _ htags hhas => ?_⟩
    by_cases hparents : s.parents acc.artifactID = []
    · exact absurd hhas (hcall.gone hparents (.inr htags))
    · exact hcall.shrinks.children _ hhas htags hparents
  · cases hok
    exact ⟨.refl hvalid, fun hhard' => absurd hhard' hhard⟩

/-- A child is visited as soon as its last reference is gone. -/
theorem referenceRound_shrinks (hvalid : s.Valid) {reference : Reference}
    (hreference : ∀ other ∈ s.references, other.id = reference.id → other = reference)
    (hok : referenceRound fuel s reference = .ok s') :
    Shrinks (· = reference.parentID) s s' ∧ reference ∉ s'.references := by
  have hle := s.deleteReference_le reference.id
  have hcall := ih _ _ _ _ _ (hvalid.of_le_of_artifacts_eq hle rfl) hok
  have hkept : ∀ other ∈ s.references, other ≠ reference →
      other ∈ (s.deleteReference reference.id).references := by
    intro other hother hne
    refine mem_filter.mpr ⟨hother, ?_⟩
    rw [decide_eq_true_iff]
    exact fun hid => hne (hreference other hother hid)
  constructor
  · refine
      { le := hcall.shrinks.le.trans hle
        valid := hcall.shrinks.valid
        references := ?_
        accessories := fun acc hacc hhas _ => hcall.shrinks.accessories acc hacc hhas id
        tags := fun tag htag hhas _ => hcall.shrinks.tags tag htag hhas id
        children := ?_
        subjects := fun acc hacc hhard htags hsub hgone hhas _ =>
          hcall.shrinks.subjects acc hacc hhard htags hsub hgone hhas id }
    · intro other hother hhas hne
      have hother' := hkept other hother (fun heq => hne (by rw [heq]))
      exact hcall.shrinks.references other hother' hhas id
    · intro child hhas htags hparents
      by_cases hlast : (s.deleteReference reference.id).parents child = []
      · -- the deleted row was the only reference to the child
        obtain ⟨other, hother⟩ := exists_mem_of_ne_nil _ hparents
        obtain ⟨hmem, hchild⟩ := mem_filter.mp hother
        rw [decide_eq_true_eq] at hchild
        have heq : other = reference := by
          by_contra hne
          have hin : other ∈ (s.deleteReference reference.id).parents child :=
            mem_filter.mpr ⟨hkept other hmem hne, by simpa using hchild⟩
          rw [hlast] at hin
          cases hin
        subst heq
        subst hchild
        exact absurd hhas (hcall.gone hlast (.inr htags))
      · exact hcall.shrinks.children child hhas htags hlast
  · intro hmem
    have hin := hcall.shrinks.le.references.subset hmem
    simpa using (mem_filter.mp hin).2

theorem accessoryLoop_shrinks {t : State} (hstart : Shrinks (· = id) s t)
    (hloop : (s.accessoriesOf id).foldlM (accessoryRound fuel) t = .ok s₁) :
    Shrinks (· = id) s s₁ ∧ ∀ acc ∈ s.accessoriesOf id, s.Waits s₁ acc := by
  have hround : ∀ acc ∈ s.accessoriesOf id, ∀ t next, Shrinks (· = id) s t →
      accessoryRound fuel t acc = .ok next → Shrinks (· = id) s next ∧ s.Waits next acc ∧
        ∀ other ∈ s.accessoriesOf id, s.Waits t other → s.Waits next other := by
    intro acc _ t next ht hnext
    obtain ⟨hshrinks, hdone⟩ := accessoryRound_shrinks ih ht.valid hnext
    refine ⟨ht.trans (hshrinks.mono fun _ _ => False.elim), ?_, ?_⟩
    · exact fun hhard htags => hdone hhard (ht.le.tagsOf_eq_nil htags)
    · intro other _ hother hhard htags hhas
      exact hshrinks.children _ hhas (ht.le.tagsOf_eq_nil htags)
        (hother hhard htags (hshrinks.le.has hhas))
  constructor
  · exact foldlM_invariant (Shrinks (· = id) s)
      (fun acc hacc t next ht hnext => (hround acc hacc t next ht hnext).1) hstart hloop
  · exact foldlM_forall_mem (Shrinks (· = id) s) _ hround hstart hloop

theorem referenceLoop_shrinks (hvalid : s.Valid) (hmid : Shrinks (· = art.id) s s₁)
    (hloop : (s.referencesOf art).foldlM (referenceRound fuel) s₁ = .ok s₂) :
    Shrinks (· = art.id) s₁ s₂ ∧ ∀ reference ∈ s.referencesOf art, reference ∉ s₂.references := by
  have hround : ∀ reference ∈ s.referencesOf art, ∀ t next, Shrinks (· = art.id) s t →
      referenceRound fuel t reference = .ok next →
        Shrinks (· = art.id) t next ∧ reference ∉ next.references := by
    intro reference hreference t next ht hnext
    obtain ⟨hin, hid⟩ := mem_referencesOf hreference
    rw [← hid]
    exact referenceRound_shrinks ih ht.valid
      (fun other hother heq => hvalid.reference_eq (ht.le.references.subset hother) hin heq) hnext
  constructor
  · refine (foldlM_invariant (fun t => Shrinks (· = art.id) s t ∧ Shrinks (· = art.id) s₁ t)
      (fun reference hreference t next ht hnext => ?_) ⟨hmid, .refl hmid.valid⟩ hloop).2
    have hshrinks := (hround reference hreference t next ht.1 hnext).1
    exact ⟨ht.1.trans hshrinks, ht.2.trans hshrinks⟩
  · refine foldlM_forall_mem (Shrinks (· = art.id) s) (fun reference t => reference ∉ t.references)
      (fun reference hreference t next ht hnext => ?_) hmid hloop
    obtain ⟨hshrinks, hdeleted⟩ := hround reference hreference t next ht hnext
    exact ⟨ht.trans hshrinks, hdeleted, fun later _ hlater hmem =>
      hlater (hshrinks.le.references.subset hmem)⟩

/-- The loops of a visit, up to the removal of the artifact itself. -/
theorem visit_shrinks (hvalid : s.Valid) (hart : s.artifact id = some art)
    (hs₁ : (s.accessoriesOf id).foldlM (accessoryRound fuel)
      (if isAccessory then s.deleteAccessories id art.digest else s) = .ok s₁)
    (hs₂ : (s.referencesOf art).foldlM (referenceRound fuel) s₁ = .ok s₂) :
    Shrinks (· = id) s s₂ ∧ (∀ reference ∈ s₂.references, reference.parentID ≠ id) ∧
      ∀ acc ∈ s.accessories, acc.subArtifactID = id → s.Waits s₂ acc := by
  obtain ⟨hmem, rfl⟩ := has_of_artifact hart
  have hstart : Shrinks (· = art.id) s
      (if isAccessory then s.deleteAccessories art.id art.digest else s) := by
    split_ifs
    · exact .deleteAccessories hvalid _ _
    · exact .refl hvalid
  obtain ⟨hmid, hwaits⟩ := accessoryLoop_shrinks ih hstart hs₁
  obtain ⟨hfinal, hdeleted⟩ := referenceLoop_shrinks ih hvalid hmid hs₂
  refine ⟨hmid.trans hfinal, ?_, ?_⟩
  · intro reference hreference hid
    have hin : reference ∈ s.references := (hfinal.le.trans hmid.le).references.subset hreference
    obtain ⟨other, hother, hotherId, hindex⟩ := hvalid.parent reference hin
    obtain rfl := hvalid.artifact_eq hother hmem (hotherId.trans hid)
    refine hdeleted reference ?_ hreference
    rw [referencesOf, if_pos hindex]
    exact mem_filter.mpr ⟨hin, by simpa using hid⟩
  · intro acc hacc hsub hhard htags hhas
    have hlisted : acc ∈ s.accessoriesOf art.id := mem_filter.mpr ⟨hacc, by simpa using hsub⟩
    exact hfinal.children _ hhas (hmid.le.tagsOf_eq_nil htags)
      (hwaits acc hlisted hhard htags (hfinal.le.has hhas))

omit ih

theorem deleteDeeply_succeeds (fuel : ℕ) : CallsSucceed fuel := by
  induction fuel with
  | zero =>
    intro id isRoot isAccessory s s' _ hok
    cases hok
  | succ fuel ih =>
    intro id isRoot isAccessory s s' hvalid hok
    obtain ⟨rfl, hroot, hskip⟩ | ⟨art, s₁, s₂, s₃, hart, -, -, hs₁, hs₂, hs₃, hend⟩ :=
      deleteDeeply_cases hok
    · refine ⟨.refl hvalid, fun hparents htags hhas => ?_⟩
      have hnoTags : s'.tagsOf id = [] := htags.resolve_left (by simp [hroot])
      simp [hhas, hnoTags, hparents] at hskip
    · obtain ⟨hshrinks, hreferences, hsettled⟩ := visit_shrinks ih hvalid hart hs₁ hs₂
      have htags : Shrinks (· = id) s₂ s₃ ∧ s₃.references = s₂.references := by
        split_ifs at hs₃
        · refine ⟨.deleteTags hshrinks.valid ?_ hs₃, by rw [deleteTags_eq_ok hs₃]⟩
          intro other hother tag htag hid
          obtain ⟨hin, hartifact⟩ := mem_filter.mp hother
          rw [← hvalid.tag_eq hin (hshrinks.le.tags.subset htag) hid]
          simpa using hartifact
        · cases hs₃
          exact ⟨.refl hshrinks.valid, rfl⟩
      have hshrinks₃ := hshrinks.trans htags.1
      obtain ⟨-, hgone, rfl⟩ | hdelete := hend
      · exact ⟨hshrinks₃.finish hgone, fun _ _ => hgone⟩
      · have hsettled₃ : ∀ acc ∈ s₃.accessories, acc.subArtifactID = id → acc.artifactID ≠ id →
            acc.isHard = true → s₃.tagsOf acc.artifactID = [] →
              s₃.parents acc.artifactID ≠ [] := by
          intro acc hacc hsub hne hhard hnoTags
          have hhas : s₃.Has acc.artifactID := htags.1.valid.has_accessory hacc
          -- the tags of another artifact have not been touched
          have hnoTags' : s.tagsOf acc.artifactID = [] := by
            rw [tagsOf, filter_eq_nil_iff] at hnoTags ⊢
            intro tag htag hartifact
            rw [decide_eq_true_eq] at hartifact
            refine hnoTags tag (hshrinks₃.tags tag htag ?_ ?_) (by simpa using hartifact)
            · rwa [hartifact]
            · rwa [hartifact]
          have hparents := hsettled acc (hshrinks₃.le.accessories.subset hacc) hsub hhard hnoTags'
            (htags.1.le.has hhas)
          rwa [parents, htags.2]
        obtain ⟨hremove, hgone⟩ := Shrinks.deleteArtifact htags.1.valid
          (fun reference hreference => hreferences reference (by rwa [← htags.2])) hsettled₃
          hdelete
        exact ⟨(hshrinks₃.trans hremove).finish hgone, fun _ _ => hgone⟩

end Calls

/-! ## What is removed at most -/

/-- A set of artifacts that takes with it every untagged child and every hard accessory of its
members, once all their parents belong to it. -/
structure Absorbs (C : ℕ → Prop) (s : State) : Prop where
  children : ∀ reference ∈ s.references, s.tagsOf reference.childID = [] →
    (∀ other ∈ s.references, other.childID = reference.childID → C other.parentID) →
    C reference.childID
  accessories : ∀ acc ∈ s.accessories, acc.isHard = true → s.Has acc.subArtifactID →
    C acc.subArtifactID →
    (∀ other ∈ s.references, other.childID = acc.artifactID → C other.parentID) →
    C acc.artifactID

/-- Since `s`, only members of the set have been removed or have lost references or tags. -/
structure Within (C : ℕ → Prop) (s t : State) : Prop where
  le : t.Le s
  cut : ∀ reference ∈ s.references, reference ∉ t.references → C reference.parentID
  untagged : ∀ tag ∈ s.tags, tag ∉ t.tags → C tag.artifactID
  gone : ∀ id, s.Has id → ¬ t.Has id → C id

section Within

variable {C : ℕ → Prop} {s t t' : State} {id : ℕ}

theorem Within.refl (s : State) : Within C s s :=
  ⟨.refl s, fun _ h hnot => absurd h hnot, fun _ h hnot => absurd h hnot,
    fun _ h hnot => absurd h hnot⟩

variable (h : Within C s t)
include h

theorem Within.parents (hid : t.parents id = []) :
    ∀ other ∈ s.references, other.childID = id → C other.parentID := by
  intro other hother hchild
  refine h.cut other hother fun hmem => ?_
  rw [State.parents, filter_eq_nil_iff] at hid
  exact hid other hmem (by simpa using hchild)

theorem Within.tagsOf (hid : t.tagsOf id = []) (hC : ¬ C id) : s.tagsOf id = [] := by
  rw [State.tagsOf, filter_eq_nil_iff] at hid ⊢
  intro tag htag hartifact
  refine hid tag (by_contra fun hnot => hC ?_) hartifact
  rw [← of_decide_eq_true hartifact]
  exact h.untagged tag htag hnot

theorem Within.deleteAccessories (id : ℕ) (digest : String) :
    Within C s (t.deleteAccessories id digest) :=
  ⟨(t.deleteAccessories_le id digest).trans h.le, h.cut, h.untagged, h.gone⟩

theorem Within.deleteReference (hvalid : s.Valid) {reference : Reference}
    (hreference : reference ∈ s.references) (hparent : C reference.parentID) :
    Within C s (t.deleteReference reference.id) := by
  refine ⟨(t.deleteReference_le reference.id).trans h.le, ?_, h.untagged, h.gone⟩
  intro other hother hnot
  by_cases hold : other ∈ t.references
  · have heq : other.id = reference.id := by
      by_contra hne
      exact hnot (mem_filter.mpr ⟨hold, by simpa using hne⟩)
    rwa [hvalid.reference_eq hother hreference heq]
  · exact h.cut other hother hold

theorem Within.deleteTags (hvalid : s.Valid) {tags : List Tag}
    (htags : ∀ tag ∈ tags, tag ∈ s.tags ∧ C tag.artifactID) (hok : t.deleteTags tags = .ok t') :
    Within C s t' := by
  obtain rfl := deleteTags_eq_ok hok
  have hle := h.le
  refine ⟨⟨hle.artifacts, hle.references, hle.accessories, filter_sublist.trans hle.tags⟩,
    h.cut, ?_, h.gone⟩
  intro tag htag hnot
  by_cases hold : tag ∈ t.tags
  · have hlisted : tag.id ∈ tags.map (·.id) := by
      by_contra hne
      exact hnot (mem_filter.mpr ⟨hold, by simpa using hne⟩)
    obtain ⟨other, hother, hid⟩ := mem_map.mp hlisted
    obtain ⟨hin, hC⟩ := htags other hother
    rwa [← hvalid.tag_eq hin htag hid]
  · exact h.untagged tag htag hold

theorem Within.deleteArtifact (hid : C id) (hok : t.deleteArtifact id = .ok t') :
    Within C s t' := by
  obtain ⟨rfl, -⟩ := deleteArtifact_eq_ok hok
  refine ⟨?_, ?_, h.untagged, ?_⟩
  · exact State.Le.trans ⟨filter_sublist, filter_sublist, .refl _, .refl _⟩ h.le
  · intro reference hreference hnot
    by_cases hold : reference ∈ t.references
    · have hparent : reference.parentID = id := by
        by_contra hne
        exact hnot (mem_filter.mpr ⟨hold, by simpa using hne⟩)
      rwa [hparent]
    · exact h.cut reference hreference hold
  · intro other hother hnot
    by_cases hold : t.Has other
    · obtain ⟨art, hart, rfl⟩ := hold
      have heq : art.id = id := by
        by_contra hne
        exact hnot ⟨art, mem_filter.mpr ⟨hart, by simpa using hne⟩, rfl⟩
      rwa [heq]
    · exact h.gone other hother hold

omit h

theorem deleteDeeply_within (hvalid : s.Valid) (habsorbs : Absorbs C s) (fuel : ℕ) :
    ∀ id isRoot isAccessory t t', Within C s t →
      (t.parents id = [] → (isRoot = true ∨ t.tagsOf id = []) → C id) →
      deleteDeeply fuel id isRoot isAccessory t = .ok t' → Within C s t' := by
  induction fuel with
  | zero =>
    intro id isRoot isAccessory t t' _ _ hok
    cases hok
  | succ fuel ih =>
    intro id isRoot isAccessory t t' hwithin hid hok
    obtain ⟨rfl, -, -⟩ | ⟨art, s₁, s₂, s₃, hart, hparents, hroot, hs₁, hs₂, hs₃, hend⟩ :=
      deleteDeeply_cases hok
    · exact hwithin
    have hC : C id := hid hparents hroot
    obtain ⟨hmem, rfl⟩ := has_of_artifact hart
    have hhas : s.Has art.id := hwithin.le.has ⟨art, hmem, rfl⟩
    have hstart : Within C s
        (if isAccessory then t.deleteAccessories art.id art.digest else t) := by
      split_ifs
      · exact hwithin.deleteAccessories art.id art.digest
      · exact hwithin
    have hmid : Within C s s₁ := by
      refine foldlM_invariant (Within C s) (fun acc hacc u next hu hnext => ?_) hstart hs₁
      unfold accessoryRound at hnext
      split_ifs at hnext with hhard
      · refine ih _ _ _ _ _ hu (fun hnone _ => ?_) hnext
        obtain ⟨hin, hsub⟩ := mem_filter.mp hacc
        rw [decide_eq_true_eq] at hsub
        exact habsorbs.accessories acc (hwithin.le.accessories.subset hin) hhard
          (by rwa [hsub]) (by rwa [hsub]) (hu.parents hnone)
      · cases hnext
        exact hu
    have hfinal : Within C s s₂ := by
      refine foldlM_invariant (Within C s) (fun reference hreference u next hu hnext => ?_) hmid hs₂
      obtain ⟨hin, hparent⟩ := mem_referencesOf hreference
      have hin := hwithin.le.references.subset hin
      have hcut := hu.deleteReference hvalid hin (by rwa [hparent])
      refine ih _ _ _ _ _ hcut (fun hnone htags => ?_) hnext
      by_contra hnot
      have huntagged := hcut.tagsOf (htags.resolve_left Bool.false_ne_true) hnot
      exact hnot (habsorbs.children reference hin huntagged (hcut.parents hnone))
    have htags : Within C s s₃ := by
      split_ifs at hs₃
      · refine hfinal.deleteTags hvalid (fun tag htag => ?_) hs₃
        obtain ⟨hin, hartifact⟩ := mem_filter.mp htag
        exact ⟨hwithin.le.tags.subset hin, by rwa [of_decide_eq_true hartifact]⟩
      · cases hs₃
        exact hfinal
    obtain ⟨-, -, rfl⟩ | hdelete := hend
    · exact htags
    · exact htags.deleteArtifact hC hdelete

end Within

end Harbor.Artifacts
