import Harbor.Artifacts.Deletion

/-!
# Deletions that cannot fail

`sweep` is what `deleteDeeply` is for: it removes the artifact with its hard accessories and
its children, and passes over what is gone or kept by something else.  `deleteDeeply` differs
in one point.  It lists the accessories of an artifact before it deletes any of them, and an
accessory that has gone with one listed before it is an error, because an accessory without
parents is deleted like a root.

`agrees` says that this is the only difference: on a graph without cycles, a
deletion succeeds exactly if its sweep is `Clean`, and then it does what the sweep does.
-/

namespace Harbor.Artifacts

open Harbor.Data List State

/-- The artifact is removed with the rows it owns. -/
def State.drop (s : State) (id : ℕ) : State :=
  { s with
    artifacts := s.artifacts.filter (·.id ≠ id)
    references := s.references.filter (·.parentID ≠ id)
    tags := s.tags.filter (·.artifactID ≠ id) }

/-- Something keeps the artifact: a tag, unless it is to be removed with its tags, or a
parent. -/
def State.Kept (s : State) (id : ℕ) (isRoot : Bool) : Prop :=
  (isRoot = false ∧ s.tagsOf id ≠ []) ∨ s.parents id ≠ []

instance (s : State) (id : ℕ) (isRoot : Bool) : Decidable (s.Kept id isRoot) :=
  inferInstanceAs (Decidable (_ ∨ _))

instance (s : State) (id : ℕ) : Decidable (s.Has id) :=
  inferInstanceAs (Decidable (∃ art ∈ s.artifacts, art.id = id))

/-- The hard accessories of the artifact, in the order in which they are listed. -/
def State.hardAccessories (s : State) (id : ℕ) : List Accessory :=
  (s.accessoriesOf id).filter (·.isHard)

/-- Remove the artifact, unless it is kept, after its hard accessories and its children. -/
def sweep : ℕ → ℕ → Bool → State → State
  | 0, _, _, s => s
  | fuel + 1, id, isRoot, s =>
    match s.artifact id with
    | none => s
    | some art =>
      if s.Kept id isRoot then s
      else
        let s₁ := (s.hardAccessories id).foldl (fun s acc =>
          sweep fuel acc.artifactID (s.parents acc.artifactID = []) s)
          (s.deleteAccessories id art.digest)
        let s₂ := (s.referencesOf art).foldl (fun s reference =>
          sweep fuel reference.childID false (s.deleteReference reference.id)) s₁
        s₂.drop id

def sweepAccessory (fuel : ℕ) (s : State) (acc : Accessory) : State :=
  sweep fuel acc.artifactID (s.parents acc.artifactID = []) s

def sweepReference (fuel : ℕ) (s : State) (reference : Reference) : State :=
  sweep fuel reference.childID false (s.deleteReference reference.id)

/-- While the artifact is swept, and everything that goes with it, no accessory goes with one
that is listed before it for the same subject. -/
def Clean : ℕ → ℕ → Bool → State → Prop
  | 0, _, _, _ => True
  | fuel + 1, id, isRoot, s =>
    match s.artifact id with
    | none => True
    | some art =>
      s.Kept id isRoot ∨
        (Along (sweepAccessory fuel) (fun s acc later =>
              Clean fuel acc.artifactID (s.parents acc.artifactID = []) s ∧
                ∀ other ∈ later, (sweepAccessory fuel s acc).Has other.artifactID)
            (s.deleteAccessories id art.digest) (s.hardAccessories id) ∧
          Along (sweepReference fuel) (fun s reference _ =>
              Clean fuel reference.childID false (s.deleteReference reference.id))
            ((s.hardAccessories id).foldl (sweepAccessory fuel) (s.deleteAccessories id art.digest))
            (s.referencesOf art))

instance instDecidableClean : ∀ fuel id isRoot s, Decidable (Clean fuel id isRoot s)
  | 0, _, _, _ => .isTrue trivial
  | fuel + 1, id, isRoot, s => by
    have := instDecidableClean fuel
    unfold Clean
    exact match s.artifact id with
      | none => .isTrue trivial
      | some art => inferInstanceAs (Decidable (_ ∨ (_ ∧ _)))

/-! ## Graphs without cycles -/

/-- A rank that falls along references and hard accessories. -/
structure Ranked (rank : ℕ → ℕ) (s : State) : Prop where
  children : ∀ reference ∈ s.references, rank reference.childID < rank reference.parentID
  accessories : ∀ acc ∈ s.accessories, acc.isHard = true →
    rank acc.artifactID < rank acc.subArtifactID

theorem Ranked.of_le {rank : ℕ → ℕ} {s s' : State} (h : Ranked rank s) (hle : s'.Le s) :
    Ranked rank s' :=
  ⟨fun reference hmem => h.children reference (hle.references.subset hmem),
    fun acc hmem => h.accessories acc (hle.accessories.subset hmem)⟩

/-- What a deletion needs of the tables: no immutable tags and no cycles. -/
structure Deletable (rank : ℕ → ℕ) (s : State) : Prop where
  valid : s.Valid
  ranked : Ranked rank s
  mutable : ∀ tag ∈ s.tags, tag.immutable = false

section Comparison

variable {rank : ℕ → ℕ} {s s' : State} {fuel id : ℕ} {isRoot isAccessory : Bool} {t : State}
  {art : Artifact}

theorem Deletable.of_shrinks {Y : ℕ → Prop} (h : Deletable rank s) (hshrinks : Shrinks Y s s') :
    Deletable rank s' :=
  ⟨hshrinks.valid, h.ranked.of_le hshrinks.le,
    fun tag htag => h.mutable tag (hshrinks.le.tags.subset htag)⟩

theorem Deletable.deleteReference (h : Deletable rank s) (referenceID : ℕ) :
    Deletable rank (s.deleteReference referenceID) :=
  have hle := s.deleteReference_le referenceID
  ⟨h.valid.of_le_of_artifacts_eq hle rfl, h.ranked.of_le hle, h.mutable⟩

theorem Deletable.deleteAccessories (h : Deletable rank s) (id : ℕ) (digest : String) :
    Deletable rank (s.deleteAccessories id digest) :=
  h.of_shrinks (.deleteAccessories h.valid id digest)

theorem has_of_deleteDeeply (h : Deletable rank s) {top : ℕ} (hid : rank id < rank top)
    (htop : s.Has top) (hok : deleteDeeply fuel id isRoot isAccessory s = .ok s') : s'.Has top := by
  by_contra hgone
  have habsorbs : Absorbs (fun other => rank other < rank top) s :=
    ⟨fun reference hmem _ hparents =>
        Nat.lt_trans (h.ranked.children reference hmem) (hparents reference hmem rfl),
      fun acc hmem hhard _ hsub _ => Nat.lt_trans (h.ranked.accessories acc hmem hhard) hsub⟩
  have hwithin := deleteDeeply_within h.valid habsorbs fuel id isRoot isAccessory s s' (.refl s)
    (fun _ _ => hid) hok
  exact absurd (hwithin.gone top htop hgone) (Nat.lt_irrefl _)

theorem deleteTags_of_mutable {tags : List Tag} (hmutable : ∀ tag ∈ tags, tag.immutable = false) :
    ∃ s', s.deleteTags tags = .ok s' := by
  induction tags generalizing s with
  | nil => exact ⟨s, rfl⟩
  | cons tag rest ih =>
    obtain ⟨s', hs'⟩ := ih (s := { s with tags := s.tags.filter (·.id ≠ tag.id) })
      fun other hother => hmutable other (mem_cons_of_mem _ hother)
    exact ⟨s', foldlM_cons_eq_ok.mpr ⟨_, if_neg (by simp [hmutable tag]), hs'⟩⟩

theorem deleteTagsOf_eq_ok (h : Deletable rank s) (hle : t.Le s)
    (hroot : isRoot = true ∨ s.tagsOf id = []) :
    (if isRoot then t.deleteTags (s.tagsOf id) else .ok t) =
      .ok { t with tags := t.tags.filter (·.artifactID ≠ id) } := by
  cases isRoot with
  | false =>
    have hnone := hle.tagsOf_eq_nil (hroot.resolve_left Bool.false_ne_true)
    rw [tagsOf, filter_eq_nil_iff] at hnone
    have hsame : t.tags.filter (·.artifactID ≠ id) = t.tags :=
      filter_eq_self.mpr fun tag htag => by simpa using hnone tag htag
    rw [hsame]
    rfl
  | true =>
    obtain ⟨t', ht'⟩ : ∃ t', t.deleteTags (s.tagsOf id) = .ok t' :=
      deleteTags_of_mutable fun tag htag => h.mutable tag (mem_filter.mp htag).1
    rw [if_pos rfl, ht', deleteTags_eq_ok ht']
    congr 2
    refine filter_congr fun tag htag => ?_
    have hmem := hle.tags.subset htag
    rw [decide_eq_decide, not_iff_not]
    constructor
    · intro hlisted
      obtain ⟨other, hother, hid⟩ := mem_map.mp hlisted
      obtain ⟨hin, hartifact⟩ := mem_filter.mp hother
      rw [← h.valid.tag_eq hin hmem hid]
      simpa using hartifact
    · intro hartifact
      exact mem_map.mpr ⟨tag, mem_filter.mpr ⟨hmem, by simpa using hartifact⟩, rfl⟩

theorem deleteArtifact_of_detached (hhas : s.Has id) (hparents : s.parents id = [])
    (hrows : s.rowsOf id = []) (htags : s.tagsOf id = []) :
    s.deleteArtifact id = .ok { s with
      references := s.references.filter (·.parentID ≠ id)
      artifacts := s.artifacts.filter (·.id ≠ id) } := by
  have hsome : ¬ (s.artifact id).isNone := by
    rw [Option.isNone_iff_eq_none, artifact_eq_none]
    exact not_not.mpr hhas
  have hle : State.Le { s with references := s.references.filter (·.parentID ≠ id) } s :=
    ⟨.refl _, filter_sublist, .refl _, .refl _⟩
  have hpointed := not_or.mpr ⟨not_not.mpr (hle.parents_eq_nil hparents),
    not_or.mpr ⟨not_not.mpr hrows, not_not.mpr htags⟩⟩
  simp only [deleteArtifact]
  rw [if_neg hsome]
  exact if_neg hpointed

theorem finish_eq_ok (h : Deletable rank s) (hle : t.Le s) (hhas : t.Has id)
    (hparents : s.parents id = []) (hrows : t.rowsOf id = [])
    (hroot : isRoot = true ∨ s.tagsOf id = []) :
    ((if isRoot then t.deleteTags (s.tagsOf id) else .ok t).bind fun t' =>
      if !isRoot ∧ (t'.artifact id).isNone then .ok t' else t'.deleteArtifact id) =
      .ok (t.drop id) := by
  rw [deleteTagsOf_eq_ok h hle hroot, Except.bind]
  have huntagged : tagsOf { t with tags := t.tags.filter (·.artifactID ≠ id) } id = [] := by
    simp [tagsOf]
  have hsome : ¬ (!isRoot ∧
      (artifact { t with tags := t.tags.filter (·.artifactID ≠ id) } id).isNone) := by
    rw [Option.isNone_iff_eq_none, artifact_eq_none]
    exact fun hgone => hgone.2 hhas
  rw [if_neg hsome]
  exact deleteArtifact_of_detached hhas (hle.parents_eq_nil hparents) hrows huntagged

/-- Deletions with the given number of nested calls do what the sweep does, if it is clean. -/
def Agrees (rank : ℕ → ℕ) (fuel : ℕ) : Prop :=
  ∀ id isRoot isAccessory s, Deletable rank s → rank id < fuel →
    (isAccessory = false → s.rowsOf id = []) →
    (isRoot = true → s.Has id ∧ s.parents id = []) →
    ∀ s', deleteDeeply fuel id isRoot isAccessory s = .ok s' ↔
      Clean fuel id isRoot s ∧ sweep fuel id isRoot s = s'

/-- An accessory that is gone has no parents, and then its deletion fails. -/
theorem has_of_deleteAccessory (hvalid : s.Valid)
    (hok : deleteDeeply fuel id (s.parents id = []) isAccessory s = .ok s') : s.Has id := by
  by_contra hgone
  have hparents : s.parents id = [] := by
    rw [parents, filter_eq_nil_iff]
    intro reference hmem hchild
    rw [decide_eq_true_eq] at hchild
    exact hgone (hchild ▸ hvalid.child reference hmem)
  rw [decide_eq_true hparents] at hok
  cases fuel with
  | zero => cases hok
  | succ fuel =>
    rw [deleteDeeply, artifact_eq_none.mpr hgone] at hok
    cases hok

theorem accessories_eq_ok_iff (ih : Agrees rank fuel) (ht : Deletable rank t)
    (hfuel : rank id < fuel + 1) (accs : List Accessory)
    (hrank : ∀ acc ∈ accs, acc.isHard = true → rank acc.artifactID < rank id)
    (hhas : ∀ acc ∈ accs, t.Has acc.artifactID) (s' : State) :
    accs.foldlM (accessoryRound fuel) t = .ok s' ↔
      Along (sweepAccessory fuel) (fun s acc later =>
          Clean fuel acc.artifactID (s.parents acc.artifactID = []) s ∧
            ∀ other ∈ later, (sweepAccessory fuel s acc).Has other.artifactID)
        t (accs.filter (·.isHard)) ∧
      (accs.filter (·.isHard)).foldl (sweepAccessory fuel) t = s' := by
  have hfilter : accs.foldlM (accessoryRound fuel) t =
      (accs.filter (·.isHard)).foldlM (fun s acc =>
        deleteDeeply fuel acc.artifactID (s.parents acc.artifactID = []) true s) t := by
    rw [foldlM_filter]
    rfl
  rw [hfilter]
  have hcalls := deleteDeeply_succeeds fuel
  refine foldlM_eq_ok_iff_along (Deletable rank)
    (fun s acc => Clean fuel acc.artifactID (s.parents acc.artifactID = []) s)
    (fun s acc => s.Has acc.artifactID) ?_ ?_ ?_ ?_ ht
    (fun acc hacc => hhas acc (mem_filter.mp hacc).1)
  · intro acc hacc s hs hpresent next
    obtain ⟨hin, hhard⟩ := mem_filter.mp hacc
    have hlt := hrank acc hin hhard
    exact ih _ _ true _ hs (by omega) (fun h => nomatch h)
      (fun hroot => ⟨hpresent, of_decide_eq_true hroot⟩) next
  · intro acc _ s next hs hnext
    exact hs.of_shrinks (hcalls _ _ _ _ _ hs.valid hnext).shrinks
  · intro acc _ s next hs hnext
    exact has_of_deleteAccessory hs.valid hnext
  · intro acc _ s next hs hnext other _
    exact (hcalls _ _ _ _ _ hs.valid hnext).shrinks.le.has

theorem references_eq_ok_iff (ih : Agrees rank fuel) (ht : Deletable rank t)
    (hfuel : rank id < fuel + 1) (references : List Reference)
    (hrank : ∀ reference ∈ references, rank reference.childID < rank id) (s' : State) :
    references.foldlM (referenceRound fuel) t = .ok s' ↔
      Along (sweepReference fuel)
        (fun s reference _ => Clean fuel reference.childID false (s.deleteReference reference.id))
        t references ∧
      references.foldl (sweepReference fuel) t = s' := by
  refine foldlM_eq_ok_iff_along_rest
    (fun s rest => Deletable rank s ∧
      ∀ reference ∈ rest, rank (Reference.childID reference) < rank id)
    (fun s reference => Clean fuel reference.childID false (s.deleteReference reference.id))
    ?_ ?_ ⟨ht, hrank⟩
  · rintro s reference rest ⟨hs, hrest⟩ next
    have hlt := hrest reference mem_cons_self
    exact ih _ false _ _ (hs.deleteReference reference.id) (by omega) (by simp)
      (fun h => nomatch h) next
  · rintro s reference rest next ⟨hs, hrest⟩ hnext
    have hs' := hs.deleteReference reference.id
    exact ⟨hs'.of_shrinks (deleteDeeply_succeeds fuel _ _ _ _ _ hs'.valid hnext).shrinks,
      fun other hother => hrest other (mem_cons_of_mem _ hother)⟩

theorem accessories_has (h : Deletable rank s) (hart : art ∈ s.artifacts) {s₁ : State}
    (hs₁ : (s.accessoriesOf art.id).foldlM (accessoryRound fuel)
      (s.deleteAccessories art.id art.digest) = .ok s₁) :
    Deletable rank s₁ ∧ s₁.Le (s.deleteAccessories art.id art.digest) ∧ s₁.Has art.id := by
  refine foldlM_invariant (fun t => Deletable rank t ∧
    t.Le (s.deleteAccessories art.id art.digest) ∧ t.Has art.id) ?_
    ⟨h.deleteAccessories art.id art.digest, .refl _, art, hart, rfl⟩ hs₁
  rintro acc hacc t next ⟨ht, hle, hhas⟩ hnext
  unfold accessoryRound at hnext
  split_ifs at hnext with hhard
  · have hshrinks := (deleteDeeply_succeeds fuel _ _ _ _ _ ht.valid hnext).shrinks
    refine ⟨ht.of_shrinks hshrinks, hshrinks.le.trans hle, ?_⟩
    obtain ⟨hin, hsub⟩ := mem_filter.mp hacc
    have hlt := h.ranked.accessories acc hin hhard
    rw [of_decide_eq_true hsub] at hlt
    exact has_of_deleteDeeply ht hlt hhas hnext
  · cases hnext
    exact ⟨ht, hle, hhas⟩

/-- It is still there after the deletion of its children, and has no accessory rows. -/
theorem references_has (h : Deletable rank s) (hart : art ∈ s.artifacts) {s₁ s₂ : State}
    (hmid : Deletable rank s₁) (hle₁ : s₁.Le (s.deleteAccessories art.id art.digest))
    (hhas₁ : s₁.Has art.id) (hs₂ : (s.referencesOf art).foldlM (referenceRound fuel) s₁ = .ok s₂) :
    s₂.Le s ∧ s₂.Has art.id ∧ s₂.rowsOf art.id = [] := by
  have hfinal : Deletable rank s₂ ∧ s₂.Le s₁ ∧ s₂.Has art.id := by
    refine foldlM_invariant (fun t => Deletable rank t ∧ t.Le s₁ ∧ t.Has art.id) ?_
      ⟨hmid, .refl _, hhas₁⟩ hs₂
    rintro reference hreference t next ⟨ht, hle, hhas⟩ hnext
    have ht' := ht.deleteReference reference.id
    have hshrinks := (deleteDeeply_succeeds fuel _ _ _ _ _ ht'.valid hnext).shrinks
    refine ⟨ht'.of_shrinks hshrinks,
      (hshrinks.le.trans (t.deleteReference_le reference.id)).trans hle, ?_⟩
    obtain ⟨hin, hparent⟩ := mem_referencesOf hreference
    have hlt := h.ranked.children reference hin
    rw [hparent] at hlt
    exact has_of_deleteDeeply ht' hlt hhas hnext
  have hle := hfinal.2.1.trans hle₁
  refine ⟨hle.trans (s.deleteAccessories_le _ _), hfinal.2.2, ?_⟩
  rw [rowsOf, filter_eq_nil_iff]
  intro acc hacc hid
  rw [decide_eq_true_eq] at hid
  obtain ⟨hin, hkept⟩ := mem_filter.mp (hle.accessories.subset hacc)
  obtain ⟨other, hother, hotherId, hdigest⟩ := h.valid.accessory acc hin
  obtain rfl := h.valid.artifact_eq hother hart (hotherId.trans hid)
  simp [hid, hdigest] at hkept

/-- The visit of an artifact that nothing keeps, as one chain. -/
theorem deleteDeeply_of_not_kept (hart : s.artifact id = some art) (hkept : ¬ s.Kept id isRoot) :
    deleteDeeply (fuel + 1) id isRoot isAccessory s =
      ((s.accessoriesOf id).foldlM (accessoryRound fuel)
        (if isAccessory then s.deleteAccessories id art.digest else s)).bind fun s₁ =>
      ((s.referencesOf art).foldlM (referenceRound fuel) s₁).bind fun s₂ =>
      (if isRoot then s₂.deleteTags (s.tagsOf id) else .ok s₂).bind fun s₃ =>
      if !isRoot ∧ (s₃.artifact id).isNone then .ok s₃ else s₃.deleteArtifact id := by
  obtain ⟨htags, hparents⟩ := not_or.mp hkept
  rw [deleteDeeply, hart]
  simp only
  rw [if_neg (by simpa using htags), if_neg hparents]
  rfl

theorem sweep_of_not_kept (hart : s.artifact id = some art) (hkept : ¬ s.Kept id isRoot) :
    sweep (fuel + 1) id isRoot s =
      ((s.referencesOf art).foldl (sweepReference fuel)
        ((s.hardAccessories id).foldl (sweepAccessory fuel)
          (s.deleteAccessories id art.digest))).drop id := by
  rw [sweep, hart]
  exact if_neg hkept

theorem deleteAccessories_of_rowsOf (hrows : s.rowsOf id = []) (digest : String) :
    s.deleteAccessories id digest = s := by
  have hsame : s.accessories.filter (fun acc => ¬ (acc.artifactID = id ∧ acc.digest = digest)) =
      s.accessories := by
    rw [rowsOf, filter_eq_nil_iff] at hrows
    refine filter_eq_self.mpr fun acc hacc => decide_eq_true fun hown => ?_
    exact hrows acc hacc (by simpa using hown.1)
  rw [deleteAccessories, hsame]

theorem visit_eq_ok_iff (ih : Agrees rank fuel) (h : Deletable rank s) (hfuel : rank id < fuel + 1)
    (hart : s.artifact id = some art) (hkept : ¬ s.Kept id isRoot)
    (hrows : isAccessory = false → s.rowsOf id = []) :
    deleteDeeply (fuel + 1) id isRoot isAccessory s = .ok s' ↔
      Clean (fuel + 1) id isRoot s ∧ sweep (fuel + 1) id isRoot s = s' := by
  obtain ⟨hmem, rfl⟩ := has_of_artifact hart
  have hdetached : (if isAccessory then s.deleteAccessories art.id art.digest else s) =
      s.deleteAccessories art.id art.digest := by
    cases isAccessory with
    | true => rfl
    | false => exact (deleteAccessories_of_rowsOf (hrows rfl) _).symm
  have haccessories := accessories_eq_ok_iff ih (h.deleteAccessories art.id art.digest) hfuel
    (s.accessoriesOf art.id)
    (fun acc hacc hhard => by
      obtain ⟨hin, hsub⟩ := mem_filter.mp hacc
      exact of_decide_eq_true hsub ▸ h.ranked.accessories acc hin hhard)
    (fun acc hacc => h.valid.has_accessory (mem_filter.mp hacc).1)
  have hreferences := fun s₁ (hs₁ : Deletable rank s₁) =>
    references_eq_ok_iff ih hs₁ hfuel (s.referencesOf art)
      (fun reference hreference => by
        obtain ⟨hin, hparent⟩ := mem_referencesOf hreference
        exact hparent ▸ h.ranked.children reference hin)
  obtain ⟨htags, hparents⟩ := not_or.mp hkept
  have hroot : isRoot = true ∨ s.tagsOf art.id = [] := by
    cases isRoot with
    | true => exact .inl rfl
    | false => exact .inr (not_not.mp fun hne => htags ⟨rfl, hne⟩)
  rw [deleteDeeply_of_not_kept hart hkept, sweep_of_not_kept hart hkept, hdetached, bind_eq_ok,
    Clean, hart]
  constructor
  · rintro ⟨s₁, hs₁, hok⟩
    obtain ⟨s₂, hs₂, hok⟩ := bind_eq_ok.mp hok
    obtain ⟨hmid, hle₁, hhas₁⟩ := accessories_has h hmem hs₁
    obtain ⟨hle, hhas, hrows⟩ := references_has h hmem hmid hle₁ hhas₁ hs₂
    rw [finish_eq_ok h hle hhas (not_not.mp hparents) hrows hroot] at hok
    cases hok
    obtain ⟨hclean₁, rfl⟩ := (haccessories s₁).mp hs₁
    obtain ⟨hclean₂, rfl⟩ := (hreferences _ hmid s₂).mp hs₂
    exact ⟨.inr ⟨hclean₁, hclean₂⟩, rfl⟩
  · rintro ⟨hclean, rfl⟩
    obtain ⟨hclean₁, hclean₂⟩ := hclean.resolve_left hkept
    have hs₁ := (haccessories _).mpr ⟨hclean₁, rfl⟩
    obtain ⟨hmid, hle₁, hhas₁⟩ := accessories_has h hmem hs₁
    have hs₂ := (hreferences _ hmid _).mpr ⟨hclean₂, rfl⟩
    obtain ⟨hle, hhas, hrows⟩ := references_has h hmem hmid hle₁ hhas₁ hs₂
    exact ⟨_, hs₁, bind_eq_ok.mpr
      ⟨_, hs₂, finish_eq_ok h hle hhas (not_not.mp hparents) hrows hroot⟩⟩

theorem agrees (rank : ℕ → ℕ) (fuel : ℕ) : Agrees rank fuel := by
  induction fuel with
  | zero =>
    intro id isRoot isAccessory s _ hfuel
    exact absurd hfuel (Nat.not_lt_zero _)
  | succ fuel ih =>
    intro id isRoot isAccessory s h hfuel hrows hroot s'
    cases hart : s.artifact id with
    | none =>
      have hnotRoot : isRoot = false := by
        by_contra hne
        exact artifact_eq_none.mp hart (hroot (by simpa using hne)).1
      rw [deleteDeeply, sweep, Clean, hart, hnotRoot]
      simp
    | some art =>
      by_cases hkept : s.Kept id isRoot
      · -- only the root may not be passed over
        have hnotRoot : isRoot = false := by
          by_contra hne
          have htrue : isRoot = true := by simpa using hne
          exact hkept.elim (fun htags => hne htags.1) (fun hp => hp (hroot htrue).2)
        subst hnotRoot
        have hskip : deleteDeeply (fuel + 1) id false isAccessory s = .ok s := by
          rw [deleteDeeply, hart]
          by_cases htags : s.tagsOf id = []
          · have hparents := hkept.resolve_left fun hleft => hleft.2 htags
            simp [htags, hparents]
          · simp [htags]
        have hclean : Clean (fuel + 1) id false s := by
          rw [Clean, hart]
          exact .inl hkept
        rw [hskip, sweep, hart]
        simp [hclean, hkept]
      · exact visit_eq_ok_iff ih h hfuel hart hkept hrows

end Comparison

end Harbor.Artifacts
