import Harbor.Artifacts.Closure
import Mathlib.Data.Finset.Max

/-!
# Deleting a repository

The controller lists the artifacts of a repository without those that only others keep alive,
and deletes them round by round; an artifact that is still referenced waits for the next round.
The list leaves out every accessory, so an accessory goes only with a subject or with an index.

An accessory that is tagged or unreferenced and has no subject left is never deleted, by
whatever follows.  If no round starts with such an orphan, and every deletion is clean, then
each round deletes a candidate, and in the end nothing is left.
-/

namespace Harbor.Artifacts

open Harbor.Data List

/-! ## The loop of the controller -/

/-- The artifacts that `List` returns for a repository: tagged or not referenced, and not
accessories. -/
def State.candidates (s : State) : List ℕ :=
  (s.artifacts.filter fun art =>
    (s.tagsOf art.id ≠ [] ∨ s.parents art.id = []) ∧ s.rowsOf art.id = []).map (·.id)

/-- The turn of a candidate.  One that is referenced by others is put into the backlog. -/
def turn (fuel : ℕ) (p : State × List ℕ) (id : ℕ) : Except Error (State × List ℕ) :=
  if p.1.parents id ≠ [] then .ok (p.1, p.2 ++ [id])
  else (delete fuel id p.1).map (·, p.2)

/-- The rounds over the candidates, until none is left. -/
def rounds (fuel : ℕ) : ℕ → List ℕ → State → Except Error State
  | _, [], s => .ok s
  | 0, _ :: _, _ => .error .outOfFuel
  | n + 1, id :: rest, s =>
    ((id :: rest).foldlM (turn fuel) (s, [])).bind fun p => rounds fuel n p.2 p.1

/-- `Delete` of the repository controller, up to the removal of the repository itself. -/
def deleteRepository (n fuel : ℕ) (s : State) : Except Error State :=
  rounds fuel n s.candidates s

/-! ## Artifacts that only their own deletion removes -/

/-- Nothing but its own deletion removes the artifact: a child goes with its parents only if it
is untagged, and an accessory goes with a hard subject only. -/
structure State.Anchored (s : State) (id : ℕ) : Prop where
  kept : s.tagsOf id ≠ [] ∨ s.parents id = []
  subjects : ∀ acc ∈ s.rowsOf id, acc.isHard = true → ¬ s.Has acc.subArtifactID

/-- An accessory that is left to itself. -/
structure State.Orphan (s : State) (id : ℕ) : Prop where
  has : s.Has id
  anchored : s.Anchored id
  accessory : s.rowsOf id ≠ []

def State.NoOrphan (s : State) : Prop :=
  ∀ art ∈ s.artifacts, ¬ s.Orphan art.id

/-- An artifact that is to be deleted by its own turn. -/
structure State.IsCandidate (s : State) (id : ℕ) : Prop where
  has : s.Has id
  rows : s.rowsOf id = []
  kept : s.tagsOf id ≠ [] ∨ s.parents id = []

instance (s : State) (id : ℕ) : Decidable (s.Anchored id) :=
  decidable_of_iff ((s.tagsOf id ≠ [] ∨ s.parents id = []) ∧
    ∀ acc ∈ s.rowsOf id, acc.isHard = true → ¬ s.Has acc.subArtifactID)
    ⟨fun h => ⟨h.1, h.2⟩, fun h => ⟨h.kept, h.subjects⟩⟩

instance (s : State) (id : ℕ) : Decidable (s.Orphan id) :=
  decidable_of_iff (s.Has id ∧ s.Anchored id ∧ s.rowsOf id ≠ [])
    ⟨fun h => ⟨h.1, h.2.1, h.2.2⟩, fun h => ⟨h.has, h.anchored, h.accessory⟩⟩

instance (s : State) : Decidable s.NoOrphan :=
  inferInstanceAs (Decidable (∀ art ∈ s.artifacts, ¬ s.Orphan art.id))

section Turns

variable {s s' : State} {rank : ℕ → ℕ} {fuel id other : ℕ}

theorem State.mem_candidates : id ∈ s.candidates ↔ s.IsCandidate id := by
  constructor
  · intro hmem
    obtain ⟨art, hart, rfl⟩ := mem_map.mp hmem
    obtain ⟨hin, hkept⟩ := mem_filter.mp hart
    obtain ⟨hkept, hrows⟩ := of_decide_eq_true hkept
    exact ⟨⟨art, hin, rfl⟩, hrows, hkept⟩
  · rintro ⟨⟨art, hart, rfl⟩, hrows, hkept⟩
    exact mem_map_of_mem (mem_filter.mpr ⟨hart, decide_eq_true ⟨hkept, hrows⟩⟩)

theorem State.IsCandidate.anchored (h : s.IsCandidate id) : s.Anchored id :=
  ⟨h.kept, by simp [h.rows]⟩

theorem delete_of_rowsOf (hrows : s.rowsOf id = []) :
    delete fuel id s = deleteDeeply fuel id true false s := by
  simp [delete, hrows]

theorem rowsOf_eq_nil_iff (hle : s'.Le s)
    (hkeep : ∀ acc ∈ s.accessories, acc.artifactID = id → acc ∈ s'.accessories) :
    s'.rowsOf id = [] ↔ s.rowsOf id = [] := by
  simp only [State.rowsOf, filter_eq_nil_iff, decide_eq_true_eq]
  constructor
  · exact fun h acc hacc hid => h acc (hkeep acc hacc hid) hid
  · exact fun h acc hacc => h acc (hle.accessories.subset hacc)

/-- The deletion of another artifact leaves an anchored one where it is, and anchored. -/
theorem State.Anchored.of_delete (h : s.Anchored other) (hvalid : s.Valid) (hhas : s.Has other)
    (hne : other ≠ id) (hok : deleteDeeply fuel id true false s = .ok s') :
    s'.Has other ∧ s'.Anchored other ∧ (s'.rowsOf other = [] ↔ s.rowsOf other = []) := by
  have habsorbs : Absorbs (· ≠ other) s := by
    constructor
    · rintro reference hmem huntagged - rfl
      have hnone := h.kept.resolve_left (not_not.mpr huntagged)
      rw [State.parents, filter_eq_nil_iff] at hnone
      exact hnone reference hmem (by simp)
    · rintro acc hmem hhard hsubject - - rfl
      exact h.subjects acc (mem_filter.mpr ⟨hmem, by simp⟩) hhard hsubject
  have hwithin := deleteDeeply_within hvalid habsorbs fuel id true false s s' (.refl s)
    (fun _ _ => hne.symm) hok
  have hshrinks := (deleteDeeply_succeeds fuel _ _ _ _ _ hvalid hok).shrinks
  have hhas' : s'.Has other := by
    by_contra hgone
    exact hwithin.gone other hhas hgone rfl
  refine ⟨hhas', ⟨?_, ?_⟩, ?_⟩
  · refine h.kept.imp (fun htags => ?_) hshrinks.le.parents_eq_nil
    obtain ⟨tag, htag⟩ := exists_mem_of_ne_nil _ htags
    obtain ⟨hin, hid⟩ := mem_filter.mp htag
    have hkept := hshrinks.tags tag hin (by rwa [of_decide_eq_true hid]) not_false
    exact ne_nil_of_mem (mem_filter.mpr ⟨hkept, hid⟩)
  · intro acc hacc hhard hsubject
    obtain ⟨hin, hid⟩ := mem_filter.mp hacc
    exact h.subjects acc (mem_filter.mpr ⟨hshrinks.le.accessories.subset hin, hid⟩) hhard
      (hshrinks.le.has hsubject)
  · exact rowsOf_eq_nil_iff hshrinks.le fun acc hacc hid =>
      hshrinks.accessories acc hacc (by rwa [hid]) not_false

/-- What holds between two turns: the candidates of the tables are those that still have a turn
to come. -/
structure Pending (rank : ℕ → ℕ) (s : State) (todo : List ℕ) : Prop where
  deletable : Deletable rank s
  nodup : todo.Nodup
  mem_iff : ∀ id, id ∈ todo ↔ s.IsCandidate id

theorem Pending.perm {todo todo' : List ℕ} (h : Pending rank s todo) (hperm : todo.Perm todo') :
    Pending rank s todo' :=
  ⟨h.deletable, hperm.nodup_iff.mp h.nodup, fun id => hperm.mem_iff.symm.trans (h.mem_iff id)⟩

theorem Pending.delete {rest : List ℕ} (h : Pending rank s (id :: rest))
    (hparents : s.parents id = []) (hok : deleteDeeply fuel id true false s = .ok s') :
    Pending rank s' rest := by
  obtain ⟨hnotin, hnodup⟩ := nodup_cons.mp h.nodup
  have hvalid := h.deletable.valid
  have hcall := deleteDeeply_succeeds fuel _ _ _ _ _ hvalid hok
  have hle := hcall.shrinks.le
  refine ⟨h.deletable.of_shrinks hcall.shrinks, hnodup, fun other => ⟨?_, ?_⟩⟩
  · intro hmem
    have hcand := (h.mem_iff other).mp (mem_cons_of_mem _ hmem)
    have hne : other ≠ id := by
      rintro rfl
      exact hnotin hmem
    obtain ⟨hhas, hanchored, hrows⟩ := hcand.anchored.of_delete hvalid hcand.has hne hok
    exact ⟨hhas, hrows.mpr hcand.rows, hanchored.kept⟩
  · intro hcand
    have hrows : s.rowsOf other = [] := by
      refine (rowsOf_eq_nil_iff hle fun acc hacc hid => ?_).mp hcand.rows
      exact hcall.shrinks.accessories acc hacc (by rw [hid]; exact hcand.has) not_false
    have hkept : s.tagsOf other ≠ [] ∨ s.parents other = [] := by
      by_contra hneither
      obtain ⟨htags, hreferenced⟩ := not_or.mp hneither
      have hchild := hcall.shrinks.children other hcand.has (not_not.mp htags) hreferenced
      exact hcand.kept.elim (fun hne => hne (hle.tagsOf_eq_nil (not_not.mp htags))) hchild
    have hmem := (h.mem_iff other).mpr ⟨hle.has hcand.has, hrows, hkept⟩
    refine (mem_cons.mp hmem).resolve_left ?_
    rintro rfl
    exact hcall.gone hparents (.inl rfl) hcand.has

end Turns

/-! ## Rounds -/

/-- The turn of a candidate whose deletion cannot fail. -/
def sweepTurn (fuel : ℕ) (p : State × List ℕ) (id : ℕ) : State × List ℕ :=
  if p.1.parents id ≠ [] then (p.1, p.2 ++ [id]) else (sweep fuel id true p.1, p.2)

/-- No round starts with an orphan, and the deletions of every round are clean. -/
def Orderly (fuel : ℕ) : ℕ → List ℕ → State → Prop
  | _, [], s => s.NoOrphan
  | 0, _ :: _, s => s.NoOrphan
  | n + 1, id :: rest, s =>
    s.NoOrphan ∧
      Along (sweepTurn fuel)
        (fun p id _ => p.1.parents id = [] → Clean fuel id true p.1) (s, []) (id :: rest) ∧
      Orderly fuel n ((id :: rest).foldl (sweepTurn fuel) (s, [])).2
        ((id :: rest).foldl (sweepTurn fuel) (s, [])).1

instance instDecidableOrderly (fuel : ℕ) : ∀ n todo s, Decidable (Orderly fuel n todo s)
  | 0, [], s => inferInstanceAs (Decidable s.NoOrphan)
  | 0, _ :: _, s => inferInstanceAs (Decidable s.NoOrphan)
  | _ + 1, [], s => inferInstanceAs (Decidable s.NoOrphan)
  | n + 1, _ :: _, _ =>
    have := instDecidableOrderly fuel n
    inferInstanceAs (Decidable (_ ∧ _ ∧ _))

section Rounds

variable {s s' : State} {rank : ℕ → ℕ} {fuel id : ℕ} {p : State × List ℕ} {todo : List ℕ}
  {p' : State × List ℕ} {rest : List ℕ}

theorem turn_cases (hrows : p.1.rowsOf id = []) (hok : turn fuel p id = .ok p') :
    (p.1.parents id ≠ [] ∧ p' = (p.1, p.2 ++ [id])) ∨
      (p.1.parents id = [] ∧ p'.2 = p.2 ∧ deleteDeeply fuel id true false p.1 = .ok p'.1) := by
  unfold turn at hok
  split_ifs at hok with hparents
  · cases hok
    exact .inl ⟨hparents, rfl⟩
  · rw [delete_of_rowsOf hrows] at hok
    obtain ⟨next, hdelete, rfl⟩ := map_eq_ok.mp hok
    exact .inr ⟨not_not.mp hparents, rfl, hdelete⟩

theorem Pending.turn (h : Pending rank p.1 ((id :: rest) ++ p.2)) (hok : turn fuel p id = .ok p') :
    Pending rank p'.1 (rest ++ p'.2) := by
  have hcand := (h.mem_iff id).mp mem_cons_self
  obtain ⟨-, rfl⟩ | ⟨hparents, hbacklog, hdelete⟩ := turn_cases hcand.rows hok
  · refine h.perm ?_
    rw [cons_append, ← append_assoc]
    exact perm_append_singleton id _ |>.symm
  · rw [hbacklog]
    exact Pending.delete h hparents hdelete

theorem turn_eq_ok_iff (hrank : ∀ id, rank id < fuel) (h : Pending rank p.1 ((id :: rest) ++ p.2))
    (p' : State × List ℕ) :
    turn fuel p id = .ok p' ↔
      (p.1.parents id = [] → Clean fuel id true p.1) ∧ sweepTurn fuel p id = p' := by
  have hcand := (h.mem_iff id).mp mem_cons_self
  unfold turn sweepTurn
  by_cases hparents : p.1.parents id = []
  · rw [if_neg (not_not.mpr hparents), if_neg (not_not.mpr hparents), delete_of_rowsOf hcand.rows]
    have hagrees := agrees rank fuel id true false p.1 h.deletable (hrank id)
      (fun _ => hcand.rows) (fun _ => ⟨hcand.has, hparents⟩)
    rw [map_eq_ok]
    constructor
    · rintro ⟨next, hok, rfl⟩
      obtain ⟨hclean, rfl⟩ := (hagrees next).mp hok
      exact ⟨fun _ => hclean, rfl⟩
    · rintro ⟨hclean, rfl⟩
      exact ⟨_, (hagrees _).mpr ⟨hclean hparents, rfl⟩, rfl⟩
  · simp [hparents]

/-- A round succeeds exactly if its deletions are clean. -/
theorem round_eq_ok_iff (hrank : ∀ id, rank id < fuel) (h : Pending rank s todo)
    (p' : State × List ℕ) :
    todo.foldlM (turn fuel) (s, []) = .ok p' ↔
      Along (sweepTurn fuel)
        (fun p id _ => p.1.parents id = [] → Clean fuel id true p.1) (s, []) todo ∧
      todo.foldl (sweepTurn fuel) (s, []) = p' := by
  refine foldlM_eq_ok_iff_along_rest (fun p rest => Pending rank (Prod.fst p) (rest ++ p.2))
    (fun p id => p.1.parents id = [] → Clean fuel id true p.1)
    (fun p id rest hp => turn_eq_ok_iff hrank hp) (fun p id rest p' hp => hp.turn) ?_
  rwa [append_nil]

theorem Pending.round (h : Pending rank s todo)
    (hok : todo.foldlM (Artifacts.turn fuel) (s, []) = .ok p) : Pending rank p.1 p.2 := by
  refine foldlM_invariant_rest (fun p rest => Pending rank (Prod.fst p) (rest ++ p.2))
    (fun p id rest p' hp => hp.turn) ?_ hok
  rwa [append_nil]

theorem orphan_round (h : Pending rank s todo) (horphan : s.Orphan id)
    (hok : todo.foldlM (turn fuel) (s, []) = .ok p) : p.1.Orphan id := by
  refine (foldlM_invariant_rest
    (fun p rest => Pending rank (Prod.fst p) (rest ++ p.2) ∧ p.1.Orphan id) ?_
    ⟨by rwa [append_nil], horphan⟩ hok).2
  rintro p turned rest p' ⟨hp, horphan⟩ hok
  have hcand := (hp.mem_iff turned).mp mem_cons_self
  refine ⟨hp.turn hok, ?_⟩
  obtain ⟨-, rfl⟩ | ⟨-, -, hdelete⟩ := turn_cases hcand.rows hok
  · exact horphan
  · have hne : id ≠ turned := by
      rintro rfl
      exact horphan.accessory hcand.rows
    obtain ⟨hhas, hanchored, hrows⟩ := horphan.anchored.of_delete hp.deletable.valid horphan.has
      hne hdelete
    exact ⟨hhas, hanchored, fun hnone => horphan.accessory (hrows.mp hnone)⟩

theorem orphan_rounds (n : ℕ) : ∀ todo s, Pending rank s todo → s.Orphan id →
    rounds fuel n todo s = .ok s' → s'.Orphan id := by
  induction n with
  | zero =>
    intro todo s h horphan hok
    cases todo with
    | nil =>
      cases hok
      exact horphan
    | cons => cases hok
  | succ n ih =>
    intro todo s h horphan hok
    cases todo with
    | nil =>
      cases hok
      exact horphan
    | cons first rest =>
      obtain ⟨p, hround, hrest⟩ := bind_eq_ok.mp hok
      exact ih p.2 p.1 (h.round hround) (orphan_round h horphan hround) hrest

/-- While there are artifacts, some candidate is not referenced: one of the highest rank. -/
theorem Pending.exists_ready (h : Pending rank s todo) (hno : s.NoOrphan) (hne : s.artifacts ≠ []) :
    ∃ id ∈ todo, s.parents id = [] := by
  obtain ⟨top, htop, hmax⟩ := Finset.exists_max_image s.artifacts.toFinset (rank ·.id)
    (toFinset_nonempty_iff _ |>.mpr hne)
  rw [mem_toFinset] at htop
  have hhighest : ∀ id, s.Has id → rank id ≤ rank top.id := by
    rintro id ⟨art, hart, rfl⟩
    exact hmax art (mem_toFinset.mpr hart)
  have hvalid := h.deletable.valid
  have hparents : s.parents top.id = [] := by
    rw [State.parents, filter_eq_nil_iff]
    intro reference hmem hchild
    have hlt := h.deletable.ranked.children reference hmem
    rw [of_decide_eq_true hchild] at hlt
    exact absurd (hhighest _ (hvalid.has_parent hmem)) (Nat.not_le_of_lt hlt)
  have hanchored : s.Anchored top.id := by
    refine ⟨.inr hparents, fun acc hacc hhard hsubject => ?_⟩
    obtain ⟨hmem, hid⟩ := mem_filter.mp hacc
    have hlt := h.deletable.ranked.accessories acc hmem hhard
    rw [of_decide_eq_true hid] at hlt
    exact absurd (hhighest _ hsubject) (Nat.not_le_of_lt hlt)
  have hrows : s.rowsOf top.id = [] := by
    by_contra hrows
    exact hno top htop ⟨⟨top, htop, rfl⟩, hanchored, hrows⟩
  exact ⟨top.id, (h.mem_iff _).mpr ⟨⟨top, htop, rfl⟩, hrows, .inr hparents⟩, hparents⟩

/-- Only candidates that are referenced when the round starts are put into the backlog. -/
theorem requeued (h : Pending rank s todo) (hok : todo.foldlM (turn fuel) (s, []) = .ok p) :
    ∀ id ∈ p.2, id ∈ todo ∧ s.parents id ≠ [] := by
  refine (foldlM_invariant_rest
    (fun p rest => Pending rank (Prod.fst p) (rest ++ p.2) ∧ p.1.Le s ∧ rest ⊆ todo ∧
      ∀ id ∈ p.2, id ∈ todo ∧ s.parents id ≠ []) ?_
    ⟨by rwa [append_nil], .refl s, fun _ hid => hid, by simp⟩ hok).2.2.2
  rintro p turned rest p' ⟨hp, hle, hrest, hbacklog⟩ hok
  have hcand := (hp.mem_iff turned).mp mem_cons_self
  have hrest' : rest ⊆ todo := fun id hid => hrest (mem_cons_of_mem _ hid)
  refine ⟨hp.turn hok, ?_⟩
  obtain ⟨hparents, rfl⟩ | ⟨-, hsame, hdelete⟩ := turn_cases hcand.rows hok
  · refine ⟨hle, hrest', fun id hid => ?_⟩
    cases mem_append.mp hid with
    | inl hold => exact hbacklog id hold
    | inr hnew =>
      obtain rfl := mem_singleton.mp hnew
      exact ⟨hrest mem_cons_self, fun hnone => hparents (hle.parents_eq_nil hnone)⟩
  · have hshrinks := (deleteDeeply_succeeds fuel _ _ _ _ _ hp.deletable.valid hdelete).shrinks
    rw [hsame]
    exact ⟨hshrinks.le.trans hle, hrest', hbacklog⟩

/-- Every round deletes a candidate. -/
theorem round_progress (h : Pending rank s todo) (hno : s.NoOrphan) (hne : todo ≠ [])
    (hok : todo.foldlM (turn fuel) (s, []) = .ok p) : p.2.length < todo.length := by
  obtain ⟨some, hsome⟩ := exists_mem_of_ne_nil _ hne
  obtain ⟨art, hart, -⟩ := ((h.mem_iff some).mp hsome).has
  obtain ⟨ready, hready, hparents⟩ := h.exists_ready hno (ne_nil_of_mem hart)
  have hbacklog := requeued h hok
  have hsubset : p.2 ⊆ todo.erase ready := by
    intro id hid
    obtain ⟨hmem, hreferenced⟩ := hbacklog id hid
    refine (mem_erase_of_ne ?_).mpr hmem
    rintro rfl
    exact hreferenced hparents
  have hlength := (subperm_of_subset (h.round hok).nodup hsubset).length_le
  rw [length_erase_of_mem hready] at hlength
  have hpos := length_pos_of_mem hready
  omega

theorem rounds_complete_iff (hrank : ∀ id, rank id < fuel) (n : ℕ) : ∀ todo s,
    Pending rank s todo → todo.length ≤ n →
      ((∃ s', rounds fuel n todo s = .ok s' ∧ s'.artifacts = []) ↔ Orderly fuel n todo s) := by
  have hempty : ∀ s, Pending rank s [] → (s.artifacts = [] ↔ s.NoOrphan) := by
    intro s h
    constructor
    · intro hnone art hart
      rw [hnone] at hart
      cases hart
    · intro hno
      by_contra hne
      obtain ⟨id, hid, -⟩ := h.exists_ready hno hne
      cases hid
  induction n with
  | zero =>
    intro todo s h hlength
    obtain rfl := eq_nil_of_length_eq_zero (Nat.le_zero.mp hlength)
    simpa [rounds, Orderly] using hempty s h
  | succ n ih =>
    intro todo s h hlength
    cases todo with
    | nil => simpa [rounds, Orderly] using hempty s h
    | cons first rest =>
      have hround := round_eq_ok_iff hrank h
      constructor
      · rintro ⟨s', hok, hnone⟩
        have hno : s.NoOrphan := by
          intro art hart horphan
          obtain ⟨left, hleft, -⟩ := (orphan_rounds (n + 1) _ _ h horphan hok).has
          rw [hnone] at hleft
          cases hleft
        obtain ⟨p, hp, hrest⟩ := bind_eq_ok.mp hok
        have hshorter := round_progress h hno (cons_ne_nil _ _) hp
        obtain ⟨halong, rfl⟩ := (hround p).mp hp
        exact ⟨hno, halong, (ih _ _ (h.round hp) (by omega)).mp ⟨s', hrest, hnone⟩⟩
      · rintro ⟨hno, halong, horderly⟩
        have hp := (hround _).mpr ⟨halong, rfl⟩
        have hshorter := round_progress h hno (cons_ne_nil _ _) hp
        obtain ⟨s', hrest, hnone⟩ := (ih _ _ (h.round hp) (by omega)).mpr horderly
        exact ⟨s', bind_eq_ok.mpr ⟨_, hp, hrest⟩, hnone⟩

/-- If every candidate has a parent left, a round changes neither the state nor the candidates,
and the loop never ends. -/
theorem rounds_stuck (hne : todo ≠ []) (hstuck : ∀ id ∈ todo, s.parents id ≠ []) (n : ℕ) :
    todo.foldlM (turn fuel) (s, []) = .ok (s, todo) ∧ rounds fuel n todo s = .error .outOfFuel := by
  have hround : ∀ (rest backlog : List ℕ), (∀ id ∈ rest, s.parents id ≠ []) →
      rest.foldlM (turn fuel) (s, backlog) = .ok (s, backlog ++ rest) := by
    intro rest
    induction rest with
    | nil =>
      intro backlog _
      rw [foldlM_nil, append_nil]
      rfl
    | cons id rest ih =>
      intro backlog hrest
      refine foldlM_cons_eq_ok.mpr ⟨(s, backlog ++ [id]), ?_, ?_⟩
      · exact if_pos (hrest id mem_cons_self)
      · rw [ih _ fun other hother => hrest other (mem_cons_of_mem _ hother)]
        simp
  refine ⟨hround todo [] hstuck, ?_⟩
  obtain ⟨first, rest, rfl⟩ := exists_cons_of_ne_nil hne
  induction n with
  | zero => rfl
  | succ n ih =>
    rw [rounds, hround _ [] hstuck]
    exact ih

/-- A tagged image in an index that is the referrer of a missing manifest. -/
def referrerIndex : State where
  artifacts := [⟨1, "sha256:index", true⟩, ⟨2, "sha256:image", false⟩]
  references := [⟨1, 1, 2⟩]
  accessories := [⟨1, 0, "sha256:missing", "sha256:index", .subject⟩]
  tags := [⟨1, 2, false⟩]

/-- The index is no candidate, so the image waits for it. -/
theorem rounds_stuck_referrerIndex : referrerIndex.candidates = [2] ∧
    [2].foldlM (turn 5) (referrerIndex, []) = .ok (referrerIndex, [2]) ∧
    rounds 5 9 [2] referrerIndex = .error .outOfFuel :=
  ⟨by decide +kernel, rounds_stuck (by simp) (by decide) 9⟩

end Rounds

/-- The deletion of a repository ends and leaves no artifact if and only if no round starts with
an orphan and every deletion is clean. -/
theorem deleteRepository_complete_iff (s : State) (n fuel : ℕ) (hvalid : s.Valid)
    (hacyclic : Acyclic s.Edge) (hmutable : ∀ tag ∈ s.tags, tag.immutable = false)
    (hn : s.artifacts.length ≤ n) (hfuel : s.artifacts.length < fuel) :
    (∃ s', deleteRepository n fuel s = .ok s' ∧ s'.artifacts = []) ↔
      Orderly fuel n s.candidates s := by
  obtain ⟨rank, hranked, hbound⟩ := exists_ranked hvalid hacyclic
  have hsublist : s.candidates.Sublist (s.artifacts.map (·.id)) := filter_sublist.map _
  refine rounds_complete_iff (fun id => Nat.lt_of_le_of_lt (hbound id) hfuel) n _ _
    ⟨⟨hvalid, hranked, hmutable⟩, hsublist.nodup hvalid.artifact_ids,
      fun id => State.mem_candidates⟩ ?_
  have hlength := hsublist.length_le
  rw [length_map] at hlength
  exact hlength.trans hn

theorem deleteRepository_complete_iff_signedIndex :
    ∃ s', deleteRepository 4 5 signedIndex = .ok s' ∧ s'.artifacts = [] :=
  (deleteRepository_complete_iff signedIndex 4 5 signedIndex_deletable.valid
    signedIndex_deletable.acyclic (by decide) (by decide) (by decide)).mpr (by decide +kernel)

/-- A manifest that names a subject that was never pushed. -/
def lostSubject : State where
  artifacts := [⟨1, "sha256:referrer", false⟩]
  accessories := [⟨1, 0, "sha256:missing", "sha256:referrer", .subject⟩]

/-- It is not listed as a candidate, and nothing else deletes it. -/
theorem lostSubject_remains : lostSubject.Valid ∧ Acyclic lostSubject.Edge ∧
    ∀ n fuel, deleteRepository n fuel lostSubject = .ok lostSubject := by
  refine ⟨⟨by decide, by decide, by decide, by decide, by decide, by decide, by decide⟩,
    acyclic_of_ranked (6 - ·) ⟨by decide, by decide⟩, fun n fuel => ?_⟩
  have hnone : lostSubject.candidates = [] := by decide +kernel
  rw [deleteRepository, hnone, rounds]

end Harbor.Artifacts
