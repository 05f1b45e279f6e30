import Harbor.Artifacts.Deletion
import Harbor.Data.Worklist

/-!
# Walking an artifact

`Walk` visits an artifact, the children of every index it meets and, if its option asks for them,
the accessories of everything it meets, breadth first.  Children that are accessories themselves
are not listed, so they are reached through their subject only.  What has been visited is
remembered by digest, but only when it leaves the queue: an artifact that is found again before
that is visited again.

* `exists_walk`: a walk ends, by the weights of `Harbor.Data.Worklist`.
* `mem_walk_of_found`: it visits everything that can be found if nothing is skipped.
* `walk_visits`: both, and nothing is visited twice exactly if the artifacts at each distance from
  the root are found once from those before, and at none that is listed before them at the same
  distance.

It is enough for a second visit that a child of an index has an accessory, which is found at the
index and at the child (`signature_visited_twice`), or that an image stands in an index and in an
index listed before it.
-/

namespace Harbor.Artifacts

open Harbor.Data List

/-- What the function of a walk returns: nil, `ErrSkip`, `ErrBreak` or another error. -/
inductive Signal
  | next
  | skip
  | stop
  | fail (err : Error)
deriving DecidableEq, Repr

namespace State

-- which artifacts carry their accessories: those that `Walk` reads as its option says, the root as
-- its caller has read it
variable (s : State) (loads : Artifact → Bool) (art : Artifact)

/-- The children of an index, as `List` gives them: accessories are left out. -/
def children : List Artifact :=
  s.artifacts.filter fun child =>
    (∃ reference ∈ s.referencesOf art, reference.childID = child.id) ∧ s.rowsOf child.id = []

def loaded : List Accessory :=
  if loads art then s.accessoriesOf art.id else []

/-- The artifacts of the accessories of an artifact, each read by `Get`. -/
def accessoryArtifacts : List Artifact :=
  (s.loaded loads art).filterMap fun acc => s.artifact acc.artifactID

/-- What `Walk` looks at after an artifact: its children, each with its accessories, and its own
accessories. -/
def near : List Artifact :=
  (s.children art).flatMap (fun child => child :: s.accessoryArtifacts loads child) ++
    s.accessoryArtifacts loads art

variable (visit : ℕ → Artifact → Signal)

/-- A call of the function, and what is found then; `Get` fails for an accessory without
artifact. -/
def look (calls : ℕ) (art : Artifact) : Except Error (Option (List Artifact)) :=
  match visit calls art with
  | .stop => .ok none
  | .skip => .ok (some [])
  | .fail err => .error err
  | .next =>
    if ∀ subject ∈ art :: s.children art, ∀ acc ∈ s.loaded loads subject,
        (s.artifact acc.artifactID).isSome then .ok (some (s.near loads art))
    else .error .notFound

/-- More than can be found at any one artifact. -/
def fanout : ℕ :=
  (s.artifacts.map fun art => (s.near loads art).length).sum

/-- `Walk`: the artifacts that its function is called with.  The answer of the function may depend
on the number of calls before. -/
def walk (root : Artifact) : Except Error (List Artifact) :=
  worklist Artifact.digest (s.look loads visit) .outOfFuel
    (weight (s.fanout loads) s.artifacts.length) 0 [root] []

/-- What can be found from the root. -/
def Found (root art : Artifact) : Prop :=
  Relation.ReflTransGen (fun parent other => other ∈ s.near loads parent) root art

/-- What is found at an artifact that the function is called with. -/
def finds (calls : ℕ) (art : Artifact) : List Artifact :=
  if visit calls art = .next then s.near loads art else []

/-- The artifacts at a distance from the root, in the order in which they are found. -/
def level (root : Artifact) (n : ℕ) : Level Artifact String :=
  (Level.next Artifact.digest (s.finds loads visit))^[n] { items := [root] }

end State

section Walk

variable {s : State} {loads : Artifact → Bool} {visit : ℕ → Artifact → Signal}
  {root art other : Artifact} {visited : List Artifact}

theorem mem_of_mem_near (hother : other ∈ s.near loads art) : other ∈ s.artifacts := by
  have hacc : ∀ subject, other ∈ s.accessoryArtifacts loads subject → other ∈ s.artifacts := by
    intro subject hmem
    obtain ⟨acc, -, hacc⟩ := mem_filterMap.mp hmem
    exact (State.has_of_artifact hacc).1
  rcases mem_append.mp hother with hmem | hmem
  · obtain ⟨child, hchild, hmem⟩ := mem_flatMap.mp hmem
    rcases mem_cons.mp hmem with rfl | hmem
    · exact mem_of_mem_filter hchild
    · exact hacc _ hmem
  · exact hacc _ hmem

theorem look_next (hvalid : s.Valid) {calls : ℕ} (hnext : visit calls art = .next) :
    s.look loads visit calls art = .ok (some (s.near loads art)) := by
  rw [State.look, hnext]
  refine if_pos fun subject _ acc hacc => ?_
  have hacc : acc ∈ s.accessoriesOf subject.id := by
    unfold State.loaded at hacc
    split_ifs at hacc
    exacts [hacc, absurd hacc not_mem_nil]
  obtain ⟨other, hother, hid⟩ := hvalid.has_accessory (mem_of_mem_filter hacc)
  exact find?_isSome.mpr ⟨other, hother, decide_eq_true hid⟩

theorem look_sublist {calls : ℕ} {others : List Artifact}
    (hlook : s.look loads visit calls art = .ok (some others)) :
    others.Sublist (s.near loads art) := by
  unfold State.look at hlook
  split at hlook
  · cases hlook
  · cases hlook
    exact nil_sublist _
  · cases hlook
  · split_ifs at hlook
    cases hlook
    exact List.Sublist.refl _

theorem exists_walk (hvalid : s.Valid) (hroot : root ∈ s.artifacts)
    (hvisit : ∀ calls art err, visit calls art ≠ .fail err) :
    ∃ visited, s.walk loads visit root = .ok visited := by
  have hkeys : ∀ art ∈ s.artifacts, art.digest ∈ (s.artifacts.map (·.digest)).toFinset :=
    fun art hart => mem_toFinset.mpr (mem_map_of_mem hart)
  have hlook : ∀ calls, ∀ art ∈ s.artifacts, ∃ found, s.look loads visit calls art = .ok found ∧
      ∀ others ∈ found, others.length ≤ s.fanout loads ∧ ∀ other ∈ others, other ∈ s.artifacts := by
    intro calls art hart
    have hok : ∃ found, s.look loads visit calls art = .ok found := by
      cases hsignal : visit calls art with
      | next => exact ⟨_, look_next hvalid hsignal⟩
      | skip => exact ⟨some [], by rw [State.look, hsignal]⟩
      | stop => exact ⟨none, by rw [State.look, hsignal]⟩
      | fail err => exact absurd hsignal (hvisit calls art err)
    obtain ⟨found, hfound⟩ := hok
    refine ⟨found, hfound, fun others hothers => ?_⟩
    rw [Option.mem_def.mp hothers] at hfound
    have hsub := look_sublist hfound
    refine ⟨hsub.length_le.trans ?_, fun other hother => mem_of_mem_near (hsub.subset hother)⟩
    exact le_sum_of_mem (mem_map_of_mem hart)
  refine worklist_eq_ok hkeys hlook _ 0 [root] [] (by simpa using hroot) ?_
  -- the fuel of `walk` is the weight of the root when no digest has been seen
  have hcard : unseen (s.artifacts.map (·.digest)).toFinset [] ≤ s.artifacts.length := by
    rw [unseen, toFinset_nil, Finset.sdiff_empty]
    exact (toFinset_card_le _).trans (by simp)
  rw [map_singleton, sum_singleton, itemWeight, if_neg not_mem_nil]
  exact weight_mono _ hcard

theorem found_of_mem_walk (hok : s.walk loads visit root = .ok visited) (hart : art ∈ visited) :
    s.Found loads root art := by
  refine forall_mem_worklist (fun calls art others hfound hlook other hother => ?_)
    (fun item hitem => ?_) hok art hart
  · exact hfound.tail ((look_sublist hlook).subset hother)
  · rw [mem_singleton.mp hitem]
    exact Relation.ReflTransGen.refl

theorem mem_of_found (hroot : root ∈ s.artifacts) (hfound : s.Found loads root art) :
    art ∈ s.artifacts := by
  induction hfound with
  | refl => exact hroot
  | tail _ hnear _ => exact mem_of_mem_near hnear

theorem mem_walk_of_found (hvalid : s.Valid) (hdigests : (s.artifacts.map (·.digest)).Nodup)
    (hroot : root ∈ s.artifacts) (hok : s.walk loads visit root = .ok visited)
    (hnext : ∀ art ∈ visited, ∀ calls, visit calls art = .next) (hfound : s.Found loads root art) :
    art ∈ visited := by
  have hfull : ∀ art ∈ visited, ∀ calls found, s.look loads visit calls art = .ok found →
      found = some (s.near loads art) := fun art hart calls found hlook =>
    Except.ok.inj (hlook.symm.trans (look_next hvalid (hnext art hart calls)))
  obtain ⟨hqueue, hnear⟩ := worklist_complete hfull hok
  induction hfound with
  | refl => exact hqueue root mem_cons_self
  | tail hparent hother ih =>
    obtain hseen | ⟨same, hsame, hdigest⟩ := hnear _ ih _ hother
    · cases hseen
    -- the walk compares digests, and a digest has one artifact
    · have hmem := mem_of_found hroot (found_of_mem_walk hok hsame)
      exact inj_on_of_nodup_map hdigests hmem (mem_of_mem_near hother) hdigest ▸ hsame

/-- By references, through artifacts that are no accessories. -/
def State.Reaches (s : State) (root art : Artifact) : Prop :=
  Relation.ReflTransGen (fun parent child => child ∈ s.children parent) root art

theorem State.Reaches.found (hreaches : s.Reaches root art) : s.Found loads root art := by
  induction hreaches with
  | refl => exact Relation.ReflTransGen.refl
  | tail _ hchild ih =>
    refine ih.tail (mem_append_left _ ?_)
    exact mem_flatMap.mpr ⟨_, hchild, mem_cons_self⟩

end Walk

/-- **Walks.**  A walk whose function returns nil or `ErrSkip` ends; it visits no digest twice
exactly if every level is apart; and it visits all that can be reached if it skips nothing. -/
theorem walk_visits (s : State) (hvalid : s.Valid) (hdigests : (s.artifacts.map (·.digest)).Nodup)
    (loads : Artifact → Bool) (root : Artifact) (hroot : root ∈ s.artifacts)
    (visit : ℕ → Artifact → Signal)
    (hvisit : ∀ calls art, visit calls art = .next ∨ visit calls art = .skip) :
    ∃ visited, s.walk loads visit root = .ok visited ∧
      ((visited.map (·.digest)).Nodup ↔
        ∀ n, (s.level loads visit root n).Apart Artifact.digest (s.finds loads visit)) ∧
      ((∀ calls art, visit calls art = .next) → ∀ art, s.Reaches root art → art ∈ visited) := by
  obtain ⟨visited, hok⟩ := @exists_walk s loads visit root hvalid hroot
    fun calls art err hfail => by rcases hvisit calls art with h | h <;> cases h.symm.trans hfail
  refine ⟨visited, hok, nodup_worklist_iff (fun calls art => ?_) hok, fun hnext art hreaches => ?_⟩
  · rcases hvisit calls art with hnext | hskip
    · rw [look_next hvalid hnext, State.finds, if_pos hnext]
    · simp [State.look, State.finds, hskip]
  · exact mem_walk_of_found hvalid hdigests hroot hok (fun art _ calls => hnext calls art)
      hreaches.found

def twoImages : State where
  artifacts := [⟨1, "sha256:index", true⟩, ⟨2, "sha256:amd64", false⟩, ⟨3, "sha256:arm64", false⟩]
  references := [⟨1, 1, 2⟩, ⟨2, 1, 3⟩]

/-- An index with an image and an index, which has the image as well. -/
def sharedImage : State where
  artifacts := [⟨1, "sha256:index", true⟩, ⟨2, "sha256:amd64", false⟩, ⟨3, "sha256:inner", true⟩]
  references := [⟨1, 1, 2⟩, ⟨2, 1, 3⟩, ⟨3, 3, 2⟩]

/-- The image leaves the queue before it is found again. -/
theorem walk_visits_sharedImage : ∃ visited,
    sharedImage.walk (fun _ => true) (fun _ _ => .next) ⟨1, "sha256:index", true⟩ = .ok visited ∧
      (visited.map (·.digest)).Nodup ∧ ⟨2, "sha256:amd64", false⟩ ∈ visited := by
  obtain ⟨visited, hok, honce, hall⟩ := walk_visits sharedImage ⟨by decide, by decide, by decide,
    by decide, by simp [sharedImage, State.Has], by decide, by simp [sharedImage]⟩ (by decide)
    (fun _ => true) ⟨1, "sha256:index", true⟩ (by decide) (fun _ _ => .next) (fun _ _ => .inl rfl)
  refine ⟨visited, hok, honce.mpr fun n => ?_, hall (fun _ _ => rfl) _ (.single (by decide))⟩
  rcases n with _ | _ | n
  · decide
  · decide
  · exact Level.apart_of_items_nil (by decide) n

/-- One of the images is signed: the signature is found at the index and at the image. -/
theorem signature_visited_twice :
    ({ twoImages with
        artifacts := twoImages.artifacts ++ [⟨4, "sha256:sig", false⟩]
        accessories := [⟨4, 2, "sha256:amd64", "sha256:sig", .cosignSignature⟩] } : State).walk
      (fun _ => true) (fun _ _ => .next) ⟨1, "sha256:index", true⟩ =
      .ok [⟨1, "sha256:index", true⟩, ⟨2, "sha256:amd64", false⟩, ⟨4, "sha256:sig", false⟩,
        ⟨3, "sha256:arm64", false⟩, ⟨4, "sha256:sig", false⟩] := by
  rfl

end Harbor.Artifacts
