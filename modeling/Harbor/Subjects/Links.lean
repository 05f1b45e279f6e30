import Harbor.Subjects.Model

/-!
# Subject and accessory find each other

A push of an accessory looks its subject up once and inserts its row; a push of a
subject inserts the artifact and lists the rows that name it once.  A row without the
id of its subject is harmless as long as some push of that subject will still list or
update it, which is the invariant `Inv.served`.

It can be lost in one way: the accessory misses its subject, the subject is inserted
and lists no row, and only then the row is inserted.  A second slip is that the
accessory is looked up under the tag of the request, which may have moved meanwhile.
`Timely` excludes both, and then `subjects_linked` holds for every interleaving.

`State.Inv.move` says what a statement owes to the rows that are not served yet;
`State.Inv.step` makes it for each statement of a push, with a lemma for those that write.
-/

namespace Harbor.Subjects

open Harbor.Concurrency List Push

/-! ## When a push is timely -/

/-- The rows that name the manifest are still to be listed. -/
def Phase.BeforeList : Phase → Prop
  | .getListed _ | .updateAccessories _ _ | .succeeded | .failed => False
  | _ => True

section Conditions

variable {Thread : Type} (parses : String → Bool) (push : Thread → Push)

/-- The state before a statement that does not fail: the reference still names the pushed
manifest when the middleware looks it up; and a row without the id of its subject is
inserted only if it is there already, if the subject does not exist yet, or if a push of
the subject has not listed its rows yet. -/
def Timely (before : State Thread) (action : Thread × Bool) (_after : State Thread) : Prop :=
  action.2 = false →
    match before.phase action.1 with
    | .getArtifact _ _ =>
      ∀ art, before.world.getByReference parses (push action.1).reference = some art →
        art.digest = (push action.1).digest
    | .createAccessory accData =>
      accData.subArtifactId = 0 →
        before.world.HasAccessory accData.artifactId accData.subArtifactDigest ∨
          before.world.getByDigest accData.subArtifactDigest = none ∨
          ∃ other, (push other).digest = accData.subArtifactDigest ∧
            (before.phase other).BeforeList
    | _ => True

/-- What the registry has checked: the digest of the body can be parsed, and a reference
that can be parsed is this digest. -/
structure Push.Accepted (push : Push) : Prop where
  digest : parses push.digest
  reference : parses push.reference → push.reference = push.digest

end Conditions

/-! ## The invariant -/

/-- The row will be given the id of its subject by a push in this phase, unless that has
failed. -/
def Phase.Serves (accId : ℕ) : Phase → Prop
  | .getListed accs | .updateAccessories _ accs => accId ∈ accs
  | .succeeded => False
  | _ => True

theorem Phase.BeforeList.serves {phase : Phase} (hphase : phase.BeforeList) (accId : ℕ) :
    phase.Serves accId := by
  cases phase <;> trivial

/-- The id of the subject is 0 or that of the artifact with the digest. -/
def World.Names (parses : String → Bool) (world : World) (accData : AccessoryData) : Prop :=
  accData.subArtifactId = 0 ∨ parses accData.subArtifactDigest = false ∨
    ∃ art ∈ world.artifacts, art.digest = accData.subArtifactDigest ∧
      art.id = accData.subArtifactId

/-- What holds of the tables. -/
structure World.Inv (parses : String → Bool) (world : World) : Prop where
  parses_digest : ∀ art ∈ world.artifacts, parses art.digest
  id_pos : ∀ art ∈ world.artifacts, 0 < art.id
  digest_inj : ∀ art ∈ world.artifacts, ∀ other ∈ world.artifacts,
    art.digest = other.digest → art = other
  next_pos : 0 < world.nextArtifact
  acc_lt : ∀ acc ∈ world.accessories, acc.id < world.nextAccessory
  acc_inj : ∀ acc ∈ world.accessories, ∀ other ∈ world.accessories, acc.id = other.id → acc = other
  names : ∀ acc ∈ world.accessories, world.Names parses acc.toAccessoryData

def World.Holds (world : World) (digest : Digest) : Prop :=
  ∃ art ∈ world.artifacts, art.digest = digest

/-- The manifest is stored and, if it has a subject, has its row. -/
def World.HoldsLinked (world : World) (push : Push) : Prop :=
  ∃ art ∈ world.artifacts, art.digest = push.digest ∧
    ∀ subject, push.manifest.subject = some subject → world.HasAccessory art.id subject

/-- The listed rows name the digest. -/
def World.Listed (world : World) (digest : Digest) (accs : List ℕ) : Prop :=
  ∀ id ∈ accs, ∃ acc ∈ world.accessories, acc.id = id ∧ acc.subArtifactDigest = digest

/-- What the local variables of a push say about the tables. -/
def Phase.Inv (parses : String → Bool) (world : World) (push : Push) : Phase → Prop
  | .getByDigest | .createArtifact | .getAgain | .failed => True
  | .listTags art | .createTag art | .listTagsAgain art | .updateTag art =>
    art ∈ world.artifacts ∧ art.digest = push.digest
  | .getSubject subject => world.Holds push.digest ∧ push.manifest.subject = some subject
  | .getArtifact subject subjectArt =>
    world.Holds push.digest ∧ push.manifest.subject = some subject ∧
      ∀ art, subjectArt = some art →
        parses subject = false ∨ art ∈ world.artifacts ∧ art.digest = subject
  | .createAccessory accData =>
    push.manifest.subject = some accData.subArtifactDigest ∧ world.Names parses accData ∧
      ∃ art ∈ world.artifacts, art.digest = push.digest ∧ art.id = accData.artifactId
  | .listAccessories => world.HoldsLinked push
  | .getListed accs => world.HoldsLinked push ∧ world.Listed push.digest accs
  | .updateAccessories art accs =>
    world.HoldsLinked push ∧ world.Listed push.digest accs ∧
      art ∈ world.artifacts ∧ art.digest = push.digest
  | .succeeded => world.HoldsLinked push

section Invariant

variable {Thread : Type} (parses : String → Bool) (push : Thread → Push)

structure State.Inv (state : State Thread) : Prop where
  world : state.world.Inv parses
  phase : ∀ thread, (state.phase thread).Inv parses state.world (push thread)
  served : ∀ acc ∈ state.world.accessories, acc.subArtifactId = 0 →
    state.world.Holds acc.subArtifactDigest →
      ∃ thread, (push thread).digest = acc.subArtifactDigest ∧
        (state.phase thread).Serves acc.id

variable {parses push}

theorem State.inv_start : State.Inv parses push ({} : State Thread) where
  world := by
    refine ⟨?_, ?_, ?_, Nat.one_pos, ?_, ?_, ?_⟩ <;> intro _ hmem <;> cases hmem
  phase _ := trivial
  served _ hmem := by cases hmem

end Invariant

/-! ## Tables only grow -/

/-- Artifacts stay, and rows stay up to the id of their subject. -/
structure World.Grows (before after : World) : Prop where
  artifacts : ∀ art ∈ before.artifacts, art ∈ after.artifacts
  accessories : ∀ acc ∈ before.accessories, ∃ acc' ∈ after.accessories, acc'.id = acc.id ∧
    acc'.artifactId = acc.artifactId ∧ acc'.subArtifactDigest = acc.subArtifactDigest

section Growth

variable {parses : String → Bool} {push : Push} {world after : World} {digest : Digest}

theorem World.Grows.refl (world : World) : world.Grows world :=
  ⟨fun _ hart => hart, fun acc hacc => ⟨acc, hacc, rfl, rfl, rfl⟩⟩

theorem World.Holds.grow (h : world.Holds digest) (hgrows : world.Grows after) :
    after.Holds digest := by
  obtain ⟨art, hart, hdigest⟩ := h
  exact ⟨art, hgrows.artifacts art hart, hdigest⟩

theorem World.HasAccessory.grow {artifactId : ℕ} {subject : Digest}
    (h : world.HasAccessory artifactId subject) (hgrows : world.Grows after) :
    after.HasAccessory artifactId subject := by
  obtain ⟨acc, hacc, hartifact, hsubject⟩ := h
  obtain ⟨acc', hacc', _, hartifact', hsubject'⟩ := hgrows.accessories acc hacc
  exact ⟨acc', hacc', hartifact'.trans hartifact, hsubject'.trans hsubject⟩

theorem World.HoldsLinked.grow (h : world.HoldsLinked push) (hgrows : world.Grows after) :
    after.HoldsLinked push := by
  obtain ⟨art, hart, hdigest, hlinked⟩ := h
  exact ⟨art, hgrows.artifacts art hart, hdigest,
    fun subject hsubject => (hlinked subject hsubject).grow hgrows⟩

theorem World.Listed.grow {accs : List ℕ} (h : world.Listed digest accs)
    (hgrows : world.Grows after) : after.Listed digest accs := by
  intro id hid
  obtain ⟨acc, hacc, hidEq, hsubject⟩ := h id hid
  obtain ⟨acc', hacc', hid', _, hsubject'⟩ := hgrows.accessories acc hacc
  exact ⟨acc', hacc', hid'.trans hidEq, hsubject'.trans hsubject⟩

theorem World.Names.grow {accData : AccessoryData} (h : world.Names parses accData)
    (hgrows : world.Grows after) : after.Names parses accData := by
  rcases h with hzero | hparses | ⟨art, hart, hdigest, hid⟩
  · exact .inl hzero
  · exact .inr (.inl hparses)
  · exact .inr (.inr ⟨art, hgrows.artifacts art hart, hdigest, hid⟩)

/-- What a push knows stays true when other pushes go on. -/
theorem Phase.Inv.grow {phase : Phase} (h : phase.Inv parses world push)
    (hgrows : world.Grows after) : phase.Inv parses after push := by
  cases phase with
  | getByDigest | createArtifact | getAgain | failed => trivial
  | listTags art | createTag art | listTagsAgain art | updateTag art =>
    exact ⟨hgrows.artifacts art h.1, h.2⟩
  | getSubject subject => exact ⟨h.1.grow hgrows, h.2⟩
  | getArtifact subject subjectArt =>
    refine ⟨h.1.grow hgrows, h.2.1, fun art hart => ?_⟩
    exact (h.2.2 art hart).imp_right fun hfound => ⟨hgrows.artifacts art hfound.1, hfound.2⟩
  | createAccessory accData =>
    obtain ⟨hsubject, hnames, art, hart, hdigest⟩ := h
    exact ⟨hsubject, hnames.grow hgrows, art, hgrows.artifacts art hart, hdigest⟩
  | listAccessories | succeeded => exact World.HoldsLinked.grow h hgrows
  | getListed accs => exact ⟨h.1.grow hgrows, h.2.grow hgrows⟩
  | updateAccessories art accs =>
    exact ⟨h.1.grow hgrows, h.2.1.grow hgrows, hgrows.artifacts art h.2.2.1, h.2.2.2⟩

end Growth

/-! ## Single statements -/

section Statements

variable {parses : String → Bool} {world : World} {digest : Digest} {art : Artifact}
  {reference : String} {id : ℕ}

theorem mem_of_getByDigest (hfound : world.getByDigest digest = some art) :
    art ∈ world.artifacts ∧ art.digest = digest :=
  ⟨mem_of_find?_eq_some hfound, by simpa using find?_some hfound⟩

theorem getByDigest_eq_none : world.getByDigest digest = none ↔ ¬ world.Holds digest := by
  simp [World.getByDigest, World.Holds]

theorem mem_of_getByReference (hfound : world.getByReference parses reference = some art) :
    art ∈ world.artifacts := by
  unfold World.getByReference at hfound
  split_ifs at hfound
  · exact (mem_of_getByDigest hfound).1
  · obtain ⟨id, _, hid⟩ := Option.bind_eq_some_iff.mp hfound
    exact mem_of_find?_eq_some hid

theorem getByReference_of_parses (hparses : parses reference) :
    world.getByReference parses reference = world.getByDigest reference :=
  if_pos hparses

theorem grows_insertArtifact (world : World) (digest : Digest) (size : ℕ) :
    world.Grows (world.insertArtifact digest size) :=
  ⟨fun _ hart => mem_append_left _ hart, fun acc hacc => ⟨acc, hacc, rfl, rfl, rfl⟩⟩

theorem mem_insertArtifact {size : ℕ} (hart : art ∈ (world.insertArtifact digest size).artifacts) :
    art ∈ world.artifacts ∨ art = world.newArtifact digest size := by
  simpa [World.insertArtifact] using hart

theorem inv_insertArtifact (h : world.Inv parses) (hparses : parses digest)
    (hnone : ¬ world.Holds digest) (size : ℕ) : (world.insertArtifact digest size).Inv parses where
  parses_digest art hart := by
    rcases mem_insertArtifact hart with hart | rfl
    · exact h.parses_digest art hart
    · exact hparses
  id_pos art hart := by
    rcases mem_insertArtifact hart with hart | rfl
    · exact h.id_pos art hart
    · exact h.next_pos
  digest_inj art hart other hother hdigest := by
    rcases mem_insertArtifact hart with hart | rfl <;>
      rcases mem_insertArtifact hother with hother | rfl
    · exact h.digest_inj art hart other hother hdigest
    · exact absurd ⟨art, hart, hdigest⟩ hnone
    · exact absurd ⟨other, hother, hdigest.symm⟩ hnone
    · rfl
  next_pos := Nat.succ_pos _
  acc_lt := h.acc_lt
  acc_inj := h.acc_inj
  names acc hacc := (h.names acc hacc).grow (grows_insertArtifact world digest size)

theorem grows_setTag (world : World) (tag : String) (art : Artifact) :
    world.Grows (world.setTag tag art) :=
  ⟨fun _ hart => hart, fun acc hacc => ⟨acc, hacc, rfl, rfl, rfl⟩⟩

theorem inv_setTag (h : world.Inv parses) (tag : String) (art : Artifact) :
    (world.setTag tag art).Inv parses :=
  ⟨h.parses_digest, h.id_pos, h.digest_inj, h.next_pos, h.acc_lt, h.acc_inj, h.names⟩

/-- Either there was a row already, or one more is there. -/
theorem createAccessory_cases (world : World) (accData : AccessoryData) :
    (world.HasAccessory accData.artifactId accData.subArtifactDigest ∧
        world.createAccessory accData = world) ∨
      (¬ world.HasAccessory accData.artifactId accData.subArtifactDigest ∧
        world.createAccessory accData =
          { world with
            accessories := world.accessories ++ [{ accData with id := world.nextAccessory }]
            nextAccessory := world.nextAccessory + 1 }) := by
  unfold World.createAccessory
  split_ifs with hhas
  · exact .inl ⟨hhas, rfl⟩
  · exact .inr ⟨hhas, rfl⟩

theorem grows_createAccessory (world : World) (accData : AccessoryData) :
    world.Grows (world.createAccessory accData) := by
  rcases createAccessory_cases world accData with ⟨_, heq⟩ | ⟨_, heq⟩ <;> rw [heq]
  · exact World.Grows.refl world
  · exact ⟨fun _ hart => hart,
      fun acc hacc => ⟨acc, mem_append_left _ hacc, rfl, rfl, rfl⟩⟩

theorem hasAccessory_createAccessory (world : World) (accData : AccessoryData) :
    (world.createAccessory accData).HasAccessory accData.artifactId
      accData.subArtifactDigest := by
  rcases createAccessory_cases world accData with ⟨hhas, heq⟩ | ⟨_, heq⟩ <;> rw [heq]
  · exact hhas
  · exact ⟨_, mem_append_right _ (mem_singleton_self _), rfl, rfl⟩

theorem inv_createAccessory (h : world.Inv parses) {accData : AccessoryData}
    (hnames : world.Names parses accData) : (world.createAccessory accData).Inv parses := by
  rcases createAccessory_cases world accData with ⟨_, heq⟩ | ⟨_, heq⟩ <;> rw [heq]
  · exact h
  have hcases : ∀ acc, acc ∈ world.accessories ++ [{ accData with id := world.nextAccessory }] →
      acc ∈ world.accessories ∨ acc = { accData with id := world.nextAccessory } := by
    intro acc hacc
    simpa using hacc
  refine ⟨h.parses_digest, h.id_pos, h.digest_inj, h.next_pos, ?_, ?_, ?_⟩
  · intro acc hacc
    rcases hcases acc hacc with hacc | rfl
    · exact (h.acc_lt acc hacc).trans (Nat.lt_succ_self _)
    · exact Nat.lt_succ_self _
  · intro acc hacc other hother hid
    rcases hcases acc hacc with hacc | rfl <;> rcases hcases other hother with hother | rfl
    · exact h.acc_inj acc hacc other hother hid
    · exact absurd hid (h.acc_lt acc hacc).ne
    · exact absurd hid (h.acc_lt other hother).ne'
    · rfl
  · intro acc hacc
    rcases hcases acc hacc with hacc | rfl
    · exact h.names acc hacc
    · exact hnames

theorem mem_updateAccessory {subArtifactId : ℕ} {acc' : Accessory}
    (hacc' : acc' ∈ (world.updateAccessory id subArtifactId).accessories) :
    ∃ acc ∈ world.accessories,
      acc' = if acc.id = id then { acc with subArtifactId := subArtifactId } else acc := by
  obtain ⟨acc, hacc, heq⟩ := mem_map.mp hacc'
  exact ⟨acc, hacc, heq.symm⟩

theorem grows_updateAccessory (world : World) (id subArtifactId : ℕ) :
    world.Grows (world.updateAccessory id subArtifactId) := by
  refine ⟨fun _ hart => hart, fun acc hacc => ⟨_, mem_map_of_mem hacc, ?_⟩⟩
  split_ifs <;> exact ⟨rfl, rfl, rfl⟩

theorem inv_updateAccessory (h : world.Inv parses) (hart : art ∈ world.artifacts)
    (hid : ∀ acc ∈ world.accessories, acc.id = id → acc.subArtifactDigest = art.digest) :
    (world.updateAccessory id art.id).Inv parses := by
  refine ⟨h.parses_digest, h.id_pos, h.digest_inj, h.next_pos, ?_, ?_, ?_⟩
  · intro acc' hacc'
    obtain ⟨acc, hacc, rfl⟩ := mem_updateAccessory hacc'
    have hlt := h.acc_lt acc hacc
    split_ifs <;> exact hlt
  · intro acc' hacc' other' hother' heq
    obtain ⟨acc, hacc, rfl⟩ := mem_updateAccessory hacc'
    obtain ⟨other, hother, rfl⟩ := mem_updateAccessory hother'
    have hids : acc.id = other.id := by
      split_ifs at heq <;> exact heq
    obtain rfl := h.acc_inj acc hacc other hother hids
    rfl
  · intro acc' hacc'
    obtain ⟨acc, hacc, rfl⟩ := mem_updateAccessory hacc'
    split_ifs with heq
    · exact .inr (.inr ⟨art, hart, (hid acc hacc heq).symm, rfl⟩)
    · exact h.names acc hacc

end Statements

/-! ## One step -/

section Steps

variable {Thread : Type} [DecidableEq Thread] {parses : String → Bool} {push : Thread → Push}
  {state : State Thread} {thread : Thread} {world : World} {phase : Phase} {art : Artifact}
  {after : State Thread}

variable (h : state.Inv parses push)
include h

/-- A push moves on.  Every row without the id of its subject must have been served before
and still be served by the push if it was, or be served by the push now, or by another. -/
theorem State.Inv.move (hworld : world.Inv parses) (hgrows : state.world.Grows world)
    (hphase : phase.Inv parses world (push thread))
    (hserved : ∀ acc ∈ world.accessories, acc.subArtifactId = 0 →
      world.Holds acc.subArtifactDigest →
        (acc ∈ state.world.accessories ∧ state.world.Holds acc.subArtifactDigest ∧
          ((push thread).digest = acc.subArtifactDigest →
            (state.phase thread).Serves acc.id → phase.Serves acc.id)) ∨
        ((push thread).digest = acc.subArtifactDigest ∧ phase.Serves acc.id) ∨
        ∃ other ≠ thread, (push other).digest = acc.subArtifactDigest ∧
          (state.phase other).Serves acc.id) :
    State.Inv parses push ⟨world, Function.update state.phase thread phase⟩ := by
  refine ⟨hworld, fun other => ?_, fun acc hacc hzero hholds => ?_⟩
  · by_cases hother : other = thread
    · subst hother
      simpa using hphase
    · simpa [Function.update_of_ne hother] using (h.phase other).grow hgrows
  · have hthread : (push thread).digest = acc.subArtifactDigest → phase.Serves acc.id →
        ∃ other, (push other).digest = acc.subArtifactDigest ∧
          (Function.update state.phase thread phase other).Serves acc.id :=
      fun hdigest hserves => ⟨thread, hdigest, by simpa using hserves⟩
    have hothers : ∀ other ≠ thread, (push other).digest = acc.subArtifactDigest →
        (state.phase other).Serves acc.id →
          ∃ other, (push other).digest = acc.subArtifactDigest ∧
            (Function.update state.phase thread phase other).Serves acc.id :=
      fun other hne hdigest hserves =>
        ⟨other, hdigest, by simpa [Function.update_of_ne hne] using hserves⟩
    rcases hserved acc hacc hzero hholds with ⟨hold, hheld, hkeeps⟩ | ⟨hdigest, hserves⟩ | hother
    · obtain ⟨server, hdigest, hserves⟩ := h.served acc hold hzero hheld
      by_cases hserver : server = thread
      · subst hserver
        exact hthread hdigest (hkeeps hdigest hserves)
      · exact hothers server hserver hdigest hserves
    · exact hthread hdigest hserves
    · obtain ⟨other, hne, hdigest, hserves⟩ := hother
      exact hothers other hne hdigest hserves

/-- A push that only reads, or writes nothing but a tag, and still serves what it has
served. -/
theorem State.Inv.goOn (hworld : world.Inv parses) (hgrows : state.world.Grows world)
    (harts : world.artifacts = state.world.artifacts)
    (haccs : world.accessories = state.world.accessories)
    (hphase : phase.Inv parses world (push thread))
    (hserves : ∀ acc ∈ state.world.accessories, (push thread).digest = acc.subArtifactDigest →
      (state.phase thread).Serves acc.id → phase.Serves acc.id) :
    State.Inv parses push ⟨world, Function.update state.phase thread phase⟩ := by
  refine h.move hworld hgrows hphase fun acc hacc _ hholds => .inl ⟨haccs ▸ hacc, ?_, ?_⟩
  · unfold World.Holds at hholds ⊢
    rwa [← harts]
  · exact hserves acc (haccs ▸ hacc)

theorem State.Inv.read (hphase : phase.Inv parses state.world (push thread))
    (hserves : ∀ acc ∈ state.world.accessories, (push thread).digest = acc.subArtifactDigest →
      (state.phase thread).Serves acc.id → phase.Serves acc.id) :
    State.Inv parses push ⟨state.world, Function.update state.phase thread phase⟩ :=
  h.goOn h.world (World.Grows.refl _) rfl rfl hphase hserves

theorem State.Inv.fail (thread : Thread) :
    State.Inv parses push ⟨state.world, Function.update state.phase thread .failed⟩ :=
  h.read trivial fun _ _ _ _ => trivial

omit h

theorem serves_middleware (push : Push) (accId : ℕ) : push.middleware.Serves accId := by
  unfold middleware
  split <;> trivial

theorem serves_ensured (parses : String → Bool) (push : Push) (art : Artifact) (accId : ℕ) :
    (push.ensured parses art).Serves accId := by
  unfold ensured
  split_ifs
  · exact serves_middleware push accId
  · trivial

theorem inv_middleware {push : Push} (hart : art ∈ world.artifacts)
    (hdigest : art.digest = push.digest) : push.middleware.Inv parses world push := by
  unfold middleware
  cases hsubject : push.manifest.subject with
  | none =>
    refine ⟨art, hart, hdigest, fun subject hsome => ?_⟩
    rw [hsubject] at hsome
    cases hsome
  | some subject => exact ⟨⟨art, hart, hdigest⟩, hsubject⟩

theorem inv_ensured {push : Push} (hart : art ∈ world.artifacts)
    (hdigest : art.digest = push.digest) : (push.ensured parses art).Inv parses world push := by
  unfold ensured
  split_ifs
  · exact inv_middleware hart hdigest
  · exact ⟨hart, hdigest⟩

theorem dgt_eq {push : Push} (haccepted : push.Accepted parses) :
    push.dgt parses = push.digest := by
  unfold dgt
  split_ifs with hparses
  · exact haccepted.reference hparses
  · rfl

variable (h : state.Inv parses push)
include h

/-- The tag names another artifact or the pushed one. -/
theorem State.Inv.ensureExistingTag (id : ℕ)
    (hart : art ∈ state.world.artifacts ∧ art.digest = (push thread).digest) :
    State.Inv parses push ⟨state.world,
      Function.update state.phase thread ((push thread).ensureExistingTag art id)⟩ := by
  unfold Push.ensureExistingTag
  split_ifs
  · exact h.read (inv_middleware hart.1 hart.2) fun acc _ _ _ => serves_middleware _ acc.id
  · exact h.read hart fun _ _ _ _ => trivial

theorem State.Inv.setTag (hart : art ∈ state.world.artifacts ∧ art.digest = (push thread).digest) :
    State.Inv parses push ⟨state.world.setTag (push thread).reference art,
      Function.update state.phase thread (push thread).middleware⟩ :=
  h.goOn (inv_setTag h.world _ _) (grows_setTag _ _ _) rfl rfl (inv_middleware hart.1 hart.2)
    fun acc _ _ _ => serves_middleware _ acc.id

theorem State.Inv.found {subject : Digest} {subjectArt : Option Artifact}
    (hphase : state.phase thread = .getArtifact subject subjectArt)
    (hfound : state.world.getByReference parses (push thread).reference = some art)
    (hdigest : art.digest = (push thread).digest) :
    State.Inv parses push ⟨state.world, Function.update state.phase thread
      (.createAccessory ((push thread).accData subject subjectArt art))⟩ := by
  have hinv := h.phase thread
  rw [hphase] at hinv
  refine h.read ⟨hinv.2.1, ?_, art, mem_of_getByReference hfound, hdigest, rfl⟩
    fun _ _ _ _ => trivial
  cases subjectArt with
  | none => exact .inl rfl
  | some other =>
    rcases hinv.2.2 other rfl with hparses | ⟨hother, hsubject⟩
    · exact .inr (.inl hparses)
    · exact .inr (.inr ⟨other, hother, hsubject, rfl⟩)

/-- The artifact is inserted: the push itself will serve the rows that name it. -/
theorem State.Inv.insertArtifact (haccepted : (push thread).Accepted parses)
    (hnone : ¬ state.world.Holds (push thread).digest) :
    State.Inv parses push ⟨state.world.insertArtifact (push thread).digest (push thread).size,
      Function.update state.phase thread ((push thread).ensured parses
        (state.world.newArtifact (push thread).digest (push thread).size))⟩ := by
  refine h.move (inv_insertArtifact h.world haccepted.digest hnone _)
    (grows_insertArtifact _ _ _)
    (inv_ensured (mem_append_right _ (mem_singleton_self _)) rfl) ?_
  rintro acc hacc _ ⟨art, hart, hdigest⟩
  rcases mem_insertArtifact hart with hart | rfl
  · exact .inl ⟨hacc, ⟨art, hart, hdigest⟩, fun _ _ => serves_ensured _ _ _ _⟩
  · exact .inr (.inl ⟨hdigest, serves_ensured _ _ _ _⟩)

/-- The row is inserted: somebody else will serve it, or it has the id of its subject. -/
theorem State.Inv.createAccessory {accData : AccessoryData}
    (hphase : state.phase thread = .createAccessory accData)
    (htimely : Timely parses push state (thread, false) after) :
    State.Inv parses push ⟨state.world.createAccessory accData,
      Function.update state.phase thread .listAccessories⟩ := by
  have hinv := h.phase thread
  rw [hphase] at hinv
  obtain ⟨hsubject, hnames, art, hart, hdigest, hid⟩ := hinv
  have htimely := htimely rfl
  simp only [hphase] at htimely
  refine h.move (inv_createAccessory h.world hnames) (grows_createAccessory _ _) ?_ ?_
  · refine ⟨art, (grows_createAccessory _ _).artifacts art hart, hdigest, fun subject hsome => ?_⟩
    cases hsubject.symm.trans hsome
    rw [hid]
    exact hasAccessory_createAccessory _ _
  · intro acc hacc hzero hholds
    rcases createAccessory_cases state.world accData with ⟨_, heq⟩ | ⟨hfresh, heq⟩ <;>
      rw [heq] at hacc hholds
    · exact .inl ⟨hacc, hholds, fun _ _ => trivial⟩
    rcases mem_append.mp hacc with hacc | hacc
    · exact .inl ⟨hacc, hholds, fun _ _ => trivial⟩
    obtain rfl := mem_singleton.mp hacc
    rcases htimely hzero with hhas | hnone | ⟨other, hother, hbefore⟩
    · exact absurd hhas hfresh
    · exact absurd hholds (getByDigest_eq_none.mp hnone)
    · by_cases hne : other = thread
      · exact .inr (.inl ⟨hne ▸ hother, trivial⟩)
      · exact .inr (.inr ⟨other, hne, hother, hbefore.serves _⟩)

omit h

theorem mem_listAccessories {digest : Digest} {acc : Accessory} (hacc : acc ∈ world.accessories)
    (hdigest : digest = acc.subArtifactDigest) : acc.id ∈ world.listAccessories digest :=
  mem_map_of_mem (mem_filter.mpr ⟨hacc, by simp [hdigest]⟩)

theorem listed_listAccessories (world : World) (digest : Digest) :
    world.Listed digest (world.listAccessories digest) := by
  intro id hid
  obtain ⟨acc, hacc, rfl⟩ := mem_map.mp hid
  obtain ⟨hmem, hdigest⟩ := mem_filter.mp hacc
  exact ⟨acc, hmem, rfl, by simpa using hdigest⟩

theorem State.Inv.updateAccessory (h : state.Inv parses push) {id : ℕ} {rest : List ℕ}
    (hphase : state.phase thread = .updateAccessories art (id :: rest)) :
    State.Inv parses push ⟨state.world.updateAccessory id art.id,
      Function.update state.phase thread
        (if rest = [] then .succeeded else .updateAccessories art rest)⟩ := by
  have hinv := h.phase thread
  rw [hphase] at hinv
  obtain ⟨hlinked, hlisted, hart, hdigest⟩ := hinv
  have hgrows := grows_updateAccessory state.world id art.id
  have hnamed : ∀ acc ∈ state.world.accessories, acc.id = id →
      acc.subArtifactDigest = art.digest := by
    intro acc hacc heq
    obtain ⟨other, hother, hid, hsubject⟩ := hlisted id mem_cons_self
    obtain rfl := h.world.acc_inj acc hacc other hother (heq.trans hid.symm)
    exact hsubject.trans hdigest.symm
  refine h.move (inv_updateAccessory h.world hart hnamed) hgrows ?_ ?_
  · split_ifs
    · exact hlinked.grow hgrows
    · exact ⟨hlinked.grow hgrows,
        World.Listed.grow (fun other hother => hlisted other (mem_cons_of_mem _ hother))
          hgrows, hart, hdigest⟩
  · intro acc' hacc' hzero hholds
    obtain ⟨acc, hacc, hupdated⟩ := mem_updateAccessory hacc'
    by_cases hid : acc.id = id
    · -- the row that was updated has the id of an artifact
      rw [hupdated, if_pos hid] at hzero
      exact absurd hzero (h.world.id_pos art hart).ne'
    · obtain rfl : acc' = acc := hupdated.trans (if_neg hid)
      refine .inl ⟨hacc, hholds, fun _ hserves => ?_⟩
      rw [hphase] at hserves
      have hmem : acc'.id ∈ rest := (mem_cons.mp hserves).resolve_left hid
      split_ifs with hrest
      · rw [hrest] at hmem
        exact absurd hmem not_mem_nil
      · exact hmem

/-- **Step.**  A timely step keeps the invariant. -/
theorem State.Inv.step (haccepted : ∀ thread, (push thread).Accepted parses)
    (h : state.Inv parses push) {action : Thread × Bool}
    (hstep : step parses push state action = some after)
    (htimely : Timely parses push state action after) : after.Inv parses push := by
  obtain ⟨thread, fails⟩ := action
  obtain ⟨⟨world, phase⟩, hadvance, rfl⟩ := Option.map_eq_some_iff.mp hstep
  cases fails with
  | true => exact h.fail thread
  | false =>
    have hdgt := dgt_eq (haccepted thread)
    have hinv := h.phase thread
    cases hphase : state.phase thread with
    | getByDigest =>
      simp only [hphase, advance, hdgt] at hadvance
      split at hadvance
      · cases hadvance
        obtain ⟨hart, hdigest⟩ := mem_of_getByDigest ‹_›
        exact h.read (inv_ensured hart hdigest) fun acc _ _ _ => serves_ensured _ _ _ acc.id
      · cases hadvance
        exact h.read trivial fun _ _ _ _ => trivial
    | createArtifact =>
      simp only [hphase, advance, hdgt] at hadvance
      split at hadvance
      · cases hadvance
        exact h.read trivial fun _ _ _ _ => trivial
      · cases hadvance
        exact h.insertArtifact (haccepted thread) (getByDigest_eq_none.mp ‹_›)
    | getAgain =>
      simp only [hphase, advance, hdgt] at hadvance
      split at hadvance
      · cases hadvance
        obtain ⟨hart, hdigest⟩ := mem_of_getByDigest ‹_›
        exact h.read (inv_ensured hart hdigest) fun acc _ _ _ => serves_ensured _ _ _ acc.id
      · cases hadvance
        exact h.fail thread
    | listTags art =>
      rw [hphase] at hinv
      simp only [hphase, advance] at hadvance
      split at hadvance
      · cases hadvance
        exact h.ensureExistingTag _ hinv
      · cases hadvance
        exact h.read hinv fun _ _ _ _ => trivial
    | createTag art =>
      rw [hphase] at hinv
      simp only [hphase, advance] at hadvance
      split at hadvance
      · cases hadvance
        exact h.read hinv fun _ _ _ _ => trivial
      · cases hadvance
        exact h.setTag hinv
    | listTagsAgain art =>
      rw [hphase] at hinv
      simp only [hphase, advance] at hadvance
      split at hadvance
      · cases hadvance
        exact h.ensureExistingTag _ hinv
      · cases hadvance
        exact h.fail thread
    | updateTag art =>
      rw [hphase] at hinv
      simp only [hphase, advance] at hadvance
      cases hadvance
      exact h.setTag hinv
    | getSubject subject =>
      rw [hphase] at hinv
      simp only [hphase, advance] at hadvance
      cases hadvance
      refine h.read ⟨hinv.1, hinv.2, fun art hart => ?_⟩ fun _ _ _ _ => trivial
      cases hparses : parses subject with
      | false => exact .inl rfl
      | true =>
        rw [getByReference_of_parses hparses] at hart
        exact .inr (mem_of_getByDigest hart)
    | getArtifact subject subjectArt =>
      simp only [hphase, advance] at hadvance
      split at hadvance
      · cases hadvance
        have hdigest := htimely rfl
        simp only [hphase] at hdigest
        exact h.found hphase ‹_› (hdigest _ ‹_›)
      · cases hadvance
        exact h.fail thread
    | createAccessory accData =>
      simp only [hphase, advance] at hadvance
      cases hadvance
      exact h.createAccessory hphase htimely
    | listAccessories =>
      rw [hphase] at hinv
      simp only [hphase, advance] at hadvance
      split_ifs at hadvance with hempty
      · cases hadvance
        refine h.read hinv fun acc hacc hdigest _ => ?_
        have hmem := mem_listAccessories hacc hdigest
        rw [hempty] at hmem
        exact absurd hmem not_mem_nil
      · cases hadvance
        exact h.read ⟨hinv, listed_listAccessories _ _⟩
          fun acc hacc hdigest _ => mem_listAccessories hacc hdigest
    | getListed accs =>
      rw [hphase] at hinv
      simp only [hphase, advance, getByReference_of_parses (haccepted thread).digest] at hadvance
      split at hadvance
      · cases hadvance
        refine h.read ⟨hinv.1, hinv.2, mem_of_getByDigest ‹_›⟩ fun acc _ _ hserves => ?_
        rw [hphase] at hserves
        exact hserves
      · cases hadvance
        exact h.fail thread
    | updateAccessories art accs =>
      rw [hphase] at hinv
      cases accs with
      | nil =>
        simp only [hphase, advance] at hadvance
        cases hadvance
        refine h.read hinv.1 fun acc _ _ hserves => ?_
        rw [hphase] at hserves
        exact absurd hserves not_mem_nil
      | cons acc rest =>
        simp only [hphase, advance] at hadvance
        cases hadvance
        exact h.updateAccessory hphase
    | succeeded | failed =>
      simp only [hphase, advance] at hadvance
      cases hadvance

end Steps

/-! ## Every interleaving -/

section Runs

variable {Thread : Type} [DecidableEq Thread] {parses : String → Bool} {push : Thread → Push}

/-- The row of a manifest links it to its subject. -/
def World.Links (world : World) (digest subject : Digest) : Prop :=
  ∃ art ∈ world.artifacts, ∃ subjectArt ∈ world.artifacts, ∃ acc ∈ world.accessories,
    art.digest = digest ∧ subjectArt.digest = subject ∧ acc.artifactId = art.id ∧
      acc.subArtifactDigest = subject ∧ acc.subArtifactId = subjectArt.id

/-- If every statement of a run is timely then, once all pushes have succeeded, every
manifest whose subject was pushed is linked to it. -/
theorem subjects_linked (haccepted : ∀ thread, (push thread).Accepted parses)
    {actions : List (Thread × Bool)} {final : State Thread}
    (htimely : EveryStep (step parses push) (Timely parses push) {} actions)
    (hrun : exec (step parses push) {} actions = some final)
    (hsucceeded : ∀ thread, final.phase thread = .succeeded) (thread other : Thread)
    (hsubject : (push thread).manifest.subject = some (push other).digest) :
    final.world.Links (push thread).digest (push other).digest := by
  have hinv : final.Inv parses push :=
    exec_invariant (State.Inv parses push)
      (fun _ _ _ h hstep htimely => h.step haccepted hstep htimely) State.inv_start htimely hrun
  have hlinked : ∀ thread, final.world.HoldsLinked (push thread) := by
    intro thread
    have hphase := hinv.phase thread
    rwa [hsucceeded thread] at hphase
  obtain ⟨art, hart, hdigest, hrow⟩ := hlinked thread
  obtain ⟨subjectArt, hsubjectArt, hsubjectDigest, _⟩ := hlinked other
  obtain ⟨acc, hacc, hartifact, hnamed⟩ := hrow _ hsubject
  refine ⟨art, hart, subjectArt, hsubjectArt, acc, hacc, hdigest, hsubjectDigest, hartifact,
    hnamed, ?_⟩
  rcases hinv.world.names acc hacc with hzero | hparses | ⟨found, hfound, hfoundDigest, hid⟩
  · -- nobody is left to serve the row
    obtain ⟨server, _, hserves⟩ :=
      hinv.served acc hacc hzero ⟨subjectArt, hsubjectArt, hsubjectDigest.trans hnamed.symm⟩
    rw [hsucceeded server] at hserves
    exact hserves.elim
  · rw [hnamed, (haccepted other).digest] at hparses
    cases hparses
  · obtain rfl := hinv.world.digest_inj found hfound subjectArt hsubjectArt
      (hfoundDigest.trans (hnamed.trans hsubjectDigest.symm))
    exact hid.symm

end Runs

/-! ## Concrete runs -/

/-- The digests of the canonical algorithm, with 64 hexadecimal digits. -/
def sha256 (text : String) : Bool :=
  match text.toList with
  | 's' :: 'h' :: 'a' :: '2' :: '5' :: '6' :: ':' :: digits =>
    digits.length == 64 && digits.all fun c => c.isDigit || 'a' ≤ c && c ≤ 'f'
  | _ => false

def image : String :=
  "sha256:6105d6cc76af400325e94d588ce511be5bfdbb73b437dc51eca43917d7a43e3d"

def signature : String :=
  "sha256:1a2fc26dc7ea5a2a4748b7cb2b1ef193d96ab2c99f93092f69e63075b28d1278"

/-- An image and its signature, both pushed by digest. -/
def signedImage : Bool → Push
  | false => { manifest := {}, digest := image, reference := image }
  | true =>
    { manifest :=
        { subject := some image
          configMediaType := "application/vnd.dev.cosign.artifact.sig.v1+json" }
      digest := signature
      reference := signature }

theorem signedImage_accepted (thread : Bool) : (signedImage thread).Accepted sha256 := by
  cases thread <;> exact ⟨by decide, fun _ => rfl⟩

/-- A push performs a number of statements. -/
def pushOks (thread : Bool) (count : ℕ) : List (Bool × Bool) :=
  List.replicate count (thread, false)

/-- The signature misses the image, but its row is inserted before the push of the image
lists the rows. -/
theorem subjects_linked_signature :
    ∃ final, exec (step sha256 signedImage) {}
        (pushOks true 4 ++ pushOks false 2 ++ pushOks true 2 ++ pushOks false 3) = some final ∧
      final.world.Links signature image := by
  have htimely : EveryStep (step sha256 signedImage) (Timely sha256 signedImage) {}
      (pushOks true 4 ++ pushOks false 2 ++ pushOks true 2 ++ pushOks false 3) := by
    iterate 3 refine everyStep_cons rfl (fun _ => trivial) ?_
    refine everyStep_cons rfl (fun _ art hart => ?_) ?_
    · exact (mem_of_getByDigest hart).2
    iterate 2 refine everyStep_cons rfl (fun _ => trivial) ?_
    refine everyStep_cons rfl (fun _ _ => .inr (.inr ⟨false, rfl, trivial⟩)) ?_
    iterate 4 refine everyStep_cons rfl (fun _ => trivial) ?_
    trivial
  exact ⟨_, rfl, subjects_linked signedImage_accepted htimely rfl
    (fun thread => by cases thread <;> decide +kernel) true false rfl⟩

/-- The signature misses the image; the image is inserted and finds no row; then the row
is inserted without the id of the image, and both pushes have succeeded. -/
theorem signature_misses_image :
    ∃ final, exec (step sha256 signedImage) {}
        (pushOks true 4 ++ pushOks false 3 ++ pushOks true 2) = some final ∧
      (∀ thread, final.phase thread = .succeeded) ∧
      final.world.accessories.map (fun acc => (acc.subArtifactDigest, acc.subArtifactId)) =
        [(image, 0)] ∧
      ¬ final.world.Links signature image := by
  refine ⟨_, rfl, fun thread => by cases thread <;> decide +kernel, by decide +kernel, ?_⟩
  rintro ⟨art, _, subjectArt, hsubjectArt, acc, hacc, _, _, _, _, hid⟩
  have hzero : acc.subArtifactId = 0 := by
    obtain rfl := mem_singleton.mp hacc
    rfl
  have hids : ∀ art ∈ [(⟨1, signature, 0⟩ : Artifact), ⟨2, image, 0⟩], 0 < art.id := by decide
  exact absurd (hid.symm.trans hzero) (hids subjectArt hsubjectArt).ne'

end Harbor.Subjects
