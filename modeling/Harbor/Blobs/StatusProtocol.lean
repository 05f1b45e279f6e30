import Harbor.Blobs.Runs

/-!
# The status protocol of a blob

`UpdateBlobStatus` compares the version and asks `StatusMap`, so from the insertion
of a row to its deletion the version should only grow and every change of the status
should be one that `StatusMap` lists.  The collection relies on it.

The one statement without a guard is the upsert of `CreateBlob`.  `Ensure` looks the
digest up and creates the blob if there is none, so a row can appear in between; the
upsert then puts it back to version 0 and status none.  `createBlob_follows` says
when that is harmless, and `statusProtocol_iff` that nothing else leaves the
protocol.
-/

namespace Harbor.Blobs

open Harbor.Concurrency Function BlobWorld

/-! ## The protocol -/

/-- The change of a row is one that the protocol knows. -/
structure BlobRow.Follows (before after : BlobRow) : Prop where
  digest : after.digest = before.digest
  version : before.version ≤ after.version
  status : after.status = before.status ∨ before.status ∈ statusMap after.status

theorem BlobRow.Follows.refl (row : BlobRow) : row.Follows row := ⟨rfl, le_rfl, .inl rfl⟩

/-- Every row that a step neither inserts nor deletes follows the protocol. -/
def BlobWorld.Follows (before after : BlobWorld) : Prop :=
  ∀ id row row', before.rows id = some row → after.rows id = some row' → row.Follows row'

/-- The ids come from a sequence. -/
def BlobWorld.Numbered (world : BlobWorld) : Prop :=
  ∀ id row, world.rows id = some row → id < world.nextId

/-- A row that is there for the digest is as `CreateBlob` leaves a row, up to changes that
the protocol allows. -/
def BlobWorld.CreateFits (world : BlobWorld) (digest : Digest) : Prop :=
  ∀ blob, world.getByDigest digest = some blob →
    blob.version = 0 ∧ blob.status ∈ statusMap .none

/-- Where an operation creates a blob, the upsert fits. -/
def UpsertFits (world : BlobWorld) (op : BlobOp) (choice : BlobChoice) : Prop :=
  match op with
  | .createBlob digest _ => choice.failure = none → world.CreateFits digest
  | .commitUpload _ digest none => choice.failure = none → world.CreateFits digest
  | _ => True

/-! ## Single statements -/

section Statements

variable {world after : BlobWorld} {id : ℕ} {row : BlobRow} {choice : BlobChoice}

theorem follows_of_rows_eq (hrows : after.rows = world.rows) : world.Follows after := by
  intro id row row' hrow hrow'
  rw [hrows, hrow] at hrow'
  cases hrow'
  exact BlobRow.Follows.refl row

theorem follows_update (hrow : world.rows id = some row) (value : Option BlobRow)
    (hrows : after.rows = Function.update world.rows id value) :
    world.Follows after ↔ ∀ row', value = some row' → row.Follows row' := by
  constructor
  · intro hfollows row' hvalue
    exact hfollows id row row' hrow (by rw [hrows, update_self, hvalue])
  · intro hvalue other row₁ row₂ hrow₁ hrow₂
    rw [hrows] at hrow₂
    by_cases hother : other = id
    · subst hother
      cases hrow.symm.trans hrow₁
      exact hvalue row₂ (by simpa using hrow₂)
    · rw [update_of_ne hother, hrow₁] at hrow₂
      cases hrow₂
      exact BlobRow.Follows.refl row₁

theorem follows_moveTo {version : ℕ} {target : BlobStatus} (now : ℕ)
    (haccepts : row.Accepts version target) : row.Follows (row.moveTo target now) :=
  ⟨rfl, Nat.le_succ _, .inr haccepts.2⟩

theorem follows_updateStatus (world : BlobWorld) (actor : Actor) (blob : Blob)
    (target : BlobStatus) : world.Follows (world.updateStatus actor blob target).1 := by
  rcases updateStatus_cases world actor blob target with h | ⟨row, hrow, haccepts, h⟩
  · rw [h]
    exact follows_of_rows_eq rfl
  · rw [h]
    refine (follows_update hrow (some (row.moveTo target world.clock)) (by simp; rfl)).mpr ?_
    rintro _ ⟨⟩
    exact follows_moveTo _ haccepts

theorem foldl_updateBlob_follows (now : ℕ) (blobs : List Blob) (rows : ℕ → Option BlobRow)
    {row' : BlobRow} (hrow : rows id = some row)
    (hrow' : blobs.foldl (BlobWorld.updateBlob now) rows id = some row') :
    row'.digest = row.digest ∧ row'.version = row.version ∧ row'.status = row.status := by
  induction blobs generalizing rows row with
  | nil =>
    cases hrow.symm.trans hrow'
    exact ⟨rfl, rfl, rfl⟩
  | cons blob rest ih =>
    by_cases hid : id = blob.id
    · subst hid
      have hupdated : updateBlob now rows blob blob.id =
          some { row with contentType := blob.contentType, updateTime := now } := by
        simp [updateBlob, hrow]
      have hrest := ih _ hupdated hrow'
      exact hrest
    · refine ih _ ?_ hrow'
      rw [updateBlob, update_of_ne hid, hrow]

theorem follows_updateBlobs (world : BlobWorld) (blobs : List Blob) :
    world.Follows (world.updateBlobs blobs) := by
  intro id row row' hrow hrow'
  obtain ⟨hdigest, hversion, hstatus⟩ := foldl_updateBlob_follows _ _ _ hrow hrow'
  exact ⟨hdigest, hversion.ge, .inl hstatus⟩

theorem follows_deleteRow (world : BlobWorld) (worker : ℕ) (blob : Blob) :
    world.Follows (world.deleteRow worker blob).1 := by
  unfold deleteRow
  cases hrow : world.rows blob.id with
  | none => exact follows_of_rows_eq rfl
  | some row =>
    refine (follows_update hrow none rfl).mpr ?_
    intro row' hnone
    cases hnone

theorem rows_of_getByDigest {digest : Digest} {blob : Blob}
    (hfound : world.getByDigest digest = some blob) :
    world.rows blob.id = some blob.toBlobRow ∧ blob.digest = digest := by
  refine ⟨?_, by simpa using List.find?_some hfound⟩
  obtain ⟨id, _, hid⟩ := List.mem_filterMap.mp (List.mem_of_find?_eq_some hfound)
  obtain ⟨row, hrow, rfl⟩ := Option.map_eq_some_iff.mp hid
  exact hrow

variable (hnumbered : world.Numbered)
include hnumbered

/-- **The upsert.**  It follows the protocol exactly if the row it overwrites fits. -/
theorem createBlob_follows (digest : Digest) (contentType : String) :
    world.Follows (world.createBlob digest contentType).1 ↔ world.CreateFits digest := by
  unfold createBlob BlobWorld.CreateFits
  cases hfound : world.getByDigest digest with
  | some blob =>
    obtain ⟨hrow, hdigest⟩ := rows_of_getByDigest hfound
    refine (follows_update hrow _ rfl).trans ?_
    constructor
    · intro hfollows other hother
      cases hother
      have hrow' := hfollows _ rfl
      refine ⟨Nat.le_zero.mp hrow'.version, ?_⟩
      rcases hrow'.status with hstatus | hstatus
      · rw [← hstatus]
        exact List.mem_cons_self
      · exact hstatus
    · rintro hfits _ ⟨⟩
      obtain ⟨hversion, hstatus⟩ := hfits blob rfl
      exact ⟨hdigest.symm, hversion.le, .inr hstatus⟩
  | none =>
    refine iff_of_true ?_ fun blob hblob => by cases hblob
    intro id row row' hrow hrow'
    have hid : id ≠ world.nextId := (hnumbered id row hrow).ne
    simp only [setRow, update_of_ne hid, hrow] at hrow'
    cases hrow'
    exact BlobRow.Follows.refl row

/-! ## Every operation -/

theorem BlobWorld.Numbered.of_rows
    (hrows : ∀ id row', after.rows id = some row' → ∃ row, world.rows id = some row)
    (hnext : world.nextId ≤ after.nextId) : after.Numbered := by
  intro id row' hrow'
  obtain ⟨row, hrow⟩ := hrows id row' hrow'
  exact (hnumbered id row hrow).trans_le hnext

theorem numbered_createBlob (digest : Digest) (contentType : String) :
    (world.createBlob digest contentType).1.Numbered := by
  unfold createBlob
  cases hfound : world.getByDigest digest with
  | some blob =>
    obtain ⟨hrow, _⟩ := rows_of_getByDigest hfound
    refine hnumbered.of_rows (fun id row' hrow' => ?_) le_rfl
    by_cases hid : id = blob.id
    · exact ⟨_, hid ▸ hrow⟩
    · simp only [setRow, update_of_ne hid] at hrow'
      exact ⟨row', hrow'⟩
  | none =>
    intro id row' hrow'
    by_cases hid : id = world.nextId
    · exact hid ▸ Nat.lt_succ_self _
    · simp only [setRow, update_of_ne hid] at hrow'
      exact (hnumbered id row' hrow').trans (Nat.lt_succ_self _)

theorem numbered_updateStatus (actor : Actor) (blob : Blob) (target : BlobStatus) :
    (world.updateStatus actor blob target).1.Numbered := by
  rcases updateStatus_cases world actor blob target with h | ⟨row, hrow, _, h⟩
  · rw [h]
    exact hnumbered
  · rw [h]
    refine hnumbered.of_rows (fun id row' hrow' => ?_) (by simp [setRow])
    by_cases hid : id = blob.id
    · exact ⟨row, hid ▸ hrow⟩
    · simp only [noteStatus_rows, setRow, update_of_ne hid] at hrow'
      exact ⟨row', hrow'⟩

theorem numbered_updateBlobs (blobs : List Blob) : (world.updateBlobs blobs).Numbered := by
  refine hnumbered.of_rows (fun id row' hrow' => ?_) le_rfl
  have hversion := foldl_updateBlob_version id world.clock blobs world.rows
  rw [show blobs.foldl (updateBlob world.clock) world.rows id = some row' from hrow',
    Option.map_some] at hversion
  obtain ⟨row, hrow, _⟩ := Option.map_eq_some_iff.mp hversion.symm
  exact ⟨row, hrow⟩

theorem numbered_deleteRow (worker : ℕ) (blob : Blob) :
    (world.deleteRow worker blob).1.Numbered := by
  unfold deleteRow
  cases hrow : world.rows blob.id with
  | none => exact hnumbered
  | some row =>
    refine hnumbered.of_rows (fun id row' hrow' => ?_) le_rfl
    by_cases hid : id = blob.id
    · exact ⟨row, hid ▸ hrow⟩
    · simp only [update_of_ne hid] at hrow'
      exact ⟨row', hrow'⟩

omit hnumbered

/-- What is shown of every operation. -/
def Protocolled (world : BlobWorld) (fits : Prop) (after : BlobWorld) : Prop :=
  after.Numbered ∧ (fits ↔ world.Follows after)

theorem protocolled_of_follows (hnumbered : after.Numbered) (hfollows : world.Follows after) :
    Protocolled world True after :=
  ⟨hnumbered, iff_of_true trivial hfollows⟩

theorem protocolled_of_rows_eq (hnumbered : world.Numbered) (hrows : after.rows = world.rows)
    (hnext : after.nextId = world.nextId) : Protocolled world True after := by
  refine protocolled_of_follows ?_ (follows_of_rows_eq hrows)
  intro id row hrow
  rw [hnext]
  exact hnumbered id row (hrows ▸ hrow)

theorem protocolled_perform {α : Type} {fits : Prop} {done : BlobWorld × Except BlobFailure α}
    {reply : Except BlobFailure α} (hnumbered : world.Numbered)
    (hsem : some (choice.perform world done) = some (after, reply))
    (hdone : Protocolled world fits done.1) :
    Protocolled world (choice.failure = none → fits) after := by
  unfold BlobChoice.perform at hsem
  cases hfailure : choice.failure with
  | some err =>
    rw [hfailure] at hsem
    cases hsem
    exact ⟨hnumbered, iff_of_true (fun hnone => by cases hnone) (follows_of_rows_eq rfl)⟩
  | none =>
    rw [hfailure] at hsem
    cases hsem
    exact ⟨hdone.1, (imp_iff_right rfl).trans hdone.2⟩

theorem Protocolled.true_of_imp {P : Prop} (h : Protocolled world (P → True) after) :
    Protocolled world True after :=
  ⟨h.1, iff_of_true trivial (h.2.mp fun _ => trivial)⟩

theorem protocolled_createBlob (hnumbered : world.Numbered) (digest : Digest)
    (contentType : String) :
    Protocolled world (world.CreateFits digest) (world.createBlob digest contentType).1 :=
  ⟨numbered_createBlob hnumbered digest contentType,
    (createBlob_follows hnumbered digest contentType).symm⟩

theorem protocolled_commitUpload (hnumbered : world.Numbered) (project : ℕ) (digest : Digest)
    (found : Option ℕ) :
    Protocolled world (found = none → world.CreateFits digest)
      (world.commitUpload project digest found) := by
  cases found with
  | some id =>
    have h : Protocolled world True (world.createProjectBlob project id) :=
      protocolled_of_rows_eq hnumbered rfl rfl
    exact ⟨h.1, iff_of_true (fun hnone => by cases hnone) (h.2.mp trivial)⟩
  | none =>
    obtain ⟨hafter, hiff⟩ := protocolled_createBlob hnumbered digest "application/octet-stream"
    exact ⟨hafter, (imp_iff_right rfl).trans hiff⟩

/-- **Step.**  An operation follows the protocol exactly if its upsert fits. -/
theorem protocolled_sem {op : BlobOp} {reply : BlobReply op} (hnumbered : world.Numbered)
    (hsem : blobSem world op choice = some (after, reply)) :
    Protocolled world (UpsertFits world op choice) after := by
  cases op with
  | get | list | listProject | existsArtifact | now | ask | query | associations | trash | poll
  | tick | publish =>
    cases hsem
    exact protocolled_of_rows_eq hnumbered rfl rfl
  | takePlan =>
    obtain ⟨plan, _, hplan⟩ := Option.map_eq_some_iff.mp hsem
    obtain ⟨rfl, -⟩ := Prod.mk.inj hplan
    exact protocolled_of_rows_eq hnumbered rfl rfl
  | updateStatus actor blob target =>
    exact (protocolled_perform hnumbered hsem (protocolled_of_follows
      (numbered_updateStatus hnumbered actor blob target)
      (follows_updateStatus world actor blob target))).true_of_imp
  | updateBlobs blobs =>
    exact (protocolled_perform hnumbered hsem (protocolled_of_follows
      (numbered_updateBlobs hnumbered blobs) (follows_updateBlobs world blobs))).true_of_imp
  | createBlob digest contentType =>
    exact protocolled_perform hnumbered hsem (protocolled_createBlob hnumbered digest contentType)
  | commitUpload project digest found =>
    have h := protocolled_perform hnumbered hsem
      (protocolled_commitUpload hnumbered project digest found)
    cases found with
    | some id =>
      exact ⟨h.1, iff_of_true trivial (h.2.mp fun _ hnone => by cases hnone)⟩
    | none => exact ⟨h.1, (imp_congr_right fun _ => (imp_iff_right rfl).symm).trans h.2⟩
  | createProjectBlob | deleteProjectBlob | createArtifactBlob | deleteArtifactBlob | snapshot =>
    exact (protocolled_perform hnumbered hsem
      (protocolled_of_rows_eq hnumbered rfl rfl)).true_of_imp
  | deleteBlob worker blob =>
    cases hsem
    refine protocolled_of_rows_eq hnumbered ?_ ?_
    all_goals
      unfold deleteBlob
      cases choice.failure <;> rfl
  | deleteRow worker blob =>
    exact (protocolled_perform hnumbered hsem (protocolled_of_follows
      (numbered_deleteRow hnumbered worker blob)
      (follows_deleteRow world worker blob))).true_of_imp

end Statements

/-! ## Runs -/

section Runs

variable {Thread Result : Type} [DecidableEq Thread]

/-- In every run of threads that ensure, touch, mark and sweep blobs in any way, the rows
follow the protocol at every step exactly if every upsert of the run fits. -/
theorem statusProtocol_iff (pool : Pool BlobWorld BlobOp BlobReply Thread Result)
    (hnumbered : pool.world.Numbered) (actions : List (Thread × BlobChoice)) :
    EveryStep (Pool.step blobSem) (fun before _ after => before.world.Follows after.world) pool
        actions ↔
      EveryStep (Pool.step blobSem) (Pool.Admits UpsertFits) pool actions := by
  have hstep : ∀ (before : Pool BlobWorld BlobOp BlobReply Thread Result)
      (action : Thread × BlobChoice) (after : Pool BlobWorld BlobOp BlobReply Thread Result),
      before.world.Numbered → Pool.step blobSem before action = some after →
        after.world.Numbered ∧ (Pool.Admits UpsertFits before action after ↔
          before.world.Follows after.world) := by
    rintro before ⟨thread, choice⟩ after hbefore hstep
    obtain ⟨op, next, world, reply, hthread, hsem, rfl⟩ := Pool.step_eq_some hstep
    obtain ⟨hafter, hiff⟩ := protocolled_sem hbefore hsem
    refine ⟨hafter, Iff.trans ?_ hiff⟩
    simp [Pool.Admits, Pool.nextOp, hthread]
  constructor
  · exact everyStep_of_invariant (fun pool => pool.world.Numbered)
      (fun before action after hbefore hafter hfollows =>
        have h := hstep before action after hbefore hafter
        ⟨h.1, h.2.mpr hfollows⟩) hnumbered
  · exact everyStep_of_invariant (fun pool => pool.world.Numbered)
      (fun before action after hbefore hafter hfits =>
        have h := hstep before action after hbefore hafter
        ⟨h.1, h.2.mp hfits⟩) hnumbered

end Runs

/-! ## Concrete runs -/

/-- Clients ensure the same layer while a collection runs. -/
def ensureLayer : Pool BlobWorld BlobOp BlobReply BlobThread (Except BlobFailure Unit) where
  world := { clock := 2 }
  threads
    | .client _ =>
      andThen (ensure "sha256:layer" "application/octet-stream") fun _ => .ret (.ok ())
    | .collector => GarbageCollector.run {} 1
    | .sweeper index => sweepWorker {} index 1
    | .clock => tickClock 2

theorem ensureLayer_numbered : ensureLayer.world.Numbered := by
  intro id row hrow
  cases hrow

/-- One client ensures the layer, and later the collection deletes it. -/
theorem statusProtocol_iff_ensureLayer :
    EveryStep (Pool.step blobSem) (fun before _ after => before.world.Follows after.world)
      ensureLayer
      (blobOks (.client 0) 2 ++ blobOks .clock 2 ++ blobOks .collector 8 ++
        blobOks (.sweeper 0) 5) := by
  refine (statusProtocol_iff ensureLayer ensureLayer_numbered _).mpr ?_
  refine everyStep_cons rfl (Pool.admits_of_nextOp rfl trivial) ?_
  refine everyStep_cons rfl (Pool.admits_of_nextOp rfl fun _ blob hblob => ?_) ?_
  · cases hblob
  · iterate 15 refine everyStep_cons rfl (Pool.admits_of_nextOp rfl trivial) ?_
    trivial

/-- Two clients find no row.  One of them inserts it, the collection marks it and a worker
sets it to deleting; then the other one creates the blob, and the row is back at none with
version 0 while the worker goes on to delete the layer from the storage. -/
theorem ensure_leaves_statusProtocol :
    ∃ before after final, exec (Pool.step blobSem) ensureLayer
        (blobOks (.client 0) 1 ++ blobOks (.client 1) 2 ++ blobOks .clock 2 ++
          blobOks .collector 8 ++ blobOks (.sweeper 0) 3) = some before ∧
      Pool.step blobSem before (.client 0, {}) = some after ∧
      (before.world.rows 0).map (fun row => (row.status, row.version)) = some (.deleting, 2) ∧
      (after.world.rows 0).map (fun row => (row.status, row.version)) = some (.none, 0) ∧
      ¬ before.world.Follows after.world ∧
      exec (Pool.step blobSem) after (blobOks (.sweeper 0) 2) = some final ∧
      .deleteBlob 0 false ∈ final.world.log := by
  refine ⟨_, _, _, rfl, rfl, rfl, rfl, ?_, rfl, List.mem_cons_self⟩
  intro hfollows
  have hversion := (hfollows 0 _ _ rfl rfl).version
  exact absurd hversion (by decide)

end Harbor.Blobs
