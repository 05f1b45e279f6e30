import Harbor.Blobs.SweepSafety

/-!
# The programs of requests and of a collection

Every program keeps the invariant of a blob under the interference of the others.
The requests perform only operations that need no knowledge (`Free`).  The
collection keeps, from its snapshot on, that it has seen the candidates; a worker
keeps, from a successful update to deleting on, that it sweeps the blob.

Most of a program needs no argument: `Safe.of_uses` takes care of parts that use only
operations that are permitted anyway, and those parts only have to be collected.

* Requests use `Free` operations (`uses_request`).
* Before its snapshot the collection uses `Preparing` ones (`safe_preparing`).
* A worker uses those of `SweeperOp` once it is done with a blob.

What remains is argued with `Safe.call` and `Safe.bind`: the loop that marks the candidates
(`safe_markCandidates`), in which they stay `Seen`, and the deletion of a blob
(`safe_sweepBlob`), which the worker `Sweeps` until the row is gone.
-/

namespace Harbor.Blobs

open Harbor.Concurrency List

/-! ## Rules -/

/-- The program of a thread keeps the invariant of the blob and ends with `Post`. -/
def Safe (guarded : Prop) (id : ℕ) (thread : BlobThread) {Result : Type}
    (Post : Result → BlobWorld → Prop) (program : BlobProgram Result) (world : BlobWorld) : Prop :=
  Secured blobSem (BlobAllowed guarded id) (BlobInv guarded id) (Tolerates thread) (Moves thread)
    Post program world

/-- A postcondition for the case that there is no error. -/
def OnOk {α : Type} (P : α → BlobWorld → Prop) : Except BlobFailure α → BlobWorld → Prop
  | .ok value, world => P value world
  | .error _, _ => True

/-- Nothing is to be known to perform the operation. -/
def Free (op : BlobOp) : Prop :=
  ∀ id thread world, Permitted id thread world op

section Rules

variable {guarded : Prop} {id : ℕ} {thread : BlobThread} {α β : Type}
  {world : BlobWorld} {P : α → BlobWorld → Prop} {program : BlobProgram (Except BlobFailure α)}

theorem Safe.call {Post : α → BlobWorld → Prop} {op : BlobOp} {next : BlobReply op → BlobProgram α}
    (hpermitted : ∀ later, Tolerates thread world later → Permitted id thread later op)
    (hnext : ∀ later choice after reply, Tolerates thread world later → BlobInv guarded id later →
      blobSem later op choice = some (after, reply) → BlobInv guarded id after →
        Safe guarded id thread Post (next reply) after) :
    Safe guarded id thread Post (.call op next) world := by
  intro later choice after reply hrely hinv hallowed hsem
  obtain ⟨hafter, hmoves⟩ := blob_step hinv hallowed (hpermitted later hrely) hsem
  exact ⟨hafter, hmoves, hnext later choice after reply hrely hinv hsem hafter⟩

theorem Safe.bind {Mid : α → BlobWorld → Prop} {Post : β → BlobWorld → Prop}
    {first : BlobProgram α} {rest : α → BlobProgram β} (hinv : BlobInv guarded id world)
    (hfirst : Safe guarded id thread Mid first world)
    (hrest : ∀ result later, BlobInv guarded id later → Mid result later →
      Safe guarded id thread Post (rest result) later) :
    Safe guarded id thread Post (first >>= rest) world :=
  Secured.bind (Tolerates.refl thread) hinv hfirst hrest

theorem Safe.error (err : BlobFailure) :
    Safe guarded id thread (OnOk P) (.ret (.error err)) world :=
  fun _ _ _ => trivial

theorem Safe.ok {value : α} (hstable : ∀ later, Tolerates thread world later → P value later) :
    Safe guarded id thread (OnOk P) (.ret (.ok value)) world :=
  fun later hrely _ => hstable later hrely

theorem Safe.andThen {Q : β → BlobWorld → Prop} {first : BlobProgram (Except BlobFailure α)}
    {rest : α → BlobProgram (Except BlobFailure β)} (hinv : BlobInv guarded id world)
    (hfirst : Safe guarded id thread (OnOk P) first world)
    (hrest : ∀ value later, BlobInv guarded id later → P value later →
      Safe guarded id thread (OnOk Q) (rest value) later) :
    Safe guarded id thread (OnOk Q) (andThen first rest) world := by
  refine Safe.bind hinv hfirst fun result later hlater hmid => ?_
  cases result with
  | error err => exact Safe.error err
  | ok value => exact hrest value later hlater hmid

theorem Safe.forEach (Fact : BlobWorld → Prop) {body : α → BlobCall}
    (hstable : ∀ a b, Tolerates thread a b → Fact a → Fact b) {items : List α}
    (hbody : ∀ item ∈ items, ∀ later, BlobInv guarded id later → Fact later →
      Safe guarded id thread (OnOk fun _ => Fact) (body item) later)
    (hinv : BlobInv guarded id world) (hfact : Fact world) :
    Safe guarded id thread (OnOk fun _ => Fact) (forEach body items) world := by
  induction items generalizing world with
  | nil => exact Safe.ok fun later hrely => hstable _ _ hrely hfact
  | cons item rest ih =>
    refine Safe.andThen hinv (hbody item (by simp) world hinv hfact) ?_
    intro _ later hlater hfact'
    exact ih (fun other hother => hbody other (by simp [hother])) hlater hfact'

theorem Safe.unlessStopped
    (hprogram : ∀ later, Tolerates thread world later → BlobInv guarded id later →
      Safe guarded id thread (OnOk P) program later) :
    Safe guarded id thread (OnOk P) (unlessStopped program) world := by
  refine Safe.call (fun _ _ => trivial) fun later choice after stop hrely hinv hsem hafter => ?_
  obtain ⟨rfl, _⟩ := Prod.mk.inj (Option.some.inj hsem)
  cases stop with
  | true => exact Safe.error errGcStop
  | false => exact hprogram _ hrely hafter

/-- A program of free operations needs nothing and keeps a fact that they keep. -/
theorem Safe.of_uses {P : BlobOp → Prop} {Fact : BlobWorld → Prop} {program : BlobProgram α}
    (hstable : ∀ a b, Tolerates thread a b → Fact a → Fact b)
    (hpermitted : ∀ op world, P op → Permitted id thread world op)
    (hkeeps : ∀ world op choice after reply, P op → Fact world →
      blobSem world op choice = some (after, reply) → Fact after)
    (huses : program.Uses P) (hfact : Fact world) :
    Safe guarded id thread (fun _ later => Fact later) program world := by
  refine huses.secured hstable ?_ hfact
  intro before op choice after reply hop hinv hbefore hallowed hsem
  obtain ⟨hafter, hmoves⟩ := blob_step hinv hallowed (hpermitted op before hop) hsem
  exact ⟨hafter, hmoves, hkeeps before op choice after reply hop hbefore hsem⟩

theorem Safe.of_free {program : BlobProgram α} (huses : program.Uses Free) :
    Safe guarded id thread (fun _ _ => True) program world :=
  Safe.of_uses (fun _ _ _ h => h) (fun _ _ hop => hop _ _ _) (fun _ _ _ _ _ _ h _ => h) huses
    trivial

theorem Safe.onOk {Fact : BlobWorld → Prop}
    (h : Safe guarded id thread (fun _ later => Fact later) program world) :
    Safe guarded id thread (OnOk fun _ => Fact) program world :=
  Secured.mono (fun result _ _ hfact =>
    match result with
    | .ok _ => hfact
    | .error _ => trivial) h

theorem Safe.frame {blobs : List Blob} (h : Safe guarded id thread (OnOk P) program world)
    (hseen : ∀ blob ∈ blobs, world.Seen blob) :
    Safe guarded id thread (OnOk fun value later => P value later ∧ ∀ blob ∈ blobs, later.Seen blob)
      program world := by
  have hframed := Secured.frame (fun later : BlobWorld => ∀ blob ∈ blobs, later.Seen blob)
    (fun _ _ hrely hall blob hblob => (hall blob hblob).stable hrely)
    (fun _ _ _ _ _ _ _ hmoves hall blob hblob => hmoves.grows (hall blob hblob))
    (Program.uses_of_forall (fun _ => trivial) _) h hseen
  refine Secured.mono ?_ hframed
  rintro result later - ⟨hpost, hlater⟩
  cases result with
  | error err => trivial
  | ok value => exact ⟨hpost, hlater⟩

end Rules

/-! ## Which operations the programs use -/

section Uses

variable {P : BlobOp → Prop} {α β : Type}

theorem uses_perform {op : BlobOp} (hop : P op) :
    (Program.perform op : BlobProgram (BlobReply op)).Uses P :=
  ⟨hop, fun _ => trivial⟩

theorem uses_andThen {first : BlobProgram (Except BlobFailure α)}
    {rest : α → BlobProgram (Except BlobFailure β)} (hfirst : first.Uses P)
    (hrest : ∀ value, (rest value).Uses P) : (andThen first rest).Uses P := by
  refine hfirst.bind fun result => ?_
  cases result with
  | error err => trivial
  | ok value => exact hrest value

theorem uses_forEach {body : α → BlobCall}
    (hbody : ∀ item, (body item).Uses P) (items : List α) : (forEach body items).Uses P := by
  induction items with
  | nil => trivial
  | cons item rest ih => exact uses_andThen (hbody item) fun _ => ih

theorem uses_unlessStopped {program : BlobProgram (Except BlobFailure α)} (hpoll : P .poll)
    (hprogram : program.Uses P) : (unlessStopped program).Uses P := by
  refine ⟨hpoll, fun stop => ?_⟩
  cases stop with
  | true => trivial
  | false => exact hprogram

theorem uses_ite {first second : BlobProgram α} {c : Prop} [Decidable c] (hfirst : first.Uses P)
    (hsecond : second.Uses P) : (if c then first else second).Uses P := by
  split_ifs
  · exact hfirst
  · exact hsecond

end Uses

/-! ## Requests -/

section Requests

variable (timeWindow : ℕ) (requestId : String) (digest : Digest)

theorem uses_managerGet : (managerGet digest).Uses Free := by
  refine uses_andThen (uses_perform fun _ _ _ => trivial) fun found => ?_
  cases found <;> trivial

theorem uses_controllerGet : (controllerGet digest).Uses Free :=
  uses_ite trivial (uses_managerGet digest)

variable (blob : Blob)

theorem uses_clientUpdate (target : BlobStatus) (name : String) :
    (clientUpdate blob target name).Uses Free := by
  refine uses_andThen (uses_perform fun _ _ _ => ⟨trivial, trivial⟩) fun updated => ?_
  cases updated <;> trivial

theorem uses_withRequestId {α : Type} {program : BlobProgram (Except BlobFailure α)}
    (hprogram : program.Uses Free) : (withRequestId requestId program).Uses Free := by
  refine hprogram.bind fun result => ?_
  cases result <;> trivial

theorem uses_failIfOld {program : BlobCall}
    (hprogram : program.Uses Free) : (failIfOld timeWindow requestId blob program).Uses Free := by
  refine ⟨fun _ _ _ => trivial, fun (now : ℕ) => uses_ite (uses_andThen ?_ fun _ => hprogram)
    trivial⟩
  exact uses_withRequestId requestId (uses_clientUpdate _ _ _)

theorem uses_headFound : (headFound timeWindow requestId blob).Uses Free := by
  unfold headFound
  cases blob.status with
  | none | delete => exact uses_withRequestId requestId (uses_clientUpdate _ _ _)
  | deleting => exact uses_failIfOld timeWindow requestId blob trivial
  | deleteFailed => trivial

theorem uses_handleHead (blobInfo : Option Digest) :
    (handleHead timeWindow requestId blobInfo).Uses Free := by
  cases blobInfo with
  | none => trivial
  | some digest =>
    exact uses_andThen (uses_controllerGet digest) (uses_headFound timeWindow requestId)

theorem uses_probeFound {again : BlobCall} (hagain : again.Uses Free) :
    (probeFound timeWindow requestId again blob).Uses Free := by
  unfold probeFound
  cases blob.status with
  | none | delete | deleteFailed => exact uses_withRequestId requestId (uses_clientUpdate _ _ _)
  | deleting => exact uses_failIfOld timeWindow requestId blob hagain

theorem uses_probeBlob (fuel : ℕ) : (probeBlob timeWindow requestId digest fuel).Uses Free := by
  induction fuel with
  | zero => trivial
  | succ fuel ih =>
    refine (uses_controllerGet digest).bind fun result => ?_
    cases result with
    | error err => exact uses_ite trivial trivial
    | ok blob => exact uses_probeFound timeWindow requestId blob ih

theorem uses_afterCreated {program : BlobCall}
    (hprogram : program.Uses Free) : (afterCreated program).Uses Free := by
  refine ⟨fun _ _ _ => trivial, fun response => ?_⟩
  match response with
  | .error err => trivial
  | .ok () => exact hprogram

theorem uses_ask : Op.ask.Uses Free := uses_perform fun _ _ _ => trivial

theorem uses_ensure (contentType : String) : (ensure digest contentType).Uses Free := by
  refine (uses_managerGet digest).bind fun result => ?_
  cases result with
  | ok blob => trivial
  | error err => exact uses_ite (uses_perform fun _ _ _ => trivial) trivial

theorem uses_createMissing (reference : Descriptor) : (createMissing reference).Uses Free :=
  uses_andThen (uses_perform fun _ _ _ => trivial) fun _ => trivial

theorem uses_sync (references : List Descriptor) : (sync references).Uses Free := by
  refine uses_ite trivial (uses_andThen (uses_perform fun _ _ _ => trivial) fun found => ?_)
  refine uses_andThen (uses_ite trivial (uses_perform fun _ _ _ => trivial)) fun _ => ?_
  exact uses_forEach (fun reference => uses_createMissing reference) _

theorem uses_associateWithProjectByDigest (project : ℕ) (digest : Digest) :
    (associateWithProjectByDigest project digest).Uses Free :=
  uses_andThen (uses_managerGet digest) fun _ => uses_perform fun _ _ _ => trivial

theorem uses_associateWithArtifact (digests : List Digest) (artifact : Digest) :
    (associateWithArtifact digests artifact).Uses Free :=
  uses_ite trivial (uses_andThen (uses_perform fun _ _ _ => trivial) fun _ =>
    uses_ite trivial (uses_forEach (fun _ => uses_perform fun _ _ _ => trivial) _))

theorem uses_associateUpload (project : ℕ) (stored : Digest) :
    (associateUpload project stored).Uses Free := by
  refine (uses_managerGet stored).bind fun result => ?_
  cases result with
  | ok blob => exact uses_perform fun _ _ _ => trivial
  | error err => exact uses_ite (uses_perform fun _ _ _ => trivial) trivial

theorem uses_putBlobUpload (project : ℕ) (digest stored : Digest) (fuel : ℕ) :
    (putBlobUpload timeWindow requestId project digest stored fuel).Uses Free :=
  uses_andThen (uses_probeBlob timeWindow requestId digest fuel) fun _ =>
    uses_afterCreated (uses_andThen uses_ask fun _ => uses_andThen uses_ask fun _ =>
      uses_associateUpload project stored)

theorem uses_associateReferences (project : ℕ) (references : List Descriptor) :
    (associateReferences project references).Uses Free :=
  uses_forEach (fun reference : Descriptor =>
    uses_associateWithProjectByDigest project reference.digest)
    references

theorem uses_associateManifest (project : ℕ) (contentType : String) (manifest : Manifest) :
    (associateManifest project contentType manifest).Uses Free := by
  refine uses_andThen (uses_sync manifest.references) fun _ => ?_
  refine uses_andThen (uses_associateReferences project manifest.references) fun _ => ?_
  refine uses_andThen (uses_ensure manifest.digest contentType) fun _ => ?_
  exact uses_andThen (uses_perform fun _ _ _ => trivial) fun _ =>
    uses_associateWithArtifact _ manifest.digest

theorem uses_putManifest (project : ℕ) (contentType : String)
    (manifest : Except BlobFailure Manifest) (fuel : ℕ) :
    (putManifest timeWindow requestId project contentType manifest fuel).Uses Free := by
  refine uses_andThen uses_ask fun _ => ?_
  cases manifest with
  | error err => trivial
  | ok manifest =>
    refine uses_andThen (uses_probeBlob timeWindow requestId manifest.digest fuel) fun _ => ?_
    exact uses_afterCreated (uses_andThen uses_ask fun _ => uses_andThen uses_ask fun _ =>
      uses_associateManifest project contentType manifest)

theorem uses_request (fuel : ℕ) (request : Request) :
    (request.program timeWindow requestId fuel).Uses Free := by
  cases request with
  | head blobInfo => exact uses_handleHead timeWindow requestId blobInfo
  | putBlobUpload project digest stored =>
    exact uses_putBlobUpload timeWindow requestId project digest stored fuel
  | postInitiateBlobUpload project mount =>
    exact uses_afterCreated (uses_ite trivial (uses_andThen uses_ask fun _ =>
      uses_associateWithProjectByDigest project mount))
  | putManifest project contentType manifest =>
    exact uses_putManifest timeWindow requestId project contentType manifest fuel

end Requests

/-! ## The collection -/

section Collection

variable {guarded : Prop} {id : ℕ} {world after : BlobWorld} {choice : BlobChoice}

/-- What the collection does before its snapshot. -/
def Preparing : BlobOp → Prop
  | .listProject _ _ _ _ _ | .now | .ask | .query | .associations | .trash | .poll
  | .deleteProjectBlob _ _ => True
  | _ => False

theorem Preparing.permitted {op : BlobOp} (hop : Preparing op) (thread : BlobThread) :
    Permitted id thread world op := by
  cases op <;> trivial

theorem Preparing.remembered_eq {op : BlobOp} {reply : BlobReply op} (hop : Preparing op)
    (hsem : blobSem world op choice = some (after, reply)) :
    after.remembered = world.remembered := by
  cases op with
  | listProject | now | ask | query | associations | trash | poll =>
    cases hsem
    rfl
  | deleteProjectBlob project ids => rcases perform_cases hsem with ⟨rfl, _⟩ | ⟨rfl, _⟩ <;> rfl
  | _ => exact hop.elim

theorem uses_regardless {α : Type} {program : BlobProgram α} (hprogram : program.Uses Preparing) :
    (regardless program).Uses Preparing :=
  hprogram.bind fun _ => trivial

theorem uses_deleteArtifact : deleteArtifact.Uses Preparing := by
  refine uses_andThen (uses_perform trivial) fun associations => ?_
  refine uses_andThen (uses_forEach (fun association : ℕ × List ℕ => ?_) associations)
    fun _ => uses_perform trivial
  exact (uses_perform trivial : (Op.deleteProjectBlob association.1 association.2).Uses Preparing)

variable (gc : GarbageCollector)

theorem uses_deleteUntaggedArtifact : (deleteUntaggedArtifact gc).Uses Preparing :=
  uses_ite (uses_regardless (uses_perform trivial))
    (uses_unlessStopped trivial (uses_regardless uses_deleteArtifact))

theorem uses_deletedArt : (deletedArt gc).Uses Preparing := by
  refine uses_andThen (uses_ite (uses_andThen (uses_perform trivial) fun untagged => ?_) trivial)
    fun _ => uses_ite trivial (uses_perform trivial)
  exact uses_forEach (fun _ => uses_deleteUntaggedArtifact gc) untagged

theorem uses_cleanupAssociationsForProject (project : ℕ) (blobs : List Blob) :
    (cleanupAssociationsForProject project blobs).Uses Preparing :=
  uses_ite trivial (uses_andThen (uses_perform trivial) fun _ => uses_perform trivial)

theorem uses_countUnassociated : countUnassociated.Uses Preparing :=
  uses_andThen (uses_perform trivial) fun _ => trivial

theorem uses_cleanPage (project now lastBlobId : ℕ) :
    (cleanPage gc project now lastBlobId).Uses Preparing := by
  refine ⟨trivial, fun (stop : Bool) => uses_ite trivial ⟨trivial, fun page => ?_⟩⟩
  cases page with
  | error err => trivial
  | ok blobs =>
    refine (uses_ite uses_countUnassociated
      (uses_cleanupAssociationsForProject project blobs)).bind fun result => ?_
    cases result <;> trivial

theorem uses_cleanPages (project now lastBlobId fuel : ℕ) :
    (cleanPages gc project now lastBlobId fuel).Uses Preparing := by
  induction fuel generalizing lastBlobId with
  | zero => trivial
  | succ fuel ih =>
    refine (uses_cleanPage gc project now lastBlobId).bind fun page => ?_
    cases page with
    | error result => trivial
    | ok blobs => exact uses_ite trivial (ih _)

theorem uses_cleanProject (fuel project : ℕ) : (cleanProject gc fuel project).Uses Preparing := by
  refine uses_unlessStopped trivial ⟨trivial, fun (now : ℕ) => ?_⟩
  exact uses_cleanPages gc project now 0 fuel

theorem uses_markOrSweepUntaggedBlobs (fuel : ℕ) :
    (markOrSweepUntaggedBlobs gc fuel).Uses Preparing := by
  refine uses_andThen (uses_perform trivial) fun projects => ?_
  exact uses_forEach (fun project => uses_cleanProject gc fuel project) projects

theorem safe_preparing {α : Type} {program : BlobProgram (Except BlobFailure α)}
    (huses : program.Uses Preparing) (hunseen : world.Unseen id) :
    Safe guarded id .collector (OnOk fun _ later => later.Unseen id) program world := by
  refine Safe.onOk (Safe.of_uses (fun _ _ hrely h => h.stable hrely)
    (fun op world hop => hop.permitted .collector) ?_ huses hunseen)
  intro before op choice after reply hop hbefore hsem version hmem
  exact hbefore version (hop.remembered_eq hsem ▸ hmem)

theorem seen_of_marked {blob : Blob} {version : ℕ}
    (hsem : blobSem world (.updateStatus .marker blob .delete) choice =
      some (after, .ok (some version))) :
    after.Seen { blob with status := .delete, version := version } := by
  rcases perform_cases hsem with ⟨_, err, herr⟩ | ⟨rfl, hreply⟩
  · cases herr
  rcases updateStatus_cases world .marker blob .delete with h | ⟨row, _, _, h⟩
  · rw [h] at hreply
    cases hreply
  · rw [h] at hreply ⊢
    cases Except.ok.inj hreply
    exact mem_cons_self

theorem safe_markCandidates {blobs : List Blob} (hinv : BlobInv guarded id world)
    (hseen : ∀ blob ∈ blobs, world.Seen blob) :
    Safe guarded id .collector (OnOk fun deleteSet later => ∀ blob ∈ deleteSet, later.Seen blob)
      (markCandidates blobs) world := by
  induction blobs generalizing world with
  | nil => exact Safe.ok fun _ _ _ hblob => absurd hblob not_mem_nil
  | cons blob rest ih =>
    refine Safe.unlessStopped fun polled hpolled hpolledInv => ?_
    have hblob : polled.Seen blob := (hseen blob mem_cons_self).stable hpolled
    refine Safe.call (fun later hrely => ⟨rfl, hblob.stable hrely⟩) ?_
    intro later choice after updated hrely hlater hsem hafter
    have hrest : ∀ other ∈ rest, after.Seen other := by
      intro other hother
      have hlaterSeen : later.Seen other :=
        ((hseen other (mem_cons_of_mem _ hother)).stable hpolled).stable hrely
      rcases perform_cases hsem with ⟨rfl, _⟩ | ⟨rfl, _⟩
      · exact hlaterSeen
      · have hactor : Actor.Of .collector .marker := rfl
        exact (moves_updateStatus hactor blob .delete).grows hlaterSeen
    match updated, hsem with
    | .error err, _ | .ok none, _ => exact ih hafter hrest
    | .ok (some version), hsem =>
      -- the marked blob stays seen while the rest is marked
      have hmarked := seen_of_marked hsem
      refine Safe.andThen hafter (Safe.frame (ih hafter hrest)
        (forall_mem_singleton.mpr hmarked)) ?_
      rintro deleteSet last _ ⟨hset, hlast⟩
      refine Safe.ok fun final hfinal other hother => ?_
      rcases mem_cons.mp hother with rfl | hother
      · exact (hlast _ (mem_singleton_self _)).stable hfinal
      · exact (hset other hother).stable hfinal

theorem seen_of_snapshot {timeWindow : ℕ} {blobs : List Blob}
    (hsem : blobSem world (.snapshot timeWindow) choice = some (after, .ok blobs)) :
    ∀ blob ∈ blobs, after.Seen blob := by
  rcases perform_cases hsem with ⟨_, err, herr⟩ | ⟨rfl, hreply⟩
  · cases herr
  · cases hreply
    exact fun blob hblob => mem_append_left _ (mem_map.mpr ⟨blob, hblob, rfl⟩)

theorem safe_snapshot (timeWindow : ℕ) (hunseen : world.Unseen id) :
    Safe guarded id .collector (OnOk fun blobs later => ∀ blob ∈ blobs, later.Seen blob)
      (Op.snapshot timeWindow) world := by
  refine Safe.call (fun later hrely => ⟨rfl, hunseen.stable hrely⟩) ?_
  intro later choice after reply _ _ hsem _
  match reply, hsem with
  | .error err, _ => exact Safe.error err
  | .ok blobs, hsem =>
    exact Safe.ok fun last hlast blob hblob => (seen_of_snapshot hsem blob hblob).stable hlast

theorem safe_mark (fuel : ℕ) (hinv : BlobInv guarded id world) (hunseen : world.Unseen id) :
    Safe guarded id .collector (OnOk fun marked later => ∀ blob ∈ marked.2, later.Seen blob)
      (mark gc fuel) world := by
  refine Safe.andThen hinv (safe_preparing (uses_deletedArt gc) hunseen) ?_
  intro trashedArts trashed htrashed hunseen
  refine Safe.andThen htrashed (safe_preparing (uses_markOrSweepUntaggedBlobs gc fuel) hunseen) ?_
  intro _ cleaned hcleaned hunseen
  refine Safe.andThen hcleaned (safe_snapshot gc.timeWindow hunseen) ?_
  intro blobs later hlater hseen
  split_ifs
  · exact Safe.ok fun last hlast blob hblob => (hseen blob hblob).stable hlast
  · refine Safe.andThen hlater (safe_markCandidates hlater hseen) ?_
    intro deleteSet marked _ hset
    exact Safe.ok fun last hlast blob hblob => (hset blob hblob).stable hlast

theorem mem_of_mem_blobChunks {size : ℕ} {deleteSet chunk : List Blob} {blob : Blob}
    (hchunk : chunk ∈ blobChunks size deleteSet) (hblob : blob ∈ chunk) : blob ∈ deleteSet := by
  obtain ⟨index, _, rfl⟩ := mem_map.mp hchunk
  exact mem_of_mem_drop (mem_of_mem_take hblob)

theorem safe_sweep (trashedArts : List ArtifactTrash) {deleteSet : List Blob}
    (hseen : ∀ blob ∈ deleteSet, world.Seen blob) :
    Safe guarded id .collector (fun _ _ => True) (sweep gc trashedArts deleteSet) world := by
  unfold sweep
  split_ifs
  · exact fun _ _ _ => trivial
  cases divide deleteSet.length gc.workers with
  | error err => exact fun _ _ _ => trivial
  | ok size =>
    refine Safe.call (fun later hrely chunk hchunk blob hblob => ?_)
      fun _ _ _ _ _ _ _ _ _ _ _ => trivial
    exact (hseen blob (mem_of_mem_blobChunks hchunk hblob)).stable hrely

theorem safe_run (fuel : ℕ) (hinv : BlobInv guarded id world) (hunseen : world.Unseen id) :
    Safe guarded id .collector (fun _ _ => True) (gc.run fuel) world := by
  refine Safe.bind hinv (safe_preparing (uses_perform trivial) hunseen) ?_
  intro healthy later hlater hunseen
  match healthy with
  | .error err => exact fun _ _ _ => trivial
  | .ok () =>
    refine Safe.bind hlater (safe_mark gc fuel hlater hunseen) ?_
    intro result marked hmarked hpost
    match result, hpost with
    | .error err, _ =>
      show Safe _ _ _ _ (if _ then _ else _) _
      split_ifs <;> exact fun _ _ _ => trivial
    | .ok (trashedArts, deleteSet), hset =>
      split_ifs
      · exact fun _ _ _ => trivial
      · exact safe_sweep gc trashedArts hset

end Collection

/-! ## Workers -/

section Workers

variable {guarded : Prop} {id : ℕ} {world after : BlobWorld} {choice : BlobChoice}
  {worker : ℕ} {blob : Blob}

/-- What a worker may do without knowing anything. -/
def SweeperOp (worker : ℕ) : BlobOp → Prop
  | .updateStatus actor _ target => actor = .worker worker ∧ target = .deleteFailed
  | .deleteRow other _ => other = worker
  | .query | .ask | .poll | .deleteArtifactBlob _ => True
  | _ => False

theorem SweeperOp.permitted {op : BlobOp} (hop : SweeperOp worker op) :
    Permitted id (.sweeper worker) world op := by
  cases op with
  | updateStatus actor blob target =>
    obtain ⟨rfl, rfl⟩ := hop
    exact ⟨rfl, trivial⟩
  | deleteRow other blob =>
    obtain rfl : other = worker := hop
    rfl
  | query | ask | poll | deleteArtifactBlob => trivial
  | _ => exact hop.elim

theorem Safe.of_sweeperOp {α : Type} {program : BlobProgram α}
    (huses : program.Uses (SweeperOp worker)) :
    Safe guarded id (.sweeper worker) (fun _ _ => True) program world :=
  Safe.of_uses (fun _ _ _ h => h) (fun _ _ hop => hop.permitted) (fun _ _ _ _ _ _ h _ => h) huses
    trivial

theorem uses_markDeleteFailed (blob : Blob) :
    (markDeleteFailed worker blob).Uses (SweeperOp worker) := by
  refine ⟨⟨rfl, rfl⟩, fun updated => ?_⟩
  match updated with
  | .error err | .ok none | .ok (some version) => trivial

theorem uses_failDelete (blob : Blob) (err : BlobFailure) :
    (failDelete worker blob err).Uses (SweeperOp worker) := by
  refine (uses_markDeleteFailed blob).bind fun failed => ?_
  cases ignoreNotFound failed.2 with
  | error other => trivial
  | ok _ => exact uses_ite trivial trivial

theorem uses_deleteRecord (blob : Blob) : (deleteRecord worker blob).Uses (SweeperOp worker) := by
  have hrow : (Op.deleteRow worker blob).Uses (SweeperOp worker) := uses_perform rfl
  refine hrow.bind fun result => ?_
  cases ignoreNotFound result with
  | ok _ => trivial
  | error err =>
    refine (uses_markDeleteFailed blob).bind fun failed => ?_
    cases ignoreNotFound failed.2 <;> trivial

/-- The worker only deals with the manifest. -/
def Asking : BlobOp → Prop
  | .query | .ask | .poll | .deleteArtifactBlob _ => True
  | _ => False

theorem uses_retryCall {P : BlobOp → Prop} {call : BlobCall}
    (hpoll : P .poll) (hcall : call.Uses P) (cause : String) (fuel : ℕ) :
    (retryCall call cause fuel).Uses P := by
  induction fuel generalizing cause with
  | zero => trivial
  | succ fuel ih =>
    refine ⟨hpoll, fun (timeout : Bool) => uses_ite trivial (hcall.bind fun result => ?_)⟩
    cases ignoreNotFound result with
    | ok _ => trivial
    | error err => exact uses_ite trivial (ih _)

theorem uses_deleteManifest (gc : GarbageCollector) (fuel : ℕ) :
    (deleteManifest gc fuel).Uses Asking := by
  have hv2 : v2DeleteManifest.Uses Asking :=
    uses_andThen (uses_perform trivial) fun _ => uses_ite trivial (uses_perform trivial)
  refine uses_andThen (uses_ite (uses_retryCall trivial hv2 "" fuel) trivial) fun _ => ?_
  exact uses_retryCall trivial (uses_perform trivial) "" fuel

/-- Dealing with the manifest, a worker does not let go of the blob. -/
theorem safe_asking {α : Type} {program : BlobProgram α} (huses : program.Uses Asking)
    {skippedBlob : Bool} (hsweeps : skippedBlob = false → world.Sweeps id worker blob) :
    Safe guarded id (.sweeper worker)
      (fun _ later => skippedBlob = false → later.Sweeps id worker blob) program world := by
  refine Safe.of_uses (fun _ _ hrely h hskip => (h hskip).stable hrely) ?_ ?_ huses hsweeps
  · intro op later hop
    cases op <;> trivial
  · intro before op choice after reply hop hbefore hsem hskip
    cases op with
    | query | ask | poll =>
      cases hsem
      exact hbefore hskip
    | deleteArtifactBlob artifact =>
      rcases perform_cases hsem with ⟨rfl, _⟩ | ⟨rfl, _⟩
      · exact hbefore hskip
      · exact ⟨(hbefore hskip).sweeping, (hbefore hskip).swept⟩
    | _ => exact hop.elim

/-- After the loop over the artifacts the worker still sweeps a blob that is not skipped. -/
theorem safe_deleteArtifacts (gc : GarbageCollector) (fuel : ℕ) (arts : List ArtifactTrash)
    {skippedBlob : Bool} (hinv : BlobInv guarded id world)
    (hsweeps : skippedBlob = false → world.Sweeps id worker blob) :
    Safe guarded id (.sweeper worker)
      (OnOk fun swept later => swept.2 = false → later.Sweeps id worker swept.1)
      (deleteArtifacts gc worker fuel arts blob skippedBlob) world := by
  induction arts generalizing world blob skippedBlob with
  | nil => exact Safe.ok fun later hrely hskip => (hsweeps hskip).stable hrely
  | cons art rest ih =>
    refine Safe.bind hinv (safe_asking (uses_deleteManifest gc fuel) hsweeps) ?_
    intro result later hlater hsweeps
    match result with
    | .error err =>
      -- the blob is marked as failed, and the worker skips it from here on
      refine Safe.andThen hlater (Safe.of_sweeperOp (uses_failDelete blob err)).onOk ?_
      intro failed last hlast _
      exact ih hlast fun hskip => absurd hskip (by decide)
    | .ok () =>
      have hcleanup : (Op.deleteArtifactBlob art.digest).Uses Asking := uses_perform trivial
      refine Safe.bind hlater (safe_asking hcleanup hsweeps) ?_
      intro result cleaned hcleaned hsweeps
      match ignoreNotFound result with
      | .error err => exact Safe.error err
      | .ok () =>
        have htrash : Op.ask.Uses Asking := uses_perform trivial
        refine Safe.bind hcleaned (safe_asking htrash hsweeps) ?_
        intro result trashed htrashed hsweeps
        match ignoreNotFound result with
        | .error err => exact Safe.error err
        | .ok () => exact ih htrashed hsweeps

/-- A call that has failed leaves the blob with the worker. -/
theorem sweeps_of_deleteBlob_error {err : BlobFailure} (hsweeps : world.Sweeps id worker blob)
    (hsem : blobSem world (.deleteBlob worker blob) choice = some (after, .error err)) :
    after.Sweeps id worker blob := by
  obtain ⟨rfl, hreply⟩ := Prod.mk.inj (Option.some.inj hsem)
  have hfailure : ∃ err, choice.failure = some err := by
    cases hchoice : choice.failure with
    | some err => exact ⟨err, rfl⟩
    | none => simp [BlobChoice.reply, hchoice] at hreply
  obtain ⟨failure, hfailure⟩ := hfailure
  unfold BlobWorld.deleteBlob
  rw [hfailure]
  exact ⟨hsweeps.sweeping, fun hid => phase_swept_of_suffix (hsweeps.swept hid) (suffix_cons _ _)⟩

/-- The worker asks the registry, again and again, for a blob that it sweeps. -/
theorem safe_retryDelete (cause : String) (fuel : ℕ) (hsweeps : world.Sweeps id worker blob) :
    Safe guarded id (.sweeper worker) (fun _ _ => True)
      (retryCall (Op.deleteBlob worker blob) cause fuel) world := by
  induction fuel generalizing world cause with
  | zero => exact fun _ _ _ => trivial
  | succ fuel ih =>
    refine Safe.call (fun _ _ => trivial) fun polled choice after timeout hrely _ hsem _ => ?_
    obtain ⟨rfl, _⟩ := Prod.mk.inj (Option.some.inj hsem)
    have hpolled := hsweeps.stable hrely
    cases timeout with
    | true => exact fun _ _ _ => trivial
    | false =>
      refine Safe.call (fun later hlater => ⟨rfl, hpolled.stable hlater⟩) ?_
      intro later choice after reply hlater _ hsem _
      cases reply with
      | ok _ => exact fun _ _ _ => trivial
      | error err =>
        have hafter := sweeps_of_deleteBlob_error (hpolled.stable hlater) hsem
        simp only [Program.bind]
        cases ignoreNotFound (.error err) with
        | ok _ => exact fun _ _ _ => trivial
        | error err =>
          show Safe _ _ _ _ (if _ then _ else _) _
          split_ifs
          · exact fun _ _ _ => trivial
          · exact ih _ hafter

theorem safe_deleteFromStorage (fuel : ℕ) (hinv : BlobInv guarded id world)
    (hsweeps : world.Sweeps id worker blob) :
    Safe guarded id (.sweeper worker) (fun _ _ => True) (deleteFromStorage worker fuel blob)
      world := by
  unfold deleteFromStorage
  split_ifs
  · exact Safe.of_sweeperOp (uses_deleteRecord blob)
  · refine Safe.bind hinv (safe_retryDelete "" fuel hsweeps) fun result later _ _ => ?_
    match result with
    | .error err =>
      exact Safe.of_sweeperOp (uses_andThen (uses_failDelete blob err) fun _ => trivial)
    | .ok () => exact Safe.of_sweeperOp (uses_deleteRecord blob)

/-- A worker that has set a blob to deleting sweeps it: the blob has not escaped. -/
theorem sweeps_of_deleting (hinv : BlobInv guarded id world) (hseen : world.Seen blob)
    {version : ℕ} (hsem : blobSem world (.updateStatus (.worker worker) blob .deleting) choice =
      some (after, .ok (some version))) :
    after.Sweeps id worker { blob with status := .deleting, version := version } := by
  rcases perform_cases hsem with ⟨_, err, herr⟩ | ⟨rfl, hreply⟩
  · cases herr
  rcases updateStatus_cases world (.worker worker) blob .deleting with h | ⟨row, hrow, haccepts, h⟩
  · rw [h] at hreply
    cases hreply
  rw [h]
  refine ⟨by simp [BlobWorld.noteStatus], fun hid => ?_⟩
  obtain rfl : blob.id = id := hid
  have hversion := haccepts.version_eq (by decide)
  have hescaped : phase blob.id world.log ≠ .escaped := fun hphase =>
    absurd hversion (hinv.version_lt hphase blob.version row hseen hrow).ne'
  show (phase blob.id world.log).after blob.id (.deleting blob.id) = .swept
  cases hphase : phase blob.id world.log with
  | outside | candidate => simp [Phase.after]
  | escaped => exact absurd hphase hescaped
  | swept => rfl

theorem safe_sweepBlob (gc : GarbageCollector) (fuel : ℕ) (trashedArts : List ArtifactTrash)
    (hseen : world.Seen blob) :
    Safe guarded id (.sweeper worker) (OnOk fun _ _ => True)
      (sweepBlob gc worker fuel trashedArts blob) world := by
  refine Safe.unlessStopped fun polled hpolled _ => ?_
  have hpolledSeen := hseen.stable hpolled
  refine Safe.call (fun later hrely => ⟨rfl, hpolledSeen.stable hrely⟩) ?_
  intro later choice after updated hrely hlater hsem hafter
  match updated, hsem with
  | .error err, _ | .ok none, _ => exact Safe.ok fun _ _ => trivial
  | .ok (some version), hsem =>
    have hsweeps := sweeps_of_deleting hlater (hpolledSeen.stable hrely) hsem
    refine Safe.andThen hafter (safe_deleteArtifacts gc fuel _ hafter fun _ => hsweeps) ?_
    rintro ⟨swept, skippedBlob⟩ last hlast hswept
    cases skippedBlob with
    | true => exact Safe.ok fun _ _ => trivial
    | false => exact (safe_deleteFromStorage fuel hlast (hswept rfl)).onOk

theorem safe_sweepWorker (gc : GarbageCollector) (fuel : ℕ) :
    Safe guarded id (.sweeper worker) (fun _ _ => True) (sweepWorker gc worker fuel) world := by
  refine Safe.call (fun _ _ => trivial) fun later choice after plan _ hlater hsem _ => ?_
  obtain ⟨published, hpublished, heq⟩ := Option.map_eq_some_iff.mp hsem
  obtain ⟨rfl, rfl⟩ := Prod.mk.inj heq
  have hchunk : ∀ blob ∈ (published.chunks[worker]?).getD [], later.Seen blob := by
    intro blob hblob
    cases hget : published.chunks[worker]? with
    | none => simp [hget] at hblob
    | some chunk =>
      rw [hget] at hblob
      exact hlater.planned published hpublished chunk (mem_of_getElem? hget) blob hblob
  refine Secured.mono (fun _ _ _ _ => trivial) (Safe.forEach
    (fun later => ∀ blob ∈ (published.chunks[worker]?).getD [], later.Seen blob)
    (fun _ _ hrely h blob hblob => (h blob hblob).stable hrely) ?_ hlater hchunk)
  intro blob hblob last hlast hseen
  refine Secured.mono (fun result _ _ hpost => ?_)
    (Safe.frame (safe_sweepBlob gc fuel published.trashedArts (hseen blob hblob)) hseen)
  cases result with
  | error err => trivial
  | ok _ => exact hpost.2

end Workers

end Harbor.Blobs
