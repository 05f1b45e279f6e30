import Harbor.Blobs.Safety

/-!
# Requests and a collection side by side

The threads are the clients, one collection with its workers, and the clock.  Only
the collection adds to what it has seen, and only a worker changes what it sweeps
itself; that is all that a thread has to know about the others (`Tolerates`).

`blob_step` says once what an operation needs and keeps.  The programs are then
checked one by one: the requests need nothing, the collection knows that it has
seen the blobs that it marks, and a worker knows that it sweeps the blob that it
deletes.
-/

namespace Harbor.Blobs

open Harbor.Concurrency List

/-! ## Threads -/

inductive BlobThread
  | client (index : ℕ)
  | collector
  | sweeper (index : ℕ)
  | clock
  deriving DecidableEq

/-- What a step of the thread does to the other threads. -/
structure Moves (thread : BlobThread) (before after : BlobWorld) : Prop where
  remembered : thread ≠ .collector → after.remembered = before.remembered
  grows : before.remembered ⊆ after.remembered
  sweeping : ∀ worker, thread ≠ .sweeper worker → after.sweeping worker = before.sweeping worker
  log : before.log <:+ after.log

/-- What the steps of the others do to the thread. -/
structure Tolerates (thread : BlobThread) (before after : BlobWorld) : Prop where
  remembered : thread = .collector → after.remembered = before.remembered
  grows : before.remembered ⊆ after.remembered
  sweeping : ∀ worker, thread = .sweeper worker → after.sweeping worker = before.sweeping worker
  log : before.log <:+ after.log

section Threads

variable {guarded : Prop} {thread : BlobThread} {id : ℕ} {world after : BlobWorld} {blob : Blob}

theorem Moves.refl (thread : BlobThread) (world : BlobWorld) : Moves thread world world :=
  ⟨fun _ => rfl, fun _ h => h, fun _ _ => rfl, suffix_rfl⟩

/-- A step that leaves alone what belongs to the collection. -/
theorem Moves.frame (hremembered : after.remembered = world.remembered)
    (hsweeping : after.sweeping = world.sweeping) (hlog : world.log <:+ after.log) :
    Moves thread world after :=
  ⟨fun _ => hremembered, fun _ h => hremembered ▸ h, fun _ _ => by rw [hsweeping], hlog⟩

theorem Tolerates.refl (thread : BlobThread) (world : BlobWorld) : Tolerates thread world world :=
  ⟨fun _ => rfl, fun _ h => h, fun _ _ => rfl, suffix_rfl⟩

theorem tolerates_compatible : Pool.Compatible (BlobInv guarded id) Tolerates Moves where
  refl := Tolerates.refl
  trans _ _ _ _ first second :=
    ⟨fun h => (second.remembered h).trans (first.remembered h),
      fun _ h => second.grows (first.grows h),
      fun worker h => (second.sweeping worker h).trans (first.sweeping worker h),
      first.log.trans second.log⟩
  guar_rely _ _ _ _ hne _ _ hmoves :=
    ⟨fun h => hmoves.remembered fun h' => hne (h'.trans h.symm), hmoves.grows,
      fun worker h => hmoves.sweeping worker fun h' => hne (h'.trans h.symm), hmoves.log⟩

theorem BlobWorld.Unseen.stable (hunseen : world.Unseen id)
    (hrely : Tolerates .collector world after) : after.Unseen id :=
  fun version hmem => hunseen version (hrely.remembered rfl ▸ hmem)

theorem BlobWorld.Seen.stable (hseen : world.Seen blob) (hrely : Tolerates thread world after) :
    after.Seen blob :=
  hrely.grows hseen

theorem BlobWorld.Sweeps.stable {worker : ℕ} (hsweeps : world.Sweeps id worker blob)
    (hrely : Tolerates (.sweeper worker) world after) : after.Sweeps id worker blob :=
  ⟨(hrely.sweeping worker rfl).trans hsweeps.sweeping,
    fun hid => phase_swept_of_suffix (hsweeps.swept hid) hrely.log⟩

end Threads

/-! ## What an operation needs and keeps -/

/-- The condition on the runs: the row of the blob is not overwritten once the collection
has seen it, and if `guarded`, no reference to it is added while the collection holds it. -/
def BlobAllowed (guarded : Prop) (id : ℕ) (world : BlobWorld) : BlobOp → BlobChoice → Prop
  | .createBlob digest _, _ => world.Spares id digest
  | .commitUpload _ digest found, _ =>
    (found = none → world.Spares id digest) ∧
      (guarded → found.getD (world.createBlob digest "application/octet-stream").2 = id →
        ¬ world.Held id)
  | .createProjectBlob _ other, _ => guarded → other = id → ¬ world.Held id
  | _, _ => True

/-- Whose update of a status it is. -/
def Actor.Of (thread : BlobThread) : Actor → Prop
  | .client => True
  | .marker => thread = .collector
  | .worker index => thread = .sweeper index

/-- What has to be known for an update of a status. -/
def Actor.Knows (world : BlobWorld) (blob : Blob) : Actor → BlobStatus → Prop
  | .client, _ => True
  | .marker, .delete => world.Seen blob
  | .worker _, .deleting => world.Seen blob
  | .worker _, .deleteFailed => True
  | _, _ => False

/-- What a thread has to know to perform an operation. -/
def Permitted (id : ℕ) (thread : BlobThread) (world : BlobWorld) : BlobOp → Prop
  | .updateStatus actor blob target => actor.Of thread ∧ actor.Knows world blob target
  | .snapshot _ => thread = .collector ∧ world.Unseen id
  | .publish plan => ∀ chunk ∈ plan.chunks, ∀ blob ∈ chunk, world.Seen blob
  | .deleteBlob worker blob => thread = .sweeper worker ∧ world.Sweeps id worker blob
  | .deleteRow worker _ => thread = .sweeper worker
  | _ => True

section Operations

variable {guarded : Prop} {thread : BlobThread} {id : ℕ} {world after : BlobWorld}
  {choice : BlobChoice} {α : Type} {done : BlobWorld × Except BlobFailure α}
  {reply : Except BlobFailure α} {actor : Actor} {blob : Blob}

theorem perform_cases (hsem : some (choice.perform world done) = some (after, reply)) :
    (after = world ∧ ∃ err, reply = .error err) ∨ (after = done.1 ∧ reply = done.2) := by
  unfold BlobChoice.perform at hsem
  cases hfailure : choice.failure with
  | some err =>
    rw [hfailure] at hsem
    cases hsem
    exact .inl ⟨rfl, err, rfl⟩
  | none =>
    rw [hfailure] at hsem
    cases hsem
    exact .inr ⟨rfl, rfl⟩

theorem perform_keeps (h : BlobInv guarded id world)
    (hsem : some (choice.perform world done) = some (after, reply))
    (hdone : BlobInv guarded id done.1 ∧ Moves thread world done.1) :
    BlobInv guarded id after ∧ Moves thread world after := by
  rcases perform_cases hsem with ⟨rfl, _⟩ | ⟨rfl, _⟩
  · exact ⟨h, Moves.refl _ _⟩
  · exact hdone

open Moves

theorem moves_updateStatus (hactor : actor.Of thread) (blob : Blob) (target : BlobStatus) :
    Moves thread world (world.updateStatus actor blob target).1 := by
  rcases updateStatus_cases world actor blob target with h | ⟨row, _, _, h⟩
  · rw [h]
    exact Moves.refl _ _
  rw [h]
  cases actor with
  | client =>
    cases target with
    | none => exact frame rfl rfl (suffix_cons _ _)
    | delete | deleting | deleteFailed => exact frame rfl rfl suffix_rfl
  | marker =>
    obtain rfl : thread = .collector := hactor
    cases target with
    | delete =>
      exact ⟨fun hne => absurd rfl hne, fun _ hmem => mem_cons_of_mem _ hmem,
        fun _ _ => rfl, suffix_rfl⟩
    | none | deleting | deleteFailed => exact frame rfl rfl suffix_rfl
  | worker worker =>
    obtain rfl : thread = .sweeper worker := hactor
    have hother : ∀ {value : Option ℕ} other, BlobThread.sweeper worker ≠ .sweeper other →
        Function.update world.sweeping worker value other = world.sweeping other := by
      intro value other hne
      exact Function.update_of_ne (fun heq => hne (by rw [heq])) _ _
    cases target with
    | deleting => exact ⟨fun _ => rfl, fun _ hmem => hmem, hother, suffix_cons _ _⟩
    | deleteFailed => exact ⟨fun _ => rfl, fun _ hmem => hmem, hother, suffix_rfl⟩
    | none | delete => exact frame rfl rfl suffix_rfl

theorem moves_release (worker : ℕ) : Moves (.sweeper worker) world (world.release worker) := by
  refine ⟨fun _ => rfl, fun _ hmem => hmem, fun other hne => ?_, suffix_rfl⟩
  exact Function.update_of_ne (fun heq => hne (by rw [heq])) _ _

theorem BlobInv.updateStatus (h : BlobInv guarded id world) {target : BlobStatus}
    (hknows : actor.Knows world blob target) :
    BlobInv guarded id (world.updateStatus actor blob target).1 := by
  cases actor with
  | client => exact h.advance (advance_client world blob target)
  | marker =>
    cases target with
    | delete => exact h.marked hknows
    | none | deleting | deleteFailed => exact hknows.elim
  | worker worker =>
    cases target with
    | deleting => exact h.advance (advance_deleting h worker hknows)
    | deleteFailed => exact h.advance (advance_markDeleteFailed world worker blob)
    | none | delete => exact hknows.elim

theorem BlobInv.commitUpload (h : BlobInv guarded id world) {project : ℕ} {digest : Digest}
    {found : Option ℕ}
    (hallowed : BlobAllowed guarded id world (.commitUpload project digest found) choice) :
    BlobInv guarded id (world.commitUpload project digest found) := by
  cases found with
  | some other => exact h.advance (advance_createProjectBlob project hallowed.2)
  | none =>
    have hcreated := advance_createBlob h (hallowed.1 rfl) "application/octet-stream"
    exact (h.advance hcreated).advance (advance_createProjectBlob project
      fun hguarded heq hheld => hallowed.2 hguarded heq (h.held_of_advance hcreated hheld))

theorem createBlob_frame (world : BlobWorld) (digest : Digest) (contentType : String) :
    (world.createBlob digest contentType).1.remembered = world.remembered ∧
      (world.createBlob digest contentType).1.sweeping = world.sweeping ∧
      (world.createBlob digest contentType).1.log = world.log := by
  unfold BlobWorld.createBlob
  cases world.getByDigest digest <;> exact ⟨rfl, rfl, rfl⟩

theorem moves_createBlob (digest : Digest) (contentType : String) :
    Moves thread world (world.createBlob digest contentType).1 := by
  obtain ⟨hremembered, hsweeping, hlog⟩ := createBlob_frame world digest contentType
  exact frame hremembered hsweeping (hlog ▸ suffix_rfl)

theorem moves_commitUpload (project : ℕ) (digest : Digest) (found : Option ℕ) :
    Moves thread world (world.commitUpload project digest found) := by
  cases found with
  | some other => exact frame rfl rfl suffix_rfl
  | none =>
    obtain ⟨hremembered, hsweeping, hlog⟩ :=
      createBlob_frame world digest "application/octet-stream"
    exact frame hremembered hsweeping
      (show world.log <:+ (world.createBlob digest _).1.log from hlog ▸ suffix_rfl)

theorem BlobInv.deleteBlob (h : BlobInv guarded id world) {worker : ℕ}
    (hsweeps : world.Sweeps id worker blob) :
    BlobInv guarded id (world.deleteBlob worker blob choice) := by
  have hcalled := h.advance (advance_callDeleteBlob h hsweeps)
  unfold BlobWorld.deleteBlob
  cases choice.failure with
  | some err => exact hcalled
  | none => exact hcalled.advance (advance_release _ worker)

theorem moves_deleteBlob (worker : ℕ) (blob : Blob) :
    Moves (.sweeper worker) world (world.deleteBlob worker blob choice) := by
  unfold BlobWorld.deleteBlob
  cases choice.failure with
  | some err => exact frame rfl rfl (suffix_cons _ _)
  | none =>
    have hreleased := @moves_release (world.callDeleteBlob blob) worker
    exact ⟨fun _ => rfl, fun _ hmem => hmem, hreleased.sweeping, suffix_cons _ _⟩

theorem moves_deleteRow (worker : ℕ) (blob : Blob) :
    Moves (.sweeper worker) world (world.deleteRow worker blob).1 := by
  have hreleased := @moves_release world worker
  unfold BlobWorld.deleteRow
  cases world.rows blob.id with
  | none => exact hreleased
  | some row => exact ⟨fun _ => rfl, fun _ hmem => hmem, hreleased.sweeping, suffix_rfl⟩

/-- **Operations.**  An operation that is permitted and allowed keeps the invariant, and
moves the world only as its thread may. -/
theorem blob_step (h : BlobInv guarded id world) {op : BlobOp} {reply : BlobReply op}
    (hallowed : BlobAllowed guarded id world op choice) (hpermitted : Permitted id thread world op)
    (hsem : blobSem world op choice = some (after, reply)) :
    BlobInv guarded id after ∧ Moves thread world after := by
  have hframe : ∀ {next : BlobWorld}, Advance guarded id world next →
      next.sweeping = world.sweeping → next.log = world.log →
      BlobInv guarded id next ∧ Moves thread world next :=
    fun hadvance hsweeping hlog => ⟨h.advance hadvance,
      frame hadvance.remembered hsweeping (hlog ▸ suffix_rfl)⟩
  cases op with
  | get | list | listProject | existsArtifact | now | ask | query | associations | trash | poll =>
    cases hsem
    exact ⟨h, Moves.refl _ _⟩
  | tick =>
    cases hsem
    exact hframe (Advance.frame rfl le_rfl rfl rfl (fun _ h => h) rfl (advances_of_eq rfl)) rfl rfl
  | updateStatus actor blob target =>
    exact perform_keeps h hsem
      ⟨h.updateStatus hpermitted.2, moves_updateStatus hpermitted.1 blob target⟩
  | updateBlobs blobs =>
    exact perform_keeps h hsem (hframe (advance_updateBlobs world blobs) rfl rfl)
  | createBlob digest contentType =>
    exact perform_keeps h hsem
      ⟨h.advance (advance_createBlob h hallowed contentType), moves_createBlob _ _⟩
  | commitUpload project digest found =>
    exact perform_keeps h hsem ⟨h.commitUpload hallowed, moves_commitUpload _ _ _⟩
  | createProjectBlob project other =>
    exact perform_keeps h hsem (hframe (advance_createProjectBlob project hallowed) rfl rfl)
  | deleteProjectBlob project ids =>
    exact perform_keeps h hsem (hframe (advance_deleteProjectBlob world project ids) rfl rfl)
  | createArtifactBlob | deleteArtifactBlob =>
    exact perform_keeps h hsem (hframe
      (Advance.frame rfl le_rfl rfl rfl (fun _ h => h) rfl (advances_of_eq rfl)) rfl rfl)
  | snapshot timeWindow =>
    obtain ⟨rfl, hunseen⟩ := hpermitted
    exact perform_keeps h hsem ⟨h.snapshot hunseen timeWindow, fun hne => absurd rfl hne,
      fun _ hmem => mem_append_right _ hmem, fun _ _ => rfl, suffix_cons _ _⟩
  | publish plan =>
    cases hsem
    refine ⟨⟨h.id_lt, h.version_le, h.version_lt, h.outside, h.orderly, ?_, h.unreferenced,
      h.deleted⟩, frame rfl rfl suffix_rfl⟩
    intro plan' hplan
    cases hplan
    exact hpermitted
  | takePlan =>
    obtain ⟨plan, _, heq⟩ := Option.map_eq_some_iff.mp hsem
    obtain ⟨rfl, _⟩ := Prod.mk.inj heq
    exact ⟨h, Moves.refl _ _⟩
  | deleteBlob worker blob =>
    obtain ⟨rfl, hsweeps⟩ := hpermitted
    cases hsem
    exact ⟨h.deleteBlob hsweeps, moves_deleteBlob worker blob⟩
  | deleteRow worker blob =>
    obtain rfl := hpermitted
    exact perform_keeps h hsem ⟨h.deleteRow worker blob, moves_deleteRow worker blob⟩

end Operations

end Harbor.Blobs
