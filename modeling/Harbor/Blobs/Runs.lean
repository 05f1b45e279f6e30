import Harbor.Blobs.ProgramSafety

/-!
# Runs of requests and a collection

One collection with its workers, any number of requests and the clock, in any
order.  A blob that is touched after the snapshot of the collection and before it
is set to deleting escapes the collection.  A reference that is added without a
touch does not help: a mount during the collection leaves the project with a blob
that is deleted from the storage.
-/

namespace Harbor.Blobs

open Harbor.Concurrency Pool

/-! ## The system -/

/-- The clock goes on a number of times. -/
def tickClock : ℕ → BlobCall
  | 0 => .ret (.ok ())
  | ticks + 1 => .call BlobOp.tick fun _ => tickClock ticks

/-- What the threads do: the requests of the clients, with their ids and the window of the
middlewares, the collection, and what bounds the loops. -/
structure BlobSystem where
  gc : GarbageCollector := {}
  timeWindow : ℕ := 2
  requestId : ℕ → String := fun _ => ""
  request : ℕ → Request
  fuel : ℕ := 1
  ticks : ℕ := 0

variable (system : BlobSystem)

def BlobSystem.pool (world : BlobWorld) :
    Pool BlobWorld BlobOp BlobReply BlobThread (Except BlobFailure Unit) where
  world := world
  threads
    | .client index =>
      (system.request index).program system.timeWindow (system.requestId index) system.fuel
    | .collector => system.gc.run system.fuel
    | .sweeper index => sweepWorker system.gc index system.fuel
    | .clock => tickClock system.ticks

/-- No collection has started; the tables are arbitrary. -/
structure BlobWorld.Idle (world : BlobWorld) : Prop where
  remembered : world.remembered = []
  sweeping : ∀ worker, world.sweeping worker = none
  log : world.log = []
  plan : world.plan = none

section System

variable {guarded : Prop} {id : ℕ} {world : BlobWorld}

theorem BlobWorld.Idle.unseen (hidle : world.Idle) : world.Unseen id := by
  intro version hmem
  rw [hidle.remembered] at hmem
  exact List.not_mem_nil hmem

theorem BlobWorld.Idle.inv (hidle : world.Idle) : BlobInv guarded id world where
  id_lt version hmem := absurd hmem (hidle.unseen version)
  version_le version _ hmem := absurd hmem (hidle.unseen version)
  version_lt _ version _ hmem := absurd hmem (hidle.unseen version)
  outside _ := by rw [hidle.log]; rfl
  orderly := by rw [hidle.log]; trivial
  planned plan hplan := by rw [hidle.plan] at hplan; cases hplan
  unreferenced := by
    rintro _ (⟨version, _, hmem, _⟩ | ⟨worker, hworker⟩)
    · exact absurd hmem (hidle.unseen version)
    · rw [hidle.sweeping] at hworker
      cases hworker
  deleted _ := by rw [hidle.log]; exact List.not_mem_nil

theorem uses_tickClock (ticks : ℕ) : (tickClock ticks).Uses Free := by
  induction ticks with
  | zero => trivial
  | succ ticks ih => exact ⟨fun _ _ _ => trivial, fun _ => ih⟩

theorem BlobSystem.secured (hidle : world.Idle) :
    Pool.IsSecured blobSem (BlobAllowed guarded id) (BlobInv guarded id) Tolerates Moves
      (fun _ _ _ => True) (system.pool world) := by
  refine ⟨hidle.inv, fun thread => ?_⟩
  cases thread with
  | client index => exact Safe.of_free (uses_request _ _ _ (system.request index))
  | collector => exact safe_run system.gc system.fuel hidle.inv hidle.unseen
  | sweeper index => exact safe_sweepWorker system.gc system.fuel
  | clock => exact Safe.of_free (uses_tickClock system.ticks)

end System

/-! ## How a request brings a blob back -/

/-- The operation is a touch of a blob with this digest, and it has worked. -/
def IsTouch (digest : Digest) : (op : BlobOp) → BlobReply op → Prop
  | .updateStatus .client blob .none, reply => blob.digest = digest ∧
      ∃ version, reply = (.ok (some version) : Except BlobFailure (Option ℕ))
  | _, _ => False

/-- The operation has asked for this digest and found no row. -/
def IsMiss (digest : Digest) : (op : BlobOp) → BlobReply op → Prop
  | .get other, reply => other = digest ∧
      ∀ blob, reply ≠ (.ok (some blob) : Except BlobFailure (Option Blob))
  | _, _ => False

section Ends

variable {world after : BlobWorld} {choice : BlobChoice} {op : BlobOp} {reply : BlobReply op}

theorem digest_of_get {digest : Digest} {blob : Blob}
    (hsem : blobSem world (.get digest) choice = some (after, .ok (some blob))) :
    blob.digest = digest := by
  have hreply : choice.reply (world.getByDigest digest) = .ok (some blob) :=
    (Prod.mk.inj (Option.some.inj hsem)).2
  unfold BlobChoice.reply at hreply
  cases hfailure : choice.failure with
  | some err =>
    rw [hfailure] at hreply
    cases hreply
  | none =>
    rw [hfailure] at hreply
    simpa using List.find?_some (Except.ok.inj hreply)

/-- The program returns no error only right after an operation with `P`. -/
def EndsOk (P : (op : BlobOp) → BlobReply op → Prop) :
    BlobCall → (Except BlobFailure Unit → Prop) → Prop :=
  Program.Ends blobSem fun op reply result => result = .ok () → P op reply

variable {digest : Digest} {blob : Blob} {P : (op : BlobOp) → BlobReply op → Prop}
  {Last : Except BlobFailure Unit → Prop}

theorem endsOk_error (err : BlobFailure) :
    EndsOk P (.ret (.error err)) fun result => result = .ok () → P op reply := by
  intro hok
  cases hok

/-- What it takes for a program that starts with `Controller.Get`: the answer is a blob
with the digest or a miss. -/
theorem endsOk_controllerGet
    {rest : Except BlobFailure Blob → BlobCall}
    (hempty : EndsOk P (rest (.error ⟨.badRequest, "require digest"⟩)) Last)
    (hmiss : ∀ reply err, IsMiss digest (.get digest) reply →
      EndsOk P (rest (.error err)) fun result => result = .ok () → P (.get digest) reply)
    (hfound : ∀ blob reply, blob.digest = digest →
      EndsOk P (rest (.ok blob)) fun result => result = .ok () → P (.get digest) reply) :
    EndsOk P (controllerGet digest >>= rest) Last := by
  unfold controllerGet
  split_ifs
  · exact hempty
  · intro world choice after reply hsem
    match reply, hsem with
    | .error err, _ => exact hmiss (.error err) err ⟨rfl, fun _ h => by cases h⟩
    | .ok none, _ => exact hmiss (.ok none) _ ⟨rfl, fun _ h => by cases h⟩
    | .ok (some blob), hsem => exact hfound blob _ (digest_of_get hsem)

theorem endsOk_touch (requestId : String) (hdigest : blob.digest = digest)
    (hP : ∀ op reply, IsTouch digest op reply → P op reply) :
    EndsOk P (withRequestId requestId (touch blob)) Last := by
  intro world choice after reply _
  match reply with
  | .error err | .ok none => exact endsOk_error _
  | .ok (some version) => exact fun _ => hP _ _ ⟨hdigest, version, rfl⟩

variable (timeWindow : ℕ)

theorem endsOk_failIfOld (requestId : String) {program : BlobCall}
    (hprogram : ∀ op reply, EndsOk P program fun result => result = .ok () → P op reply) :
    EndsOk P (failIfOld timeWindow requestId blob program) Last := by
  intro world choice after (now : ℕ) _
  show EndsOk P (if blob.updateTime + timeWindow < now then _ else _) _
  split_ifs
  · intro world choice after reply _
    match reply with
    | .error err | .ok none => exact endsOk_error _
    | .ok (some version) => exact hprogram _ _
  · exact endsOk_error _

theorem endsOk_headFound (requestId : String) (hdigest : blob.digest = digest) :
    EndsOk (IsTouch digest) (headFound timeWindow requestId blob)
      fun result => result = .ok () → IsTouch digest op reply := by
  unfold headFound
  cases blob.status with
  | none | delete => exact endsOk_touch requestId hdigest fun _ _ htouch => htouch
  | deleting => exact endsOk_failIfOld timeWindow requestId fun _ _ => endsOk_error _
  | deleteFailed => exact endsOk_error _

/-- `handleHead` returns no error only right after a touch of the blob that has worked. -/
theorem endsOk_handleHead (requestId : String) (digest : Digest) :
    EndsOk (IsTouch digest) (handleHead timeWindow requestId (some digest)) fun _ => True :=
  endsOk_controllerGet trivial (fun _ err _ => endsOk_error err) fun _ _ hdigest =>
    endsOk_headFound timeWindow requestId hdigest

/-- `probeBlob` returns no error only right after a touch of the blob that has worked, or
after it has found no row. -/
theorem endsOk_probeBlob (requestId : String) (digest : Digest) (fuel : ℕ)
    (hLast : ∀ err, Last (.error err)) :
    EndsOk (fun op reply => IsTouch digest op reply ∨ IsMiss digest op reply)
      (probeBlob timeWindow requestId digest fuel) Last := by
  induction fuel generalizing Last with
  | zero => exact hLast _
  | succ fuel ih =>
    refine endsOk_controllerGet (hLast _) ?_ ?_
    · intro reply err hmiss
      show EndsOk _ (if err.isNotFound then _ else _) _
      split_ifs
      · exact fun _ => .inr hmiss
      · exact endsOk_error err
    · intro blob reply hdigest
      show EndsOk _ (probeFound timeWindow requestId _ blob) _
      unfold probeFound
      cases blob.status with
      | none | delete | deleteFailed =>
        exact endsOk_touch requestId hdigest fun _ _ htouch => .inl htouch
      | deleting =>
        refine endsOk_failIfOld timeWindow requestId fun _ _ => ih fun err hok => ?_
        cases hok

end Ends

/-! ## A touched blob escapes -/

section Runs

variable {world after : BlobWorld} {choice : BlobChoice}

/-- A blob with the digest was brought back: its row was not being deleted, and is none
with a new version now. -/
def BroughtBack (digest : Digest) (before after : BlobWorld) : Prop :=
  ∃ (blob : Blob) (row : BlobRow), blob.digest = digest ∧ before.rows blob.id = some row ∧
    row.status ≠ .deleting ∧ after.rows blob.id = some (row.moveTo .none before.clock) ∧
    after.log = .touched blob.id :: before.log

theorem touch_of_deleting {blob : Blob} {row : BlobRow} (hrow : world.rows blob.id = some row)
    (hdeleting : row.status = .deleting) :
    world.updateStatus .client blob .none = (world, none) := by
  rcases updateStatus_cases world .client blob .none with h | ⟨other, hother, haccepts, _⟩
  · exact h
  · cases hrow.symm.trans hother
    have hstatus := haccepts.2
    rw [hdeleting] at hstatus
    simp [statusMap] at hstatus

theorem broughtBack_of_isTouch {digest : Digest} {op : BlobOp} {reply : BlobReply op}
    (htouch : IsTouch digest op reply) (hsem : blobSem world op choice = some (after, reply)) :
    BroughtBack digest world after := by
  cases op with
  | updateStatus actor blob target =>
    cases actor with
    | client =>
      cases target with
      | none =>
        obtain ⟨hdigest, version, rfl⟩ := htouch
        rcases perform_cases hsem with ⟨_, err, herr⟩ | ⟨rfl, hreply⟩
        · cases herr
        rcases updateStatus_cases world .client blob .none with h | ⟨row, hrow, haccepts, h⟩
        · rw [h] at hreply
          cases hreply
        · refine ⟨blob, row, hdigest, hrow, fun hdeleting => ?_, ?_, ?_⟩
          · rw [touch_of_deleting hrow hdeleting] at hreply
            cases hreply
          · rw [h]
            simp [BlobWorld.setRow]
          · rw [h]
            rfl
      | delete | deleting | deleteFailed => exact htouch.elim
    | marker | worker => exact htouch.elim
  | _ => exact htouch.elim

/-- What is known of the last step of a thread: a `HEAD` that succeeds is a touch. -/
def LastStep : BlobThread → (op : BlobOp) → BlobReply op →
    Except BlobFailure Unit → Prop
  | .client index, op, reply, result => ∀ digest, system.request index = .head (some digest) →
      result = .ok () → IsTouch digest op reply
  | _, _, _, _ => True

theorem BlobSystem.ends (world : BlobWorld) (thread : BlobThread) :
    ((system.pool world).threads thread).Ends blobSem (LastStep system thread)
      fun _ => True := by
  cases thread with
  | client index =>
    by_cases hhead : ∃ digest, system.request index = .head (some digest)
    · obtain ⟨digest, hrequest⟩ := hhead
      have hends := endsOk_handleHead system.timeWindow (system.requestId index) digest
      show (Request.program _ _ _ (system.request index)).Ends _ _ _
      rw [hrequest]
      refine Program.Ends.mono (fun op reply result htouch other hother => ?_) (fun _ h => h) hends
      obtain rfl : digest = other := by simpa [hrequest] using hother
      exact htouch
    · refine Program.ends_of_forall (fun op reply result digest hrequest => ?_)
        (fun _ => trivial) _
      exact absurd ⟨digest, hrequest⟩ hhead
  | collector | sweeper | clock =>
    exact Program.ends_of_forall (fun _ _ _ => trivial) (fun _ => trivial) _

variable {system : BlobSystem} {id : ℕ} {actions : List (BlobThread × BlobChoice)}
  {final : Pool BlobWorld BlobOp BlobReply BlobThread (Except BlobFailure Unit)}

/-- If no row that the collection has seen for the blob is overwritten, then a blob that is
touched after the snapshot and before it is set to deleting is neither set to deleting nor
deleted from the storage later.  A `HEAD` succeeds only by such a touch, of a row that is
not being deleted, and so does `probeBlob` unless it has found no row; a touch leaves a
row that is being deleted as it is. -/
theorem touched_blob_escapes (hidle : world.Idle)
    (hspares : EveryStep (Pool.step blobSem) (Pool.Admits (BlobAllowed False id))
      (system.pool world) actions)
    (hrun : exec (Pool.step blobSem) (system.pool world) actions = some final) :
    (∀ later middle ids earlier,
      final.world.log = later ++ .touched id :: (middle ++ .snapshot ids :: earlier) →
      id ∈ ids → .deleting id ∉ middle →
        .deleting id ∉ later ∧ ∀ referenced, .deleteBlob id referenced ∉ later) ∧
    EveryStep (Pool.step blobSem) (fun before action after => ∀ index digest,
      action.1 = .client index → system.request index = .head (some digest) →
      after.threads action.1 = .ret (.ok ()) → BroughtBack digest before.world after.world)
      (system.pool world) actions ∧
    (∀ requestId digest fuel,
      EndsOk (fun op reply => IsTouch digest op reply ∨ IsMiss digest op reply)
        (probeBlob system.timeWindow requestId digest fuel) fun result => result ≠ .ok ()) ∧
    ∀ (state : BlobWorld) (blob : Blob) (row : BlobRow), state.rows blob.id = some row →
      row.status = .deleting → state.updateStatus .client blob .none = (state, none) := by
  have hinv := (secured_exec tolerates_compatible (system.secured hidle) hspares hrun).1
  refine ⟨fun later middle ids earlier hlog hid hmiddle => ?_, ?_, ?_, ?_⟩
  · have horderly := hinv.orderly
    rw [hlog] at horderly
    have houtside : phase id earlier = .outside := (horderly.of_append.2.of_append).1 hid
    have hseen := phase_of_seen hid houtside hmiddle
    refine horderly.spares ?_
    rcases hseen with h | h <;> simp [h, Phase.after]
  · refine (ends_exec fun thread => ⟨_, system.ends world thread⟩).mono ?_
    rintro before ⟨thread, choice⟩ after hends index digest rfl hrequest hreturns
    obtain ⟨op, reply, hsem, hlast⟩ := hends _ hreturns
    exact broughtBack_of_isTouch (hlast digest hrequest rfl) hsem
  · intro requestId digest fuel
    refine endsOk_probeBlob system.timeWindow requestId digest fuel fun err hok => ?_
    cases hok
  · exact fun state blob row hrow hdeleting => touch_of_deleting hrow hdeleting

/-! ## What is deleted is not referenced -/

/-- If no reference to the blob is added while the collection holds it, and no row that the
collection has seen for it is overwritten, then the blob is never deleted from the storage
while a project refers to it. -/
theorem deleteBlob_unreferenced (hidle : world.Idle)
    (hguarded : EveryStep (Pool.step blobSem) (Pool.Admits (BlobAllowed True id))
      (system.pool world) actions)
    (hrun : exec (Pool.step blobSem) (system.pool world) actions = some final) :
    .deleteBlob id true ∉ final.world.log :=
  (secured_exec tolerates_compatible (system.secured hidle) hguarded hrun).1.deleted trivial

end Runs

/-! ## Concrete runs -/

/-- A layer that no project refers to any more, old enough to be collected. -/
def orphanLayer : BlobWorld where
  rows id := if id = 0 then
    some { digest := "sha256:layer", contentType := "application/octet-stream" } else none
  nextId := 1
  clock := 2

theorem orphanLayer_idle : orphanLayer.Idle := ⟨rfl, fun _ => rfl, rfl, rfl⟩

/-- The actions of a thread, all of them successful. -/
def blobOks (thread : BlobThread) (count : ℕ) : List (BlobThread × BlobChoice) :=
  List.replicate count (thread, {})

def orphanLayers : BlobWorld where
  rows id := if id = 0 then
      some { digest := "sha256:layer", contentType := "application/octet-stream" }
    else if id = 1 then
      some { digest := "sha256:other", contentType := "application/octet-stream" }
    else none
  nextId := 2
  clock := 2

def headLayer : BlobSystem where
  request _ := .head (some "sha256:layer")

/-- Both layers are marked; the first one is touched, and only the second one is swept. -/
theorem touched_blob_escapes_head :
    ∃ final, exec (Pool.step blobSem) (headLayer.pool orphanLayers)
        (blobOks .collector 10 ++ blobOks (.client 0) 2 ++ blobOks (.sweeper 0) 7) = some final ∧
      final.world.log = [.deleteBlob 1 false, .deleting 1] ++
        .touched 0 :: ([] ++ .snapshot [0, 1] :: []) ∧
      .deleting 0 ∉ [BlobEvent.deleteBlob 1 false, .deleting 1] ∧
      ∀ referenced, .deleteBlob 0 referenced ∉ [BlobEvent.deleteBlob 1 false, .deleting 1] := by
  have hidle : orphanLayers.Idle := ⟨rfl, fun _ => rfl, rfl, rfl⟩
  have hspares : EveryStep (step blobSem) (Pool.Admits (BlobAllowed False 0))
      (headLayer.pool orphanLayers)
      (blobOks .collector 10 ++ blobOks (.client 0) 2 ++ blobOks (.sweeper 0) 7) := by
    iterate 19 refine everyStep_cons rfl (admits_of_nextOp rfl trivial) ?_
    trivial
  exact ⟨_, rfl, rfl, (touched_blob_escapes hidle hspares rfl).1 _ [] [0, 1] [] rfl (by decide)
    (by decide)⟩

/-- A client mounts the layer into project 1. -/
def mountLayer : BlobSystem where
  request _ := .postInitiateBlobUpload 1 "sha256:layer"

/-- The layer is mounted before the collection, which then deletes the other one only. -/
theorem deleteBlob_unreferenced_layer :
    ∃ final, exec (Pool.step blobSem) (mountLayer.pool orphanLayers)
        (blobOks (.client 0) 4 ++ blobOks .collector 8 ++ blobOks (.sweeper 0) 5) = some final ∧
      final.world.projectBlobs = [(1, 0)] ∧ .deleteBlob 1 false ∈ final.world.log ∧
      .deleteBlob 0 true ∉ final.world.log := by
  have hguarded : EveryStep (step blobSem) (Pool.Admits (BlobAllowed True 0))
      (mountLayer.pool orphanLayers)
      (blobOks (.client 0) 4 ++ blobOks .collector 8 ++ blobOks (.sweeper 0) 5) := by
    iterate 3 refine everyStep_cons rfl (admits_of_nextOp rfl trivial) ?_
    -- the reference is added while the collection has seen nothing
    refine everyStep_cons rfl (admits_of_nextOp rfl fun _ _ => ?_) ?_
    · rintro (⟨_, _, ⟨⟩, -⟩ | ⟨_, ⟨⟩⟩)
    iterate 13 refine everyStep_cons rfl (admits_of_nextOp rfl trivial) ?_
    trivial
  exact ⟨_, rfl, rfl, List.mem_cons_self,
    deleteBlob_unreferenced ⟨rfl, fun _ => rfl, rfl, rfl⟩ hguarded rfl⟩

/-- The collection finds the layer unreferenced and marks it.  Then a mount adds a
reference from project 1, which does not touch the blob; the worker sets it to deleting
and has it deleted from the storage. -/
theorem mounted_blob_deleted :
    ∃ final, exec (Pool.step blobSem) (mountLayer.pool orphanLayer)
        (blobOks .collector 8 ++ blobOks (.client 0) 4 ++ blobOks (.sweeper 0) 5) = some final ∧
      orphanLayer.Idle ∧ final.threads (.client 0) = .ret (.ok ()) ∧
      final.world.projectBlobs = [(1, 0)] ∧ .deleteBlob 0 true ∈ final.world.log := by
  refine ⟨_, rfl, orphanLayer_idle, rfl, rfl, ?_⟩
  exact List.mem_cons_self

end Harbor.Blobs
