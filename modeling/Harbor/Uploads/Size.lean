import Harbor.Uploads.Model

/-!
# The size of a blob

The size that is reserved and stored is right if the bytes of the blob come all in
the PUT, or all in PATCH requests (`upload_size_iff`).  If a PUT brings the last
bytes after some PATCH requests, its length is taken for the size of the blob.  In the
second case Redis must have the size of the last PATCH: it has if Redis is available at
every PATCH and the entry does not expire (`UpToDate.step`), but a PATCH whose size could
not be recorded leaves the entry of the one before.
-/

namespace Harbor.Uploads

open Concurrency Data.Decimal Data.Split Quotas Int64

variable {Session : Type}

/-! ## What Redis has -/

/-- What the middleware records for a number of bytes: a single byte cannot be told from none,
and the largest size wraps around. -/
def recorded (total : ℕ) : ℤ :=
  if total ≤ 1 then 0 else (total : ℤ).bmod (2 ^ 64)

variable {world : World Session} {r : PutRequest Session} {session : Session}

theorem parseAcceptedBlobSize_rangeHeader (total : ℕ) :
    parseAcceptedBlobSize (rangeHeader total) =
      match parseInt (toString (total - 1)) with
      | none => .error ("strconv.ParseInt: parsing " ++ toString (total - 1))
      | some size => .ok (if 0 < size then size + 1 else size) := by
  have hlist : (rangeHeader total).toList = ['0'] ++ '-' :: (toString (total - 1)).toList := by
    rw [rangeHeader, String.toList_append]
    rfl
  have hne : rangeHeader total ≠ "" := by
    intro hempty
    rw [hempty] at hlist
    cases hlist
  rw [parseAcceptedBlobSize, if_neg hne, hlist, cut_append (by decide)]
  have hlast : String.ofList (toString (total - 1)).toList = toString (total - 1) :=
    String.ofList_toList
  cases hparse : parseInt (toString (total - 1)) with
  | none | some size => simp only [hlast, hparse]

theorem parseAcceptedBlobSize_eq {total : ℕ} (hrange : total ≤ 2 ^ 63) :
    ∃ size, parseAcceptedBlobSize (rangeHeader total) = .ok size ∧
      size.toInt = recorded total := by
  have hlt : total - 1 < 2 ^ 63 := by omega
  have hvalue : (ofNat (total - 1)).toInt = ((total - 1 : ℕ) : ℤ) := toInt_ofNat_of_lt hlt
  rw [parseAcceptedBlobSize_rangeHeader, parseInt_repr, if_pos hlt]
  refine ⟨_, rfl, ?_⟩
  unfold recorded
  by_cases htotal : total ≤ 1
  · have hzero : total - 1 = 0 := by omega
    rw [if_pos htotal, hzero]
    rfl
  · have hpos : 0 < ofNat (total - 1) := by
      rw [lt_iff_toInt_lt, hvalue]
      simp only [toInt_zero]
      omega
    rw [if_neg htotal, if_pos hpos, toInt_add, hvalue]
    congr 1
    simp only [toInt_one]
    omega

/-- The size in Redis is that of the last PATCH of the session. -/
def World.IsRecorded (world : World Session) (session : Session) : Prop :=
  ∃ size ∈ world.accepted session, size.toInt = recorded (world.received session)

/-- So it is for every session that has one. -/
def UpToDate (world : World Session) : Prop :=
  ∀ session, (world.accepted session).isSome → world.IsRecorded session

section Runs

variable [DecidableEq Session] {world next : World Session}

/-- A PATCH finds Redis available, and its size is in range. -/
def Records (before : World Session) (action : Action Session) (_after : World Session) : Prop :=
  ∀ session length, action = .patch session length →
    before.available = true ∧ before.received session + length ≤ 2 ^ 63

theorem UpToDate.step {action : Action Session} (hinv : UpToDate world)
    (hstep : step world action = some next) (hrecords : Records world action next) :
    UpToDate next := by
  intro other hsome
  cases action with
  | patch session length =>
    obtain ⟨havailable, hrange⟩ := hrecords session length rfl
    obtain ⟨size, hparse, hsize⟩ := parseAcceptedBlobSize_eq hrange
    simp only [Uploads.step, patchBlobUpload, recordAccepted, hparse, setAcceptedBlobSize, bind,
      Except.bind, havailable, if_true] at hstep
    cases hstep
    by_cases hother : other = session
    · subst hother
      exact ⟨size, by simp, by simpa using hsize⟩
    · have hold := hinv other (by simpa [hother] using hsome)
      simpa [World.IsRecorded, hother] using hold
  | expire session =>
    cases hstep
    by_cases hother : other = session
    · subst hother
      simp at hsome
    · have hold := hinv other (by simpa [hother] using hsome)
      simpa [World.IsRecorded, hother] using hold
  | redis available =>
    cases hstep
    exact hinv other hsome

theorem upToDate_exec {blobs : String → Option Int64} {projectBlobs : Int64 → String → Bool}
    {actions : List (Action Session)} {final : World Session}
    (hrecords : EveryStep step Records { blobs, projectBlobs } actions)
    (hrun : exec step { blobs, projectBlobs } actions = some final) : UpToDate final :=
  exec_invariant UpToDate (fun _ _ _ hinv hstep hrecord => hinv.step hstep hrecord)
    (fun _ hsome => by cases hsome) hrecords hrun

end Runs

/-! ## The size for the PUT -/

/-- The bytes of the session are all in the PUT, or all in the PATCH requests and Redis has the
size of the last one; and the size is in range. -/
def Accountable (world : World Session) (session : Session) (body : ℕ) : Prop :=
  world.received session + body < 2 ^ 63 ∧
    (world.received session = 0 ∨
      body = 0 ∧ world.available = true ∧ world.IsRecorded session)

theorem getAcceptedBlobSize_iff (htotal : 2 ≤ world.received session) :
    (∃ size, getAcceptedBlobSize world session = .ok size ∧
        size.toInt = world.received session) ↔
      world.received session < 2 ^ 63 ∧ world.available = true ∧ world.IsRecorded session := by
  unfold getAcceptedBlobSize World.IsRecorded
  cases havailable : world.available with
  | false => simp
  | true =>
    cases haccepted : world.accepted session with
    | none =>
      simp only [if_true, Except.ok.injEq, exists_eq_left', Option.getD_none, toInt_zero]
      simp only [Option.mem_def, reduceCtorEq, false_and, exists_false, and_false, iff_false]
      omega
    | some size =>
      simp only [if_true, Except.ok.injEq, exists_eq_left', Option.getD_some, Option.mem_some_iff]
      rw [recorded, if_neg (by omega)]
      constructor
      · intro heq
        have hlt := size.toInt_lt
        exact ⟨by omega, trivial, by rw [heq, Int.bmod_eq_of_le (by omega) (by omega)]⟩
      · rintro ⟨hlt, -, hsize⟩
        rw [hsize, Int.bmod_eq_of_le (by omega) (by omega)]

/-- **The size that both middlewares take** is that of the blob exactly in two cases. -/
theorem uploadSize_iff {body : ℕ} (hlength : r.contentLength = toString body)
    (hsession : r.session = session) (htotal : 2 ≤ world.received session + body) :
    (∃ size, uploadSize world r = .ok size ∧
        size.toInt = ((world.received session + body : ℕ) : ℤ)) ↔
      Accountable world session body := by
  unfold uploadSize Accountable
  rw [hlength, hsession, parseInt_repr]
  rcases Nat.lt_or_ge body (2 ^ 63) with hrange | hrange
  · have hvalue : (ofNat body).toInt = (body : ℤ) := toInt_ofNat_of_lt hrange
    rw [if_pos hrange]
    by_cases hbody : body = 0
    · subst hbody
      simp only [Nat.add_zero] at htotal ⊢
      have hzero : ofNat 0 = 0 := rfl
      simp only [hzero, if_true]
      rw [getAcceptedBlobSize_iff htotal]
      have hne : world.received session ≠ 0 := by omega
      simp [hne]
    · have hne : ofNat body ≠ 0 := by
        intro hzero
        rw [hzero, toInt_zero] at hvalue
        omega
      simp only [hne, if_false, Except.ok.injEq, exists_eq_left', hvalue, hbody, false_and,
        or_false]
      omega
  · -- the length is not parsed, and no accepted size is as large
    rw [if_neg (by omega)]
    constructor
    · rintro ⟨size, -, hsize⟩
      have hlt := size.toInt_lt
      omega
    · rintro ⟨htotal', -⟩
      omega

/-! ## What is reserved and what is stored -/

theorem putBlobUploadResources_eq {referenceID : String}
    (hexist : exist world r.digest ((parseInt referenceID).getD 0) = .ok false) :
    putBlobUploadResources world r referenceID = (uploadSize world r).map fun size =>
      if size = 0 then none else some (AList.singleton Types.resourceStorage size) := by
  unfold putBlobUploadResources
  cases uploadSize world r with
  | error message => rfl
  | ok size =>
    by_cases hzero : size = 0
    · subst hzero
      rfl
    · simp [bind, Except.bind, pure, Except.pure, Except.map, hzero, hexist]

theorem putBlobUpload_blobs {world : World Session} {r : PutRequest Session} {digest : String}
    (hnew : world.blobs digest = none) (projectID : Int64) :
    (putBlobUpload world r 201 digest (.ok projectID)).map (fun next => next.blobs digest) =
      (uploadSize world r).map some := by
  unfold putBlobUpload
  cases uploadSize world r with
  | error message => rfl
  | ok size =>
    simp [bind, Except.bind, pure, Except.pure, Except.map, ensure, hnew, associateWithProject]

theorem amount_singleton (size : Int64) :
    Types.amount (AList.singleton Types.resourceStorage size) Types.resourceStorage = size := by
  rfl

/-- **The size of an upload.**  After any requests of any sessions, a PUT of at least two bytes
in all reserves the number of bytes of the blob, and stores it, exactly if they come all in the
PUT, or all in PATCH requests and Redis has the size of the last one.  If Redis was available at
every PATCH, that is the size it has, unless it has expired. -/
theorem upload_size_iff [DecidableEq Session] (blobs : String → Option Int64)
    (projectBlobs : Int64 → String → Bool) (actions : List (Action Session))
    (world : World Session) (hrun : exec step { blobs, projectBlobs } actions = some world)
    (r : PutRequest Session) (body : ℕ) (hlength : r.contentLength = toString body)
    (htotal : 2 ≤ world.received r.session + body) :
    (∀ referenceID, exist world r.digest ((parseInt referenceID).getD 0) = .ok false →
      ((∃ resources, putBlobUploadResources world r referenceID = .ok (some resources) ∧
          (Types.amount resources Types.resourceStorage).toInt =
            ((world.received r.session + body : ℕ) : ℤ)) ↔
        Accountable world r.session body)) ∧
    (∀ digest projectID, world.blobs digest = none →
      ((∃ next size, putBlobUpload world r 201 digest (.ok projectID) = .ok next ∧
          next.blobs digest = some size ∧
          size.toInt = ((world.received r.session + body : ℕ) : ℤ)) ↔
        Accountable world r.session body)) ∧
    (EveryStep step Records { blobs, projectBlobs } actions → ∀ session,
      (world.accepted session).isSome → world.IsRecorded session) := by
  have hsize := uploadSize_iff hlength rfl htotal
  refine ⟨fun referenceID hexist => ?_, fun digest projectID hnew => ?_,
    fun hrecords => upToDate_exec hrecords hrun⟩
  · rw [← hsize, putBlobUploadResources_eq hexist]
    constructor
    · rintro ⟨resources, hresources, hvalue⟩
      cases hupload : uploadSize world r with
      | error message => simp [hupload, Except.map] at hresources
      | ok size =>
        rw [hupload, Except.map, Except.ok.injEq] at hresources
        split_ifs at hresources
        cases hresources
        exact ⟨size, rfl, by rwa [amount_singleton] at hvalue⟩
    · rintro ⟨size, hupload, hvalue⟩
      have hne : size ≠ 0 := by
        rintro rfl
        rw [toInt_zero] at hvalue
        omega
      refine ⟨AList.singleton Types.resourceStorage size, ?_, by rwa [amount_singleton]⟩
      rw [hupload, Except.map, if_neg hne]
  · rw [← hsize]
    have hblobs := @putBlobUpload_blobs _ world r digest hnew projectID
    constructor
    · rintro ⟨next, size, hnext, hstored, hvalue⟩
      rw [hnext, Except.map, hstored] at hblobs
      cases hupload : uploadSize world r with
      | error message => simp [hupload, Except.map] at hblobs
      | ok other =>
        rw [hupload, Except.map, Except.ok.injEq, Option.some.injEq] at hblobs
        exact ⟨other, rfl, hblobs ▸ hvalue⟩
    · rintro ⟨size, hupload, hvalue⟩
      cases hnext : putBlobUpload world r 201 digest (.ok projectID) with
      | error message => simp [hnext, hupload, Except.map] at hblobs
      | ok next =>
        rw [hnext, hupload, Except.map, Except.map, Except.ok.injEq] at hblobs
        exact ⟨next, size, rfl, hblobs, hvalue⟩

/-- A PUT without a body, after two chunks. -/
def emptyPut : PutRequest ℕ where
  contentLength := "0"
  session := 1
  digest := "sha256:8e"

theorem upload_size_iff_two_chunks :
    ∃ world, exec step {} [.patch 1 5, .patch 2 4, .patch 1 3] = some world ∧
      ∃ resources, putBlobUploadResources world emptyPut "7" = .ok (some resources) ∧
        (Types.amount resources Types.resourceStorage).toInt = 8 := by
  obtain ⟨world, hrun, hreceived, havailable, haccepted, hblobs⟩ : ∃ world : World ℕ,
      exec step {} [.patch 1 5, .patch 2 4, .patch 1 3] = some world ∧ world.received 1 = 8 ∧
        world.available = true ∧ world.accepted 1 = some 8 ∧ world.blobs "sha256:8e" = none := by
    exact ⟨_, rfl, rfl, rfl, rfl, rfl⟩
  have hexist : exist world emptyPut.digest ((parseInt "7").getD 0) = .ok false := by
    simp [exist, emptyPut, hblobs]
  have htotal : world.received emptyPut.session + 0 = 8 := hreceived
  have hiff := (upload_size_iff _ _ _ world hrun emptyPut 0 rfl (by omega)).1 "7" hexist
  rw [htotal] at hiff
  refine ⟨world, hrun, hiff.mpr ⟨by omega, .inr ⟨rfl, havailable, 8, haccepted, ?_⟩⟩⟩
  rw [show world.received emptyPut.session = 8 from hreceived]
  decide

/-- A PUT with the last three bytes of a blob. -/
def lastBytesPut : PutRequest ℕ where
  contentLength := "3"
  session := 1
  digest := "sha256:8e"

/-- Five bytes with a PATCH and three with the PUT: the storage reserved and the size stored
are three bytes. -/
theorem last_bytes_taken_for_blob :
    ∃ world, exec step {} [.patch 1 5] = some world ∧ world.received 1 + 3 = 8 ∧
      putBlobUploadResources world lastBytesPut "7" =
        .ok (some (AList.singleton Types.resourceStorage 3)) ∧
      ∃ next, putBlobUpload world lastBytesPut 201 "sha256:8e" (.ok 7) = .ok next ∧
        next.blobs "sha256:8e" = some 3 := by
  exact ⟨_, rfl, rfl, rfl, _, rfl, rfl⟩

end Harbor.Uploads
