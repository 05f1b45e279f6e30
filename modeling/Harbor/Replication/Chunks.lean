import Harbor.Replication.Transfer
import Harbor.Concurrency.RelyGuarantee
import Mathlib.Tactic

/-!
# Chunks in order

What is known between two calls is how many bytes the destination has (`Ready`): the
next chunk starts right there.  A failed chunk keeps this up, because the client asks
the destination for its progress, or starts again with the same chunk.  But it breaks

* if the source or the initiation of the upload fails, because the range of the chunk
  counts as done although nothing was sent;
* if the answer to a chunk is lost and the destination does not tell its progress either;
* if the destination reports a range for an upload that has no bytes yet.

`Resumable` excludes these, and then every chunk starts at the first byte that is
missing, and the chunks cover the blob (`chunks_resume`).
-/

namespace Harbor.Replication

open Concurrency Data.Decimal Data.Split List Destination

/-- What the registries may do: see above. -/
def Resumable (world : Destination) (op : TransferOp) (choice : Choice) : Prop :=
  match op, choice with
  | .pullBlobChunk _ _, .fail _ => False
  | .initiateBlobUpload, .fail _ => False
  | .uploadStatus location, .fail _ => world.completed = true ∨
      ∀ chunk, world.sent.getLast? = some chunk → chunk.held = world.held location
  | .uploadStatus _, .header text => (parseContentRange text).isOk = false
  | _, _ => True

/-- Every chunk was sent from the first byte that the destination did not have. -/
def InOrder (world : Destination) : Prop :=
  ∀ chunk ∈ world.sent, chunk.start = chunk.held

/-- The judgement of this file: there is nobody else at work. -/
abbrev Sends {Result : Type} (Post : Result → Destination → Prop) (program : Transfer Result)
    (world : Destination) : Prop :=
  Secured perform Resumable InOrder Eq (fun _ _ => True) Post program world

variable {world : Destination} {n kept : ℕ} {end_ : ℤ} {u : ℕ} {Result : Type}
  {Post : Result → Destination → Prop} {choice : Choice} {location : Location}

theorem Sends.ret {result : Result} (hpost : Post result world) : Sends Post (.ret result) world :=
  Secured.ret (fun _ hlater h => hlater ▸ h) hpost

theorem Sends.call {op : TransferOp} {next : op.Reply → Transfer Result}
    (hcall : ∀ choice after reply, InOrder world → Resumable world op choice →
      perform world op choice = some (after, reply) →
        InOrder after ∧ Sends Post (next reply) after) : Sends Post (.call op next) world := by
  rintro later choice after reply rfl hinv hallowed hsem
  obtain ⟨hafter, hnext⟩ := hcall choice after reply hinv hallowed hsem
  exact ⟨hafter, trivial, hnext⟩

/-! ## Bytes -/

/-- The first `n` bytes of the blob. -/
def firstBytes (n : ℕ) : List ℤ :=
  (List.range n).map fun i : ℕ => (i : ℤ)

@[simp] theorem firstBytes_length (n : ℕ) : (firstBytes n).length = n := by
  simp [firstBytes]

theorem positions_length (start end_ : ℤ) :
    (positions start end_).length = (end_ - start + 1).toNat := by
  simp [positions]

theorem firstBytes_append_take (hkept : kept ≤ (positions n end_).length) :
    firstBytes n ++ (positions n end_).take kept = firstBytes (n + kept) := by
  rw [positions_length] at hkept
  rw [firstBytes, firstBytes, positions, range_add, map_append, ← map_take,
    take_range, Nat.min_eq_left hkept, map_map]
  congr 1

theorem int64_eq {value : ℤ} (hlow : -2 ^ 63 ≤ value) (hhigh : value < 2 ^ 63) :
    int64 value = value :=
  Int.bmod_eq_of_le (by omega) (by omega)

/-! ## Uploads -/

/-- The upload has the first `n` bytes, and no other upload has any. -/
def HoldsAt (world : Destination) (u n : ℕ) : Prop :=
  world.uploads[u]? = some (firstBytes n) ∧
    ∀ v bytes, v ≠ u → world.uploads[v]? = some bytes → bytes = []

/-- The destination has the first `n` bytes at the location, if it has any at all. -/
def Synced (world : Destination) (location : Location) (n : ℕ) : Prop :=
  (n = 0 ∧ ∀ bytes ∈ world.uploads, bytes = []) ∨
    ∃ u, location = some u ∧ HoldsAt world u n

variable (hholds : HoldsAt world u n)
include hholds

theorem HoldsAt.lt : u < world.uploads.length := (List.getElem?_eq_some_iff.mp hholds.1).1

theorem HoldsAt.held : world.held (some u) = n := by
  simp [Destination.held, hholds.1]

/-- A chunk that is sent to where the first `n` bytes are. -/
theorem HoldsAt.inOrder_send (hinv : InOrder world) (end_ : ℤ) :
    InOrder (world.send (some u) n end_) := by
  intro chunk hchunk
  rcases mem_append.mp hchunk with hchunk | hchunk
  · exact hinv chunk hchunk
  · rw [mem_singleton.mp hchunk, hholds.held]

theorem HoldsAt.receive (hkept : kept ≤ (positions n end_).length) :
    HoldsAt (world.receive (some u) ((positions n end_).take kept)) u (n + kept) := by
  refine ⟨?_, ?_⟩
  · have hlt := hholds.lt
    rw [Destination.receive, getElem?_set_self hlt, hholds.1, Option.getD_some,
      firstBytes_append_take hkept]
  · intro v bytes hne hbytes
    refine hholds.2 v bytes hne ?_
    simpa [Destination.receive, getElem?_set, hne.symm] using hbytes

/-- All uploads together have the first `n` bytes, in order and once. -/
theorem HoldsAt.flatten : world.uploads.flatten = firstBytes n := by
  obtain ⟨hlt, hget⟩ := List.getElem?_eq_some_iff.mp hholds.1
  have hsplit := take_append_drop u world.uploads
  have hdrop : world.uploads.drop u = firstBytes n :: world.uploads.drop (u + 1) := by
    rw [drop_eq_getElem_cons hlt, hget]
  have hbefore : (world.uploads.take u).flatten = [] := by
    rw [flatten_eq_nil_iff]
    intro bytes hbytes
    obtain ⟨v, hv, rfl⟩ := getElem_of_mem hbytes
    rw [length_take] at hv
    refine hholds.2 v _ (by omega) ?_
    rw [getElem_take, getElem?_eq_getElem]
  have hafter : (world.uploads.drop (u + 1)).flatten = [] := by
    rw [flatten_eq_nil_iff]
    intro bytes hbytes
    obtain ⟨v, hv, rfl⟩ := getElem_of_mem hbytes
    rw [length_drop] at hv
    refine hholds.2 (u + 1 + v) _ (by omega) ?_
    rw [getElem_drop, getElem?_eq_getElem]
  rw [← hsplit, flatten_append, hbefore, hdrop, flatten_cons, hafter, append_nil, nil_append]

/-- What becomes of a chunk that starts where the bytes of the upload end. -/
theorem HoldsAt.upload {after : Destination} {lastChunk : Bool} {reply : Except String Location}
    (hinv : InOrder world)
    (hupload : world.upload (some u) lastChunk n end_ choice = some (after, reply)) :
    InOrder after ∧ after.sent.getLast? = some ⟨n, end_, n⟩ ∧
      ∃ kept ≤ (positions n end_).length, HoldsAt after u (n + kept) ∧
        ∀ next, reply = .ok next → next = some u ∧ kept = (positions n end_).length ∧
          after.completed = lastChunk := by
  have hsent := hholds.inOrder_send hinv end_
  have hlast : (world.send (some u) n end_).sent.getLast? = some ⟨n, end_, n⟩ := by
    simp [send, hholds.held]
  have hholds' : HoldsAt (world.send (some u) n end_) u n := hholds
  cases choice with
  | fail message =>
    cases hupload
    exact ⟨hsent, hlast, 0, Nat.zero_le _, hholds', fun next hnext => by cases hnext⟩
  | done =>
    simp only [upload] at hupload
    split_ifs at hupload
    cases hupload
    have hreceive := hholds'.receive (Nat.le_refl (positions n end_).length)
    rw [take_length] at hreceive
    refine ⟨hsent, hlast, _, Nat.le_refl _, hreceive, fun next hnext => ?_⟩
    exact ⟨(Except.ok.inj hnext).symm, rfl, rfl⟩
  | lost kept completed message =>
    simp only [upload] at hupload
    split_ifs at hupload with hguard
    cases hupload
    simp only [Bool.and_eq_true, decide_eq_true_eq] at hguard
    exact ⟨hsent, hlast, kept, hguard.1.2, hholds'.receive hguard.1.2,
      fun next hnext => by cases hnext⟩
  | _ => cases hupload

omit hholds

/-- Before an attempt, or a turn of the loop: the blob is complete, or the next chunk starts
at the first byte that the destination does not have. -/
def Ready (size : ℤ) (progress : Progress) (world : Destination) : Prop :=
  world.completed = true ∨ world.completed = false ∧
    ∃ n : ℕ, progress.end_ + 1 = n ∧ (n : ℤ) ≤ size ∧ Synced world progress.location n

/-! ## The status of an upload -/

theorem parseContentRange_report (hn : n < 2 ^ 63) :
    parseContentRange ("0-" ++ toString n) = .ok (0, (n : ℤ)) := by
  have hlist : ("0-" ++ toString n).toList = ['0'] ++ '-' :: (toString n).toList := by
    rw [String.toList_append]
    rfl
  have hdash : '-' ∉ (toString n).toList := notMem_repr (by decide) n
  have hzero : parseInt (String.ofList ['0']) = some 0 := rfl
  rw [parseContentRange, hlist, cut_append (by decide)]
  simp only [hdash, if_false, String.ofList_toList, hzero, parseInt_repr, if_pos hn]
  rw [Int64.toInt_zero, Int64.toInt_ofNat_of_lt hn]

/-- After a chunk that has failed: with the progress of the destination, or without it, the
next attempt is ready. -/
theorem getUploadStatus_sends {size : ℤ} (hholds : HoldsAt world u (n + kept))
    (hlast : world.sent.getLast? = some ⟨n, end_, n⟩) (hsize : ((n + kept : ℕ) : ℤ) ≤ size)
    (hrange : size < 2 ^ 63) :
    Sends (fun reply later =>
        match reply with
        | .ok (location, newEnd) => later.completed = false ∧ location = some u ∧
            newEnd + 1 = ((n + kept : ℕ) : ℤ) ∧ HoldsAt later u (n + kept)
        | .error _ => later.completed = true ∨
            later.completed = false ∧ kept = 0 ∧ HoldsAt later u (n + kept))
      (getUploadStatus (some u)) world := by
  refine Sends.call fun choice after reply hinv hallowed hsem => ?_
  have hheld := hholds.held
  change world.status (some u) choice = some (after, reply) at hsem
  cases choice with
  | fail message =>
    cases hsem
    refine ⟨hinv, Sends.ret ?_⟩
    rcases hallowed with hcompleted | hsame
    · exact .inl hcompleted
    · have hkept := hsame _ hlast
      rw [hheld] at hkept
      cases hcompleted : world.completed with
      | true => exact .inl rfl
      | false => exact .inr ⟨rfl, by simpa using hkept, hholds⟩
  | done =>
    simp only [status] at hsem
    split_ifs at hsem with hguard
    cases hsem
    simp only [isOpen, Bool.and_eq_true, decide_eq_true_eq, Bool.not_eq_true', hheld] at hguard
    have hparse := @parseContentRange_report (n + kept - 1) (by omega)
    refine ⟨hinv, ?_⟩
    simp only [Program.bind]
    rw [hheld, hparse]
    exact Sends.ret ⟨hguard.1.2, rfl, by omega, hholds⟩
  | header text =>
    simp only [status] at hsem
    split_ifs at hsem with hguard
    cases hsem
    simp only [isOpen, Bool.and_eq_true, decide_eq_true_eq, Bool.not_eq_true', hheld] at hguard
    refine ⟨hinv, ?_⟩
    simp only [Program.bind]
    change (parseContentRange text).isOk = false at hallowed
    cases hparse : parseContentRange text with
    | error e => exact Sends.ret (.inr ⟨hguard.1.2, by omega, hholds⟩)
    | ok range =>
      rw [hparse] at hallowed
      cases hallowed
  | _ => cases hsem

/-! ## Chunks -/

/-- What `PushBlobChunk` leaves behind. -/
def Pushed (size end_ : ℤ) (result : Location × ℤ × Option String) (world : Destination) : Prop :=
  match result with
  | (location, _, none) => world.completed = decide (end_ = size - 1) ∧
      ∃ u n : ℕ, location = some u ∧ end_ + 1 = (n : ℤ) ∧ HoldsAt world u n
  | (location, newEnd, some _) => ∀ start, Ready size { start, end_ := newEnd, location } world

theorem pushChunkTo_sends {size : ℤ} (hholds : HoldsAt world u n) (hend : (n : ℤ) ≤ end_ + 1)
    (hsize : end_ + 1 ≤ size) (hrange : size < 2 ^ 63) :
    Sends (Pushed size end_) (pushChunkTo size n end_ (some u)) world := by
  refine Sends.call fun choice after reply hinv _ hsem => ?_
  obtain ⟨hafter, hlast, kept, hkept, hholds', hok⟩ := hholds.upload hinv hsem
  have hlength := positions_length n end_
  refine ⟨hafter, ?_⟩
  cases reply with
  | ok next =>
    obtain ⟨rfl, rfl, hcompleted⟩ := hok next rfl
    rw [int64_eq (by omega) (by omega)] at hcompleted
    exact Sends.ret ⟨hcompleted, u, _, rfl, by omega, hholds'⟩
  | error e =>
    show Sends _ (getUploadStatus (some u) >>= _) after
    have hstatus := @getUploadStatus_sends after n kept end_ u size hholds' hlast (by omega) hrange
    refine Secured.bind (fun _ => rfl) hafter hstatus fun reply later hinv hreply => ?_
    cases reply with
    | ok status =>
      obtain ⟨location, newEnd⟩ := status
      obtain ⟨hopen, rfl, hnewEnd, hlater⟩ := hreply
      refine Sends.ret fun start => .inr ⟨hopen, n + kept, hnewEnd, by omega, ?_⟩
      exact .inr ⟨u, rfl, hlater⟩
    | error e1 =>
      refine Sends.ret fun start => ?_
      rcases hreply with hcompleted | ⟨hopen, rfl, hlater⟩
      · exact .inl hcompleted
      · refine .inr ⟨hopen, n, ?_, by omega, .inr ⟨u, rfl, hlater⟩⟩
        show int64 ((n : ℤ) - 1) + 1 = n
        rw [int64_eq (by omega) (by omega)]
        omega

theorem holdsAt_initiate (hempty : ∀ bytes ∈ world.uploads, bytes = []) :
    HoldsAt { world with uploads := world.uploads ++ [[]] } world.uploads.length 0 := by
  refine ⟨by simp [firstBytes], ?_⟩
  intro v bytes _ hbytes
  rcases mem_append.mp (mem_of_getElem? hbytes) with hmem | hmem
  · exact hempty bytes hmem
  · exact mem_singleton.mp hmem

theorem Synced.empty (hsynced : Synced world location 0) : ∀ bytes ∈ world.uploads, bytes = [] := by
  rcases hsynced with ⟨-, hempty⟩ | ⟨u, -, hholds⟩
  · exact hempty
  · intro bytes hbytes
    obtain ⟨v, hv⟩ := getElem?_of_mem hbytes
    by_cases hvu : v = u
    · subst hvu
      exact (Option.some.inj (hv.symm.trans hholds.1))
    · exact hholds.2 v bytes hvu hv

theorem pushBlobChunk_sends {size : ℤ} (hsynced : Synced world location n)
    (hend : (n : ℤ) ≤ end_ + 1) (hsize : end_ + 1 ≤ size) (hrange : size < 2 ^ 63) :
    Sends (Pushed size end_) (pushBlobChunk size n end_ location) world := by
  by_cases hn : n = 0
  · subst hn
    refine Sends.call fun choice after reply hinv hallowed hsem => ?_
    cases choice with
    | fail message => exact absurd hallowed id
    | done =>
      cases hsem
      exact ⟨hinv, pushChunkTo_sends (holdsAt_initiate hsynced.empty) hend hsize hrange⟩
    | _ => cases hsem
  · rcases hsynced with ⟨hzero, -⟩ | ⟨u, rfl, hholds⟩
    · exact absurd hzero hn
    · have hne : (n : ℤ) ≠ 0 := by omega
      rw [pushBlobChunk, if_neg hne]
      exact pushChunkTo_sends hholds hend hsize hrange

/-! ## Attempts -/

/-- How an attempt ends. -/
def Attempted (size : ℤ) (result : Progress × Except CopyError Copied) (world : Destination) :
    Prop :=
  match result with
  | (_, .ok copied) => copied ≠ .mounted → world.uploads.flatten = firstBytes size.toNat
  | (progress, .error e) => e ≠ .outOfFuel ∧ Ready size progress world

/-- Only the result of `tryMountBlob` matters. -/
def MountTried (before : Destination) (result : Except CopyError Bool) (world : Destination) :
    Prop :=
  world = before ∧ (result = .ok false → world.completed = false) ∧ result ≠ .error .outOfFuel

theorem mountIfPossible_sends (hopen : world.completed = false) :
    Sends (MountTried world) mountIfPossible world := by
  refine Sends.call fun choice after reply hinv _ hsem => ?_
  cases choice with
  | fail message =>
    cases hsem
    exact ⟨hinv, Sends.ret ⟨rfl, fun _ => hopen, by simp⟩⟩
  | answer yes =>
    cases yes with
    | true => cases hsem
    | false =>
      cases hsem
      exact ⟨hinv, Sends.ret ⟨rfl, fun _ => hopen, by simp⟩⟩
  | mountFrom repository =>
    cases hsem
    refine ⟨hinv, Sends.call fun choice after reply hinv _ hsem => ?_⟩
    cases choice with
    | fail message | done =>
      cases hsem
      exact ⟨hinv, Sends.ret ⟨rfl, fun _ => hopen, by simp⟩⟩
    | _ => cases hsem
  | _ => cases hsem

theorem tryMountBlob_sends (world : Destination) : Sends (MountTried world) tryMountBlob world := by
  refine Sends.call fun choice after reply hinv _ hsem => ?_
  cases choice with
  | answer stop =>
    obtain ⟨rfl, rfl⟩ := Prod.mk.inj (Option.some.inj hsem)
    refine ⟨hinv, ?_⟩
    cases stop with
    | true => exact Sends.ret ⟨rfl, by simp, by simp⟩
    | false =>
      refine Sends.call fun choice after reply hinv _ hsem => ?_
      change world.exist choice = some (after, reply) at hsem
      cases choice with
      | fail message =>
        cases hsem
        exact ⟨hinv, Sends.ret ⟨rfl, by simp, by simp⟩⟩
      | answer yes =>
        simp only [exist] at hsem
        split_ifs at hsem with hguard
        cases hsem
        refine ⟨hinv, ?_⟩
        cases yes with
        | true => exact Sends.ret ⟨rfl, by simp, by simp⟩
        | false =>
          have hopen : world.completed = false := by simpa using hguard
          exact mountIfPossible_sends hopen
      | _ => cases hsem
  | _ => cases hsem

section Attempts

variable {size chunk : ℤ} (hchunk : 0 < chunk) (hrange : size + chunk ≤ 2 ^ 63)

include hchunk hrange

variable {progress : Progress}

/-- The loop: there is fuel for every byte that is missing. -/
theorem copyChunks_sends {fuel n : ℕ} (hopen : world.completed = false) (hn : progress.end_ + 1 = n)
    (hsize : (n : ℤ) ≤ size) (hsynced : Synced world progress.location n) (hfuel : size - n ≤ fuel)
    (hpos : 0 < fuel) : Sends (Attempted size) (copyChunks size chunk fuel progress) world := by
  induction fuel generalizing world n progress with
  | zero => exact absurd hpos (Nat.lt_irrefl 0)
  | succ fuel ih =>
    have hstart : nextStart progress = n := by
      rw [nextStart, hn]
      exact int64_eq (by omega) (by omega)
    have hlast : int64 (size - 1) = size - 1 := int64_eq (by omega) (by omega)
    have hend : nextEnd size chunk progress = min (n + chunk - 1) (size - 1) := by
      rw [nextEnd, hstart, hlast, int64_eq (by omega) (by omega)]
    refine Sends.call fun choice after reply hinv hallowed hsem => ?_
    cases choice with
    | fail message => exact absurd hallowed id
    | done =>
      cases hsem
      refine ⟨hinv, ?_⟩
      show Sends _ (pushBlobChunk size (nextStart progress) (nextEnd size chunk progress)
        progress.location >>= _) world
      rw [hstart, hend]
      have hpush := @pushBlobChunk_sends world n (min (n + chunk - 1) (size - 1))
        progress.location size hsynced (by omega) (by omega) (by omega)
      refine Secured.bind (fun _ => rfl) hinv hpush fun result later hlater hpushed => ?_
      obtain ⟨location, newEnd, err⟩ := result
      cases err with
      | some e => exact Sends.ret ⟨by simp, hpushed _⟩
      | none =>
        obtain ⟨hcompleted, u, m, rfl, hm, hholds⟩ := hpushed
        by_cases hdone : min ((n : ℤ) + chunk - 1) (size - 1) = size - 1
        · show Sends _ (if _ then _ else _) later
          rw [if_pos (hdone.trans hlast.symm)]
          refine Sends.ret fun _ => ?_
          rw [hholds.flatten]
          congr 1
          omega
        · show Sends _ (if _ then _ else _) later
          rw [if_neg (fun h => hdone (h.trans hlast))]
          rw [decide_eq_false hdone] at hcompleted
          exact ih hcompleted hm (by omega) (.inr ⟨u, rfl, hholds⟩) (by omega) (by omega)
    | _ => cases hsem

theorem copyBlobByChunk_sends (hsize : chunk < size) (hinv : InOrder world)
    (hready : Ready size progress world) :
    Sends (Attempted size) (copyBlobByChunk size chunk progress) world := by
  refine Secured.bind (fun _ => rfl) hinv (tryMountBlob_sends world) fun result later _ hmount => ?_
  obtain ⟨rfl, hgoes, hfuel⟩ := hmount
  match result with
  | .error e => exact Sends.ret ⟨fun h => hfuel (congrArg _ h), hready⟩
  | .ok true => exact Sends.ret fun h => absurd rfl h
  | .ok false =>
    rw [if_neg (not_le.mpr hsize)]
    rcases hready with hcompleted | ⟨hopen, n, hn, hle, hsynced⟩
    · rw [hgoes rfl] at hcompleted
      cases hcompleted
    · exact copyChunks_sends hchunk hrange hopen hn hle hsynced (by omega) (by omega)

theorem copyChunkWithRetry_sends (hsize : chunk < size) (retries : ℕ) (hinv : InOrder world)
    (hready : Ready size progress world) :
    Sends (fun result later => result ≠ .error .outOfFuel ∧ ∀ copied, result = .ok copied →
        copied ≠ .mounted → later.uploads.flatten = firstBytes size.toNat)
      (copyChunkWithRetry size chunk retries progress) world := by
  induction retries generalizing world progress with
  | zero =>
    refine Secured.bind (fun _ => rfl) hinv
      (copyBlobByChunk_sends hchunk hrange hsize hinv hready) fun result later _ hattempt => ?_
    obtain ⟨next, outcome⟩ := result
    cases outcome with
    | error e => exact Sends.ret ⟨fun h => hattempt.1 (Except.error.inj h), fun _ h => by cases h⟩
    | ok copied => exact Sends.ret ⟨by simp, fun _ h => Except.ok.inj h ▸ hattempt⟩
  | succ retries ih =>
    refine Secured.bind (fun _ => rfl) hinv
      (copyBlobByChunk_sends hchunk hrange hsize hinv hready)
      fun result later hlater hattempt => ?_
    obtain ⟨next, outcome⟩ := result
    cases outcome with
    | ok copied => exact Sends.ret ⟨by simp, fun _ h => Except.ok.inj h ▸ hattempt⟩
    | error e =>
      show Sends _ (if _ then _ else _) later
      split_ifs with hstopped
      · exact Sends.ret ⟨fun h => hattempt.1 (Except.error.inj h), fun _ h => by cases h⟩
      · exact ih hlater hattempt.2

end Attempts

/-- **Chunks resume where the destination is.**  In every run in which the registries do what
is resumable, every chunk starts at the first byte that the destination does not have; the
loop ends; and if the transfer returns without an error and has not mounted the blob, then the
bytes accepted are those of the blob, each of them once and in order. -/
theorem chunks_resume (size chunk : ℤ) (retries : ℕ) (hchunk : 0 < chunk) (hsize : chunk < size)
    (hrange : size + chunk ≤ 2 ^ 63) (actions : List (Unit × Choice))
    (final : Pool Destination TransferOp TransferOp.Reply Unit (Except CopyError Copied))
    (hrun : exec (Pool.step perform) (transferPool size chunk retries) actions = some final)
    (hsteps : EveryStep (Pool.step perform) (Pool.Admits Resumable)
      (transferPool size chunk retries) actions) :
    (∀ sent ∈ final.world.sent, sent.start = sent.held) ∧
    ∀ result, final.threads () = .ret result → result ≠ .error .outOfFuel ∧
      ∀ copied, result = .ok copied → copied ≠ .mounted →
        final.world.uploads.flatten = firstBytes size.toNat := by
  have hcompat : Pool.Compatible InOrder (fun _ : Unit => Eq) (fun _ _ _ => True) := {
    refl := fun _ _ => rfl
    trans := fun _ _ _ _ => Eq.trans
    guar_rely := fun _ _ _ _ hne => absurd rfl hne }
  have hinv : InOrder {} := fun _ hmem => by cases hmem
  have hready : Ready size {} {} :=
    .inr ⟨rfl, 0, rfl, by omega, .inl ⟨rfl, fun _ hmem => by cases hmem⟩⟩
  have hsecured := Pool.secured_exec hcompat
    ⟨hinv, fun _ => copyChunkWithRetry_sends hchunk hrange hsize retries hinv hready⟩ hsteps hrun
  refine ⟨hsecured.1, fun result hresult => ?_⟩
  have hthread := hsecured.2 ()
  rw [hresult] at hthread
  exact hthread final.world rfl hsecured.1

/-- The call is answered in the ordinary way, or its answer is lost. -/
def Choice.isOrdinary : Choice → Bool
  | .fail _ => false
  | .header _ => false
  | _ => true

theorem resumable_of_isOrdinary (hchoice : choice.isOrdinary = true) (world : Destination)
    (op : TransferOp) : Resumable world op choice := by
  cases choice with
  | fail message | header text => cases hchoice
  | _ => cases op <;> trivial

/-- Five bytes in chunks of two: the answer to the second chunk is lost, and the destination
tells its progress. -/
def answerLost : List (Unit × Choice) :=
  [.answer false, .answer false, .answer false, .done, .done, .done, .done, .lost 2 false "reset",
    .done, .answer false, .answer false, .answer false, .done, .done].map fun choice => ((), choice)

theorem chunks_resume_answerLost :
    ∃ final, exec (Pool.step perform) (transferPool 5 2 4) answerLost = some final ∧
      final.threads () = .ret (.ok .chunks) ∧ (∀ sent ∈ final.world.sent, sent.start = sent.held) ∧
      final.world.uploads.flatten = firstBytes 5 := by
  have hordinary : ∀ action ∈ answerLost, action.2.isOrdinary = true := by decide
  have hsteps : EveryStep (Pool.step perform) (Pool.Admits Resumable) (transferPool 5 2 4)
      answerLost :=
    (everyStep_of_forall_mem hordinary _).mono fun _ _ _ hchoice _ _ =>
      resumable_of_isOrdinary hchoice _ _
  obtain ⟨horder, hreturn⟩ := chunks_resume 5 2 4 (by decide) (by decide) (by decide) answerLost
    _ rfl hsteps
  exact ⟨_, rfl, rfl, horder, (hreturn _ rfl).2 .chunks rfl (by decide)⟩

/-- The first chunk cannot be pulled, and the second attempt starts with the second chunk. -/
def pullFails : List (Unit × Choice) :=
  [.answer false, .answer false, .answer false, .fail "timeout", .answer false, .answer false,
    .answer false, .done, .fail "not found"].map fun choice => ((), choice)

/-- A chunk from byte 2 on is sent to a destination that has no byte. -/
theorem chunk_skipped_after_failed_pull :
    ∃ final, exec (Pool.step perform) (transferPool 5 2 4) pullFails = some final ∧
      final.world.sent = [⟨2, 3, 0⟩] ∧ final.world.uploads = [] :=
  ⟨_, rfl, rfl, rfl⟩

end Harbor.Replication
