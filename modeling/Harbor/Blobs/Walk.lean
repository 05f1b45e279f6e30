import Harbor.Blobs.Collector
import Mathlib.Algebra.BigOperators.Group.List.Basic
import Mathlib.Algebra.Order.BigOperators.Group.List

/-!
# Pages and chunks

The two places where a collection cuts a list.  `markOrSweepUntaggedBlobs` lists the blobs of
a project page by page, each page from the last id of the one before on, while rows that it
has seen go.  `sweep` cuts the set to delete into chunks for its workers.
-/

namespace Harbor.Blobs

open List

/-! ## Pages -/

/-- The rows of a project while the loop goes through them, and the blobs it has examined. -/
structure PageState where
  turn : ℕ
  rows : List Blob
  examined : List Blob

variable (gone : ℕ → Blob → Bool)

/-- A turn of `forPages` on the rows of a project, in the order of their ids.  After the page, the
examined blobs in `gone turn` are removed, by the loop itself or by others. -/
def pageTurn (cutoff pageSize lastBlobId : ℕ) :
    StateM PageState (Except Bool (List Blob)) := fun state =>
  let blobs := (state.rows.filter fun blob =>
    lastBlobId ≤ blob.id ∧ blob.updateTime ≤ cutoff).take pageSize
  let examined := state.examined ++ blobs
  (.ok blobs,
    ⟨state.turn + 1, state.rows.filter fun blob => ¬ (blob ∈ examined ∧ gone state.turn blob),
      examined⟩)

/-- The loop of `markOrSweepUntaggedBlobs`, if every call succeeds: the examined blobs. -/
def walkPages (cutoff pageSize fuel turn : ℕ) (rows : List Blob) (lastBlobId : ℕ)
    (examined : List Blob) : Option (List Blob) :=
  let (done, state) := forPages (pageTurn gone cutoff pageSize) pageSize true false lastBlobId fuel
    ⟨turn, rows, examined⟩
  if done then some state.examined else none

theorem walkPages_succ (cutoff pageSize fuel turn : ℕ) (rows : List Blob) (lastBlobId : ℕ)
    (examined : List Blob) :
    walkPages gone cutoff pageSize (fuel + 1) turn rows lastBlobId examined =
      let blobs := (rows.filter fun blob =>
        lastBlobId ≤ blob.id ∧ blob.updateTime ≤ cutoff).take pageSize
      if blobs.length < pageSize then some (examined ++ blobs)
      else
        walkPages gone cutoff pageSize fuel (turn + 1)
          (rows.filter fun blob => ¬ (blob ∈ examined ++ blobs ∧ gone turn blob))
          ((blobs.getLast?.map Blob.id).getD 0) (examined ++ blobs) := by
  rw [walkPages, forPages]
  simp only [bind, StateT.bind, pageTurn]
  split_ifs <;> rfl

section Pages

variable {rows : List Blob} {cutoff pageSize : ℕ}

/-- A full page ends at a blob that is not its first, and what follows has larger ids. -/
theorem exists_last_of_full (hsorted : rows.Pairwise fun a b => a.id < b.id)
    (hsize : 2 ≤ pageSize) (hfull : ¬ (rows.take pageSize).length < pageSize) :
    ∃ seen last, rows.take pageSize = seen ++ [last] ∧ (∃ first ∈ rows, first.id < last.id) ∧
      last ∈ rows ∧ ∀ blob ∈ rows, blob ∈ seen ++ [last] ∨ last.id < blob.id := by
  obtain ⟨seen, last, heq⟩ : ∃ seen last, rows.take pageSize = seen ++ [last] :=
    (eq_nil_or_concat' _).resolve_left (ne_nil_of_length_pos (by omega))
  have hsplit : rows = seen ++ last :: rows.drop pageSize := by
    conv_lhs => rw [← take_append_drop pageSize rows, heq]
    simp
  rw [hsplit] at hsorted
  obtain ⟨-, hafter, hbefore⟩ := pairwise_append.mp hsorted
  have hpage : ∀ blob ∈ seen ++ [last], blob ∈ rows := fun blob hblob =>
    mem_of_mem_take (heq ▸ hblob)
  refine ⟨seen, last, heq, ?_, hpage last (by simp), fun blob hblob => ?_⟩
  · cases seen with
    | nil =>
      rw [heq] at hfull
      exact absurd hsize hfull
    | cons first seen =>
      exact ⟨first, hpage first (by simp), hbefore first (by simp) last (by simp)⟩
  · rw [hsplit] at hblob
    have hrest := (pairwise_cons.mp hafter).1 blob
    simp only [mem_append, mem_cons, not_mem_nil, or_false] at hblob ⊢
    tauto

/-- The loop ends, and examines what it has not come to yet and is not too recent. -/
theorem walkPages_covers (hsize : 2 ≤ pageSize) (fuel turn : ℕ) (lastBlobId : ℕ)
    (examined : List Blob) (hsorted : rows.Pairwise fun a b => a.id < b.id)
    (hfuel : ∀ blob ∈ rows, blob.id < lastBlobId + fuel) (hpos : 0 < fuel) :
    ∃ result, walkPages gone cutoff pageSize fuel turn rows lastBlobId examined =
        some result ∧ ∀ blob, (blob ∈ examined ∨
          blob ∈ rows ∧ lastBlobId ≤ blob.id ∧ blob.updateTime ≤ cutoff → blob ∈ result) ∧
        (blob ∈ result → blob ∈ examined ∨ blob ∈ rows ∧ blob.updateTime ≤ cutoff) := by
  induction fuel generalizing turn rows lastBlobId examined with
  | zero => exact absurd hpos (Nat.lt_irrefl 0)
  | succ fuel ih =>
    simp only [walkPages_succ]
    split_ifs with hshort
    · refine ⟨_, rfl, fun blob => ?_⟩
      rw [take_of_length_le (by rw [length_take] at hshort; omega)]
      grind
    · obtain ⟨seen, last, heq, ⟨first, hfirst, hlt⟩, hlast, hsplit⟩ :=
        exists_last_of_full (hsorted.filter _) hsize hshort
      rw [heq, getLast?_concat, Option.map_some, Option.getD_some]
      obtain ⟨result, hresult, hcovered⟩ := ih (turn + 1) last.id (examined ++ (seen ++ [last]))
        (hsorted.filter _) (by grind) (by grind)
      refine ⟨result, hresult, fun blob => ?_⟩
      have hblob := hcovered blob
      have hpage : blob ∈ seen ++ [last] → blob ∈ rows ∧ blob.updateTime ≤ cutoff := fun hmem => by
        have hfilter := mem_filter.mp (mem_of_mem_take (heq ▸ hmem))
        exact ⟨hfilter.1, (of_decide_eq_true hfilter.2).2⟩
      grind

/-- **Completeness of the walk.**  For distinct ids and pages of at least two rows, the loop over
the pages of a project ends and examines exactly the rows up to the cutoff, also while rows that
it has examined are removed. -/
theorem walkPages_complete (gone : ℕ → Blob → Bool) (rows : List Blob) (cutoff pageSize : ℕ)
    (hdistinct : rows.Pairwise fun a b => a.id < b.id) (hsize : 2 ≤ pageSize) :
    ∃ enough, ∀ fuel, enough ≤ fuel → ∃ examined,
      walkPages gone cutoff pageSize fuel 0 rows 0 [] = some examined ∧
      ∀ blob, blob ∈ examined ↔ blob ∈ rows ∧ blob.updateTime ≤ cutoff := by
  refine ⟨(rows.map Blob.id).sum + 1, fun fuel hfuel => ?_⟩
  have hbound : ∀ blob ∈ rows, blob.id < 0 + fuel := by
    intro blob hblob
    have hle := le_sum_of_mem (mem_map_of_mem (f := Blob.id) hblob)
    omega
  obtain ⟨examined, hwalk, hcovered⟩ :=
    walkPages_covers gone hsize fuel 0 0 [] hdistinct hbound (by omega)
  refine ⟨examined, hwalk, fun blob => ⟨fun hblob => ?_, fun hblob => ?_⟩⟩
  · exact ((hcovered blob).2 hblob).resolve_left not_mem_nil
  · exact (hcovered blob).1 (.inr ⟨hblob.1, Nat.zero_le _, hblob.2⟩)

def threeRows : List Blob :=
  [⟨⟨"a", "", .none, 0, 3⟩, 1⟩, ⟨⟨"b", "", .none, 0, 7⟩, 4⟩, ⟨⟨"c", "", .none, 0, 5⟩, 9⟩]

/-- Pages of two, with every row removed that was examined. -/
theorem walkPages_complete_threeRows :
    ∃ enough, ∀ fuel, enough ≤ fuel → ∃ examined,
      walkPages (fun _ _ => true) 7 2 fuel 0 threeRows 0 [] = some examined ∧
      ∀ blob, blob ∈ examined ↔ blob ∈ threeRows ∧ blob.updateTime ≤ 7 :=
  walkPages_complete _ threeRows 7 2 (by decide) (by decide)

end Pages

/-! ## Chunks -/

section Chunks

variable {size : ℕ} {deleteSet : List Blob}

theorem divide_pos {total workers : ℕ} (htotal : 0 < total) (hworkers : 0 < workers) :
    ∃ size, 0 < size ∧ divide total workers = .ok size := by
  unfold divide
  rw [if_neg hworkers.ne']
  split_ifs with hquotient
  · refine ⟨_, ?_, rfl⟩
    have hlt := Nat.lt_of_div_eq_zero hworkers hquotient
    rwa [Nat.mod_eq_of_lt hlt]
  · exact ⟨_, Nat.pos_of_ne_zero hquotient, rfl⟩

theorem flatten_chunks (size count : ℕ) (deleteSet : List Blob) :
    ((List.range count).map fun index => (deleteSet.drop (index * size)).take size).flatten =
      deleteSet.take (count * size) := by
  induction count with
  | zero => simp
  | succ count ih =>
    rw [range_succ, map_append, flatten_append, ih, Nat.succ_mul, take_add]
    simp

theorem flatten_blobChunks (hsize : 0 < size) :
    (blobChunks size deleteSet).flatten = deleteSet := by
  rw [blobChunks, flatten_chunks]
  apply take_of_length_le
  have hlt := Nat.lt_mul_div_succ (deleteSet.length + size - 1) hsize
  rw [Nat.mul_succ, Nat.mul_comm] at hlt
  omega

theorem ne_nil_of_mem_blobChunks (hsize : 0 < size) {chunk : List Blob}
    (hchunk : chunk ∈ blobChunks size deleteSet) : chunk ≠ [] := by
  obtain ⟨index, hindex, rfl⟩ := mem_map.mp hchunk
  have hle := (Nat.le_div_iff_mul_le hsize).mp (mem_range.mp hindex)
  rw [Nat.succ_mul] at hle
  apply ne_nil_of_length_pos
  rw [length_take, length_drop]
  omega

/-- **Chunks of a sweep.**  The chunks that `sweep` publishes are the set to delete in order, none
of them is empty, and a worker that takes the plan sweeps the chunk of its index. -/
theorem sweep_partitions (gc : GarbageCollector) (trashedArts : List ArtifactTrash)
    (deleteSet : List Blob) (htotal : 0 < deleteSet.length) (hworkers : 0 < gc.workers) :
    ∃ size, 0 < size ∧ divide deleteSet.length gc.workers = .ok size ∧
      sweep gc trashedArts deleteSet =
        (Op.publish ⟨trashedArts, blobChunks size deleteSet⟩ >>= fun () => .ret (.ok ())) ∧
      (blobChunks size deleteSet).flatten = deleteSet ∧
      (∀ chunk ∈ blobChunks size deleteSet, chunk ≠ []) ∧
      ∀ worker fuel, ∃ next, sweepWorker gc worker fuel = .call .takePlan next ∧
        next ⟨trashedArts, blobChunks size deleteSet⟩ =
          forEach (sweepBlob gc worker fuel trashedArts)
            ((blobChunks size deleteSet)[worker]?.getD []) := by
  obtain ⟨size, hsize, hdivide⟩ := divide_pos htotal hworkers
  refine ⟨size, hsize, hdivide, ?_, flatten_blobChunks hsize,
    fun _ => ne_nil_of_mem_blobChunks hsize, fun worker fuel => ⟨_, rfl, rfl⟩⟩
  rw [sweep, if_neg (by omega), hdivide]

theorem sweep_partitions_threeRows :
    ∃ size, 0 < size ∧ (blobChunks size threeRows).flatten = threeRows := by
  obtain ⟨size, hsize, -, -, hflatten, -, -⟩ :=
    sweep_partitions { workers := 2 } [] threeRows (by decide) (by decide)
  exact ⟨size, hsize, hflatten⟩

end Chunks

end Harbor.Blobs
