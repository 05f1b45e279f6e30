import Mathlib.Data.List.Sort
import Mathlib.Data.List.Nodup

/-!
# Sorted sets

A set of members with a score each, in the order of the scores, as the sorted
sets of Redis.  A member is there at most once, whatever is added; the structure
carries that.  In which order members with the same score come is left open.
-/

namespace Harbor.Data

structure SortedSet (α : Type) where
  entries : List (α × ℤ)
  members_nodup : (entries.map Prod.fst).Nodup

namespace SortedSet

variable {α : Type}

def empty : SortedSet α := ⟨[], List.nodup_nil⟩

instance : Membership (α × ℤ) (SortedSet α) := ⟨fun set entry => entry ∈ set.entries⟩

variable {set : SortedSet α} {entry : α × ℤ}

theorem mem_def : entry ∈ set ↔ entry ∈ set.entries := Iff.rfl

@[ext] theorem ext_entries {other : SortedSet α} (h : set.entries = other.entries) :
    set = other := by
  cases set
  cases other
  cases h
  rfl

theorem not_mem_empty (entry : α × ℤ) : entry ∉ (empty : SortedSet α) := List.not_mem_nil

theorem eq_of_mem {first second : α × ℤ} (hfirst : first ∈ set) (hsecond : second ∈ set)
    (hmember : first.1 = second.1) : first = second :=
  List.inj_on_of_nodup_map set.members_nodup hfirst hsecond hmember

/-- Keep the entries that satisfy a condition (`ZREM` and `ZREMRANGEBYSCORE`). -/
def keep (set : SortedSet α) (cond : α × ℤ → Prop) [DecidablePred cond] : SortedSet α where
  entries := set.entries.filter cond
  members_nodup := set.members_nodup.sublist (List.filter_sublist.map _)

@[simp] theorem mem_keep {cond : α × ℤ → Prop} [DecidablePred cond] :
    entry ∈ set.keep cond ↔ entry ∈ set ∧ cond entry := by
  simp [mem_def, keep]

variable [DecidableEq α]

/-- `ZADD`: a member that is there gets the new score. -/
def add (set : SortedSet α) (member : α) (score : ℤ) : SortedSet α where
  entries := (set.keep fun entry => entry.1 ≠ member).entries.orderedInsert
    (fun first second => first.2 ≤ second.2) (member, score)
  members_nodup := by
    rw [((List.perm_orderedInsert _ _ _).map Prod.fst).nodup_iff, List.map_cons, List.nodup_cons]
    refine ⟨fun hmem => ?_, (set.keep _).members_nodup⟩
    obtain ⟨entry, hentry, hmember⟩ := List.mem_map.mp hmem
    exact (mem_keep.mp hentry).2 hmember

@[simp] theorem mem_add {member : α} {score : ℤ} :
    entry ∈ set.add member score ↔
      entry = (member, score) ∨ (entry ∈ set ∧ entry.1 ≠ member) := by
  rw [mem_def, add, List.mem_orderedInsert, ← mem_def, mem_keep]

/-- `ZADD NX`: a member that is there keeps its score. -/
def addNew (set : SortedSet α) (member : α) (score : ℤ) : SortedSet α :=
  if member ∈ set.entries.map Prod.fst then set else set.add member score

end SortedSet

end Harbor.Data
