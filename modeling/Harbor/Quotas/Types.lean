import Harbor.Data.Assoc
import Mathlib.Tactic

/-!
# Resource lists

`pkg/quota/types/resources.go`.  A resource list is a finite map from resource
names to 64-bit integers; the operations on it are loops over the entries, and
integer arithmetic wraps around as in the source.

`Types.amount` reads a list as a total function, with zero for what is not
listed.  In these terms the operations are pointwise addition and subtraction.
-/

namespace Harbor.Quotas

open Harbor.Data

abbrev ResourceName : Type := String

abbrev ResourceList : Type := AList fun _ : ResourceName => Int64

namespace Types

def unlimited : Int64 := -1

def resourceStorage : ResourceName := "storage"

def equals (a b : ResourceList) : Bool :=
  a.entries.length = b.entries.length ∧
    a.entries.all fun entry =>
      match b.lookup entry.1 with
      | none => false
      | some value => entry.2 = value

def add (a b : ResourceList) : ResourceList :=
  b.entries.foldl (fun result entry =>
      if entry.1 ∈ result then result else result.insert entry.1 entry.2)
    (a.entries.foldl (fun result entry =>
      result.insert entry.1 (match b.lookup entry.1 with
        | some other => entry.2 + other
        | none => entry.2)) ∅)

def subtract (a b : ResourceList) : ResourceList :=
  b.entries.foldl (fun result entry =>
      if entry.1 ∈ result then result else result.insert entry.1 (-entry.2))
    (a.entries.foldl (fun result entry =>
      result.insert entry.1 (match b.lookup entry.1 with
        | some other => entry.2 - other
        | none => entry.2)) ∅)

/-- `IsNegative`: the resources with a negative value. -/
def isNegative (a : ResourceList) : List ResourceName :=
  (a.entries.filter fun entry => entry.2 < 0).map Sigma.fst

/-- The value of a resource, zero if it is not listed. -/
def amount (a : ResourceList) (resource : ResourceName) : Int64 :=
  (a.lookup resource).getD 0

section Lookup

variable {a b : ResourceList} {resource : ResourceName}

theorem mem_entries_iff {value : Int64} :
    (⟨resource, value⟩ : Sigma fun _ : ResourceName => Int64) ∈ a.entries ↔
      a.lookup resource = some value :=
  (AList.mem_lookup_iff).symm

theorem equals_iff : equals a b = true ↔ ∀ resource, a.lookup resource = b.lookup resource := by
  simp only [equals, decide_eq_true_eq, List.all_eq_true]
  constructor
  · rintro ⟨hlength, hentries⟩
    refine lookup_eq_of_length_eq hlength fun resource value hvalue => ?_
    have hentry := hentries ⟨resource, value⟩ (mem_entries_iff.mpr hvalue)
    cases hother : b.lookup resource with
    | none => simp [hother] at hentry
    | some other =>
      simp only [hother, decide_eq_true_eq] at hentry
      rw [hentry]
  · intro hlookup
    refine ⟨length_eq_of_lookup_eq hlookup, ?_⟩
    rintro ⟨resource, value⟩ hentry
    have hvalue := mem_entries_iff.mp hentry
    simp [← hlookup resource, hvalue]

theorem lookup_add (a b : ResourceList) (resource : ResourceName) :
    (add a b).lookup resource =
      match a.lookup resource, b.lookup resource with
      | some value, some other => some (value + other)
      | some value, none => some value
      | none, other => other := by
  have hfirst := lookup_foldl_insert (fun key (value : Int64) =>
    match b.lookup key with
    | some other => value + other
    | none => value) a ∅ resource
  unfold add
  rw [lookup_foldl_insert_absent (fun _ (value : Int64) => value), hfirst]
  cases a.lookup resource <;> cases b.lookup resource <;> simp

theorem lookup_subtract (a b : ResourceList) (resource : ResourceName) :
    (subtract a b).lookup resource =
      match a.lookup resource, b.lookup resource with
      | some value, some other => some (value - other)
      | some value, none => some value
      | none, other => other.map fun value => -value := by
  have hfirst := lookup_foldl_insert (fun key (value : Int64) =>
    match b.lookup key with
    | some other => value - other
    | none => value) a ∅ resource
  unfold subtract
  rw [lookup_foldl_insert_absent (fun _ (value : Int64) => -value), hfirst]
  cases a.lookup resource <;> cases b.lookup resource <;> simp

@[simp] theorem amount_add (a b : ResourceList) (resource : ResourceName) :
    amount (add a b) resource = amount a resource + amount b resource := by
  unfold amount
  rw [lookup_add]
  cases a.lookup resource <;> cases b.lookup resource <;> simp

@[simp] theorem amount_subtract (a b : ResourceList) (resource : ResourceName) :
    amount (subtract a b) resource = amount a resource - amount b resource := by
  unfold amount
  rw [lookup_subtract]
  cases a.lookup resource <;> cases b.lookup resource <;> simp

theorem amount_eq_of_equals (h : equals a b = true) (resource : ResourceName) :
    amount a resource = amount b resource := by
  unfold amount
  rw [equals_iff.mp h]

theorem isNegative_eq_nil :
    isNegative a = [] ↔ ∀ resource value, a.lookup resource = some value → 0 ≤ value := by
  simp only [isNegative, List.map_eq_nil_iff, List.filter_eq_nil_iff, decide_eq_true_eq]
  constructor
  · intro h resource value hvalue
    exact Int64.not_lt.mp (h ⟨resource, value⟩ (mem_entries_iff.mpr hvalue))
  · rintro h ⟨resource, value⟩ hentry
    exact Int64.not_lt.mpr (h resource value (mem_entries_iff.mp hentry))

end Lookup

end Types

end Harbor.Quotas
