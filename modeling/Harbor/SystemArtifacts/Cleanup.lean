import Mathlib.Data.List.TakeWhile
import Mathlib.Logic.Function.Basic
import Mathlib.Tactic

/-!
# Clean-up of system artifacts

A system artifact is a record in the database with a blob in the registry.  `Cleanup` goes
through the records that each registered criterion selects, then through those of the default
criterion, and leaves the list of a criterion at the first deletion that fails.  So a record is
removed exactly if it stands before every failing one in the list of some criterion: the failing
ones stay where they are, whatever the criteria before have removed (`foldl_cleanup_eq_none`).
-/

namespace Harbor.SystemArtifacts

open List Function

structure SystemArtifact where
  vendor : String
  repository : String
  digest : String
  type : String
  deriving DecidableEq

/-- The records that exist, and whether their blobs do. -/
abbrev Table := SystemArtifact → Option Bool

/-- The call that fails in the deletion of a record, other than by a missing blob. -/
inductive Fault
  | none
  | deleteBlob
  | deleteRecord
  deriving DecidableEq

/-- A criterion with the records that it selects while they exist. -/
structure Selector where
  isDefault : Bool := false
  selects : List SystemArtifact
  distinct : selects.Nodup

def isSelectorRegistered (criteria : List (String × Selector)) (record : SystemArtifact) : Bool :=
  criteria.any (·.1 = record.vendor ++ ":" ++ record.type)

section Cleanup

variable (fault : SystemArtifact → Fault) (criteria : List (String × Selector))

/-- `Delete`, and whether it succeeds. -/
def delete (record : SystemArtifact) (table : Table) : Table × Bool :=
  if table record = some true ∧ fault record ≠ .deleteBlob then
    if fault record = .deleteRecord then (Function.update table record (some false), false)
    else (Function.update table record none, true)
  else (table, false)

/-- The loop of `cleanup`. -/
def deleteAll : List SystemArtifact → Table → Table
  | [], table => table
  | record :: rest, table =>
    match delete fault record table with
    | (table, true) => deleteAll rest table
    | (table, false) => table

/-- The records that the loop does not skip. -/
def Selector.list (selector : Selector) (table : Table) : List SystemArtifact :=
  selector.selects.filter fun record =>
    (table record).isSome ∧ ¬ (selector.isDefault ∧ isSelectorRegistered criteria record)

def cleanup (table : Table) (selector : Selector) : Table :=
  deleteAll fault (selector.list criteria table) table

/-- The registered criteria in the order of the map, and the default one. -/
def selectors (default : Selector) : List Selector := criteria.map (·.2) ++ [default]

def cleanupAll (default : Selector) (table : Table) : Table :=
  (selectors criteria default).foldl (cleanup fault criteria) table

end Cleanup

/-! ## One criterion -/

section Steps

variable {fault : SystemArtifact → Fault} {criteria : List (String × Selector)}
  {table after : Table} {record : SystemArtifact}

/-- The calls for the record succeed. -/
def Succeeds (fault : SystemArtifact → Fault) (table : Table) (record : SystemArtifact) : Prop :=
  table record = some true ∧ fault record = .none

instance : Decidable (Succeeds fault table record) := inferInstanceAs (Decidable (_ ∧ _))

/-- A record that succeeds is kept as it is or removed, any other stays and fails again. -/
def Cleans (fault : SystemArtifact → Fault) (table after : Table) : Prop :=
  ∀ record, after record = table record ∨
    (Succeeds fault table record ∧ after record = none) ∨
      ¬ Succeeds fault table record ∧ after record = some false ∧ table record ≠ none

variable (h : Cleans fault table after)
include h

theorem Cleans.trans {last : Table} (h' : Cleans fault after last) : Cleans fault table last := by
  intro record
  have hfirst := h record
  have hsecond := h' record
  unfold Succeeds at *
  grind

theorem Cleans.ne_none (hleft : after record ≠ none) : table record ≠ none := by
  have hrecord := h record
  grind

/-- What is left fails and succeeds as before. -/
theorem Cleans.succeeds_iff (hleft : after record ≠ none) :
    Succeeds fault after record ↔ Succeeds fault table record := by
  have hrecord := h record
  unfold Succeeds at *
  grind

theorem Cleans.left_of_fails (hfails : ¬ Succeeds fault table record)
    (hbefore : table record ≠ none) : after record ≠ none := by
  have hrecord := h record
  grind

omit h

theorem delete_of_succeeds (h : Succeeds fault table record) :
    delete fault record table = (Function.update table record none, true) := by
  simp [delete, h.1, h.2]

theorem cleans_update {value : Option Bool} (h : Succeeds fault table record ∧ value = none ∨
      ¬ Succeeds fault table record ∧ value = some false ∧ table record ≠ none) :
    Cleans fault table (Function.update table record value) := by
  intro other
  by_cases hother : other = record
  · subst hother
    rw [update_self]
    exact .inr h
  · exact .inl (update_of_ne hother _ _)

theorem delete_of_fails (h : ¬ Succeeds fault table record) :
    ∃ after, delete fault record table = (after, false) ∧ (after = table ∨
      after = Function.update table record (some false) ∧ table record ≠ none) := by
  unfold delete
  split_ifs with hblob hfault
  · exact ⟨_, rfl, .inr ⟨rfl, by simp [hblob.1]⟩⟩
  · cases hf : fault record <;> simp_all [Succeeds]
  · exact ⟨_, rfl, .inl rfl⟩

theorem cleans_deleteAll (list : List SystemArtifact) (table : Table) :
    Cleans fault table (deleteAll fault list table) := by
  induction list generalizing table with
  | nil => exact fun _ => .inl rfl
  | cons record rest ih =>
    rw [deleteAll]
    by_cases hrecord : Succeeds fault table record
    · rw [delete_of_succeeds hrecord]
      exact (cleans_update (.inl ⟨hrecord, rfl⟩)).trans (ih _)
    · obtain ⟨after, hdelete, rfl | ⟨rfl, hpresent⟩⟩ := delete_of_fails hrecord <;> rw [hdelete]
      · exact fun _ => .inl rfl
      · exact cleans_update (.inr ⟨hrecord, rfl, hpresent⟩)

theorem mem_takeWhile_filter {α : Type*} {p p' q : α → Bool} {list : List α} {a : α}
    (hq : ∀ b ∈ list, p b = false → q b) (hp : ∀ b ∈ list, q b → p' b = p b) (ha : q a) :
    a ∈ (list.filter q).takeWhile p' ↔ a ∈ list.takeWhile p := by
  induction list with
  | nil => rfl
  | cons b rest ih =>
    obtain ⟨hqb, hq⟩ := forall_mem_cons.mp hq
    obtain ⟨hpb, hp⟩ := forall_mem_cons.mp hp
    cases hb : p b with
    | false => simp [hqb hb, hpb (hqb hb), hb]
    | true =>
      cases hkept : q b with
      | false =>
        have hne : a ≠ b := by
          rintro rfl
          simp [hkept] at ha
        simp [hkept, hb, hne, ih hq hp]
      | true => simp [hkept, hb, hpb hkept, ih hq hp]

/-- The loop removes the records before the first failing one. -/
theorem deleteAll_eq_none_iff {list : List SystemArtifact} (hdistinct : list.Nodup) :
    deleteAll fault list table record = none ↔
      table record = none ∨ record ∈ list.takeWhile (Succeeds fault table ·) := by
  induction list generalizing table with
  | nil => simp [deleteAll]
  | cons first rest ih =>
    obtain ⟨hfirst, hrest⟩ := nodup_cons.mp hdistinct
    rw [deleteAll]
    by_cases hsucceeds : Succeeds fault table first
    · rw [delete_of_succeeds hsucceeds, ih hrest, takeWhile_cons_of_pos (by simpa)]
      by_cases heq : record = first
      · simp [heq]
      · rw [update_of_ne heq, mem_cons, or_iff_right heq]
        rw [← mem_takeWhile_filter (q := fun _ => true) (by simp) (fun other hother _ => ?_) rfl,
          filter_true]
        have hne := ne_of_mem_of_not_mem hother hfirst
        exact decide_eq_decide.mpr (by rw [Succeeds, Succeeds, update_of_ne hne])
    · obtain ⟨after, hdelete, rfl | ⟨rfl, hpresent⟩⟩ := delete_of_fails hsucceeds <;>
        rw [hdelete, takeWhile_cons_of_neg (by simpa)]
      · simp
      · by_cases heq : record = first
        · simp [heq, hpresent]
        · simp [heq]

/-! ## All criteria -/

/-- The criteria before a criterion remove succeeding records from its list and nothing else. -/
theorem Cleans.mem_takeWhile_iff (h : Cleans fault table after) (selector : Selector)
    (hleft : after record ≠ none) :
    record ∈ (selector.list criteria after).takeWhile (Succeeds fault after ·) ↔
      record ∈ (selector.list criteria table).takeWhile (Succeeds fault table ·) := by
  have hlist : selector.list criteria after =
      (selector.list criteria table).filter (after · ≠ none) := by
    rw [Selector.list, Selector.list, filter_filter]
    refine filter_congr fun other _ => ?_
    have hother := @h.ne_none _ _ _ other
    simp only [ne_eq, decide_not, Bool.decide_and, Option.isSome_iff_ne_none] at *
    grind
  rw [hlist]
  refine mem_takeWhile_filter (fun other hother hfails => ?_) (fun other _ hkept => ?_) (by simpa)
  · have hbefore := (of_decide_eq_true (mem_filter.mp hother).2).1
    exact decide_eq_true (h.left_of_fails (of_decide_eq_false hfails)
      (Option.isSome_iff_ne_none.mp hbefore))
  · exact decide_eq_decide.mpr (h.succeeds_iff (of_decide_eq_true hkept))

theorem foldl_cleanup_eq_none (selectors : List Selector) (table : Table) :
    selectors.foldl (cleanup fault criteria) table record = none ↔
      table record = none ∨ ∃ selector ∈ selectors,
        record ∈ (selector.list criteria table).takeWhile (Succeeds fault table ·) := by
  induction selectors generalizing table with
  | nil => simp
  | cons first rest ih =>
    have hfirst : Cleans fault table (cleanup fault criteria table first) :=
      cleans_deleteAll _ table
    have hnone : cleanup fault criteria table first record = none ↔ _ :=
      deleteAll_eq_none_iff (first.distinct.filter _)
    rw [foldl_cons, ih, exists_mem_cons_iff, ← or_assoc, ← hnone]
    refine or_congr_right' fun hleft => exists_congr fun selector => and_congr_right fun _ => ?_
    exact hfirst.mem_takeWhile_iff selector hleft

end Steps

/-- **Progress of a clean-up.**  A record whose calls succeed is removed exactly if it stands
before every failing one in the list of some criterion, and a run without faults removes all
selected records exactly if their blobs exist. -/
theorem cleanupAll_progress (criteria : List (String × Selector)) (default : Selector)
    (table : Table) :
    (∀ fault record, Succeeds fault table record →
      (cleanupAll fault criteria default table record = none ↔
        ∃ selector ∈ selectors criteria default,
          record ∈ (selector.list criteria table).takeWhile (Succeeds fault table ·))) ∧
    ((∀ selector ∈ selectors criteria default,
        ∀ record ∈ selector.list criteria table,
          cleanupAll (fun _ => .none) criteria default table record = none) ↔
      ∀ selector ∈ selectors criteria default,
        ∀ record ∈ selector.list criteria table,
          table record = some true) := by
  refine ⟨fun fault record hsucceeds => ?_, fun hnone selector hselector record hrecord => ?_,
    fun hblobs selector hselector record hrecord => ?_⟩
  · rw [cleanupAll, foldl_cleanup_eq_none, or_iff_right (by simp [hsucceeds.1])]
  · have hpresent := (of_decide_eq_true (mem_filter.mp hrecord).2).1
    obtain habsent | ⟨_, -, hmem⟩ :=
      (foldl_cleanup_eq_none _ table).mp (hnone selector hselector record hrecord)
    · simp [habsent] at hpresent
    · have hsucceeds := mem_takeWhile_imp hmem
      exact (of_decide_eq_true hsucceeds).1
  · refine (foldl_cleanup_eq_none _ table).mpr (.inr ⟨selector, hselector, ?_⟩)
    rwa [takeWhile_eq_self_iff.mpr fun other hother =>
      decide_eq_true ⟨hblobs selector hselector other hother, rfl⟩]

def firstRecord : SystemArtifact := ⟨"scan", "report", "sha256:1", "csv"⟩

def secondRecord : SystemArtifact := ⟨"scan", "report", "sha256:2", "csv"⟩

def olderThanADay : Selector := ⟨true, [firstRecord, secondRecord], by decide⟩

/-- The last record of a list may fail. -/
theorem cleanupAll_progress_last :
    cleanupAll (fun record => if record = firstRecord then .deleteRecord else .none) []
      ⟨true, [secondRecord, firstRecord], by decide⟩ (fun _ => some true) secondRecord = none :=
  ((cleanupAll_progress [] _ _).1 _ secondRecord ⟨rfl, rfl⟩).mpr
    ⟨_, mem_singleton.mpr rfl, by decide +kernel⟩

/-- The record of the first is not deleted in a run: the second stays, then and in a later run
without faults, in which the blob of the first is not found. -/
theorem cleanupAll_stuck :
    let after := cleanupAll (fun record => if record = firstRecord then .deleteRecord else .none)
      [] olderThanADay fun _ => some true
    after secondRecord = some true ∧
      cleanupAll (fun _ => .none) [] olderThanADay after secondRecord = some true := by
  decide +kernel

end Harbor.SystemArtifacts
