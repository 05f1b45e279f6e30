import Harbor.Cached.Keys
import Harbor.Concurrency.Transition
import Mathlib.Data.List.Infix
import Mathlib.Logic.Function.Basic

/-!
# The cache of project metadata

The metadata of a project are rows with a name and a value.  A query asks for the rows with
given names, or for all of them.  The cached manager keeps the answer to every query under
a key made of the project and the list of names.  A write changes the answers to many
queries but does not evict all of their keys: adding rows evicts the query for all rows,
deleting rows evicts the query for the same names, and only an update evicts every query of
the project.

The calls here come one after the other, outside of transactions; Redis is available and no
key expires.
-/

namespace Harbor.Cached

open Concurrency Data.Split List

/-! ## The manager without a cache -/

structure MetaRow where
  projectID : ℕ
  name : String
  value : String
  deriving DecidableEq, Repr

variable (projectID : ℕ) (names : List String)

/-- The rows of a project with the given names; without names, all of them. -/
def MetaRow.selected (row : MetaRow) : Bool :=
  row.projectID == projectID && (names.isEmpty || names.contains row.name)

/-- Metadata as a map from names to values. -/
abbrev Metadata : Type := String → Option String

namespace Uncached

variable (table : List MetaRow)

/-- `Create` of the rows; a row that exists is a conflict. -/
def create (row : MetaRow) : Option (List MetaRow) :=
  if table.any fun other => other.projectID == row.projectID && other.name == row.name then none
  else some (table ++ [row])

/-- `Add`, in a transaction. -/
def add (projectID : ℕ) (entries : List (String × String)) : Option (List MetaRow) :=
  entries.foldlM (fun table entry => create table ⟨projectID, entry.1, entry.2⟩) table

/-- `Update` of one row, if it exists. -/
def setValue (entry : String × String) : List MetaRow :=
  table.map fun row =>
    if row.projectID = projectID ∧ row.name = entry.1 then { row with value := entry.2 } else row

def update (projectID : ℕ) (entries : List (String × String)) : List MetaRow :=
  entries.foldl (setValue projectID) table

def delete (projectID : ℕ) (names : List String) : List MetaRow :=
  table.filter fun row => !row.selected projectID names

def get (projectID : ℕ) (names : List String) : Metadata :=
  fun name =>
    ((table.filter (MetaRow.selected projectID names)).reverse.find? (·.name == name)).map
      MetaRow.value

end Uncached

/-! ## The manager with a cache -/

/-- The keys of a project start with this text. -/
def projectPrefix : String :=
  format "project_metadata" ["projectID", toString projectID]

def metaKey : String :=
  format "project_metadata" ["projectID", toString projectID, "meta", join names ',']

structure MetaManager where
  table : List MetaRow
  cache : String → Option Metadata := fun _ => none

inductive MetaCall
  | add (projectID : ℕ) (entries : List (String × String))
  | update (projectID : ℕ) (entries : List (String × String))
  | delete (projectID : ℕ) (names : List String)
  | get (projectID : ℕ) (names : List String)

variable (manager : MetaManager)

namespace MetaManager

def cleanUpKeys : MetaManager :=
  { manager with cache := Function.update manager.cache (metaKey projectID names) none }

/-- The keys that contain the text are deleted. -/
def deleteMatching (text : String) : MetaManager :=
  { manager with
    cache := fun key => if text.toList <:+: key.toList then none else manager.cache key }

/-- `Add`; after a conflict nothing is changed. -/
def add (entries : List (String × String)) : MetaManager :=
  match Uncached.add manager.table projectID entries with
  | none => manager
  | some table => { manager with table }.cleanUpKeys projectID []

def update (entries : List (String × String)) : MetaManager :=
  { manager with table := Uncached.update manager.table projectID entries }.deleteMatching
    (projectPrefix projectID)

def delete : MetaManager :=
  { manager with table := Uncached.delete manager.table projectID names }.cleanUpKeys projectID
    names

def answer : Metadata :=
  (manager.cache (metaKey projectID names)).getD (Uncached.get manager.table projectID names)

/-- `Get` saves an answer from the database unless it is empty. -/
def get : MetaManager :=
  if (manager.cache (metaKey projectID names)).isNone &&
      manager.table.any (MetaRow.selected projectID names) then
    { manager with
      cache := Function.update manager.cache (metaKey projectID names)
        (some (Uncached.get manager.table projectID names)) }
  else manager

def step : MetaCall → Option MetaManager
  | .add projectID entries => some (manager.add projectID entries)
  | .update projectID entries => some (manager.update projectID entries)
  | .delete projectID names => some (manager.delete projectID names)
  | .get projectID names => some (manager.get projectID names)

/-- The answer to a query is the one that the manager without a cache gives. -/
def Transparent (before : MetaManager) : MetaCall → Prop
  | .get projectID names =>
    before.answer projectID names = Uncached.get before.table projectID names
  | _ => True

end MetaManager

/-! ## Keys -/

/-- Names that can be told from each other in a key. -/
def Distinct : Prop :=
  ∀ name ∈ names, name ≠ "" ∧ ',' ∉ name.toList

instance (names : List String) : Decidable (Distinct names) :=
  List.decidableBAll _ _

theorem join_inj {first second : List String} (hfirst : Distinct first)
    (hsecond : Distinct second) (h : join first ',' = join second ',') : first = second := by
  have hempty : ∀ {names : List String}, Distinct names → join names ',' = "" → names = [] := by
    intro names hnames hjoin
    -- no name is empty, so only the empty list is joined to an empty text
    by_contra hne
    have hsplit := split_join hne fun name hname => (hnames name hname).2
    rw [hjoin] at hsplit
    exact (hnames "" (by rw [← hsplit]; decide)).1 rfl
  by_cases hfirstNil : first = []
  · subst hfirstNil
    exact (hempty hsecond h.symm).symm
  · by_cases hsecondNil : second = []
    · subst hsecondNil
      exact hempty hfirst h
    · rw [← split_join hfirstNil fun name hname => (hfirst name hname).2, h,
        split_join hsecondNil fun name hname => (hsecond name hname).2]

theorem metaKey_inj {projectID projectID' : ℕ} {names names' : List String}
    (hnames : Distinct names) (hnames' : Distinct names')
    (h : metaKey projectID names = metaKey projectID' names') :
    projectID = projectID' ∧ names = names' := by
  obtain ⟨-, h⟩ := format_cons_inj h (by decide) (by decide)
  obtain ⟨-, h⟩ := format_cons_inj h (by decide) (by decide)
  obtain ⟨hproject, h⟩ := format_cons_inj h (notMem_toString _) (notMem_toString _)
  obtain ⟨-, h⟩ := format_cons_inj h (by decide) (by decide)
  exact ⟨toString_inj hproject, join_inj hnames hnames' h⟩

theorem metaKey_contains_project :
    (projectPrefix projectID).toList <:+: (metaKey projectID names).toList := by
  have hkey : metaKey projectID names = format (projectPrefix projectID)
      ["meta", join names ','] := format_append _ ["projectID", toString projectID] _
  rw [hkey, toList_format]
  exact (prefix_append _ _).isInfix

/-! ## What writes leave unchanged -/

namespace Uncached

variable {projectID : ℕ} {names : List String} {table : List MetaRow}
  {entries : List (String × String)} {other : ℕ} {next : List MetaRow}

theorem get_congr {first second : List MetaRow}
    (h : first.filter (MetaRow.selected projectID names) =
      second.filter (MetaRow.selected projectID names)) :
    get first projectID names = get second projectID names := by
  unfold get
  rw [h]

theorem add_eq_some (h : add table projectID entries = some next) :
    next = table ++ entries.map fun entry => ⟨projectID, entry.1, entry.2⟩ := by
  induction entries generalizing table with
  | nil =>
    cases h
    simp
  | cons entry rest ih =>
    rw [add, foldlM_cons] at h
    obtain ⟨mid, hmid, hrest⟩ := Option.bind_eq_some_iff.mp h
    unfold create at hmid
    split_ifs at hmid
    cases hmid
    rw [ih hrest, map_cons, append_assoc]
    rfl

theorem get_add (h : add table projectID entries = some next)
    (hother : other ≠ projectID ∨ names ≠ [] ∧ ∀ entry ∈ entries, entry.1 ∉ names) :
    get next other names = get table other names := by
  refine get_congr ?_
  rw [add_eq_some h, filter_append]
  have hnone : (entries.map fun entry => (⟨projectID, entry.1, entry.2⟩ : MetaRow)).filter
      (MetaRow.selected other names) = [] := by
    refine filter_eq_nil_iff.mpr fun row hrow => ?_
    obtain ⟨entry, hentry, rfl⟩ := mem_map.mp hrow
    rcases hother with hne | ⟨hne, hnames⟩
    · simp [MetaRow.selected, Ne.symm hne]
    · simp [MetaRow.selected, hne, hnames entry hentry]
  rw [hnone, append_nil]

theorem get_delete {deleted : List String}
    (hother : other ≠ projectID ∨ deleted ≠ [] ∧ names ≠ [] ∧ ∀ name ∈ deleted, name ∉ names) :
    get (delete table projectID deleted) other names = get table other names := by
  refine get_congr ?_
  rw [delete, List.filter_filter]
  refine List.filter_congr fun row _ => ?_
  cases hselected : row.selected other names with
  | false => simp
  | true =>
    simp only [MetaRow.selected, Bool.and_eq_true, beq_iff_eq, Bool.or_eq_true,
      List.isEmpty_iff, List.contains_iff_mem] at hselected
    have hkept : row.selected projectID deleted = false := by
      rcases hother with hne | ⟨hdeleted, hnames, hdisjoint⟩
      · simp [MetaRow.selected, hselected.1, hne]
      · have hname := hselected.2.resolve_left hnames
        have hnot : row.name ∉ deleted := fun hmem => hdisjoint row.name hmem hname
        simp [MetaRow.selected, hdeleted, hnot]
    simp [hkept]

theorem get_update (hother : other ≠ projectID) :
    get (update table projectID entries) other names = get table other names := by
  refine get_congr ?_
  unfold update
  induction entries generalizing table with
  | nil => rfl
  | cons entry rest ih =>
    rw [foldl_cons, ih, setValue, filter_map]
    have hselected : (MetaRow.selected other names ∘ fun row : MetaRow =>
        if row.projectID = projectID ∧ row.name = entry.1 then { row with value := entry.2 }
        else row) = MetaRow.selected other names := by
      funext row
      simp only [Function.comp_apply]
      split_ifs <;> rfl
    rw [hselected]
    refine (map_congr_left fun row hrow => if_neg fun hsame => ?_).trans (map_id _)
    have hproject := (Bool.and_eq_true_iff.mp (mem_filter.mp hrow).2).1
    exact hother ((beq_iff_eq.mp hproject).symm.trans hsame.1)

end Uncached

/-! ## When the cache is transparent -/

namespace MetaManager

/-- Every cached answer is the current one. -/
def Fresh : Prop :=
  ∀ projectID names, Distinct names → ∀ cached ∈ manager.cache (metaKey projectID names),
    cached = Uncached.get manager.table projectID names

/-- The call does not change a query that stays in the cache, and its names can be told from
each other. -/
def Tidy (before : MetaManager) : MetaCall → Prop
  | .add projectID entries => ∀ names, Distinct names → names ≠ [] →
      before.cache (metaKey projectID names) ≠ none → ∀ entry ∈ entries, entry.1 ∉ names
  | .update _ _ => True
  | .delete projectID deleted => Distinct deleted ∧ ∀ names, Distinct names → names ≠ deleted →
      before.cache (metaKey projectID names) ≠ none →
        deleted ≠ [] ∧ names ≠ [] ∧ ∀ name ∈ deleted, name ∉ names
  | .get _ names => Distinct names

variable {manager : MetaManager} {projectID : ℕ} {names : List String} {key : String}
  {cached : Metadata} {call : MetaCall}

theorem mem_cleanUpKeys :
    cached ∈ (manager.cleanUpKeys projectID names).cache key ↔
      key ≠ metaKey projectID names ∧ cached ∈ manager.cache key := by
  unfold cleanUpKeys
  by_cases hkey : key = metaKey projectID names
  · simp [hkey]
  · simp [hkey, Function.update_of_ne]

theorem mem_deleteMatching {text : String} :
    cached ∈ (manager.deleteMatching text).cache key ↔
      ¬ text.toList <:+: key.toList ∧ cached ∈ manager.cache key := by
  unfold deleteMatching
  by_cases hmatch : text.toList <:+: key.toList <;> simp [hmatch]

/-- A query that stays in the cache when rows are added is for other names. -/
theorem Fresh.add (h : manager.Fresh) {entries : List (String × String)}
    (htidy : manager.Tidy (.add projectID entries)) : (manager.add projectID entries).Fresh := by
  unfold MetaManager.add
  cases hadd : Uncached.add manager.table projectID entries with
  | none => exact h
  | some table =>
    intro other names hnames cached hkept
    obtain ⟨hkey, hcached⟩ := mem_cleanUpKeys.mp hkept
    refine (h other names hnames cached hcached).trans (Uncached.get_add hadd ?_).symm
    by_cases hproject : other = projectID
    · subst hproject
      -- the query for all rows has been evicted
      have hne : names ≠ [] := fun hnil => hkey (by rw [hnil])
      exact .inr ⟨hne, htidy names hnames hne (Option.ne_none_iff_exists'.mpr ⟨cached, hcached⟩)⟩
    · exact .inl hproject

theorem Fresh.delete (h : manager.Fresh) {deleted : List String}
    (htidy : manager.Tidy (.delete projectID deleted)) :
    (manager.delete projectID deleted).Fresh := by
  intro other names hnames cached hkept
  obtain ⟨hkey, hcached⟩ := mem_cleanUpKeys.mp hkept
  refine (h other names hnames cached hcached).trans (Uncached.get_delete ?_).symm
  by_cases hproject : other = projectID
  · subst hproject
    have hne : names ≠ deleted := fun heq => hkey (by rw [heq])
    exact .inr (htidy.2 names hnames hne (Option.ne_none_iff_exists'.mpr ⟨cached, hcached⟩))
  · exact .inl hproject

theorem Fresh.update (h : manager.Fresh) (projectID : ℕ) (entries : List (String × String)) :
    (manager.update projectID entries).Fresh := by
  intro other names hnames cached hkept
  obtain ⟨hmatch, hcached⟩ := mem_deleteMatching.mp hkept
  refine (h other names hnames cached hcached).trans (Uncached.get_update ?_).symm
  rintro rfl
  exact hmatch (metaKey_contains_project other names)

theorem Fresh.get (h : manager.Fresh) (hnames : Distinct names) :
    (manager.get projectID names).Fresh := by
  unfold MetaManager.get
  split_ifs
  · intro other others hothers cached hcached
    by_cases hkey : metaKey other others = metaKey projectID names
    · obtain ⟨rfl, rfl⟩ := metaKey_inj hothers hnames hkey
      simp only [Function.update_self] at hcached
      exact (Option.some.inj hcached).symm
    · simp only [Function.update_of_ne hkey] at hcached
      exact h other others hothers cached hcached
  · exact h

theorem Fresh.step {next : MetaManager} (h : manager.Fresh) (hstep : manager.step call = some next)
    (htidy : manager.Tidy call) : next.Fresh := by
  cases call with
  | add projectID entries =>
    cases hstep
    exact h.add htidy
  | update projectID entries =>
    cases hstep
    exact h.update projectID entries
  | delete projectID names =>
    cases hstep
    exact h.delete htidy
  | get projectID names =>
    cases hstep
    exact h.get htidy

theorem Fresh.transparent (h : manager.Fresh) (htidy : manager.Tidy call) :
    manager.Transparent call := by
  cases call with
  | get projectID names =>
    show (manager.cache (metaKey projectID names)).getD _ = _
    cases hcached : manager.cache (metaKey projectID names) with
    | none => rfl
    | some cached => exact h projectID names htidy cached hcached
  | _ => trivial

/-- **The cache of metadata is transparent** for sequences of calls that never change a query
which stays in the cache. -/
theorem metadata_cache_transparent (table : List MetaRow) (calls : List MetaCall)
    (htidy : EveryStep step (fun before call _ => before.Tidy call) { table } calls) :
    EveryStep step (fun before call _ => before.Transparent call) { table } calls := by
  refine everyStep_of_invariant Fresh ?_ ?_ htidy
  · intro before call next hfresh hstep hcall
    exact ⟨hfresh.step hstep hcall, hfresh.transparent hcall⟩
  · intro projectID names _ cached hcached
    cases hcached

/-- Two queries for different names do not disturb each other. -/
theorem metadata_cache_transparent_two_names :
    EveryStep step (fun before call _ => before.Transparent call)
      { table := [⟨1, "public", "true"⟩] }
      [.get 1 ["public"], .add 1 [("severity", "high")], .get 1 ["severity"]] := by
  refine metadata_cache_transparent _ _ (everyStep_cons rfl ?_ (everyStep_cons rfl ?_
    (everyStep_cons rfl ?_ trivial)))
  · show Distinct ["public"]
    decide +kernel
  · intro names hnames _ hcached entry hentry
    rw [MetaManager.get, if_pos (by decide +kernel)] at hcached
    by_cases hkey : metaKey 1 names = metaKey 1 ["public"]
    · obtain ⟨-, rfl⟩ := metaKey_inj hnames (by decide +kernel) hkey
      rw [mem_singleton.mp hentry]
      decide
    · exact absurd (Function.update_of_ne hkey _ _) hcached
  · show Distinct ["severity"]
    decide +kernel

/-- Deleting all metadata of a project leaves the query for one name in the cache: it returns
the value that was deleted. -/
theorem deleted_metadata_served :
    ∃ manager, exec step { table := [⟨1, "public", "true"⟩] }
        [.get 1 ["public"], .delete 1 []] = some manager ∧
      manager.answer 1 ["public"] "public" = some "true" ∧
      Uncached.get manager.table 1 ["public"] "public" = none ∧
      ¬ manager.Transparent (.get 1 ["public"]) := by
  refine ⟨_, rfl, by decide +kernel, by decide +kernel, fun htransparent => ?_⟩
  have hvalue := congrFun htransparent "public"
  revert hvalue
  decide +kernel

end MetaManager

end Harbor.Cached
