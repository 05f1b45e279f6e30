import Harbor.Cached.Keys
import Mathlib.Data.List.Infix

/-!
# Counting and flushing the cache of a resource

`CountCache` and `FlushAll` scan for the type of their resource, under the comment that the
prefix is the resource type.  `Scan` puts a star before it as well, so it also finds keys
that have the type anywhere else: `project` occurs in `project_metadata`, `repository` in
every artifact key with a digest, and any of them in the name of a repository.
-/

namespace Harbor.Cached

open List

/-! ## The keys of the managers -/

inductive ResourceType
  | artifact
  | project
  | projectMeta
  | repository
  | manifest
  deriving DecidableEq, Repr

def ResourceType.text : ResourceType → String
  | .artifact => "artifact"
  | .project => "project"
  | .projectMeta => "project_metadata"
  | .repository => "repository"
  | .manifest => "manifest"

inductive EntryKey
  | artifactID (id : ℤ)
  | artifactDigest (repo digest : String)
  | projectID (id : ℤ)
  | projectName (name : String)
  | projectMeta (projectID : ℤ) (metas : List String)
  | repositoryID (id : ℤ)
  | repositoryName (name : String)
  | manifest (digest : String)
  deriving DecidableEq, Repr

/-- The manager that saves under the key. -/
def EntryKey.resourceType : EntryKey → ResourceType
  | .artifactID _ | .artifactDigest _ _ => .artifact
  | .projectID _ | .projectName _ => .project
  | .projectMeta _ _ => .projectMeta
  | .repositoryID _ | .repositoryName _ => .repository
  | .manifest _ => .manifest

def EntryKey.fields : EntryKey → List String
  | .artifactID id | .projectID id | .repositoryID id => ["id", toString id]
  | .artifactDigest repo digest => ["repository", repo, "digest", digest]
  | .projectName name | .repositoryName name => ["name", name]
  | .projectMeta id metas => ["projectID", toString id, "meta", ",".intercalate metas]
  | .manifest digest => ["digest", digest]

variable (key : EntryKey)

def EntryKey.text : String :=
  format key.resourceType.text key.fields

/-- What the managers have saved. -/
structure Content where
  keys : List EntryKey
  nodup : (keys.map EntryKey.text).Nodup

/-! ## Scanning -/

def keyHead : List Char := "cache:".toList

/-- The pattern language of `SCAN`, for letters and stars. -/
def globMatches : List Char → List Char → Bool
  | [], text => text.isEmpty
  -- a star stands for any text before the rest
  | '*' :: pattern, text => text.tails.any fun rest => globMatches pattern rest
  | _ :: _, [] => false
  | letter :: pattern, first :: rest => letter = first && globMatches pattern rest

/-- `Cache.Scan` and its iterator, on the keys as Redis has them. -/
def scan (stored : List (List Char)) (pattern : String) : List (List Char) :=
  (stored.filter (globMatches (keyHead ++ '*' :: pattern.toList ++ ['*']))).map
    fun key => if keyHead.isPrefixOf key then key.drop keyHead.length else key

def delete (stored : List (List Char)) (key : List Char) : List (List Char) :=
  stored.filter (· ≠ keyHead ++ key)

variable (resource : ResourceType)

def countCache (stored : List (List Char)) : ℕ :=
  (scan stored resource.text).length

def flushAll (stored : List (List Char)) : List (List Char) :=
  (scan stored resource.text).foldl delete stored

def EntryKey.stored : List Char :=
  keyHead ++ key.text.toList

open EntryKey

/-- Counting and flushing see the entries of the manager and no others. -/
structure Exact (resource : ResourceType) (content : Content) : Prop where
  count : countCache resource (content.keys.map stored) =
    (content.keys.filter fun key => key.resourceType = resource).length
  flush : flushAll resource (content.keys.map stored) =
    (content.keys.filter fun key => key.resourceType ≠ resource).map stored

/-! ## What a scan finds -/

theorem globMatches_star {pattern text : List Char} :
    globMatches ('*' :: pattern) text ↔ ∃ before rest, text = before ++ rest ∧
      globMatches pattern rest := by
  simp only [globMatches, any_eq_true, mem_tails]
  constructor
  · rintro ⟨rest, ⟨before, rfl⟩, hrest⟩
    exact ⟨before, rest, rfl, hrest⟩
  · rintro ⟨before, rest, rfl, hrest⟩
    exact ⟨rest, suffix_append before rest, hrest⟩

/-- Letters stand for themselves. -/
theorem globMatches_append {letters pattern text : List Char} (hletters : '*' ∉ letters) :
    globMatches (letters ++ pattern) text ↔ ∃ rest, text = letters ++ rest ∧
      globMatches pattern rest := by
  induction letters generalizing text with
  | nil => simp
  | cons letter letters ih =>
    obtain ⟨hletter, hrest⟩ := ne_and_not_mem_of_not_mem_cons hletters
    cases text with
    | nil => simp [globMatches, hletter.symm]
    | cons first rest =>
      rw [cons_append, globMatches, Bool.and_eq_true, ih hrest]
      · grind
      · exact hletter.symm

/-- The pattern of `Scan` finds a text anywhere after the head. -/
theorem globMatches_scan {pattern text : List Char} (hpattern : '*' ∉ pattern) :
    globMatches (keyHead ++ '*' :: pattern ++ ['*']) (keyHead ++ text) ↔ pattern <:+: text := by
  have hend : ∀ rest, globMatches ['*'] rest := fun rest =>
    globMatches_star.mpr ⟨rest, [], by simp, rfl⟩
  rw [append_assoc, cons_append, globMatches_append (by decide)]
  simp only [append_cancel_left_eq, exists_eq_left', globMatches_star,
    globMatches_append hpattern, hend, and_true, List.IsInfix]
  grind

/-- The text of the key contains the type of the resource. -/
def EntryKey.Mentions : Prop :=
  resource.text.toList <:+: key.text.toList

instance (key : EntryKey) (resource : ResourceType) : Decidable (key.Mentions resource) :=
  inferInstanceAs (Decidable (_ <:+: _))

theorem EntryKey.mentions_resourceType : key.Mentions key.resourceType := by
  rw [EntryKey.Mentions, EntryKey.text, toList_format]
  exact (prefix_append _ _).isInfix

theorem scan_stored (keys : List EntryKey) (resource : ResourceType) :
    scan (keys.map stored) resource.text =
      (keys.filter fun key => key.Mentions resource).map fun key => key.text.toList := by
  have hplain : '*' ∉ resource.text.toList := by cases resource <;> decide
  rw [scan, filter_map, map_map]
  have hfilter : (keys.filter (globMatches (keyHead ++ '*' :: resource.text.toList ++ ['*']) ∘
      stored)) = keys.filter fun key => key.Mentions resource :=
    filter_congr fun key _ => by
      rw [Bool.eq_iff_iff, decide_eq_true_eq]
      exact globMatches_scan hplain
  rw [hfilter]
  refine map_congr_left fun key _ => ?_
  simp [stored]

theorem foldl_delete (stored texts : List (List Char)) :
    texts.foldl delete stored = stored.filter fun key => ∀ text ∈ texts, key ≠ keyHead ++ text := by
  induction texts generalizing stored with
  | nil => simp
  | cons text rest ih =>
    rw [foldl_cons, ih, delete, filter_filter]
    refine filter_congr fun key _ => ?_
    simp [Bool.and_comm]

theorem flushAll_stored (keys : List EntryKey) (resource : ResourceType) :
    flushAll resource (keys.map stored) =
      (keys.filter fun key => ¬ key.Mentions resource).map stored := by
  rw [flushAll, scan_stored, foldl_delete, filter_map]
  refine congrArg _ (filter_congr fun key hkey => decide_eq_decide.mpr ⟨?_, ?_⟩)
  · intro hkept hmentions
    refine hkept _ (mem_map_of_mem (mem_filter.mpr ⟨hkey, ?_⟩)) rfl
    exact decide_eq_true hmentions
  · intro hkept text htext heq
    obtain ⟨other, hother, rfl⟩ := mem_map.mp htext
    have hsame : key.text.toList = other.text.toList := append_cancel_left heq
    refine hkept ?_
    rw [EntryKey.Mentions, hsame]
    exact of_decide_eq_true (mem_filter.mp hother).2

/-- **Cache maintenance is exact if and only if** no key of another manager contains the type
of the resource. -/
theorem maintenance_exact_iff (resource : ResourceType) (content : Content) :
    Exact resource content ↔
      ∀ key ∈ content.keys, key.resourceType ≠ resource → ¬ key.Mentions resource := by
  constructor
  · intro hexact key hkey hother hmentions
    -- an exact flush keeps the foreign key, so it is stored under a text that is not found
    have hkept : key.stored ∈ (content.keys.filter fun key => ¬ key.Mentions resource).map
        stored := by
      rw [← flushAll_stored, hexact.flush]
      exact mem_map_of_mem (mem_filter.mpr ⟨hkey, decide_eq_true hother⟩)
    obtain ⟨same, hsame, heq⟩ := mem_map.mp hkept
    have htext : same.text.toList = key.text.toList := append_cancel_left heq
    refine absurd ?_ (of_decide_eq_true (mem_filter.mp hsame).2)
    rwa [EntryKey.Mentions, htext]
  · intro hforeign
    -- every key starts with the type of its own manager
    have hown : ∀ key ∈ content.keys, (key.Mentions resource ↔ key.resourceType = resource) := by
      refine fun key hkey => ⟨fun hmentions => ?_, fun hown => hown ▸ key.mentions_resourceType⟩
      by_contra hother
      exact hforeign key hkey hother hmentions
    constructor
    · rw [countCache, scan_stored, length_map]
      exact congrArg _ (filter_congr fun key hkey => decide_eq_decide.mpr (hown key hkey))
    · rw [flushAll_stored]
      refine congrArg _ (filter_congr fun key hkey => decide_eq_decide.mpr ?_)
      exact not_congr (hown key hkey)

/-- Flushing the projects flushes their metadata as well, and so does flushing the
repositories with artifacts. -/
theorem flush_takes_others :
    let content : Content := ⟨[.projectMeta 1 ["public"], .artifactDigest "library/app" "sha256:1"],
      by decide⟩
    flushAll .project (content.keys.map stored) =
        [(artifactDigest "library/app" "sha256:1").stored] ∧
      countCache .repository (content.keys.map stored) = 1 := by
  decide

end Harbor.Cached
