import Mathlib.Tactic

/-!
# Pages of tags and of repositories

The handlers of the tag list and of the catalog sort all names and cut out a page: the
first `n` names after `last`.  The end of the page is computed as an `int`, and an `n` near
the greatest one wraps around to a negative end, for which the slice expression panics.
That is the only flaw: all other pages are exact, and the links lead through all names.

Names are those of tags and repositories, so they are not empty, and an empty `last` is
`none`.
-/

namespace Harbor.Registry

open List

/-! ## The handlers -/

section Handlers

variable {Name : Type*} [LinearOrder Name]

def addInt (first second : ℤ) : ℤ :=
  (first + second + 2 ^ 63) % 2 ^ 64 - 2 ^ 63

variable (items : List Name)

/-- A slice expression; `none` is a panic. -/
def slice (i j : ℤ) : Option (List Name) :=
  if 0 ≤ i ∧ i ≤ j ∧ j ≤ items.length then some ((items.drop i.toNat).take (j - i).toNat) else none

def sortStrings : List Name :=
  items.insertionSort (· ≤ ·)

/-- The loop of `sortedAndUniqueItems`. -/
def uniqueAfter (previous : Name) : List Name → List Name
  | [] => []
  | item :: rest =>
    if item = previous then uniqueAfter previous rest else item :: uniqueAfter item rest

def sortedAndUniqueItems : List Name :=
  match sortStrings items with
  | [] => []
  | item :: rest => item :: uniqueAfter item rest

/-- The `last` of the next page, unless the page has the last item. -/
def nextLast (items result : List Name) : Option Name :=
  if items.getLast? = result.getLast? then none else result.getLast?

/-- A slice together with the `last` of the next page. -/
def withNext (result : Option (List Name)) : Option (List Name × Option Name) :=
  result.map fun result => (result, nextLast items result)

/-- Where the page after `last` starts. -/
def startIndex (last : Option Name) : ℕ :=
  last.elim 0 fun last => items.findIdx (last < ·)

def pickItems (n : Option ℤ) (last : Option Name) : Option (List Name × Option Name) :=
  if items = [] ∨ n = some 0 then some ([], none)
  else
    withNext items (slice items (startIndex items last)
      (min (addInt (startIndex items last) (n.getD items.length)) items.length))

/-- What a handler does: a page comes with the link to the next one. -/
inductive Answer (Name : Type*)
  | panic
  | badRequest
  | page (names : List Name) (link : Option (ℤ × Name))
  deriving DecidableEq

/-- Send a page with its link header. -/
def send (n : ℤ) : Option (List Name × Option Name) → Answer Name
  | none => .panic
  | some (items, next) => .page items (next.map fun last => (n, last))

/-- `SendListTagsResponse`, with an `n` that `ParseNAndLastParameters` has accepted. -/
def sendListTagsResponse (tags : List Name) (n : ℤ) (last : Option Name) : Answer Name :=
  send n (pickItems (sortedAndUniqueItems tags) (some n) last)

def tagList (tags : List Name) (n : ℤ) (last : Option Name) : Answer Name :=
  if n = 0 then sendListTagsResponse [] n last else sendListTagsResponse tags n last

/-- `IndexString`, on a sorted list. -/
def indexString (names : List Name) (x : Name) : Option ℕ :=
  let i := names.findIdx (x ≤ ·)
  if names[i]? = some x then some i else none

def catalog (repositories : List Name) (maxEntries : ℤ) (lastEntry : Option Name) : Answer Name :=
  let repoNames := sortStrings repositories
  if repositories = [] then .page [] none
  else
    match lastEntry with
    | none =>
      let maxEntries := min maxEntries repoNames.length
      send maxEntries (withNext repoNames (slice repoNames 0 maxEntries))
    | some lastEntry =>
      match indexString repoNames lastEntry with
      | none => .badRequest
      | some index =>
        send maxEntries (withNext repoNames (slice repoNames (index + 1)
          (min (addInt (index + 1) maxEntries) repoNames.length)))

/-- Follow the links, for at most so many pages. -/
def follow (request : ℤ → Option Name → Answer Name) : ℕ → ℤ → Option Name → Option (List Name)
  | 0, _, _ => none
  | fuel + 1, n, last =>
    match request n last with
    | .panic | .badRequest => none
    | .page names none => some names
    | .page names (some (n, next)) => (follow request fuel n (some next)).map (names ++ ·)

/-! ## Exact pages -/

def after (names : List Name) (last : Option Name) : List Name :=
  names.filter fun name => ∀ x ∈ last, x < name

/-- How many names are not after `last`. -/
def rank (names : List Name) (last : Option Name) : ℕ :=
  names.countP fun name => ∃ x ∈ last, name ≤ x

/-- The pages for one `n` and one `last` are exact. -/
structure Exact (names : List Name) (n : ℕ) (last : Option Name) : Prop where
  tags : ∃ link, tagList names n last =
    .page ((after (sortStrings names) last).take n) link
  catalog : (∀ x ∈ last, x ∈ names) → catalog names n last ≠ .panic
  followTags : 0 < n → ∃ fuel, follow (tagList names) fuel n none =
    some (sortStrings names)
  followCatalog : 0 < n → ∃ fuel, follow (Registry.catalog names) fuel n none =
    some (sortStrings names)

/-! ## Slices of sorted names -/

variable {names front back : List Name} {n : ℕ} {init : List Name} {x : Name}

omit [LinearOrder Name] in
theorem slice_addInt {i : ℕ} (hi : i ≤ names.length) (hsize : 2 * names.length < 2 ^ 63)
    (hn : n < 2 ^ 63) :
    slice names i (min (addInt i n) names.length) =
      if i + n < 2 ^ 63 then some ((names.drop i).take n) else none := by
  split_ifs with hsum
  · have hadd : addInt i n = i + n := by
      unfold addInt
      omega
    have hlength : (min (i + n : ℤ) names.length - i).toNat = min n (names.length - i) := by omega
    rw [hadd, slice, if_pos (by omega), Int.toNat_natCast, hlength, ← length_drop,
      ← take_eq_take_min]
  -- the sum of two `int`s wraps around once, to a negative end
  · have hadd : addInt i n < 0 := by
      unfold addInt
      omega
    rw [slice, if_neg (by omega)]

theorem split_at {back : List Name} (hinit : ∀ name ∈ init, name ≤ x)
    (hback : ∀ name ∈ back, x < name) :
    after (init ++ back) (some x) = back ∧ rank (init ++ back) (some x) = init.length ∧
      (init ++ back).findIdx (x < ·) = init.length := by
  refine ⟨?_, ?_, ?_⟩
  · rw [after, filter_append, filter_eq_nil_iff.mpr, filter_eq_self.mpr,
      nil_append]
    · simpa using hback
    · simpa using hinit
  · rw [rank, countP_append, countP_eq_length.mpr, countP_eq_zero.mpr, Nat.add_zero]
    · simpa using hback
    · simpa using hinit
  · rw [findIdx_append, findIdx_eq_length.mpr, if_neg (lt_irrefl _)]
    · cases back with
      | nil => simp
      | cons name rest => simp [findIdx_cons, hback name]
    · simpa using hinit

theorem sorted_eq_append (hsorted : names.Pairwise (· < ·)) (x : Name) :
    ∃ init back, names = init ++ back ∧ (∀ name ∈ init, name ≤ x) ∧ ∀ name ∈ back, x < name := by
  induction names with
  | nil => exact ⟨[], [], rfl, by simp, by simp⟩
  | cons name rest ih =>
    obtain ⟨hname, hrest⟩ := pairwise_cons.mp hsorted
    rcases lt_or_ge x name with hlt | hle
    · refine ⟨[], name :: rest, rfl, by simp, forall_mem_cons.mpr ⟨hlt, ?_⟩⟩
      exact fun other hother => hlt.trans (hname other hother)
    · obtain ⟨init, back, rfl, hinit, hback⟩ := ih hrest
      exact ⟨name :: init, back, rfl, forall_mem_cons.mpr ⟨hle, hinit⟩, hback⟩

/-- Those after `last` are a tail, and the search finds its start. -/
theorem drop_rank (hsorted : names.Pairwise (· < ·)) (last : Option Name) :
    names.drop (rank names last) = after names last ∧
      startIndex names last = rank names last := by
  cases last with
  | none => simp [startIndex, rank, after]
  | some x =>
    obtain ⟨init, back, rfl, hinit, hback⟩ := sorted_eq_append hsorted x
    obtain ⟨hafter, hrank, hindex⟩ := split_at hinit hback
    rw [hafter, hrank, drop_left]
    exact ⟨rfl, hindex⟩

theorem split_concat (hsorted : (init ++ [x] ++ back).Pairwise (· < ·)) :
    after (init ++ [x] ++ back) (some x) = back ∧
      rank (init ++ [x] ++ back) (some x) = (init ++ [x]).length := by
  obtain ⟨hfront, -, hback⟩ := pairwise_append.mp hsorted
  obtain ⟨-, -, hinit⟩ := pairwise_append.mp hfront
  have hle : ∀ name ∈ init ++ [x], name ≤ x := by
    intro name hname
    rcases mem_append.mp hname with hname | hname
    · exact (hinit name hname x (by simp)).le
    · exact (mem_singleton.mp hname).le
  obtain ⟨hafter, hrank, -⟩ := split_at hle fun name => hback x (by simp) name
  exact ⟨hafter, hrank⟩

theorem after_getLast? (hsorted : (front ++ back).Pairwise (· < ·)) :
    after (front ++ back) front.getLast? = back ∧
      rank (front ++ back) front.getLast? = front.length := by
  rcases eq_nil_or_concat' front with rfl | ⟨init, x, rfl⟩
  · simp [after, rank]
  · rw [getLast?_concat]
    exact split_concat hsorted

theorem indexString_eq (hsorted : names.Pairwise (· < ·)) (hx : x ∈ names) :
    ∃ index, indexString names x = some index ∧ index + 1 = rank names (some x) := by
  obtain ⟨init, back, rfl⟩ := append_of_mem hx
  obtain ⟨-, -, hinit⟩ := pairwise_append.mp hsorted
  have hfind : (init ++ x :: back).findIdx (x ≤ ·) = init.length := by
    rw [findIdx_append, findIdx_eq_length.mpr, if_neg (lt_irrefl _)]
    · simp [findIdx_cons]
    · simpa using fun name hname => hinit name hname x mem_cons_self
  refine ⟨init.length, by simp [indexString, hfind], ?_⟩
  rw [append_cons] at hsorted ⊢
  rw [(split_concat hsorted).2, length_append, length_singleton]

theorem nextLast_eq {page rest : List Name} (hsorted : (front ++ (page ++ rest)).Pairwise (· < ·))
    (hpage : rest ≠ [] → page ≠ []) :
    nextLast (front ++ (page ++ rest)) page = if rest = [] then none else page.getLast? := by
  rw [nextLast, getLast?_append, getLast?_append]
  split_ifs with hlast hrest hrest
  · rfl
  · obtain ⟨y, hy⟩ := Option.isSome_iff_exists.mp (getLast?_isSome.mpr (hpage hrest))
    obtain ⟨z, hz⟩ := Option.isSome_iff_exists.mp (getLast?_isSome.mpr hrest)
    have hlt : y < z := (pairwise_append.mp (pairwise_append.mp hsorted).2.1).2.2
      y (mem_of_getLast? hy) z (mem_of_getLast? hz)
    rw [hy, hz] at hlast
    exact absurd (Option.some.inj hlast) hlt.ne'
  · subst hrest
    cases hpage : page.getLast? with
    | none => rfl
    | some y => simp [hpage] at hlast
  · rfl

/-! ## What the handlers answer -/

theorem sorted_sortStrings (hnodup : names.Nodup) : (sortStrings names).Pairwise (· < ·) :=
  ((pairwise_insertionSort (· ≤ ·) names).and
    ((perm_insertionSort (· ≤ ·) names).nodup_iff.mpr hnodup)).imp fun h => lt_of_le_of_ne h.1 h.2

theorem uniqueAfter_eq (hsorted : (x :: names).Pairwise (· < ·)) : uniqueAfter x names = names := by
  induction names generalizing x with
  | nil => rfl
  | cons name rest ih =>
    obtain ⟨hx, hrest⟩ := pairwise_cons.mp hsorted
    rw [uniqueAfter, if_neg (hx name mem_cons_self).ne', ih hrest]

theorem sortedAndUniqueItems_eq (hnodup : names.Nodup) :
    sortedAndUniqueItems names = sortStrings names := by
  have hsorted := sorted_sortStrings hnodup
  unfold sortedAndUniqueItems
  cases hitems : sortStrings names with
  | nil => rfl
  | cons item rest => exact congrArg (item :: ·) (uniqueAfter_eq (hitems ▸ hsorted))

theorem perm_sortStrings (names : List Name) : (sortStrings names).Perm names :=
  perm_insertionSort ..

theorem rank_sortStrings (names : List Name) (last : Option Name) :
    rank (sortStrings names) last = rank names last :=
  (perm_sortStrings names).countP_eq _

theorem rank_le_length (names : List Name) (last : Option Name) : rank names last ≤ names.length :=
  countP_le_length

/-- The answer with the first names after `last`. -/
def pageAnswer (names : List Name) (n : ℕ) (last : Option Name) : Answer Name :=
  send n (withNext (sortStrings names) (some ((after (sortStrings names) last).take n)))

section Answers

variable (hnodup : names.Nodup) (hsize : 2 * names.length < 2 ^ 63) (hn : n < 2 ^ 63)

include hnodup hsize hn

/-- Cutting a page out of the names, from the rank of `last` on. -/
theorem send_slice (last : Option Name) :
    send n (withNext (sortStrings names) (slice (sortStrings names) (rank names last)
        (min (addInt (rank names last) n) (sortStrings names).length))) =
      if rank names last + n < 2 ^ 63 then pageAnswer names n last else .panic := by
  rw [← rank_sortStrings, slice_addInt (rank_le_length _ last)
    (by rwa [(perm_sortStrings names).length_eq]) hn,
    (drop_rank (sorted_sortStrings hnodup) last).1]
  split_ifs <;> rfl

theorem tagList_eq (last : Option Name) :
    tagList names n last =
      if rank names last + n < 2 ^ 63 then pageAnswer names n last else .panic := by
  have hslice := send_slice hnodup hsize hn last
  have hrank := rank_le_length names last
  by_cases hzero : n = 0
  · subst hzero
    rw [if_pos (by omega)]
    simp [tagList, sendListTagsResponse, pickItems, send, pageAnswer, withNext, nextLast]
  · rw [tagList, if_neg (by omega), sendListTagsResponse, sortedAndUniqueItems_eq hnodup, pickItems,
      (drop_rank (sorted_sortStrings hnodup) last).2, rank_sortStrings]
    by_cases hempty : sortStrings names = []
    · obtain rfl : names = [] := ((perm_sortStrings names).symm.trans (.of_eq hempty)).eq_nil
      rw [if_pos (.inl hempty), if_pos (by rw [Nat.le_zero.mp hrank]; omega)]
      simp [pageAnswer, sortStrings, after, withNext, nextLast, send]
    · rw [if_neg (by simp [hempty, hzero])]
      exact hslice

theorem catalog_eq {last : Option Name} (hlast : ∀ x ∈ last, x ∈ names) :
    catalog names n last =
      if rank names last + n < 2 ^ 63 then pageAnswer names n last else .panic := by
  have hslice := send_slice hnodup hsize hn last
  rw [← rank_sortStrings] at hslice
  unfold catalog
  by_cases hempty : names = []
  · subst hempty
    rw [if_pos rfl, if_pos (by rw [Nat.le_zero.mp (rank_le_length [] last)]; omega)]
    simp [pageAnswer, sortStrings, after, withNext, nextLast, send]
  · rw [if_neg hempty]
    cases last with
    | none =>
      have hrank : rank names none = 0 := by simp [rank]
      have hadd : addInt 0 n = n := by
        unfold addInt
        omega
      rw [rank_sortStrings, hrank, Int.natCast_zero, hadd] at hslice
      rw [hrank]
      -- the link has a smaller `n` only if there is no link
      refine Eq.trans ?_ hslice
      rcases le_total (n : ℤ) (sortStrings names).length with hle | hle
      · rw [min_eq_left hle]
      · simp [min_eq_right hle, slice, withNext, nextLast, send]
    | some x =>
      obtain ⟨index, hindex, hrank⟩ := indexString_eq (sorted_sortStrings hnodup)
        ((perm_sortStrings names).mem_iff.mpr (hlast x rfl))
      rw [← hrank, Int.natCast_add, Int.natCast_one] at hslice
      simp only [hindex]
      rw [hslice, hrank, rank_sortStrings]

end Answers

/-- The links lead through the rest of the names. -/
theorem follow_eq {request : ℤ → Option Name → Answer Name} (hnodup : names.Nodup)
    (hsize : 2 * names.length < 2 ^ 63) (hn : n < 2 ^ 63) (hpos : 0 < n)
    (hrequest : ∀ last, (∀ x ∈ last, x ∈ names) → rank names last + n < 2 ^ 63 →
      request n last = pageAnswer names n last) (fuel : ℕ)
    (hnames : sortStrings names = front ++ back) (hfirst : front = [] ∨ n < names.length)
    (hfuel : back.length < fuel) : follow request fuel n front.getLast? = some back := by
  induction fuel generalizing front back with
  | zero => omega
  | succ fuel ih =>
    have hsorted := sorted_sortStrings hnodup
    have hlength := (perm_sortStrings names).length_eq
    rw [hnames] at hsorted hlength
    rw [length_append] at hlength
    obtain ⟨hafter, hrank⟩ := after_getLast? hsorted
    rw [← hnames] at hafter hrank
    -- after the first page `n` is smaller than the number of names, so nothing wraps around
    have hfront : rank names front.getLast? + n < 2 ^ 63 := by
      rw [← rank_sortStrings, hrank]
      rcases hfirst with rfl | hfirst
      · simpa using hn
      · omega
    have hanswer := hrequest front.getLast? (fun x hx => (perm_sortStrings names).mem_iff.mp
      (hnames ▸ mem_append_left _ (mem_of_getLast? hx))) hfront
    rw [pageAnswer, hafter, withNext, Option.map_some, send] at hanswer
    rw [← take_append_drop n back] at hnames hsorted
    have hpage : back.drop n ≠ [] → back.take n ≠ [] := fun hrest htake => by
      rcases take_eq_nil_iff.mp htake with hzero | rfl
      · omega
      · exact hrest drop_nil
    rw [hnames, nextLast_eq hsorted hpage] at hanswer
    rw [follow, hanswer]
    by_cases hrest : back.drop n = []
    · rw [if_pos hrest, take_of_length_le (drop_eq_nil_iff.mp hrest)]
      rfl
    · obtain ⟨y, hy⟩ := Option.isSome_iff_exists.mp (getLast?_isSome.mpr (hpage hrest))
      have hmore := length_pos_iff.mpr hrest
      rw [length_drop] at hmore
      have hnext := @ih (front ++ back.take n) (back.drop n) (by rw [append_assoc, hnames])
        (.inr (by omega)) (by rw [length_drop]; omega)
      rw [getLast?_append, hy, Option.some_or] at hnext
      rw [if_neg hrest, hy]
      simp only [Option.map_some, hnext, take_append_drop]

end Handlers

/-- **Pages are exact if and only if** the number of names up to `last` and `n` together do not
exceed the greatest `int`. -/
theorem listing_exact_iff {Name : Type*} [LinearOrder Name] (names : List Name)
    (hnodup : names.Nodup) (hsize : 2 * names.length < 2 ^ 63) (n : ℕ) (hn : n < 2 ^ 63)
    (last : Option Name) : Exact names n last ↔ rank names last + n < 2 ^ 63 := by
  have hfollow : ∀ request : ℤ → Option Name → Answer Name,
      (∀ last, (∀ x ∈ last, x ∈ names) → rank names last + n < 2 ^ 63 →
        request n last = pageAnswer names n last) → 0 < n →
      ∃ fuel, follow request fuel n none = some (sortStrings names) := fun request hrequest hpos =>
    ⟨_, follow_eq hnodup hsize hn hpos hrequest _ (nil_append _).symm (.inl rfl)
      (Nat.lt_succ_self _)⟩
  constructor
  · intro hexact
    by_contra hwraps
    obtain ⟨link, htags⟩ := hexact.tags
    rw [tagList_eq hnodup hsize hn, if_neg hwraps] at htags
    cases htags
  · intro hfits
    refine ⟨?_, ?_, hfollow _ fun last _ hrank => ?_, hfollow _ fun last hlast hrank => ?_⟩
    · rw [tagList_eq hnodup hsize hn, if_pos hfits]
      exact ⟨_, rfl⟩
    · intro hlast
      rw [catalog_eq hnodup hsize hn hlast, if_pos hfits]
      rintro ⟨⟩
    · rw [tagList_eq hnodup hsize hn, if_pos hrank]
    · rw [catalog_eq hnodup hsize hn hlast, if_pos hrank]

/-- Three tags, two on a page. -/
theorem listing_exact_threeTags : Exact ([3, 1, 2] : List ℕ) 2 (some 1) :=
  (listing_exact_iff [3, 1, 2] (by decide) (by decide) 2 (by decide) (some 1)).mpr (by decide)

/-- One name is before the page, and the greatest `n` is asked for. -/
theorem greatest_page_panics :
    tagList ([1, 2] : List ℕ) (2 ^ 63 - 1) (some 1) = .panic ∧
      catalog ([1, 2] : List ℕ) (2 ^ 63 - 1) (some 1) = .panic := by
  decide

end Harbor.Registry
