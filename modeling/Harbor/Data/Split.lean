import Mathlib.Data.List.Basic
import Mathlib.Logic.Basic

/-!
# Splitting and joining texts

Texts are cut at the first separator, split at every separator or at every doubled one, and
joined again.
-/

namespace Harbor.Data.Split

open List

/-- The text before and the text after the first separator. -/
def cut (sep : Char) : List Char → Option (List Char × List Char)
  | [] => none
  | c :: rest =>
    if c = sep then some ([], rest)
    else (cut sep rest).map fun parts => (c :: parts.1, parts.2)

variable {sep : Char} {before text piece : List Char} {pieces : List (List Char)}

theorem cut_append (hbefore : sep ∉ before) (after : List Char) :
    cut sep (before ++ sep :: after) = some (before, after) := by
  induction before with
  | nil => simp [cut]
  | cons c rest ih =>
    rw [mem_cons, not_or] at hbefore
    rw [cons_append, cut, if_neg (Ne.symm hbefore.1), ih hbefore.2]
    rfl

theorem eq_append_of_cut {after : List Char} (hcut : cut sep text = some (before, after)) :
    text = before ++ sep :: after ∧ sep ∉ before := by
  induction text generalizing before with
  | nil => cases hcut
  | cons c rest ih =>
    rw [cut] at hcut
    split_ifs at hcut with hc
    · cases hcut
      exact ⟨by rw [hc, nil_append], not_mem_nil⟩
    · obtain ⟨⟨inner, after'⟩, hinner, hparts⟩ := Option.map_eq_some_iff.mp hcut
      cases hparts
      obtain ⟨hrest, hsep⟩ := ih hinner
      refine ⟨by rw [hrest, cons_append], ?_⟩
      rw [mem_cons, not_or]
      exact ⟨Ne.symm hc, hsep⟩

/-- The parts of a text between separators. -/
def split (text : String) (sep : Char) : List String :=
  (text.toList.splitOn sep).map String.ofList

/-- The texts with separators between them. -/
def join (items : List String) (sep : Char) : String :=
  String.ofList ([sep].intercalate (items.map String.toList))

/-- Joining texts without separators loses nothing but the difference between no text and an
empty one. -/
theorem split_join {items : List String} (hne : items ≠ [])
    (hsep : ∀ item ∈ items, sep ∉ item.toList) : split (join items sep) sep = items := by
  have hlists : ∀ chars ∈ items.map String.toList, sep ∉ chars := by
    intro chars hchars
    obtain ⟨item, hitem, rfl⟩ := mem_map.mp hchars
    exact hsep item hitem
  rw [split, join, String.toList_ofList, splitOn_intercalate sep hlists (by simpa using hne),
    map_map]
  exact map_id'' (fun item => String.ofList_toList) items

theorem split_of_notMem {text : String} (hsep : sep ∉ text.toList) : split text sep = [text] := by
  rw [split, splitOn_eq_singleton hsep, map_singleton, String.ofList_toList]

theorem notMem_of_mem_split {text part : String} (hpart : part ∈ split text sep) :
    sep ∉ part.toList := by
  obtain ⟨chars, hchars, rfl⟩ := mem_map.mp hpart
  rw [String.toList_ofList]
  clear hpart
  generalize text.toList = whole at hchars
  induction whole generalizing chars with
  | nil =>
    obtain rfl : chars = [] := by simpa using hchars
    exact not_mem_nil
  | cons c rest ih =>
    rw [splitOn_cons_eq_if_modifyHead] at hchars
    by_cases hc : (c == sep) = true
    · rw [if_pos hc, mem_cons] at hchars
      cases hchars with
      | inl hnil => simp [hnil]
      | inr hrest => exact ih chars hrest
    · rw [if_neg hc] at hchars
      cases hsplit : rest.splitOn sep with
      | nil => exact absurd hsplit (splitOn_ne_nil sep rest)
      | cons first others =>
        rw [hsplit, modifyHead_cons, mem_cons] at hchars
        cases hchars with
        | inl hfirst =>
          have hnot : sep ∉ first := ih first (by simp [hsplit])
          rw [hfirst, mem_cons, not_or]
          exact ⟨fun heq => hc (by simp [heq]), hnot⟩
        | inr hother => exact ih chars (by simp [hsplit, hother])

/-! ## Doubled separators -/

/-- The parts of a text between doubled separators, from the left. -/
def splitDouble (sep : Char) : List Char → List (List Char)
  | [] => [[]]
  | [c] => [[c]]
  | c :: d :: rest =>
    if c = sep ∧ d = sep then [] :: splitDouble sep rest
    else (splitDouble sep (d :: rest)).modifyHead (c :: ·)

variable {sep : Char}

theorem splitDouble_ne_nil (text : List Char) : splitDouble sep text ≠ [] := by
  fun_induction splitDouble sep text with
  | case1 | case2 c | case3 c d rest hsep ih => simp
  | case4 c d rest hsep ih => simpa [modifyHead_eq_nil_iff] using ih

theorem intercalate_splitDouble (text : List Char) :
    [sep, sep].intercalate (splitDouble sep text) = text := by
  fun_induction splitDouble sep text with
  | case1 | case2 c => simp
  | case3 c d rest hsep ih =>
    rw [intercalate_cons_of_ne_nil (splitDouble_ne_nil rest), ih, hsep.1, hsep.2]
    rfl
  | case4 c d rest hsep ih =>
    cases hsplit : splitDouble sep (d :: rest) with
    | nil => exact absurd hsplit (splitDouble_ne_nil (d :: rest))
    | cons piece pieces =>
      rw [modifyHead_cons, intercalate_cons_cons_left, ← hsplit, ih]

/-- The first part is the beginning of the text. -/
theorem eq_append_of_splitDouble (hsplit : splitDouble sep text = piece :: pieces) :
    ∃ rest, text = piece ++ rest := by
  have hjoin : [sep, sep].intercalate (piece :: pieces) = text := by
    rw [← hsplit, intercalate_splitDouble]
  cases pieces with
  | nil => exact ⟨[], by simpa using hjoin.symm⟩
  | cons second others =>
    rw [intercalate_cons_cons, append_assoc] at hjoin
    exact ⟨_, hjoin.symm⟩

/-- The first part itself is not split any further. -/
theorem splitDouble_head (hsplit : splitDouble sep text = piece :: pieces) :
    splitDouble sep piece = [piece] := by
  fun_induction splitDouble sep text generalizing piece pieces with
  | case1 | case2 c | case3 c d rest hsep ih =>
    cases hsplit
    rfl
  | case4 c d rest hsep ih =>
    cases hinner : splitDouble sep (d :: rest) with
    | nil => exact absurd hinner (splitDouble_ne_nil (d :: rest))
    | cons first others =>
      rw [hinner, modifyHead_cons] at hsplit
      cases hsplit
      obtain ⟨suffix, hsuffix⟩ := eq_append_of_splitDouble hinner
      cases first with
      | nil => rfl
      | cons e tail =>
        obtain rfl : d = e := by simpa using congrArg head? hsuffix
        rw [splitDouble, if_neg hsep, ih hinner, modifyHead_cons]

/-- A doubled separator splits the text. -/
theorem two_le_length_splitDouble (before after : List Char) :
    2 ≤ (splitDouble sep (before ++ sep :: sep :: after)).length := by
  have hpos : ∀ text, 1 ≤ (splitDouble sep text).length := fun text =>
    length_pos_iff.mpr (splitDouble_ne_nil text)
  induction before with
  | nil =>
    have := hpos after
    rw [nil_append, splitDouble, if_pos ⟨rfl, rfl⟩, length_cons]
    omega
  | cons c rest ih =>
    cases htext : rest ++ sep :: sep :: after with
    | nil => simp at htext
    | cons d more =>
      rw [cons_append, htext, splitDouble]
      split_ifs
      · have := hpos more
        rw [length_cons]
        omega
      · rw [length_modifyHead, ← htext]
        exact ih

end Harbor.Data.Split
