import Mathlib.Tactic

/-!
# Registers that only move forward

A register that is overwritten only by values with a greater key ends up with
the greatest key it was offered, in whatever order and however often the values
come.  If the key tells the values apart, the register ends up with the same
value in every order.
-/

namespace Harbor.Data

variable {α κ : Type*} [LinearOrder κ] {key : α → κ} {current next : α}

/-- Replace the current value if the next one has a greater key. -/
def advance (key : α → κ) (current next : α) : α :=
  if key current < key next then next else current

theorem advance_eq_or (key : α → κ) (current next : α) :
    advance key current next = current ∨ advance key current next = next := by
  unfold advance
  split_ifs
  · exact .inr rfl
  · exact .inl rfl

theorem key_le_key_advance : key current ≤ key (advance key current next) := by
  unfold advance
  split_ifs with hlt
  · exact hlt.le
  · exact le_rfl

theorem key_next_le_key_advance : key next ≤ key (advance key current next) := by
  unfold advance
  split_ifs with hlt
  · exact le_rfl
  · exact not_lt.mp hlt

/-- What is left in the register was there before or was offered, and no key that
was there or was offered is greater. -/
theorem foldl_advance (key : α → κ) (values : List α) (start : α) :
    (values.foldl (advance key) start = start ∨ values.foldl (advance key) start ∈ values) ∧
      key start ≤ key (values.foldl (advance key) start) ∧
      ∀ value ∈ values, key value ≤ key (values.foldl (advance key) start) := by
  induction values generalizing start with
  | nil => exact ⟨.inl rfl, le_rfl, by simp⟩
  | cons first rest ih =>
    obtain ⟨hmem, hstart, hrest⟩ := ih (advance key start first)
    rw [List.foldl_cons]
    refine ⟨?_, key_le_key_advance.trans hstart, ?_⟩
    · rcases hmem with hsame | hin
      · rcases advance_eq_or key start first with hkept | hnext
        · exact .inl (hsame.trans hkept)
        · exact .inr (by rw [hsame, hnext]; exact List.mem_cons_self)
      · exact .inr (List.mem_cons_of_mem _ hin)
    · intro value hvalue
      rcases List.mem_cons.mp hvalue with rfl | hin
      · exact key_next_le_key_advance.trans hstart
      · exact hrest value hin

/-- If the register starts below every value and the key tells the values apart,
the order in which they come does not matter. -/
theorem foldl_advance_eq {values others : List α} {start : α}
    (hsame : ∀ value, value ∈ values ↔ value ∈ others)
    (hinj : ∀ first ∈ start :: values, ∀ second ∈ start :: values,
      key first = key second → first = second) :
    values.foldl (advance key) start = others.foldl (advance key) start := by
  obtain ⟨hmem, hstart, hle⟩ := foldl_advance key values start
  obtain ⟨hmem', hstart', hle'⟩ := foldl_advance key others start
  have hin : values.foldl (advance key) start ∈ start :: values := by
    rcases hmem with h | h
    · rw [h]; exact List.mem_cons_self
    · exact List.mem_cons_of_mem _ h
  have hin' : others.foldl (advance key) start ∈ start :: values := by
    rcases hmem' with h | h
    · rw [h]; exact List.mem_cons_self
    · exact List.mem_cons_of_mem _ ((hsame _).mpr h)
  have hbound : ∀ value ∈ start :: values, key value ≤ key (others.foldl (advance key) start) := by
    intro value hvalue
    rcases List.mem_cons.mp hvalue with rfl | h
    · exact hstart'
    · exact hle' value ((hsame value).mp h)
  have hbound' : ∀ value ∈ start :: values, key value ≤ key (values.foldl (advance key) start) := by
    intro value hvalue
    rcases List.mem_cons.mp hvalue with rfl | h
    · exact hstart
    · exact hle value h
  exact hinj _ hin _ hin' (le_antisymm (hbound _ hin) (hbound' _ hin'))

end Harbor.Data
