import Mathlib.Tactic

/-!
# Decimal texts

Parsing of signed 64-bit integers in decimal, and what it gives on the texts of natural
numbers.
-/

namespace Harbor.Data.Decimal

/-! ## Integers -/

/-- The value of a text of digits; there has to be at least one. -/
def parseDigits (digits : List Char) : Option ℕ :=
  if digits.isEmpty || !digits.all Char.isDigit then none
  else some (Nat.ofDigitChars 10 digits 0)

/-- A 64-bit integer with an optional sign; `none` if the text is something else or the value
is out of range. -/
def parseInt (text : String) : Option Int64 :=
  match text.toList with
  | '-' :: digits => (parseDigits digits).bind fun n =>
    if n ≤ 2 ^ 63 then some (Int64.ofInt (-n)) else none
  | '+' :: digits => (parseDigits digits).bind fun n =>
    if n < 2 ^ 63 then some (Int64.ofNat n) else none
  | digits => (parseDigits digits).bind fun n =>
    if n < 2 ^ 63 then some (Int64.ofNat n) else none

theorem isDigit_of_mem_repr {c : Char} {n : ℕ} (hc : c ∈ n.repr.toList) : c.isDigit = true := by
  rw [Nat.toList_repr] at hc
  exact Nat.isDigit_of_mem_toDigits (by decide) (by decide) hc

theorem notMem_repr {c : Char} (hc : c.isDigit = false) (n : ℕ) : c ∉ n.repr.toList := by
  intro hmem
  have hdigit := isDigit_of_mem_repr hmem
  simp [hc] at hdigit

theorem parseDigits_repr (n : ℕ) : parseDigits n.repr.toList = some n := by
  have hall : n.repr.toList.all Char.isDigit = true :=
    List.all_eq_true.mpr fun _ hc => isDigit_of_mem_repr hc
  have hne : n.repr.toList.isEmpty = false := by
    rw [Nat.toList_repr, List.isEmpty_eq_false_iff]
    exact Nat.toDigits_ne_nil
  rw [parseDigits, hall, hne, Nat.toList_repr, Nat.ofDigitChars_toDigits (by decide) (by decide)]
  rfl

/-- The text of a natural number is parsed if the number is in range. -/
theorem parseInt_repr (n : ℕ) :
    parseInt (toString n) = if n < 2 ^ 63 then some (Int64.ofNat n) else none := by
  have hdigits := parseDigits_repr n
  have hminus := notMem_repr (show '-'.isDigit = false from rfl) n
  have hplus := notMem_repr (show '+'.isDigit = false from rfl) n
  show parseInt n.repr = _
  unfold parseInt
  split
  · rename_i htext
    simp [htext] at hminus
  · rename_i htext
    simp [htext] at hplus
  · rw [hdigits]
    rfl

end Harbor.Data.Decimal
