/-!
# Checks that may fail

A request is often answered by a sequence of checks, each of which may end it with an
error.  The lemmas say what holds when all of them passed.
-/

namespace Harbor.Data.Checks

variable {ε α β : Type}

/-- Fail with the error unless the condition holds. -/
def require (cond : Bool) (error : ε) : Except ε Unit :=
  if cond then .ok () else .error error

/-- Make the check for every element, in order. -/
def checkAll (check : α → Except ε Unit) : List α → Except ε Unit
  | [] => .ok ()
  | x :: rest => do
    check x
    checkAll check rest

theorem bind_eq_ok {first : Except ε α} {next : α → Except ε β} {result : β} :
    (first >>= next) = .ok result ↔ ∃ value, first = .ok value ∧ next value = .ok result := by
  cases first with
  | error e =>
    constructor
    · intro h
      cases h
    · rintro ⟨value, hvalue, -⟩
      cases hvalue
  | ok value =>
    constructor
    · intro h
      exact ⟨value, rfl, h⟩
    · rintro ⟨other, hother, hnext⟩
      cases hother
      exact hnext

theorem require_eq_ok {cond : Bool} {error : ε} : require cond error = .ok () ↔ cond = true := by
  cases cond <;> simp [require]

theorem require_bind_eq_ok {cond : Bool} {error : ε} {next : Unit → Except ε β} {result : β} :
    (require cond error >>= next) = .ok result ↔ cond = true ∧ next () = .ok result := by
  simp only [bind_eq_ok, ← @require_eq_ok ε cond error]
  exact ⟨fun ⟨_, h⟩ => h, fun h => ⟨(), h⟩⟩

theorem checkAll_eq_ok {check : α → Except ε Unit} {values : List α} :
    checkAll check values = .ok () ↔ ∀ x ∈ values, check x = .ok () := by
  induction values with
  | nil => simp [checkAll]
  | cons x rest ih =>
    rw [checkAll, bind_eq_ok, List.forall_mem_cons, ← ih]
    exact ⟨fun ⟨_, h⟩ => h, fun h => ⟨(), h⟩⟩

end Harbor.Data.Checks
