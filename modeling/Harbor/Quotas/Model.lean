import Harbor.Concurrency.RelyGuarantee
import Harbor.Quotas.Types

/-!
# Quotas

The quota record and its two rows in the database (`pkg/quota/models`,
`pkg/quota/dao`), the check against the hard limits (`pkg/quota/util.go`), and
the two changes of the usage that a request makes (`controller/quota`).

The columns `hard` and `used` hold JSON text.  They are kept as the list the
text parses to, `none` if it does not parse; a list that is formatted and
parsed again is the same list.
-/

namespace Harbor.Quotas

open Harbor.Concurrency Quotas.Types

/-- A JSON column: the list it parses to, if it does. -/
abbrev ResourceText : Type := Option ResourceList

/-! ## Errors -/

/-- What `IsSafe` may find about one resource. -/
inductive ResourceError
  | notFound (resource : ResourceName)
  | overflow (resource : ResourceName) (hardLimit currentUsed newUsed : Int64)
  deriving DecidableEq, Repr

inductive QuotaFailure
  | denied (errors : List ResourceError)
  | negative (resources : List ResourceName)
  | malformed
  | notFound
  | bothChanged
  | optimisticLock
  | txFailed
  | timeout
  | other (text : String)
  deriving DecidableEq, Repr

/-! ## Limits -/

/-- `IsSafe`: the errors of a new usage under the hard limits. -/
def isSafe (hardLimits currentUsed newUsed : ResourceList) (ignoreLimitation : Bool) :
    List ResourceError :=
  newUsed.entries.filterMap fun entry =>
    match hardLimits.lookup entry.1 with
    | none => some (.notFound entry.1)
    | some hardLimit =>
      if hardLimit = unlimited then none
      else if hardLimit < entry.2 ∧ !ignoreLimitation then
        some (.overflow entry.1 hardLimit (amount currentUsed entry.1) entry.2)
      else none

/-- Every listed resource that has a limit is at or below it. -/
def WithinLimits (hardLimits used : ResourceList) : Prop :=
  ∀ resource value limit, used.lookup resource = some value →
    hardLimits.lookup resource = some limit → limit ≠ unlimited → value ≤ limit

theorem withinLimits_of_isSafe {hardLimits currentUsed newUsed : ResourceList}
    (hsafe : isSafe hardLimits currentUsed newUsed false = []) :
    WithinLimits hardLimits newUsed := by
  intro resource value limit hvalue hlimit hlimited
  have hentry := List.filterMap_eq_nil_iff.mp hsafe ⟨resource, value⟩ (mem_entries_iff.mpr hvalue)
  simp only [hlimit, hlimited, if_false, Bool.not_false, and_true, ite_eq_right_iff,
    reduceCtorEq, imp_false] at hentry
  exact Int64.not_lt.mp hentry

/-! ## Changes of the usage -/

def reserveResources (resources hardLimits used : ResourceList) :
    Except QuotaFailure ResourceList :=
  let newUsed := Types.add used resources
  match isSafe hardLimits used newUsed false with
  | [] => .ok newUsed
  | errors => .error (.denied errors)

def rollbackResources (resources _hardLimits used : ResourceList) :
    Except QuotaFailure ResourceList :=
  let newUsed := subtract used resources
  match isNegative newUsed with
  | [] => .ok newUsed
  | negativeUsed => .error (.negative negativeUsed)

section Changes

variable {resources hardLimits used newUsed : ResourceList}

theorem reserveResources_eq_ok (h : reserveResources resources hardLimits used = .ok newUsed) :
    newUsed = Types.add used resources ∧ WithinLimits hardLimits newUsed := by
  unfold reserveResources at h
  cases hsafe : isSafe hardLimits used (Types.add used resources) false with
  | nil =>
    simp only [hsafe, Except.ok.injEq] at h
    exact ⟨h.symm, h ▸ withinLimits_of_isSafe hsafe⟩
  | cons error rest => simp [hsafe] at h

theorem rollbackResources_eq_ok (h : rollbackResources resources hardLimits used = .ok newUsed) :
    newUsed = subtract used resources ∧
      ∀ resource value, newUsed.lookup resource = some value → 0 ≤ value := by
  unfold rollbackResources at h
  cases hnegative : isNegative (subtract used resources) with
  | nil =>
    simp only [hnegative, Except.ok.injEq] at h
    exact ⟨h.symm, h ▸ isNegative_eq_nil.mp hnegative⟩
  | cons resource rest => simp [hnegative] at h

end Changes

/-! ## The record and its rows -/

/-- `models.Quota`. -/
structure Quota where
  hard : ResourceText
  used : ResourceText
  hardVersion : ℕ := 0
  usedVersion : ℕ := 0
  hardChanged : Bool := false
  usedChanged : Bool := false
  deriving DecidableEq

def Quota.setHard (quota : Quota) (hardLimits : ResourceList) : Quota :=
  { quota with hardChanged := true, hard := some hardLimits }

def Quota.setUsed (quota : Quota) (used : ResourceList) : Quota :=
  { quota with usedChanged := true, used := some used }

/-- `math.MaxInt64`. -/
def maxInt64 : ℕ := 2 ^ 63 - 1

/-- `getVersion`: the next version, starting again at zero after the largest one. -/
def getVersion (version : ℕ) : ℕ :=
  if version = maxInt64 then 0 else version + 1

/-- The row of the quota in `quota` and the one in `quota_usage`. -/
structure QuotaRows where
  hard : ResourceText
  hardVersion : ℕ := 0
  used : ResourceText
  usedVersion : ℕ := 0

/-- `dao.Update`: one version-checked statement, on the usage or on the limits. -/
def QuotaRows.update (rows : QuotaRows) (quota : Quota) : Except QuotaFailure QuotaRows :=
  if quota.usedChanged ∧ quota.hardChanged then .error .bothChanged
  else if ¬ quota.usedChanged ∧ ¬ quota.hardChanged then .ok rows
  else if quota.usedChanged then
    if rows.usedVersion = quota.usedVersion then
      .ok { rows with used := quota.used, usedVersion := getVersion quota.usedVersion }
    else .error .optimisticLock
  else
    if rows.hardVersion = quota.hardVersion then
      .ok { rows with hard := quota.hard, hardVersion := getVersion quota.hardVersion }
    else .error .optimisticLock

/-! ## Retrying -/

/-- How an attempt ends: the error of an aborted one is final. -/
inductive Attempt
  | done
  | again (err : QuotaFailure)
  | abort (err : QuotaFailure)

section Retry

variable {World Op Choice : Type} {Reply : Op → Type}

/-- `retry.Retry`: the fuel is what the timeout allows. -/
def retry (attempt : Program Op Reply Attempt) : ℕ → Program Op Reply (Except QuotaFailure Unit)
  | 0 => return .error .timeout
  | fuel + 1 => do
    match ← attempt with
    | .done => return .ok ()
    | .abort err => return .error err
    | .again _ => retry attempt fuel

variable {attempt : Program Op Reply Attempt} {Rely : World → World → Prop}
  {Pre Done : World → Prop} {before after : World}

theorem retry_uses {P : Op → Prop} (hattempt : attempt.Uses P) (fuel : ℕ) :
    (retry attempt fuel).Uses P := by
  induction fuel with
  | zero => trivial
  | succ fuel ih =>
    refine hattempt.bind fun result => ?_
    cases result with
    | done | abort err => trivial
    | again err => exact ih

/-- A world in which an attempt may end: with `Done` if it is done, with `Pre` if not. -/
def Attempt.Leaves (Pre Done : World → Prop) : Attempt → World → Prop
  | .done => Done
  | .again _ => Pre
  | .abort _ => Pre

/-- A world in which a loop of attempts may end. -/
def LoopLeaves (Pre Done : World → Prop) : Except QuotaFailure Unit → World → Prop
  | .ok () => Done
  | .error _ => Pre

theorem Attempt.Leaves.stable (hpre : ∀ a b, Rely a b → Pre a → Pre b)
    (hdone : ∀ a b, Rely a b → Done a → Done b) {result : Attempt}
    (hleaves : result.Leaves Pre Done before) (hrely : Rely before after) :
    result.Leaves Pre Done after := by
  cases result with
  | done => exact hdone _ _ hrely hleaves
  | again err | abort err => exact hpre _ _ hrely hleaves

theorem LoopLeaves.stable (hpre : ∀ a b, Rely a b → Pre a → Pre b)
    (hdone : ∀ a b, Rely a b → Done a → Done b) {result : Except QuotaFailure Unit}
    (hleaves : LoopLeaves Pre Done result before) (hrely : Rely before after) :
    LoopLeaves Pre Done result after := by
  match result with
  | .ok () => exact hdone _ _ hrely hleaves
  | .error err => exact hpre _ _ hrely hleaves

/-- If every attempt from `Pre` ends with `Pre` or is done with `Done`, so does the loop. -/
theorem retry_secured {sem : Semantics World Op Reply Choice} {Allowed : World → Op → Choice → Prop}
    {Inv : World → Prop} {Guar : World → World → Prop} (hrefl : ∀ world, Rely world world)
    (hpre : ∀ a b, Rely a b → Pre a → Pre b) (hdone : ∀ a b, Rely a b → Done a → Done b)
    (hattempt : ∀ world, Pre world →
      Secured sem Allowed Inv Rely Guar (Attempt.Leaves Pre Done) attempt world) (fuel : ℕ)
    {world : World} (hinv : Inv world) (hworld : Pre world) :
    Secured sem Allowed Inv Rely Guar (LoopLeaves Pre Done) (retry attempt fuel) world := by
  have hret : ∀ {result : Except QuotaFailure Unit} {world : World},
      LoopLeaves Pre Done result world →
      Secured sem Allowed Inv Rely Guar (LoopLeaves Pre Done) (.ret result) world :=
    fun hleaves => Secured.ret (fun _ hrely h => h.stable hpre hdone hrely) hleaves
  induction fuel generalizing world with
  | zero => exact @hret (.error .timeout) world hworld
  | succ fuel ih =>
    refine Secured.bind hrefl hinv (hattempt world hworld) ?_
    intro result later hlater hleaves
    cases result with
    | done => exact @hret (.ok ()) later hleaves
    | abort err => exact @hret (.error err) later hleaves
    | again err => exact ih hlater hleaves

end Retry

end Harbor.Quotas
