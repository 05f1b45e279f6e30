import Harbor.Retention.Processor
import Mathlib.Algebra.Order.Ring.Int
import Mathlib.Data.Rat.Init

/-!
# The rules that count days

`nDaysSinceLastPull` and `nDaysSinceLastPush` retain what was pulled or pushed within the last
`n` days.  They subtract the days from the present time as a `time.Duration`, which counts
nanoseconds in 64 bits and so has room for 106751 days.  The check of the parameter admits up to
20190904.  Beyond the room the duration wraps around and the cutoff comes out too late, at 106752
days as late as 292 years from now.

A time is the number of nanoseconds since 1970.
-/

namespace Harbor.Retention

/-- What a parameter of a rule can be after decoding, as far as `ParseJSONInt` tells. -/
inductive RuleParameter
  | float64 (value : ℚ)
  | int (value : Int64)
  | other
  deriving DecidableEq, Repr

abbrev RuleParameters := String → Option RuleParameter

/-- The conversion of a `float64` to an `int`.  A number that does not fit becomes the smallest
one, as on amd64. -/
def truncate (value : ℚ) : Int64 :=
  let whole := value.num.tdiv value.den
  if -2 ^ 63 ≤ whole ∧ whole < 2 ^ 63 then Int64.ofInt whole else Int64.minValue

def parseJSONInt : RuleParameter → Option Int64
  | .float64 value => some (truncate value)
  | .int value => some value
  | .other => none

inductive DaysRule
  | dayspl
  | daysps
  deriving DecidableEq, Repr

namespace DaysRule

/-- `TemplateID`, also the name of the parameter. -/
def templateID : DaysRule → String
  | .dayspl => "nDaysSinceLastPull"
  | .daysps => "nDaysSinceLastPush"

/-- The time that the rule looks at, in seconds since 1970. -/
def time : DaysRule → Candidate → ℤ
  | .dayspl => Candidate.pulledTime
  | .daysps => Candidate.pushedTime

def defaultN : Int64 := 30

variable (rule : DaysRule)

/-- `New`: the number of days of the evaluator. -/
def new (params : RuleParameters) : Int64 :=
  match (params rule.templateID).bind parseJSONInt with
  | some v => if 0 ≤ v then v else defaultN
  | none => defaultN

def valid (params : RuleParameters) : Except String Unit :=
  match params rule.templateID with
  | none => .ok ()
  | some p =>
    match parseJSONInt p with
    | none => .error s!"{rule.templateID} type error"
    | some v =>
      if v < 0 then .error s!"{rule.templateID} is less than zero"
      else if 20190904 < v then .error s!"{rule.templateID} is too large"
      else .ok ()

/-- `time.Duration(-1*24*e.n) * time.Hour`. -/
def duration (n : Int64) : Int64 :=
  (-24) * n * 3600000000000

/-- `Time.Unix`: whole seconds. -/
def unix (time : ℤ) : ℤ :=
  time / 1000000000

/-- `minPullTime` and `minPushTime`. -/
def minTime (n : Int64) (now : ℤ) : ℤ :=
  unix (now + (duration n).toInt)

def process (n : Int64) (now : ℤ) (artifacts : List Candidate) : Except String (List Candidate) :=
  .ok (artifacts.filter fun a => minTime n now ≤ rule.time a)

/-- `Evaluator` with `action.Retain`. -/
def evaluator (n : Int64) (now : ℤ) : Evaluator where
  process := rule.process n now
  action := "retain"

/-- A day in nanoseconds. -/
def day : ℤ := 86400000000000

/-- The candidate's time is at or after `n` days before now, in whole seconds. -/
def Recent (n : ℤ) (now : ℤ) (candidate : Candidate) : Prop :=
  unix (now - n * day) ≤ rule.time candidate

instance (rule : DaysRule) (n now : ℤ) : DecidablePred (rule.Recent n now) :=
  fun candidate => inferInstanceAs (Decidable (unix (now - n * day) ≤ rule.time candidate))

/-- The evaluator retains the recent candidates, and no fewer than with a smaller parameter. -/
structure RetainsRecent (rule : DaysRule) (n : Int64) (now : ℤ) : Prop where
  recent : ∀ artifacts, (rule.evaluator n now).process artifacts =
    .ok (artifacts.filter fun a => rule.Recent n.toInt now a)
  monotone : ∀ m, 0 ≤ m → m ≤ n → ∀ artifacts fewer more,
    (rule.evaluator m now).process artifacts = .ok fewer →
      (rule.evaluator n now).process artifacts = .ok more → fewer.Sublist more

/-! ## The cutoff -/

variable {rule : DaysRule} {params : RuleParameters} {n : Int64} {now : ℤ}

theorem new_mem_range (hvalid : rule.valid params = .ok ()) :
    0 ≤ (rule.new params).toInt ∧ (rule.new params).toInt ≤ 20190904 := by
  have hdefault : 0 ≤ defaultN.toInt ∧ defaultN.toInt ≤ 20190904 := by decide
  unfold valid at hvalid
  unfold new
  cases hparam : params rule.templateID with
  | none => exact hdefault
  | some p =>
    cases hparse : parseJSONInt p with
    | none => simp [hparam, hparse] at hvalid
    | some v =>
      simp only [hparam, hparse] at hvalid
      split_ifs at hvalid with hneg hlarge
      rw [Int64.not_lt, Int64.le_iff_toInt_le] at hneg hlarge
      simp only [Option.bind_some, hparse, Int64.le_iff_toInt_le, if_pos hneg]
      exact ⟨hneg, hlarge⟩

theorem toInt_duration (hlow : 0 ≤ n.toInt) (hhigh : n.toInt ≤ 20190904) :
    (duration n).toInt = (-(n.toInt * day)).bmod (2 ^ 64) := by
  have hhours : ((-24) * n).toInt = -24 * n.toInt := by
    rw [Int64.toInt_mul]
    exact Int.bmod_eq_of_le (by simp; omega) (by simp; omega)
  unfold duration day
  rw [Int64.toInt_mul, hhours]
  congr 1
  show -24 * n.toInt * 3600000000000 = _
  omega

/-- Up to 106751 days the cutoff is what it should be. -/
theorem minTime_eq (hlow : 0 ≤ n.toInt) (hhigh : n.toInt ≤ 106751) :
    minTime n now = unix (now - n.toInt * day) := by
  unfold minTime
  rw [toInt_duration hlow (by omega)]
  unfold day
  rw [Int.bmod_eq_of_le (by omega) (by omega), Int.sub_eq_add_neg]

/-- From 106752 days on the cutoff comes too late. -/
theorem lt_minTime (hlow : 106751 < n.toInt) (hhigh : n.toInt ≤ 20190904) :
    unix (now - n.toInt * day) < minTime n now := by
  have hduration : -(((2 ^ 64 : ℕ) : ℤ) / 2) ≤ (-(n.toInt * day)).bmod (2 ^ 64) :=
    Int.le_bmod (by decide)
  unfold minTime unix
  rw [toInt_duration (by omega) hhigh]
  unfold day at *
  omega

/-- A candidate with the given time. -/
def candidateAt (seconds : ℤ) : Candidate :=
  { pushedTime := seconds, pulledTime := seconds }

theorem time_candidateAt (seconds : ℤ) : rule.time (candidateAt seconds) = seconds := by
  cases rule with
  | dayspl | daysps => rfl

theorem process_eq_iff :
    (∀ artifacts, rule.process n now artifacts =
        .ok (artifacts.filter fun a => rule.Recent n.toInt now a)) ↔
      minTime n now = unix (now - n.toInt * day) := by
  constructor
  · intro hprocess
    have hsame : ∀ seconds, minTime n now ≤ seconds ↔ unix (now - n.toInt * day) ≤ seconds := by
      intro seconds
      have hone := Except.ok.inj (hprocess [candidateAt seconds])
      simp only [List.filter_singleton, Recent, time_candidateAt] at hone
      by_cases hmin : minTime n now ≤ seconds
      · by_cases hcutoff : unix (now - n.toInt * day) ≤ seconds
        · exact iff_of_true hmin hcutoff
        · simp [hmin, hcutoff] at hone
      · by_cases hcutoff : unix (now - n.toInt * day) ≤ seconds
        · simp [hmin, hcutoff] at hone
        · exact iff_of_false hmin hcutoff
    exact le_antisymm ((hsame _).mpr le_rfl) ((hsame _).mp le_rfl)
  · intro hcutoff artifacts
    unfold process
    rw [hcutoff]
    rfl

theorem process_sublist {m : Int64} {artifacts fewer more : List Candidate}
    (hcutoff : minTime n now ≤ minTime m now) (hfewer : rule.process m now artifacts = .ok fewer)
    (hmore : rule.process n now artifacts = .ok more) : fewer.Sublist more := by
  rw [← Except.ok.inj hfewer, ← Except.ok.inj hmore]
  refine List.monotone_filter_right artifacts fun a hrecent => ?_
  exact decide_eq_true (hcutoff.trans (of_decide_eq_true hrecent))

theorem unix_mono {early late : ℤ} (hle : early ≤ late) : unix early ≤ unix late :=
  Int.ediv_le_ediv (by decide) hle

/-- With a valid parameter, the rules that count days retain the recent candidates if and only if
there are at most 106751 days. -/
theorem retainsRecent_iff (rule : DaysRule) (params : RuleParameters) (now : ℤ)
    (hvalid : rule.valid params = .ok ()) :
    rule.RetainsRecent (rule.new params) now ↔ (rule.new params).toInt ≤ 106751 := by
  obtain ⟨hlow, hhigh⟩ := new_mem_range hvalid
  constructor
  · intro hretains
    by_contra hlarge
    have hcutoff := process_eq_iff.mp hretains.recent
    exact absurd hcutoff (lt_minTime (not_le.mp hlarge) hhigh).ne'
  · intro hsmall
    have hcutoff : minTime (rule.new params) now = unix (now - (rule.new params).toInt * day) :=
      minTime_eq hlow hsmall
    refine ⟨process_eq_iff.mpr hcutoff, fun m hm hle artifacts fewer more => process_sublist ?_⟩
    rw [Int64.le_iff_toInt_le] at hm hle
    have hm' : 0 ≤ m.toInt := hm
    rw [hcutoff, minTime_eq hm' (by omega)]
    unfold day
    exact unix_mono (by omega)

theorem retainsRecent_seven :
    DaysRule.dayspl.RetainsRecent (DaysRule.dayspl.new fun _ => some (.float64 7)) 0 :=
  (retainsRecent_iff .dayspl (fun _ => some (.float64 7)) 0 rfl).mpr (by decide)

/-- With 106752 days, a parameter that is admitted, what was pulled a second ago is not retained. -/
theorem pulled_just_now_lost :
    let params : RuleParameters := fun _ => some (.float64 106752)
    let candidate := candidateAt 1799999999
    DaysRule.dayspl.valid params = .ok () ∧
      DaysRule.dayspl.Recent 106752 1800000000000000000 candidate ∧
      (DaysRule.dayspl.evaluator (DaysRule.dayspl.new params) 1800000000000000000).process
        [candidate] = .ok [] := by
  decide

end DaysRule

end Harbor.Retention
