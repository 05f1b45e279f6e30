import Mathlib.Logic.Function.Basic
import Mathlib.Tactic

/-!
# Job stats and where Redis keeps them

A job of the job service is described by `StatsInfo` (`job/models.go`).  Redis
keeps it as a hash, one field per property, and next to it an entry for the
job in the *in-progress track* hash, a counter the reaper scans.  `JobKeys` is
what Redis holds about one job: the stats hash with its time to live, and the
track entry.

Redis stores bytes.  A field value is kept here as what it was formatted from
(`Value`), so that reading a number back is a match and not a parse; a field of
the wrong kind reads as if it were missing, which is what `tonumber(x) or 0`
does in the scripts.
-/

namespace Harbor.JobService

/-! ## Status -/

/-- The job statuses of `job/status.go`. -/
inductive Status
  | pending
  | scheduled
  | running
  | stopped
  | error
  | success
  deriving DecidableEq, Repr

/-- The raw text of a status, which is what Redis stores. -/
def Status.text : Status → String
  | .pending => "Pending"
  | .scheduled => "Scheduled"
  | .running => "Running"
  | .stopped => "Stopped"
  | .error => "Error"
  | .success => "Success"

variable (text : String)

open Status

/-- The status with the given text. -/
def Status.ofText? : Option Status :=
  [pending, .scheduled, .running, .stopped, .error, .success].find?
    fun status => status.text = text

/-- `Status.Code` on the known statuses: all final statuses share a code. -/
def Status.code : Status → ℤ
  | .pending => 0
  | .scheduled => 1
  | .running => 2
  | .stopped => 3
  | .error => 3
  | .success => 3

/-- `Status.Code` of the source, which is defined on every text. -/
def statusCode : ℤ :=
  match ofText? text with
  | some status => status.code
  | none => -1

def validateStatus : Bool :=
  statusCode text ≠ -1

def statusBefore (text other : String) : Bool :=
  statusCode text - statusCode other < 0

def statusFinal : Bool :=
  statusCode text = 3

theorem Status.ofText?_eq_some {text : String} {status : Status} :
    ofText? text = some status ↔ text = status.text := by
  constructor
  · intro h
    have htext : status.text = text := by simpa using List.find?_some h
    exact htext.symm
  · rintro rfl
    cases status <;> decide

@[simp] theorem Status.ofText?_text (status : Status) : ofText? status.text = some status :=
  ofText?_eq_some.mpr rfl

@[simp] theorem statusCode_text (status : Status) : statusCode status.text = status.code := by
  simp [statusCode]

theorem Status.text_injective : Function.Injective Status.text := by
  intro first second h
  simpa using congrArg ofText? h

@[simp] theorem Status.text_inj {first second : Status} :
    first.text = second.text ↔ first = second :=
  text_injective.eq_iff

theorem exists_status_of_validateStatus {text : String} (hvalid : validateStatus text) :
    ∃ status : Status, text = status.text := by
  cases hof : ofText? text with
  | none => simp [validateStatus, statusCode, hof] at hvalid
  | some status => exact ⟨status, ofText?_eq_some.mp hof⟩

/-! ## Stats -/

structure ACK where
  status : String
  revision : ℤ
  checkInAt : ℤ
  deriving DecidableEq, Repr

/-- Parameters for job execution, as the fields of a JSON object. -/
abbrev Parameters := List (String × String)

/-- The stats of a job.  `hookAck` is a pointer in the source. -/
structure StatsInfo where
  jobID : String := ""
  status : String := ""
  jobName : String := ""
  jobKind : String := ""
  isUnique : Bool := false
  refLink : String := ""
  cronSpec : String := ""
  enqueueTime : ℤ := 0
  updateTime : ℤ := 0
  runAt : ℤ := 0
  checkIn : String := ""
  checkInAt : ℤ := 0
  dieAt : ℤ := 0
  webHookURL : String := ""
  upstreamJobID : String := ""
  numericPID : ℤ := 0
  parameters : Parameters := []
  revision : ℤ := 0
  hookAck : Option ACK := none
  deriving DecidableEq, Repr

def kindGeneric : String := "Generic"

def kindScheduled : String := "Scheduled"

def kindPeriodic : String := "Periodic"

/-- White space in the sense of `unicode.IsSpace`. -/
def isSpace (c : Char) : Bool :=
  c ∈ ['\t', '\n', '\x0b', '\x0c', '\r', ' ', '\u0085', '\u00a0', '\u1680', '\u2028',
    '\u2029', '\u202f', '\u205f', '\u3000'] ∨ ('\u2000' ≤ c ∧ c ≤ '\u200a')

/-- `utils.IsEmptyStr`: nothing is left after trimming white space. -/
def isEmptyStr (str : String) : Bool :=
  str.toList.all isSpace

def StatsInfo.validate (info : StatsInfo) : Except String Unit :=
  if isEmptyStr info.jobID then .error "missing job ID in job stats"
  else if isEmptyStr info.jobName then .error "missing job name in job stats"
  else if isEmptyStr info.jobKind then .error "missing job name in job stats"
  else if info.jobKind ≠ kindGeneric ∧ info.jobKind ≠ kindPeriodic ∧
      info.jobKind ≠ kindScheduled then
    .error s!"job kind is not supported: {info.jobKind}"
  else if !validateStatus info.status then .error s!"{info.status} is not valid job status"
  else if info.jobKind = kindPeriodic ∧ isEmptyStr info.cronSpec then
    .error "missing cron spec for periodic job"
  else if info.jobKind = kindScheduled ∧ info.runAt = 0 then
    .error "enqueue timestamp missing for scheduled job"
  else .ok ()

/-! ## The hash -/

inductive Field
  | id
  | name
  | kind
  | unique
  | status
  | refLink
  | enqueueTime
  | runAt
  | cronSpec
  | webHookURL
  | numericPolicyID
  | checkIn
  | checkInAt
  | dieAt
  | upstreamJobID
  | parameters
  | updateTime
  | revision
  | ack
  deriving DecidableEq, Repr

def Field.all : List Field :=
  [.id, .name, .kind, .unique, .status, .refLink, .enqueueTime, .runAt, .cronSpec, .webHookURL,
    .numericPolicyID, .checkIn, .checkInAt, .dieAt, .upstreamJobID, .parameters, .updateTime,
    .revision, .ack]

/-- A field value, as what it was formatted from. -/
inductive Value
  | text (value : String)
  | int (value : ℤ)
  | bool (value : Bool)
  | parameters (value : Parameters)
  | ack (value : ACK)
  deriving DecidableEq, Repr

abbrev Hash := Field → Option Value

/-- What Redis holds about one job: the stats hash, the time to live of its
key in seconds, and the job's entry in the in-progress track hash. -/
structure JobKeys where
  stats : Hash := fun _ => none
  ttl : Option ℕ := none
  track : Option ℤ := none

variable (keys : JobKeys)

namespace JobKeys

/-- The stored status, `none` if there is none. -/
def status (keys : JobKeys) : Option String :=
  match keys.stats .status with
  | some (.text status) => some status
  | _ => none

/-- The stored revision, with the scripts' default. -/
def revision (keys : JobKeys) : ℤ :=
  match keys.stats .revision with
  | some (.int revision) => revision
  | _ => 0

def ack (keys : JobKeys) : Option ACK :=
  match keys.stats .ack with
  | some (.ack ack) => some ack
  | _ => none

/-- `HMSET` (and `HSET`) on the stats hash. -/
def hmset (fields : List (Field × Value)) : JobKeys :=
  { keys with stats := fields.foldl (fun stats field =>
      Function.update stats field.1 (some field.2)) keys.stats }

def hdel (fields : List Field) : JobKeys :=
  { keys with stats := fields.foldl (fun stats field =>
      Function.update stats field none) keys.stats }

def expire (seconds : ℕ) : JobKeys :=
  { keys with ttl := some seconds }

def persist : JobKeys :=
  { keys with ttl := none }

/-- `HSET` on the in-progress track hash. -/
def setTrack (count : ℤ) : JobKeys :=
  { keys with track := some count }

/-- `HINCRBY -1` on the track entry, and `HDEL` once the count is used up. -/
def releaseTrack : JobKeys :=
  let count := keys.track.getD 0 - 1
  { keys with track := if count ≤ 0 then none else some count }

end JobKeys

/-! ## Saving -/

/-- One argument of an `HMSET` command after the key. -/
inductive Arg
  | field (field : Field)
  | value (value : Value)

/-- The field/value pairs of an `HMSET`, if its arguments come in pairs. -/
def argPairs : List Arg → Option (List (Field × Value))
  | [] => some []
  | .field field :: .value value :: rest => (argPairs rest).map ((field, value) :: ·)
  | _ => none

/-- Placeholder for the check-in data, to save space. -/
def redundantCheckInData : String := "[REDUNDANT]"

/-- Two arguments of an `HMSET`. -/
def Arg.pair (field : Field) (value : Value) : List Arg := [.field field, .value value]

/-- The arguments that `basicTracker.Save` gives to `HMSET`.  For a restored
acknowledgement the field name is appended without a value, as in the source. -/
def saveArgs (info : StatsInfo) (now : ℤ) : List Arg :=
  Arg.pair .id (.text info.jobID) ++
  Arg.pair .name (.text info.jobName) ++
  Arg.pair .kind (.text info.jobKind) ++
  Arg.pair .unique (.bool info.isUnique) ++
  Arg.pair .status (.text info.status) ++
  Arg.pair .refLink (.text info.refLink) ++
  Arg.pair .enqueueTime (.int info.enqueueTime) ++
  Arg.pair .runAt (.int info.runAt) ++
  Arg.pair .cronSpec (.text info.cronSpec) ++
  Arg.pair .webHookURL (.text info.webHookURL) ++
  Arg.pair .numericPolicyID (.int info.numericPID) ++
  (if 0 < info.checkInAt ∧ ¬ isEmptyStr info.checkIn then
    Arg.pair .checkIn (.text redundantCheckInData) ++ Arg.pair .checkInAt (.int info.checkInAt)
  else []) ++
  (if 0 < info.dieAt then Arg.pair .dieAt (.int info.dieAt) else []) ++
  (if isEmptyStr info.upstreamJobID then []
  else Arg.pair .upstreamJobID (.text info.upstreamJobID)) ++
  (if info.parameters = [] then [] else Arg.pair .parameters (.parameters info.parameters)) ++
  Arg.pair .updateTime (.int now) ++
  Arg.pair .revision (.int (if 0 < info.revision then info.revision else now)) ++
  (if info.hookAck.isSome then [.field .ack] else [])

/-- `basicTracker.Save`, where Redis answers.  An `HMSET` whose arguments do not come in pairs is
queued like any other and fails in the `EXEC`, whose reply holds the error as one of its entries:
the commands after it are executed, and the save returns nil. -/
def save (info : StatsInfo) (now : ℤ) : JobKeys :=
  match argPairs (saveArgs info now) with
  | none => keys.setTrack 2
  | some fields => (keys.hmset fields).setTrack 2

/-! ## Loading -/

/-- Read one property back, as the switch in `basicTracker.retrieve` does.  The
check-in text is never read: Redis only has a placeholder for it. -/
def StatsInfo.withField (info : StatsInfo) (field : Field) (value : Value) : StatsInfo :=
  match field, value with
  | .id, .text value => { info with jobID := value }
  | .name, .text value => { info with jobName := value }
  | .kind, .text value => { info with jobKind := value }
  | .unique, .bool value => { info with isUnique := value }
  | .status, .text value => { info with status := value }
  | .refLink, .text value => { info with refLink := value }
  | .enqueueTime, .int value => { info with enqueueTime := value }
  | .updateTime, .int value => { info with updateTime := value }
  | .runAt, .int value => { info with runAt := value }
  | .checkInAt, .int value => { info with checkInAt := value }
  | .checkIn, .text _ => { info with checkIn := "" }
  | .cronSpec, .text value => { info with cronSpec := value }
  | .webHookURL, .text value => { info with webHookURL := value }
  | .dieAt, .int value => { info with dieAt := value }
  | .upstreamJobID, .text value => { info with upstreamJobID := value }
  | .numericPolicyID, .int value => { info with numericPID := value }
  | .parameters, .parameters value => { info with parameters := value }
  | .revision, .int value => { info with revision := value }
  | .ack, .ack value => { info with hookAck := some value }
  | _, _ => info

/-- Read one field of the hash, if it is there. -/
def StatsInfo.load (info : StatsInfo) (field : Field) : StatsInfo :=
  match keys.stats field with
  | some value => info.withField field value
  | none => info

open StatsInfo

/-- `basicTracker.retrieve`: `none` stands for the not-found error of an empty hash. -/
def retrieve : Option StatsInfo :=
  if Field.all.all fun field => (keys.stats field).isNone then none
  else some (Field.all.foldl (load keys) {})

section Load

variable (keys : JobKeys) (field : Field)

def JobKeys.textOr (default : String) : String :=
  match keys.stats field with
  | some (.text value) => value
  | _ => default

def JobKeys.intOr (default : ℤ) : ℤ :=
  match keys.stats field with
  | some (.int value) => value
  | _ => default

def JobKeys.boolOr (default : Bool) : Bool :=
  match keys.stats field with
  | some (.bool value) => value
  | _ => default

def JobKeys.parametersOr (default : Parameters) : Parameters :=
  match keys.stats field with
  | some (.parameters value) => value
  | _ => default

open JobKeys hiding ack

theorem load_eq (info : StatsInfo) :
    info.load keys field =
      match field with
      | .id => { info with jobID := keys.textOr .id info.jobID }
      | .name => { info with jobName := keys.textOr .name info.jobName }
      | .kind => { info with jobKind := keys.textOr .kind info.jobKind }
      | .unique => { info with isUnique := keys.boolOr .unique info.isUnique }
      | .status => { info with status := keys.textOr .status info.status }
      | .refLink => { info with refLink := keys.textOr .refLink info.refLink }
      | .enqueueTime => { info with enqueueTime := keys.intOr .enqueueTime info.enqueueTime }
      | .runAt => { info with runAt := keys.intOr .runAt info.runAt }
      | .cronSpec => { info with cronSpec := keys.textOr .cronSpec info.cronSpec }
      | .webHookURL => { info with webHookURL := keys.textOr .webHookURL info.webHookURL }
      | .numericPolicyID => { info with numericPID := keys.intOr .numericPolicyID info.numericPID }
      | .checkIn => info.load keys .checkIn
      | .checkInAt => { info with checkInAt := keys.intOr .checkInAt info.checkInAt }
      | .dieAt => { info with dieAt := keys.intOr .dieAt info.dieAt }
      | .upstreamJobID =>
        { info with upstreamJobID := keys.textOr .upstreamJobID info.upstreamJobID }
      | .parameters => { info with parameters := keys.parametersOr .parameters info.parameters }
      | .updateTime => { info with updateTime := keys.intOr .updateTime info.updateTime }
      | .revision => { info with revision := keys.intOr .revision info.revision }
      | .ack => { info with hookAck := keys.ack.or info.hookAck } := by
  cases field <;>
    simp only [load, textOr, intOr, boolOr, parametersOr, JobKeys.ack] <;>
    generalize keys.stats _ = value <;>
    rcases value with _ | value <;> first | rfl | (cases value <;> rfl)

theorem load_checkIn {info : StatsInfo} (hempty : info.checkIn = "") :
    info.load keys .checkIn = info := by
  unfold load
  cases keys.stats .checkIn with
  | none => rfl
  | some value => cases value <;> simp [withField, ← hempty]

/-- The stats that the fields of the hash describe. -/
def JobKeys.info : StatsInfo where
  jobID := keys.textOr .id ""
  status := keys.textOr .status ""
  jobName := keys.textOr .name ""
  jobKind := keys.textOr .kind ""
  isUnique := keys.boolOr .unique false
  refLink := keys.textOr .refLink ""
  cronSpec := keys.textOr .cronSpec ""
  enqueueTime := keys.intOr .enqueueTime 0
  updateTime := keys.intOr .updateTime 0
  runAt := keys.intOr .runAt 0
  checkInAt := keys.intOr .checkInAt 0
  dieAt := keys.intOr .dieAt 0
  webHookURL := keys.textOr .webHookURL ""
  upstreamJobID := keys.textOr .upstreamJobID ""
  numericPID := keys.intOr .numericPolicyID 0
  parameters := keys.parametersOr .parameters []
  revision := keys.intOr .revision 0
  hookAck := keys.ack

theorem foldl_load_all : Field.all.foldl (load keys) {} = keys.info := by
  simp only [Field.all, List.foldl_cons, List.foldl_nil, load_eq _ .id, load_eq _ .name,
    load_eq _ .kind, load_eq _ .unique, load_eq _ .status, load_eq _ .refLink,
    load_eq _ .enqueueTime, load_eq _ .runAt, load_eq _ .cronSpec, load_eq _ .webHookURL,
    load_eq _ .numericPolicyID, load_checkIn, load_eq _ .checkInAt, load_eq _ .dieAt,
    load_eq _ .upstreamJobID, load_eq _ .parameters, load_eq _ .updateTime, load_eq _ .revision,
    load_eq _ .ack, Option.or_none, info]

theorem retrieve_eq :
    retrieve keys =
      if Field.all.all fun field => (keys.stats field).isNone then none else some keys.info := by
  unfold retrieve
  rw [foldl_load_all]

/-- A tracker holds the revision that was stored when it loaded the stats. -/
theorem retrieve_revision {keys : JobKeys} {info : StatsInfo} (h : retrieve keys = some info) :
    info.revision = keys.revision := by
  rw [retrieve_eq] at h
  split_ifs at h
  cases h
  rfl

end Load

end Harbor.JobService
