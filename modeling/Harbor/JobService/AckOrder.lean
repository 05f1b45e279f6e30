import Mathlib.Data.Prod.Lex
import Harbor.JobService.Expiry

/-!
# The order of hook acknowledgements

Three places compare the status of a job with the acknowledgement of its hook
events: the Lua function `compare` under `HookAckScript`, `compare` of the
reaper and `isOutdated` of the hook agent.  The two Go functions order them
lexicographically by revision, status code and check-in time (`ACK.rank`).  The
script does not: within one revision it also accepts an event with an equal code
whatever its check-in time is, and any event with a check-in time whatever its
code is.  `acks_forward_iff` says exactly which calls let the acknowledgement
go back.
-/

namespace Harbor.JobService

open Harbor.Concurrency

/-! ## The order -/

/-- The order that the reaper and the hook agent use. -/
def ACK.rank (ack : ACK) : ℤ ×ₗ ℤ ×ₗ ℤ :=
  toLex (ack.revision, toLex (statusCode ack.status, ack.checkInAt))

theorem ACK.rank_le_iff {first second : ACK} :
    first.rank ≤ second.rank ↔ first.revision < second.revision ∨
      (first.revision = second.revision ∧
        (statusCode first.status < statusCode second.status ∨
          (statusCode first.status = statusCode second.status ∧
            first.checkInAt ≤ second.checkInAt))) := by
  simp only [ACK.rank, Prod.Lex.toLex_le_toLex]

/-- The acknowledgement that an event leaves when it is recorded. -/
def HookAckArgs.ack (args : HookAckArgs) : ACK :=
  ⟨args.status, args.revision, args.checkInAt⟩

/-- The state of a job in the form of the acknowledgement that would cover it. -/
def StatsInfo.ack (info : StatsInfo) : ACK :=
  ⟨info.status, info.revision, info.checkInAt⟩

def Reaper.compare (info : StatsInfo) : ℤ :=
  match info.hookAck with
  | none => 1
  | some ack =>
    if info.revision - ack.revision ≠ 0 then info.revision - ack.revision
    else if statusBefore info.status ack.status then -1
    else if statusBefore ack.status info.status then 1
    else info.checkInAt - ack.checkInAt

/-- `basicAgent.isOutdated`, on the data of a hook event. -/
def isOutdated (keys : JobKeys) (evt : HookAckArgs) : Except String Bool :=
  match keys.ack with
  | none => .ok false
  | some ack =>
    if 0 < ack.revision - evt.revision then .ok true
    else if ack.revision - evt.revision < 0 then .ok false
    else if !validateStatus ack.status then .error "validate acked job status error"
    else if !validateStatus evt.status then .error "validate job status error"
    else if statusBefore ack.status evt.status then .ok false
    else if statusBefore evt.status ack.status then .ok true
    else .ok (ack.checkInAt ≥ evt.checkInAt)

/-- The reaper finds a job up to date if the acknowledgement is not behind it. -/
theorem Reaper.compare_nonpos_iff {info : StatsInfo} {ack : ACK} (hack : info.hookAck = some ack) :
    Reaper.compare info ≤ 0 ↔ info.ack.rank ≤ ack.rank := by
  rw [ACK.rank_le_iff]
  simp only [Reaper.compare, hack, statusBefore, StatsInfo.ack, decide_eq_true_eq]
  split_ifs <;> omega

/-- The hook agent drops an event if the acknowledgement is not behind it. -/
theorem isOutdated_eq_decide {keys : JobKeys} {ack : ACK} {evt : HookAckArgs}
    (hack : keys.ack = some ack) (hacked : validateStatus ack.status)
    (hevt : validateStatus evt.status) :
    isOutdated keys evt = .ok (decide (evt.ack.rank ≤ ack.rank)) := by
  simp only [isOutdated, hack, hacked, hevt, statusBefore, Bool.not_true, decide_eq_true_eq,
    Bool.false_eq_true, if_false]
  have hiff := @ACK.rank_le_iff evt.ack ack
  simp only [HookAckArgs.ack] at hiff ⊢
  split_ifs with hbehind hahead hlt hgt
  · simp only [Except.ok.injEq, true_eq_decide_iff, hiff]
    omega
  · simp only [Except.ok.injEq, Bool.false_eq, decide_eq_false_iff_not, hiff]
    omega
  · simp only [Except.ok.injEq, Bool.false_eq, decide_eq_false_iff_not, hiff]
    omega
  · simp only [Except.ok.injEq, true_eq_decide_iff, hiff]
    omega
  · simp only [Except.ok.injEq, ge_iff_le, decide_eq_decide, hiff]
    omega

/-! ## One call -/

/-- For an acknowledgement of its own revision, the event has a greater status
code, or the same code and no earlier check-in time, or else it is a plain
status event behind it, which the script refuses. -/
def HookAckArgs.Follows (args : HookAckArgs) (ack : ACK) : Prop :=
  args.revision = ack.revision →
    statusCode ack.status < statusCode args.status ∨
    (statusCode ack.status = statusCode args.status ∧ ack.checkInAt ≤ args.checkInAt) ∨
    (stCode (some args.status) < stCode (some ack.status) ∧ args.checkInAt = 0)

/-- The acknowledgement is not replaced by a smaller one. -/
def AckNotBehind (before after : JobKeys) : Prop :=
  ∀ old, before.ack = some old → ∃ new, after.ack = some new ∧ old.rank ≤ new.rank

theorem hookAckScript_ackNotBehind_iff {keys : JobKeys} {args : HookAckArgs} :
    AckNotBehind keys (hookAckScript keys args).1 ↔
      ∀ ack, keys.ack = some ack → args.Follows ack := by
  refine forall_congr' fun old => imp_congr_right fun hold => ?_
  by_cases haccepted : args.Accepted keys
  · have hcompares : args.Compares old.status old.revision := by
      simpa [HookAckArgs.Accepted, hold] using haccepted
    simp only [hookAckScript_ack_of_accepted haccepted, Option.some.injEq, exists_eq_left',
      ACK.rank_le_iff, HookAckArgs.Follows]
    rcases hcompares with hnewer | ⟨hsame, hcode⟩ | ⟨hsame, hcheckIn⟩ <;> omega
  · have hrefused : ¬ args.Compares old.status old.revision := by
      simpa [HookAckArgs.Accepted, hold] using haccepted
    rw [hookAckScript_of_not_accepted haccepted]
    have hkept : ∃ new, keys.ack = some new ∧ old.rank ≤ new.rank := ⟨old, hold, le_rfl⟩
    refine iff_of_true hkept fun hsame => ?_
    simp only [HookAckArgs.Compares, not_or, not_and] at hrefused
    have hcode := hrefused.2.1 hsame.symm
    have hcheckIn := hrefused.2.2 hsame.symm
    right; right
    omega

/-! ## Runs without a reset -/

/-- The write neither resets the job nor drops its stats, and a plain update
does not name the acknowledgement. -/
def StatsWrite.KeepsAck : StatsWrite → Prop
  | .reset _ _ => False
  | .lapse => False
  | .update fields _ => ∀ value, (Field.ack, value) ∉ fields
  | _ => True

/-- No call acknowledges an event that is behind the recorded one. -/
def AcksForward (before : JobKeys) (write : StatsWrite) (_after : JobKeys) : Prop :=
  match write with
  | .hookAck args => ∀ ack, before.ack = some ack → args.Follows ack
  | _ => True

theorem AckNotBehind.of_eq {before after : JobKeys} (h : after.ack = before.ack) :
    AckNotBehind before after :=
  fun old hold => ⟨old, h.trans hold, le_rfl⟩

theorem writeStep_ack_eq {keys after : JobKeys} {write : StatsWrite} (hkeeps : write.KeepsAck)
    (hother : ∀ args, write ≠ .hookAck args) (hstep : writeStep keys write = some after) :
    after.ack = keys.ack := by
  cases write with
  | save info now =>
    obtain rfl := Option.some.inj hstep
    exact save_keeps.2
  | setStatus args =>
    cases hstep
    exact setStatusScript_ack
  | hookAck args => exact absurd rfl (hother args)
  | reset status now => exact hkeeps.elim
  | update fields now =>
    cases hstep
    unfold updateStats
    split_ifs with hempty
    · rfl
    · have hack := @hmset_stats_of_not_mem keys ((.updateTime, .int now) :: fields) .ack
        (fun value hmem => (List.mem_cons.mp hmem).elim (by simp) (hkeeps value))
      simp [JobKeys.orElse, JobKeys.ack, hack]
  | lapse => exact hkeeps.elim

theorem writeStep_ackNotBehind_iff {keys after : JobKeys} {write : StatsWrite}
    (hkeeps : write.KeepsAck) (hstep : writeStep keys write = some after) :
    AckNotBehind keys after ↔ AcksForward keys write after := by
  cases write with
  | hookAck args =>
    cases hstep
    exact hookAckScript_ackNotBehind_iff
  | save info now | setStatus args | update fields now =>
    exact iff_of_true (.of_eq (writeStep_ack_eq hkeeps (by simp) hstep)) trivial
  | reset status now | lapse => exact hkeeps.elim

/-- Over every sequence of writes without a reset, no acknowledgement is replaced
by a smaller one if and only if every event that is acknowledged follows the
recorded one. -/
theorem acks_forward_iff {keys : JobKeys} {writes : List StatsWrite}
    (hkeeps : ∀ write ∈ writes, write.KeepsAck) :
    EveryStep writeStep (fun before _ after => AckNotBehind before after) keys writes ↔
      EveryStep writeStep AcksForward keys writes :=
  everyStep_congr fun write hwrite _ _ hstep =>
    writeStep_ackNotBehind_iff (hkeeps write hwrite) hstep

theorem acks_forward_iff_in_order :
    EveryStep writeStep (fun before _ after => AckNotBehind before after) {}
      [.save enqueuedStats 7, .hookAck ⟨"Running", 7, 0⟩, .hookAck ⟨"Running", 7, 9⟩,
        .hookAck ⟨"Success", 7, 0⟩, .hookAck ⟨"Running", 7, 0⟩] := by
  refine (acks_forward_iff ?_).mpr ?_
  · intro write hwrite
    fin_cases hwrite <;> trivial
  · refine everyStep_cons rfl trivial ?_
    refine everyStep_cons rfl (fun ack hack => ?_) ?_
    · have hnone : (none : Option ACK) = some ack := hack
      cases hnone
    iterate 3
      refine everyStep_cons rfl (fun ack hack => ?_) ?_
      cases hack
      unfold HookAckArgs.Follows
      decide
    trivial

/-- A check-in event that is delivered late takes the acknowledgement back from
`Success` to `Running`. -/
theorem late_checkIn_takes_ack_back :
    ∃ before after : JobKeys,
      exec writeStep {} [.save enqueuedStats 7, .setStatus ⟨"Running", 7, 8⟩,
        .update [(.checkInAt, .int 9)] 9, .setStatus ⟨"Success", 7, 10⟩,
        .hookAck ⟨"Success", 7, 0⟩] = some before ∧
      writeStep before (.hookAck ⟨"Running", 7, 9⟩) = some after ∧
      before.ack = some ⟨"Success", 7, 0⟩ ∧ after.ack = some ⟨"Running", 7, 9⟩ ∧
      (⟨"Running", 7, 9⟩ : ACK).rank < (⟨"Success", 7, 0⟩ : ACK).rank := by
  refine ⟨_, _, rfl, rfl, by decide, by decide, ?_⟩
  rw [lt_iff_not_ge, ACK.rank_le_iff]
  decide

end Harbor.JobService
