import Harbor.JobService.Stats

/-!
# The Lua scripts of the job service

`common/rds/scripts.go` changes job stats only through three scripts, each of
which Redis runs atomically: `setStatusScript` sets a status under a
compare-and-set rule, `hookAckScript` records that a status hook was
acknowledged, and `statusResetScript` starts a new revision of the job.  Each
is a function of `JobKeys` here, with its reply.

After every script stand the facts about it that the rest of the development
uses, in terms of the stored status, revision and track entry; the scripts are
not unfolded elsewhere.
-/

namespace Harbor.JobService

open JobKeys hiding ack

/-! ## Status codes in Lua -/

def stMap : List (String × ℕ) :=
  [("Pending", 0), ("Scheduled", 1), ("Running", 2), ("Success", 3), ("Stopped", 3), ("Error", 3)]

/-- `stCode`: an unknown status, or none at all, has code `0`. -/
def stCode : Option String → ℕ
  | none => 0
  | some status => (stMap.lookup status).getD 0

variable {text : String} {keys saved : JobKeys} {info : StatsInfo} {now : ℤ}

@[simp] theorem stCode_text (status : Status) : (stCode (some status.text) : ℤ) = status.code := by
  cases status <;> decide

theorem stCode_of_unknown (hunknown : Status.ofText? text = none) : stCode (some text) = 0 := by
  have hne : ∀ status : Status, text ≠ status.text := by
    rintro status rfl
    simp at hunknown
  have hlookup : stMap.lookup text = none := by
    rw [List.lookup_eq_none_iff]
    intro entry hentry
    fin_cases hentry
    · exact bne_iff_ne.mpr (hne .pending)
    · exact bne_iff_ne.mpr (hne .scheduled)
    · exact bne_iff_ne.mpr (hne .running)
    · exact bne_iff_ne.mpr (hne .success)
    · exact bne_iff_ne.mpr (hne .stopped)
    · exact bne_iff_ne.mpr (hne .error)
  simp [stCode, hlookup]

/-- A text with a positive code is the text of a known status. -/
theorem exists_status_of_stCode_pos (hpos : 0 < stCode (some text)) :
    ∃ status : Status, text = status.text := by
  cases hof : Status.ofText? text with
  | none => simp [stCode_of_unknown hof] at hpos
  | some status => exact ⟨status, Status.ofText?_eq_some.mp hof⟩

theorem stCode_le_three (text : Option String) : stCode text ≤ 3 := by
  cases text with
  | none => simp [stCode]
  | some text =>
    rcases Nat.eq_zero_or_pos (stCode (some text)) with hzero | hpos
    · omega
    · obtain ⟨status, rfl⟩ := exists_status_of_stCode_pos hpos
      have hcode := stCode_text status
      cases status <;> simp only [Status.code] at hcode <;> omega

/-- The texts with the code of a final status. -/
theorem eq_text_of_stCode_eq_three (hcode : stCode (some text) = 3) :
    text = "Success" ∨ text = "Stopped" ∨ text = "Error" := by
  obtain ⟨status, rfl⟩ := exists_status_of_stCode_pos (by omega : 0 < stCode (some text))
  have htext := stCode_text status
  cases status <;> simp_all [Status.code, Status.text]

namespace JobKeys

/-- The stored status is final. -/
def Final (keys : JobKeys) : Prop :=
  stCode keys.status = 3

instance (keys : JobKeys) : Decidable keys.Final :=
  inferInstanceAs (Decidable (_ = _))

end JobKeys

/-! ## Setting the status -/

/-- `ARGV[1..3]` of `SetStatusScript`: the status, the revision of the stats
and the update time. -/
structure SetStatusArgs where
  status : String
  revision : ℤ
  time : ℤ := 0
  deriving DecidableEq, Repr

/-- The condition under which `SetStatusScript` sets the status.  Setting the
same status repeatedly is allowed. -/
def SetStatusArgs.Accepted (args : SetStatusArgs) (keys : JobKeys) : Prop :=
  keys.revision < args.revision ∨ (keys.revision = args.revision ∧
    (stCode keys.status < stCode (some args.status) ∨ keys.status = some args.status))

instance (args : SetStatusArgs) (keys : JobKeys) : Decidable (args.Accepted keys) :=
  inferInstanceAs (Decidable (_ ∨ _))

/-- `SetStatusScript`, with its reply. -/
def setStatusScript (keys : JobKeys) (args : SetStatusArgs) : JobKeys × Option String :=
  if args.Accepted keys then
    let set := keys.hmset [(.status, .text args.status), (.updateTime, .int args.time)]
    if stCode (some args.status) = 3 then
      let released := set.releaseTrack
      if args.status = "Success" ∨ args.status = "Stopped" then
        (released.expire 86400, some "ok")
      else if args.status = "Error" then (released.expire 604800, some "ok")
      else (released.persist, some "ok")
    else (set, some "ok")
  else (keys, keys.status)

section SetStatus

variable {keys : JobKeys} {args : SetStatusArgs}

theorem setStatusScript_of_not_accepted (h : ¬ args.Accepted keys) :
    setStatusScript keys args = (keys, keys.status) := by
  simp [setStatusScript, h]

theorem setStatusScript_reply_of_accepted (h : args.Accepted keys) :
    (setStatusScript keys args).2 = some "ok" := by
  unfold setStatusScript
  split_ifs <;> rfl

theorem setStatusScript_status_of_accepted (h : args.Accepted keys) :
    (setStatusScript keys args).1.status = some args.status := by
  unfold setStatusScript
  split_ifs <;> simp [status, hmset, releaseTrack, expire, persist]

@[simp] theorem setStatusScript_revision :
    (setStatusScript keys args).1.revision = keys.revision := by
  unfold setStatusScript
  dsimp only
  split_ifs <;> simp [revision, hmset, releaseTrack, expire, persist]

@[simp] theorem setStatusScript_ack : (setStatusScript keys args).1.ack = keys.ack := by
  unfold setStatusScript
  dsimp only
  split_ifs <;> simp [JobKeys.ack, hmset, releaseTrack, expire, persist]

@[simp] theorem setStatusScript_numericPID :
    (setStatusScript keys args).1.info.numericPID = keys.info.numericPID := by
  unfold setStatusScript
  dsimp only
  split_ifs <;> simp [info, intOr, hmset, releaseTrack, expire, persist]

/-- The branch that persists the key is never taken: only the three statuses
that set a time to live are final. -/
theorem setStatusScript_ttl_of_accepted (h : args.Accepted keys) :
    (setStatusScript keys args).1.ttl =
      if stCode (some args.status) = 3 then some (if args.status = "Error" then 604800 else 86400)
      else keys.ttl := by
  unfold setStatusScript
  rw [if_pos h]
  by_cases hfinal : stCode (some args.status) = 3
  · rw [if_pos hfinal, if_pos hfinal]
    rcases eq_text_of_stCode_eq_three hfinal with hstatus | hstatus | hstatus <;>
      simp [hstatus, expire]
  · rw [if_neg hfinal, if_neg hfinal]
    rfl

/-- An accepted final status uses up one of the counts of the track entry. -/
theorem setStatusScript_track_of_accepted (h : args.Accepted keys) :
    (setStatusScript keys args).1.track =
      if stCode (some args.status) = 3 then keys.releaseTrack.track else keys.track := by
  unfold setStatusScript
  split_ifs <;> simp_all [hmset, releaseTrack, expire, persist]

end SetStatus

/-! ## Acknowledging a hook -/

/-- `ARGV[1..3]` of `HookAckScript`: the status, the revision and the check-in
time of the acknowledged event. -/
structure HookAckArgs where
  status : String
  revision : ℤ
  checkInAt : ℤ := 0
  deriving DecidableEq, Repr

/-- The Lua function `compare`: the event is not behind the recorded one. -/
def HookAckArgs.Compares (args : HookAckArgs) (status : String) (revision : ℤ) : Prop :=
  revision < args.revision ∨
    (revision = args.revision ∧ stCode (some status) ≤ stCode (some args.status)) ∨
    (revision = args.revision ∧ args.checkInAt ≠ 0)

instance (args : HookAckArgs) (status : String) (revision : ℤ) :
    Decidable (args.Compares status revision) :=
  inferInstanceAs (Decidable (_ ∨ _))

/-- The Lua function `canSetAck`. -/
def HookAckArgs.Accepted (args : HookAckArgs) (keys : JobKeys) : Prop :=
  match keys.ack with
  | some ack => args.Compares ack.status ack.revision
  | none => keys.revision ≤ args.revision

instance (args : HookAckArgs) (keys : JobKeys) : Decidable (args.Accepted keys) := by
  unfold HookAckArgs.Accepted
  cases keys.ack <;> infer_instance

/-- `HookAckScript`, with its reply. -/
def hookAckScript (keys : JobKeys) (args : HookAckArgs) : JobKeys × String :=
  if args.Accepted keys then
    let set := keys.hmset [(.ack, .ack ⟨args.status, args.revision, args.checkInAt⟩)]
    if stCode (some args.status) = 3 then (set.releaseTrack, "ok") else (set, "ok")
  else (keys, "none")

section HookAck

variable {keys : JobKeys} {args : HookAckArgs}

theorem hookAckScript_of_not_accepted (h : ¬ args.Accepted keys) :
    hookAckScript keys args = (keys, "none") := by
  simp [hookAckScript, h]

@[simp] theorem hookAckScript_status : (hookAckScript keys args).1.status = keys.status := by
  unfold hookAckScript
  dsimp only
  split_ifs <;> simp [status, hmset, releaseTrack]

@[simp] theorem hookAckScript_revision : (hookAckScript keys args).1.revision = keys.revision := by
  unfold hookAckScript
  dsimp only
  split_ifs <;> simp [revision, hmset, releaseTrack]

@[simp] theorem hookAckScript_ttl : (hookAckScript keys args).1.ttl = keys.ttl := by
  unfold hookAckScript
  dsimp only
  split_ifs <;> rfl

theorem hookAckScript_ack_of_accepted (h : args.Accepted keys) :
    (hookAckScript keys args).1.ack = some ⟨args.status, args.revision, args.checkInAt⟩ := by
  unfold hookAckScript
  split_ifs <;> simp [JobKeys.ack, hmset, releaseTrack]

theorem hookAckScript_track_of_accepted (h : args.Accepted keys) :
    (hookAckScript keys args).1.track =
      if stCode (some args.status) = 3 then keys.releaseTrack.track else keys.track := by
  unfold hookAckScript
  split_ifs <;> simp_all [hmset, releaseTrack]

end HookAck

/-! ## Resetting the status -/

/-- `StatusResetScript` with start status `status` and revision `now`.  It
compares with nothing. -/
def statusResetScript (keys : JobKeys) (status : String) (now : ℤ) : JobKeys :=
  ((keys.hmset [(.status, .text status), (.revision, .int now), (.updateTime, .int now)]).hdel
    [.ack, .checkIn, .checkInAt]).setTrack 2

section Reset

variable (keys : JobKeys) (status : String) (now : ℤ)

@[simp] theorem statusResetScript_status :
    (statusResetScript keys status now).status = some status := by
  simp [statusResetScript, JobKeys.status, JobKeys.hmset, JobKeys.hdel, JobKeys.setTrack]

@[simp] theorem statusResetScript_revision :
    (statusResetScript keys status now).revision = now := by
  simp [statusResetScript, revision, hmset, hdel, setTrack]

@[simp] theorem statusResetScript_numericPID :
    (statusResetScript keys status now).info.numericPID = keys.info.numericPID := by
  simp [statusResetScript, info, intOr, hmset, hdel, setTrack]

@[simp] theorem statusResetScript_ttl : (statusResetScript keys status now).ttl = keys.ttl := rfl

@[simp] theorem statusResetScript_track :
    (statusResetScript keys status now).track = some 2 := rfl

end Reset

/-! ## Saving -/

section Hmset

variable (keys : JobKeys) (field : Field)

theorem hmset_cons (first : Field × Value) (rest : List (Field × Value)) :
    keys.hmset (first :: rest) = (keys.hmset [first]).hmset rest := rfl

theorem hmset_cons_cons (first second : Field × Value) (rest : List (Field × Value)) :
    keys.hmset (first :: second :: rest) = (keys.hmset [first]).hmset (second :: rest) := rfl

theorem hmset_append (fields rest : List (Field × Value)) :
    keys.hmset (fields ++ rest) = (keys.hmset fields).hmset rest := by
  simp [hmset, List.foldl_append]

@[simp] theorem hmset_nil : keys.hmset [] = keys := rfl

@[simp] theorem hmset_singleton_stats (first : Field × Value) :
    (keys.hmset [first]).stats field =
      if field = first.1 then some first.2 else keys.stats field := by
  simp [hmset, Function.update_apply]

@[simp] theorem hmset_ite_stats (c : Prop) [Decidable c] (fields rest : List (Field × Value)) :
    (keys.hmset (if c then fields else rest)).stats field =
      if c then (keys.hmset fields).stats field else (keys.hmset rest).stats field := by
  split_ifs <;> rfl

theorem hmset_stats_of_not_mem {keys : JobKeys} {fields : List (Field × Value)} {field : Field}
    (hfield : ∀ value, (field, value) ∉ fields) :
    (keys.hmset fields).stats field = keys.stats field := by
  induction fields generalizing keys with
  | nil => rfl
  | cons first rest ih =>
    have hne : field ≠ first.1 := by
      rintro rfl
      exact hfield first.2 (by simp)
    rw [hmset_cons, ih fun value hmem => hfield value (List.mem_cons_of_mem _ hmem)]
    simp [hne]

end Hmset

/-- The fields that a save stores, if it stores any. -/
def savedFields (info : StatsInfo) (now : ℤ) : List (Field × Value) :=
  [(Field.id, Value.text info.jobID), (.name, .text info.jobName), (.kind, .text info.jobKind),
    (.unique, .bool info.isUnique), (.status, .text info.status), (.refLink, .text info.refLink),
    (.enqueueTime, .int info.enqueueTime), (.runAt, .int info.runAt),
    (.cronSpec, .text info.cronSpec), (.webHookURL, .text info.webHookURL),
    (.numericPolicyID, .int info.numericPID)] ++
  (if 0 < info.checkInAt ∧ ¬ isEmptyStr info.checkIn then
    [(Field.checkIn, Value.text redundantCheckInData), (.checkInAt, .int info.checkInAt)]
  else []) ++
  (if 0 < info.dieAt then [(Field.dieAt, Value.int info.dieAt)] else []) ++
  (if isEmptyStr info.upstreamJobID then []
    else [(Field.upstreamJobID, Value.text info.upstreamJobID)]) ++
  (if info.parameters = [] then []
    else [(Field.parameters, Value.parameters info.parameters)]) ++
  [(Field.updateTime, Value.int now),
    (.revision, .int (if 0 < info.revision then info.revision else now))]

theorem savedFields_stats (keys : JobKeys) (info : StatsInfo) (now : ℤ) (field : Field) :
    (keys.hmset (savedFields info now)).stats field =
      match field with
      | .id => some (.text info.jobID)
      | .name => some (.text info.jobName)
      | .kind => some (.text info.jobKind)
      | .unique => some (.bool info.isUnique)
      | .status => some (.text info.status)
      | .refLink => some (.text info.refLink)
      | .enqueueTime => some (.int info.enqueueTime)
      | .runAt => some (.int info.runAt)
      | .cronSpec => some (.text info.cronSpec)
      | .webHookURL => some (.text info.webHookURL)
      | .numericPolicyID => some (.int info.numericPID)
      | .checkIn => if 0 < info.checkInAt ∧ ¬ isEmptyStr info.checkIn then
          some (.text redundantCheckInData) else keys.stats .checkIn
      | .checkInAt => if 0 < info.checkInAt ∧ ¬ isEmptyStr info.checkIn then
          some (.int info.checkInAt) else keys.stats .checkInAt
      | .dieAt => if 0 < info.dieAt then some (.int info.dieAt) else keys.stats .dieAt
      | .upstreamJobID => if isEmptyStr info.upstreamJobID then keys.stats .upstreamJobID
          else some (.text info.upstreamJobID)
      | .parameters => if info.parameters = [] then keys.stats .parameters
          else some (.parameters info.parameters)
      | .updateTime => some (.int now)
      | .revision => some (.int (if 0 < info.revision then info.revision else now))
      | .ack => keys.stats .ack := by
  cases field <;>
    simp only [savedFields, hmset_append, hmset_cons_cons, hmset_ite_stats, hmset_singleton_stats,
      hmset_nil, reduceCtorEq, if_true, if_false, ite_self]

theorem argPairs_flatMap_pair_append (fields : List (Field × Value)) (rest : List Arg) :
    argPairs (fields.flatMap (fun field => Arg.pair field.1 field.2) ++ rest) =
      (argPairs rest).map (fields ++ ·) := by
  induction fields with
  | nil => simp
  | cons first fields ih =>
    have hpair : argPairs (Arg.pair first.1 first.2 ++
        (fields.flatMap (fun field => Arg.pair field.1 field.2) ++ rest)) =
        (argPairs (fields.flatMap (fun field => Arg.pair field.1 field.2) ++ rest)).map
          (first :: ·) := rfl
    rw [List.flatMap_cons, List.append_assoc, hpair, ih, Option.map_map]
    rfl

theorem saveArgs_eq (info : StatsInfo) (now : ℤ) :
    saveArgs info now = (savedFields info now).flatMap (fun field => Arg.pair field.1 field.2) ++
      (if info.hookAck.isSome then [.field .ack] else []) := by
  have hite : ∀ (c : Prop) [Decidable c] (fields rest : List (Field × Value)),
      (if c then fields else rest).flatMap (fun field => Arg.pair field.1 field.2) =
        if c then fields.flatMap (fun field => Arg.pair field.1 field.2)
        else rest.flatMap (fun field => Arg.pair field.1 field.2) := by
    intro c _ fields rest
    split_ifs <;> rfl
  simp only [saveArgs, savedFields, List.flatMap_append, hite, List.flatMap_cons, List.flatMap_nil,
    List.append_assoc, List.append_nil]

/-- A save stores its fields, unless the stats carry an acknowledgement: its
field name comes without a value, so the arguments are not in pairs. -/
theorem save_eq (keys : JobKeys) (info : StatsInfo) (now : ℤ) :
    save keys info now =
      (if info.hookAck = none then keys.hmset (savedFields info now) else keys).setTrack 2 := by
  unfold save
  rw [saveArgs_eq, argPairs_flatMap_pair_append]
  cases info.hookAck <;> simp [argPairs]

theorem save_track (keys : JobKeys) (info : StatsInfo) (now : ℤ) :
    (save keys info now).track = some 2 := by
  rw [save_eq]
  rfl

theorem save_stored (hack : info.hookAck = none) :
    (save keys info now).status = some info.status ∧
      (save keys info now).revision = if 0 < info.revision then info.revision else now := by
  rw [save_eq, if_pos hack]
  simp [status, revision, setTrack, savedFields_stats]

theorem save_numericPID :
    (save keys info now).info.numericPID = keys.info.numericPID ∨
      (save keys info now).info.numericPID = info.numericPID := by
  rw [save_eq]
  split_ifs
  · right
    simp [JobKeys.info, JobKeys.intOr, JobKeys.setTrack, savedFields_stats]
  · exact .inl rfl

/-- Saving sets fields of the hash and nothing else; the acknowledgement is not among them. -/
theorem save_keeps : (save keys info now).ttl = keys.ttl ∧ (save keys info now).ack = keys.ack := by
  rw [save_eq]
  split_ifs
  · refine ⟨rfl, ?_⟩
    simp [JobKeys.ack, setTrack, savedFields_stats]
  · exact ⟨rfl, rfl⟩

/-! ## Updating properties -/

/-- `basicTracker.Update`: one `HMSET` of the update time and the given properties. -/
def updateStats (keys : JobKeys) (fields : List (Field × Value)) (now : ℤ) :
    Except String JobKeys :=
  if fields = [] then .error "no properties specified to update"
  else .ok (keys.hmset ((.updateTime, .int now) :: fields))

end Harbor.JobService
