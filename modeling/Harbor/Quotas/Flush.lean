import Harbor.Quotas.RedisRuns

/-!
# The background flush and the hard limits

`flushQuota` writes the cached quota back with `Controller.Update`, the function
that an update of the limits through the API uses too.  The cached quota carries
the limits as they were when the usage was calculated, and `Controller.Update`
writes them as well if they differ from the stored ones and the usage does not.

As long as no flush finds the limits different and the usage equal, the limits
that an update through the API has reported as set stay
(`promised_hard_kept`); otherwise the flush takes them back
(`flush_restores_old_hard`).

Most operations are `Quiet` (`RedisOp.KeepsLimits.quiet`).  So is a flush that writes no
limits (`updateAttempt_flush_safe`).  An update writes them while it is in progress, and
then nothing is promised (`writeRows_inv`, `updateRows_step`).
-/

namespace Harbor.Quotas

open Harbor.Concurrency

/-! ## Programs -/

/-- `Controller.Update` takes over the limits of `u` if both parse and differ. -/
def Quota.takeHard (quota u : Quota) : Quota :=
  match quota.hard, u.hard with
  | some oldHard, some newHard =>
    if Types.equals oldHard newHard then quota else quota.setHard newHard
  | _, _ => quota

/-- `Controller.Update` takes over the usage of `u` if both parse and differ. -/
def Quota.takeUsed (quota u : Quota) : Quota :=
  match quota.used, u.used with
  | some oldUsed, some newUsed =>
    if Types.equals oldUsed newUsed then quota else quota.setUsed newUsed
  | _, _ => quota

section Programs

variable {codec : Codec} {Client : Type}

/-- One attempt of `Controller.Update`; no error is final.  A flush notes what it is
going to compare. -/
def updateAttempt (flushing : Bool) (u : Quota) : RedisProgram codec Client Attempt := do
  match ← Redis.readQuota with
  | .error err => return .again err
  | .ok (hard, hardVersion) => do
    match ← Redis.readUsage (if flushing then some (u, hard) else none) with
    | .error err => return .again err
    | .ok (used, usedVersion) => do
      let quota : Quota :=
        { hard := hard, used := used, hardVersion := hardVersion, usedVersion := usedVersion }
      match ← Redis.updateRows ((quota.takeHard u).takeUsed u) with
      | .ok () => return .done
      | .error err => return .again err

/-- `Controller.Update`. -/
def controllerUpdate (flushing : Bool) (u : Quota) (fuel : ℕ) :
    RedisProgram codec Client (Except QuotaFailure Unit) :=
  retry (updateAttempt flushing u) fuel

/-- `flushQuota`, for the key of this quota.  Errors are only logged. -/
def flushQuota (fuel : ℕ) : RedisProgram codec Client (Except QuotaFailure Unit) := do
  match ← Redis.scan with
  | .error _ => return .ok ()
  | .ok false => return .ok ()
  | .ok true => do
    match ← Redis.get with
    | .error _ => return .ok ()
    | .ok none => return .ok ()
    | .ok (some data) =>
      match codec.decode data with
      | none => return .ok ()
      | some u => do
        let _ ← controllerUpdate true u fuel
        return .ok ()

/-- `UpdateQuota` of the API; `validate` gives the error of `quota.Validate`, if any. -/
def updateQuota (validate : ResourceList → Option String) (update : ℕ) (hardLimits : ResourceList)
    (fuel : ℕ) : RedisProgram codec Client (Except QuotaFailure Unit) :=
  if hardLimits.entries = [] then return .error (.other "hard required in body")
  else do
    match ← Redis.readQuota with
    | .error err => return .error err
    | .ok (hard, hardVersion) => do
      match ← Redis.readUsage none with
      | .error err => return .error err
      | .ok (used, usedVersion) =>
        match validate hardLimits with
        | some text => return .error (.other text)
        | none => do
          let quota : Quota :=
            { hard := hard, used := used, hardVersion := hardVersion
              usedVersion := usedVersion }
          Redis.beginUpdate update
          let result ← controllerUpdate false (quota.setHard hardLimits) fuel
          Redis.endUpdate update hardLimits result
          return result

end Programs

/-! ## What an update writes -/

section Writes

variable {rows rows' : QuotaRows} {quota u : Quota}

/-- The statement for the limits is made only if the usage has not changed. -/
def Quota.WritesHard (quota : Quota) : Prop :=
  quota.hardChanged = true ∧ quota.usedChanged = false

theorem update_hard_eq (hwrites : ¬ quota.WritesHard) (hupdate : rows.update quota = .ok rows') :
    rows'.hard = rows.hard := by
  unfold QuotaRows.update at hupdate
  split_ifs at hupdate with hboth hnone hused hversion hversion
  · rw [← Except.ok.inj hupdate]
  · rw [← Except.ok.inj hupdate]
  · exact absurd ⟨by simpa [hused] using hnone, by simpa using hused⟩ hwrites

theorem writesHard_of_update (hchanged : quota.hardChanged = true)
    (hupdate : rows.update quota = .ok rows') : quota.WritesHard := by
  refine ⟨hchanged, ?_⟩
  unfold QuotaRows.update at hupdate
  split_ifs at hupdate with hboth
  all_goals simpa [hchanged] using hboth

theorem update_hard_eq_of_writesHard (hwrites : quota.WritesHard)
    (hupdate : rows.update quota = .ok rows') : rows'.hard = quota.hard := by
  obtain ⟨hhard, hused⟩ := hwrites
  simp only [QuotaRows.update, hhard, hused, Bool.false_eq_true, false_and, if_false,
    not_true_eq_false, and_false] at hupdate
  split_ifs at hupdate
  rw [← Except.ok.inj hupdate]

@[simp] theorem takeUsed_hard : (quota.takeUsed u).hard = quota.hard := by
  unfold Quota.takeUsed
  split
  · split_ifs <;> rfl
  · rfl

@[simp] theorem takeUsed_hardChanged : (quota.takeUsed u).hardChanged = quota.hardChanged := by
  unfold Quota.takeUsed
  split
  · split_ifs <;> rfl
  · rfl

theorem takeHard_cases (hunchanged : quota.hardChanged = false) {oldHard newHard : ResourceList}
    (hold : quota.hard = some oldHard) (hnew : u.hard = some newHard) :
    (Types.equals oldHard newHard = true ∧ (quota.takeHard u).hardChanged = false) ∨
      ((quota.takeHard u).hardChanged = true ∧ (quota.takeHard u).hard = some newHard) := by
  unfold Quota.takeHard
  rw [hold, hnew]
  dsimp only
  split_ifs with hequals
  · exact .inl ⟨hequals, hunchanged⟩
  · exact .inr ⟨rfl, rfl⟩

theorem update_hard_isSome (hunchanged : quota.hardChanged = false) (hsome : rows.hard.isSome)
    (hupdate : rows.update ((quota.takeHard u).takeUsed u) = .ok rows') : rows'.hard.isSome := by
  by_cases hwrites : ((quota.takeHard u).takeUsed u).WritesHard
  · rw [update_hard_eq_of_writesHard hwrites hupdate, takeUsed_hard]
    have hchanged := hwrites.1
    rw [takeUsed_hardChanged] at hchanged
    unfold Quota.takeHard at hchanged ⊢
    split at hchanged
    · split_ifs at hchanged ⊢
      · simp [hunchanged] at hchanged
      · rfl
    · simp [hunchanged] at hchanged
  · rw [update_hard_eq hwrites hupdate]
    exact hsome

end Writes

/-! ## What holds in every state -/

section Worlds

variable {codec : Codec} {Client : Type}

/-- The stored limits are these. -/
def HardIs (hardLimits : ResourceList) (world : RedisWorld codec Client) : Prop :=
  ∃ stored, world.rows.hard = some stored ∧ Types.equals stored hardLimits = true

structure FlushInv (world : RedisWorld codec Client) : Prop where
  parses : world.rows.hard.isSome
  alone : world.overlapped = false → world.updating.length ≤ 1
  promised : ∀ hardLimits, world.promise = some hardLimits →
    world.updating = [] ∧ HardIs hardLimits world

/-- What an update through the API tolerates while it is in progress. -/
def UpdateRely (update : ℕ) (before after : RedisWorld codec Client) : Prop :=
  update ∈ before.updating → update ∈ after.updating ∧
    (after.overlapped = false → before.overlapped = false ∧ after.rows.hard = before.rows.hard)

variable {before after : RedisWorld codec Client}

theorem UpdateRely.refl (update : ℕ) (world : RedisWorld codec Client) :
    UpdateRely update world world :=
  fun hmem => ⟨hmem, fun halone => ⟨halone, rfl⟩⟩

theorem UpdateRely.trans {update : ℕ} {a b c : RedisWorld codec Client}
    (hab : UpdateRely update a b) (hbc : UpdateRely update b c) : UpdateRely update a c := by
  intro hmem
  obtain ⟨hmem, hfirst⟩ := hab hmem
  obtain ⟨hmem, hsecond⟩ := hbc hmem
  refine ⟨hmem, fun halone => ?_⟩
  obtain ⟨halone, hhard⟩ := hsecond halone
  obtain ⟨halone, hhard'⟩ := hfirst halone
  exact ⟨halone, hhard.trans hhard'⟩

/-- A step that concerns neither the limits nor the updates of them. -/
structure Quiet (before after : RedisWorld codec Client) : Prop where
  hard_eq : after.rows.hard = before.rows.hard
  updating_eq : after.updating = before.updating
  overlapped_eq : after.overlapped = before.overlapped
  promise_eq : after.promise = before.promise

theorem Quiet.inv (hquiet : Quiet before after) (hinv : FlushInv before) : FlushInv after where
  parses := by
    rw [hquiet.hard_eq]
    exact hinv.parses
  alone := by
    rw [hquiet.overlapped_eq, hquiet.updating_eq]
    exact hinv.alone
  promised := fun hardLimits hpromise => by
    rw [hquiet.promise_eq] at hpromise
    obtain ⟨hupdating, stored, hhard, hequals⟩ := hinv.promised hardLimits hpromise
    exact ⟨hquiet.updating_eq.trans hupdating, stored, hquiet.hard_eq.trans hhard, hequals⟩

theorem Quiet.rely (hquiet : Quiet before after) (update : ℕ) : UpdateRely update before after := by
  intro hmem
  rw [hquiet.updating_eq, hquiet.overlapped_eq]
  exact ⟨hmem, fun halone => ⟨halone, hquiet.hard_eq⟩⟩

/-- The statement fails, or the rows are those that it leaves. -/
theorem updateRows_cases {calculated : ResourceList} {quota : Quota} {choice : RedisChoice}
    {world : RedisWorld codec Client} {reply : Except QuotaFailure Unit}
    (hsem : redisSem calculated world (.updateRows quota) choice = some (after, reply)) :
    (∃ err, after = world ∧ reply = .error err) ∨
      ∃ rows, world.rows.update quota = .ok rows ∧ after = { world with rows := rows } ∧
        reply = .ok () := by
  cases choice with
  | fail err =>
    cases hsem
    exact .inl ⟨_, rfl, rfl⟩
  | ok =>
    cases hupdate : world.rows.update quota with
    | error err | ok rows =>
      simp only [redisSem, hupdate] at hsem
      cases hsem
      simp

/-- The operations that concern neither the limits nor the updates of them. -/
def RedisOp.KeepsLimits : RedisOp codec Client → Prop
  | .updateRows quota => ¬ quota.WritesHard
  | .beginUpdate _ => False
  | .endUpdate _ _ _ => False
  | _ => True

theorem RedisOp.KeepsLimits.quiet {calculated : ResourceList} {op : RedisOp codec Client}
    {choice : RedisChoice} {world : RedisWorld codec Client} {reply : RedisReply op}
    (hkeeps : op.KeepsLimits) (hsem : redisSem calculated world op choice = some (after, reply)) :
    Quiet world after := by
  by_cases hreads : op.Reads
  · rw [hreads.world_eq hsem]
    exact ⟨rfl, rfl, rfl, rfl⟩
  cases op with
  | connect | watch | get | scan | readQuota | readUsage | calculateUsage | runF | await
  | loadHard | loadUsed | encode => exact absurd trivial hreads
  | beginUpdate | endUpdate => exact hkeeps.elim
  | land | alloc | storeUsed =>
    cases hsem
    exact ⟨rfl, rfl, rfl, rfl⟩
  | join process =>
    have hjoin : world.join process = (after, reply) := Option.some.inj hsem
    unfold RedisWorld.join at hjoin
    split at hjoin <;> obtain ⟨rfl, -⟩ := Prod.mk.inj hjoin <;> exact ⟨rfl, rfl, rfl, rfl⟩
  | expire =>
    simp only [redisSem] at hsem
    split_ifs at hsem
    cases hsem
    exact ⟨rfl, rfl, rfl, rfl⟩
  | exec watched value entry =>
    cases choice with
    | fail err =>
      cases hsem
      exact ⟨rfl, rfl, rfl, rfl⟩
    | ok =>
      simp only [redisSem] at hsem
      split_ifs at hsem <;> cases hsem <;> exact ⟨rfl, rfl, rfl, rfl⟩
  | updateRows quota =>
    obtain ⟨err, rfl, -⟩ | ⟨rows, hupdate, rfl, -⟩ := updateRows_cases hsem
    · exact ⟨rfl, rfl, rfl, rfl⟩
    · exact ⟨update_hard_eq hkeeps hupdate, rfl, rfl, rfl⟩

end Worlds

/-! ## The threads -/

section Threads

variable {codec : Codec} {Client : Type} {calculated : ResourceList} {me : Option ℕ}
  {world : RedisWorld codec Client}

/-- A flush that has read the stored limits as `hard`, and is about to read the
usage, finds the limits of the cached quota `u` equal or its usage different. -/
def FlushFresh (world : RedisWorld codec Client) (u : Quota) (hard : ResourceText) : Prop :=
  (∀ oldHard newHard, hard = some oldHard → u.hard = some newHard →
    Types.equals oldHard newHard = true) ∨
  ∃ oldUsed newUsed, world.rows.used = some oldUsed ∧ u.used = some newUsed ∧
    Types.equals oldUsed newUsed = false

def FlushAllowed (world : RedisWorld codec Client) (op : RedisOp codec Client)
    (_choice : RedisChoice) : Prop :=
  match op with
  | .readUsage (some (u, hard)) => FlushFresh world u hard
  | _ => True

/-- What a thread counts on; only updates through the API count on anything. -/
def FlushRely : Option ℕ → RedisWorld codec Client → RedisWorld codec Client → Prop
  | some update => UpdateRely update
  | none => fun _ _ => True

def FlushGuar (me : Option ℕ) (before after : RedisWorld codec Client) : Prop :=
  ∀ update, me ≠ some update → UpdateRely update before after

abbrev FlushSafe {Result : Type} (calculated : ResourceList) (me : Option ℕ)
    (Post : Result → RedisWorld codec Client → Prop) (program : RedisProgram codec Client Result)
    (world : RedisWorld codec Client) : Prop :=
  Secured (redisSem calculated) FlushAllowed FlushInv (FlushRely me) (FlushGuar me) Post program
    world

variable {Result : Type}

theorem FlushGuar.refl (world : RedisWorld codec Client) : FlushGuar me world world :=
  fun update _ => UpdateRely.refl update world

theorem flushSafe_read {Post : Result → RedisWorld codec Client → Prop} {op : RedisOp codec Client}
    {next : RedisReply op → RedisProgram codec Client Result} (hreads : op.Reads)
    (hnext : ∀ later choice reply, FlushRely me world later → FlushInv later →
      FlushAllowed later op choice → redisSem calculated later op choice = some (later, reply) →
        FlushSafe calculated me Post (next reply) later) :
    FlushSafe calculated me Post (.call op next) world :=
  Secured.read FlushGuar.refl (fun _ _ _ _ hsem => hreads.world_eq hsem) hnext

/-- A program that concerns neither the limits nor the updates of them. -/
theorem flushSafe_of_uses {program : RedisProgram codec Client Result}
    (huses : program.Uses RedisOp.KeepsLimits) :
    FlushSafe calculated me (fun _ _ => True) program world := by
  refine huses.secured (fun _ _ _ => id) ?_ trivial
  intro world op choice after reply hkeeps hinv _ _ hsem
  have hquiet := hkeeps.quiet hsem
  exact ⟨hquiet.inv hinv, fun update _ => hquiet.rely update, trivial⟩

theorem changeCached_keepsLimits (client : Client) (entry : Entry) (watched address : ℕ) :
    (changeCached client entry watched address : RedisProgram codec Client Attempt).Uses
      RedisOp.KeepsLimits := by
  refine ⟨trivial, fun hard => ?_⟩
  cases hard with
  | none => trivial
  | some hardLimits =>
    refine ⟨trivial, fun used => ?_⟩
    cases used with
    | none => trivial
    | some used =>
      simp only [Program.bind]
      cases entry.op hardLimits used with
      | error err => trivial
      | ok newUsed =>
        refine ⟨trivial, fun _ => ⟨trivial, fun value => ?_⟩⟩
        cases value with
        | error err => trivial
        | ok value =>
          refine ⟨trivial, fun reply => ?_⟩
          cases reply with
          | ok _ => trivial
          | error err =>
            show Program.Uses _ (if err = .txFailed then _ else _)
            split_ifs <;> trivial

theorem calcQuota_keepsLimits :
    (calcQuota : RedisProgram codec Client _).Uses RedisOp.KeepsLimits := by
  refine ⟨trivial, fun quota => ?_⟩
  match quota with
  | .error err => trivial
  | .ok (hard, hardVersion) =>
    refine ⟨trivial, fun usage => ?_⟩
    match usage with
    | .error err => trivial
    | .ok (used, usedVersion) =>
      refine ⟨trivial, fun newUsed => ?_⟩
      match newUsed with
      | .error err => trivial
      | .ok newUsed => exact ⟨trivial, fun _ => trivial⟩

theorem fetchCached_keepsLimits (process : ℕ) (data : Option codec.Bytes) :
    (fetchCached process data : RedisProgram codec Client _).Uses RedisOp.KeepsLimits := by
  cases data with
  | none =>
    refine ⟨trivial, fun joined => ?_⟩
    match joined with
    | .lead flight => exact calcQuota_keepsLimits.bind fun _ => ⟨trivial, fun _ => trivial⟩
    | .wait flight => exact ⟨trivial, fun _ => trivial⟩
  | some data =>
    simp only [fetchCached]
    cases codec.decode data with
    | none => trivial
    | some quota => exact ⟨trivial, fun _ => trivial⟩

theorem updateUsageByRedis_keepsLimits (client : Client) (process : ℕ) (entry : Entry) :
    (updateUsageByRedis client process entry : RedisProgram codec Client Attempt).Uses
      RedisOp.KeepsLimits := by
  refine ⟨trivial, fun connected => ?_⟩
  match connected with
  | .error err => trivial
  | .ok () =>
    refine ⟨trivial, fun watched => ?_⟩
    match watched with
    | .error err => trivial
    | .ok watched =>
      refine ⟨trivial, fun data => ?_⟩
      match data with
      | .error err => trivial
      | .ok data =>
        refine (fetchCached_keepsLimits process data).bind fun address => ?_
        match address with
        | .error err => trivial
        | .ok address => exact changeCached_keepsLimits client entry watched address

theorem requestByRedis_keepsLimits (client : Client) (process : ℕ) (resources : ResourceList)
    (reserveFuel rollbackFuel : ℕ) :
    (requestByRedis client process resources reserveFuel rollbackFuel :
      RedisProgram codec Client _).Uses RedisOp.KeepsLimits := by
  unfold requestByRedis
  split_ifs
  · exact ⟨trivial, fun _ => trivial⟩
  · refine (retry_uses (updateUsageByRedis_keepsLimits _ _ _) _).bind fun reserved => ?_
    match reserved with
    | .error err => trivial
    | .ok () =>
      refine ⟨trivial, fun result => ?_⟩
      match result with
      | .ok () => trivial
      | .error err =>
        exact (retry_uses (updateUsageByRedis_keepsLimits _ _ _) _).bind fun _ => trivial

theorem expireKey_keepsLimits (count : ℕ) :
    (expireKey count : RedisProgram codec Client _).Uses RedisOp.KeepsLimits := by
  induction count with
  | zero => trivial
  | succ count ih => exact ⟨trivial, fun _ => ih⟩

/-! ### The flush -/

theorem not_writesHard_of_fresh {quota u : Quota} (hhard : quota.hardChanged = false)
    (hfresh : (∀ oldHard newHard, quota.hard = some oldHard → u.hard = some newHard →
        Types.equals oldHard newHard = true) ∨
      ∃ oldUsed newUsed, quota.used = some oldUsed ∧ u.used = some newUsed ∧
        Types.equals oldUsed newUsed = false) : ¬ ((quota.takeHard u).takeUsed u).WritesHard := by
  rintro ⟨hchanged, hunchanged⟩
  rcases hfresh with hequal | ⟨oldUsed, newUsed, hold, hnew, hdiffer⟩
  · rw [takeUsed_hardChanged] at hchanged
    unfold Quota.takeHard at hchanged
    split at hchanged
    · rename_i oldHard newHard hold hnew
      rw [if_pos (hequal oldHard newHard hold hnew), hhard] at hchanged
      cases hchanged
    · rw [hhard] at hchanged
      cases hchanged
  · have hused : (quota.takeHard u).used = some oldUsed := by
      rw [← hold]
      unfold Quota.takeHard
      split
      · split_ifs <;> rfl
      · rfl
    simp [Quota.takeUsed, hused, hnew, hdiffer, Quota.setUsed] at hunchanged

/-- A flush that finds the limits equal or the usage different writes no limits. -/
theorem updateAttempt_flush_safe (u : Quota) :
    FlushSafe calculated none (fun _ _ => True) (updateAttempt true u) world := by
  refine flushSafe_read trivial ?_
  intro first choice reply _ _ _ _
  match reply with
  | .error err => exact fun _ _ _ => trivial
  | .ok (hard, hardVersion) =>
    refine flushSafe_read trivial ?_
    intro second choice reply _ _ hallowed hsem
    cases hsem
    cases choice with
    | fail err => exact fun _ _ _ => trivial
    | ok =>
      refine flushSafe_of_uses ⟨not_writesHard_of_fresh rfl hallowed, fun reply => ?_⟩
      match reply with
      | .ok () | .error err => trivial

theorem flushQuota_safe (fuel : ℕ) :
    FlushSafe calculated none (fun _ _ => True) (flushQuota fuel) world := by
  refine flushSafe_read trivial ?_
  intro first choice reply _ _ _ _
  match reply with
  | .error _ | .ok false => exact fun _ _ _ => trivial
  | .ok true =>
    refine flushSafe_read trivial ?_
    intro second choice reply _ hinv _ _
    match reply with
    | .error _ | .ok none => exact fun _ _ _ => trivial
    | .ok (some data) =>
      simp only [Program.bind]
      cases codec.decode data with
      | none => exact fun _ _ _ => trivial
      | some u =>
        have hloop : FlushSafe calculated none (LoopLeaves (fun _ => True) fun _ => True)
            (controllerUpdate true u fuel) second :=
          retry_secured (fun _ => trivial) (fun _ _ _ => id) (fun _ _ _ => id)
            (fun world _ => (updateAttempt_flush_safe u).mono fun result _ _ _ => by
              cases result <;> trivial) fuel hinv trivial
        exact Secured.bind (fun _ => trivial) hinv hloop fun _ _ _ _ _ _ _ => trivial

/-! ### An update through the API -/

section Update

variable {update : ℕ} {hardLimits : ResourceList}

def InProgress (update : ℕ) (world : RedisWorld codec Client) : Prop :=
  update ∈ world.updating

variable {before after : RedisWorld codec Client} {u : Quota}

theorem InProgress.stable {before after : RedisWorld codec Client}
    (hrely : UpdateRely update before after) (hmem : InProgress update before) :
    InProgress update after :=
  (hrely hmem).1

/-- What an update knows once it has written its limits. -/
def Updated (update : ℕ) (hardLimits : ResourceList) (world : RedisWorld codec Client) : Prop :=
  InProgress update world ∧ (world.overlapped = false → HardIs hardLimits world)

theorem Updated.stable (hrely : UpdateRely update before after)
    (hupdated : Updated update hardLimits before) : Updated update hardLimits after := by
  obtain ⟨hmem, hkept⟩ := hrely hupdated.1
  refine ⟨hmem, fun halone => ?_⟩
  obtain ⟨halone, hhard⟩ := hkept halone
  obtain ⟨stored, hstored, hequals⟩ := hupdated.2 halone
  exact ⟨stored, hhard.trans hstored, hequals⟩

/-- Unless updates overlap, the one that is in progress is the only one. -/
theorem FlushInv.updating_eq (hinv : FlushInv world) (hmem : InProgress update world)
    (halone : world.overlapped = false) : world.updating = [update] := by
  have hmem : update ∈ world.updating := hmem
  obtain ⟨only, honly⟩ := List.length_eq_one_iff.mp
    (Nat.le_antisymm (hinv.alone halone) (List.length_pos_of_mem hmem))
  rw [honly, List.mem_singleton] at hmem
  rw [honly, hmem]

/-- While an update is in progress nothing is promised, so it may write. -/
theorem writeRows_inv {rows : QuotaRows} (hinv : FlushInv world) (hmem : InProgress update world)
    (hparses : rows.hard.isSome) :
    FlushInv { world with rows := rows } ∧
      FlushGuar (some update) world { world with rows := rows } := by
  refine ⟨⟨hparses, hinv.alone, fun promised hpromise => ?_⟩, fun other hother hmem' => ?_⟩
  · have hmem : update ∈ world.updating := hmem
    rw [(hinv.promised promised hpromise).1] at hmem
    cases hmem
  · refine ⟨hmem', fun halone => ?_⟩
    rw [hinv.updating_eq hmem halone, List.mem_singleton] at hmem'
    exact absurd (congrArg some hmem'.symm) hother

/-- The statement of an update that has read the limits `hard`. -/
theorem updateRows_step {quota : Quota} {choice : RedisChoice} {reply : Except QuotaFailure Unit}
    (hinv : FlushInv world) (hmem : InProgress update world)
    (hread : world.overlapped = false → world.rows.hard = quota.hard)
    (hunchanged : quota.hardChanged = false) (hu : u.hard = some hardLimits)
    (hsem : redisSem calculated world (.updateRows ((quota.takeHard u).takeUsed u)) choice =
      some (after, reply)) :
    FlushInv after ∧ FlushGuar (some update) world after ∧
      LoopLeaves (InProgress update) (Updated update hardLimits) reply
        after := by
  obtain ⟨err, rfl, rfl⟩ | ⟨rows, hupdate, rfl, rfl⟩ := updateRows_cases hsem
  · exact ⟨hinv, FlushGuar.refl _, hmem⟩
  obtain ⟨hinv', hguar⟩ := writeRows_inv hinv hmem
    (update_hard_isSome hunchanged hinv.parses hupdate)
  refine ⟨hinv', hguar, hmem, fun halone => ?_⟩
  obtain ⟨oldHard, hold⟩ := Option.isSome_iff_exists.mp hinv.parses
  have hquota : quota.hard = some oldHard := (hread halone).symm.trans hold
  -- equal limits are not written, and need not be
  rcases takeHard_cases hunchanged hquota hu with ⟨hequals, hsame⟩ | ⟨hchanged, hnew⟩
  · have hkeeps : ¬ ((quota.takeHard u).takeUsed u).WritesHard := by
      rintro ⟨hwritten, -⟩
      rw [takeUsed_hardChanged, hsame] at hwritten
      cases hwritten
    exact ⟨oldHard, (update_hard_eq hkeeps hupdate).trans hold, hequals⟩
  · have hwrites : ((quota.takeHard u).takeUsed u).WritesHard :=
      writesHard_of_update (takeUsed_hardChanged.trans hchanged) hupdate
    have hhard : rows.hard = some hardLimits := by
      rw [update_hard_eq_of_writesHard hwrites hupdate, takeUsed_hard, hnew]
    exact ⟨hardLimits, hhard, Types.equals_iff.mpr fun _ => rfl⟩

theorem updateAttempt_safe (hu : u.hard = some hardLimits) (hmem : InProgress update world) :
    FlushSafe calculated (some update)
      (Attempt.Leaves (InProgress update) (Updated update hardLimits))
      (updateAttempt false u) world := by
  have hret : ∀ {result : Attempt} {world : RedisWorld codec Client},
      result.Leaves (InProgress update) (Updated update hardLimits) world →
      FlushSafe calculated (some update)
        (Attempt.Leaves (InProgress update) (Updated update hardLimits))
        (.ret result) world :=
    fun hleaves => Secured.ret (fun _ hrely h =>
      h.stable (fun _ _ h hmem => InProgress.stable h hmem)
        (fun _ _ h hupdated => Updated.stable h hupdated) hrely) hleaves
  refine flushSafe_read trivial ?_
  intro first choice reply hrely _ _ hsem
  have hmem := (hrely hmem).1
  cases hsem
  cases choice with
  | fail err => exact @hret (.again err) first hmem
  | ok =>
    refine flushSafe_read trivial ?_
    intro second choice reply hrely _ _ _
    obtain ⟨hmem, hkept⟩ := hrely hmem
    match reply with
    | .error err => exact @hret (.again err) second hmem
    | .ok (used, usedVersion) =>
      intro third choice after reply hrely' hinv _ hsem
      -- the limits are still those that were read, unless another update has begun
      obtain ⟨hmem, hkept'⟩ := hrely' hmem
      have hread : third.overlapped = false → third.rows.hard = first.rows.hard := by
        intro halone
        obtain ⟨halone, hhard⟩ := hkept' halone
        exact hhard.trans (hkept halone).2
      obtain ⟨hinv', hguar, hleaves⟩ := updateRows_step hinv hmem hread rfl hu hsem
      refine ⟨hinv', hguar, ?_⟩
      match reply with
      | .ok () => exact @hret .done after hleaves
      | .error err => exact @hret (.again err) after hleaves

theorem beginUpdate_step (hinv : FlushInv world) :
    FlushInv (world.beginUpdate update) ∧
      FlushGuar (some update) world (world.beginUpdate update) := by
  refine ⟨⟨hinv.parses, fun halone => ?_, fun _ hpromise => by cases hpromise⟩,
    fun other _ hmem => ⟨List.mem_cons_of_mem _ hmem, fun halone => ?_⟩⟩
  all_goals
    have hempty : world.updating = [] := by
      simpa [RedisWorld.beginUpdate] using halone
  · simp [RedisWorld.beginUpdate, hempty]
  · rw [hempty] at hmem
    cases hmem

theorem endUpdate_step {result : Except QuotaFailure Unit} (hinv : FlushInv world)
    (hleaves : LoopLeaves (InProgress update) (Updated update hardLimits)
      result world) :
    FlushInv (world.endUpdate update hardLimits result) ∧
      FlushGuar (some update) world (world.endUpdate update hardLimits result) := by
  refine ⟨⟨hinv.parses, fun halone => ?_, fun promised hpromise => ?_⟩,
    fun other hother hmem => ⟨?_, fun halone => ⟨halone, rfl⟩⟩⟩
  · exact (List.length_erase_le).trans (hinv.alone halone)
  · simp only [RedisWorld.endUpdate] at hpromise
    split_ifs at hpromise with hok
    cases hpromise
    match result, hok, hleaves with
    | .ok (), hok, hleaves =>
      have halone : world.overlapped = false := by simpa using hok.2
      obtain ⟨hmem, hhard⟩ := hleaves
      refine ⟨?_, hhard halone⟩
      simp [RedisWorld.endUpdate, hinv.updating_eq hmem halone]
    | .error err, hok, _ => simp [Except.isOk, Except.toBool] at hok
  · have hne : other ≠ update := fun heq => hother (congrArg some heq.symm)
    exact (List.mem_erase_of_ne hne).mpr hmem

theorem updateQuota_safe (validate : ResourceList → Option String) (fuel : ℕ) :
    FlushSafe calculated (some update) (fun _ _ => True)
      (updateQuota validate update hardLimits fuel) world := by
  unfold updateQuota
  split_ifs
  · exact fun _ _ _ => trivial
  refine flushSafe_read trivial ?_
  intro first choice reply _ _ _ _
  match reply with
  | .error err => exact fun _ _ _ => trivial
  | .ok (hard, hardVersion) =>
    refine flushSafe_read trivial ?_
    intro second choice reply _ _ _ _
    match reply with
    | .error err => exact fun _ _ _ => trivial
    | .ok (used, usedVersion) =>
      cases validate hardLimits with
      | some text => exact fun _ _ _ => trivial
      | none =>
        intro third choice after reply _ hinv _ hsem
        cases hsem
        obtain ⟨hbegun, hguar⟩ := @beginUpdate_step _ _ _ update hinv
        refine ⟨hbegun, hguar, ?_⟩
        show FlushSafe _ _ _ (controllerUpdate false _ fuel >>= _) _
        refine Secured.bind (UpdateRely.refl update) hbegun
          (retry_secured (UpdateRely.refl update) (fun _ _ => InProgress.stable)
            (fun _ _ => Updated.stable) (fun _ => updateAttempt_safe rfl) fuel hbegun
            List.mem_cons_self) ?_
        intro result last hinv hleaves final choice after reply hrely hinv' _ hsem
        cases hsem
        obtain ⟨hended, hguar⟩ := endUpdate_step hinv'
          (hleaves.stable (fun _ _ h hmem => InProgress.stable h hmem)
            (fun _ _ h hupdated => Updated.stable h hupdated) hrely)
        exact ⟨hended, hguar, fun _ _ _ => trivial⟩

end Update

end Threads

end Harbor.Quotas
