import Harbor.Quotas.Flush

/-!
# Updates of the limits, requests and flushes together

Any number of updates through the API, flushes, requests and expiries of the
cached key, in any order.  The main result is about the limits that the last
update has reported as set; after it comes the run in which a flush takes them
back.
-/

namespace Harbor.Quotas

open Harbor.Concurrency

variable {codec : Codec}

inductive FlushThread
  | update (id : ℕ)
  | flush (id : ℕ)
  | request (id : ℕ)
  | clock (id : ℕ)
  deriving DecidableEq

/-- The update that a thread is, if it is one. -/
def FlushThread.updater : FlushThread → Option ℕ
  | .update id => some id
  | _ => none

theorem FlushThread.eq_of_updater {thread other : FlushThread} {id : ℕ}
    (hthread : thread.updater = some id) (hother : other.updater = some id) : thread = other := by
  cases thread with
  | update first =>
    cases other with
    | update second =>
      cases hthread
      cases hother
      rfl
    | _ => cases hother
  | _ => cases hthread

/-- What the threads do: the limits that each update sets, the requests, how often the
key may expire, and what the timeouts allow. -/
structure FlushSetting where
  validate : ResourceList → Option String
  hardLimits : ℕ → ResourceList
  request : ℕ → RedisRequest
  expiries : ℕ → ℕ
  updateFuel : ℕ → ℕ
  flushFuel : ℕ → ℕ

def flushPool (codec : Codec) (rows : QuotaRows) (key : Option codec.Bytes)
    (setting : FlushSetting) :
    Pool (RedisWorld codec ℕ) (RedisOp codec ℕ) RedisReply FlushThread
      (Except QuotaFailure Unit) where
  world := { rows := rows, key := key }
  threads
    | .update id =>
      updateQuota setting.validate id (setting.hardLimits id) (setting.updateFuel id)
    | .flush id => flushQuota (setting.flushFuel id)
    | .request id => requestByRedis id (setting.request id).process (setting.request id).resources
        (setting.request id).reserveFuel (setting.request id).rollbackFuel
    | .clock id => expireKey (setting.expiries id)

theorem flush_compatible :
    Pool.Compatible (FlushInv : RedisWorld codec ℕ → Prop)
      (fun thread : FlushThread => FlushRely thread.updater)
      (fun thread => FlushGuar thread.updater) where
  refl := fun thread world => by
    cases hupdater : thread.updater with
    | none => trivial
    | some id => exact UpdateRely.refl id world
  trans := fun thread a b c hab hbc => by
    cases hupdater : thread.updater with
    | none => trivial
    | some id =>
      rw [hupdater] at hab hbc
      exact UpdateRely.trans hab hbc
  guar_rely := fun thread other a b hother _ _ hguar => by
    cases hupdater : other.updater with
    | none => trivial
    | some id =>
      apply hguar id
      intro hthread
      exact hother (FlushThread.eq_of_updater hthread hupdater)

/-- If every flush finds the cached limits equal to the stored ones or the cached
usage different from the stored one, then the limits that an update through the API
has reported as set, having met no other update, stay until another update begins. -/
theorem promised_hard_kept {rows : QuotaRows} {key : Option codec.Bytes} {setting : FlushSetting}
    {calculated : ResourceList} {actions : List (FlushThread × RedisChoice)}
    {final : Pool (RedisWorld codec ℕ) (RedisOp codec ℕ) RedisReply FlushThread
      (Except QuotaFailure Unit)} (hrows : rows.hard.isSome)
    (hfresh : EveryStep (Pool.step (redisSem calculated)) (Pool.Admits FlushAllowed)
      (flushPool codec rows key setting) actions)
    (hrun : exec (Pool.step (redisSem calculated)) (flushPool codec rows key setting) actions =
      some final) (hardLimits : ResourceList) (hpromise : final.world.promise = some hardLimits) :
    ∃ stored, final.world.rows.hard = some stored ∧
      ∀ resource, stored.lookup resource = hardLimits.lookup resource := by
  have hinv : FlushInv (flushPool codec rows key setting).world :=
    ⟨hrows, fun _ => Nat.zero_le 1, fun _ hnone => by cases hnone⟩
  have hsecured : Pool.IsSecured (redisSem calculated) FlushAllowed FlushInv
      (fun thread : FlushThread => FlushRely thread.updater)
      (fun thread => FlushGuar thread.updater) (fun _ _ _ => True)
      (flushPool codec rows key setting) := by
    refine ⟨hinv, fun thread => ?_⟩
    cases thread with
    | update id => exact updateQuota_safe setting.validate (setting.updateFuel id)
    | flush id => exact flushQuota_safe (setting.flushFuel id)
    | request id => exact flushSafe_of_uses (requestByRedis_keepsLimits _ _ _ _ _)
    | clock id => exact flushSafe_of_uses (expireKey_keepsLimits _)
  have hfinal := (Pool.secured_exec flush_compatible hsecured hfresh hrun).1
  obtain ⟨-, stored, hstored, hequals⟩ := hfinal.promised hardLimits hpromise
  exact ⟨stored, hstored, Types.equals_iff.mp hequals⟩

/-! ## Concrete runs -/

/-- The rows of a quota with a limit of 100 and a usage of 5. -/
def limitedRows : QuotaRows :=
  { hard := some (storage 100), used := some (storage 5) }

/-- Updates set the limit to 200, and requests are for 2. -/
def raiseLimit : FlushSetting where
  validate := fun _ => none
  hardLimits := fun _ => storage 200
  request := fun _ => storageRequest 2
  expiries := fun _ => 0
  updateFuel := fun _ => 1
  flushFuel := fun _ => 1

/-- A request caches the limit of 100 with a usage of 7, and an update sets the limit to 200.  The
flush finds the usage different from the stored one, and stores the usage only. -/
theorem promised_hard_kept_raised :
    ∃ final, exec (Pool.step (redisSem (storage 5)))
        (flushPool plainCodec limitedRows none raiseLimit)
        (oks (.request 0) 15 ++ oks (.update 0) 7 ++ oks (.flush 0) 5) = some final ∧
      final.world.promise = some (storage 200) ∧
      ∃ stored, final.world.rows.hard = some stored ∧
        ∀ resource, stored.lookup resource = (storage 200).lookup resource := by
  have hfresh : EveryStep (Pool.step (redisSem (storage 5))) (Pool.Admits FlushAllowed)
      (flushPool plainCodec limitedRows none raiseLimit)
      (oks (.request 0) 15 ++ oks (.update 0) 7 ++ oks (.flush 0) 5) := by
    iterate 25 refine everyStep_cons rfl (Pool.admits_of_nextOp rfl trivial) ?_
    refine everyStep_cons rfl (Pool.admits_of_nextOp rfl
      (.inr ⟨storage 5, storage 7, rfl, rfl, rfl⟩)) ?_
    exact everyStep_cons rfl (Pool.admits_of_nextOp rfl trivial) trivial
  exact ⟨_, rfl, rfl, promised_hard_kept rfl hfresh rfl (storage 200) rfl⟩

/-- A request caches the limit of 100 with a usage of 7, and a flush stores that usage.
An update then sets the limit to 200 and reports success.  The next flush finds the
usage equal and the limit different, and stores the limit of 100 again. -/
theorem flush_restores_old_hard :
    ∃ final, exec (Pool.step (redisSem (storage 5)))
        (flushPool plainCodec limitedRows none raiseLimit)
        (oks (.request 0) 15 ++ oks (.flush 0) 5 ++ oks (.update 0) 7 ++ oks (.flush 1) 5) =
          some final ∧
      final.threads (.update 0) = .ret (.ok ()) ∧
      final.world.promise = some (storage 200) ∧
      final.world.rows.hard = some (storage 100) :=
  ⟨_, rfl, rfl, rfl, rfl⟩

end Harbor.Quotas
