import Harbor.Quotas.RedisSafety
import Harbor.Quotas.DatabaseRuns

/-!
# Requests through Redis, and what expiry does to them

Two questions about the cached usage.  The first is whether any number of
concurrent requests leave the calculated usage plus what succeeded.  They do
unless a call works on an object that another one has changed, which calls that
miss the key together may do (`usage_shared_after_miss`).

The second is whether a request that fails and rolls back leaves no trace.  It
does not if the key expires between its two changes: the rollback then takes
away from a freshly calculated usage what was never added to it
(`rollback_after_expiry`).
-/

namespace Harbor.Quotas

open Harbor.Concurrency List Pool Quotas.Types

variable {codec : Codec}

/-- A request: the process it runs in, its resources, and what the timeouts of its
loops allow. -/
structure RedisRequest where
  process : ℕ
  resources : ResourceList
  reserveFuel : ℕ
  rollbackFuel : ℕ

/-! ## Concurrent requests -/

/-- The sum of changes. -/
def changeTotal : List Entry → Amounts
  | [] => 0
  | entry :: earlier => changeTotal earlier + entry.delta

theorem replay_without_expiry {calculated : Amounts} {log : List Event} (hexpiry : .expired ∉ log) :
    (replay none calculated log).getD calculated = calculated + changeTotal (changesOf log) := by
  induction log with
  | nil =>
    funext resource
    exact (Int64.add_zero _).symm
  | cons event earlier ih =>
    rw [mem_cons, not_or] at hexpiry
    cases event with
    | expired => exact absurd rfl hexpiry.1
    | set entry =>
      funext resource
      have hearlier := congrFun (ih hexpiry.2) resource
      show _ + entry.delta resource =
        calculated resource + (changeTotal (changesOf earlier) resource + entry.delta resource)
      rw [hearlier, ← Int64.add_assoc]
      rfl

section Pool

variable {Client : Type} [DecidableEq Client]

/-- All requests about to start, and nothing cached. -/
def redisPool (codec : Codec) (rows : QuotaRows) (requests : Client → RedisRequest) :
    Pool (RedisWorld codec Client) (RedisOp codec Client) RedisReply Client
      (Except QuotaFailure Unit) where
  world := { rows := rows }
  threads := fun client => requestByRedis client (requests client).process
    (requests client).resources (requests client).reserveFuel (requests client).rollbackFuel

omit [DecidableEq Client] in
theorem redis_compatible {initial : Option Amounts} {calculated : ResourceList} :
    Pool.Compatible (RedisInv initial calculated)
      (Tolerates False : Client → RedisWorld codec Client → RedisWorld codec Client → Prop)
      MovedBy where
  refl := fun _ => Tolerates.refl
  trans := fun _ _ _ _ => Tolerates.trans
  guar_rely := fun _ _ _ _ hother _ _ hmoved => hmoved.tolerates hother

/-- If no call reads an object that a call has changed or encodes one that another
call has changed, then nothing is cached as long as no change has succeeded, and
after that the cached usage is the calculated one plus all reservations minus all
rollbacks that have succeeded. -/
theorem cached_usage_eq_calculated_add_changes {rows : QuotaRows} {calculated : ResourceList}
    {requests : Client → RedisRequest} {actions : List (Client × RedisChoice)}
    {final : Pool (RedisWorld codec Client) (RedisOp codec Client) RedisReply Client
      (Except QuotaFailure Unit)}
    (hunshared : EveryStep (Pool.step (redisSem calculated)) (Pool.Admits Unshared)
      (redisPool codec rows requests) actions)
    (hrun : exec (Pool.step (redisSem calculated)) (redisPool codec rows requests) actions =
      some final) :
    (final.world.key = none ∧ final.world.log = []) ∨
    ∃ value quota used, final.world.key = some value ∧ codec.decode value = some quota ∧
      quota.used = some used ∧ ∀ resource,
        amount used resource =
          amount calculated resource + changeTotal (changesOf final.world.log) resource := by
  have hinv : RedisInv none calculated (redisPool codec rows requests).world :=
    ⟨.absent, fun _ _ h => by cases h⟩
  have hsecured : Pool.IsSecured (redisSem calculated) (RedisAllowed False)
      (RedisInv none calculated) (Tolerates False) MovedBy
      (fun client _ => Requested False (requests client).process (requests client).resources)
      (redisPool codec rows requests) :=
    ⟨hinv, fun client => requestByRedis_safe _ _ hinv False.elim⟩
  have hadmits : EveryStep (step (redisSem calculated)) (Pool.Admits (RedisAllowed False))
      (redisPool codec rows requests) actions :=
    hunshared.mono fun _ _ _ hadmits op hop => .inr (hadmits op hop)
  -- no request makes the key expire
  have hexpiry : .expired ∉ final.world.log := by
    refine exec_invariant (fun pool => .expired ∉ pool.world.log) ?_ (by simp [redisPool])
      (guarantee_exec redis_compatible hsecured hadmits) hrun
    intro before action after hbefore _ hguar
    rcases hguar.2.log with hlog | ⟨entry, hlog⟩
    · rwa [hlog]
    · rw [hlog, mem_cons, not_or]
      exact ⟨by simp, hbefore⟩
  have hcaches := (secured_exec redis_compatible hsecured hadmits hrun).1.caches
  have hreplay := @replay_without_expiry (amount calculated) _ hexpiry
  cases hlog : final.world.log with
  | nil =>
    rw [hlog] at hcaches
    left
    generalize final.world.key = key at hcaches
    cases hcaches
    exact ⟨rfl, rfl⟩
  | cons event earlier =>
    rw [hlog] at hcaches hreplay hexpiry
    right
    cases event with
    | expired => simp at hexpiry
    | set entry =>
      generalize final.world.key = key at hcaches
      rw [replay] at hcaches hreplay
      generalize hamounts : _ + entry.delta = amounts at hcaches hreplay
      cases hcaches with
      | present hdecode hused => exact ⟨_, _, _, rfl, hdecode, hused, congrFun hreplay⟩

end Pool

/-- A codec that keeps the record itself. -/
def plainCodec : Codec where
  Bytes := Quota
  encode := id
  decode := some
  decode_encode := fun _ => rfl

/-- A request of one process, for an amount of storage. -/
def storageRequest (value : Int64) : RedisRequest :=
  ⟨0, storage value, 2, 2⟩

/-- The actions of a client, all of them successful. -/
def oks {Client : Type} (client : Client) (count : ℕ) : List (Client × RedisChoice) :=
  List.replicate count (client, .ok)

/-- Calls of two processes, each for one byte. -/
def processRequest (second : Bool) : RedisRequest :=
  { storageRequest 1 with process := if second then 1 else 0 }

/-- Both calls miss the key and calculate the usage, the first one stores its change, and the
transaction of the second one fails, which then starts from the cached usage. -/
theorem cached_usage_eq_calculated_add_changes_two_processes :
    ∃ final, exec (Pool.step (redisSem (storage 5)))
        (redisPool plainCodec (storageRows 5 0) processRequest)
        (oks false 10 ++ oks true 10 ++ oks false 5 ++ oks true 14) = some final ∧
      changesOf final.world.log = [.reserve (storage 1), .reserve (storage 1)] ∧
      ((final.world.key = none ∧ final.world.log = []) ∨
        ∃ value quota used, final.world.key = some value ∧ plainCodec.decode value = some quota ∧
          quota.used = some used ∧ ∀ resource, amount used resource =
            amount (storage 5) resource +
              changeTotal (changesOf final.world.log) resource) := by
  refine ⟨_, rfl, rfl, ?_⟩
  have hunshared : EveryStep (step (redisSem (storage 5))) (Pool.Admits Unshared)
      (redisPool plainCodec (storageRows 5 0) processRequest)
      (oks false 10 ++ oks true 10 ++ oks false 5 ++ oks true 14) := by
    -- the first ten operations of a call are neither loads of the usage nor encodings
    iterate 20 refine everyStep_cons rfl (admits_of_nextOp rfl trivial) ?_
    iterate 19 refine everyStep_cons rfl (admits_of_nextOp rfl (by
      first
      | trivial
      | exact fun cell hcell => by cases hcell; rfl)) ?_
    trivial
  exact cached_usage_eq_calculated_add_changes hunshared rfl

/-- Two calls of one process miss the key together and get the same object, with a
usage of 5.  The second one, which adds 2, starts from what the first one has
stored there after adding 1; the first one encodes what the second one has stored,
and its transaction goes through.  The second one tries again and adds 2 once more. -/
theorem usage_shared_after_miss :
    ∃ final, exec (Pool.step (redisSem (storage 5)))
        (redisPool plainCodec (storageRows 5 0) fun second : Bool =>
          storageRequest (if second then 2 else 1))
        (oks false 7 ++ oks true 4 ++ oks false 2 ++ oks true 1 ++ oks false 3 ++ oks true 3 ++
          oks false 3 ++ oks true 12) = some final ∧
      (∀ client, final.threads client = .ret (.ok ())) ∧
      changesOf final.world.log = [.reserve (storage 2), .reserve (storage 1)] ∧
      ∃ quota : Quota, final.world.key = some quota ∧ quota.used = some (storage 10) ∧
        amount (storage 5) resourceStorage +
          changeTotal (changesOf final.world.log) resourceStorage = 8 := by
  refine ⟨_, rfl, ?_, rfl, _, rfl, rfl, rfl⟩
  intro client
  cases client <;> rfl

/-! ## A request and the expiry of the key -/

/-- A log without the changes, which is what would have happened without the request. -/
def withoutChanges : List Event → List Event
  | [] => []
  | .set _ :: earlier => withoutChanges earlier
  | .expired :: earlier => .expired :: withoutChanges earlier

/-- The last thing that happened to the key is the rollback, and before that it had
expired with the reservation in it. -/
def RolledBackAfterExpiry (resources : ResourceList) (log : List Event) : Prop :=
  ∃ earlier, log = .set (.rollback resources) :: .expired :: earlier ∧
    .set (.reserve resources) ∈ earlier

theorem withoutChanges_of_changesOf_nil {log : List Event} (hchanges : changesOf log = []) :
    withoutChanges log = log := by
  induction log with
  | nil => rfl
  | cons event earlier ih =>
    cases event with
    | set entry => cases hchanges
    | expired => rw [withoutChanges, ih hchanges]

theorem mem_of_mem_changesOf {entry : Entry} {log : List Event} (hmem : entry ∈ changesOf log) :
    .set entry ∈ log := by
  induction log with
  | nil => cases hmem
  | cons event earlier ih =>
    cases event with
    | set other =>
      rcases mem_cons.mp hmem with rfl | hrest
      · exact mem_cons_self
      · exact mem_cons_of_mem _ (ih hrest)
    | expired => exact mem_cons_of_mem _ (ih hmem)

section Rollback

variable {resources : ResourceList} {initial : Option Amounts} {calculated : Amounts}
  {earlier : List Event}

/-- A rollback right after the reservation leaves what was there before. -/
theorem replay_reserve_rollback (log : List Event) :
    (replay initial calculated
      (.set (.rollback resources) :: .set (.reserve resources) :: log)).getD calculated =
      (replay initial calculated log).getD calculated := by
  funext resource
  show _ + amount resources resource + -amount resources resource = _
  rw [← Int64.sub_eq_add_neg, Int64.add_sub_cancel]

/-- A rollback after an expiry leaves what was calculated only if it changes nothing. -/
theorem replay_expired_rollback_eq_iff :
    (replay initial calculated (.set (.rollback resources) :: .expired :: earlier)).getD calculated
        = calculated ↔ ∀ resource, amount resources resource = 0 := by
  rw [funext_iff]
  refine forall_congr' fun resource => ?_
  show calculated resource + -amount resources resource = calculated resource ↔ _
  constructor
  · intro heq
    grind
  · intro hzero
    rw [hzero]
    exact Int64.add_zero _

/-- Reserving and rolling back leaves no trace exactly if the rollback did not meet
a key that had expired in between. -/
theorem replay_eq_withoutChanges_iff {log : List Event}
    (hchanges : changesOf log = [.rollback resources, .reserve resources]) :
    (replay initial calculated log).getD calculated =
        (replay initial calculated (withoutChanges log)).getD calculated ↔
      ¬ RolledBackAfterExpiry resources log ∨
        ∀ resource, amount resources resource = 0 := by
  cases log with
  | nil => cases hchanges
  | cons last rest =>
    cases last with
    | expired =>
      have hnot : ¬ RolledBackAfterExpiry resources (.expired :: rest) := by
        rintro ⟨earlier, hlog, -⟩
        cases hlog
      exact ⟨fun _ => .inl hnot, fun _ => rfl⟩
    | set entry =>
      obtain ⟨rfl, hrest⟩ := cons.inj hchanges
      cases rest with
      | nil => cases hrest
      | cons before earlier =>
        cases before with
        | expired =>
          have hrolled : RolledBackAfterExpiry resources
              (.set (.rollback resources) :: .expired :: earlier) :=
            ⟨earlier, rfl, mem_of_mem_changesOf (hrest ▸ mem_cons_self)⟩
          rw [or_iff_right (not_not_intro hrolled)]
          exact replay_expired_rollback_eq_iff
        | set entry =>
          obtain ⟨rfl, hearlier⟩ := cons.inj hrest
          have hnot : ¬ RolledBackAfterExpiry resources
              (.set (.rollback resources) :: .set (.reserve resources) :: earlier) := by
            rintro ⟨_, hlog, -⟩
            cases hlog
          refine ⟨fun _ => .inl hnot, fun _ => ?_⟩
          rw [replay_reserve_rollback, withoutChanges, withoutChanges,
            withoutChanges_of_changesOf_nil hearlier]

end Rollback

/-- The request, and the clock that makes the key expire. -/
inductive ExpiryThread
  | request
  | clock
  deriving DecidableEq

/-- A request about to start, with this quota cached, if any. -/
def expiryPool (codec : Codec) (rows : QuotaRows) (cached : Option Quota) (request : RedisRequest)
    (expiries : ℕ) :
    Pool (RedisWorld codec Unit) (RedisOp codec Unit) RedisReply ExpiryThread
      (Except QuotaFailure Unit) where
  world := { rows := rows, key := cached.map codec.encode }
  threads
    | .request => requestByRedis () request.process request.resources request.reserveFuel
        request.rollbackFuel
    | .clock => expireKey expiries

/-- The amounts in a cached quota. -/
def cachedAmounts (cached : Option Quota) : Option Amounts :=
  cached.bind fun quota => quota.used.map amount

def ExpiryRely (codec : Codec) :
    ExpiryThread → RedisWorld codec Unit → RedisWorld codec Unit → Prop
  | .request => Tolerates True ()
  | .clock => fun _ _ => True

def ExpiryGuar (codec : Codec) :
    ExpiryThread → RedisWorld codec Unit → RedisWorld codec Unit → Prop
  | .request => MovedBy ()
  | .clock => Tolerates True ()

theorem expiry_compatible {initial : Option Amounts} {calculated : ResourceList} :
    Pool.Compatible (RedisInv initial calculated) (ExpiryRely codec) (ExpiryGuar codec) where
  refl := fun thread world => by
    cases thread with
    | request => exact Tolerates.refl world
    | clock => trivial
  trans := fun thread a b c hab hbc => by
    cases thread with
    | request => exact Tolerates.trans hab hbc
    | clock => trivial
  guar_rely := fun thread other a b hother _ _ hguar => by
    cases other with
    | clock => trivial
    | request =>
      cases thread with
      | request => exact absurd rfl hother
      | clock => exact hguar

theorem expireKey_safe {initial : Option Amounts} {calculated : ResourceList} (count : ℕ)
    (world : RedisWorld codec Unit) :
    Secured (redisSem calculated) (RedisAllowed True) (RedisInv initial calculated)
      (ExpiryRely codec .clock) (ExpiryGuar codec .clock) (fun _ _ => True) (expireKey count)
      world := by
  induction count generalizing world with
  | zero => exact fun _ _ _ => trivial
  | succ count ih =>
    intro later choice after reply _ hinv _ hsem
    simp only [redisSem] at hsem
    split_ifs at hsem with hkey
    cases hsem
    refine ⟨⟨.absent, hinv.landed⟩, ⟨Nat.le_succ _, ?_, ?_, ?_⟩, ih _⟩
    · exact fun hsame => absurd hsame (Nat.succ_ne_self _)
    · exact fun address cell hcell => ⟨cell, hcell, fun _ => rfl⟩
    · exact fun _ => ⟨rfl, rfl, rfl⟩

theorem caches_cachedAmounts {cached : Option Quota}
    (hcached : ∀ quota, cached = some quota → quota.used.isSome) :
    Caches codec (cached.map codec.encode) (cachedAmounts cached) := by
  cases cached with
  | none => exact .absent
  | some quota =>
    obtain ⟨used, hused⟩ := Option.isSome_iff_exists.mp (hcached quota rfl)
    have hcaches : Caches codec (some (codec.encode quota)) (some (amount used)) :=
      .present (codec.decode_encode quota) hused
    simpa [cachedAmounts, hused] using hcaches

/-- After a request that has rolled back, the usage in Redis, calculated if nothing
is cached, is what it would be without the request exactly if the key did not
expire between the reservation and the rollback, or the request was for nothing. -/
theorem rollback_leaves_no_trace_iff {rows : QuotaRows} {calculated : ResourceList}
    {cached : Option Quota} {request : RedisRequest} {expiries : ℕ}
    {actions : List (ExpiryThread × RedisChoice)} {result : Except QuotaFailure Unit}
    {final : Pool (RedisWorld codec Unit) (RedisOp codec Unit) RedisReply ExpiryThread
      (Except QuotaFailure Unit)} (hcached : ∀ quota, cached = some quota → quota.used.isSome)
    (hrun : exec (Pool.step (redisSem calculated))
      (expiryPool codec rows cached request expiries) actions = some final)
    (hreturned : final.threads .request = .ret result)
    (hrolledBack : .rollback request.resources ∈ changesOf final.world.log) :
    ∃ used, cachedUsage calculated final.world.key = some used ∧
      (amount used =
          (replay (cachedAmounts cached) (amount calculated)
            (withoutChanges final.world.log)).getD (amount calculated) ↔
        ¬ RolledBackAfterExpiry request.resources final.world.log ∨
          ∀ resource, amount request.resources resource = 0) := by
  have hinv : RedisInv (cachedAmounts cached) calculated
      (expiryPool codec rows cached request expiries).world :=
    ⟨caches_cachedAmounts hcached, fun _ _ h => by cases h⟩
  have hsecured : Pool.IsSecured (redisSem calculated) (RedisAllowed True)
      (RedisInv (cachedAmounts cached) calculated) (ExpiryRely codec) (ExpiryGuar codec)
      (fun thread _ world => thread = .request →
        Requested True request.process request.resources world)
      (expiryPool codec rows cached request expiries) := by
    refine ⟨hinv, fun thread => ?_⟩
    cases thread with
    | request =>
      exact (requestByRedis_safe _ _ hinv fun _ => ⟨rfl, rfl⟩).mono fun _ _ _ h _ => h
    | clock => exact (expireKey_safe expiries _).mono fun _ _ _ _ h => by cases h
  have hfinal := secured_exec expiry_compatible hsecured
    ((everyStep_true _ actions).mono fun _ _ _ _ _ _ => .inl trivial) hrun
  have hrequest := hfinal.2 .request
  rw [hreturned] at hrequest
  have hchanges : changesOf final.world.log =
      [.rollback request.resources, .reserve request.resources] := by
    rcases hrequest final.world (Tolerates.refl _) hfinal.1 rfl with hidle | hidle | hidle
    · simp [(hidle trivial).2] at hrolledBack
    · simp [(hidle trivial).2] at hrolledBack
    · exact (hidle trivial).2
  obtain ⟨used, husage⟩ := hfinal.1.caches.exists_cachedUsage calculated
  refine ⟨used, husage, ?_⟩
  rw [hfinal.1.caches.amount_cachedUsage husage]
  exact replay_eq_withoutChanges_iff hchanges

/-- A request for 2 on a usage of 5, which fails and rolls back before the key expires. -/
theorem rollback_leaves_no_trace_iff_unexpired :
    ∃ final, exec (Pool.step (redisSem (storage 5)))
        (expiryPool plainCodec (storageRows 5 0) none (storageRequest 2) 1)
        (oks .request 14 ++ (.request, .fail .timeout) :: oks .request 9) = some final ∧
      ∃ used, cachedUsage (storage 5) final.world.key = some used ∧
        amount used = (replay none (amount (storage 5))
          (withoutChanges final.world.log)).getD (amount (storage 5)) := by
  obtain ⟨final, hrun, hreturned, hlog⟩ : ∃ final, exec (step (redisSem (storage 5)))
      (expiryPool plainCodec (storageRows 5 0) none (storageRequest 2) 1)
      (oks .request 14 ++ (.request, .fail .timeout) :: oks .request 9) = some final ∧
      final.threads .request = .ret (.error .timeout) ∧
      final.world.log = [.set (.rollback (storage 2)), .set (.reserve (storage 2))] :=
    ⟨_, rfl, rfl, rfl⟩
  have hrolledBack : .rollback (storageRequest 2).resources ∈ changesOf final.world.log := by
    rw [hlog]
    exact mem_cons_self
  obtain ⟨used, husage, hiff⟩ := rollback_leaves_no_trace_iff (fun _ h => by cases h) hrun
    hreturned hrolledBack
  refine ⟨final, hrun, used, husage, hiff.mpr (.inl ?_)⟩
  rintro ⟨earlier, hearlier, -⟩
  rw [hlog] at hearlier
  cases hearlier

/-- The same request, but the key expires before the rollback: the rollback takes 2
away from the calculated usage of 5. -/
theorem rollback_after_expiry :
    ∃ final, exec (Pool.step (redisSem (storage 5)))
        (expiryPool plainCodec (storageRows 5 0) none (storageRequest 2) 1)
        (oks .request 14 ++ (.request, .fail .timeout) :: oks .clock 1 ++ oks .request 14) =
          some final ∧
      final.threads .request = .ret (.error .timeout) ∧
      changesOf final.world.log = [.rollback (storage 2), .reserve (storage 2)] ∧
      ∃ quota : Quota, final.world.key = some quota ∧ quota.used = some (storage 3) ∧
        (replay none (amount (storage 5)) (withoutChanges final.world.log)).getD
          (amount (storage 5)) resourceStorage = 5 :=
  ⟨_, rfl, rfl, rfl, _, rfl, rfl, rfl⟩

end Harbor.Quotas
