import Harbor.Quotas.Redis

/-!
# The cached usage follows its log

What the key should hold is a matter of its log alone: a change adds its
resources to what is there, or to the calculated usage if nothing is, and an
expiry leaves nothing.  `replay` says so, and `updateUsageByRedis` keeps the key
equal to it as long as no call works on an object that another one has changed.

The objects come from `calcQuota`, in which case other calls may hold them too,
or from decoding the cached value.  A call that is the only one (`solo`) never
meets a changed object; for any number of calls this is what `Unshared` asks
of a run.

The proof follows an attempt from its end to its start:

* `exec_step`: the transaction goes through only if the watched key has not changed, so
  the new usage was computed from the stored one;
* `changeCached_safe`: an attempt that `Holds` an object with the usage to start from
  gets to its transaction (`writeCached_safe`, `exec_safe`);
* `fetchCached_safe`: the object comes out of a calculation (`sharedCalcQuota_safe`) or
  out of the key;
* `updateUsageByRedis_safe`, `requestByRedis_safe`: an attempt leads from `Idle` to
  `Idle`, which carries the retries and the call.
-/

namespace Harbor.Quotas

open Harbor.Concurrency Option

/-! ## The abstract key -/

abbrev Amounts : Type := ResourceName → Int64

/-- What a change adds to the amounts. -/
def Entry.delta : Entry → Amounts
  | .reserve resources => Types.amount resources
  | .rollback resources => -Types.amount resources

def changesOf : List Event → List Entry
  | [] => []
  | .set entry :: log => entry :: changesOf log
  | .expired :: log => changesOf log

/-- What the key holds after the events of a log. -/
def replay (initial : Option Amounts) (calculated : Amounts) : List Event → Option Amounts
  | [] => initial
  | .set entry :: log => some ((replay initial calculated log).getD calculated + entry.delta)
  | .expired :: _ => none

theorem Entry.amount_op {entry : Entry} {hardLimits used newUsed : ResourceList}
    (hop : entry.op hardLimits used = .ok newUsed) :
    Types.amount newUsed = Types.amount used + entry.delta := by
  funext resource
  cases entry with
  | reserve resources =>
    obtain ⟨rfl, -⟩ := reserveResources_eq_ok hop
    exact Types.amount_add used resources resource
  | rollback resources =>
    have hrollback : rollbackResources resources hardLimits used = .ok newUsed := hop
    obtain ⟨rfl, -⟩ := rollbackResources_eq_ok hrollback
    rw [Types.amount_subtract, Int64.sub_eq_add_neg]
    rfl

section Key

variable {codec : Codec}

/-- The key holds these amounts. -/
inductive Caches (codec : Codec) : Option codec.Bytes → Option Amounts → Prop
  | absent : Caches codec none none
  | present {value : codec.Bytes} {quota : Quota} {used : ResourceList}
      (hdecode : codec.decode value = some quota) (hused : quota.used = some used) :
      Caches codec (some value) (some (Types.amount used))

/-- The usage that a call starts from. -/
def cachedUsage (calculated : ResourceList) : Option codec.Bytes → ResourceText
  | none => some calculated
  | some value => (codec.decode value).bind Quota.used

variable {key : Option codec.Bytes} {amounts : Option Amounts}

theorem Caches.amount_cachedUsage {calculated used : ResourceList}
    (hcaches : Caches codec key amounts) (husage : cachedUsage calculated key = some used) :
    Types.amount used = amounts.getD (Types.amount calculated) := by
  cases hcaches with
  | absent =>
    cases husage
    rfl
  | present hdecode hused =>
    simp only [cachedUsage, hdecode, bind_some, hused, some.injEq] at husage
    rw [husage]
    rfl

theorem Caches.exists_cachedUsage (hcaches : Caches codec key amounts) (calculated : ResourceList) :
    ∃ used, cachedUsage calculated key = some used := by
  cases hcaches with
  | absent => exact ⟨calculated, rfl⟩
  | @present _ _ used hdecode hused =>
    refine ⟨used, ?_⟩
    rw [cachedUsage, hdecode, bind_some, hused]

end Key

/-! ## What the calls count on -/

section Worlds

variable {codec : Codec} {Client : Type}

/-- The object at `address` has this usage if `writer` is the last to have stored
to it, and in a run with a single call it is. -/
def Holds (solo : Prop) (writer : Option Client) (used : ResourceText) (address : ℕ)
    (world : RedisWorld codec Client) : Prop :=
  ∃ cell, world.heap[address]? = some cell ∧ (solo → cell.writer = writer) ∧
    (cell.writer = writer → cell.quota.used = used)

structure RedisInv (initial : Option Amounts) (calculated : ResourceList)
    (world : RedisWorld codec Client) : Prop where
  caches : Caches codec world.key (replay initial (Types.amount calculated) world.log)
  landed : ∀ flight address, world.landed flight = some (.ok address) →
    Holds False none (some calculated) address world

/-- What a call tolerates from the others. -/
structure Tolerates (solo : Prop) (client : Client) (before after : RedisWorld codec Client) :
    Prop where
  changes_le : before.changes ≤ after.changes
  key_eq : after.changes = before.changes → after.key = before.key
  cell : ∀ (address : ℕ) cell, before.heap[address]? = some cell →
    ∃ cell', after.heap[address]? = some cell' ∧
      (cell'.writer = none ∨ cell'.writer = some client → cell' = cell)
  alone : solo → after.heap = before.heap ∧ after.flights = before.flights ∧
    changesOf after.log = changesOf before.log

/-- What a call does itself. -/
structure MovedBy (client : Client) (before after : RedisWorld codec Client) : Prop where
  changes_le : before.changes ≤ after.changes
  key_eq : after.changes = before.changes → after.key = before.key
  cell : ∀ (address : ℕ) cell, before.heap[address]? = some cell →
    ∃ cell', after.heap[address]? = some cell' ∧ (cell' = cell ∨ cell'.writer = some client)
  log : after.log = before.log ∨ ∃ entry, after.log = .set entry :: before.log

/-- No call reads the usage of an object after a call has stored to it, and none
encodes an object after another call has stored to it. -/
def Unshared (world : RedisWorld codec Client) (op : RedisOp codec Client)
    (_choice : RedisChoice) : Prop :=
  match op with
  | .loadUsed address => ∀ cell, world.heap[address]? = some cell → cell.writer = none
  | .encode client address =>
    ∀ cell, world.heap[address]? = some cell → cell.writer = some client
  | _ => True

/-- What is asked of the steps of a run: nothing if there is a single call. -/
def RedisAllowed (solo : Prop) (world : RedisWorld codec Client) (op : RedisOp codec Client)
    (choice : RedisChoice) : Prop :=
  solo ∨ Unshared world op choice

/-- What a call knows between its operations: the usage `base` is still the one to
start from unless the key has changed since, and in a run with a single call, so
far there have been the changes `earlier`. -/
structure Underway (solo : Prop) (calculated : ResourceList) (process : ℕ) (current : Option ℕ)
    (earlier : List Entry) (watched : ℕ) (base : ResourceText)
    (world : RedisWorld codec Client) : Prop where
  watched_le : watched ≤ world.changes
  usage_eq : world.changes = watched → cachedUsage calculated world.key = base
  flights_eq : solo → world.flights process = current
  changes_eq : solo → changesOf world.log = earlier

/-- What a call knows before and after an attempt. -/
def Idle (solo : Prop) (process : ℕ) (earlier : List Entry) (world : RedisWorld codec Client) :
    Prop :=
  solo → world.flights process = none ∧ changesOf world.log = earlier

variable {solo : Prop} {client : Client} {before after world : RedisWorld codec Client}
  {process : ℕ} {earlier : List Entry} {calculated : ResourceList} {watched : ℕ}
  {base : ResourceText}

theorem Tolerates.refl (world : RedisWorld codec Client) : Tolerates solo client world world :=
  ⟨le_rfl, fun _ => rfl, fun _ cell hcell => ⟨cell, hcell, fun _ => rfl⟩, fun _ => ⟨rfl, rfl, rfl⟩⟩

theorem Tolerates.trans {a b c : RedisWorld codec Client} (hab : Tolerates solo client a b)
    (hbc : Tolerates solo client b c) : Tolerates solo client a c where
  changes_le := hab.changes_le.trans hbc.changes_le
  key_eq := fun hchanges => by
    have hle := hab.changes_le
    have hle' := hbc.changes_le
    rw [hbc.key_eq (by omega), hab.key_eq (by omega)]
  cell := fun address cell hcell => by
    obtain ⟨mid, hmid, hsame⟩ := hab.cell address cell hcell
    obtain ⟨last, hlast, hsame'⟩ := hbc.cell address mid hmid
    refine ⟨last, hlast, fun hwriter => ?_⟩
    obtain rfl := hsame' hwriter
    exact hsame hwriter
  alone := fun hsolo => by
    obtain ⟨hheap, hflights, hlog⟩ := hab.alone hsolo
    obtain ⟨hheap', hflights', hlog'⟩ := hbc.alone hsolo
    exact ⟨hheap'.trans hheap, hflights'.trans hflights, hlog'.trans hlog⟩

theorem MovedBy.refl (world : RedisWorld codec Client) : MovedBy client world world :=
  ⟨le_rfl, fun _ => rfl, fun _ cell hcell => ⟨cell, hcell, .inl rfl⟩, .inl rfl⟩

theorem MovedBy.tolerates {other : Client} (hmoved : MovedBy client before after)
    (hother : client ≠ other) : Tolerates False other before after where
  changes_le := hmoved.changes_le
  key_eq := hmoved.key_eq
  cell := fun address cell hcell => by
    obtain ⟨cell', hcell', hsame | hwriter⟩ := hmoved.cell address cell hcell
    · exact ⟨cell', hcell', fun _ => hsame⟩
    · refine ⟨cell', hcell', fun hnot => ?_⟩
      rcases hnot with hnone | hsome
      · simp [hwriter] at hnone
      · exact absurd (some.inj (hwriter.symm.trans hsome)) hother
  alone := False.elim

theorem Holds.stable {writer : Option Client} {used : ResourceText} {address : ℕ}
    (hwriter : writer = none ∨ writer = some client)
    (hholds : Holds solo writer used address before)
    (htolerates : Tolerates solo client before after) : Holds solo writer used address after := by
  obtain ⟨cell, hcell, hsolo, hused⟩ := hholds
  obtain ⟨cell', hcell', hsame⟩ := htolerates.cell address cell hcell
  refine ⟨cell', hcell', fun hs => ?_, fun hlast => ?_⟩
  · have hcell := hcell
    rw [← (htolerates.alone hs).1, hcell'] at hcell
    rw [some.inj hcell]
    exact hsolo hs
  · obtain rfl := hsame (by rwa [hlast])
    exact hused hlast

theorem Idle.stable (hidle : Idle solo process earlier before)
    (htolerates : Tolerates solo client before after) : Idle solo process earlier after := by
  intro hsolo
  obtain ⟨-, hflights, hlog⟩ := htolerates.alone hsolo
  rw [hflights, hlog]
  exact hidle hsolo

theorem Underway.stable {current : Option ℕ}
    (hunderway : Underway solo calculated process current earlier watched base before)
    (htolerates : Tolerates solo client before after) :
    Underway solo calculated process current earlier watched base after where
  watched_le := hunderway.watched_le.trans htolerates.changes_le
  usage_eq := fun hchanges => by
    have hle := hunderway.watched_le
    have hle' := htolerates.changes_le
    rw [htolerates.key_eq (by omega), hunderway.usage_eq (by omega)]
  flights_eq := fun hsolo => by rw [(htolerates.alone hsolo).2.1, hunderway.flights_eq hsolo]
  changes_eq := fun hsolo => by rw [(htolerates.alone hsolo).2.2, hunderway.changes_eq hsolo]

theorem Underway.idle {calculated : ResourceList} {watched : ℕ} {base : ResourceText}
    (hunderway : Underway solo calculated process none earlier watched base world) :
    Idle solo process earlier world :=
  fun hsolo => ⟨hunderway.flights_eq hsolo, hunderway.changes_eq hsolo⟩

end Worlds

/-! ## Single operations -/

section Operations

variable {codec : Codec} {Client : Type} {solo : Prop} {initial : Option Amounts}
  {calculated : ResourceList} {client : Client} {world after : RedisWorld codec Client}
  {choice : RedisChoice}

/-- The operations of a call that leave the world alone. -/
def RedisOp.Reads : RedisOp codec Client → Prop
  | .connect | .watch | .get | .scan | .await _ | .readQuota | .readUsage _ | .calculateUsage
  | .loadHard _ | .loadUsed _ | .encode _ _ | .runF => True
  | _ => False

variable {address : ℕ} {cell : Cell Client} {quota : Quota} {used : ResourceList} {process : ℕ}

theorem RedisOp.Reads.world_eq {op : RedisOp codec Client} {reply : RedisReply op}
    (hreads : op.Reads) (hsem : redisSem calculated world op choice = some (after, reply)) :
    after = world := by
  cases op with
  | connect | watch | get | scan | readQuota | readUsage | calculateUsage | runF =>
    exact (Prod.mk.inj (some.inj hsem)).1.symm
  | await | loadHard | loadUsed | encode =>
    obtain ⟨_, -, heq⟩ := map_eq_some_iff.mp hsem
    exact (Prod.mk.inj heq).1.symm
  | _ => exact hreads.elim

theorem encode_reply {reply : Except QuotaFailure codec.Bytes}
    (hcell : world.heap[address]? = some cell)
    (hsem : redisSem calculated world (.encode client address) choice = some (after, reply)) :
    reply = choice.reply (codec.encode cell.quota) := by
  simp only [redisSem, hcell, map_some] at hsem
  exact (Prod.mk.inj (some.inj hsem)).2.symm

theorem loadUsed_reply {reply : ResourceText} (hcell : world.heap[address]? = some cell)
    (hsem : redisSem calculated world (.loadUsed address) choice = some (after, reply)) :
    reply = cell.quota.used := by
  simp only [redisSem, hcell, map_some] at hsem
  exact (Prod.mk.inj (some.inj hsem)).2.symm

theorem alloc_step (hinv : RedisInv initial calculated world)
    (hsem : redisSem calculated world (.alloc quota) choice = some (after, address)) :
    RedisInv initial calculated after ∧ MovedBy client world after ∧
      Holds solo none quota.used address after := by
  cases hsem
  have hold : ∀ (address : ℕ) cell, world.heap[address]? = some cell →
      (world.heap ++ [{ quota := quota }])[address]? = some cell := by
    intro address cell hcell
    obtain ⟨hlt, -⟩ := List.getElem?_eq_some_iff.mp hcell
    rw [List.getElem?_append_left hlt, hcell]
  refine ⟨⟨hinv.caches, fun flight address hlanded => ?_⟩, ⟨le_rfl, fun _ => rfl, ?_, .inl rfl⟩, ?_⟩
  · obtain ⟨cell, hcell, hused⟩ := hinv.landed flight address hlanded
    exact ⟨cell, hold address cell hcell, hused⟩
  · exact fun address cell hcell => ⟨cell, hold address cell hcell, .inl rfl⟩
  · exact ⟨{ quota := quota }, List.getElem?_concat_length, fun _ => rfl, fun _ => rfl⟩

/-- A call that stores to an object is the last one to have done so. -/
theorem storeUsed_step {writer : Option Client} {base : ResourceText}
    (hinv : RedisInv initial calculated world) (hholds : Holds solo writer base address world) :
    RedisInv initial calculated (world.storeUsed client address used) ∧
      MovedBy client world (world.storeUsed client address used) ∧
      Holds solo (some client) (some used) address (world.storeUsed client address used) := by
  have hheap : ∀ (other : ℕ) cell, world.heap[other]? = some cell →
      (world.storeUsed client address used).heap[other]? =
        some (if address = other then ⟨cell.quota.setUsed used, some client⟩ else cell) := by
    intro other cell hcell
    simp only [RedisWorld.storeUsed, List.getElem?_modify, hcell]
    split_ifs <;> rfl
  refine ⟨⟨hinv.caches, fun flight other hlanded => ?_⟩, ⟨le_rfl, fun _ => rfl, ?_, .inl rfl⟩, ?_⟩
  · obtain ⟨cell, hcell, -, hused⟩ := hinv.landed flight other hlanded
    refine ⟨_, hheap other cell hcell, False.elim, ?_⟩
    split_ifs
    · exact fun hwriter => by cases hwriter
    · exact hused
  · intro other cell hcell
    refine ⟨_, hheap other cell hcell, ?_⟩
    split_ifs
    · exact .inr rfl
    · exact .inl rfl
  · obtain ⟨cell, hcell, -⟩ := hholds
    refine ⟨_, hheap address cell hcell, ?_⟩
    rw [if_pos rfl]
    exact ⟨fun _ => rfl, fun _ => rfl⟩

/-- A calculation that is over hands out an object with the calculated usage. -/
theorem land_inv {flight : ℕ} {result : Except QuotaFailure ℕ}
    (hinv : RedisInv initial calculated world)
    (hresult : ∀ address, result = .ok address → Holds solo none (some calculated) address world) :
    RedisInv initial calculated (world.land process flight result) := by
  refine ⟨hinv.caches, fun other address hlanded => ?_⟩
  change Function.update world.landed flight (some result) other = _ at hlanded
  by_cases hother : other = flight
  · rw [hother, Function.update_self] at hlanded
    obtain ⟨cell, hcell, -, hused⟩ := hresult address (some.inj hlanded)
    exact ⟨cell, hcell, False.elim, hused⟩
  · rw [Function.update_of_ne hother] at hlanded
    exact hinv.landed other address hlanded

/-- The transaction: it goes through only if the usage that the new one was
computed from is still the one to start from. -/
theorem exec_step {watched : ℕ} {earlier : List Entry} {value : codec.Bytes} {entry : Entry}
    {hardLimits newUsed : ResourceList} {reply : Except QuotaFailure Unit}
    (hinv : RedisInv initial calculated world)
    (hunderway : Underway solo calculated process none earlier watched (some used) world)
    (hop : entry.op hardLimits used = .ok newUsed) (hdecode : codec.decode value = some quota)
    (hused : quota.used = some newUsed)
    (hsem : redisSem calculated world (.exec watched value entry) choice = some (after, reply)) :
    RedisInv initial calculated after ∧ MovedBy client world after ∧
      LoopLeaves (Idle solo process earlier) (Idle solo process (entry :: earlier)) reply
        after := by
  have hrefused : ∀ err, RedisInv initial calculated world ∧ MovedBy client world world ∧
      LoopLeaves (Idle solo process earlier) (Idle solo process (entry :: earlier)) (.error err)
        world := fun _ => ⟨hinv, MovedBy.refl world, hunderway.idle⟩
  cases choice with
  | fail err =>
    cases hsem
    exact hrefused err
  | ok =>
    simp only [redisSem] at hsem
    split_ifs at hsem with hchanges
    · cases hsem
      have hbase := hinv.caches.amount_cachedUsage (hunderway.usage_eq hchanges)
      refine ⟨⟨?_, hinv.landed⟩, ⟨Nat.le_succ _, ?_, ?_, .inr ⟨entry, rfl⟩⟩, fun hsolo => ⟨?_, ?_⟩⟩
      · show Caches codec (some value) (some (_ + entry.delta))
        rw [← hbase, ← Entry.amount_op hop]
        exact .present hdecode hused
      · exact fun hsame => absurd hsame (Nat.succ_ne_self _)
      · exact fun address cell hcell => ⟨cell, hcell, .inl rfl⟩
      · exact hunderway.flights_eq hsolo
      · show entry :: changesOf world.log = entry :: earlier
        rw [hunderway.changes_eq hsolo]
    · cases hsem
      exact hrefused .txFailed

end Operations

/-! ## One attempt -/

section Attempts

variable {codec : Codec} {Client : Type} {solo : Prop} {initial : Option Amounts}
  {calculated : ResourceList} {client : Client} {process watched : ℕ} {earlier : List Entry}
  {world : RedisWorld codec Client} {entry : Entry}

abbrev RedisSafe {Result : Type} (solo : Prop) (initial : Option Amounts)
    (calculated : ResourceList) (client : Client) (Post : Result → RedisWorld codec Client → Prop)
    (program : RedisProgram codec Client Result) (world : RedisWorld codec Client) : Prop :=
  Secured (redisSem calculated) (RedisAllowed solo) (RedisInv initial calculated)
    (Tolerates solo client) (MovedBy client) Post program world

variable {hardLimits used newUsed : ResourceList} {quota : Quota} {address : ℕ}

theorem redisSafe_read {Result : Type} {Post : Result → RedisWorld codec Client → Prop}
    {op : RedisOp codec Client} {next : RedisReply op → RedisProgram codec Client Result}
    (hreads : op.Reads) (hnext : ∀ later choice reply, Tolerates solo client world later →
      RedisInv initial calculated later → RedisAllowed solo later op choice →
      redisSem calculated later op choice = some (later, reply) →
        RedisSafe solo initial calculated client Post (next reply) later) :
    RedisSafe solo initial calculated client Post (.call op next) world :=
  Secured.read MovedBy.refl (fun _ _ _ _ hsem => hreads.world_eq hsem) hnext

/-- What an attempt of a change leaves. -/
abbrev RedisAttempted (solo : Prop) (process : ℕ) (earlier : List Entry) (entry : Entry) :
    Attempt → RedisWorld codec Client → Prop :=
  Attempt.Leaves (Idle solo process earlier) (Idle solo process (entry :: earlier))

theorem redisSafe_ret {result : Attempt}
    (hleaves : RedisAttempted solo process earlier entry result world) :
    RedisSafe solo initial calculated client (RedisAttempted solo process earlier entry)
      (.ret result) world :=
  Secured.ret (fun _ htolerates h => h.stable (fun _ _ h hidle => hidle.stable h)
    (fun _ _ h hidle => hidle.stable h) htolerates) hleaves

theorem exec_safe {value : codec.Bytes}
    (hunderway : Underway solo calculated process none earlier watched (some used) world)
    (hop : entry.op hardLimits used = .ok newUsed) (hdecode : codec.decode value = some quota)
    (hused : quota.used = some newUsed) :
    RedisSafe solo initial calculated client (RedisAttempted solo process earlier entry) (do
        match ← Redis.exec watched value entry with
        | .ok () => return .done
        | .error err => if err = .txFailed then return .again err else return .abort err)
      world := by
  intro later choice after reply hrely hinv _ hsem
  obtain ⟨hinv', hmoved, hleaves⟩ := exec_step hinv (hunderway.stable hrely) hop hdecode hused hsem
  refine ⟨hinv', hmoved, ?_⟩
  match reply with
  | .ok () => exact redisSafe_ret hleaves
  | .error err =>
    show RedisSafe _ _ _ _ _ (if err = .txFailed then _ else _) after
    split_ifs
    · exact redisSafe_ret hleaves
    · exact redisSafe_ret hleaves

theorem writeCached_safe (hholds : Holds solo none (some used) address world)
    (hunderway : Underway solo calculated process none earlier watched (some used) world)
    (hop : entry.op hardLimits used = .ok newUsed) :
    RedisSafe solo initial calculated client (RedisAttempted solo process earlier entry)
      (writeCached client entry watched address newUsed) world := by
  intro later choice after reply hrely hinv _ hsem
  cases hsem
  obtain ⟨hinv', hmoved, hstored⟩ := storeUsed_step hinv (hholds.stable (.inl rfl) hrely)
  have hlater := hunderway.stable hrely
  have hunderway : Underway solo calculated process none earlier watched (some used)
      (later.storeUsed client address newUsed) :=
    ⟨hlater.watched_le, hlater.usage_eq, hlater.flights_eq, hlater.changes_eq⟩
  refine ⟨hinv', hmoved, redisSafe_read trivial ?_⟩
  intro second choice reply hrely _ hallowed hsem
  have hunderway := hunderway.stable hrely
  obtain ⟨cell, hcell, hsolo, hused⟩ := hstored.stable (.inr rfl) hrely
  have hwriter : cell.writer = some client := hallowed.elim hsolo fun h => h cell hcell
  obtain rfl := encode_reply hcell hsem
  cases choice with
  | fail err => exact redisSafe_ret hunderway.idle
  | ok => exact exec_safe hunderway hop (codec.decode_encode cell.quota) (hused hwriter)

theorem changeCached_safe {base : ResourceText} (hholds : Holds solo none base address world)
    (hunderway : Underway solo calculated process none earlier watched base world) :
    RedisSafe solo initial calculated client (RedisAttempted solo process earlier entry)
      (changeCached client entry watched address) world := by
  refine redisSafe_read trivial ?_
  intro first choice reply hrely _ _ _
  have hholds := hholds.stable (.inl rfl) hrely
  have hunderway := hunderway.stable hrely
  match reply with
  | none => exact redisSafe_ret hunderway.idle
  | some hardLimits =>
    refine redisSafe_read trivial ?_
    intro second choice reply hrely _ hallowed hsem
    have hholds := hholds.stable (.inl rfl) hrely
    have hunderway := hunderway.stable hrely
    -- nobody has stored to the object, so its usage is the one to start from
    have hbase : reply = base := by
      obtain ⟨cell, hcell, hsolo, hused⟩ := hholds
      have hwriter : cell.writer = none := hallowed.elim hsolo fun h => h cell hcell
      exact (loadUsed_reply hcell hsem).trans (hused hwriter)
    match reply with
    | none => exact redisSafe_ret hunderway.idle
    | some used =>
      subst hbase
      simp only [Program.bind]
      cases hop : entry.op hardLimits used with
      | error err => exact redisSafe_ret hunderway.idle
      | ok newUsed => exact writeCached_safe hholds hunderway hop

/-! ### The object to work on -/

/-- What a call knows once it has an object to work on. -/
def Fetched (solo : Prop) (calculated : ResourceList) (process : ℕ) (current : Option ℕ)
    (earlier : List Entry) (watched : ℕ) (base : ResourceText) (result : Except QuotaFailure ℕ)
    (world : RedisWorld codec Client) : Prop :=
  Underway solo calculated process current earlier watched base world ∧
    ∀ address, result = .ok address → Holds solo none base address world

variable {current : Option ℕ} {base : ResourceText}

theorem Fetched.stable {result : Except QuotaFailure ℕ} {before after : RedisWorld codec Client}
    (hfetched : Fetched solo calculated process current earlier watched base result before)
    (htolerates : Tolerates solo client before after) :
    Fetched solo calculated process current earlier watched base result after :=
  ⟨hfetched.1.stable htolerates, fun address hresult =>
    (hfetched.2 address hresult).stable (.inl rfl) htolerates⟩

theorem fetched_error {err : QuotaFailure}
    (hunderway : Underway solo calculated process current earlier watched base world) :
    RedisSafe solo initial calculated client
      (Fetched solo calculated process current earlier watched base) (.ret (.error err)) world :=
  Secured.ret (fun _ htolerates h => h.stable htolerates)
    ⟨hunderway, fun _ hresult => by cases hresult⟩

theorem alloc_safe (hbase : quota.used = base)
    (hunderway : Underway solo calculated process current earlier watched base world) :
    RedisSafe solo initial calculated client
      (Fetched solo calculated process current earlier watched base) (do
        let address ← Redis.alloc quota
        return .ok address)
      world := by
  subst hbase
  intro later choice after reply hrely hinv _ hsem
  obtain ⟨hinv', hmoved, hholds⟩ := @alloc_step _ _ solo _ _ client _ _ _ _ _ hinv hsem
  cases hsem
  refine ⟨hinv', hmoved, Secured.ret (fun _ htolerates h => h.stable htolerates) ⟨?_, ?_⟩⟩
  · have hlater := hunderway.stable hrely
    exact ⟨hlater.watched_le, hlater.usage_eq, hlater.flights_eq, hlater.changes_eq⟩
  · intro address hresult
    cases hresult
    exact hholds

theorem calcQuota_safe
    (hunderway : Underway solo calculated process current earlier watched (some calculated)
      world) :
    RedisSafe solo initial calculated client
      (Fetched solo calculated process current earlier watched (some calculated)) calcQuota
      world := by
  refine redisSafe_read trivial ?_
  intro first choice reply hrely _ _ _
  have hunderway := hunderway.stable hrely
  match reply with
  | .error err => exact fetched_error hunderway
  | .ok (hard, hardVersion) =>
    refine redisSafe_read trivial ?_
    intro second choice reply hrely _ _ _
    have hunderway := hunderway.stable hrely
    match reply with
    | .error err => exact fetched_error hunderway
    | .ok (used, usedVersion) =>
      refine redisSafe_read trivial ?_
      intro third choice reply hrely _ _ hsem
      have hunderway := hunderway.stable hrely
      cases hsem
      cases choice with
      | fail err => exact fetched_error hunderway
      | ok => exact alloc_safe rfl hunderway

/-- Whoever leads a calculation gets a new object, and whoever waits for one gets
an object that others may have changed. -/
theorem sharedCalcQuota_safe
    (hunderway : Underway solo calculated process none earlier watched (some calculated) world) :
    RedisSafe solo initial calculated client
      (Fetched solo calculated process none earlier watched (some calculated))
      (sharedCalcQuota process) world := by
  intro later choice after reply hrely hinv _ hsem
  have hunderway := hunderway.stable hrely
  have hjoin : later.join process = (after, reply) := some.inj hsem
  unfold RedisWorld.join at hjoin
  cases hflights : later.flights process with
  | some flight =>
    -- the object of a calculation that another call leads
    rw [hflights] at hjoin
    obtain ⟨rfl, rfl⟩ := Prod.mk.inj hjoin
    have hnotSolo : ¬ solo := fun hsolo => by simp [hunderway.flights_eq hsolo] at hflights
    refine ⟨hinv, MovedBy.refl _, redisSafe_read trivial ?_⟩
    intro last choice reply hrely hinv _ hsem
    refine Secured.ret (fun _ htolerates h => h.stable htolerates)
      ⟨hunderway.stable hrely, fun address hresult => ?_⟩
    obtain ⟨result, hlanded, heq⟩ := map_eq_some_iff.mp hsem
    obtain rfl := (Prod.mk.inj heq).2
    obtain ⟨cell, hcell, -, hused⟩ :=
      hinv.landed flight address (hlanded.trans (congrArg some hresult))
    exact ⟨cell, hcell, fun hsolo => absurd hsolo hnotSolo, hused⟩
  | none =>
    -- the call leads a calculation of its own
    rw [hflights] at hjoin
    obtain ⟨rfl, rfl⟩ := Prod.mk.inj hjoin
    have hinv : RedisInv initial calculated (later.takeOff process) := ⟨hinv.caches, hinv.landed⟩
    have hlead : Underway solo calculated process (some later.nextFlight) earlier watched
        (some calculated) (later.takeOff process) :=
      ⟨hunderway.watched_le, hunderway.usage_eq, fun _ => Function.update_self _ _ _,
        hunderway.changes_eq⟩
    refine ⟨hinv, ⟨le_rfl, fun _ => rfl, fun _ cell hcell => ⟨cell, hcell, .inl rfl⟩, .inl rfl⟩, ?_⟩
    show RedisSafe _ _ _ _ _ (calcQuota >>= _) _
    refine Secured.bind Tolerates.refl hinv (calcQuota_safe hlead) ?_
    intro result second hinv hfetched last choice after reply hrely hinv _ hsem
    cases hsem
    have hfetched := hfetched.stable hrely
    refine ⟨land_inv hinv hfetched.2,
      ⟨le_rfl, fun _ => rfl, fun _ cell hcell => ⟨cell, hcell, .inl rfl⟩, .inl rfl⟩, ?_⟩
    exact Secured.ret (fun _ htolerates h => h.stable htolerates)
      ⟨⟨hfetched.1.watched_le, hfetched.1.usage_eq, fun _ => Function.update_self _ _ _,
        hfetched.1.changes_eq⟩, hfetched.2⟩

theorem fetchCached_safe {data : Option codec.Bytes}
    (hunderway : Underway solo calculated process none earlier watched
      (cachedUsage calculated data) world) :
    RedisSafe solo initial calculated client
      (Fetched solo calculated process none earlier watched (cachedUsage calculated data))
      (fetchCached process data) world := by
  cases data with
  | none => exact sharedCalcQuota_safe hunderway
  | some value =>
    cases hdecode : codec.decode value with
    | none =>
      simp only [fetchCached, hdecode]
      exact fetched_error hunderway
    | some quota =>
      simp only [fetchCached, hdecode]
      have hbase : quota.used = cachedUsage calculated (some value) := by
        rw [cachedUsage, hdecode, bind_some]
      exact alloc_safe hbase hunderway

theorem updateUsageByRedis_safe (hidle : Idle solo process earlier world) :
    RedisSafe solo initial calculated client (RedisAttempted solo process earlier entry)
      (updateUsageByRedis client process entry) world := by
  refine redisSafe_read trivial ?_
  intro first choice reply hrely _ _ _
  have hidle := hidle.stable hrely
  match reply with
  | .error err => exact redisSafe_ret hidle
  | .ok () =>
    refine redisSafe_read trivial ?_
    intro second choice reply hrely _ _ hsem
    have hidle := hidle.stable hrely
    cases hsem
    cases choice with
    | fail err => exact redisSafe_ret hidle
    | ok =>
      refine redisSafe_read trivial ?_
      intro third choice reply hrely hinv _ hsem
      have hidle := hidle.stable hrely
      cases hsem
      cases choice with
      | fail err => exact redisSafe_ret hidle
      | ok =>
        have hunderway : Underway solo calculated process none earlier second.changes
            (cachedUsage calculated third.key) third :=
          ⟨hrely.changes_le, fun _ => rfl, fun hsolo => (hidle hsolo).1,
            fun hsolo => (hidle hsolo).2⟩
        show RedisSafe _ _ _ _ _ (fetchCached process third.key >>= _) third
        refine Secured.bind Tolerates.refl hinv (fetchCached_safe hunderway) ?_
        intro result last _ hfetched
        match result with
        | .error err => exact redisSafe_ret hfetched.1.idle
        | .ok address => exact changeCached_safe (hfetched.2 address rfl) hfetched.1

/-! ### The whole call -/

/-- What a request may leave behind, in a run with no other one: nothing, its
reservation, or its reservation and its rollback. -/
def Requested (solo : Prop) (process : ℕ) (resources : ResourceList)
    (world : RedisWorld codec Client) : Prop :=
  Idle solo process [] world ∨ Idle solo process [.reserve resources] world ∨
    Idle solo process [.rollback resources, .reserve resources] world

theorem requestByRedis_safe {resources : ResourceList} (reserveFuel rollbackFuel : ℕ)
    (hinv : RedisInv initial calculated world) (hidle : Idle solo process [] world) :
    RedisSafe solo initial calculated client (fun _ => Requested solo process resources)
      (requestByRedis client process resources reserveFuel rollbackFuel) world := by
  have hstable : ∀ {earlier : List Entry} (a b : RedisWorld codec Client),
      Tolerates solo client a b → Idle solo process earlier a → Idle solo process earlier b :=
    fun _ _ h hidle => hidle.stable h
  have hrequested : ∀ {result : Except QuotaFailure Unit} {world : RedisWorld codec Client},
      Requested solo process resources world →
      RedisSafe solo initial calculated client (fun _ => Requested solo process resources)
        (.ret result) world := by
    intro result world hrequested later htolerates _
    exact hrequested.imp (hstable _ _ htolerates) fun hrest =>
      hrest.imp (hstable _ _ htolerates) (hstable _ _ htolerates)
  unfold requestByRedis
  split_ifs
  · refine redisSafe_read trivial ?_
    intro later choice reply hrely _ _ _
    exact hrequested (.inl (hidle.stable hrely))
  -- the reservation, then the function, and the rollback if it fails
  refine Secured.bind Tolerates.refl hinv (retry_secured Tolerates.refl hstable hstable
    (fun _ hidle => updateUsageByRedis_safe hidle) reserveFuel hinv hidle) ?_
  intro result later hinv hleaves
  match result with
  | .error err => exact hrequested (.inl hleaves)
  | .ok () =>
    refine redisSafe_read trivial ?_
    intro last choice reply hrely hinv _ _
    have hreserved : Idle solo process [.reserve resources] last := hstable _ _ hrely hleaves
    match reply with
    | .ok () => exact hrequested (.inr (.inl hreserved))
    | .error err =>
      show RedisSafe _ _ _ _ _ (retry _ rollbackFuel >>= _) last
      refine Secured.bind Tolerates.refl hinv (retry_secured Tolerates.refl hstable hstable
        (fun _ hidle => updateUsageByRedis_safe hidle) rollbackFuel hinv hreserved) ?_
      intro outcome final _ hleaves
      match outcome with
      | .ok () => exact hrequested (.inr (.inr hleaves))
      | .error err => exact hrequested (.inr (.inl hleaves))

end Attempts

end Harbor.Quotas
