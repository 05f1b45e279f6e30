import Harbor.Quotas.DatabaseSafety

/-!
# Requests against one quota

Any number of clients run `Controller.Request` against one quota.  The main
result puts the clients together; after it comes the run in which the version
counter comes round, so that a statement overwrites updates it has not seen.
-/

namespace Harbor.Quotas

open Harbor.Concurrency Function Quotas.Types Pool

/-- A request: its resources, and what the timeouts of its loops allow. -/
structure DbClient where
  resources : ResourceList
  reserveFuel : ℕ
  rollbackFuel : ℕ

section Pool

variable {Client : Type} [DecidableEq Client]

def dbPool (rows : QuotaRows) (clients : Client → DbClient) :
    Pool DbWorld DbOp DbReply Client (Except QuotaFailure Unit) where
  world := { rows := rows }
  threads := fun client => requestByDB (clients client).resources (clients client).reserveFuel
    (clients client).rollbackFuel

omit [DecidableEq Client] in
theorem db_compatible {hard : ResourceText} {initial : ResourceList} {start : ℕ} :
    Pool.Compatible (DbInv hard initial start) (fun _ : Client => Evolves) (fun _ => DbGuar) where
  refl := fun _ => Evolves.refl
  trans := fun _ _ _ _ => Evolves.trans
  guar_rely := fun _ _ _ _ _ _ _ hguar => hguar.1

/-- With fewer than `2 ^ 63` updates between a client's read and its own update,
and sums that stay within 64 bits, the stored usage is the initial one plus all
reservations minus all rollbacks that have succeeded, and every reservation
leaves the usage within the limits. -/
theorem usage_eq_initial_add_balance {rows : QuotaRows} {initial : ResourceList}
    {clients : Client → DbClient} {actions : List (Client × DbChoice)}
    {final : Pool DbWorld DbOp DbReply Client (Except QuotaFailure Unit)}
    (hused : rows.used = some initial) (hversion : rows.usedVersion ≤ maxInt64)
    (hclients : ∀ client, NonNegative (clients client).resources)
    (hallowed : EveryStep (Pool.step dbSem) (Pool.Admits DbAllowed) (dbPool rows clients) actions)
    (hrun : exec (Pool.step dbSem) (dbPool rows clients) actions = some final) :
    (∃ used, final.world.rows.used = some used ∧ ∀ resource,
      (amount used resource).toInt =
        (amount initial resource).toInt + balance final.world.ledger resource) ∧
    EveryStep (Pool.step dbSem) (fun before _ after => Records before.world after.world)
      (dbPool rows clients) actions := by
  have hinv : DbInv rows.hard initial rows.usedVersion { rows := rows } := by
    refine ⟨rfl, ⟨initial, hused, by simp⟩, ?_⟩
    unfold maxInt64 at hversion
    exact (Nat.mod_eq_of_lt (by simp; omega)).symm
  have hsecured : Pool.IsSecured dbSem DbAllowed (DbInv rows.hard initial rows.usedVersion)
      (fun _ => Evolves) (fun _ => DbGuar) (fun _ _ _ => True) (dbPool rows clients) :=
    ⟨hinv, fun client => requestByDB_safe (hclients client) _ _ hinv⟩
  refine ⟨(secured_exec db_compatible hsecured hallowed hrun).1.balanced, ?_⟩
  exact (guarantee_exec db_compatible hsecured hallowed).mono fun _ _ _ h => h.2.2

end Pool

/-! ## Concrete runs -/

/-- The list with a single entry for storage. -/
def storage (value : Int64) : ResourceList :=
  AList.singleton resourceStorage value

variable {value : Int64} {entry : Entry} {threads : ℕ → DbCall}
  {client : ℕ} {actions : List (ℕ × DbChoice)}
  {after : Pool DbWorld DbOp DbReply ℕ (Except QuotaFailure Unit)} {newValue : Int64}

theorem amount_storage (value : Int64) (resource : ResourceName) :
    amount (storage value) resource =
      if resource = resourceStorage then value else 0 := by
  unfold amount
  split_ifs with hresource
  · subst hresource
    rfl
  · have habsent : (storage value).lookup resource = none :=
      AList.lookup_eq_none.mpr fun hmem => hresource (by
        rw [AList.mem_keys] at hmem
        simpa [storage, AList.keys_singleton] using hmem)
    rw [habsent]
    rfl

/-- The rows of a quota without limit, with the given usage and version. -/
def storageRows (value : Int64) (version : ℕ) : QuotaRows :=
  { hard := some (storage unlimited), used := some (storage value), usedVersion := version }

/-- A request for one byte that makes one attempt of each change. -/
def oneByte : DbClient := ⟨storage 1, 1, 1⟩

theorem nonNegative_oneByte : NonNegative oneByte.resources := by
  intro resource value hvalue
  have hamount := amount_storage 1 resource
  rw [amount, show (storage 1).lookup resource = some value from hvalue] at hamount
  simp only [Option.getD_some] at hamount
  rw [hamount]
  split_ifs <;> decide

theorem inInt64_storage (hvalue : value = 0 ∨ value = 1 ∨ value = 2)
    (hentry : entry.resources = storage 1) (resource : ResourceName) :
    InInt64 ((amount (storage value) resource).toInt + entry.change resource) := by
  have hchange : entry.change resource = 0 ∨ entry.change resource = 1 ∨
      entry.change resource = -1 := by
    cases entry with
    | reserve resources | rollback resources =>
      obtain rfl : resources = storage 1 := hentry
      rw [Entry.change, amount_storage]
      split_ifs <;> decide
  have hamount : (amount (storage value) resource).toInt = 0 ∨
      (amount (storage value) resource).toInt = 1 ∨
      (amount (storage value) resource).toInt = 2 := by
    rw [amount_storage]
    split_ifs
    · rcases hvalue with rfl | rfl | rfl <;> decide
    · decide
  unfold InInt64
  omega

/-- The clients reach `after`, with sums that fit into 64 bits. -/
abbrev DbLeads (before : Pool DbWorld DbOp DbReply ℕ (Except QuotaFailure Unit))
    (actions : List (ℕ × DbChoice))
    (after : Pool DbWorld DbOp DbReply ℕ (Except QuotaFailure Unit)) : Prop :=
  Leads (Pool.step dbSem) (Pool.Admits SumsFit) before actions after

theorem leads_call {op : DbOp} {next : DbReply op → DbCall}
    {world world' : DbWorld} {choice : DbChoice} {reply : DbReply op}
    (hsem : dbSem world op choice = some (world', reply)) (hfit : SumsFit world op choice)
    (hrest : DbLeads ⟨world', Function.update threads client (next reply)⟩ actions after) :
    DbLeads ⟨world, Function.update threads client (.call op next)⟩
      ((client, choice) :: actions) after := by
  have hthread : update threads client (.call op next) client = .call op next :=
    update_self client _ threads
  refine Leads.cons (step_of_call hthread hsem) (admits_of_nextOp ?_ hfit) ?_
  · simp [nextOp]
  · rwa [update_idem]

/-- The statement goes through whenever the version is the one that was read. -/
theorem dbSem_update_storage (value read newValue : Int64) (version updates readAt : ℕ)
    (entry : Entry) (ledger : List Entry) :
    dbSem ⟨storageRows value version, updates, ledger⟩
        (.update (Quota.setUsed { hard := some (storage unlimited)
                                  used := some (storage read)
                                  usedVersion := version } (storage newValue)) entry readAt) .ok =
      some (⟨storageRows newValue (getVersion version), updates + 1, entry :: ledger⟩, .ok ()) := by
  simp [dbSem, QuotaRows.update, Quota.setUsed, storageRows]

theorem sumsFit_storage (hvalue : value = 0 ∨ value = 1 ∨ value = 2)
    (hentry : entry.resources = storage 1) (quota : Quota) (version updates readAt : ℕ)
    (ledger : List Entry) :
    SumsFit ⟨storageRows value version, updates, ledger⟩ (.update quota entry readAt) .ok := by
  intro used resource hused
  cases hused
  exact inInt64_storage hvalue hentry resource

/-- A change by one byte of a usage of at most two bytes. -/
inductive OneByteChange : Entry → Int64 → Int64 → Prop
  | first : OneByteChange (.reserve (storage 1)) 0 1
  | second : OneByteChange (.reserve (storage 1)) 1 2
  | back : OneByteChange (.rollback (storage 1)) 1 0

/-- One attempt of such a change, undisturbed. -/
theorem leads_attempt {rest : Except QuotaFailure Unit → DbCall}
    (hchange : OneByteChange entry value newValue) {version updates : ℕ} {ledger : List Entry}
    (hrest : DbLeads ⟨⟨storageRows newValue (getVersion version), updates + 1, entry :: ledger⟩,
      Function.update threads client (rest (.ok ()))⟩ actions after) :
    DbLeads ⟨⟨storageRows value version, updates, ledger⟩,
        Function.update threads client (retry (updateUsageByDB entry) 1 >>= rest)⟩
      ((client, .ok) :: (client, .ok) :: (client, .ok) :: actions) after := by
  cases hchange with
  | _ =>
    exact leads_call rfl trivial (leads_call rfl trivial
      (leads_call (dbSem_update_storage _ _ _ _ _ _ _ _) (sumsFit_storage (by simp) rfl _ _ _ _ _)
        hrest))

/-- Two clients read the usage, the first one reserves a byte, and the second one, whose version
is no longer the stored one, is refused and tries again. -/
theorem usage_eq_initial_add_balance_two_clients :
    ∃ final, exec (Pool.step dbSem)
        (dbPool (storageRows 0 0) fun _ : Bool => { oneByte with reserveFuel := 2 })
        ([false, false, true, true, false, true, true, true, true].map fun client =>
          (client, .ok)) = some final ∧
      balance final.world.ledger resourceStorage = 2 ∧
      ∃ used, final.world.rows.used = some used ∧ ∀ resource,
        (amount used resource).toInt =
          (amount (storage 0) resource).toInt + balance final.world.ledger resource := by
  refine ⟨_, rfl, rfl, ?_⟩
  have hallowed : EveryStep (Pool.step dbSem) (Pool.Admits DbAllowed)
      (dbPool (storageRows 0 0) fun _ : Bool => { oneByte with reserveFuel := 2 })
      ([false, false, true, true, false, true, true, true, true].map fun client =>
        (client, .ok)) := by
    iterate 4 refine everyStep_cons rfl (admits_of_nextOp rfl ⟨trivial, trivial⟩) ?_
    refine everyStep_cons rfl (admits_of_nextOp rfl
      ⟨sumsFit_storage (.inl rfl) rfl _ _ _ _ _, show 0 < 0 + 2 ^ 63 by norm_num⟩) ?_
    -- the update that is refused
    refine everyStep_cons rfl (admits_of_nextOp rfl
      ⟨sumsFit_storage (.inr (.inl rfl)) rfl _ _ _ _ _, show 1 < 0 + 2 ^ 63 by norm_num⟩) ?_
    iterate 2 refine everyStep_cons rfl (admits_of_nextOp rfl ⟨trivial, trivial⟩) ?_
    exact everyStep_cons rfl (admits_of_nextOp rfl
      ⟨sumsFit_storage (.inr (.inl rfl)) rfl _ _ _ _ _, show 1 < 1 + 2 ^ 63 by norm_num⟩) trivial
  exact (usage_eq_initial_add_balance rfl (by decide) (by exact fun _ => nonNegative_oneByte)
    hallowed rfl).1

/-! ## The counter comes round -/

/-- A client reserves a byte, fails, and gives it back. -/
def roundTrip (client : ℕ) : List (ℕ × DbChoice) :=
  [(client, .ok), (client, .ok), (client, .ok), (client, .fail .timeout),
    (client, .ok), (client, .ok), (client, .ok)]

/-- The round trips of the clients `1` to `count`. -/
def roundTrips : ℕ → List (ℕ × DbChoice)
  | 0 => []
  | count + 1 => roundTrips count ++ roundTrip (count + 1)

def roundTripLedger : ℕ → List Entry
  | 0 => []
  | count + 1 => .rollback (storage 1) :: .reserve (storage 1) :: roundTripLedger count

/-- The threads after `count` round trips, with the first client still at `stale`. -/
def roundTripThreads (stale : DbCall) (count : ℕ) :
    ℕ → DbCall := fun client =>
  if client = 0 then stale
  else if client ≤ count then .ret (.error .timeout)
  else requestByDB (storage 1) 1 1

theorem balance_roundTripLedger (count : ℕ) (resource : ResourceName) :
    balance (roundTripLedger count) resource = 0 := by
  induction count with
  | zero => rfl
  | succ count ih => simp [roundTripLedger, Entry.change, ih]

variable (stale : DbCall)
include stale

theorem roundTripThreads_succ (count : ℕ) :
    Function.update (roundTripThreads stale count) (count + 1) (.ret (.error .timeout)) =
      roundTripThreads stale (count + 1) := by
  funext client
  by_cases hclient : client = count + 1
  · subst hclient
    simp [roundTripThreads]
  · rw [update_of_ne hclient]
    unfold roundTripThreads
    split_ifs <;> first | rfl | omega

theorem roundTripThreads_next {count : ℕ} (hclient : count < client) :
    Function.update (roundTripThreads stale count) client (requestByDB (storage 1) 1 1) =
      roundTripThreads stale count := by
  have hidle : roundTripThreads stale count client = requestByDB (storage 1) 1 1 := by
    unfold roundTripThreads
    rw [if_neg (by omega), if_neg (by omega)]
  rw [← hidle, update_eq_self]

theorem leads_roundTrip (count : ℕ) (version updates : ℕ) (ledger : List Entry) :
    DbLeads ⟨⟨storageRows 0 version, updates, ledger⟩, roundTripThreads stale count⟩
      (roundTrip (count + 1))
      ⟨⟨storageRows 0 (getVersion (getVersion version)), updates + 2,
        .rollback (storage 1) :: .reserve (storage 1) :: ledger⟩,
        roundTripThreads stale (count + 1)⟩ := by
  rw [← roundTripThreads_next stale (Nat.lt_succ_self count), ← roundTripThreads_succ stale count]
  exact leads_attempt .first (leads_call rfl trivial (leads_attempt .back (Leads.nil _)))

theorem leads_roundTrips (count : ℕ) :
    DbLeads ⟨⟨storageRows 0 0, 0, []⟩, roundTripThreads stale 0⟩ (roundTrips count)
      ⟨⟨storageRows 0 (2 * count % 2 ^ 63), 2 * count, roundTripLedger count⟩,
        roundTripThreads stale count⟩ := by
  induction count with
  | zero => exact Leads.nil _
  | succ count ih =>
    have hstep := leads_roundTrip stale count (2 * count % 2 ^ 63) (2 * count)
      (roundTripLedger count)
    rw [getVersion_mod, getVersion_mod] at hstep
    exact ih.append hstep

omit stale

/-- The statement of the first client, which has read a usage of zero at version zero. -/
def staleUpdate : DbOp :=
  .update (Quota.setUsed { hard := some (storage unlimited), used := some (storage 0) }
    (storage 1)) (.reserve (storage 1)) 0

theorem leads_stale_read : ∃ next,
    DbLeads (dbPool (storageRows 0 0) fun _ : ℕ => oneByte) [(0, .ok), (0, .ok)]
      ⟨⟨storageRows 0 0, 0, []⟩, roundTripThreads (.call staleUpdate next) 0⟩ := by
  have hthreads : ∀ stale, update (fun _ : ℕ => requestByDB (storage 1) 1 1) 0 stale =
      roundTripThreads stale 0 := by
    intro stale
    funext client
    by_cases hclient : client = 0
    · subst hclient
      simp [roundTripThreads]
    · simp [roundTripThreads, hclient]
  have hstart : dbPool (storageRows 0 0) (fun _ : ℕ => oneByte) =
      ⟨⟨storageRows 0 0, 0, []⟩, update (fun _ : ℕ => requestByDB (storage 1) 1 1) 0
        (requestByDB (storage 1) 1 1)⟩ := by
    rw [update_eq_self_iff.mpr rfl]
    rfl
  apply Exists.intro
  rw [hstart, ← hthreads]
  exact leads_call rfl trivial (leads_call rfl trivial (Leads.nil _))

theorem leads_reserve (hchange : OneByteChange (.reserve (storage 1)) value newValue)
    (version updates : ℕ) (ledger : List Entry)
    (hthread : threads client = requestByDB (storage 1) 1 1) :
    DbLeads ⟨⟨storageRows value version, updates, ledger⟩, threads⟩
      [(client, .ok), (client, .ok), (client, .ok)]
      ⟨⟨storageRows newValue (getVersion version), updates + 1, .reserve (storage 1) :: ledger⟩,
        Function.update threads client (runOrRollback (storage 1) 1)⟩ := by
  have hself : threads = update threads client (requestByDB (storage 1) 1 1) := by
    rw [← hthread, update_eq_self]
  nth_rewrite 1 [hself]
  exact leads_attempt hchange (Leads.nil _)

/-- The statement of the first client goes through at version zero, whatever the usage is. -/
theorem leads_stale_update {next : DbReply staleUpdate → DbCall}
    (updates : ℕ) (ledger : List Entry) (hthread : threads 0 = .call staleUpdate next) :
    DbLeads ⟨⟨storageRows 2 0, updates, ledger⟩, threads⟩ [(0, .ok)]
      ⟨⟨storageRows 1 1, updates + 1, .reserve (storage 1) :: ledger⟩,
        Function.update threads 0 (next (.ok ()))⟩ := by
  have hself : threads = update threads 0 (.call staleUpdate next) := by
    rw [← hthread, update_eq_self]
  nth_rewrite 1 [hself]
  exact leads_call (dbSem_update_storage 2 0 1 0 updates 0 _ ledger)
    (sumsFit_storage (by simp) rfl _ _ _ _ _) (Leads.nil _)

/-- After `2 ^ 63` updates the version is the old one again, and an update that was
computed before all of them goes through. -/
theorem stale_update_after_wrap :
    NonNegative oneByte.resources ∧
    ∃ actions final used,
      DbLeads (dbPool (storageRows 0 0) fun _ : ℕ => oneByte) actions final ∧
      final.world.rows.used = some used ∧
      (amount used resourceStorage).toInt = 1 ∧
      (amount (storage 0) resourceStorage).toInt +
        balance final.world.ledger resourceStorage = 3 := by
  refine ⟨nonNegative_oneByte, ?_⟩
  -- the number of round trips is never computed with
  obtain ⟨count, hcount⟩ : ∃ count : ℕ, 2 * count + 2 = 2 ^ 63 := ⟨2 ^ 62 - 1, by norm_num⟩
  obtain ⟨next, hread⟩ := leads_stale_read
  have htrips := leads_roundTrips (.call staleUpdate next) count
  have hfirst := leads_reserve .first (2 * count % 2 ^ 63) (2 * count) (roundTripLedger count)
    (show roundTripThreads (.call staleUpdate next) count (count + 1) = _ by
      simp [roundTripThreads])
  have hsecond := leads_reserve .second (getVersion (2 * count % 2 ^ 63)) (2 * count + 1)
    (.reserve (storage 1) :: roundTripLedger count)
    (show update (roundTripThreads (.call staleUpdate next) count) (count + 1)
        (runOrRollback (storage 1) 1) (count + 2) = _ by simp [roundTripThreads])
  have hversion : getVersion (getVersion (2 * count % 2 ^ 63)) = 0 := by
    rw [getVersion_mod, getVersion_mod, hcount, Nat.mod_self]
  rw [hversion] at hsecond
  have hstale : update (update (roundTripThreads (.call staleUpdate next) count)
      (count + 1) (runOrRollback (storage 1) 1)) (count + 2) (runOrRollback (storage 1) 1) 0 =
      .call staleUpdate next := by
    simp [roundTripThreads]
  have hlast := leads_stale_update (2 * count + 2)
    (.reserve (storage 1) :: .reserve (storage 1) :: roundTripLedger count) hstale
  refine ⟨_, _, storage 1, hread.append (htrips.append (hfirst.append (hsecond.append hlast))),
    rfl, rfl, ?_⟩
  simp only [balance_cons, balance_roundTripLedger]
  decide

end Harbor.Quotas
