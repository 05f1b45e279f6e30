import Harbor.Quotas.Database

/-!
# The usage in the database is the sum of what succeeded

Any number of requests run against one quota.  A statement that updates the
usage goes through only if the version is the one its client has read, so the
usage it was computed from is still the stored one, unless the version counter
has come round to the same number in between.

The counter starts again at zero after `math.MaxInt64`, so it takes `2 ^ 63`
updates to come round.  With fewer updates than that between a client's read
and its own update, the stored usage is the initial one plus the balance of the
ledger, and every reservation leaves the usage within the limits
(`usage_eq_initial_add_balance`).
-/

namespace Harbor.Quotas

open Harbor.Concurrency Option Quotas.Types

/-! ## Arithmetic -/

/-- The integers that fit into 64 bits. -/
def InInt64 (value : ℤ) : Prop :=
  -2 ^ 63 ≤ value ∧ value < 2 ^ 63

variable {first second : Int64} {entry : Entry} {hardLimits used newUsed : ResourceList}

theorem toInt_add_of_inInt64 (h : InInt64 (first.toInt + second.toInt)) :
    (first + second).toInt = first.toInt + second.toInt := by
  rw [Int64.toInt_add]
  exact Int.bmod_eq_of_le (by have := h.1; omega) (by have := h.2; omega)

theorem toInt_sub_of_inInt64 (h : InInt64 (first.toInt - second.toInt)) :
    (first - second).toInt = first.toInt - second.toInt := by
  rw [Int64.toInt_sub]
  exact Int.bmod_eq_of_le (by have := h.1; omega) (by have := h.2; omega)

/-- A counter modulo `2 ^ 63` shows the same number again only after `2 ^ 63` steps. -/
theorem eq_of_version_eq {start early late : ℕ} (hle : early ≤ late)
    (hwindow : late < early + 2 ^ 63)
    (hversion : (start + late) % 2 ^ 63 = (start + early) % 2 ^ 63) : late = early := by
  omega

theorem getVersion_mod (count : ℕ) : getVersion (count % 2 ^ 63) = (count + 1) % 2 ^ 63 := by
  unfold getVersion maxInt64
  split_ifs <;> omega

/-- The change moves an amount by what it says, if nothing overflows. -/
theorem Entry.toInt_amount_op (hop : entry.op hardLimits used = .ok newUsed)
    {resource : ResourceName}
    (hrange : InInt64 ((Types.amount used resource).toInt + entry.change resource)) :
    (Types.amount newUsed resource).toInt =
      (Types.amount used resource).toInt + entry.change resource := by
  cases entry with
  | reserve resources =>
    obtain ⟨rfl, -⟩ := reserveResources_eq_ok hop
    rw [amount_add]
    exact toInt_add_of_inInt64 hrange
  | rollback resources =>
    have hrollback : rollbackResources resources hardLimits used = .ok newUsed := hop
    obtain ⟨rfl, -⟩ := rollbackResources_eq_ok hrollback
    rw [amount_subtract]
    exact toInt_sub_of_inInt64 hrange

theorem Entry.change_eq_zero (hop : entry.op hardLimits used = .ok newUsed)
    (hequals : Types.equals used newUsed = true) (resource : ResourceName) :
    entry.change resource = 0 := by
  have hamount := amount_eq_of_equals hequals resource
  cases entry with
  | reserve resources =>
    obtain ⟨rfl, -⟩ := reserveResources_eq_ok hop
    rw [amount_add] at hamount
    have hzero : amount resources resource = 0 := by grind
    simp [Entry.change, hzero]
  | rollback resources =>
    have hrollback : rollbackResources resources hardLimits used = .ok newUsed := hop
    obtain ⟨rfl, -⟩ := rollbackResources_eq_ok hrollback
    rw [amount_subtract] at hamount
    have hzero : amount resources resource = 0 := by grind
    simp [Entry.change, hzero]

/-! ## What holds in every state -/

/-- Every listed resource is within its limit. -/
def DbWorld.Within (world : DbWorld) : Prop :=
  ∀ hardLimits used, world.rows.hard = some hardLimits → world.rows.used = some used →
    WithinLimits hardLimits used

/-- The resource is listed in the stored usage. -/
def DbWorld.Lists (world : DbWorld) (resource : ResourceName) : Prop :=
  ∃ used, world.rows.used = some used ∧ resource ∈ used

section Safety

variable {hard : ResourceText} {initial : ResourceList} {start : ℕ}

/-- The stored usage is the initial one plus the balance of the ledger, and the
version counts the updates. -/
structure DbInv (hard : ResourceText) (initial : ResourceList) (start : ℕ) (world : DbWorld) :
    Prop where
  hard_eq : world.rows.hard = hard
  balanced : ∃ used, world.rows.used = some used ∧ ∀ resource,
    (Types.amount used resource).toInt =
      (Types.amount initial resource).toInt + balance world.ledger resource
  version_eq : world.rows.usedVersion = (start + world.updates) % 2 ^ 63

/-- What every client counts on and keeps to. -/
structure Evolves (before after : DbWorld) : Prop where
  hard_eq : after.rows.hard = before.rows.hard
  updates_le : before.updates ≤ after.updates
  used_eq : after.updates = before.updates → after.rows.used = before.rows.used
  within : before.Within → after.Within
  lists : ∀ resource, before.Lists resource → after.Lists resource

/-- A step records at most one change, and a reservation that it records leaves
the usage within the limits. -/
def Records (before after : DbWorld) : Prop :=
  after.ledger = before.ledger ∨ ∃ entry, after.ledger = entry :: before.ledger ∧
    ∀ resources, entry = .reserve resources → after.Within

def DbGuar (before after : DbWorld) : Prop :=
  Evolves before after ∧ Records before after

variable {entry : Entry} {before after : DbWorld} {quota : Quota} {readAt : ℕ}
  {newUsed hardLimits used : ResourceList} {world : DbWorld} {resources : ResourceList}
  {choice : DbChoice}

theorem Evolves.refl (world : DbWorld) : Evolves world world :=
  ⟨rfl, le_rfl, fun _ => rfl, id, fun _ => id⟩

theorem Evolves.trans {a b c : DbWorld} (hab : Evolves a b) (hbc : Evolves b c) :
    Evolves a c where
  hard_eq := hbc.hard_eq.trans hab.hard_eq
  updates_le := hab.updates_le.trans hbc.updates_le
  used_eq := fun hupdates => by
    have hle := hab.updates_le
    have hle' := hbc.updates_le
    rw [hbc.used_eq (by omega), hab.used_eq (by omega)]
  within := fun hwithin => hbc.within (hab.within hwithin)
  lists := fun resource hlists => hbc.lists resource (hab.lists resource hlists)

/-- The sums that an update is for stay within 64 bits. -/
def SumsFit (world : DbWorld) (op : DbOp) (_choice : DbChoice) : Prop :=
  match op with
  | .update _ entry _ => ∀ used resource, world.rows.used = some used →
      InInt64 ((Types.amount used resource).toInt + entry.change resource)
  | _ => True

/-- There have been fewer than `2 ^ 63` updates since the client read the usage. -/
def ReadRecently (world : DbWorld) : DbOp → Prop
  | .update _ _ readAt => world.updates < readAt + 2 ^ 63
  | _ => True

def DbAllowed (world : DbWorld) (op : DbOp) (choice : DbChoice) : Prop :=
  SumsFit world op choice ∧ ReadRecently world op

abbrev DbSafe {Result : Type} (hard : ResourceText) (initial : ResourceList) (start : ℕ)
    (Post : Result → DbWorld → Prop) (program : DbProgram Result) (world : DbWorld) : Prop :=
  Secured dbSem DbAllowed (DbInv hard initial start) Evolves DbGuar Post program world

theorem dbGuar_refl (world : DbWorld) : DbGuar world world := ⟨Evolves.refl world, .inl rfl⟩

/-! ## One attempt -/

def NonNegative (resources : ResourceList) : Prop :=
  ∀ resource value, resources.lookup resource = some value → 0 ≤ value

/-- What a change needs: a rollback follows a reservation, so that its resources
are listed. -/
def Entry.Ready (entry : Entry) (world : DbWorld) : Prop :=
  NonNegative entry.resources ∧ ∀ resources, entry = .rollback resources →
    ∀ resource ∈ resources, world.Lists resource

/-- What a change that succeeded leaves. -/
def Entry.Settled (entry : Entry) (world : DbWorld) : Prop :=
  ∀ resource ∈ entry.resources, world.Lists resource

theorem Entry.Ready.stable (hready : entry.Ready before) (hevolves : Evolves before after) :
    entry.Ready after :=
  ⟨hready.1, fun resources hentry resource hresource =>
    hevolves.lists resource (hready.2 resources hentry resource hresource)⟩

theorem Entry.Settled.stable (hsettled : entry.Settled before) (hevolves : Evolves before after) :
    entry.Settled after :=
  fun resource hresource => hevolves.lists resource (hsettled resource hresource)

/-- What a client knows about a quota that it has read. -/
structure Current (start : ℕ) (quota : Quota) (readAt : ℕ) (world : DbWorld) : Prop where
  hard_eq : quota.hard = world.rows.hard
  readAt_le : readAt ≤ world.updates
  version_eq : quota.usedVersion = (start + readAt) % 2 ^ 63
  used_eq : world.updates = readAt → world.rows.used = quota.used
  within : ∀ hardLimits used, quota.hard = some hardLimits → quota.used = some used →
    WithinLimits hardLimits used → world.Within
  lists : ∀ used resource, quota.used = some used → resource ∈ used → world.Lists resource
  unchanged : quota.hardChanged = false

theorem Current.stable (hcurrent : Current start quota readAt before)
    (hevolves : Evolves before after) : Current start quota readAt after where
  hard_eq := hcurrent.hard_eq.trans hevolves.hard_eq.symm
  readAt_le := hcurrent.readAt_le.trans hevolves.updates_le
  version_eq := hcurrent.version_eq
  used_eq := fun hupdates => by
    have hle := hcurrent.readAt_le
    have hle' := hevolves.updates_le
    rw [hevolves.used_eq (by omega), hcurrent.used_eq (by omega)]
  within := fun hardLimits used hhard hused hwithin =>
    hevolves.within (hcurrent.within hardLimits used hhard hused hwithin)
  lists := fun used resource hused hresource =>
    hevolves.lists resource (hcurrent.lists used resource hused hresource)
  unchanged := hcurrent.unchanged

theorem update_eq_ok {rows rows' : QuotaRows} (hunchanged : quota.hardChanged = false)
    (hupdate : rows.update (quota.setUsed newUsed) = .ok rows') :
    rows.usedVersion = quota.usedVersion ∧
      rows' = { rows with used := some newUsed, usedVersion := getVersion quota.usedVersion } := by
  simp only [QuotaRows.update, Quota.setUsed, hunchanged, Bool.false_eq_true, and_false, if_false,
    not_true_eq_false, if_true, false_and] at hupdate
  split_ifs at hupdate with hversion
  exact ⟨hversion, (Except.ok.inj hupdate).symm⟩

theorem lists_of_op (hop : entry.op hardLimits used = .ok newUsed) {resource : ResourceName}
    (hresource : resource ∈ used ∨ resource ∈ entry.resources) : resource ∈ newUsed := by
  rw [← AList.lookup_isSome]
  cases entry with
  | reserve resources =>
    obtain ⟨rfl, -⟩ := reserveResources_eq_ok hop
    rw [lookup_add]
    rcases hresource with hmem | hmem <;>
      obtain ⟨value, hvalue⟩ := isSome_iff_exists.mp (AList.lookup_isSome.mpr hmem)
    · cases hother : resources.lookup resource <;> simp [hvalue]
    · have hvalue' : resources.lookup resource = some value := hvalue
      cases hother : used.lookup resource <;> simp [hvalue']
  | rollback resources =>
    have hrollback : rollbackResources resources hardLimits used = .ok newUsed := hop
    obtain ⟨rfl, -⟩ := rollbackResources_eq_ok hrollback
    rw [lookup_subtract]
    rcases hresource with hmem | hmem <;>
      obtain ⟨value, hvalue⟩ := isSome_iff_exists.mp (AList.lookup_isSome.mpr hmem)
    · cases hother : resources.lookup resource <;> simp [hvalue]
    · have hvalue' : resources.lookup resource = some value := hvalue
      cases hother : used.lookup resource <;> simp [hvalue']

theorem withinLimits_rollback (hop : rollbackResources resources hardLimits used = .ok newUsed)
    (hresources : NonNegative resources) (hlists : ∀ resource ∈ resources, resource ∈ used)
    (hrange : ∀ resource, InInt64 ((Types.amount used resource).toInt +
      (Entry.rollback resources).change resource)) (hwithin : WithinLimits hardLimits used) :
    WithinLimits hardLimits newUsed := by
  obtain ⟨rfl, -⟩ := rollbackResources_eq_ok hop
  intro resource value limit hvalue hlimit hlimited
  rw [lookup_subtract] at hvalue
  cases hused : used.lookup resource with
  | none =>
    have habsent : resources.lookup resource = none := AList.lookup_eq_none.mpr fun hmem =>
      AList.lookup_eq_none.mp hused (hlists resource hmem)
    simp [hused, habsent] at hvalue
  | some old =>
    have hold : old ≤ limit := hwithin resource old limit hused hlimit hlimited
    cases hother : resources.lookup resource with
    | none =>
      simp only [hused, hother, some.injEq] at hvalue
      rwa [← hvalue]
    | some other =>
      simp only [hused, hother, some.injEq] at hvalue
      have hother_nonneg : 0 ≤ other := hresources resource other hother
      have hdiff : (old - other).toInt = old.toInt - other.toInt := by
        apply toInt_sub_of_inInt64
        have hrange' := hrange resource
        simpa [amount, Entry.change, hused, hother, sub_eq_add_neg] using hrange'
      rw [← hvalue, Int64.le_iff_toInt_le, hdiff]
      rw [Int64.le_iff_toInt_le] at hold hother_nonneg
      have hzero : (0 : Int64).toInt = 0 := rfl
      omega

/-- The world after an update went through. -/
def DbWorld.afterUpdate (world : DbWorld) (quota : Quota) (newUsed : ResourceList)
    (entry : Entry) : DbWorld :=
  { rows := { world.rows with used := some newUsed, usedVersion := getVersion quota.usedVersion }
    updates := world.updates + 1
    ledger := entry :: world.ledger }

section Update

variable {world : DbWorld} {quota : Quota} {entry : Entry} {readAt : ℕ}
  {hardLimits used newUsed : ResourceList}

/-- What is known when an update goes through. -/
structure UpdateGoesThrough (hard : ResourceText) (initial : ResourceList) (start : ℕ)
    (world : DbWorld) (quota : Quota) (entry : Entry) (hardLimits used newUsed : ResourceList) :
    Prop where
  inv : DbInv hard initial start world
  hard_eq : world.rows.hard = some hardLimits
  used_eq : world.rows.used = some used
  version_eq : quota.usedVersion = (start + world.updates) % 2 ^ 63
  op_eq : entry.op hardLimits used = .ok newUsed
  ready : entry.Ready world
  range : ∀ resource, InInt64 ((Types.amount used resource).toInt + entry.change resource)

theorem updateGoesThrough (hinv : DbInv hard initial start world)
    (hcurrent : Current start quota readAt world) (hready : entry.Ready world)
    (hallowed : DbAllowed world (.update (quota.setUsed newUsed) entry readAt) .ok)
    (hhard : quota.hard = some hardLimits) (hused : quota.used = some used)
    (hop : entry.op hardLimits used = .ok newUsed)
    (hversion : world.rows.usedVersion = quota.usedVersion) :
    UpdateGoesThrough hard initial start world quota entry hardLimits used newUsed := by
  have hmod : (start + world.updates) % 2 ^ 63 = (start + readAt) % 2 ^ 63 := by
    rw [← hinv.version_eq, ← hcurrent.version_eq, hversion]
  have hsame : world.updates = readAt := eq_of_version_eq hcurrent.readAt_le hallowed.2 hmod
  have hstored : world.rows.used = some used := (hcurrent.used_eq hsame).trans hused
  exact ⟨hinv, hcurrent.hard_eq.symm.trans hhard, hstored, hversion ▸ hinv.version_eq, hop, hready,
    fun resource => hallowed.1 used resource hstored⟩

variable (h : UpdateGoesThrough hard initial start world quota entry hardLimits used newUsed)

include h

theorem UpdateGoesThrough.after_inv :
    DbInv hard initial start (world.afterUpdate quota newUsed entry) where
  hard_eq := h.inv.hard_eq
  balanced := by
    obtain ⟨stored, hstored, hbalance⟩ := h.inv.balanced
    obtain rfl : stored = used := some.inj (hstored.symm.trans h.used_eq)
    refine ⟨newUsed, rfl, fun resource => ?_⟩
    calc (amount newUsed resource).toInt
        = (amount stored resource).toInt + entry.change resource :=
          Entry.toInt_amount_op h.op_eq (h.range resource)
      _ = (amount initial resource).toInt +
            balance (world.afterUpdate quota newUsed entry).ledger resource := by
          rw [hbalance resource, DbWorld.afterUpdate, balance_cons]
          ring
  version_eq := by
    show getVersion quota.usedVersion = (start + (world.updates + 1)) % 2 ^ 63
    rw [h.version_eq, getVersion_mod, Nat.add_assoc]

/-- A reservation checks the limits, and a rollback stays below what it finds. -/
theorem UpdateGoesThrough.after_within
    (hwithin : (∃ resources, entry = .reserve resources) ∨ world.Within) :
    (world.afterUpdate quota newUsed entry).Within := by
  intro limits stored hlimits hstored
  obtain rfl : limits = hardLimits := some.inj (hlimits.symm.trans h.hard_eq)
  cases hstored
  cases hentry : entry with
  | reserve resources =>
    have hop := h.op_eq
    rw [hentry] at hop
    exact (reserveResources_eq_ok hop).2
  | rollback resources =>
    have hop := h.op_eq
    have hready := h.ready
    have hrange := h.range
    rw [hentry] at hop hready hrange
    have hlists : ∀ resource ∈ resources, resource ∈ used := by
      intro resource hresource
      obtain ⟨stored, hstored, hmem⟩ := hready.2 resources rfl resource hresource
      rwa [some.inj (hstored.symm.trans h.used_eq)] at hmem
    have hbefore : world.Within := hwithin.resolve_left (by simp [hentry])
    have hbefore : WithinLimits limits used := hbefore limits used h.hard_eq h.used_eq
    exact withinLimits_rollback hop hready.1 hlists hrange hbefore

theorem UpdateGoesThrough.after_lists {resource : ResourceName}
    (hresource : world.Lists resource ∨ resource ∈ entry.resources) :
    (world.afterUpdate quota newUsed entry).Lists resource := by
  refine ⟨newUsed, rfl, lists_of_op h.op_eq ?_⟩
  rcases hresource with ⟨stored, hstored, hmem⟩ | hmem
  · rw [some.inj (hstored.symm.trans h.used_eq)] at hmem
    exact .inl hmem
  · exact .inr hmem

theorem UpdateGoesThrough.after_guar : DbGuar world (world.afterUpdate quota newUsed entry) := by
  refine ⟨⟨rfl, Nat.le_succ _, fun hupdates => ?_, ?_, fun resource hlists =>
    h.after_lists (.inl hlists)⟩, .inr ⟨entry, rfl, ?_⟩⟩
  · have hne : world.updates + 1 ≠ world.updates := Nat.succ_ne_self _
    exact absurd hupdates hne
  · exact fun hwithin => h.after_within (.inr hwithin)
  · exact fun resources hentry => h.after_within (.inl ⟨resources, hentry⟩)

end Update

/-- One version-checked statement for the usage. -/
theorem update_step {reply : Except QuotaFailure Unit} (hinv : DbInv hard initial start world)
    (hcurrent : Current start quota readAt world) (hready : entry.Ready world)
    (hhard : quota.hard = some hardLimits) (hused : quota.used = some used)
    (hop : entry.op hardLimits used = .ok newUsed)
    (hallowed : DbAllowed world (.update (quota.setUsed newUsed) entry readAt) choice)
    (hsem : dbSem world (.update (quota.setUsed newUsed) entry readAt) choice =
      some (after, reply)) :
    DbInv hard initial start after ∧ DbGuar world after ∧
      (reply = .ok () → entry.Settled after) := by
  cases choice with
  | fail err =>
    cases hsem
    exact ⟨hinv, dbGuar_refl _, by simp⟩
  | ok =>
    cases hupdate : world.rows.update (quota.setUsed newUsed) with
    | error err =>
      simp only [dbSem, hupdate] at hsem
      cases hsem
      exact ⟨hinv, dbGuar_refl _, by simp⟩
    | ok rows =>
      simp only [dbSem, hupdate] at hsem
      cases hsem
      obtain ⟨hversion, rfl⟩ := update_eq_ok hcurrent.unchanged hupdate
      have hgoes := updateGoesThrough hinv hcurrent hready hallowed hhard hused hop hversion
      exact ⟨hgoes.after_inv, hgoes.after_guar, fun _ resource hresource =>
        hgoes.after_lists (.inr hresource)⟩

/-- The early return of a change that leaves the usage as it is. -/
theorem keep_step {reply : Unit} (hinv : DbInv hard initial start world)
    (hcurrent : Current start quota readAt world) (hhard : quota.hard = some hardLimits)
    (hused : quota.used = some used) (hop : entry.op hardLimits used = .ok newUsed)
    (hequals : Types.equals used newUsed = true)
    (hsem : dbSem world (.keep entry) choice = some (after, reply)) :
    DbInv hard initial start after ∧ DbGuar world after ∧ entry.Settled after := by
  cases hsem
  have hlookup := equals_iff.mp hequals
  refine ⟨⟨hinv.hard_eq, ?_, hinv.version_eq⟩, ⟨⟨rfl, le_rfl, fun _ => rfl, id, fun _ => id⟩,
    .inr ⟨entry, rfl, ?_⟩⟩, ?_⟩
  · obtain ⟨stored, hstored, hbalance⟩ := hinv.balanced
    refine ⟨stored, hstored, fun resource => ?_⟩
    rw [balance_cons, Entry.change_eq_zero hop hequals, zero_add]
    exact hbalance resource
  · rintro resources rfl
    -- the usage that was read is the one that was checked
    have hchecked : WithinLimits hardLimits newUsed := (reserveResources_eq_ok hop).2
    have hread : WithinLimits hardLimits used := fun resource value limit hvalue =>
      hchecked resource value limit (hlookup resource ▸ hvalue)
    exact hcurrent.within hardLimits used hhard hused hread
  · intro resource hresource
    have hmem : resource ∈ newUsed := lists_of_op hop (.inr hresource)
    rw [← AList.lookup_isSome, ← hlookup, AList.lookup_isSome] at hmem
    exact hcurrent.lists used resource hused hmem

/-- What an attempt of a change leaves. -/
abbrev Attempted (entry : Entry) : Attempt → DbWorld → Prop :=
  Attempt.Leaves entry.Ready fun world => entry.Ready world ∧ entry.Settled world

theorem dbSafe_ret {result : Attempt} (hleaves : Attempted entry result world) :
    DbSafe hard initial start (Attempted entry) (.ret result) world :=
  Secured.ret (fun _ hevolves h => h.stable (fun _ _ h hready => hready.stable h)
    (fun _ _ h hboth => ⟨hboth.1.stable h, hboth.2.stable h⟩) hevolves) hleaves

theorem writeUsage_safe (hcurrent : Current start quota readAt world) (hready : entry.Ready world) :
    DbSafe hard initial start (Attempted entry) (writeUsage entry quota readAt) world := by
  unfold writeUsage
  cases hhard : quota.hard with
  | none => exact dbSafe_ret hready
  | some hardLimits =>
    cases hused : quota.used with
    | none => exact dbSafe_ret hready
    | some used =>
      dsimp only
      cases hop : entry.op hardLimits used with
      | error err => exact dbSafe_ret hready
      | ok newUsed =>
        dsimp only
        split_ifs with hequals
        · intro later choice after reply hevolves hinv _ hsem
          obtain ⟨hafter, hguar, hsettled⟩ :=
            keep_step hinv (hcurrent.stable hevolves) hhard hused hop hequals hsem
          refine ⟨hafter, hguar, dbSafe_ret ⟨?_, hsettled⟩⟩
          exact (hready.stable hevolves).stable hguar.1
        · intro later choice after reply hevolves hinv hallowed hsem
          obtain ⟨hafter, hguar, hsettled⟩ := update_step hinv (hcurrent.stable hevolves)
            (hready.stable hevolves) hhard hused hop hallowed hsem
          refine ⟨hafter, hguar, ?_⟩
          have hready' := (hready.stable hevolves).stable hguar.1
          match reply with
          | .ok () => exact dbSafe_ret ⟨hready', hsettled rfl⟩
          | .error err =>
            show DbSafe _ _ _ _ (if err = .optimisticLock then _ else _) after
            split_ifs
            · exact dbSafe_ret hready'
            · exact dbSafe_ret hready'

theorem readUsage_current (hinv : DbInv hard initial start world) {hardText : ResourceText}
    {hardVersion : ℕ} (hhard : hardText = world.rows.hard) :
    Current start { hard := hardText, used := world.rows.used, hardVersion := hardVersion,
                    usedVersion := world.rows.usedVersion } world.updates world where
  hard_eq := hhard
  readAt_le := le_rfl
  version_eq := hinv.version_eq
  used_eq := fun _ => rfl
  within := fun hardLimits used hlimits hused hwithin limits stored hlimits' hstored => by
    cases hlimits.symm.trans (hhard.trans hlimits')
    cases hused.symm.trans hstored
    exact hwithin
  lists := fun used _ hused hresource => ⟨used, hused, hresource⟩
  unchanged := rfl

theorem updateUsageByDB_safe (hready : entry.Ready world) :
    DbSafe hard initial start (Attempted entry) (updateUsageByDB entry) world := by
  intro first choice after reply hevolves hinv _ hsem
  have hready := hready.stable hevolves
  cases choice with
  | fail err =>
    cases hsem
    exact ⟨hinv, dbGuar_refl _, dbSafe_ret hready⟩
  | ok =>
    cases hsem
    refine ⟨hinv, dbGuar_refl _, ?_⟩
    intro second choice after reply hevolves hinv _ hsem
    have hready := hready.stable hevolves
    cases choice with
    | fail err =>
      cases hsem
      exact ⟨hinv, dbGuar_refl _, dbSafe_ret hready⟩
    | ok =>
      cases hsem
      -- nobody changes the limits between the two statements
      exact ⟨hinv, dbGuar_refl _,
        writeUsage_safe (readUsage_current hinv hevolves.hard_eq.symm) hready⟩

theorem requestByDB_safe (hresources : NonNegative resources) (reserveFuel rollbackFuel : ℕ)
    (hinv : DbInv hard initial start world) :
    DbSafe hard initial start (fun _ _ => True)
      (requestByDB resources reserveFuel rollbackFuel) world := by
  have hrunF : ∀ {Fact : DbWorld → Prop} {world : DbWorld},
      (∀ a b, Evolves a b → Fact a → Fact b) → Fact world →
      DbSafe hard initial start (fun _ later => Fact later) Db.runF world := by
    intro Fact world hstable hfact later choice after reply hevolves hinv _ hsem
    have hlater := hstable _ _ hevolves hfact
    cases choice <;> obtain ⟨rfl, rfl⟩ := Prod.mk.inj (some.inj hsem) <;>
      exact ⟨hinv, dbGuar_refl _, Secured.ret (fun _ h => hstable _ _ h) hlater⟩
  have hretry : ∀ {entry : Entry} {world : DbWorld} (fuel : ℕ),
      DbInv hard initial start world → entry.Ready world →
      DbSafe hard initial start
        (LoopLeaves entry.Ready fun world => entry.Ready world ∧ entry.Settled world)
        (retry (updateUsageByDB entry) fuel) world :=
    fun fuel hinv hready => retry_secured Evolves.refl (fun _ _ h hready => hready.stable h)
      (fun _ _ h hboth => ⟨hboth.1.stable h, hboth.2.stable h⟩)
      (fun _ hready => updateUsageByDB_safe hready) fuel hinv hready
  unfold requestByDB
  split_ifs
  · exact hrunF (fun _ _ _ => id) trivial
  refine Secured.bind Evolves.refl hinv
    (hretry reserveFuel hinv ⟨hresources, fun _ h => by cases h⟩) ?_
  intro result later hlater hleaves
  match result with
  | .error err => exact fun _ _ _ => trivial
  | .ok () =>
    refine Secured.bind Evolves.refl hlater
      (hrunF (fun _ _ h hsettled => hsettled.stable h) hleaves.2) ?_
    intro outcome last hlast hsettled
    match outcome with
    | .ok () => exact fun _ _ _ => trivial
    | .error err =>
      have hready : (Entry.rollback resources).Ready last := by
        refine ⟨hresources, ?_⟩
        intro other hother
        cases hother
        exact hsettled
      exact Secured.bind Evolves.refl hlast (hretry rollbackFuel hlast hready)
        fun _ _ _ _ _ _ _ => trivial

end Safety

end Harbor.Quotas
