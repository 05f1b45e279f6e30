import Harbor.Quotas.FlushRuns

/-!
# Changing a limit

`UpdateQuota` reads a quota, sets its hard limits and passes it to `Controller.Update`, which
reads the quota again and takes over whatever differs from the one it was passed: the limits,
but also the usage.  If the usage has changed between the two reads, the update would write both,
which the database layer refuses each time; and if the limits happen to be the stored ones, it
writes the usage of the first read over the present one.
-/

namespace Harbor.Quotas

open Harbor.Concurrency QuotaRows

variable (rows : QuotaRows)

/-- The quota as it is read from the rows. -/
def QuotaRows.quota : Quota where
  hard := rows.hard
  used := rows.used
  hardVersion := rows.hardVersion
  usedVersion := rows.usedVersion

/-- The stored limits are these, and the usage is that of the earlier rows. -/
structure QuotaRows.OnlyLimits (rows earlier : QuotaRows) (hardLimits : ResourceList) : Prop where
  hard : ∃ stored, rows.hard = some stored ∧ Types.equals stored hardLimits = true
  used : rows.used = earlier.used
  usedVersion : rows.usedVersion = earlier.usedVersion

section Update

variable {codec : Codec} {Client : Type}

abbrev UpdatePool (codec : Codec) (Client : Type) : Type :=
  Pool (RedisWorld codec Client) (RedisOp codec Client) RedisReply Unit (Except QuotaFailure Unit)

/-- `Controller.Update` alone. -/
def updatePool (world : RedisWorld codec Client) (u : Quota) (fuel : ℕ) :
    UpdatePool codec Client where
  world := world
  threads := fun _ => controllerUpdate false u fuel

/-- An update with limits set on the quota of the rows `read`, started when the rows are those of
the world: if it returns nil, it has written the limits and nothing else, and it does return nil
if the database accepts its statements. -/
def ChangesOnlyLimits (calculated : ResourceList) (world : RedisWorld codec Client)
    (read : QuotaRows) (hardLimits : ResourceList) (fuel : ℕ) : Prop :=
  (∀ choices final,
    exec (Pool.step (redisSem calculated))
      (updatePool world (read.quota.setHard hardLimits) fuel) choices = some final →
    final.threads () = .ret (.ok ()) → final.world.rows.OnlyLimits world.rows hardLimits) ∧
  ∃ final,
    exec (Pool.step (redisSem calculated))
      (updatePool world (read.quota.setHard hardLimits) fuel) (oks () 3) = some final ∧
    final.threads () = .ret (.ok ())

/-- What an attempt asks the database to write. -/
def QuotaRows.merged (u : Quota) : Quota :=
  (rows.quota.takeHard u).takeUsed u

variable {calculated : ResourceList} {world : RedisWorld codec Client} {u : Quota} {fuel : ℕ}
  {quota : Quota} {after : RedisWorld codec Client}
  {reply : RedisReply (.updateRows quota : RedisOp codec Client)}

theorem update_cases (quota : Quota) :
    (∃ err, rows.update quota = .error err) ∨ ∃ rows', rows.update quota = .ok rows' := by
  cases rows.update quota with
  | error err => exact .inl ⟨err, rfl⟩
  | ok rows' => exact .inr ⟨rows', rfl⟩

theorem updateRows_ok {rows : QuotaRows} (hupdate : world.rows.update quota = .ok rows)
    (hsem : redisSem calculated world (.updateRows quota) .ok = some (after, reply)) :
    after = { world with rows := rows } ∧ reply = .ok () := by
  simp only [redisSem, hupdate] at hsem
  cases hsem
  exact ⟨rfl, rfl⟩

theorem updateRows_error {err : QuotaFailure} (hupdate : world.rows.update quota = .error err)
    (hsem : redisSem calculated world (.updateRows quota) .ok = some (after, reply)) :
    after = world ∧ reply = .error err := by
  simp only [redisSem, hupdate] at hsem
  cases hsem
  exact ⟨rfl, rfl⟩

/-- An attempt that is done has made its one statement on the rows it started from. -/
theorem updateAttempt_alone :
    ∀ world : RedisWorld codec Client, world.rows = rows →
      Secured (redisSem calculated) (fun _ _ _ => True) (fun _ => True) Eq (fun _ _ => True)
        (Attempt.Leaves (fun world => world.rows = rows)
          (fun world => rows.update (rows.merged u) = .ok world.rows))
        (updateAttempt false u) world := by
  rintro world rfl
  have hret : ∀ (result : Attempt) (later : RedisWorld codec Client),
      result.Leaves (fun later => later.rows = world.rows)
        (fun later => world.rows.update (world.rows.merged u) = .ok later.rows) later →
      Secured (redisSem calculated) (fun _ _ _ => True) (fun _ => True) Eq (fun _ _ => True)
        (Attempt.Leaves (fun later => later.rows = world.rows)
          (fun later => world.rows.update (world.rows.merged u) = .ok later.rows))
        (.ret result) later :=
    fun result later hleaves => Secured.ret (fun _ hsame h => hsame ▸ h) hleaves
  rintro _ choice after reply rfl - - hsem
  cases hsem
  refine ⟨trivial, trivial, ?_⟩
  cases choice with
  | fail err => exact hret (.again err) _ rfl
  | ok =>
    rintro _ choice after reply rfl - - hsem
    cases hsem
    refine ⟨trivial, trivial, ?_⟩
    cases choice with
    | fail err => exact hret (.again err) _ rfl
    | ok =>
      rintro _ choice after reply rfl - - hsem
      refine ⟨trivial, trivial, ?_⟩
      cases choice with
      | fail err =>
        cases hsem
        exact hret (.again err) _ rfl
      | ok =>
        obtain ⟨err, hupdate⟩ | ⟨rows, hupdate⟩ := update_cases world.rows (world.rows.merged u)
        · obtain ⟨rfl, rfl⟩ := updateRows_error hupdate hsem
          exact hret (.again err) _ rfl
        · obtain ⟨rfl, rfl⟩ := updateRows_ok hupdate hsem
          exact hret .done { world with rows := rows } hupdate

/-- If all statements are accepted, the first attempt decides. -/
theorem exec_accepted (calculated : ResourceList) (world : RedisWorld codec Client) (u : Quota)
    (fuel : ℕ) :
    (∃ final, exec (Pool.step (redisSem calculated)) (updatePool world u (fuel + 1)) (oks () 3) =
        some final ∧ final.threads () = .ret (.ok ())) ↔
      ∃ rows, world.rows.update (world.rows.merged u) = .ok rows := by
  -- the two reads lead to the statement that the attempt makes
  obtain ⟨next, hread, hagain, hdone⟩ :
      ∃ next : Except QuotaFailure Unit → RedisProgram codec Client (Except QuotaFailure Unit),
        exec (Pool.step (redisSem calculated)) (updatePool world u (fuel + 1)) (oks () 3) =
          (Pool.step (redisSem calculated)
            ⟨world, fun _ => .call (.updateRows (world.rows.merged u)) next⟩ ((), .ok)).bind some ∧
        (∀ err, next (.error err) = controllerUpdate false u fuel) ∧
        next (.ok ()) = .ret (.ok ()) := ⟨_, rfl, fun _ => rfl, rfl⟩
  rw [hread, Option.bind_fun_some]
  obtain ⟨err, hupdate⟩ | ⟨rows, hupdate⟩ := update_cases world.rows (world.rows.merged u)
  · refine iff_of_false ?_ (by simp [hupdate])
    rintro ⟨final, hstep, hreturned⟩
    obtain ⟨op, next, after, reply, hthread, hsem, rfl⟩ := Pool.step_eq_some hstep
    cases hthread
    obtain ⟨rfl, rfl⟩ := updateRows_error hupdate hsem
    have hagain : controllerUpdate false u fuel = .ret (.ok ()) := (hagain err).symm.trans hreturned
    -- the next attempt starts with a read, and without one the loop has failed
    cases fuel with
    | zero | succ fuel => cases hagain
  · refine iff_of_true ?_ ⟨rows, hupdate⟩
    have hsem : redisSem calculated world (.updateRows (world.rows.merged u)) .ok =
        some ({ world with rows := rows }, .ok ()) := by
      simp only [redisSem, hupdate]
    exact ⟨_, Pool.step_of_call rfl hsem, hdone⟩

/-- Whatever the database answers, an update that returns nil has made its statement on the rows
it found. -/
theorem exec_returned {choices : List (Unit × RedisChoice)} {final : UpdatePool codec Client}
    (hrun : exec (Pool.step (redisSem calculated)) (updatePool world u fuel) choices = some final)
    (hreturned : final.threads () = .ret (.ok ())) :
    world.rows.update (world.rows.merged u) = .ok final.world.rows := by
  have hcompat : Pool.Compatible (fun _ : RedisWorld codec Client => True)
      (fun _ : Unit => Eq) (fun _ _ _ => True) :=
    ⟨fun _ _ => rfl, fun _ _ _ _ => Eq.trans, fun _ _ _ _ hne => absurd rfl hne⟩
  have hsecured : Pool.IsSecured (redisSem calculated) (fun _ _ _ => True) (fun _ => True)
      (fun _ => Eq) (fun _ _ _ => True)
      (fun _ => LoopLeaves (fun later => later.rows = world.rows)
        (fun later => world.rows.update (world.rows.merged u) = .ok later.rows))
      (updatePool world u fuel) := by
    refine ⟨trivial, fun _ => retry_secured (fun _ => rfl) ?_ ?_ (updateAttempt_alone _) fuel
      trivial rfl⟩
    · rintro _ _ rfl h
      exact h
    · rintro _ _ rfl h
      exact h
  have hfinal := (Pool.secured_exec hcompat hsecured
    ((everyStep_true _ _).mono fun _ _ _ _ _ _ => trivial) hrun).2 ()
  rw [hreturned] at hfinal
  exact hfinal final.world rfl trivial

/-! ## What the statement writes -/

/-- The usage is still the one that was read, as far as both can be read at all. -/
def QuotaRows.SameUsage (rows read : QuotaRows) : Prop :=
  ∀ now before, rows.used = some now → read.used = some before → Types.equals now before = true

variable {rows rows' read : QuotaRows} {hardLimits : ResourceList}

theorem equals_self (resources : ResourceList) : Types.equals resources resources = true :=
  Types.equals_iff.mpr fun _ => rfl

theorem takeHard_used : (quota.takeHard u).used = quota.used := by
  unfold Quota.takeHard
  split
  · split_ifs <;> rfl
  · rfl

theorem update_used_eq (hchanged : quota.usedChanged = true)
    (hupdate : rows.update quota = .ok rows') : rows'.used = quota.used := by
  simp only [update, hchanged, true_and, not_true_eq_false, false_and, if_false, if_true] at hupdate
  split_ifs at hupdate
  rw [← Except.ok.inj hupdate]

theorem takeUsed_of_sameUsage (quota : Quota) (hquota : quota.used = rows.used)
    (hu : u.used = read.used) (hsame : rows.SameUsage read) : quota.takeUsed u = quota := by
  unfold Quota.takeUsed
  rw [hquota, hu]
  split
  · rename_i now before hnow hbefore
    rw [if_pos (hsame now before hnow hbefore)]
  · rfl

/-- With the usage unchanged, the statement writes the limits or finds them as they should
be. -/
theorem onlyLimits_of_sameUsage (hardLimits : ResourceList) (hhard : rows.hard.isSome)
    (hsame : rows.SameUsage read) :
    ∃ rows', rows.update (rows.merged (read.quota.setHard hardLimits)) = .ok rows' ∧
      rows'.OnlyLimits rows hardLimits := by
  obtain ⟨old, hold⟩ := Option.isSome_iff_exists.mp hhard
  have hmerged : rows.merged (read.quota.setHard hardLimits) =
      rows.quota.takeHard (read.quota.setHard hardLimits) := by
    exact takeUsed_of_sameUsage _ takeHard_used rfl hsame
  have htake : rows.quota.takeHard (read.quota.setHard hardLimits) =
      if Types.equals old hardLimits then rows.quota else rows.quota.setHard hardLimits := by
    unfold Quota.takeHard quota Quota.setHard
    rw [hold]
  rw [hmerged, htake]
  by_cases hequals : Types.equals old hardLimits = true
  · rw [if_pos hequals]
    exact ⟨rows, rfl, ⟨⟨old, hold, hequals⟩, rfl, rfl⟩⟩
  · rw [if_neg hequals]
    refine ⟨{ rows with hard := some hardLimits, hardVersion := getVersion rows.hardVersion }, ?_,
      ⟨⟨hardLimits, rfl, equals_self hardLimits⟩, rfl, rfl⟩⟩
    simp [update, Quota.setHard, quota]

theorem isSome_of_onlyLimits
    (hupdate : rows.update (rows.merged (read.quota.setHard hardLimits)) = .ok rows')
    (honly : rows'.OnlyLimits rows hardLimits) : rows.hard.isSome := by
  by_contra hnone
  rw [Option.not_isSome_iff_eq_none] at hnone
  have hkept : rows'.hard = rows.hard := by
    refine update_hard_eq (fun hwrites => ?_) hupdate
    have hchanged := hwrites.1
    rw [merged, takeUsed_hardChanged, Quota.takeHard, quota, hnone] at hchanged
    cases hchanged
  obtain ⟨stored, hstored, -⟩ := honly.hard
  rw [hkept, hnone] at hstored
  cases hstored

theorem sameUsage_of_onlyLimits
    (hupdate : rows.update (rows.merged (read.quota.setHard hardLimits)) = .ok rows')
    (honly : rows'.OnlyLimits rows hardLimits) : rows.SameUsage read := by
  intro now before hnow hbefore
  by_contra hdiffer
  have hmerged : rows.merged (read.quota.setHard hardLimits) =
      (rows.quota.takeHard (read.quota.setHard hardLimits)).setUsed before := by
    unfold merged Quota.takeUsed
    rw [takeHard_used]
    simp only [quota, Quota.setHard, hnow, hbefore, if_neg hdiffer]
  have hwritten : rows'.used = some before := by
    rw [update_used_eq (by rw [hmerged]; rfl) hupdate, hmerged]
    rfl
  obtain rfl : before = now := Option.some.inj (hwritten.symm.trans (honly.used.trans hnow))
  exact hdiffer (equals_self before)

end Update

/-- An update of the limits writes them and leaves the usage alone if and only if the stored
limits can be read and the usage has not changed since the quota was read. -/
theorem update_changes_only_limits_iff {codec : Codec} {Client : Type} (calculated : ResourceList)
    (world : RedisWorld codec Client) (read : QuotaRows) (hardLimits : ResourceList) (fuel : ℕ) :
    ChangesOnlyLimits calculated world read hardLimits (fuel + 1) ↔
      world.rows.hard.isSome ∧ world.rows.SameUsage read := by
  unfold ChangesOnlyLimits
  rw [exec_accepted]
  constructor
  · rintro ⟨honly, haccepted⟩
    obtain ⟨final, hrun, hreturned⟩ := (exec_accepted calculated world _ fuel).mpr haccepted
    have hfinal := honly _ _ hrun hreturned
    have hupdate := exec_returned hrun hreturned
    exact ⟨isSome_of_onlyLimits hupdate hfinal, sameUsage_of_onlyLimits hupdate hfinal⟩
  · rintro ⟨hhard, hsame⟩
    obtain ⟨rows, hupdate, honly⟩ := onlyLimits_of_sameUsage hardLimits hhard hsame
    refine ⟨fun choices final hrun hreturned => ?_, rows, hupdate⟩
    cases hupdate.symm.trans (exec_returned hrun hreturned)
    exact honly

/-- The rows of `limitedRows` after a reservation of two. -/
def reservedRows : QuotaRows :=
  { limitedRows with used := some (storage 7), usedVersion := 1 }

/-- After the reservation, an update that was prepared before it raises no limit; one that leaves
the limit as it is takes the reservation back. -/
theorem update_after_reservation :
    (∃ final : UpdatePool plainCodec Unit,
      exec (Pool.step (redisSem (storage 5)))
        (updatePool { rows := reservedRows } (limitedRows.quota.setHard (storage 200)) 1)
        (oks () 3) = some final ∧
      final.threads () = .ret (.error .timeout) ∧ final.world.rows = reservedRows) ∧
    ∃ final : UpdatePool plainCodec Unit,
      exec (Pool.step (redisSem (storage 5)))
        (updatePool { rows := reservedRows } (limitedRows.quota.setHard (storage 100)) 1)
        (oks () 3) = some final ∧
      final.threads () = .ret (.ok ()) ∧ final.world.rows.used = some (storage 5) :=
  ⟨⟨_, rfl, rfl, rfl⟩, ⟨_, rfl, rfl, rfl⟩⟩

end Harbor.Quotas
