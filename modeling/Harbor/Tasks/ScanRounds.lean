import Harbor.Tasks.Refresh
import Mathlib.Data.List.Perm.Lattice
import Mathlib.Data.Nat.Count

/-!
# When a scan of the outdated set ends

A scan pops batches until one is smaller than the batch size.  Members whose refresh
has failed go back to the same set before the next batch is popped, so a scan of a
hundred executions that cannot be refreshed meets them again and again.  It ends for
every behaviour of Redis exactly when enough refreshes do not fail to bring the set
below the batch size, `scan_ends_iff`.

The answers of `RefreshStatus` are given by the number of calls before them; nobody
else adds to the set.
-/

namespace Harbor.Tasks

open List

/-! ## The loop -/

/-- What Redis does in each round: the order in which `SPOP` takes the members, and
which commands fail. -/
structure ScanRedis where
  order : ℕ → List Member → List Member
  order_perm : ∀ round members, (order round members).Perm members
  popFails : ℕ → Bool := fun _ => false
  addFails : ℕ → Bool := fun _ => false

abbrev RefreshAnswers : Type := ℕ → Except TaskFailure RefreshResult

section Loop

variable (redis : ScanRedis) (refresh : RefreshAnswers)

/-- The loop over a batch: what is to be put back, and the number of refreshes so far. -/
def refreshBatch : List Member → ℕ → List Member → List Member × ℕ
  | [], calls, toRequeue => (toRequeue, calls)
  | member :: rest, calls, toRequeue =>
    -- a member that does not parse is dropped without a refresh
    if member.vendor = "" then refreshBatch rest calls toRequeue
    else refreshBatch rest (calls + 1) (putBack toRequeue member (refresh calls))

/-- What `SPOP` takes in a round. -/
def ScanRedis.batch (round : ℕ) (outdated : List Member) : List Member :=
  (redis.order round outdated).take execStatusOutdateBatchSize

/-- The set after a round.  An error of `requeueOutdateMembers` is only logged. -/
def ScanRedis.afterRound (round calls : ℕ) (outdated : List Member) : List Member :=
  let left := (redis.order round outdated).drop execStatusOutdateBatchSize
  if redis.addFails round then left
  else left ∪ (refreshBatch refresh (redis.batch round outdated) calls []).1

/-- The loop of `scanAndRefreshOutdateStatus`; it returns the set, or nothing if it is
not over after so many rounds. -/
def scanRounds : ℕ → ℕ → ℕ → List Member → Option (List Member)
  | 0, _, _, _ => none
  | fuel + 1, round, calls, outdated =>
    if redis.popFails round then some outdated
    else if redis.batch round outdated = [] then some outdated
    else if (redis.batch round outdated).length < execStatusOutdateBatchSize then
      some (redis.afterRound refresh round calls outdated)
    else
      scanRounds fuel (round + 1) (refreshBatch refresh (redis.batch round outdated) calls []).2
        (redis.afterRound refresh round calls outdated)

end Loop

/-- The member parses. -/
def Member.Valid (member : Member) : Prop := member.vendor ≠ ""

instance : DecidablePred Member.Valid :=
  fun member => inferInstanceAs (Decidable (member.vendor ≠ ""))

def validCount (members : List Member) : ℕ :=
  members.countP (·.Valid)

def invalidCount (members : List Member) : ℕ :=
  members.countP (¬ ·.Valid)

/-- The refresh succeeds or finds no execution, so the member is not put back. -/
def Settles : Except TaskFailure RefreshResult → Prop
  | .ok _ => True
  | .error err => err = .notFound

instance : DecidablePred Settles
  | .ok _ => inferInstanceAs (Decidable True)
  | .error err => inferInstanceAs (Decidable (err = .notFound))

/-- How many of the first refreshes settle their member. -/
def settled (refresh : RefreshAnswers) (calls : ℕ) : ℕ :=
  Nat.count (fun call => Settles (refresh call)) calls

/-! ## One batch -/

section Batch

variable {redis : ScanRedis} {refresh : RefreshAnswers}

theorem putBack_eq (toRequeue : List Member) (member : Member)
    (result : Except TaskFailure RefreshResult) :
    putBack toRequeue member result =
      if Settles result then toRequeue else toRequeue ++ [member] := by
  cases result with
  | ok result => exact (if_pos trivial).symm
  | error err => rfl

theorem settled_succ (calls : ℕ) :
    settled refresh (calls + 1) =
      settled refresh calls + if Settles (refresh calls) then 1 else 0 :=
  Nat.count_succ ..

/-- A batch puts back valid members of it, all but those that were settled. -/
theorem refreshBatch_spec (members : List Member) (calls : ℕ) (toRequeue : List Member) :
    ∃ kept : List Member, kept.Sublist members ∧ (∀ member ∈ kept, member.Valid) ∧
      refreshBatch refresh members calls toRequeue =
        (toRequeue ++ kept, calls + validCount members) ∧
      kept.length + settled refresh (calls + validCount members) =
        validCount members + settled refresh calls := by
  induction members generalizing calls toRequeue with
  | nil =>
    refine ⟨[], List.Sublist.slnil, by simp, ?_, ?_⟩ <;> simp [refreshBatch, validCount]
  | cons member rest ih =>
    by_cases hvalid : member.Valid
    · have hcount : validCount (member :: rest) = validCount rest + 1 :=
        countP_cons_of_pos (decide_eq_true hvalid)
      obtain ⟨kept, hsub, hkept, heq, hlength⟩ :=
        ih (calls + 1) (putBack toRequeue member (refresh calls))
      have hcalls : calls + (validCount rest + 1) = calls + 1 + validCount rest := by omega
      rw [settled_succ] at hlength
      rw [refreshBatch, if_neg hvalid, heq, hcount, hcalls, putBack_eq]
      by_cases hsettles : Settles (refresh calls)
      · rw [if_pos hsettles] at hlength ⊢
        exact ⟨kept, hsub.cons member, hkept, rfl, by omega⟩
      · rw [if_neg hsettles] at hlength ⊢
        refine ⟨member :: kept, hsub.cons_cons member, ?_, by simp, ?_⟩
        · exact forall_mem_cons.mpr ⟨hvalid, hkept⟩
        · rw [length_cons]
          omega
    · obtain ⟨kept, hsub, hkept, heq, hlength⟩ := ih calls toRequeue
      have hcount : validCount (member :: rest) = validCount rest :=
        countP_cons_of_neg (by simpa using hvalid)
      rw [refreshBatch, if_pos (not_not.mp hvalid), hcount]
      exact ⟨kept, hsub.cons member, hkept, heq, hlength⟩

/-- What has been put back joins the rest of the set. -/
theorem union_kept {members left kept : List Member} (hnodup : (members ++ left).Nodup)
    (hkept : kept.Sublist members) : left ∪ kept = left ++ kept ∧ (left ++ kept).Nodup := by
  have hdisjoint : left.Disjoint kept := fun member hleft hmem =>
    (disjoint_of_nodup_append hnodup) (hkept.subset hmem) hleft
  obtain ⟨hmembers, hleft, -⟩ := nodup_append'.mp hnodup
  exact ⟨by rw [hdisjoint.union_eq, hleft.dedup], hleft.append (hmembers.sublist hkept) hdisjoint⟩

theorem validCount_append (first second : List Member) :
    validCount (first ++ second) = validCount first + validCount second :=
  countP_append

theorem invalidCount_append (first second : List Member) :
    invalidCount (first ++ second) = invalidCount first + invalidCount second :=
  countP_append

theorem length_eq_counts (members : List Member) :
    members.length = validCount members + invalidCount members := by
  simpa [validCount, invalidCount] using
    @List.length_eq_countP_add_countP _ (fun member : Member => decide member.Valid) members

variable {round calls : ℕ} {outdated : List Member}

/-- What a round leaves in the set: the rest, and what it has put back. -/
theorem ScanRedis.afterRound_cases (redis : ScanRedis) (refresh : RefreshAnswers) (round calls : ℕ)
    (hnodup : outdated.Nodup) :
    ∃ left kept : List Member, (redis.batch round outdated ++ left).Perm outdated ∧
      (left ++ kept).Nodup ∧ validCount kept = kept.length ∧
      refreshBatch refresh (redis.batch round outdated) calls [] =
        (kept, calls + validCount (redis.batch round outdated)) ∧
      kept.length + settled refresh (calls + validCount (redis.batch round outdated)) =
        validCount (redis.batch round outdated) + settled refresh calls ∧
      redis.afterRound refresh round calls outdated =
        if redis.addFails round then left else left ++ kept := by
  have horder : redis.batch round outdated ++
      (redis.order round outdated).drop execStatusOutdateBatchSize = redis.order round outdated :=
    take_append_drop ..
  have hperm := horder ▸ redis.order_perm round outdated
  obtain ⟨kept, hsub, hkept, heq, hsettled⟩ :=
    @refreshBatch_spec refresh (redis.batch round outdated) calls []
  obtain ⟨hunion, hjoined⟩ := union_kept (hperm.nodup_iff.mpr hnodup) hsub
  rw [nil_append] at heq
  refine ⟨_, kept, hperm, hjoined, ?_, heq, hsettled, ?_⟩
  · exact countP_eq_length.mpr fun member hmem => decide_eq_true (hkept member hmem)
  · rw [ScanRedis.afterRound, heq, hunion]

/-! ## Scans that end -/

/-- Each round refreshes a member or drops one that does not parse, and once enough
refreshes have settled their members, every full batch has such a one. -/
theorem scanRounds_isSome {total enough : ℕ}
    (henough : total < execStatusOutdateBatchSize + settled refresh enough) (fuel : ℕ)
    (hnodup : outdated.Nodup) (htotal : validCount outdated + settled refresh calls ≤ total)
    (hfuel : enough - calls + invalidCount outdated < fuel) :
    (scanRounds redis refresh fuel round calls outdated).isSome := by
  induction fuel generalizing round calls outdated with
  | zero => omega
  | succ fuel ih =>
    rw [scanRounds]
    split_ifs with hpop hempty hshort
    · rfl
    · rfl
    · rfl
    · obtain ⟨left, kept, hperm, hjoined, hkept, heq, hsettled, hafter⟩ :=
        redis.afterRound_cases refresh round calls hnodup
      have hvalid : _ = validCount outdated := hperm.countP_eq _
      have hinvalid : _ = invalidCount outdated := hperm.countP_eq _
      have hbatch := length_eq_counts (redis.batch round outdated)
      have hlength := length_eq_counts kept
      have hpos : 0 < execStatusOutdateBatchSize := by decide
      rw [← validCount, validCount_append] at hvalid
      rw [← invalidCount, invalidCount_append] at hinvalid
      -- either refreshes are still to come that settle something, or a full batch has a member
      -- that does not parse and is not put back
      have hbelow : calls < enough ∨ validCount outdated < execStatusOutdateBatchSize := by
        by_cases hcalls : calls < enough
        · exact .inl hcalls
        · have hmono : settled refresh enough ≤ settled refresh calls :=
            Nat.count_monotone _ (Nat.le_of_not_lt hcalls)
          omega
      rw [hafter, heq]
      cases redis.addFails round with
      | true =>
        refine ih (hjoined.of_append_left) ?_ ?_
        · simp only [if_true]
          omega
        · simp only [if_true]
          omega
      | false =>
        refine ih hjoined ?_ ?_
        · simp only [Bool.false_eq_true, if_false, validCount_append]
          omega
        · simp only [Bool.false_eq_true, if_false, invalidCount_append]
          omega

/-! ## Scans that do not end -/

/-- Redis pops the members that parse first, and no command fails. -/
def validFirst : ScanRedis where
  order _ members := members.filter (·.Valid) ++ members.filter (¬ ·.Valid)
  order_perm _ members := by
    simpa using List.filter_append_perm (fun member : Member => decide member.Valid) members

/-- As long as there are enough members to fill a batch, the scan goes on. -/
theorem scanRounds_eq_none {total : ℕ}
    (hnever : ∀ calls, execStatusOutdateBatchSize + settled refresh calls ≤ total) (fuel : ℕ)
    (hnodup : outdated.Nodup) (htotal : validCount outdated + settled refresh calls = total) :
    scanRounds validFirst refresh fuel round calls outdated = none := by
  induction fuel generalizing round calls outdated with
  | zero => rfl
  | succ fuel ih =>
    -- the sum of valid members and settled refreshes stays, so every batch is full and valid
    have hfull : execStatusOutdateBatchSize ≤ (outdated.filter (·.Valid)).length := by
      have hcalls := hnever calls
      rw [← countP_eq_length_filter, ← validCount]
      omega
    have hbatch : validFirst.batch round outdated =
        (outdated.filter (·.Valid)).take execStatusOutdateBatchSize :=
      take_append_of_le_length hfull
    have hlength : (validFirst.batch round outdated).length = execStatusOutdateBatchSize := by
      rw [hbatch, length_take, Nat.min_eq_left hfull]
    obtain ⟨left, kept, hperm, hjoined, hkept, heq, hsettled, hafter⟩ :=
      validFirst.afterRound_cases refresh round calls hnodup
    have hvalid : _ = validCount outdated := hperm.countP_eq _
    rw [← validCount, validCount_append] at hvalid
    rw [scanRounds, if_neg (by simp [validFirst]), if_neg, if_neg (by omega), hafter, heq]
    · refine ih hjoined ?_
      show validCount (left ++ kept) + settled refresh (_ + _) = total
      rw [validCount_append]
      omega
    · intro hempty
      rw [hempty] at hlength
      exact absurd hlength (by decide)

end Batch

/-- **A scan ends for every behaviour of Redis exactly if** the members that can be
refreshed do not fill a batch, or come to that after some refreshes. -/
theorem scan_ends_iff (refresh : RefreshAnswers) (outdated : List Member)
    (hnodup : outdated.Nodup) :
    (∀ redis : ScanRedis, ∃ rounds, (scanRounds redis refresh rounds 0 0 outdated).isSome) ↔
      ∃ calls, validCount outdated < execStatusOutdateBatchSize + settled refresh calls := by
  constructor
  · intro hends
    by_contra hnever
    push Not at hnever
    obtain ⟨rounds, hrounds⟩ := hends validFirst
    rw [scanRounds_eq_none hnever rounds hnodup (by simp [settled])] at hrounds
    exact absurd hrounds (by decide)
  · rintro ⟨enough, henough⟩ redis
    exact ⟨_, scanRounds_isSome henough _ hnodup (by simp [settled]) (Nat.lt_succ_self _)⟩

/-- So many executions of one vendor type. -/
def outdatedExecutions (count : ℕ) : List Member :=
  (List.range count).map fun id : ℕ => { id, vendor := "SCAN" }

theorem nodup_outdatedExecutions (count : ℕ) : (outdatedExecutions count).Nodup :=
  nodup_range.map fun first second heq => by simpa using heq

theorem validCount_outdatedExecutions (count : ℕ) :
    validCount (outdatedExecutions count) = count := by
  have hvalid : validCount (outdatedExecutions count) = (outdatedExecutions count).length := by
    refine countP_eq_length.mpr fun member hmem => ?_
    obtain ⟨id, -, rfl⟩ := mem_map.mp hmem
    rfl
  rw [hvalid, outdatedExecutions, length_map, length_range]

/-- All refreshes fail, but there are only three members. -/
theorem scan_ends_threeExecutions : (outdatedExecutions 3).Nodup ∧
    ∀ redis : ScanRedis, ∃ rounds,
      (scanRounds redis (fun _ => .error .database) rounds 0 0 (outdatedExecutions 3)).isSome :=
  ⟨nodup_outdatedExecutions 3, (scan_ends_iff _ _ (nodup_outdatedExecutions 3)).mpr ⟨0, by decide⟩⟩

/-- The database cannot be reached and a hundred executions are outdated. -/
theorem scan_of_hundred_goes_on :
    ¬ ∀ redis : ScanRedis, ∃ rounds, (scanRounds redis (fun _ => .error .database) rounds 0 0
      (outdatedExecutions 100)).isSome := by
  intro hends
  obtain ⟨rounds, hrounds⟩ := hends validFirst
  have hnever : ∀ calls, settled (fun _ => .error .database) calls = 0 := fun calls =>
    Nat.count_of_forall_not fun _ _ => by simp [Settles]
  rw [@scanRounds_eq_none _ _ _ _ 100 (fun calls => by rw [hnever]; decide) rounds
    (nodup_outdatedExecutions 100) (by rw [hnever, validCount_outdatedExecutions])] at hrounds
  exact absurd hrounds (by decide)

end Harbor.Tasks
