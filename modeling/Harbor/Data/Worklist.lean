import Mathlib.Algebra.BigOperators.Group.List.Basic
import Mathlib.Algebra.Order.BigOperators.Group.List
import Mathlib.Data.Finset.Card
import Mathlib.Tactic
import Harbor.Data.Loops

/-!
# Traversals with a worklist

A traversal takes the first item of a queue, remembers its key, and appends what it finds there
unless the key has been seen.  A key is seen only when an item with it is taken from the queue,
so an item may be queued, taken and looked into many times.  The traversal ends all the same:
an item of the queue weighs as much as everything that may ever be appended because of it, and
this depends only on how many keys have not been seen.  `nodup_worklist_iff` says when nothing is
taken twice, by going through the queue level by level.
-/

namespace Harbor.Data

open List

variable {α κ ε : Type*} [DecidableEq κ]

/-- The items that a traversal takes from its queue.  What is found at an item may depend on
how many have been taken; `none` ends the traversal.  `stuck` is the error of a traversal that
takes more than `fuel` items. -/
def worklist (key : α → κ) (next : ℕ → α → Except ε (Option (List α))) (stuck : ε) :
    ℕ → ℕ → List α → List κ → Except ε (List α)
  | _, _, [], _ => .ok []
  | 0, _, _ :: _, _ => .error stuck
  | fuel + 1, taken, item :: queue, seen =>
    match next taken item with
    | .error err => .error err
    | .ok none => .ok [item]
    | .ok (some found) =>
      (worklist key next stuck fuel (taken + 1)
        (queue ++ found.filter fun other => key other ∉ key item :: seen)
        (key item :: seen)).map (item :: ·)

/-- The weight of an item whose key has not been seen, when `n` keys have not, and no item
leads to more than `m` others.  An item whose key has been seen weighs `weight m (n + 1)`. -/
def weight (m : ℕ) : ℕ → ℕ
  | 0 => 0
  | n + 1 => m * weight m n + 1

theorem weight_le_succ (m n : ℕ) : weight m n ≤ weight m (n + 1) := by
  induction n with
  | zero => exact Nat.zero_le _
  | succ n ih =>
    show m * weight m n + 1 ≤ m * weight m (n + 1) + 1
    gcongr

theorem weight_mono (m : ℕ) : Monotone (weight m) := monotone_nat_of_le_succ (weight_le_succ m)

section Termination

variable (key : α → κ) (keys : Finset κ) (m : ℕ)

/-- The number of keys that have not been seen. -/
def unseen (seen : List κ) : ℕ :=
  (keys \ seen.toFinset).card

/-- The weight of an item of the queue. -/
def itemWeight (seen : List κ) (item : α) : ℕ :=
  if key item ∈ seen then weight m (unseen keys seen + 1) else weight m (unseen keys seen)

variable {key keys m} {seen : List κ} {item : α}

theorem unseen_cons_of_mem {k : κ} (hk : k ∈ seen) :
    unseen keys (k :: seen) = unseen keys seen := by
  rw [unseen, toFinset_cons, Finset.insert_eq_of_mem (mem_toFinset.mpr hk), unseen]

theorem unseen_cons_of_notMem {k : κ} (hkeys : k ∈ keys) (hk : k ∉ seen) :
    unseen keys seen = unseen keys (k :: seen) + 1 := by
  have hmem : k ∈ keys \ seen.toFinset := by simp [hkeys, hk]
  rw [unseen, unseen, toFinset_cons, Finset.sdiff_insert, Finset.card_erase_add_one hmem]

theorem itemWeight_cons_le (hkeys : key item ∈ keys) (other : α) :
    itemWeight key keys m (key item :: seen) other ≤ itemWeight key keys m seen other := by
  unfold itemWeight
  by_cases hseen : key item ∈ seen
  · have hsame : key other ∈ key item :: seen ↔ key other ∈ seen := by
      rw [mem_cons]
      exact ⟨fun h => h.elim (fun heq => heq ▸ hseen) id, .inr⟩
    simp only [unseen_cons_of_mem hseen, hsame, le_refl]
  · rw [unseen_cons_of_notMem hkeys hseen]
    by_cases hother : key other ∈ seen
    · rw [if_pos (mem_cons_of_mem _ hother), if_pos hother]
      exact weight_le_succ m _
    · rw [if_neg hother]
      split_ifs
      · exact le_rfl
      · exact weight_le_succ m _

/-- An item outweighs what is appended when it is taken. -/
theorem found_lt_itemWeight (hkeys : key item ∈ keys) {found : List α} (hfound : found.length ≤ m) :
    ((found.filter fun other => key other ∉ key item :: seen).map
      (itemWeight key keys m (key item :: seen))).sum < itemWeight key keys m seen item := by
  have hsum : ((found.filter fun other => key other ∉ key item :: seen).map
      (itemWeight key keys m (key item :: seen))).sum ≤
      m * weight m (unseen keys (key item :: seen)) := by
    refine (sum_le_card_nsmul _ (weight m (unseen keys (key item :: seen))) ?_).trans ?_
    · intro w hw
      obtain ⟨other, hother, rfl⟩ := mem_map.mp hw
      have hfresh := of_decide_eq_true (mem_filter.mp hother).2
      rw [itemWeight, if_neg hfresh]
    · rw [length_map, smul_eq_mul]
      exact Nat.mul_le_mul_right _ ((length_filter_le _ _).trans hfound)
  refine Nat.lt_of_le_of_lt hsum ?_
  unfold itemWeight
  by_cases hseen : key item ∈ seen
  · rw [if_pos hseen, unseen_cons_of_mem hseen]
    exact Nat.lt_succ_self _
  · rw [if_neg hseen, unseen_cons_of_notMem hkeys hseen]
    exact Nat.lt_succ_self _

end Termination

/-! ## What is taken -/

section Taken

variable {key : α → κ} {next : ℕ → α → Except ε (Option (List α))} {stuck : ε}
  {near : α → List α} {Item : α → Prop}

/-- **Termination.**  A traversal over items that find at most `m` others ends if it may take as
many items as its queue weighs. -/
theorem worklist_eq_ok {keys : Finset κ} {m : ℕ} (hkeys : ∀ item, Item item → key item ∈ keys)
    (hnext : ∀ taken item, Item item → ∃ found, next taken item = .ok found ∧
      ∀ others ∈ found, others.length ≤ m ∧ ∀ other ∈ others, Item other)
    (fuel taken : ℕ) (queue : List α) (seen : List κ) (hqueue : ∀ item ∈ queue, Item item)
    (hfuel : (queue.map (itemWeight key keys m seen)).sum ≤ fuel) :
    ∃ visited, worklist key next stuck fuel taken queue seen = .ok visited := by
  induction fuel generalizing taken queue seen with
  | zero =>
    cases queue with
    | nil => exact ⟨[], by simp [worklist]⟩
    | cons item queue =>
      have hitem := hkeys item (hqueue item mem_cons_self)
      have hpos : 0 < itemWeight key keys m seen item :=
        @found_lt_itemWeight _ _ _ key keys m seen item hitem [] (Nat.zero_le m)
      rw [map_cons, sum_cons] at hfuel
      omega
  | succ fuel ih =>
    cases queue with
    | nil => exact ⟨[], by simp [worklist]⟩
    | cons item queue =>
      have hitem := hqueue item mem_cons_self
      obtain ⟨found, hfound, hothers⟩ := hnext taken item hitem
      rw [worklist, hfound]
      cases found with
      | none => exact ⟨[item], rfl⟩
      | some others =>
        obtain ⟨hlength, hitems⟩ := hothers others rfl
        have hrest := ih (taken + 1)
          (queue ++ others.filter fun other => key other ∉ key item :: seen)
          (key item :: seen) ?_ ?_
        · obtain ⟨visited, hvisited⟩ := hrest
          exact ⟨item :: visited, by simp only [hvisited, Except.map]⟩
        · intro other hother
          cases mem_append.mp hother with
          | inl hmem => exact hqueue other (mem_cons_of_mem _ hmem)
          | inr hmem => exact hitems other (mem_of_mem_filter hmem)
        -- the queue weighs less: its rest gets no heavier, and `item` outweighs what it adds
        · have hlighter : (queue.map (itemWeight key keys m (key item :: seen))).sum ≤
              (queue.map (itemWeight key keys m seen)).sum :=
            sum_le_sum fun other _ => itemWeight_cons_le (hkeys item hitem) other
          have happended : ((others.filter fun other => key other ∉ key item :: seen).map
              (itemWeight key keys m (key item :: seen))).sum <
              itemWeight key keys m seen item :=
            found_lt_itemWeight (hkeys item hitem) hlength
          rw [map_cons, sum_cons] at hfuel
          rw [map_append, sum_append]
          omega

variable {fuel taken : ℕ} {queue visited : List α} {seen : List κ}

/-- Induction over a traversal that ends. -/
theorem worklist_induction {motive : List α → List κ → List α → Prop}
    (nil : ∀ seen, motive [] seen []) (stop : ∀ taken item queue seen, next taken item = .ok none →
      motive (item :: queue) seen [item])
    (step : ∀ taken item queue seen others rest, next taken item = .ok (some others) →
      motive (queue ++ others.filter fun other => key other ∉ key item :: seen)
        (key item :: seen) rest → motive (item :: queue) seen (item :: rest))
    (hok : worklist key next stuck fuel taken queue seen = .ok visited) :
    motive queue seen visited := by
  induction fuel generalizing taken queue seen visited with
  | zero => cases queue <;> cases hok; exact nil seen
  | succ fuel ih =>
    cases queue with
    | nil => cases hok; exact nil seen
    | cons item queue =>
      rw [worklist] at hok
      cases hnext : next taken item with
      | error err => rw [hnext] at hok; cases hok
      | ok found =>
        rw [hnext] at hok
        cases found with
        | none => cases hok; exact stop taken item queue seen hnext
        | some others =>
          obtain ⟨rest, hrest, rfl⟩ := map_eq_ok.mp hok
          exact step taken item queue seen others rest hnext (ih hrest)

theorem forall_mem_worklist (hnext : ∀ taken item others, Item item →
      next taken item = .ok (some others) → ∀ other ∈ others, Item other)
    (hqueue : ∀ item ∈ queue, Item item)
    (hok : worklist key next stuck fuel taken queue seen = .ok visited) :
    ∀ item ∈ visited, Item item := by
  refine worklist_induction (motive := fun queue _ visited => (∀ item ∈ queue, Item item) →
    ∀ item ∈ visited, Item item) ?_ ?_ ?_ hok hqueue
  · simp
  · intro taken item queue seen _ hqueue
    simpa using hqueue item mem_cons_self
  · intro taken item queue seen others rest hothers ih hqueue
    obtain ⟨hitem, hqueue⟩ := forall_mem_cons.mp hqueue
    refine forall_mem_cons.mpr ⟨hitem, ih fun other hother => ?_⟩
    rcases mem_append.mp hother with hother | hother
    · exact hqueue other hother
    · exact hnext taken item others hitem hothers other (mem_of_mem_filter hother)

/-- If all that is near is found at every item, the queue and everything near what is taken is
taken, up to keys that were seen before. -/
theorem worklist_complete (hfull : ∀ item ∈ visited, ∀ taken found, next taken item = .ok found →
      found = some (near item))
    (hok : worklist key next stuck fuel taken queue seen = .ok visited) :
    (∀ item ∈ queue, item ∈ visited) ∧ ∀ item ∈ visited, ∀ other ∈ near item,
      key other ∈ seen ∨ ∃ same ∈ visited, key same = key other := by
  refine worklist_induction (motive := fun queue seen visited =>
    (∀ item ∈ visited, ∀ taken found, next taken item = .ok found → found = some (near item)) →
      (∀ item ∈ queue, item ∈ visited) ∧ ∀ item ∈ visited, ∀ other ∈ near item,
        key other ∈ seen ∨ ∃ same ∈ visited, key same = key other) ?_ ?_ ?_ hok hfull
  · simp
  · intro taken item queue seen hnone hfull
    cases hfull item mem_cons_self taken _ hnone
  · intro taken item queue seen others rest hothers ih hfull
    obtain ⟨hitem, hfull⟩ := forall_mem_cons.mp hfull
    cases hitem taken _ hothers
    obtain ⟨hqueue, hnear⟩ := ih hfull
    have htaken : ∀ first ∈ item :: rest, ∀ other ∈ near first,
        key other ∈ key item :: seen ∨ ∃ same ∈ rest, key same = key other := by
      intro first hfirst other hother
      by_cases hseen : key other ∈ key item :: seen
      · exact .inl hseen
      · rcases mem_cons.mp hfirst with rfl | hfirst
        · exact .inr ⟨other, hqueue other (mem_append_right _
            (mem_filter.mpr ⟨hother, decide_eq_true hseen⟩)), rfl⟩
        · exact hnear first hfirst other hother
    refine ⟨fun other hother => ?_, fun first hfirst other hother => ?_⟩
    · rcases mem_cons.mp hother with rfl | hother
      · exact mem_cons_self
      · exact mem_cons_of_mem _ (hqueue other (mem_append_left _ hother))
    · rcases htaken first hfirst other hother with hseen | ⟨same, hsame, hkey⟩
      · rcases mem_cons.mp hseen with hkey | hseen
        · exact .inr ⟨item, mem_cons_self, hkey.symm⟩
        · exact .inl hseen
      · exact .inr ⟨same, mem_cons_of_mem _ hsame, hkey⟩

/-- If the traversal is never ended, what it takes begins with its queue. -/
theorem queue_prefix_worklist (hnext : ∀ taken item, next taken item ≠ .ok none)
    (hok : worklist key next stuck fuel taken queue seen = .ok visited) : queue <+: visited := by
  refine worklist_induction (motive := fun queue _ visited => queue <+: visited) ?_ ?_ ?_ hok
  · exact fun seen => prefix_rfl
  · exact fun taken item queue seen hnone => absurd hnone (hnext taken item)
  · intro taken item queue seen others rest _ ih
    exact cons_prefix_cons.mpr ⟨rfl, (prefix_append _ _).trans ih⟩

end Taken

/-! ## Taking nothing twice

A traversal that is never ended goes by levels: it takes the items at one distance, then what has
been found there.  An item that is found again before it is taken is taken again, so nothing is
taken twice exactly if no level has a key twice, or an item that is found at one before it. -/

section Levels

variable (key : α → κ) (found : ℕ → α → List α)

/-- What is found at some items, the first of which is taken after `taken` others. -/
def spread : ℕ → List α → List α
  | _, [] => []
  | taken, item :: rest => found taken item ++ spread (taken + 1) rest

/-- None of the items is found at one before it. -/
def NotAhead : ℕ → List α → Prop
  | _, [] => True
  | taken, item :: rest =>
    (∀ other ∈ found taken item, key other ∉ rest.map key) ∧ NotAhead (taken + 1) rest

/-- The items at one distance, with what has happened before they are taken. -/
structure Level (α κ : Type*) where
  items : List α
  taken : ℕ := 0
  seen : List κ := []

/-- The items that are found at a level and not seen until its end. -/
def Level.next (level : Level α κ) : Level α κ where
  items := (spread found level.taken level.items).filter fun other =>
    key other ∉ (level.items.map key).reverse ++ level.seen
  taken := level.taken + level.items.length
  seen := (level.items.map key).reverse ++ level.seen

def Level.Apart (level : Level α κ) : Prop :=
  (level.items.map key).Nodup ∧ NotAhead key found level.taken level.items

variable {key found}

instance decidableNotAhead : (taken : ℕ) → (items : List α) →
    Decidable (NotAhead key found taken items)
  | _, [] => .isTrue trivial
  | taken, _ :: rest =>
    have := decidableNotAhead (taken + 1) rest
    inferInstanceAs (Decidable (_ ∧ _))

instance (level : Level α κ) : Decidable (level.Apart key found) :=
  inferInstanceAs (Decidable (_ ∧ _))

theorem Level.apart_of_items_nil {level : Level α κ} (hitems : level.items = []) (n : ℕ) :
    ((Level.next key found)^[n] level).Apart key found := by
  induction n generalizing level with
  | zero => simp [Level.Apart, NotAhead, hitems]
  | succ n ih => exact ih (by simp [Level.next, spread, hitems])

variable {next : ℕ → α → Except ε (Option (List α))} {stuck : ε}
  (hnext : ∀ taken item, next taken item = .ok (some (found taken item)))
  {fuel taken : ℕ} {items later visited : List α} {seen : List κ} {level : Level α κ}

include hnext

theorem worklist_cons_eq_ok {item : α}
    (hok : worklist key next stuck fuel taken (item :: items ++ later) seen = .ok visited) :
    ∃ fuel' rest, fuel = fuel' + 1 ∧ visited = item :: rest ∧
      worklist key next stuck fuel' (taken + 1)
        (items ++ (later ++ (found taken item).filter fun other => key other ∉ key item :: seen))
        (key item :: seen) = .ok rest := by
  cases fuel with
  | zero => cases hok
  | succ fuel =>
    rw [cons_append, worklist, hnext] at hok
    obtain ⟨rest, hrest, rfl⟩ := map_eq_ok.mp hok
    rw [append_assoc] at hrest
    exact ⟨fuel, rest, rfl, rfl, hrest⟩

/-- The items of a level are taken, and then what has been found there. -/
theorem worklist_level (hahead : NotAhead key found taken items)
    (hok : worklist key next stuck fuel taken (items ++ later) seen = .ok visited) :
    ∃ fuel' rest, fuel = fuel' + items.length ∧ visited = items ++ rest ∧
      worklist key next stuck fuel' (taken + items.length)
        (later ++ (spread found taken items).filter fun other =>
          key other ∉ (items.map key).reverse ++ seen)
        ((items.map key).reverse ++ seen) = .ok rest := by
  induction items generalizing taken fuel later seen visited with
  | nil => exact ⟨fuel, visited, rfl, rfl, by simpa [spread] using hok⟩
  | cons item items ih =>
    obtain ⟨hitem, hahead⟩ := hahead
    obtain ⟨fuel, rest, rfl, rfl, hrest⟩ := worklist_cons_eq_ok hnext hok
    obtain ⟨fuel, rest, rfl, rfl, hlast⟩ := ih hahead hrest
    refine ⟨fuel, rest, rfl, rfl, ?_⟩
    -- what is found at `item` is not among the items that are taken after it
    have hfilter : ((found taken item).filter fun other => key other ∉ key item :: seen) =
        (found taken item).filter fun other =>
          key other ∉ (items.map key).reverse ++ key item :: seen := by
      refine filter_congr fun other hother => ?_
      have hother := hitem other hother
      simp_all
    rw [hfilter, append_assoc, ← filter_append] at hlast
    rw [map_cons, reverse_cons, append_assoc, singleton_append, spread, length_cons,
      Nat.add_comm items.length, ← Nat.add_assoc]
    exact hlast

theorem notAhead_of_nodup (hfresh : ∀ item ∈ items, key item ∉ seen)
    (hok : worklist key next stuck fuel taken (items ++ later) seen = .ok visited)
    (hnodup : (visited.map key).Nodup) : NotAhead key found taken items := by
  induction items generalizing taken fuel later seen visited with
  | nil => trivial
  | cons item items ih =>
    obtain ⟨fuel, rest, rfl, rfl, hrest⟩ := worklist_cons_eq_ok hnext hok
    obtain ⟨hitem, hnodup⟩ := nodup_cons.mp hnodup
    have hqueue := (queue_prefix_worklist (by simp [hnext]) hrest).sublist.map key
    rw [map_append, map_append] at hqueue
    have hlater : ∀ other ∈ items, key other ∉ key item :: seen := by
      intro other hother
      refine not_mem_cons_of_ne_of_not_mem (fun heq => hitem ?_)
        (hfresh other (mem_cons_of_mem _ hother))
      exact heq ▸ hqueue.subset (mem_append_left _ (mem_map_of_mem hother))
    refine ⟨fun other hother hmem => ?_, ih hlater hrest hnodup⟩
    -- an item that is found before it is taken is in the queue twice
    obtain ⟨same, hsame, hkey⟩ := mem_map.mp hmem
    refine (nodup_append.mp (hnodup.sublist hqueue)).2.2 _ hmem _ (mem_append_right _ ?_) rfl
    exact mem_map_of_mem (mem_filter.mpr ⟨hother, decide_eq_true (hkey ▸ hlater same hsame)⟩)

theorem Level.notAhead (hfresh : ∀ item ∈ level.items, key item ∉ level.seen)
    (hok : worklist key next stuck fuel level.taken level.items level.seen = .ok visited)
    (hnodup : (visited.map key).Nodup) : NotAhead key found level.taken level.items :=
  @notAhead_of_nodup _ _ _ _ _ _ _ stuck hnext _ _ _ [] _ _ hfresh (by simpa using hok) hnodup

omit hnext in
theorem Level.next_fresh : ∀ item ∈ (level.next key found).items,
    key item ∉ (level.next key found).seen :=
  fun _ hitem => of_decide_eq_true (mem_filter.mp hitem).2

theorem Level.worklist_next (hahead : NotAhead key found level.taken level.items)
    (hok : worklist key next stuck fuel level.taken level.items level.seen = .ok visited) :
    ∃ fuel' rest, fuel = fuel' + level.items.length ∧ visited = level.items ++ rest ∧
      worklist key next stuck fuel' (level.next key found).taken (level.next key found).items
        (level.next key found).seen = .ok rest :=
  @worklist_level _ _ _ _ _ _ _ stuck hnext _ _ _ [] _ _ hahead (by simpa using hok)

theorem apart_of_nodup_worklist (hfresh : ∀ item ∈ level.items, key item ∉ level.seen)
    (hok : worklist key next stuck fuel level.taken level.items level.seen = .ok visited)
    (hnodup : (visited.map key).Nodup) (n : ℕ) :
    ((Level.next key found)^[n] level).Apart key found := by
  induction n generalizing level fuel visited with
  | zero =>
    have hqueue := (queue_prefix_worklist (by simp [hnext]) hok).sublist.map key
    exact ⟨hnodup.sublist hqueue, Level.notAhead hnext hfresh hok hnodup⟩
  | succ n ih =>
    obtain ⟨fuel, rest, -, rfl, hrest⟩ := Level.worklist_next hnext
      (Level.notAhead hnext hfresh hok hnodup) hok
    rw [map_append] at hnodup
    exact ih Level.next_fresh hrest (nodup_append.mp hnodup).2.1

theorem nodup_worklist_of_apart (hfresh : ∀ item ∈ level.items, key item ∉ level.seen)
    (hok : worklist key next stuck fuel level.taken level.items level.seen = .ok visited)
    (hapart : ∀ n, ((Level.next key found)^[n] level).Apart key found) :
    (visited.map key).Nodup ∧ ∀ item ∈ visited, key item ∉ level.seen := by
  induction fuel using Nat.strong_induction_on generalizing level visited with
  | _ fuel ih =>
    obtain ⟨hitems, hahead⟩ := hapart 0
    obtain ⟨fuel', rest, rfl, rfl, hrest⟩ := Level.worklist_next hnext hahead hok
    by_cases hempty : level.items = []
    · have hnone : rest = [] := by
        simpa [Level.next, hempty, spread, worklist, eq_comm] using hrest
      simp [hempty, hnone]
    · obtain ⟨hnodup, hseen⟩ := ih fuel' (by simpa [length_pos_iff] using hempty) Level.next_fresh
        hrest fun n => hapart (n + 1)
      simp only [Level.next, mem_append, mem_reverse, not_or] at hseen
      refine ⟨?_, forall_mem_append.mpr ⟨hfresh, fun item hitem => (hseen item hitem).2⟩⟩
      rw [map_append]
      refine hitems.append hnodup fun k hk hrest => ?_
      obtain ⟨item, hitem, rfl⟩ := mem_map.mp hrest
      exact (hseen item hitem).1 hk

/-- **Nothing is taken twice** exactly if every level is apart. -/
theorem nodup_worklist_iff {root : α}
    (hok : worklist key next stuck fuel 0 [root] [] = .ok visited) :
    (visited.map key).Nodup ↔
      ∀ n, ((Level.next key found)^[n] { items := [root] }).Apart key found :=
  ⟨apart_of_nodup_worklist hnext (by simp) hok,
    fun hapart => (nodup_worklist_of_apart hnext (by simp) hok hapart).1⟩

end Levels

end Harbor.Data
