import Mathlib.Data.Finset.Basic
import Mathlib.Data.Finset.Card
import Mathlib.Data.Set.Basic
import Mathlib.Data.List.Forall2
import Mathlib.Tactic

/-!
# The first item of a key

Items come in blocks, and of the items with one key only the first counts.  Which one
that is depends on the order of the blocks and of the items in them.  Some items are
marked; `exists_first_iff_holdout` says when some key counts with a marked item in
every order.

A set of keys holds out if every block that has one of its keys has one of them with
marked items only.  Then the first block that has a key of the set decides.  If no set
holds out, blocks can be put in front one after the other such that no key is left
that counts with a marked item.
-/

namespace Harbor.Data

open List

section FirstWith

variable {α κ : Type*} [DecidableEq κ] (key : α → κ)

def firstWith (items : List α) (k : κ) : Option α :=
  items.find? fun item => key item = k

variable {key} {items rest : List α} {k : κ} {item : α}

theorem firstWith_append : firstWith key (items ++ rest) k =
    (firstWith key items k).or (firstWith key rest k) :=
  find?_append

theorem firstWith_eq_none : firstWith key items k = none ↔ ∀ item ∈ items, key item ≠ k := by
  simp [firstWith]

theorem mem_of_firstWith (hfirst : firstWith key items k = some item) :
    item ∈ items ∧ key item = k :=
  ⟨mem_of_find?_eq_some hfirst, by simpa using find?_some hfirst⟩

theorem exists_firstWith (hitem : item ∈ items) (hkey : key item = k) :
    ∃ first, firstWith key items k = some first := by
  rcases hfirst : firstWith key items k with _ | first
  · exact absurd hkey (firstWith_eq_none.mp hfirst item hitem)
  · exact ⟨first, rfl⟩

end FirstWith

/-! ## Rearranging blocks -/

/-- The blocks are put in another order, after each was replaced by a related one. -/
def Rearranges {β : Type*} (R : β → β → Prop) (blocks blocks' : List β) : Prop :=
  ∃ middle, List.Forall₂ R blocks middle ∧ middle.Perm blocks'

variable {β : Type*} {R : β → β → Prop} {blocks blocks' : List β}

theorem Rearranges.refl (hrefl : ∀ block, R block block) (blocks : List β) :
    Rearranges R blocks blocks :=
  ⟨blocks, forall₂_same.mpr fun block _ => hrefl block, List.Perm.refl _⟩

theorem exists_mem_of_forall₂ (hblocks : List.Forall₂ R blocks blocks') {block' : β}
    (hblock' : block' ∈ blocks') : ∃ block ∈ blocks, R block block' := by
  induction hblocks with
  | nil => cases hblock'
  | cons hhead _ ih =>
    rcases mem_cons.mp hblock' with rfl | hblock'
    · exact ⟨_, mem_cons_self, hhead⟩
    · obtain ⟨block, hblock, hR⟩ := ih hblock'
      exact ⟨block, mem_cons_of_mem _ hblock, hR⟩

theorem Rearranges.exists_mem (h : Rearranges R blocks blocks') {block' : β}
    (hblock' : block' ∈ blocks') : ∃ block ∈ blocks, R block block' := by
  obtain ⟨middle, hmiddle, hperm⟩ := h
  exact exists_mem_of_forall₂ hmiddle (hperm.mem_iff.mpr hblock')

theorem Rearranges.ne_nil (h : Rearranges R blocks blocks') (hblocks : blocks ≠ []) :
    blocks' ≠ [] := by
  rintro rfl
  obtain ⟨middle, hmiddle, hperm⟩ := h
  rw [hperm.eq_nil] at hmiddle
  exact hblocks (forall₂_nil_right_iff.mp hmiddle)

theorem exists_rearranges_head {α : Type*} {items : β → List α} (hrefl : ∀ block, R block block)
    (harrange : ∀ block arranged, (items block).Perm arranged →
      ∃ block', R block block' ∧ items block' = arranged) {item : α}
    (hitem : item ∈ blocks.flatMap items) :
    ∃ blocks', Rearranges R blocks blocks' ∧ (blocks'.flatMap items).head? = some item := by
  obtain ⟨block, hblock, hmem⟩ := mem_flatMap.mp hitem
  obtain ⟨before, after, hitems⟩ := append_of_mem hmem
  obtain ⟨block', hR, harranged⟩ := harrange block (item :: (before ++ after))
    (by rw [hitems]; exact perm_middle)
  obtain ⟨front, back, rfl⟩ := append_of_mem hblock
  refine ⟨block' :: (front ++ back), ⟨front ++ block' :: back, ?_, perm_middle⟩, ?_⟩
  · refine rel_append ?_ (List.Forall₂.cons hR ?_) <;>
      exact forall₂_same.mpr fun other _ => hrefl other
  · rw [flatMap_cons, harranged, cons_append, head?_cons]

section Holdout

variable {α β κ : Type*} (key : α → κ) (items : β → List α) (Marked : α → Prop)

/-- Every block that has a key of the set has one of them with marked items only, and
there is such a block. -/
def Holdout (blocks : List β) (keys : Set κ) : Prop :=
  (∃ block ∈ blocks, ∃ item ∈ items block, key item ∈ keys) ∧
    ∀ block ∈ blocks, (∃ item ∈ items block, key item ∈ keys) →
      ∃ k ∈ keys, (∃ item ∈ items block, key item = k) ∧
        ∀ item ∈ items block, key item = k → Marked item

/-- In the block a marked item counts only if all items with its key are marked. -/
def MarkedLast [DecidableEq κ] (block : β) : Prop :=
  ∀ k first, firstWith key (items block) k = some first → Marked first →
    ∀ item ∈ items block, key item = k → Marked item

variable {key items Marked} {blocks blocks' : List β} {keys : Set κ}

theorem Holdout.congr (h : Holdout key items Marked blocks keys)
    (hblocks : List.Forall₂ (fun block block' => (items block).Perm (items block'))
      blocks blocks') : Holdout key items Marked blocks' keys := by
  obtain ⟨⟨block, hblock, item, hitem, hkey⟩, hholds⟩ := h
  refine ⟨?_, ?_⟩
  · obtain ⟨block', hblock', hsame⟩ := exists_mem_of_forall₂ hblocks.flip hblock
    exact ⟨block', hblock', item, hsame.mem_iff.mp hitem, hkey⟩
  · rintro block' hblock' ⟨item', hitem', hkey'⟩
    obtain ⟨block, hblock, hsame⟩ := exists_mem_of_forall₂ hblocks hblock'
    obtain ⟨k, hk, ⟨other, hother, hotherKey⟩, hmarked⟩ :=
      hholds block hblock ⟨item', hsame.mem_iff.mpr hitem', hkey'⟩
    exact ⟨k, hk, ⟨other, hsame.mem_iff.mp hother, hotherKey⟩,
      fun item hitem => hmarked item (hsame.mem_iff.mpr hitem)⟩

variable {R : β → β → Prop}

theorem Holdout.rearrange (hperm : ∀ block block', R block block' →
      (items block).Perm (items block'))
    (h : Holdout key items Marked blocks keys) (hrearranges : Rearranges R blocks blocks') :
    Holdout key items Marked blocks' keys := by
  obtain ⟨middle, hmiddle, hblocks'⟩ := hrearranges
  have hmid := h.congr (hmiddle.imp hperm)
  simpa only [Holdout, hblocks'.mem_iff] using hmid

variable [DecidableEq κ]

/-- The first block that has a key of the set decides. -/
theorem Holdout.exists_first (h : Holdout key items Marked blocks keys) :
    ∃ k ∈ keys, ∃ first, firstWith key (blocks.flatMap items) k = some first ∧ Marked first := by
  induction blocks with
  | nil =>
    obtain ⟨⟨_, hmem, _⟩, _⟩ := h
    cases hmem
  | cons block rest ih =>
    by_cases hblock : ∃ item ∈ items block, key item ∈ keys
    · obtain ⟨k, hk, ⟨item, hitem, hkey⟩, hmarked⟩ := h.2 block mem_cons_self hblock
      obtain ⟨first, hfirst⟩ := exists_firstWith hitem hkey
      obtain ⟨hmem, hfirstKey⟩ := mem_of_firstWith hfirst
      refine ⟨k, hk, first, ?_, hmarked first hmem hfirstKey⟩
      rw [flatMap_cons, firstWith_append, hfirst, Option.some_or]
    · have hrest : Holdout key items Marked rest keys := by
        obtain ⟨⟨other, hother, hkeys⟩, hholds⟩ := h
        refine ⟨⟨other, ?_, hkeys⟩, fun other hother =>
          hholds other (mem_cons_of_mem _ hother)⟩
        rcases mem_cons.mp hother with rfl | hother
        · exact absurd hkeys hblock
        · exact hother
      obtain ⟨k, hk, first, hfirst, hmarked⟩ := ih hrest
      have hnone : firstWith key (items block) k = none :=
        firstWith_eq_none.mpr fun item hitem hkey => hblock ⟨item, hitem, hkey ▸ hk⟩
      refine ⟨k, hk, first, ?_, hmarked⟩
      rw [flatMap_cons, firstWith_append, hnone, Option.none_or, hfirst]

/-- If no set holds out, the blocks can be ordered such that no key of a given finite set
counts with a marked item. -/
theorem exists_perm_unmarked (hlast : ∀ block ∈ blocks, MarkedLast key items Marked block)
    (hnone : ∀ keys, ¬ Holdout key items Marked blocks keys) (keys : Finset κ) :
    ∃ blocks', blocks.Perm blocks' ∧ ∀ k ∈ keys, ∀ first,
      firstWith key (blocks'.flatMap items) k = some first → ¬ Marked first := by
  classical
  induction keys using Finset.strongInduction with
  | _ keys ih =>
  by_cases hpresent : ∃ block ∈ blocks, ∃ item ∈ items block, key item ∈ (keys : Set κ)
  · -- a block in which every key of the set has an unmarked item goes to the front
    have hsome : ∃ block ∈ blocks, (∃ item ∈ items block, key item ∈ (keys : Set κ)) ∧
        ∀ k ∈ (keys : Set κ), (∃ item ∈ items block, key item = k) →
          ∃ item ∈ items block, key item = k ∧ ¬ Marked item := by
      by_contra! hcontra
      exact hnone keys ⟨hpresent, hcontra⟩
    obtain ⟨block, hblock, ⟨item, hitem, hkey⟩, hshadow⟩ := hsome
    have hsmaller : keys.filter (fun k => ∀ item ∈ items block, key item ≠ k) ⊂ keys := by
      refine Finset.filter_ssubset.mpr ⟨key item, by simpa using hkey, fun hall => ?_⟩
      exact hall item hitem rfl
    obtain ⟨later, hlater, hunmarked⟩ := ih _ hsmaller
    obtain ⟨before, after, rfl⟩ := append_of_mem (hlater.mem_iff.mp hblock)
    refine ⟨block :: (before ++ after), hlater.trans perm_middle, ?_⟩
    intro k hk first hfirst
    rw [flatMap_cons, firstWith_append] at hfirst
    rcases hfront : firstWith key (items block) k with _ | front
    · rw [hfront, Option.none_or] at hfirst
      refine hunmarked k ?_ first ?_
      · exact Finset.mem_filter.mpr ⟨hk, firstWith_eq_none.mp hfront⟩
      · simp only [flatMap_append, flatMap_cons, firstWith_append] at hfirst ⊢
        rw [hfront, Option.none_or, hfirst]
    · rw [hfront, Option.some_or] at hfirst
      cases hfirst
      obtain ⟨hmem, hfrontKey⟩ := mem_of_firstWith hfront
      obtain ⟨other, hother, hotherKey, hunmarkedOther⟩ := hshadow k hk ⟨_, hmem, hfrontKey⟩
      exact fun hmarked =>
        hunmarkedOther (hlast block hblock k _ hfront hmarked other hother hotherKey)
  · refine ⟨blocks, List.Perm.refl _, fun k hk first hfirst _ => hpresent ?_⟩
    obtain ⟨hmem, hkey⟩ := mem_of_firstWith hfirst
    obtain ⟨block, hblock, hitem⟩ := mem_flatMap.mp hmem
    exact ⟨block, hblock, first, hitem, by simpa [hkey] using hk⟩

/-- **Some key counts with a marked item in every order** exactly if some set of keys
holds out. -/
theorem exists_first_iff_holdout
    (hperm : ∀ block block', R block block' → (items block).Perm (items block'))
    (harrange : ∀ block arranged, (items block).Perm arranged →
      ∃ block', R block block' ∧ items block' = arranged) :
    (∀ blocks', Rearranges R blocks blocks' →
        ∃ k first, firstWith key (blocks'.flatMap items) k = some first ∧ Marked first) ↔
      ∃ keys, Holdout key items Marked blocks keys := by
  classical
  constructor
  · intro hevery
    by_contra hcontra
    have hnone : ∀ keys, ¬ Holdout key items Marked blocks keys := not_exists.mp hcontra
    -- the unmarked items of every block come first
    have hmarkedLast : ∀ block, ∃ block', R block block' ∧
        MarkedLast key items Marked block' := by
      intro block
      obtain ⟨block', hR, hitems⟩ := harrange block
        ((items block).filter (fun item => ¬ Marked item) ++ (items block).filter Marked) <| by
          have hsplit := filter_append_perm (fun item => ¬ Marked item) (items block)
          simpa using hsplit.symm
      refine ⟨block', hR, fun k first hfirst hmarked item hitem hkey => ?_⟩
      rw [hitems, firstWith_append] at hfirst
      by_contra hunmarked
      have hmem : item ∈ (items block).filter (fun item => ¬ Marked item) := by
        rw [hitems] at hitem
        rcases mem_append.mp hitem with hitem | hitem
        · exact hitem
        · exact absurd (by simpa using (mem_filter.mp hitem).2) hunmarked
      obtain ⟨front, hfront⟩ := exists_firstWith hmem hkey
      rw [hfront, Option.some_or] at hfirst
      cases hfirst
      have hfrontUnmarked := (mem_filter.mp (mem_of_firstWith hfront).1).2
      exact absurd hmarked (by simpa using hfrontUnmarked)
    choose arrange hR harranged using hmarkedLast
    have hforall : List.Forall₂ R blocks (blocks.map arrange) := by
      rw [forall₂_map_right_iff]
      exact forall₂_same.mpr fun block _ => hR block
    have hmiddle : ∀ keys, ¬ Holdout key items Marked (blocks.map arrange) keys := fun keys h =>
      hnone keys (h.congr (hforall.imp fun _ _ hR => (hperm _ _ hR).symm).flip)
    obtain ⟨blocks', hblocks', hunmarked⟩ := exists_perm_unmarked
      (fun block hblock => by
        obtain ⟨original, _, rfl⟩ := mem_map.mp hblock
        exact harranged original)
      hmiddle (((blocks.map arrange).flatMap items).map key).toFinset
    obtain ⟨k, first, hfirst, hmarked⟩ := hevery blocks' ⟨_, hforall, hblocks'⟩
    obtain ⟨hmem, hkey⟩ := mem_of_firstWith hfirst
    refine hunmarked k ?_ first hfirst hmarked
    rw [mem_toFinset, ← hkey]
    exact mem_map_of_mem ((hblocks'.flatMap_right items).mem_iff.mpr hmem)
  · rintro ⟨keys, hholdout⟩ blocks' hblocks'
    obtain ⟨k, _, first, hfirst⟩ := (hholdout.rearrange hperm hblocks').exists_first
    exact ⟨k, first, hfirst⟩

end Holdout

end Harbor.Data
