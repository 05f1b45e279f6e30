import Mathlib.Data.List.Basic

/-!
# Loops that may fail

A loop over a list whose body may fail is `List.foldlM` in `Except`.  The rules below say what
holds after a loop that succeeds, and compare it with the loop whose body cannot fail.
-/

namespace Harbor.Data

open List

variable {σ α ε : Type*} {body : σ → α → Except ε σ} {s final : σ} {items : List α} {β γ : Type*}
  {x : Except ε β} {c : γ} {f : σ → α → σ}

theorem bind_eq_ok {f : β → Except ε γ} : x.bind f = .ok c ↔ ∃ b, x = .ok b ∧ f b = .ok c := by
  cases x with
  | error e | ok b => simp [Except.bind]

theorem map_eq_ok {f : β → γ} : x.map f = .ok c ↔ ∃ b, x = .ok b ∧ f b = c := by
  cases x with
  | error e | ok b => simp [Except.map]

theorem foldlM_nil_eq_ok : [].foldlM body s = .ok final ↔ s = final := by
  exact ⟨fun h => Except.ok.inj h, fun h => congrArg _ h⟩

theorem foldlM_cons_eq_ok {item : α} {rest : List α} :
    (item :: rest).foldlM body s = .ok final ↔
      ∃ next, body s item = .ok next ∧ rest.foldlM body next = .ok final := by
  exact bind_eq_ok

/-- **Invariant rule.**  What every round keeps, the loop keeps. -/
theorem foldlM_invariant (Inv : σ → Prop)
    (hround : ∀ item ∈ items, ∀ s next, Inv s → body s item = .ok next → Inv next)
    (hs : Inv s) (hloop : items.foldlM body s = .ok final) : Inv final := by
  induction items generalizing s with
  | nil =>
    obtain rfl := foldlM_nil_eq_ok.mp hloop
    exact hs
  | cons item rest ih =>
    obtain ⟨next, hnext, hrest⟩ := foldlM_cons_eq_ok.mp hloop
    exact ih (fun other hother => hround other (mem_cons_of_mem _ hother))
      (hround item mem_cons_self s next hs hnext) hrest

/-- **Coverage rule.**  What the round of an item establishes for it and no round destroys
holds of every item after the loop. -/
theorem foldlM_forall_mem (Inv : σ → Prop) (Done : α → σ → Prop)
    (hround : ∀ item ∈ items, ∀ s next, Inv s → body s item = .ok next →
      Inv next ∧ Done item next ∧ ∀ other ∈ items, Done other s → Done other next)
    (hs : Inv s) (hloop : items.foldlM body s = .ok final) : ∀ item ∈ items, Done item final := by
  induction items generalizing s with
  | nil => simp
  | cons item rest ih =>
    obtain ⟨next, hnext, hrest⟩ := foldlM_cons_eq_ok.mp hloop
    obtain ⟨hinv, hdone, -⟩ := hround item mem_cons_self s next hs hnext
    have hrounds : ∀ other ∈ rest, ∀ s next, Inv s → body s other = .ok next →
        Inv next ∧ Done other next ∧ ∀ later ∈ rest, Done later s → Done later next := by
      intro other hother s next hs hnext
      obtain ⟨hinv, hdone, hkeep⟩ := hround other (mem_cons_of_mem _ hother) s next hs hnext
      exact ⟨hinv, hdone, fun later hlater => hkeep later (mem_cons_of_mem _ hlater)⟩
    intro other hother
    cases mem_cons.mp hother with
    | inr hmem => exact ih hrounds hinv hrest other hmem
    | inl heq =>
      -- the rest of the loop keeps what the first round has established
      subst heq
      refine (foldlM_invariant (fun s => Inv s ∧ Done other s) ?_ ⟨hinv, hdone⟩ hrest).2
      intro later hlater s next hs hnext
      obtain ⟨hinv, -, hkeep⟩ := hround later (mem_cons_of_mem _ hlater) s next hs.1 hnext
      exact ⟨hinv, hkeep other mem_cons_self hs.2⟩

/-- Before every round of a loop whose body cannot fail, `P` holds of the state, the item and
the items that are still to come. -/
def Along (f : σ → α → σ) (P : σ → α → List α → Prop) : σ → List α → Prop
  | _, [] => True
  | s, item :: rest => P s item rest ∧ Along f P (f s item) rest

instance instDecidableAlong {f : σ → α → σ} {P : σ → α → List α → Prop}
    [∀ s item rest, Decidable (P s item rest)] :
    ∀ (s : σ) (items : List α), Decidable (Along f P s items)
  | _, [] => .isTrue trivial
  | s, item :: rest =>
    have := instDecidableAlong (f := f) (P := P) (f s item) rest
    inferInstanceAs (Decidable (P s item rest ∧ Along f P (f s item) rest))

/-- If every round needs its item to be present and no round makes items present, all items are
present before a loop that succeeds. -/
theorem present_of_foldlM {Present : σ → α → Prop} (Good : σ → Prop)
    (hgood : ∀ item ∈ items, ∀ s next, Good s → body s item = .ok next → Good next)
    (hpresent : ∀ item ∈ items, ∀ s next, Good s → body s item = .ok next → Present s item)
    (hpersist : ∀ item ∈ items, ∀ s next, Good s → body s item = .ok next →
      ∀ other ∈ items, Present next other → Present s other)
    (hs : Good s) (hloop : items.foldlM body s = .ok final) : ∀ item ∈ items, Present s item := by
  induction items generalizing s with
  | nil => simp
  | cons item rest ih =>
    obtain ⟨next, hnext, hrest⟩ := foldlM_cons_eq_ok.mp hloop
    intro other hother
    cases mem_cons.mp hother with
    | inl heq =>
      rw [heq]
      exact hpresent item mem_cons_self s next hs hnext
    | inr hmem =>
      refine hpersist item mem_cons_self s next hs hnext other hother ?_
      exact ih (fun other h => hgood other (mem_cons_of_mem _ h))
        (fun other h => hpresent other (mem_cons_of_mem _ h))
        (fun other h s next hs hnext later hlater =>
          hpersist other (mem_cons_of_mem _ h) s next hs hnext later (mem_cons_of_mem _ hlater))
        (hgood item mem_cons_self s next hs hnext) hrest other hmem

/-- **Comparison rule.**  A body that fails on items that are not present, and otherwise agrees
with `f` under `C`, makes the loop succeed exactly if `C` holds before every round and no round
removes an item that is still to come. -/
theorem foldlM_eq_ok_iff_along (Good : σ → Prop) (C Present : σ → α → Prop)
    (hround : ∀ item ∈ items, ∀ s, Good s → Present s item →
      ∀ next, body s item = .ok next ↔ C s item ∧ f s item = next)
    (hgood : ∀ item ∈ items, ∀ s next, Good s → body s item = .ok next → Good next)
    (hpresent : ∀ item ∈ items, ∀ s next, Good s → body s item = .ok next → Present s item)
    (hpersist : ∀ item ∈ items, ∀ s next, Good s → body s item = .ok next →
      ∀ other ∈ items, Present next other → Present s other) (hs : Good s)
    (hall : ∀ item ∈ items, Present s item) :
    items.foldlM body s = .ok final ↔
      Along f (fun s item rest => C s item ∧ ∀ other ∈ rest, Present (f s item) other) s items ∧
        items.foldl f s = final := by
  induction items generalizing s with
  | nil =>
    rw [foldlM_nil_eq_ok]
    simp [Along]
  | cons item rest ih =>
    have hgood' := fun other h => hgood other (mem_cons_of_mem item h)
    have hpresent' := fun other h => hpresent other (mem_cons_of_mem item h)
    have hpersist' : ∀ other ∈ rest, ∀ s next, Good s → body s other = .ok next →
        ∀ later ∈ rest, Present next later → Present s later :=
      fun other h s next hs hnext later hlater => hpersist other (mem_cons_of_mem _ h) s
        next hs hnext later (mem_cons_of_mem _ hlater)
    have htail := fun hs => ih (s := f s item)
      (fun other h => hround other (mem_cons_of_mem _ h)) hgood' hpresent' hpersist' hs
    have hfirst := hround item mem_cons_self s hs (hall item mem_cons_self)
    rw [foldlM_cons_eq_ok, Along, foldl_cons]
    constructor
    · rintro ⟨next, hnext, hrest⟩
      obtain ⟨hC, rfl⟩ := (hfirst next).mp hnext
      have hmid := hgood item mem_cons_self s _ hs hnext
      have hlater := present_of_foldlM Good hgood' hpresent' hpersist' hmid hrest
      obtain ⟨halong, hfold⟩ := (htail hmid hlater).mp hrest
      exact ⟨⟨⟨hC, hlater⟩, halong⟩, hfold⟩
    · rintro ⟨⟨⟨hC, hlater⟩, halong⟩, hfold⟩
      have hnext := (hfirst _).mpr ⟨hC, rfl⟩
      have hmid := hgood item mem_cons_self s _ hs hnext
      exact ⟨f s item, hnext, (htail hmid hlater).mpr ⟨halong, hfold⟩⟩

/-- What holds of the state and the items that are still to come holds at the end of the loop. -/
theorem foldlM_invariant_rest (Good : σ → List α → Prop)
    (hgood : ∀ s item rest next, Good s (item :: rest) → body s item = .ok next → Good next rest)
    (hs : Good s items) (hloop : items.foldlM body s = .ok final) : Good final [] := by
  induction items generalizing s with
  | nil =>
    obtain rfl := foldlM_nil_eq_ok.mp hloop
    exact hs
  | cons item rest ih =>
    obtain ⟨next, hnext, hrest⟩ := foldlM_cons_eq_ok.mp hloop
    exact ih (hgood s item rest next hs hnext) hrest

/-- **Comparison rule** for a body that agrees with `f` under `C` as long as an invariant of the
state and the remaining items holds. -/
theorem foldlM_eq_ok_iff_along_rest (Good : σ → List α → Prop) (C : σ → α → Prop)
    (hround : ∀ s item rest, Good s (item :: rest) →
      ∀ next, body s item = .ok next ↔ C s item ∧ f s item = next)
    (hgood : ∀ s item rest next, Good s (item :: rest) → body s item = .ok next → Good next rest)
    (hs : Good s items) :
    items.foldlM body s = .ok final ↔
      Along f (fun s item _ => C s item) s items ∧ items.foldl f s = final := by
  induction items generalizing s with
  | nil =>
    rw [foldlM_nil_eq_ok]
    simp [Along]
  | cons item rest ih =>
    have hfirst := hround s item rest hs
    rw [foldlM_cons_eq_ok, Along, foldl_cons]
    constructor
    · rintro ⟨next, hnext, hrest⟩
      obtain ⟨hC, rfl⟩ := (hfirst next).mp hnext
      obtain ⟨halong, hfold⟩ := (ih (hgood s item rest _ hs hnext)).mp hrest
      exact ⟨⟨hC, halong⟩, hfold⟩
    · rintro ⟨⟨hC, halong⟩, hfold⟩
      have hnext := (hfirst _).mpr ⟨hC, rfl⟩
      exact ⟨f s item, hnext, (ih (hgood s item rest _ hs hnext)).mpr ⟨halong, hfold⟩⟩

end Harbor.Data
