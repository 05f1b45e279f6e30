import Mathlib.Data.Finset.Card
import Mathlib.Logic.Relation

/-!
# Ranks of finite relations

A relation without cycles whose edges end in a finite set has a rank that falls along every
edge: the number of points that can be reached.
-/

namespace Harbor.Data

open Relation

variable {α : Type*} {r : α → α → Prop}

/-- No point can be reached from itself. -/
def Acyclic (r : α → α → Prop) : Prop :=
  ∀ a, ¬ TransGen r a a

theorem acyclic_of_rank (rank : α → ℕ) (hrank : ∀ a b, r a b → rank b < rank a) : Acyclic r := by
  have hfalls : ∀ a b, TransGen r a b → rank b < rank a := by
    intro a b hpath
    induction hpath with
    | single hstep => exact hrank _ _ hstep
    | tail _ hstep ih => exact Nat.lt_trans (hrank _ _ hstep) ih
  exact fun a hcycle => Nat.lt_irrefl _ (hfalls a a hcycle)

theorem exists_rank (hacyclic : Acyclic r) (nodes : Finset α) (hnodes : ∀ a b, r a b → b ∈ nodes) :
    ∃ rank : α → ℕ, (∀ a b, r a b → rank b < rank a) ∧ ∀ a, rank a ≤ nodes.card := by
  classical
  refine ⟨fun a => (nodes.filter (TransGen r a)).card, ?_, fun a => Finset.card_filter_le _ _⟩
  intro a b hstep
  -- what `b` reaches, `a` reaches too, and `a` reaches `b` besides
  refine Finset.card_lt_card (Finset.ssubset_iff_of_subset ?_ |>.mpr ⟨b, ?_, ?_⟩)
  · intro c hc
    obtain ⟨hmem, hpath⟩ := Finset.mem_filter.mp hc
    exact Finset.mem_filter.mpr ⟨hmem, .head hstep hpath⟩
  · exact Finset.mem_filter.mpr ⟨hnodes a b hstep, .single hstep⟩
  · exact fun hmem => hacyclic b (Finset.mem_filter.mp hmem).2

end Harbor.Data
