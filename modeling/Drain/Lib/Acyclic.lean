import Mathlib

/-! Relations that increase a rank have no cycle and no closed finite set. -/

namespace Drain

variable {α β : Type*} {r : α → α → Prop} {rank : α → β}

theorem rank_lt_of_transGen [Preorder β] (h : ∀ a b, r a b → rank a < rank b) {a b : α}
    (hab : Relation.TransGen r a b) : rank a < rank b := by
  induction hab with
  | single h₁ => exact h _ _ h₁
  | tail _ h₁ ih => exact ih.trans (h _ _ h₁)

theorem not_transGen_self [Preorder β] (h : ∀ a b, r a b → rank a < rank b) (a : α) :
    ¬Relation.TransGen r a a :=
  fun ha => lt_irrefl _ (rank_lt_of_transGen h ha)

theorem exists_terminal [LinearOrder β] (h : ∀ a b, r a b → rank a < rank b) (S : Finset α)
    (hS : S.Nonempty) : ∃ a ∈ S, ∀ b ∈ S, ¬r a b := by
  obtain ⟨a, ha, hmax⟩ := S.exists_max_image rank hS
  exact ⟨a, ha, fun b hb hr => absurd (hmax b hb) (not_le_of_gt (h a b hr))⟩

end Drain
