import Mathlib

/-! Weighted walks in a complete digraph and the matrix of their least weights. -/

namespace Drain

variable {ι M : Type*} [AddCommMonoid M] {W D : ι → ι → M} {S : Set ι} {i j k : ι} {w w' : M}

/-- `Walk W S i j w`: some walk of at least one step inside `S` leads from `i`
to `j` and has total weight `w`. -/
inductive Walk (W : ι → ι → M) (S : Set ι) : ι → ι → M → Prop
  | edge {i j : ι} : i ∈ S → j ∈ S → Walk W S i j (W i j)
  | cons {i k j : ι} {w : M} : i ∈ S → Walk W S k j w → Walk W S i j (W i k + w)

theorem Walk.left_mem (h : Walk W S i j w) : i ∈ S := by
  cases h with
  | edge hi _ => exact hi
  | cons hi _ => exact hi

theorem Walk.right_mem (h : Walk W S i j w) : j ∈ S := by
  induction h with
  | edge _ hj => exact hj
  | cons _ _ ih => exact ih

theorem Walk.append (h : Walk W S i k w) (h' : Walk W S k j w') : Walk W S i j (w + w') := by
  induction h with
  | edge hi _ => exact .cons hi h'
  | cons hi _ ih =>
    rw [add_assoc]
    exact .cons hi (ih h')

variable [PartialOrder M] [IsOrderedAddMonoid M]

/-- What an all-pairs shortest path loop establishes when nothing changes any more. -/
structure IsClosure (W : ι → ι → M) (S : Set ι) (D : ι → ι → M) : Prop where
  walk : ∀ i ∈ S, ∀ j ∈ S, Walk W S i j (D i j)
  le_weight : ∀ i ∈ S, ∀ j ∈ S, D i j ≤ W i j
  triangle : ∀ i ∈ S, ∀ j ∈ S, ∀ k ∈ S, D i j ≤ D i k + D k j

namespace IsClosure

theorem le_walk (h : IsClosure W S D) (hw : Walk W S i j w) : D i j ≤ w := by
  induction hw with
  | edge hi hj => exact h.le_weight _ hi _ hj
  | @cons i k j w hi hk ih =>
    calc D i j ≤ D i k + D k j := h.triangle i hi j hk.right_mem k hk.left_mem
      _ ≤ W i k + w := add_le_add (h.le_weight i hi k hk.left_mem) ih

theorem le_of_potential (h : IsClosure W S D) {f : ι → M}
    (hf : ∀ i ∈ S, ∀ k ∈ S, f i ≤ W i k + f k) (hi : i ∈ S) (hj : j ∈ S) : f i ≤ D i j + f j := by
  have hwalk : ∀ {i j w}, Walk W S i j w → f i ≤ w + f j := by
    intro i j w hw
    induction hw with
    | @edge i j hi hj => exact hf i hi j hj
    | @cons i k j w hi hk ih =>
      calc f i ≤ W i k + f k := hf i hi k hk.left_mem
        _ ≤ W i k + (w + f j) := add_le_add le_rfl ih
        _ = W i k + w + f j := (add_assoc _ _ _).symm
  exact hwalk (h.walk i hi j hj)

end IsClosure

end Drain
