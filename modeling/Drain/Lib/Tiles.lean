import Mathlib

/-! Pieces that are laid out one after the other from position 0. `fits n a` is what a piece `a`
that starts at position `n` has to satisfy. -/

namespace Drain

variable {α : Type} {len : α → Nat} {fits fits' : Nat → α → Prop} {n : Nat} {l : List α}

inductive Tiles (len : α → Nat) (fits : Nat → α → Prop) : Nat → List α → Prop
  | nil : Tiles len fits 0 []
  | snoc {n : Nat} {l : List α} {a : α} (h : Tiles len fits n l) (ha : fits n a) :
      Tiles len fits (n + len a) (l ++ [a])

theorem Tiles.imp (h : Tiles len fits n l)
    (hfits : ∀ m a, m + len a ≤ n → fits m a → fits' m a) : Tiles len fits' n l := by
  induction h with
  | nil => exact .nil
  | snoc h ha ih =>
    exact (ih fun m a hle hm => hfits m a (by omega) hm).snoc (hfits _ _ (Nat.le_refl _) ha)

theorem Tiles.length_le (h : Tiles len fits n l) (hpos : ∀ m a, fits m a → 0 < len a) :
    l.length ≤ n := by
  induction h with
  | nil => exact Nat.le_refl 0
  | snoc h ha ih =>
    have := hpos _ _ ha
    rw [List.length_append, List.length_singleton]
    omega

end Drain
