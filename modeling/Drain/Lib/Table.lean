import Mathlib

/-! Tables with two indices, the update of one of their entries, and what a loop
does that visits the entries of one column one after the other. -/

namespace Drain

open Function

variable {α β γ : Type*}

section Update

variable [DecidableEq α] [DecidableEq β]

def setEntry (m : α → β → γ) (a : α) (b : β) (v : γ) : α → β → γ :=
  update m a (update (m a) b v)

section

variable (m : α → β → γ)
include m

theorem setEntry_apply (a : α) (b : β) (v : γ) (a' : α) (b' : β) :
    setEntry m a b v a' b' = if a' = a ∧ b' = b then v else m a' b' := by
  unfold setEntry
  by_cases ha : a' = a
  · subst ha
    by_cases hb : b' = b
    · subst hb
      simp
    · simp [hb]
  · simp [ha]

@[simp] theorem setEntry_self (a : α) (b : β) (v : γ) :
    setEntry m a b v a b = v := by simp [setEntry]

@[simp] theorem setEntry_eq_self (a : α) (b : β) :
    setEntry m a b (m a b) = m := by simp [setEntry]

@[simp] theorem setEntry_setEntry (a : α) (b : β) (v w : γ) :
    setEntry (setEntry m a b v) a b w = setEntry m a b w := by simp [setEntry]

theorem setEntry_of_ne {a a' : α} {b b' : β} (v : γ)
    (h : ¬(a' = a ∧ b' = b)) : setEntry m a b v a' b' = m a' b' := by
  rw [setEntry_apply, if_neg h]

theorem setEntry_row (a : α) (b : β) (v : γ) :
    setEntry m a b v a = update (m a) b v := update_self _ _ _

theorem setEntry_row_of_ne {a a' : α} (h : a' ≠ a) (b : β) (v : γ) :
    setEntry m a b v a' = m a' := update_of_ne h _ _

end

theorem forall_setEntry {m : α → β → γ} {a : α} {b : β} {w : γ} {P : α → β → γ → Prop}
    (hm : ∀ a b, P a b (m a b)) (hw : P a b w) : ∀ a' b', P a' b' (setEntry m a b w a' b') := by
  intro a' b'
  rw [setEntry_apply]
  split
  · next h => rwa [h.1, h.2]
  · exact hm a' b'

end Update

section Sweep

/-- The entries `k 0, …, k (n - 1)` of column `b` have been updated as `R` says,
and nothing else. -/
structure Swept (k : Nat → α) (b : β) (n : Nat) (R : Nat → γ → γ → Prop) (m₀ m : α → β → γ) : Prop where
  done : ∀ i < n, R i (m₀ (k i) b) (m (k i) b)
  rest : ∀ a b', (b' = b → ∀ i < n, a ≠ k i) → m a b' = m₀ a b'

variable {k : Nat → α} {b : β} {n : Nat} {R : Nat → γ → γ → Prop} {m₀ m m' : α → β → γ}

theorem Swept.zero : Swept k b 0 R m m :=
  ⟨fun _ hi => absurd hi (Nat.not_lt_zero _), fun _ _ _ => rfl⟩

theorem Swept.next_eq (h : Swept k b n R m₀ m) (hinj : ∀ i < n, k i ≠ k n) :
    m (k n) b = m₀ (k n) b :=
  h.rest _ _ fun _ i hi => (hinj i hi).symm

theorem Swept.succ (h : Swept k b n R m₀ m) (hinj : ∀ i < n, k i ≠ k n)
    (hv : R n (m (k n) b) (m' (k n) b))
    (hrest : ∀ a b', ¬(a = k n ∧ b' = b) → m' a b' = m a b') : Swept k b (n + 1) R m₀ m' := by
  constructor
  · intro i hi
    rcases Nat.lt_succ_iff_lt_or_eq.mp hi with hlt | rfl
    · rw [hrest _ _ fun hc => hinj i hlt hc.1]
      exact h.done i hlt
    · rwa [h.next_eq hinj] at hv
  · intro a b' hne
    rw [hrest _ _ fun hc => hne hc.2 n (Nat.lt_succ_self n) hc.1]
    exact h.rest a b' fun hb i hi => hne hb i (Nat.lt_succ_of_lt hi)

end Sweep

end Drain
