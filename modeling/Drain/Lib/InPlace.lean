import Mathlib

/-! Loops that overwrite the places of a table one after the other. When no iteration reads a place
that an earlier one has written, each written place holds what its iteration computes from the
table before the loop. -/

namespace Drain

open Function

variable {α ι M : Type} [DecidableEq ι]

def overwrite (target : α → ι) (value : (ι → M) → α → M) (l : List α) (d : ι → M) : ι → M :=
  l.foldl (fun d a => update d (target a) (value d a)) d

variable {target : α → ι} {value : (ι → M) → α → M} {l : List α} {d : ι → M}

theorem overwrite_of_notMem {j : ι} (h : ∀ a ∈ l, target a ≠ j) :
    overwrite target value l d j = d j := by
  induction l generalizing d with
  | nil => rfl
  | cons a l ih =>
    rw [List.forall_mem_cons] at h
    exact (ih h.2).trans (update_of_ne h.1.symm _ _)

/-- Every iteration writes a new place and reads none that was written before. -/
def ReadsUnwritten (target : α → ι) (value : (ι → M) → α → M) (l : List α) : Prop :=
  l.Pairwise fun a b =>
    target a ≠ target b ∧ ∀ d x, value (update d (target a) x) b = value d b

theorem overwrite_of_mem (h : ReadsUnwritten target value l) {a : α} (ha : a ∈ l) :
    overwrite target value l d (target a) = value d a := by
  induction l generalizing d with
  | nil => exact nomatch ha
  | cons b l ih =>
    obtain ⟨hb, hl⟩ := List.pairwise_cons.mp h
    rcases List.mem_cons.mp ha with rfl | ha
    · exact (overwrite_of_notMem fun c hc => (hb c hc).1.symm).trans (update_self _ _ _)
    · exact (ih hl ha).trans ((hb a ha).2 d _)

end Drain
