import Mathlib

/-! A shift register of the letters `0, …, m` over a commutative group: every letter moves down by
one place, and the sum of the first and the last one enters at the top. The states of a run are
the windows of one stream, whose recurrence inverts the difference of two consecutive states. -/

namespace Drain.ShiftRegister

variable {G : Type} [AddCommGroup G] (m : Nat)

def shift (x : Nat → G) : Nat → G := fun i =>
  if i < m then x (i + 1) else if i = m then x m + x 0 else 0

def unshift (x : Nat → G) : Nat → G := fun i =>
  if i = 0 then x m - x (m - 1) else if i ≤ m then x (i - 1) else 0

/-- A state of the register: nothing stands above the place `m`. -/
def Fits (x : Nat → G) : Prop := ∀ i, m < i → x i = 0

def stream (x : Nat → G) (t : Nat) : G :=
  if t ≤ m then x t else stream x (t - 1) + stream x (t - (m + 1))

variable {m} {x y : Nat → G}

theorem fits_shift (x : Nat → G) : Fits m (shift m x) := by
  intro i hi
  simp [shift, hi.not_gt, hi.ne']

theorem fits_unshift (x : Nat → G) : Fits m (unshift m x) := by
  intro i hi
  simp [unshift, hi.not_ge, ne_zero_of_lt hi]

theorem Fits.ext (hx : Fits m x) (hy : Fits m y) (h : ∀ i ≤ m, x i = y i) : x = y := by
  funext i
  rcases le_or_gt i m with hi | hi
  · exact h i hi
  · rw [hx i hi, hy i hi]

theorem Fits.sub (hx : Fits m x) (hy : Fits m y) : Fits m (x - y) := by
  intro i hi
  rw [Pi.sub_apply, hx i hi, hy i hi, sub_zero]

theorem shift_unshift (hm : 0 < m) (hx : Fits m x) : shift m (unshift m x) = x := by
  refine (fits_shift _).ext hx fun i hi => ?_
  rcases hi.lt_or_eq with hlt | rfl
  · simp [shift, unshift, hlt, Nat.succ_le_of_lt hlt]
  · simp [shift, unshift, hm.ne']

theorem unshift_shift (hm : 0 < m) (hx : Fits m x) : unshift m (shift m x) = x := by
  refine (fits_unshift _).ext hx fun i hi => ?_
  rcases Nat.eq_zero_or_pos i with rfl | hpos
  · simp [shift, unshift, Nat.sub_lt hm, Nat.sub_add_cancel hm]
  · have hlt : i - 1 < m := by omega
    simp [shift, unshift, hpos.ne', hi, hlt, Nat.sub_add_cancel hpos]

theorem shift_sub (x y : Nat → G) : shift m (x - y) = shift m x - shift m y := by
  funext i
  simp only [shift, Pi.sub_apply]
  split_ifs
  · rfl
  · exact add_sub_add_comm _ _ _ _ |>.symm
  · exact (sub_zero 0).symm

theorem iterate_shift_sub (k : Nat) (x y : Nat → G) :
    (shift m)^[k] (x - y) = (shift m)^[k] x - (shift m)^[k] y := by
  induction k generalizing x y with
  | zero => rfl
  | succ k ih => rw [Function.iterate_succ_apply, shift_sub, ih]; rfl

theorem fits_iterate_shift (hx : Fits m x) (k : Nat) : Fits m ((shift m)^[k] x) := by
  cases k with
  | zero => exact hx
  | succ k =>
    rw [Function.iterate_succ_apply']
    exact fits_shift _

theorem stream_of_le {t : Nat} (h : t ≤ m) : stream m x t = x t := by
  rw [stream, if_pos h]

theorem stream_add (t : Nat) :
    stream m x (t + (m + 1)) = stream m x (t + m) + stream m x t := by
  rw [stream, if_neg (by omega), Nat.add_sub_cancel]
  rfl

theorem iterate_shift_apply (k : Nat) {i : Nat} (hi : i ≤ m) :
    (shift m)^[k] x i = stream m x (k + i) := by
  induction k generalizing i with
  | zero => rw [zero_add, stream_of_le hi]; rfl
  | succ k ih =>
    rw [Function.iterate_succ_apply', shift]
    rcases hi.lt_or_eq with hlt | rfl
    · rw [if_pos hlt, ih hlt, add_right_comm, add_assoc]
    · rw [if_neg (lt_irrefl _), if_pos rfl, ih le_rfl, ih (Nat.zero_le _), Nat.add_zero,
        add_right_comm, add_assoc, stream_add]

theorem iterate_shift_shift_sub (hx : Fits m x) : (shift m)^[m] (shift m x - x) = x := by
  rw [iterate_shift_sub, ← Function.iterate_succ_apply]
  refine ((fits_iterate_shift hx _).sub (fits_iterate_shift hx _)).ext hx fun i hi => ?_
  rw [Pi.sub_apply, iterate_shift_apply _ hi, iterate_shift_apply _ hi, Nat.succ_eq_add_one,
    Nat.add_comm (m + 1), stream_add, Nat.add_comm i m, add_sub_cancel_left, stream_of_le hi]

theorem iterate_shift_sub_unshift (hm : 0 < m) (hx : Fits m x) :
    (shift m)^[m + 1] (x - unshift m x) = x := by
  rw [Function.iterate_succ_apply, shift_sub, shift_unshift hm hx, iterate_shift_shift_sub hx]

end Drain.ShiftRegister
