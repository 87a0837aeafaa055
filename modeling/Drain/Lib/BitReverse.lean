import Mathlib

/-! Reversal of the low bits of a number by shifting them out of one word and into another. -/

namespace Drain

/-- One shift: the next bit of the first word is appended to the second. -/
def shiftBit (w : Nat × Nat) : Nat × Nat :=
  let straight := w.1 >>> 1
  (straight, (w.2 <<< 1) ||| (straight &&& 1))

/-- The low `k + 1` bits of `n`, reversed. -/
def reverseBits (k n : Nat) : Nat := ((shiftBit^[k]) (n, n &&& 1)).2

section Reverse

variable {k n i : Nat}

theorem shiftBit_snd (w : Nat × Nat) : (shiftBit w).2 = (w.2 <<< 1) ||| ((w.1 >>> 1) &&& 1) := rfl

theorem shiftBit_iterate_fst (k : Nat) (w : Nat × Nat) : ((shiftBit^[k]) w).1 = w.1 >>> k := by
  induction k with
  | zero => rfl
  | succ k ih =>
    rw [Function.iterate_succ_apply', Nat.shiftRight_succ, ← ih]
    exact Nat.shiftRight_one _

theorem testBit_reverseBits : (reverseBits k n).testBit i = (decide (i ≤ k) && n.testBit (k - i)) := by
  induction k generalizing i with
  | zero =>
    cases i with
    | zero => simp [reverseBits]
    | succ i => simp [reverseBits, Nat.testBit_succ, Nat.div_eq_of_lt (Nat.mod_lt n Nat.two_pos)]
  | succ k ih =>
    -- bit 0 is the bit that came in last, the others moved up
    have hstep : reverseBits (k + 1) n = (reverseBits k n <<< 1) ||| ((n >>> (k + 1)) &&& 1) := by
      unfold reverseBits
      rw [Function.iterate_succ_apply', shiftBit_snd, shiftBit_iterate_fst, Nat.shiftRight_add]
    rw [hstep]
    cases i with
    | zero => simp
    | succ i =>
      have hhigh : ((n >>> (k + 1)) &&& 1).testBit (i + 1) = false := by
        simp [Nat.testBit_succ, Nat.div_eq_of_lt (Nat.mod_lt _ Nat.two_pos)]
      rw [Nat.testBit_or, hhigh, Nat.testBit_shiftLeft, Bool.or_false, Nat.add_sub_cancel, ih]
      simp

theorem reverseBits_lt (k n : Nat) : reverseBits k n < 2 ^ (k + 1) := by
  refine Nat.lt_pow_two_of_testBit _ fun i hi => ?_
  rw [testBit_reverseBits, decide_eq_false (by omega), Bool.false_and]

theorem reverseBits_reverseBits (h : n < 2 ^ (k + 1)) : reverseBits k (reverseBits k n) = n := by
  refine Nat.eq_of_testBit_eq fun i => ?_
  by_cases hi : i ≤ k
  · rw [testBit_reverseBits, testBit_reverseBits, Nat.sub_sub_self hi]
    simp [hi]
  · have hhigh : n.testBit i = false :=
      Nat.testBit_lt_two_pow (h.trans_le (Nat.pow_le_pow_right Nat.two_pos (by omega)))
    rw [testBit_reverseBits, hhigh, decide_eq_false hi, Bool.false_and]

end Reverse

end Drain
