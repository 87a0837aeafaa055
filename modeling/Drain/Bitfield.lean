import Drain.RubyTypes

/-! Fields of 64-bit words (`base/bitfield.hh`). -/

namespace Drain.Bitfield

open Nat

def mask (nbits : Nat) : Addr :=
  if nbits = 64 then BitVec.allOnes 64 else (1#64 <<< nbits) - 1#64

def bits (val : Addr) (first last : Nat) : Addr := (val >>> last) &&& mask (first - last + 1)

def mbits (val : Addr) (first last : Nat) : Addr := val &&& (mask (first + 1) &&& ~~~mask last)

def insertBits (val : Addr) (first last : Nat) (bitVal : BitVec 8) : Addr :=
  let bmask := mask (first - last + 1) <<< last
  ((bitVal.setWidth 64 <<< last) &&& bmask) ||| (val &&& ~~~bmask)

variable {nbits first last i j : Nat}

theorem getLsbD_mask (h : nbits ≤ 64) (i : Nat) : (mask nbits).getLsbD i = decide (i < nbits) := by
  unfold mask
  split
  · next heq => rw [BitVec.getLsbD_allOnes, heq]
  · next hne =>
    have hlt : nbits < 64 := lt_of_le_of_ne h hne
    have hpow : 2 ^ nbits < 2 ^ 64 := Nat.pow_lt_pow_right (by decide) hlt
    have hone : (1#64 <<< nbits).toNat = 2 ^ nbits := by
      rw [BitVec.toNat_shiftLeft, shiftLeft_eq, BitVec.toNat_one (by decide), one_mul]
      exact mod_eq_of_lt hpow
    have hle : 1#64 ≤ 1#64 <<< nbits := by
      rw [BitVec.le_def, hone]
      exact Nat.two_pow_pos _
    rw [BitVec.getLsbD, BitVec.toNat_sub_of_le hle, hone, BitVec.toNat_one (by decide),
      testBit_two_pow_sub_one]

theorem getLsbD_bits (h : first - last < 64) (val : Addr) (i : Nat) :
    (bits val first last).getLsbD i = (decide (i ≤ first - last) && val.getLsbD (last + i)) := by
  rw [bits, BitVec.getLsbD_and, BitVec.getLsbD_ushiftRight, getLsbD_mask (by omega),
    Bool.and_comm]
  exact congrArg (· && _) (by simp [Nat.lt_succ_iff])

theorem getLsbD_bits_byte (val : Addr) (first i : Nat) :
    ((bits val first first).setWidth 8).getLsbD i = (decide (i = 0) && val.getLsbD first) := by
  rw [BitVec.getLsbD_setWidth, getLsbD_bits (by omega), Nat.sub_self]
  rcases Nat.eq_zero_or_pos i with rfl | hi
  · simp
  · simp [hi.ne']

theorem getLsbD_insertBits (hfirst : first < 64) (val : Addr) (bitVal : BitVec 8) (i : Nat) :
    (insertBits val first first bitVal).getLsbD i =
      if i = first then bitVal.getLsbD 0 else val.getLsbD i := by
  have hmask : (mask (first - first + 1) <<< first).getLsbD i = decide (i = first) := by
    rw [BitVec.getLsbD_shiftLeft, getLsbD_mask (by omega)]
    rcases lt_trichotomy i first with hi | rfl | hi
    · simp [hi, hi.ne]
    · simp [hfirst]
    · have : ¬ i - first < 1 := by omega
      simp [hi.ne', this]
  have hlt : i = first → i < 64 := fun h => h ▸ hfirst
  rw [insertBits, BitVec.getLsbD_or, BitVec.getLsbD_and, BitVec.getLsbD_and, BitVec.getLsbD_not,
    hmask]
  by_cases hi : i = first
  · subst hi
    simp [hfirst]
  · by_cases h64 : i < 64
    · simp [hi, h64]
    · simp [hi, h64, BitVec.getLsbD_of_ge _ _ (not_lt.mp h64)]

theorem getLsbD_one_shift {w : Nat} (hi : i < w) : (1#w <<< i).getLsbD j = decide (i = j) := by
  rw [BitVec.getLsbD_shiftLeft, BitVec.getLsbD_one]
  by_cases hij : i = j
  · simp [hij, hij ▸ hi, zero_lt_of_lt hi]
  · simp only [hij, decide_false]
    grind

theorem shift_and_ne_zero {w : Nat} {m : BitVec w} (hi : i < w) :
    1#w <<< i &&& m ≠ 0 ↔ m.getLsbD i = true := by
  constructor
  · intro hne
    by_contra hbit
    rw [Bool.not_eq_true] at hbit
    apply hne
    apply BitVec.eq_of_getLsbD_eq
    intro j hj
    rw [BitVec.getLsbD_and, getLsbD_one_shift hi]
    by_cases hij : i = j
    · simp [← hij, hbit]
    · simp [hij]
  · intro hbit hzero
    have := congrArg (·.getLsbD i) hzero
    simp [getLsbD_one_shift hi, hbit] at this

end Drain.Bitfield
