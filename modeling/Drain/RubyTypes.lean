import Mathlib

/-! What the components of the memory system share: physical addresses with their cache lines of a
power of two of bytes, the types of requests, and what a port answers to them. -/

namespace Drain

open BitVec

abbrev Addr := BitVec 64

def addressWidth : Nat := 64

def maskLowOrderBits (addr : Addr) (number : Nat) : Addr :=
  let mask : Addr := if addressWidth - 1 ≤ number then allOnes 64
    else allOnes 64 <<< number
  addr &&& mask

def bitSelect (addr : Addr) (small big : Nat) : Addr :=
  if addressWidth - 1 ≤ big then addr >>> small
  else (addr &&& ~~~(allOnes 64 <<< (big + 1))) >>> small

/-- `RubySystem::getBlockSizeBytes`, for lines of `2 ^ bits` bytes. -/
def blockSizeBytes (bits : Nat) : BitVec 32 := 1#32 <<< bits

def makeLineAddress (bits : Nat) (addr : Addr) : Addr := maskLowOrderBits addr bits

/-- The product is one of 32-bit unsigned numbers, which is then widened. -/
def makeNextStrideAddress (bits : Nat) (addr : Addr) (stride : BitVec 32) : Addr :=
  maskLowOrderBits addr bits + (blockSizeBytes bits * stride).setWidth 64

inductive RubyRequestType where
  | LD
  | ST
  | ATOMIC
  | IFETCH
  | Load_Linked
  | Store_Conditional
  | RMW_Read
  | RMW_Write
  | Locked_RMW_Read
  | Locked_RMW_Write
  | FLUSH
  deriving DecidableEq

inductive RequestStatus where
  | Ready | Issued | BufferFull | Aliased
  deriving DecidableEq

theorem maskLowOrderBits_idem (addr : Addr) (number : Nat) :
    maskLowOrderBits (maskLowOrderBits addr number) number = maskLowOrderBits addr number := by
  unfold maskLowOrderBits
  rw [BitVec.and_assoc, BitVec.and_self]

@[simp] theorem makeLineAddress_idem (bits : Nat) (addr : Addr) :
    makeLineAddress bits (makeLineAddress bits addr) = makeLineAddress bits addr :=
  maskLowOrderBits_idem addr bits

theorem and_not_shiftLeft (addr : Addr) (n : Nat) :
    addr &&& ~~~(allOnes 64 <<< n) = (addr.setWidth n).setWidth 64 := by
  ext i hi
  simp only [getElem_and, getElem_not, getElem_shiftLeft,
    getElem_allOnes, getElem_setWidth, getLsbD_setWidth]
  by_cases h : i < n
  · simp [h, getLsbD_eq_getElem hi]
  · simp [h]

theorem bitSelect_lt (addr : Addr) (small : Nat) {k : Nat} (hk : 0 < k) :
    (bitSelect addr small (small + k - 1)).toNat < 2 ^ k := by
  have hsplit : ∀ n, n < 2 ^ (small + k) → n >>> small < 2 ^ k := by
    intro n hn
    rw [Nat.shiftRight_eq_div_pow]
    exact Nat.div_lt_of_lt_mul (by rwa [← Nat.pow_add])
  unfold bitSelect
  split
  · next hbig =>
    rw [toNat_ushiftRight]
    refine hsplit _ (addr.isLt.trans_le (Nat.pow_le_pow_right (by decide) ?_))
    unfold addressWidth at hbig
    omega
  · rw [and_not_shiftLeft, toNat_ushiftRight, toNat_setWidth, toNat_setWidth,
      Nat.sub_add_cancel (by omega)]
    exact hsplit _ ((Nat.mod_le _ _).trans_lt (Nat.mod_lt _ (Nat.two_pow_pos _)))

variable {a b : Addr} {bits : Nat}

theorem maskLowOrderBits_toNat (a : Addr) (h : bits < 63) :
    (maskLowOrderBits a bits).toNat = a.toNat / 2 ^ bits * 2 ^ bits := by
  have hshift : a &&& (allOnes 64 <<< bits) = (a >>> bits) <<< bits := by
    ext i hi
    simp only [getElem_and, getElem_shiftLeft, getElem_allOnes,
      getElem_ushiftRight]
    by_cases hlow : i < bits
    · simp [hlow]
    · simp [hlow, Nat.add_sub_cancel' (not_lt.mp hlow), getLsbD_eq_getElem hi]
  have hle : a.toNat / 2 ^ bits * 2 ^ bits ≤ a.toNat := Nat.div_mul_le_self _ _
  unfold maskLowOrderBits addressWidth
  rw [if_neg (by omega), hshift, toNat_shiftLeft, toNat_ushiftRight,
    Nat.shiftLeft_eq, Nat.shiftRight_eq_div_pow]
  exact Nat.mod_eq_of_lt (hle.trans_lt a.isLt)

theorem maskLowOrderBits_eq_self (h : bits < 63) :
    maskLowOrderBits a bits = a ↔ 2 ^ bits ∣ a.toNat := by
  rw [← toNat_inj, maskLowOrderBits_toNat a h]
  exact ⟨fun heq => ⟨a.toNat / 2 ^ bits, by rw [mul_comm]; exact heq.symm⟩,
    fun hdvd => Nat.div_mul_cancel hdvd⟩

theorem maskLowOrderBits_of_line (h : makeLineAddress bits a = b) : maskLowOrderBits b bits = b := by
  rw [← h]
  exact makeLineAddress_idem bits a

theorem blockSizeBytes_toNat (hbits : bits < 32) : (blockSizeBytes bits).toNat = 2 ^ bits := by
  have hpow : 2 ^ bits < 2 ^ 32 := Nat.pow_lt_pow_right (by decide) hbits
  rw [blockSizeBytes, toNat_shiftLeft, Nat.shiftLeft_eq]
  simpa using hpow

theorem dvd_toNat_add (h : bits ≤ 64) (ha : 2 ^ bits ∣ a.toNat) (hb : 2 ^ bits ∣ b.toNat) :
    2 ^ bits ∣ (a + b).toNat := by
  rw [toNat_add]
  exact (Nat.dvd_mod_iff (Nat.pow_dvd_pow 2 h)).mpr (Nat.dvd_add ha hb)

end Drain
