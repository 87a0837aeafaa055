import Drain.Bitfield
import Drain.Lib.ShiftRegister

/-! The indexing policy of skewed associative caches (`skewed_associative.cc`): each way has its
own function from addresses to sets, and the address of a block is computed back from its tag, its
set and its way. The hash is a shift register over the bits of a set. -/

namespace Drain

open Bitfield ShiftRegister

structure ReplaceableEntry where
  set : BitVec 32
  way : Nat
  deriving DecidableEq

structure SkewedAssociative where
  numSets : Nat
  setShift : Nat
  isPowerOf2 : 2 ^ numSets.log2 = numSets
  two_lt_numSets : 2 < numSets
  numSets_lt : numSets < 2 ^ 32
  shift_le : setShift + 2 * numSets.log2 ≤ 64

namespace SkewedAssociative

variable (p : SkewedAssociative)

def msbShift : Nat := p.numSets.log2 - 1

def setMask : BitVec 32 := BitVec.ofNat 32 (p.numSets - 1)

def tagShift : Nat := p.setShift + p.numSets.log2

def numSkewingFunctions : Nat := 8

def hash (addr : Addr) : Addr :=
  let lsb : BitVec 8 := (bits addr 0 0).setWidth 8
  let msb : BitVec 8 := (bits addr p.msbShift p.msbShift).setWidth 8
  let xorBit := msb ^^^ lsb
  insertBits (addr >>> 1) p.msbShift p.msbShift xorBit

def dehash (addr : Addr) : Addr :=
  let msb : BitVec 8 := (bits addr (p.msbShift - 1) (p.msbShift - 1)).setWidth 8
  let xorBit : BitVec 8 := (bits addr p.msbShift p.msbShift).setWidth 8
  let lsb := msb ^^^ xorBit
  let addrNoMsb := mbits addr (p.msbShift - 1) 0
  insertBits (addrNoMsb <<< 1) 0 0 lsb

def addr1 (addr : Addr) : Addr := bits addr p.msbShift 0

def addr2 (addr : Addr) : Addr := bits addr (2 * (p.msbShift + 1) - 1) (p.msbShift + 1)

def selector (way : Nat) : Fin 8 := ⟨way % numSkewingFunctions, Nat.mod_lt _ (by decide)⟩

def skewingFunction (f : Fin 8) (a₁ a₂ : Addr) : Addr :=
  match f with
  | 0 => p.hash a₁ ^^^ p.hash a₂ ^^^ a₂
  | 1 => p.hash a₁ ^^^ p.hash a₂ ^^^ a₁
  | 2 => p.hash a₁ ^^^ p.dehash a₂ ^^^ a₂
  | 3 => p.hash a₁ ^^^ p.dehash a₂ ^^^ a₁
  | 4 => p.dehash a₁ ^^^ p.hash a₂ ^^^ a₂
  | 5 => p.dehash a₁ ^^^ p.hash a₂ ^^^ a₁
  | 6 => p.dehash a₁ ^^^ p.dehash a₂ ^^^ a₂
  | 7 => p.dehash a₁ ^^^ p.dehash a₂ ^^^ a₁

def skew (addr : Addr) (way : Nat) : Addr :=
  p.hash^[way / numSkewingFunctions]
    (p.skewingFunction (selector way) (p.addr1 addr) (p.addr2 addr))

def deskewingFunction (f : Fin 8) (a₁ a₂ : Addr) : Addr :=
  match f with
  | 0 => p.dehash (a₁ ^^^ p.hash a₂ ^^^ a₂)
  | 1 => p.hash^[p.msbShift] (a₁ ^^^ p.hash a₂)
  | 2 => p.dehash (a₁ ^^^ p.dehash a₂ ^^^ a₂)
  | 3 => p.hash^[p.msbShift] (a₁ ^^^ p.dehash a₂)
  | 4 => p.hash (a₁ ^^^ p.hash a₂ ^^^ a₂)
  | 5 => p.hash^[p.msbShift + 1] (a₁ ^^^ p.hash a₂)
  | 6 => p.hash (a₁ ^^^ p.dehash a₂ ^^^ a₂)
  | 7 => p.hash^[p.msbShift + 1] (a₁ ^^^ p.dehash a₂)

def deskew (addr : Addr) (way : Nat) : Addr :=
  let a₁ := if numSkewingFunctions ≤ way then
    p.dehash^[way / numSkewingFunctions] (p.addr1 addr) else p.addr1 addr
  p.deskewingFunction (selector way) a₁ (p.addr2 addr)

def extractTag (addr : Addr) : Addr := addr >>> p.tagShift

def extractSet (addr : Addr) (way : Nat) : BitVec 32 :=
  (p.skew (addr >>> p.setShift) way &&& p.setMask.setWidth 64).setWidth 32

def regenerateAddr (tag : Addr) (entry : ReplaceableEntry) : Addr :=
  let addrSet := (tag <<< (p.msbShift + 1)) ||| entry.set.setWidth 64
  (tag <<< p.tagShift) |||
    ((p.deskew addrSet entry.way &&& p.setMask.setWidth 64) <<< p.setShift)

variable {p} {x y t : Addr} {way : Nat}

theorem two_le_log2 : 2 ≤ p.numSets.log2 := by
  by_contra h
  have hle : 2 ^ p.numSets.log2 ≤ 2 ^ 1 := Nat.pow_le_pow_right (by decide) (by omega)
  have hlt := p.two_lt_numSets
  rw [p.isPowerOf2] at hle
  omega

theorem log2_lt : p.numSets.log2 < 32 := by
  refine (Nat.pow_lt_pow_iff_right (by decide : 1 < 2)).mp ?_
  rw [p.isPowerOf2]
  exact p.numSets_lt

theorem msbShift_add_one : p.msbShift + 1 = p.numSets.log2 := by
  have := two_le_log2 (p := p)
  unfold msbShift
  omega

theorem msbShift_pos : 0 < p.msbShift := by
  have := two_le_log2 (p := p)
  have := msbShift_add_one (p := p)
  omega

theorem msbShift_lt : p.msbShift < 31 := by
  have := log2_lt (p := p)
  have := msbShift_add_one (p := p)
  omega

def SetWord (p : SkewedAssociative) (x : Addr) : Prop := ShiftRegister.Fits p.msbShift x.getLsbD

theorem setWord_iff : p.SetWord x ↔ x.toNat < p.numSets := by
  rw [← p.isPowerOf2, ← msbShift_add_one]
  constructor
  · intro h
    exact Nat.lt_pow_two_of_testBit _ fun i hi => h i hi
  · intro h i hi
    exact Nat.testBit_lt_two_pow (h.trans_le (Nat.pow_le_pow_right (by decide) hi))

theorem SetWord.ext (h : x.getLsbD = y.getLsbD) : x = y :=
  BitVec.eq_of_getLsbD_eq fun i _ => congrFun h i

theorem getLsbD_xor (x y : Addr) : (x ^^^ y).getLsbD = x.getLsbD - y.getLsbD := by
  funext i
  exact BitVec.getLsbD_xor

theorem SetWord.xor (hx : p.SetWord x) (hy : p.SetWord y) : p.SetWord (x ^^^ y) := by
  unfold SetWord
  rw [getLsbD_xor]
  exact ShiftRegister.Fits.sub hx hy

theorem getLsbD_hash (hx : p.SetWord x) :
    (p.hash x).getLsbD = shift p.msbShift x.getLsbD := by
  have hm := msbShift_lt (p := p)
  funext i
  rw [hash, getLsbD_insertBits (by omega), BitVec.getLsbD_xor, getLsbD_bits_byte,
    getLsbD_bits_byte, BitVec.getLsbD_ushiftRight, shift]
  rcases lt_trichotomy i p.msbShift with hi | rfl | hi
  · simp [hi, hi.ne, add_comm]
  · rw [if_pos rfl, if_neg (lt_irrefl _), if_pos rfl]
    rfl
  · rw [if_neg hi.ne', if_neg hi.not_gt, if_neg hi.ne']
    exact hx _ (by omega)

theorem getLsbD_dehash (x : Addr) :
    (p.dehash x).getLsbD = unshift p.msbShift x.getLsbD := by
  have hm := msbShift_lt (p := p)
  have hpos := msbShift_pos (p := p)
  funext i
  rw [dehash, getLsbD_insertBits (by decide), BitVec.getLsbD_xor, getLsbD_bits_byte,
    getLsbD_bits_byte, BitVec.getLsbD_shiftLeft, mbits, BitVec.getLsbD_and, BitVec.getLsbD_and,
    getLsbD_mask (by omega), BitVec.getLsbD_not, getLsbD_mask (by decide), unshift]
  rcases eq_zero_or_pos i with rfl | hi
  · rw [if_pos rfl, if_pos rfl]
    exact Bool.xor_comm _ _
  · rw [if_neg hi.ne', if_neg hi.ne']
    by_cases hle : i ≤ p.msbShift
    · have : i - 1 < p.msbShift - 1 + 1 := by omega
      have : i < 64 := by omega
      have : i - 1 < 64 := by omega
      simp [*]
      omega
    · have : ¬ i - 1 < p.msbShift - 1 + 1 := by omega
      simp [*]
      rfl

theorem SetWord.hash (hx : p.SetWord x) : p.SetWord (p.hash x) := by
  unfold SetWord
  rw [getLsbD_hash hx]
  exact fits_shift _

theorem setWord_dehash (x : Addr) : p.SetWord (p.dehash x) := by
  unfold SetWord
  rw [getLsbD_dehash x]
  exact fits_unshift _

section

variable (hx : p.SetWord x)
include hx

theorem getLsbD_iterate_hash (k : Nat) :
    (p.hash^[k] x).getLsbD = (shift p.msbShift)^[k] x.getLsbD := by
  induction k generalizing x with
  | zero => rfl
  | succ k ih =>
    rw [Function.iterate_succ_apply, ih hx.hash, getLsbD_hash hx, ← Function.iterate_succ_apply]

theorem SetWord.iterate_hash (k : Nat) : p.SetWord (p.hash^[k] x) := by
  unfold SetWord
  rw [getLsbD_iterate_hash hx]
  exact fits_iterate_shift hx k

theorem hash_dehash : p.hash (p.dehash x) = x := by
  refine SetWord.ext ?_
  rw [getLsbD_hash (setWord_dehash x), getLsbD_dehash x]
  exact shift_unshift msbShift_pos hx

theorem dehash_hash : p.dehash (p.hash x) = x := by
  refine SetWord.ext ?_
  rw [getLsbD_dehash, getLsbD_hash hx]
  exact unshift_shift msbShift_pos hx

theorem iterate_dehash_iterate_hash (k : Nat) :
    p.dehash^[k] (p.hash^[k] x) = x := by
  induction k with
  | zero => rfl
  | succ k ih =>
    rw [Function.iterate_succ_apply, Function.iterate_succ_apply', dehash_hash (hx.iterate_hash k),
      ih]

theorem iterate_hash_hash_xor : p.hash^[p.msbShift] (p.hash x ^^^ x) = x := by
  refine SetWord.ext ?_
  rw [getLsbD_iterate_hash (hx.hash.xor hx), getLsbD_xor, getLsbD_hash hx]
  exact iterate_shift_shift_sub hx

theorem iterate_hash_dehash_xor :
    p.hash^[p.msbShift + 1] (p.dehash x ^^^ x) = x := by
  refine SetWord.ext ?_
  rw [BitVec.xor_comm, getLsbD_iterate_hash (hx.xor (setWord_dehash x)), getLsbD_xor,
    getLsbD_dehash]
  exact iterate_shift_sub_unshift msbShift_pos hx

end

theorem getLsbD_addr1 (x : Addr) (i : Nat) :
    (p.addr1 x).getLsbD i = (decide (i ≤ p.msbShift) && x.getLsbD i) := by
  have hm := msbShift_lt (p := p)
  rw [addr1, getLsbD_bits (by omega), Nat.zero_add, Nat.sub_zero]

theorem getLsbD_addr2 (x : Addr) (i : Nat) :
    (p.addr2 x).getLsbD i = (decide (i ≤ p.msbShift) && x.getLsbD (p.msbShift + 1 + i)) := by
  have hm := msbShift_lt (p := p)
  have hwidth : 2 * (p.msbShift + 1) - 1 - (p.msbShift + 1) = p.msbShift := by omega
  rw [addr2, getLsbD_bits (by omega), hwidth]

theorem setWord_addr1 (x : Addr) : p.SetWord (p.addr1 x) := by
  intro i hi
  rw [getLsbD_addr1, decide_eq_false hi.not_ge]
  rfl

theorem setWord_addr2 (x : Addr) : p.SetWord (p.addr2 x) := by
  intro i hi
  rw [getLsbD_addr2, decide_eq_false hi.not_ge]
  rfl

def join (p : SkewedAssociative) (tag set : Addr) : Addr := (tag <<< (p.msbShift + 1)) ||| set

theorem getLsbD_join (tag set : Addr) {i : Nat} (hi : i < 64) :
    (p.join tag set).getLsbD i =
      ((!decide (i ≤ p.msbShift) && tag.getLsbD (i - (p.msbShift + 1))) || set.getLsbD i) := by
  rw [join, BitVec.getLsbD_or, BitVec.getLsbD_shiftLeft]
  simp [hi, Nat.lt_succ_iff]

theorem addr1_join (hx : p.SetWord x) : p.addr1 (p.join t x) = x := by
  have hm := msbShift_lt (p := p)
  refine BitVec.eq_of_getLsbD_eq fun i hi => ?_
  rw [getLsbD_addr1, getLsbD_join _ _ hi]
  by_cases h : i ≤ p.msbShift
  · simp [h]
  · simp [h, hx i (not_le.mp h)]
    rfl

theorem addr2_join (hx : p.SetWord x) (hy : p.SetWord y) :
    p.addr2 (p.join t x) = p.addr2 (p.join t y) := by
  have hm := msbShift_lt (p := p)
  refine BitVec.eq_of_getLsbD_eq fun i _ => ?_
  rw [getLsbD_addr2, getLsbD_addr2]
  by_cases h : i ≤ p.msbShift
  · rw [getLsbD_join _ _ (by omega), getLsbD_join _ _ (by omega), hx _ (by omega),
      hy _ (by omega)]
  · simp [h]

theorem setWord_skewingFunction (f : Fin 8) (hx : p.SetWord x) (hy : p.SetWord y) :
    p.SetWord (p.skewingFunction f x y) := by
  have hdx := setWord_dehash (p := p) x
  have hdy := setWord_dehash (p := p) y
  match f with
  | 0 => exact (hx.hash.xor hy.hash).xor hy
  | 1 => exact (hx.hash.xor hy.hash).xor hx
  | 2 => exact (hx.hash.xor hdy).xor hy
  | 3 => exact (hx.hash.xor hdy).xor hx
  | 4 => exact (hdx.xor hy.hash).xor hy
  | 5 => exact (hdx.xor hy.hash).xor hx
  | 6 => exact (hdx.xor hdy).xor hy
  | 7 => exact (hdx.xor hdy).xor hx

theorem setWord_skew (addr : Addr) (way : Nat) : p.SetWord (p.skew addr way) :=
  (setWord_skewingFunction _ (setWord_addr1 _) (setWord_addr2 _)).iterate_hash _

theorem xor_cancel_middle (a b c : Addr) : a ^^^ b ^^^ c ^^^ b = a ^^^ c := by
  rw [BitVec.xor_assoc a b c, BitVec.xor_comm b c, BitVec.xor_assoc, BitVec.xor_assoc,
    BitVec.xor_self, BitVec.xor_zero]

theorem xor_cancel_pair (a b c : Addr) : a ^^^ b ^^^ c ^^^ b ^^^ c = a := by
  rw [xor_cancel_middle, BitVec.xor_assoc, BitVec.xor_self, BitVec.xor_zero]

theorem deskewingFunction_skewingFunction (f : Fin 8) (hx : p.SetWord x) :
    p.deskewingFunction f (p.skewingFunction f x y) y = x := by
  match f with
  | 0 | 2 =>
    dsimp only [skewingFunction, deskewingFunction]
    rw [xor_cancel_pair, dehash_hash hx]
  | 4 | 6 =>
    dsimp only [skewingFunction, deskewingFunction]
    rw [xor_cancel_pair, hash_dehash hx]
  | 1 | 3 =>
    dsimp only [skewingFunction, deskewingFunction]
    rw [xor_cancel_middle, iterate_hash_hash_xor hx]
  | 5 | 7 =>
    dsimp only [skewingFunction, deskewingFunction]
    rw [xor_cancel_middle, iterate_hash_dehash_xor hx]

theorem deskew_join (hx : p.SetWord x) :
    p.deskew (p.join t (p.hash^[way / numSkewingFunctions] x)) way =
      p.deskewingFunction (selector way) x (p.addr2 (p.join t x)) := by
  have hfit := hx.iterate_hash (way / numSkewingFunctions)
  unfold deskew
  rw [addr1_join hfit, addr2_join hfit hx]
  split
  · rw [iterate_dehash_iterate_hash hx]
  · next h =>
    rw [Nat.div_eq_of_lt (not_le.mp h)]
    rfl

theorem deskew_skew (hx : p.SetWord x) :
    p.deskew (p.join t (p.skew (p.join t x) way)) way = x := by
  have hskewed := setWord_skewingFunction (selector way) hx (setWord_addr2 (p := p) (p.join t x))
  unfold skew
  rw [addr1_join hx, deskew_join hskewed, addr2_join hskewed hx,
    deskewingFunction_skewingFunction _ hx]

theorem shiftRight_eq_join (addr : Addr) :
    addr >>> p.setShift = p.join (p.extractTag addr) (p.addr1 (addr >>> p.setShift)) := by
  have hlog := msbShift_add_one (p := p)
  refine BitVec.eq_of_getLsbD_eq fun i hi => ?_
  rw [getLsbD_join _ _ hi, getLsbD_addr1, extractTag, BitVec.getLsbD_ushiftRight,
    BitVec.getLsbD_ushiftRight]
  by_cases h : i ≤ p.msbShift
  · simp [h]
  · have hindex : p.tagShift + (i - (p.msbShift + 1)) = p.setShift + i := by
      unfold tagShift
      omega
    simp [h, hindex]

theorem and_setMask (hx : p.SetWord x) : x &&& p.setMask.setWidth 64 = x := by
  have hlt := p.numSets_lt
  have hpow : p.numSets - 1 < 2 ^ 32 := by omega
  have hlog := msbShift_add_one (p := p)
  refine BitVec.eq_of_getLsbD_eq fun i hi => ?_
  rw [BitVec.getLsbD_and, BitVec.getLsbD_setWidth, setMask, BitVec.getLsbD_ofNat,
    ← p.isPowerOf2, Nat.testBit_two_pow_sub_one, ← hlog]
  by_cases h : i ≤ p.msbShift
  · have hm := msbShift_lt (p := p)
    have : i < 32 := by omega
    simp [hi, this, Nat.lt_succ_of_le h]
  · rw [hx i (not_le.mp h)]
    rfl

theorem extractSet_setWidth (addr : Addr) (way : Nat) :
    (p.extractSet addr way).setWidth 64 = p.skew (addr >>> p.setShift) way := by
  have hskew := setWord_skew (p := p) (addr >>> p.setShift) way
  have hlt := (setWord_iff.mp hskew).trans p.numSets_lt
  rw [extractSet, and_setMask hskew]
  refine BitVec.eq_of_toNat_eq ?_
  rw [BitVec.toNat_setWidth, BitVec.toNat_setWidth, Nat.mod_eq_of_lt hlt,
    Nat.mod_eq_of_lt (hlt.trans (by decide))]

theorem regenerateAddr_extract (addr : Addr) (way : Nat) :
    p.regenerateAddr (p.extractTag addr) ⟨p.extractSet addr way, way⟩ =
      addr &&& ~~~mask p.setShift := by
  have hlog := msbShift_add_one (p := p)
  have hshift := p.shift_le
  have htwo := two_le_log2 (p := p)
  have hset : p.deskew (p.join (p.extractTag addr) ((p.extractSet addr way).setWidth 64)) way =
      p.addr1 (addr >>> p.setShift) := by
    rw [extractSet_setWidth]
    nth_rewrite 1 [shiftRight_eq_join addr]
    exact deskew_skew (setWord_addr1 _)
  unfold regenerateAddr
  change (p.extractTag addr <<< p.tagShift) ||| ((p.deskew (p.join _ _) way &&& _) <<< _) = _
  rw [hset, and_setMask (setWord_addr1 _)]
  refine BitVec.eq_of_getLsbD_eq fun i hi => ?_
  rw [BitVec.getLsbD_or, BitVec.getLsbD_shiftLeft, BitVec.getLsbD_shiftLeft, getLsbD_addr1,
    BitVec.getLsbD_ushiftRight, extractTag, BitVec.getLsbD_ushiftRight, BitVec.getLsbD_and,
    BitVec.getLsbD_not, getLsbD_mask (by omega)]
  unfold tagShift
  -- the offset, the set and the tag
  rcases lt_or_ge i p.setShift with hoffset | hoffset
  · have : i < p.setShift + p.numSets.log2 := by omega
    simp [hoffset, this]
  rcases lt_or_ge i (p.setShift + p.numSets.log2) with hi' | hi'
  · have : i - p.setShift ≤ p.msbShift := by omega
    simp [hi, hi', this, hoffset.not_gt, Nat.add_sub_cancel' hoffset]
  · have : ¬ i - p.setShift ≤ p.msbShift := by omega
    simp [hi, hi'.not_gt, this, hoffset.not_gt, Nat.add_sub_cancel' hi']

def sets (p : SkewedAssociative) : Set Addr := {set | set.toNat < p.numSets}

theorem skew_leftInvOn (t : Addr) (way : Nat) :
    Set.LeftInvOn (fun set => p.deskew (p.join t set) way) (fun set => p.skew (p.join t set) way)
      p.sets :=
  fun _ hset => deskew_skew (setWord_iff.mpr hset)

/-- `regenerateAddr` finds the address of a block from its tag, set and way, since the skewing
function of a way permutes the sets of each tag. -/
theorem skewed_regenerates (p : SkewedAssociative) (way : Nat) :
    (∀ addr, p.regenerateAddr (p.extractTag addr) ⟨p.extractSet addr way, way⟩ =
      addr &&& ~~~mask p.setShift) ∧
    ∀ tag, Set.LeftInvOn (fun set => p.deskew (p.join tag set) way)
        (fun set => p.skew (p.join tag set) way) p.sets ∧
      Set.BijOn (fun set => p.skew (p.join tag set) way) p.sets p.sets := by
  refine ⟨fun addr => regenerateAddr_extract addr way, fun tag => ⟨skew_leftInvOn tag way, ?_⟩⟩
  have hmaps : Set.MapsTo (fun set => p.skew (p.join tag set) way) p.sets p.sets :=
    fun set _ => setWord_iff.mp (setWord_skew _ way)
  have hfinite : Finite Addr :=
    Finite.of_injective BitVec.toFin fun _ _ h => BitVec.eq_of_toFin_eq h
  exact ((Set.toFinite p.sets).injOn_iff_bijOn_of_mapsTo hmaps).mp
    (skew_leftInvOn tag way).injOn

def fourSets : SkewedAssociative where
  numSets := 4
  setShift := 6
  isPowerOf2 := rfl
  two_lt_numSets := by decide
  numSets_lt := by decide
  shift_le := by decide

example : fourSets.extractSet 0x12345 11 = 2 ∧
    fourSets.regenerateAddr (fourSets.extractTag 0x12345) ⟨2, 11⟩ = 0x12340 := by decide +kernel

end SkewedAssociative

end Drain
