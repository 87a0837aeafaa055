import Drain.Bitfield
import Drain.Lib.Holds

/-! Address ranges, interleaved or not, with or without XOR hashing
(`base/addr_range.hh`). -/

namespace Drain

open List Nat

inductive AddrRangeFailure where
  | count
  | merge
  | matchValue
  | subset
  | intersection
  | dangling
  deriving DecidableEq, Repr

structure AddrRange where
  _start : Addr
  _end : Addr
  intlvHighBit : BitVec 8
  xorHighBit : BitVec 8
  intlvBits : BitVec 8
  intlvMatch : BitVec 8
  deriving DecidableEq, Repr

namespace AddrRange

variable (t r : AddrRange) (a : Addr)

def interleaved : Bool := t.intlvBits ≠ 0

def hashed : Bool := t.interleaved && t.xorHighBit ≠ 0

def size : Addr := (t._end - t._start + 1) >>> t.intlvBits.toNat

def granularity : Addr :=
  if t.interleaved then
    let intlvLowBit := t.intlvHighBit - t.intlvBits + 1
    if t.hashed then
      let xorLowBit := t.xorHighBit - t.intlvBits + 1
      1#64 <<< min intlvLowBit.toNat xorLowBit.toNat
    else 1#64 <<< intlvLowBit.toNat
  else t.size

def mergesWith : Bool :=
  r._start = t._start ∧ r._end = t._end ∧ r.intlvHighBit = t.intlvHighBit ∧
    r.xorHighBit = t.xorHighBit ∧ r.intlvBits = t.intlvBits

/-- The slice of the address that ends at the bit `high`. -/
def slice (high : BitVec 8) : Addr :=
  Bitfield.bits a high.toNat (high.toNat + 1 - t.intlvBits.toNat)

/-- What `contains` compares with `intlvMatch`. -/
def intlvValue : Addr :=
  if t.hashed then t.slice a t.intlvHighBit ^^^ t.slice a t.xorHighBit
  else t.slice a t.intlvHighBit

def inRange : Bool := t._start ≤ a ∧ a ≤ t._end

def contains : Bool :=
  if t.interleaved then t.inRange a && t.intlvValue a = t.intlvMatch.setWidth 64 else t.inRange a

def intersects : Except AddrRangeFailure Bool :=
  if r._end < t._start ∨ t._end < r._start then pure false
  else if ¬t.interleaved ∧ ¬r.interleaved then pure true
  else if r.size = 1 then pure (t.contains r._start)
  else if t.mergesWith r then pure (t.intlvMatch = r.intlvMatch)
  else throw .intersection

def isSubset : Except AddrRangeFailure Bool :=
  if t.interleaved then throw .subset
  else if r.interleaved then
    pure (r.contains t._start && r.contains t._end && t.size ≤ r.granularity)
  else pure (r._start ≤ t._start ∧ t._end ≤ r._end)

def lt : Bool :=
  if t._start ≠ r._start then t._start < r._start else t.intlvMatch < r.intlvMatch

/-- The loop of the merging constructor over the ranges. -/
def mergeLoop : BitVec 8 → List AddrRange → Except AddrRangeFailure Unit
  | _, [] => pure ()
  | m, r :: ranges => do
    require (t.mergesWith r) .merge
    require (r.intlvMatch = m) .matchValue
    mergeLoop (m + 1) ranges

def ofRanges : List AddrRange → Except AddrRangeFailure AddrRange
  | [] => pure ⟨1, 0, 0, 0, 0, 0⟩
  | front :: ranges => do
    require ((front :: ranges).length = (1#64 <<< front.intlvBits.toNat).toNat) .count
    front.mergeLoop 0 (front :: ranges)
    pure ⟨front._start, front._end, 0, 0, 0, 0⟩

def valid : Bool := t._start ≤ t._end

def eq : Bool :=
  t._start = r._start ∧ t._end = r._end ∧ t.intlvBits = r.intlvBits ∧
    (t.intlvBits ≠ 0 → t.intlvHighBit = r.intlvHighBit ∧ t.intlvMatch = r.intlvMatch)

/-- `insertBits` of the bits below the slice, of which there may be none. -/
def removeIntlvBits : Addr :=
  let bmask := Bitfield.mask (t.intlvHighBit.toNat + 1 - t.intlvBits.toNat)
  (a &&& bmask) ||| ((a >>> t.intlvBits.toNat) &&& ~~~bmask)

def getOffset : Addr :=
  if t.inRange a then
    if t.interleaved then t.removeIntlvBits a - t.removeIntlvBits t._start else a - t._start
  else BitVec.allOnes 64

/-- The constructor accepts the interleaving by the `B` bits from `L` on, hashed with those from
`X` on if at all, and they are inside the address. -/
structure Sliced (L B X : Nat) : Prop where
  bits : t.intlvBits.toNat = B
  pos : 0 < B
  high : t.intlvHighBit.toNat + 1 = L + B
  le : L + B ≤ 64
  xor : t.hashed = true →
    t.xorHighBit.toNat + 1 = X + B ∧ X + B ≤ 64 ∧ (X + B ≤ L ∨ L + B ≤ X)
  fits : t.intlvMatch.toNat < 2 ^ B

def hash (B X n : Nat) : Nat := if t.hashed then n / 2 ^ X % 2 ^ B else 0

variable {t r a}

theorem mergesWith_iff : t.mergesWith r = true ↔ r = { t with intlvMatch := r.intlvMatch } := by
  cases t
  cases r
  simp [mergesWith]

theorem bits_lt (a : Addr) {first last : Nat} (h : first - last < 64) :
    (Bitfield.bits a first last).toNat < 2 ^ (first - last + 1) := by
  apply lt_pow_two_of_testBit
  intro i hi
  show (Bitfield.bits a first last).getLsbD i = false
  rw [Bitfield.getLsbD_bits h, decide_eq_false (by omega), Bool.false_and]

theorem slice_lt (hbits : 0 < t.intlvBits.toNat) (h : t.intlvBits.toNat ≤ 64) (high : BitVec 8) :
    (t.slice a high).toNat < 2 ^ t.intlvBits.toNat := by
  have hlast : high.toNat - (high.toNat + 1 - t.intlvBits.toNat) < 64 := by omega
  exact (bits_lt a hlast).trans_le (Nat.pow_le_pow_right Nat.two_pos (by omega))

theorem intlvValue_lt (hbits : 0 < t.intlvBits.toNat) (h : t.intlvBits.toNat ≤ 64) :
    (t.intlvValue a).toNat < 2 ^ t.intlvBits.toNat := by
  unfold intlvValue
  split
  · rw [BitVec.toNat_xor]
    exact xor_lt_two_pow (slice_lt hbits h _) (slice_lt hbits h _)
  · exact slice_lt hbits h _

theorem mergeLoop_ok {k : Nat} {ranges : List AddrRange}
    (h : t.mergeLoop (BitVec.ofNat 8 k) ranges = .ok ()) :
    ranges = (range' k ranges.length).map fun i =>
      { t with intlvMatch := BitVec.ofNat 8 i } := by
  induction ranges generalizing k with
  | nil => rfl
  | cons r ranges ih =>
    obtain ⟨_, hmerge, h⟩ := bind_eq_ok.mp h
    obtain ⟨_, hmatch, h⟩ := bind_eq_ok.mp h
    have hr := mergesWith_iff.mp (require_eq_ok.mp hmerge)
    rw [require_eq_ok.mp hmatch] at hr
    rw [length_cons, range'_succ, map_cons]
    exact congrArg₂ cons hr (ih (by rwa [BitVec.ofNat_add]))

theorem contains_withMatch {i : Nat} (hint : t.interleaved = true) (hi : i < 2 ^ 8) :
    contains { t with intlvMatch := BitVec.ofNat 8 i } a =
      (t.inRange a && i == (t.intlvValue a).toNat) := by
  have hcontains : contains { t with intlvMatch := BitVec.ofNat 8 i } a =
      if t.interleaved then t.inRange a && t.intlvValue a = (BitVec.ofNat 8 i).setWidth 64
      else t.inRange a := rfl
  have hvalue : t.intlvValue a = (BitVec.ofNat 8 i).setWidth 64 ↔ i = (t.intlvValue a).toNat := by
    rw [← BitVec.toNat_inj, BitVec.toNat_setWidth, BitVec.toNat_ofNat, mod_eq_of_lt hi,
      mod_eq_of_lt (by omega), eq_comm]
  rw [hcontains, if_pos hint, Bool.beq_eq_decide_eq, decide_eq_decide.mpr hvalue]

theorem inRange_of_contains (h : t.contains a = true) : t.inRange a = true := by
  unfold contains at h
  split at h
  · exact (Bool.and_eq_true_iff.mp h).1
  · exact h

/-- Numbers from nine bits on are the same in eight bits more than once. -/
theorem countP_ofNat_ne_one (P : BitVec 8 → Bool) {n : Nat} (hn : 512 ≤ n) :
    (range n).countP (fun i => P (BitVec.ofNat 8 i)) ≠ 1 := by
  intro hone
  rw [countP_eq_length_filter] at hone
  obtain ⟨x, hx⟩ := length_eq_one_iff.mp hone
  have hmem (i : Nat) : i ∈ [x] ↔ i < n ∧ P (BitVec.ofNat 8 i) = true := by
    rw [← hx, mem_filter, mem_range]
  have hsame (i : Nat) (hi : i % 256 = x % 256) (hlt : i < n) : i = x := by
    have heq : BitVec.ofNat 8 i = BitVec.ofNat 8 x := BitVec.eq_of_toNat_eq (by simpa using hi)
    exact mem_singleton.mp ((hmem i).mpr ⟨hlt, heq ▸ ((hmem x).mp (mem_singleton_self x)).2⟩)
  rcases Nat.lt_or_ge x 256 with hlow | hhigh
  · have := hsame (x + 256) (by omega) (by omega)
    omega
  · have hlt := ((hmem x).mp (mem_singleton_self x)).1
    have := hsame (x - 256) (by omega) (by omega)
    omega

theorem countP_withMatch (hbits : t.intlvBits.toNat ≤ 8) (hin : t.inRange a = true) :
    ((range (2 ^ t.intlvBits.toNat)).countP fun i =>
      contains { t with intlvMatch := BitVec.ofNat 8 i } a) = 1 := by
  by_cases hzero : t.intlvBits = 0
  · -- one range, and it is not interleaved
    have hin : decide (t._start ≤ a ∧ a ≤ t._end) = true := hin
    simp [contains, interleaved, hzero, inRange, hin]
  have hpos : 0 < t.intlvBits.toNat :=
    Nat.pos_of_ne_zero fun h => hzero (BitVec.eq_of_toNat_eq h)
  have hpow : 2 ^ t.intlvBits.toNat ≤ 2 ^ 8 := Nat.pow_le_pow_right Nat.two_pos hbits
  have hcontains : ((range (2 ^ t.intlvBits.toNat)).countP fun i =>
      contains { t with intlvMatch := BitVec.ofNat 8 i } a) =
        (range (2 ^ t.intlvBits.toNat)).count (t.intlvValue a).toNat := by
    refine countP_congr fun i hi => ?_
    rw [contains_withMatch (by simpa [interleaved] using hzero)
      ((mem_range.mp hi).trans_le hpow), hin, Bool.true_and]
  rw [hcontains, nodup_range.count,
    if_pos (mem_range.mpr (intlvValue_lt (a := a) hpos (by omega)))]

/-- Every address of the merged range is in exactly one of the given ranges, and no other address
is, if and only if there are at most eight interleaving bits or the range is empty. -/
theorem ofRanges_contains {ranges : List AddrRange} {merged : AddrRange} (hne : ranges ≠ [])
    (hmerge : ofRanges ranges = .ok merged) :
    (∀ a, merged.contains a = true ↔ ranges.countP (·.contains a) = 1) ↔
      (∀ r ∈ ranges, r.intlvBits.toNat ≤ 8) ∨ merged.valid = false := by
  obtain ⟨front, rest, rfl⟩ := exists_cons_of_ne_nil hne
  obtain ⟨_, hlength, h⟩ := bind_eq_ok.mp hmerge
  obtain ⟨_, hloop, h⟩ := bind_eq_ok.mp h
  have hlength := require_eq_ok.mp hlength
  have hlt : front.intlvBits.toNat < 64 := by
    by_contra hge
    rw [BitVec.shiftLeft_eq_zero (by omega)] at hlength
    cases hlength
  rw [BitVec.toNat_shiftLeft, BitVec.toNat_one (by decide), shiftLeft_eq, one_mul,
    mod_eq_of_lt (Nat.pow_lt_pow_right (by decide) hlt)] at hlength
  have hmerged (a : Addr) : merged.contains a = front.inRange a := Except.ok.inj h ▸ rfl
  have hvalid : merged.valid = front.valid := Except.ok.inj h ▸ rfl
  have hranges := mergeLoop_ok (k := 0) hloop
  rw [hlength, ← range_eq_range'] at hranges
  have hcountP (a : Addr) : (front :: rest).countP (·.contains a) =
      (range (2 ^ front.intlvBits.toNat)).countP fun i =>
        contains { front with intlvMatch := BitVec.ofNat 8 i } a := by
    rw [hranges, countP_map]
    rfl
  simp only [hmerged, hvalid, hcountP]
  constructor
  · refine fun hiff => or_iff_not_imp_right.mpr fun hstart r hr => ?_
    rw [hranges] at hr
    obtain ⟨i, -, rfl⟩ := mem_map.mp hr
    by_contra! hbits
    have hin : front.inRange front._start = true := by
      simpa [inRange, valid] using hstart
    exact countP_ofNat_ne_one (fun m => contains { front with intlvMatch := m } front._start)
      (Nat.pow_le_pow_right Nat.two_pos hbits) ((hiff front._start).mp hin)
  · intro hcond a
    cases hin : front.inRange a with
    | false =>
      refine iff_of_false nofun ?_
      rw [countP_eq_zero.mpr fun i _ hcontains => ?_]
      · exact zero_ne_one
      · have hin' := inRange_of_contains hcontains
        cases hin.symm.trans hin'
    | true =>
      refine iff_of_true rfl (countP_withMatch (hcond.resolve_right ?_ front mem_cons_self) hin)
      simp only [inRange, decide_eq_true_eq] at hin
      simpa [valid] using BitVec.le_trans hin.1 hin.2

theorem ofRanges_contains_four :
    contains ⟨0, 0xfff, 0, 0, 0, 0⟩ 0x480 = true ↔
      ([⟨0, 0xfff, 7, 11, 2, 0⟩, ⟨0, 0xfff, 7, 11, 2, 1⟩, ⟨0, 0xfff, 7, 11, 2, 2⟩,
        ⟨0, 0xfff, 7, 11, 2, 3⟩] : List AddrRange).countP (·.contains 0x480) = 1 :=
  (ofRanges_contains (by simp) rfl).mpr (.inl (by decide)) 0x480

/-- 512 ranges with nine interleaving bits are merged, as the counter of the loop is back at 0
after 256 of them; none of them contains the address 256. -/
theorem ofRanges_gap :
    ofRanges ((range 512).map fun i => ⟨0, 0xfff, 8, 0, 9, BitVec.ofNat 8 i⟩) =
        .ok ⟨0, 0xfff, 0, 0, 0, 0⟩ ∧
      contains ⟨0, 0xfff, 0, 0, 0, 0⟩ 256 = true ∧
      ∀ r ∈ (range 512).map fun i => (⟨0, 0xfff, 8, 0, 9, BitVec.ofNat 8 i⟩ : AddrRange),
        r.contains 256 = false := by
  decide +kernel

variable {b : Addr}

theorem inRange_iff : t.inRange a = true ↔
    t._start.toNat ≤ a.toNat ∧ a.toNat ≤ t._end.toNat := by
  simp [inRange, BitVec.le_def]

/-- Equal ranges contain the same addresses and merge if and only if they have the same hashing. -/
theorem contains_of_eq (heq : t.eq r = true) :
    ((∀ a, t.contains a = r.contains a) ∧
      (t.interleaved = true → r.interleaved = true → t.mergesWith r = true)) ↔
    (t.interleaved = true → t.xorHighBit = r.xorHighBit) := by
  cases t
  cases r
  simp only [eq, decide_eq_true_eq] at heq
  obtain ⟨rfl, rfl, rfl, heq⟩ := heq
  simp only [interleaved, decide_eq_true_eq]
  constructor
  · rintro ⟨-, hmerge⟩ hne
    have hmerge := hmerge hne hne
    simp only [mergesWith, decide_eq_true_eq] at hmerge
    exact hmerge.2.2.2.1.symm
  · refine fun hxor => ⟨fun a => ?_, fun hne _ => ?_⟩
    · simp only [contains, interleaved, decide_eq_true_eq]
      split
      · next hne =>
        obtain ⟨rfl, rfl⟩ := heq hne
        obtain rfl := hxor hne
        rfl
      · rfl
    · simp [mergesWith, (heq hne).1, hxor hne]

/-- The other fields of a plain range do not count. -/
theorem contains_of_eq_plain :
    contains ⟨0, 0xfff, 7, 11, 0, 1⟩ 0x400 = contains ⟨0, 0xfff, 0, 0, 0, 0⟩ 0x400 :=
  ((contains_of_eq (by decide)).mpr (by decide)).1 0x400

/-- Equality ignores the hashing. -/
theorem eq_ignores_xor :
    eq ⟨0, 0xfff, 7, 11, 2, 0⟩ ⟨0, 0xfff, 7, 0, 2, 0⟩ = true ∧
      contains ⟨0, 0xfff, 7, 11, 2, 0⟩ 0x400 = false ∧
      contains ⟨0, 0xfff, 7, 0, 2, 0⟩ 0x400 = true ∧
      mergesWith ⟨0, 0xfff, 7, 11, 2, 0⟩ ⟨0, 0xfff, 7, 0, 2, 0⟩ = false := by
  decide

/-- An address has one match value in an interleaved group. -/
theorem intlvMatch_eq {a : Addr} (hmerge : t.mergesWith r = true) (hint : t.interleaved = true)
    (ht : t.contains a = true) (hr : r.contains a = true) : t.intlvMatch = r.intlvMatch := by
  have heq := mergesWith_iff.mp hmerge
  have hint' : r.interleaved = true := by rw [heq]; exact hint
  have hvalue : r.intlvValue a = t.intlvValue a := by rw [heq]; rfl
  rw [contains, if_pos hint, Bool.and_eq_true_iff, decide_eq_true_eq] at ht
  rw [contains, if_pos hint', Bool.and_eq_true_iff, decide_eq_true_eq, hvalue, ht.2] at hr
  bv_omega

section Sliced

variable {L B X m n : Nat}

theorem slice_toNat {high : BitVec 8} (hbits : t.intlvBits.toNat = B) (hpos : 0 < B)
    (hhigh : high.toNat + 1 = X + B) (hle : X + B ≤ 64) :
    (t.slice a high).toNat = a.toNat / 2 ^ X % 2 ^ B := by
  apply eq_of_testBit_eq
  intro i
  change (t.slice a high).getLsbD i = _
  rw [slice, hbits, hhigh, Nat.add_sub_cancel, Bitfield.getLsbD_bits (by omega),
    testBit_mod_two_pow, testBit_div_two_pow,
    decide_eq_decide.mpr (show _ ↔ i < B by omega), add_comm]
  rfl

variable (hs : t.Sliced L B X)
include hs

theorem Sliced.interleaved : t.interleaved = true := by
  have hne : t.intlvBits.toNat ≠ 0 := hs.bits ▸ hs.pos.ne'
  simpa [AddrRange.interleaved, ← BitVec.toNat_inj] using hne

theorem Sliced.contains_iff : t.contains a = true ↔ t.inRange a = true ∧
    (a.toNat / 2 ^ L % 2 ^ B) ^^^ t.hash B X a.toNat = t.intlvMatch.toNat := by
  have hvalue : (t.intlvValue a).toNat = (a.toNat / 2 ^ L % 2 ^ B) ^^^ t.hash B X a.toNat := by
    unfold intlvValue hash
    split
    · next hh =>
      obtain ⟨hxor, hle, _⟩ := hs.xor hh
      rw [BitVec.toNat_xor, slice_toNat hs.bits hs.pos hs.high hs.le,
        slice_toNat hs.bits hs.pos hxor hle]
    · rw [slice_toNat hs.bits hs.pos hs.high hs.le, xor_zero]
  rw [contains, if_pos hs.interleaved, Bool.and_eq_true, decide_eq_true_eq, ← hvalue,
    ← BitVec.toNat_inj, BitVec.toNat_setWidth, mod_eq_of_lt (by omega)]

/-- The hash does not depend on the slice itself. -/
theorem Sliced.hash_congr (hlo : m % 2 ^ L = n % 2 ^ L)
    (hhi : m / 2 ^ (L + B) = n / 2 ^ (L + B)) : t.hash B X m = t.hash B X n := by
  have hbit {j : Nat} (hj : j < L ∨ L + B ≤ j) : m.testBit j = n.testBit j := by
    rcases hj with hj | hj
    · have := congrArg (·.testBit j) hlo
      simpa [testBit_mod_two_pow, hj] using this
    · have := congrArg (·.testBit (j - (L + B))) hhi
      simpa only [Nat.testBit_div_two_pow, Nat.sub_add_cancel hj] using this
  unfold hash
  split
  · next hh =>
    apply eq_of_testBit_eq
    intro i
    simp only [testBit_mod_two_pow, testBit_div_two_pow]
    by_cases hi : i < B
    · have hapart := (hs.xor hh).2.2
      rw [hbit (by omega)]
    · rw [decide_eq_false hi, Bool.false_and, Bool.false_and]
  · rfl

theorem Sliced.removeIntlvBits_toNat :
    (t.removeIntlvBits a).toNat = a.toNat % 2 ^ L + 2 ^ L * (a.toNat / 2 ^ (L + B)) := by
  have hle := hs.le
  apply Nat.eq_of_testBit_eq
  intro i
  change (t.removeIntlvBits a).getLsbD i = _
  rw [Nat.add_comm, Nat.testBit_two_pow_mul_add _ (Nat.mod_lt _ (Nat.two_pow_pos _)),
    Nat.testBit_mod_two_pow, Nat.testBit_div_two_pow]
  simp only [removeIntlvBits, hs.high, hs.bits, Nat.add_sub_cancel, BitVec.getLsbD_or,
    BitVec.getLsbD_and, BitVec.getLsbD_not, BitVec.getLsbD_ushiftRight,
    Bitfield.getLsbD_mask (show L ≤ 64 by omega)]
  by_cases hi : i < L
  · simp [hi, BitVec.getLsbD]
  · have hpos : B + i = i - L + (L + B) := by omega
    by_cases h64 : i < 64
    · simp [hi, h64, hpos, BitVec.getLsbD]
    · have : a.toNat.testBit (i - L + (L + B)) = false := BitVec.getLsbD_of_ge a _ (by omega)
      simp [hi, h64, this]

omit hs in
theorem join_parts {lo mid : Nat} (hi : Nat) (hlo : lo < 2 ^ L) (hmid : mid < 2 ^ B) :
    (lo + 2 ^ L * (mid + 2 ^ B * hi)) % 2 ^ L = lo ∧
      (lo + 2 ^ L * (mid + 2 ^ B * hi)) / 2 ^ L % 2 ^ B = mid ∧
      (lo + 2 ^ L * (mid + 2 ^ B * hi)) / 2 ^ (L + B) = hi := by
  have hdiv : (lo + 2 ^ L * (mid + 2 ^ B * hi)) / 2 ^ L = mid + 2 ^ B * hi := by
    rw [Nat.add_mul_div_left _ _ (Nat.two_pow_pos L), Nat.div_eq_of_lt hlo, Nat.zero_add]
  refine ⟨?_, ?_, ?_⟩
  · rw [add_mul_mod_self_left, mod_eq_of_lt hlo]
  · rw [hdiv, add_mul_mod_self_left, mod_eq_of_lt hmid]
  · rw [pow_add, ← Nat.div_div_eq_div_mul, hdiv, Nat.add_mul_div_left _ _ (Nat.two_pow_pos B),
      div_eq_of_lt hmid, zero_add]

omit hs in
theorem join_self (L B n : Nat) :
    n % 2 ^ L + 2 ^ L * (n / 2 ^ L % 2 ^ B + 2 ^ B * (n / 2 ^ (L + B))) = n := by
  rw [pow_add, ← Nat.div_div_eq_div_mul, Nat.mod_add_div, Nat.mod_add_div]

theorem Sliced.offset_injOn : Set.InjOn t.getOffset {a | t.contains a = true} := by
  intro a ha b hb heq
  obtain ⟨hina, ha⟩ := hs.contains_iff.mp ha
  obtain ⟨hinb, hb⟩ := hs.contains_iff.mp hb
  rw [getOffset, getOffset, if_pos hina, if_pos hinb, if_pos hs.interleaved,
    if_pos hs.interleaved, sub_left_inj, ← BitVec.toNat_inj, hs.removeIntlvBits_toNat,
    hs.removeIntlvBits_toNat] at heq
  have hlo := congrArg (· % 2 ^ L) heq
  simp only [Nat.add_mul_mod_self_left, Nat.mod_mod] at hlo
  rw [hlo] at heq
  have hhi := Nat.eq_of_mul_eq_mul_left (Nat.two_pow_pos _) (Nat.add_left_cancel heq)
  rw [hs.hash_congr hlo hhi, ← hb] at ha
  have hmid := congrArg (· ^^^ t.hash B X b.toNat) ha
  simp only [Nat.xor_assoc, Nat.xor_self, Nat.xor_zero] at hmid
  apply BitVec.eq_of_toNat_eq
  rw [← join_self L B a.toNat, hlo, hmid, hhi, join_self]

/-- The slice can be chosen so that it matches, whatever the other bits are. -/
theorem Sliced.exists_match {lo : Nat} (hi : Nat) (hlo : lo < 2 ^ L) :
    ∃ n, n % 2 ^ L = lo ∧ n / 2 ^ (L + B) = hi ∧
      (n / 2 ^ L % 2 ^ B) ^^^ t.hash B X n = t.intlvMatch.toNat := by
  let join (mid : Nat) := lo + 2 ^ L * (mid + 2 ^ B * hi)
  have hhash : t.hash B X (join 0) < 2 ^ B := by
    unfold hash
    split
    · exact Nat.mod_lt _ (Nat.two_pow_pos _)
    · exact Nat.two_pow_pos _
  obtain ⟨hlo₀, _, hhi₀⟩ := join_parts hi hlo (Nat.two_pow_pos B)
  obtain ⟨hlo', hmid', hhi'⟩ := join_parts hi hlo (Nat.xor_lt_two_pow hs.fits hhash)
  refine ⟨join (t.intlvMatch.toNat ^^^ t.hash B X (join 0)), hlo', hhi', ?_⟩
  rw [hmid', hs.hash_congr (hlo'.trans hlo₀.symm) (hhi'.trans hhi₀.symm), Nat.xor_assoc,
    Nat.xor_self, Nat.xor_zero]

theorem Sliced.getOffset_toNat (hstart : t._start.toNat = 2 ^ (L + B) * m)
    (hin : t.inRange a = true) :
    (t.getOffset a).toNat = a.toNat % 2 ^ L + 2 ^ L * (a.toNat / 2 ^ (L + B) - m) := by
  have hle := Nat.div_le_div_right (c := 2 ^ (L + B)) (inRange_iff.mp hin).1
  rw [hstart, Nat.mul_div_cancel_left _ (Nat.two_pow_pos _)] at hle
  have hfirst : (t.removeIntlvBits t._start).toNat = 2 ^ L * m := by
    rw [hs.removeIntlvBits_toNat, hstart, Nat.mul_div_cancel_left _ (Nat.two_pow_pos _), pow_add,
      Nat.mul_assoc, Nat.mul_mod_right, Nat.zero_add]
  have hmul := Nat.mul_le_mul_left (2 ^ L) hle
  rw [getOffset, if_pos hin, if_pos hs.interleaved, BitVec.toNat_sub_of_le, hfirst,
    hs.removeIntlvBits_toNat, Nat.mul_sub]
  · omega
  · rw [BitVec.le_def, hfirst, hs.removeIntlvBits_toNat]
    omega

/-- No two addresses of a range have the same offset. If the range consists of whole blocks of
all combinations of the slices and does not end before it starts, the offsets are those below its
size. -/
theorem getOffset_oneToOne : Set.InjOn t.getOffset {a | t.contains a = true} ∧
    (2 ^ (max t.intlvHighBit.toNat t.xorHighBit.toNat + 1) ∣ t._start.toNat →
      2 ^ (max t.intlvHighBit.toNat t.xorHighBit.toNat + 1) ∣ t._end.toNat + 1 →
      t._start.toNat ≤ t._end.toNat + 1 → t._end.toNat + 1 - t._start.toNat ≠ 2 ^ 64 →
      Set.BijOn t.getOffset {a | t.contains a = true} {o | o < t.size}) := by
  refine ⟨hs.offset_injOn, fun hstart hend hle hwhole => ?_⟩
  have hdvd : 2 ^ (L + B) ∣ 2 ^ (max t.intlvHighBit.toNat t.xorHighBit.toNat + 1) := by
    rw [← hs.high]
    exact pow_dvd_pow 2 (succ_le_succ (le_max_left _ _))
  obtain ⟨k, hk⟩ := hdvd.trans hstart
  obtain ⟨m, hm⟩ := hdvd.trans hend
  have hsize : t.size.toNat = 2 ^ L * (m - k) := by
    have hlen : (t._end - t._start + 1).toNat = t._end.toNat + 1 - t._start.toNat := by bv_omega
    rw [size, BitVec.toNat_ushiftRight, Nat.shiftRight_eq_div_pow, hlen, hk, hm, ← Nat.mul_sub,
      hs.bits, pow_add, mul_comm (2 ^ L), mul_assoc,
      Nat.mul_div_cancel_left _ (Nat.two_pow_pos _)]
  have hrange {n : Nat} : t._start.toNat ≤ n ∧ n ≤ t._end.toNat ↔
      k ≤ n / 2 ^ (L + B) ∧ n / 2 ^ (L + B) < m := by
    rw [Nat.le_div_iff_mul_le (Nat.two_pow_pos _), Nat.div_lt_iff_lt_mul (Nat.two_pow_pos _),
      Nat.mul_comm k, Nat.mul_comm m, ← hk, ← hm, Nat.lt_succ_iff]
  refine ⟨fun a ha => ?_, hs.offset_injOn, fun o ho => ?_⟩
  · have hin := (hs.contains_iff.mp ha).1
    have hhi := hrange.mp (inRange_iff.mp hin)
    have hlo := Nat.mod_lt a.toNat (Nat.two_pow_pos L)
    show t.getOffset a < t.size
    rw [BitVec.lt_def, hsize, hs.getOffset_toNat hk hin]
    calc _ < 2 ^ L * (a.toNat / 2 ^ (L + B) - k + 1) := by rw [mul_add]; omega
      _ ≤ _ := mul_le_mul_left _ (by omega)
  · have hhi : o.toNat / 2 ^ L < m - k := by
      rw [Nat.div_lt_iff_lt_mul (Nat.two_pow_pos _), Nat.mul_comm, ← hsize]
      exact ho
    obtain ⟨n, hlo, hdiv, hmatch⟩ :=
      hs.exists_match (k + o.toNat / 2 ^ L) (Nat.mod_lt o.toNat (Nat.two_pow_pos _))
    have hnrange := hrange.mpr ⟨hdiv ▸ le_add_right _ _, hdiv ▸ add_lt_of_lt_sub' hhi⟩
    have hn : (BitVec.ofNat 64 n).toNat = n := mod_eq_of_lt (by omega)
    have hin : t.inRange (BitVec.ofNat 64 n) = true := by rwa [inRange_iff, hn]
    refine ⟨BitVec.ofNat 64 n, hs.contains_iff.mpr ⟨hin, by rwa [hn]⟩, BitVec.eq_of_toNat_eq ?_⟩
    rw [hs.getOffset_toNat hk hin, hn, hlo, hdiv, Nat.add_sub_cancel_left, Nat.mod_add_div]

omit hs in
/-- Four of eight addresses, by the bit 1 hashed with the bit 2. -/
theorem getOffset_oneToOne_eight : Set.BijOn (getOffset ⟨8, 15, 1, 2, 1, 1⟩)
    {a | contains ⟨8, 15, 1, 2, 1, 1⟩ a = true} {o | o < size ⟨8, 15, 1, 2, 1, 1⟩} := by
  have hs : Sliced ⟨8, 15, 1, 2, 1, 1⟩ 1 1 2 := by constructor <;> decide
  exact (getOffset_oneToOne hs).2 (by decide) (by decide) (by decide) (by decide)

omit hs in
/-- A range that ends before it starts contains nothing, but its size is not 0. -/
theorem size_backwards : 4 ∣ 8 ∧ 4 ∣ 3 + 1 ∧ (0 : Addr) < size ⟨8, 3, 1, 0, 1, 1⟩ ∧
    ∀ a, contains ⟨8, 3, 1, 0, 1, 1⟩ a = false := by
  refine ⟨by decide, by decide, by decide, fun a => ?_⟩
  by_contra ha
  rw [Bool.not_eq_false] at ha
  have hin := inRange_iff.mp (inRange_of_contains ha)
  simp at hin
  omega

end Sliced

end AddrRange

end Drain
