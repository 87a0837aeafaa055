import Drain.Lib.BitReverse

/-! `GarnetSyntheticTraffic`: the packets of the synthetic traffic and their destinations. -/

namespace Drain

open Nat

inductive TrafficType where
  | bitComplement | bitReverse | bitRotation | neighbor | shuffle | tornado | transpose
  | uniformRandom
  deriving DecidableEq

/-- A value of type `int`, converted to `unsigned`. -/
def toUnsigned (z : Int) : Nat := (if z < 0 then z + 2 ^ 32 else z).toNat

structure GarnetSyntheticTraffic where
  id : Nat
  numDestinations : Nat
  -- negative if the destinations follow the pattern
  singleDest : Int := -1
  traffic : TrafficType
  blockSizeBits : Nat := 6
  injVnet : Int := -1

inductive RequestType where
  | readReq | instFetch | writeReq
  deriving DecidableEq

structure SyntheticPacket where
  requestType : RequestType
  paddr : Nat
  contextId : Nat

namespace GarnetSyntheticTraffic

section Patterns

variable (n source : Nat)

def radix : Nat := n.sqrt

def srcX : Nat := source % radix n

def srcY : Nat := source / radix n

def bitComplement : Int :=
  let destX : Int := radix n - srcX n source - 1
  let destY : Int := radix n - srcY n source - 1
  destY * radix n + destX

/-- The loop over the bits of the source runs from 1 to the number of bits. -/
def bitReverse : Nat := reverseBits (n.log2 - 1) source

def bitRotation : Nat := if source % 2 = 0 then source / 2 else source / 2 + n / 2

def neighbor : Nat := srcY n source * radix n + (srcX n source + 1) % radix n

def shuffle : Int := if source < n / 2 then source * 2 else source * 2 - n + 1

def transpose : Nat := srcX n source * radix n + srcY n source

/-- The division of the radix by two is one of integers, so that `ceil` changes nothing. -/
def tornado : Int :=
  let destX : Int := (srcX n source + (radix n / 2 : Nat) - 1 : Int).tmod (radix n)
  srcY n source * radix n + destX

end Patterns

/-- The destination that a traffic pattern gives to a source; `draw` is the random number of the
uniform traffic. -/
def pattern (n draw : Nat) (traffic : TrafficType) (source : Nat) : Nat :=
  match traffic with
  | .uniformRandom => draw % n
  | .bitComplement => toUnsigned (bitComplement n source)
  | .bitReverse => bitReverse n source
  | .bitRotation => bitRotation n source
  | .neighbor => neighbor n source
  | .shuffle => toUnsigned (shuffle n source)
  | .transpose => transpose n source
  | .tornado => toUnsigned (tornado n source)

def destination (t : GarnetSyntheticTraffic) (draw : Nat) : Nat :=
  if 0 ≤ t.singleDest then toUnsigned t.singleDest
  else pattern t.numDestinations draw t.traffic t.id

/-- The vnet of a packet; `draw` is used when none is given. -/
def injReqType (t : GarnetSyntheticTraffic) (draw : Nat) : Nat :=
  if t.injVnet < 0 ∨ 2 < t.injVnet then draw % 3 else t.injVnet.toNat

def generatePkt (t : GarnetSyntheticTraffic) (destDraw vnetDraw : Nat) : SyntheticPacket where
  requestType := match t.injReqType vnetDraw with
    | 0 => .readReq
    | 1 => .instFetch
    | _ => .writeReq
  paddr := (t.destination destDraw <<< t.blockSizeBits) % 2 ^ 64
  contextId := t.id

section Halves

variable {n draw s : Nat}

theorem pattern_shuffle : pattern n draw .shuffle s = if s < n / 2 then s * 2 else s * 2 + 1 - n := by
  unfold pattern shuffle toUnsigned
  dsimp only
  split <;> split <;> omega

theorem pattern_bitRotation :
    pattern n draw .bitRotation s = if s % 2 = 0 then s / 2 else s / 2 + n / 2 := rfl

theorem shuffle_mapsTo (n draw : Nat) :
    Set.MapsTo (pattern n draw .shuffle) (Set.Iio n) (Set.Iio n) := by
  intro s hs
  rw [Set.mem_Iio] at hs ⊢
  rw [pattern_shuffle]
  split <;> omega

theorem bitRotation_mapsTo (n draw : Nat) :
    Set.MapsTo (pattern n draw .bitRotation) (Set.Iio n) (Set.Iio n) := by
  intro s hs
  rw [Set.mem_Iio] at hs ⊢
  rw [pattern_bitRotation]
  split <;> omega

theorem bitRotation_shuffle (hn : Even n) (hs : s < n) :
    pattern n draw .bitRotation (pattern n draw .shuffle s) = s := by
  obtain ⟨m, rfl⟩ := hn
  rw [pattern_shuffle, pattern_bitRotation]
  split <;> split <;> omega

theorem shuffle_bitRotation (hn : Even n) (hs : s < n) :
    pattern n draw .shuffle (pattern n draw .bitRotation s) = s := by
  obtain ⟨m, rfl⟩ := hn
  rw [pattern_bitRotation, pattern_shuffle]
  split <;> split <;> omega

end Halves

section Bits

variable {n draw s : Nat}

theorem bitReverse_lt (hn : 0 < n) (hs : s < n) : pattern n draw .bitReverse s < n := by
  change reverseBits (n.log2 - 1) s < n
  by_cases hone : n = 1
  · subst hone
    obtain rfl : s = 0 := by omega
    decide
  · have hlog : 1 ≤ n.log2 := (le_log2 hn.ne').mpr (by omega)
    calc reverseBits (n.log2 - 1) s
      _ < 2 ^ (n.log2 - 1 + 1) := reverseBits_lt _ _
      _ = 2 ^ n.log2 := by rw [Nat.sub_add_cancel hlog]
      _ ≤ n := log2_self_le hn.ne'

theorem bitReverse_bitReverse (k : Nat) (hs : s < 2 ^ k) :
    pattern (2 ^ k) draw .bitReverse (pattern (2 ^ k) draw .bitReverse s) = s := by
  change reverseBits ((2 ^ k).log2 - 1) (reverseBits ((2 ^ k).log2 - 1) s) = s
  rw [log2_two_pow]
  exact reverseBits_reverseBits (hs.trans_le (Nat.pow_le_pow_right Nat.two_pos (by omega)))

end Bits

section Grid

variable {n draw r x y s : Nat}

theorem radix_pos (hs : s < n) : 0 < radix n := sqrt_pos.mpr (zero_lt_of_lt hs)

theorem srcX_row (hx : x < radix n) : srcX n (y * radix n + x) = x := by
  rw [srcX, mul_add_mod_self_right, mod_eq_of_lt hx]

theorem srcY_row (hx : x < radix n) : srcY n (y * radix n + x) = y := by
  rw [srcY, mul_comm, mul_add_div (zero_lt_of_lt hx), div_eq_of_lt hx, add_zero]

theorem srcX_lt (hs : s < n) : srcX n s < radix n := mod_lt _ (radix_pos hs)

theorem source_eq (n s : Nat) : srcY n s * radix n + srcX n s = s := div_add_mod' s (radix n)

theorem srcY_lt (h : s < radix n * radix n) : srcY n s < radix n :=
  Nat.div_lt_of_lt_mul h

theorem row_lt (hx : x < r) (hy : y < r) : y * r + x < r * r :=
  calc y * r + x
    _ < y * r + r := Nat.add_lt_add_left hx _
    _ = (y + 1) * r := (succ_mul y r).symm
    _ ≤ r * r := mul_le_mul_right r hy

theorem radix_mul_radix_le (n : Nat) : radix n * radix n ≤ n := sqrt_le n

theorem radix_square (r : Nat) : radix (r * r) = r := sqrt_eq r

theorem toUnsigned_natCast (m : Nat) : toUnsigned m = m := by
  unfold toUnsigned
  split <;> omega

theorem pattern_bitComplement (hs : s < radix n * radix n) (hn : s < n) :
    pattern n draw .bitComplement s =
      (radix n - 1 - srcY n s) * radix n + (radix n - 1 - srcX n s) := by
  have hx := srcX_lt hn
  have hy := srcY_lt hs
  have hcast : bitComplement n s =
      (((radix n - 1 - srcY n s) * radix n + (radix n - 1 - srcX n s) : Nat) : Int) := by
    have hdestX : ((radix n - 1 - srcX n s : Nat) : Int) = radix n - srcX n s - 1 := by omega
    have hdestY : ((radix n - 1 - srcY n s : Nat) : Int) = radix n - srcY n s - 1 := by omega
    rw [Int.natCast_add, Int.natCast_mul, hdestX, hdestY]
    rfl
  change toUnsigned (bitComplement n s) = _
  rw [hcast, toUnsigned_natCast]

theorem pattern_tornado (hs : s < n) :
    pattern n draw .tornado s =
      srcY n s * radix n + (srcX n s + (radix n / 2 - 1)) % radix n := by
  have hx := srcX_lt hs
  have hmod : (srcX n s + (radix n / 2 : Nat) - 1 : Int).tmod (radix n) =
      ((srcX n s + (radix n / 2 - 1)) % radix n : Nat) := by
    rcases lt_or_ge (radix n) 2 with hone | htwo
    · obtain hone : radix n = 1 := by omega
      rw [hone]
      simp [mod_one]
    · have hcast : (srcX n s + (radix n / 2 : Nat) - 1 : Int) =
          ((srcX n s + (radix n / 2 - 1) : Nat) : Int) := by omega
      rw [hcast]
      rfl
  change toUnsigned (tornado n s) = _
  unfold tornado
  rw [hmod, ← toUnsigned_natCast (srcY n s * radix n + _)]
  push_cast
  rfl

def rowShift (n c s : Nat) : Nat := srcY n s * radix n + (srcX n s + c) % radix n

theorem rowShift_lt (c : Nat) (hs : s < radix n * radix n) : rowShift n c s < radix n * radix n := by
  have hpos : 0 < radix n := Nat.pos_of_mul_pos_left (Nat.zero_lt_of_lt hs)
  exact row_lt (mod_lt _ hpos) (srcY_lt hs)

theorem rowShift_injOn (n c : Nat) : Set.InjOn (rowShift n c) (Set.Iio n) := by
  intro s hs s' hs' heq
  have hmod := mod_lt (srcX n s + c) (radix_pos hs)
  have hmod' := mod_lt (srcX n s' + c) (radix_pos hs')
  have hy : srcY n s = srcY n s' := by
    rw [← srcY_row (y := srcY n s) hmod, ← srcY_row (y := srcY n s') hmod']
    exact congrArg (srcY n) heq
  have hx : (srcX n s + c) % radix n = (srcX n s' + c) % radix n := by
    rw [← srcX_row (y := srcY n s) hmod, ← srcX_row (y := srcY n s') hmod']
    exact congrArg (srcX n) heq
  have hcancel : srcX n s ≡ srcX n s' [MOD radix n] := Nat.ModEq.add_right_cancel' c hx
  have hx' : srcX n s = srcX n s' :=
    hcancel.eq_of_lt_of_lt (srcX_lt hs) (srcX_lt hs')
  rw [← source_eq n s, ← source_eq n s', hy, hx']

section

variable (hn : IsSquare n)
include hn

theorem rowShift_bijOn (c : Nat) : Set.BijOn (rowShift n c) (Set.Iio n) (Set.Iio n) := by
  obtain ⟨r, rfl⟩ := hn
  have hmaps : Set.MapsTo (rowShift (r * r) c) (Set.Iio (r * r)) (Set.Iio (r * r)) := by
    intro s hs
    have hlt := rowShift_lt (n := r * r) (s := s) c
    rw [radix_square] at hlt
    exact hlt hs
  exact ((Set.finite_Iio _).injOn_iff_bijOn_of_mapsTo hmaps).mp (rowShift_injOn _ c)

theorem neighbor_bijOn (draw : Nat) :
    Set.BijOn (pattern n draw .neighbor) (Set.Iio n) (Set.Iio n) :=
  rowShift_bijOn hn 1

theorem tornado_bijOn (draw : Nat) :
    Set.BijOn (pattern n draw .tornado) (Set.Iio n) (Set.Iio n) :=
  (rowShift_bijOn hn (radix n / 2 - 1)).congr fun _ hs => (pattern_tornado hs).symm

theorem bitComplement_bitComplement (hs : s < n) :
    pattern n draw .bitComplement (pattern n draw .bitComplement s) = s := by
  obtain ⟨r, rfl⟩ := hn
  have hsq : radix (r * r) * radix (r * r) = r * r := by rw [radix_square]
  have hx := srcX_lt hs
  have hy := srcY_lt (hs.trans_eq hsq.symm)
  have hdest := row_lt (x := radix (r * r) - 1 - srcX (r * r) s) (r := radix (r * r))
    (y := radix (r * r) - 1 - srcY (r * r) s) (by omega) (by omega)
  rw [pattern_bitComplement (hs.trans_eq hsq.symm) hs,
    pattern_bitComplement hdest (hdest.trans_eq hsq), srcX_row (by omega), srcY_row (by omega),
    Nat.sub_sub_self (by omega), Nat.sub_sub_self (by omega), source_eq]

theorem transpose_transpose (hs : s < n) :
    pattern n draw .transpose (pattern n draw .transpose s) = s := by
  obtain ⟨r, rfl⟩ := hn
  have hy : srcY (r * r) s < radix (r * r) := srcY_lt (by rwa [radix_square])
  change srcX _ (srcX _ s * radix _ + srcY _ s) * radix _ + srcY _ (srcX _ s * radix _ + srcY _ s) = s
  rw [srcX_row hy, srcY_row hy, source_eq]

end

theorem transpose_lt (hs : s < n) : pattern n draw .transpose s < n := by
  have hx := srcX_lt hs
  change srcX n s * radix n + srcY n s < n
  rcases lt_or_ge (srcY n s) (radix n) with hy | hy
  · exact (row_lt hy hx).trans_le (radix_mul_radix_le n)
  · have hsource := source_eq n s
    generalize radix n = r at *
    generalize srcX n s = x at *
    obtain ⟨k, hk⟩ := Nat.exists_eq_add_of_le hy
    calc x * r + srcY n s
      _ = (x + 1) * r + k := by rw [hk, succ_mul, add_assoc]
      _ ≤ r * r + k := Nat.add_le_add_right (Nat.mul_le_mul_right r hx) k
      _ ≤ r * r + k * r := Nat.add_le_add_left (Nat.le_mul_of_pos_right k (Nat.zero_lt_of_lt hx)) _
      _ = srcY n s * r := by rw [hk, add_mul]
      _ ≤ s := le.intro hsource
      _ < n := hs

theorem bitComplement_lt (hs : s < radix n * radix n) (hn : s < n) :
    pattern n draw .bitComplement s < n := by
  have hx := srcX_lt hn
  have hy := srcY_lt hs
  rw [pattern_bitComplement hs hn]
  exact (row_lt (by omega) (by omega)).trans_le (radix_mul_radix_le n)

end Grid

section Destinations

/-- On the node counts that they are made for the patterns permute the nodes. -/
theorem patterns_permute (n draw : Nat) :
    (Even n →
      Set.BijOn (pattern n draw .shuffle) (Set.Iio n) (Set.Iio n) ∧
      Set.BijOn (pattern n draw .bitRotation) (Set.Iio n) (Set.Iio n) ∧
      Set.InvOn (pattern n draw .bitRotation) (pattern n draw .shuffle) (Set.Iio n) (Set.Iio n)) ∧
    (∀ k, n = 2 ^ k → ∀ s < n, pattern n draw .bitReverse s < n ∧
      pattern n draw .bitReverse (pattern n draw .bitReverse s) = s) ∧
    (IsSquare n →
      (∀ s < n, pattern n draw .bitComplement s < n ∧
        pattern n draw .bitComplement (pattern n draw .bitComplement s) = s) ∧
      (∀ s < n, pattern n draw .transpose s < n ∧
        pattern n draw .transpose (pattern n draw .transpose s) = s) ∧
      Set.BijOn (pattern n draw .neighbor) (Set.Iio n) (Set.Iio n) ∧
      Set.BijOn (pattern n draw .tornado) (Set.Iio n) (Set.Iio n)) := by
  refine ⟨fun hn => ?_, fun k hk s hs => ?_, fun hn => ⟨fun s hs => ?_, fun s hs => ?_, ?_, ?_⟩⟩
  · have hinv : Set.InvOn (pattern n draw .bitRotation) (pattern n draw .shuffle)
        (Set.Iio n) (Set.Iio n) :=
      ⟨fun _ hs => bitRotation_shuffle hn hs, fun _ hs => shuffle_bitRotation hn hs⟩
    exact ⟨hinv.bijOn (shuffle_mapsTo n draw) (bitRotation_mapsTo n draw),
      hinv.symm.bijOn (bitRotation_mapsTo n draw) (shuffle_mapsTo n draw), hinv⟩
  · subst hk
    exact ⟨bitReverse_lt (zero_lt_of_lt hs) hs, bitReverse_bitReverse k hs⟩
  · have hgrid : s < radix n * radix n := by
      obtain ⟨r, rfl⟩ := hn
      rwa [radix_square]
    exact ⟨bitComplement_lt hgrid hs, bitComplement_bitComplement hn hs⟩
  · exact ⟨transpose_lt hs, transpose_transpose hn hs⟩
  · exact neighbor_bijOn hn draw
  · exact tornado_bijOn hn draw

theorem patterns_permute_sixteen : Even 16 ∧ 16 = 2 ^ 4 ∧ IsSquare 16 ∧
    Set.BijOn (pattern 16 0 .shuffle) (Set.Iio 16) (Set.Iio 16) ∧
    pattern 16 0 .bitReverse 3 = 12 ∧ pattern 16 0 .bitReverse (pattern 16 0 .bitReverse 3) = 3 ∧
    Set.BijOn (pattern 16 0 .tornado) (Set.Iio 16) (Set.Iio 16) :=
  ⟨⟨8, rfl⟩, rfl, ⟨4, rfl⟩, ((patterns_permute 16 0).1 ⟨8, rfl⟩).1, by decide +kernel,
    ((patterns_permute 16 0).2.1 4 rfl 3 (by decide)).2,
    ((patterns_permute 16 0).2.2 ⟨4, rfl⟩).2.2.2⟩

/-- The patterns that move within the grid need a source inside it. -/
def needsGrid (traffic : TrafficType) : Prop :=
  traffic = .bitComplement ∨ traffic = .neighbor ∨ traffic = .tornado

variable {t : GarnetSyntheticTraffic}

theorem destination_valid (draw : Nat) (hid : t.id < t.numDestinations) (hunset : t.singleDest < 0)
    (hgrid : needsGrid t.traffic →
      t.id < radix t.numDestinations * radix t.numDestinations) :
    t.destination draw < t.numDestinations := by
  have hsquare := radix_mul_radix_le t.numDestinations
  unfold destination
  rw [if_neg (by omega)]
  cases htraffic : t.traffic with
  | bitComplement => exact bitComplement_lt (hgrid (.inl htraffic)) hid
  | bitReverse => exact bitReverse_lt (zero_lt_of_lt hid) hid
  | bitRotation => exact bitRotation_mapsTo _ draw hid
  | neighbor => exact (rowShift_lt 1 (hgrid (.inr (.inl htraffic)))).trans_le hsquare
  | shuffle => exact shuffle_mapsTo _ draw hid
  | tornado =>
    rw [pattern_tornado hid]
    exact (rowShift_lt _ (hgrid (.inr (.inr htraffic)))).trans_le hsquare
  | transpose => exact transpose_lt hid
  | uniformRandom => exact mod_lt _ (zero_lt_of_lt hid)

theorem destination_valid_nine :
    (⟨8, 9, -1, .bitComplement, 6, -1⟩ : GarnetSyntheticTraffic).destination 0 < 9 :=
  destination_valid 0 (by decide) (by decide) fun _ => by decide +kernel

/-- Beyond the grid the mirrored row number is negative, and a shift in the last row can leave
the nodes. -/
theorem destination_invalid :
    (⟨7, 8, -1, .bitComplement, 6, -1⟩ : GarnetSyntheticTraffic).destination 0 = 4294967292 ∧
    (⟨4, 5, -1, .neighbor, 6, -1⟩ : GarnetSyntheticTraffic).destination 0 = 5 ∧
    (⟨17, 18, -1, .tornado, 6, -1⟩ : GarnetSyntheticTraffic).destination 0 = 18 := by
  decide +kernel

end Destinations

end GarnetSyntheticTraffic

end Drain
