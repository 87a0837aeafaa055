import Drain.RubyTypes
import Drain.Lib.Tiles

/-! The chunks into which a region of memory is cut (`base/chunk_generator.hh`). -/

namespace Drain

open BitVec Nat

structure ChunkGenerator where
  curAddr : Addr
  nextAddr : Addr
  curSize : BitVec 32
  sizeLeft : BitVec 32
  startAddr : Addr
  chunkSize : BitVec 32

namespace ChunkGenerator

def isPowerOf2 (n : BitVec 32) : Bool := n ≠ 0 ∧ n &&& ~~~(n - 1) = n

def roundUp (val : Addr) (align : BitVec 32) : Addr :=
  let mask := align.setWidth 64 - 1
  (val + mask) &&& ~~~mask

def minSize (a b : BitVec 32) : BitVec 32 := if b < a then b else a

/-- The address at which the constructor lets the second chunk start. -/
def firstEnd (startAddr : Addr) (totalSize chunkSize : BitVec 32) : Addr :=
  if chunkSize = 0 then startAddr + totalSize.setWidth 64
  else if startAddr = roundUp startAddr chunkSize then
    roundUp startAddr chunkSize + chunkSize.setWidth 64
  else roundUp startAddr chunkSize

/-- The constructor; `none` is a failed assertion. -/
def new (startAddr : Addr) (totalSize chunkSize : BitVec 32) : Option ChunkGenerator :=
  if chunkSize = 0 ∨ isPowerOf2 chunkSize = true then
    let nextAddr := firstEnd startAddr totalSize chunkSize
    let curSize := minSize totalSize ((nextAddr - startAddr).setWidth 32)
    some ⟨startAddr, nextAddr, curSize, totalSize - curSize, startAddr, chunkSize⟩
  else none

variable (g : ChunkGenerator)

def addr : Addr := g.curAddr

def size : BitVec 32 := g.curSize

def complete : BitVec 32 := (g.curAddr - g.startAddr).setWidth 32

def done : Bool := g.curSize = 0

def last : Bool := g.sizeLeft = 0

def next : Bool × ChunkGenerator :=
  if g.sizeLeft = 0 then (false, { g with curSize := 0 })
  else
    let curSize := minSize g.sizeLeft g.chunkSize
    (true, { g with
      curAddr := g.nextAddr
      curSize := curSize
      sizeLeft := g.sizeLeft - curSize
      nextAddr := g.nextAddr + curSize.setWidth 64 })

/-- The generator in each round of the loop, if there are at most so many. -/
def chunks : Nat → ChunkGenerator → Option (List ChunkGenerator)
  | 0, g => if g.done then some [] else none
  | n + 1, g => if g.done then some [] else (chunks n g.next.2).map (g :: ·)

/-- The chunk that the generator is at, `n` bytes after the start of the region. -/
structure Chunk (start : Addr) (total chunk : BitVec 32) (n : Nat) : Prop where
  addr : g.addr.toNat = start.toNat + n
  pos : 0 < g.size.toNat
  block : 0 < chunk.toNat → g.addr.toNat % chunk.toNat + g.size.toNat ≤ chunk.toNat
  aligned : 0 < n → chunk.toNat ∣ g.addr.toNat
  complete : g.complete.toNat = n
  last : g.last = true ↔ n + g.size.toNat = total.toNat

/-- What the generator relies on: its chunk ends with a block if there is more to come. -/
structure Ready (start : Addr) (total chunk : BitVec 32) (n : Nat) : Prop where
  startAddr : g.startAddr = start
  chunkSize : g.chunkSize = chunk
  curAddr : g.curAddr.toNat = start.toNat + n
  pos : 0 < g.curSize.toNat
  left : n + g.curSize.toNat + g.sizeLeft.toNat = total.toNat
  block : 0 < chunk.toNat → g.curAddr.toNat % chunk.toNat + g.curSize.toNat ≤ chunk.toNat
  aligned : 0 < n → chunk.toNat ∣ g.curAddr.toNat
  more : 0 < g.sizeLeft.toNat → 0 < chunk.toNat ∧
    g.curAddr.toNat % chunk.toNat + g.curSize.toNat = chunk.toNat ∧
    g.nextAddr = g.curAddr + g.curSize.setWidth 64

variable {start : Addr} {total chunk : BitVec 32} {n k : Nat} {g}

theorem eq_zero_iff {w : Nat} {x : BitVec w} : x = 0 ↔ x.toNat = 0 := by
  rw [← toNat_inj]
  simp

theorem minSize_toNat (a b : BitVec 32) : (minSize a b).toNat = min a.toNat b.toNat := by
  unfold minSize
  split
  · next h => rw [lt_def] at h; omega
  · next h => rw [lt_def] at h; omega

theorem sub_minSize_toNat (a b : BitVec 32) :
    (a - minSize a b).toNat = a.toNat - min a.toNat b.toNat := by
  have hmin := minSize_toNat a b
  rw [toNat_sub_of_le (by rw [le_def]; omega), hmin]

theorem Ready.toChunk (h : Ready g start total chunk n) : Chunk g start total chunk n := by
  obtain ⟨hstart, _, hcur, hpos, hleft, hblock, haligned, _⟩ := h
  refine ⟨hcur, hpos, hblock, haligned, ?_, ?_⟩
  · rw [complete, hstart, toNat_setWidth,
      toNat_sub_of_le (by rw [le_def]; omega)]
    omega
  · simp only [last, decide_eq_true_eq, eq_zero_iff, size]
    omega

theorem Ready.next (h : Ready g start total chunk n) (hmore : g.sizeLeft ≠ 0)
    (hfit : start.toNat + total.toNat ≤ 2 ^ 64) :
    Ready g.next.2 start total chunk (n + g.curSize.toNat) := by
  obtain ⟨hstart, hsize, hcur, hpos, hleft, _, _, hend⟩ := h
  have hmore' : 0 < g.sizeLeft.toNat := Nat.pos_of_ne_zero (eq_zero_iff.not.mp hmore)
  obtain ⟨hcpos, hfull, hnext⟩ := hend hmore'
  have hadd : g.nextAddr.toNat = g.curAddr.toNat + g.curSize.toNat := by
    rw [hnext, toNat_add, toNat_setWidth]
    omega
  have hmod : g.nextAddr.toNat % chunk.toNat = 0 := by
    rw [hadd, ← mod_add_mod, hfull, mod_self]
  have hmin := minSize_toNat g.sizeLeft chunk
  have hrest := sub_minSize_toNat g.sizeLeft chunk
  unfold ChunkGenerator.next
  rw [if_neg hmore, hsize]
  refine ⟨hstart, rfl, ?_, ?_, ?_, ?_, fun _ => dvd_of_mod_eq_zero hmod,
    fun hmore => ⟨hcpos, ?_, rfl⟩⟩
  all_goals dsimp only at *
  all_goals omega

theorem mod_add_mod {c : Nat} (a : Nat) (hpos : 0 < c) :
    (a + (c - 1)) % c + (c - a % c) % c = c - 1 := by
  have hdiv := div_add_mod a c
  have hlt := mod_lt a hpos
  by_cases hzero : a % c = 0
  · rw [show a + (c - 1) = c * (a / c) + (c - 1) by omega, mul_add_mod,
      Nat.mod_eq_of_lt (by omega), hzero, Nat.sub_zero, Nat.mod_self, Nat.add_zero]
  · rw [show a + (c - 1) = c * (a / c + 1) + (a % c - 1) by rw [Nat.mul_add]; omega,
      mul_add_mod, mod_eq_of_lt (show a % c - 1 < c by omega),
      mod_eq_of_lt (show c - a % c < c by omega)]
    omega

theorem roundUp_eq (start : Addr) (hk : k < 32) : roundUp start (1#32 <<< k) =
    start + BitVec.ofNat 64 ((2 ^ k - start.toNat % 2 ^ k) % 2 ^ k) := by
  have hmask : ∀ k < 32, ((1#32 <<< k).setWidth 64 - 1 : Addr) = BitVec.ofNat 64 (2 ^ k - 1) ∧
      ~~~((1#32 <<< k).setWidth 64 - 1 : Addr) = allOnes 64 <<< k := by decide
  have hround : roundUp start (1#32 <<< k) =
      maskLowOrderBits (start + BitVec.ofNat 64 (2 ^ k - 1)) k := by
    unfold roundUp maskLowOrderBits addressWidth
    rw [if_neg (by omega), ← (hmask k hk).1, ← (hmask k hk).2]
  have hsum := mod_add_mod start.toNat (Nat.two_pow_pos k)
  have hdiv := Nat.div_add_mod ((start.toNat + (2 ^ k - 1)) % 2 ^ 64) (2 ^ k)
  rw [Nat.mod_mod_of_dvd _ (pow_dvd_pow 2 (by omega : k ≤ 64)), Nat.mul_comm] at hdiv
  apply eq_of_toNat_eq
  rw [hround, maskLowOrderBits_toNat _ (by omega), toNat_add, toNat_ofNat,
    Nat.add_mod_mod, toNat_add, toNat_ofNat, Nat.add_mod_mod]
  omega

/-- The first chunk reaches to the end of its block. -/
theorem firstEnd_eq (start : Addr) (total : BitVec 32)
    (hchunk : chunk = 0 ∨ ∃ k < 32, chunk = 1#32 <<< k) :
    ∃ first : BitVec 32, firstEnd start total chunk = start + first.setWidth 64 ∧
      (chunk = 0 → first = total) ∧
      (0 < chunk.toNat → start.toNat % chunk.toNat + first.toNat = chunk.toNat) := by
  unfold firstEnd
  rcases hchunk with rfl | ⟨k, hk, rfl⟩
  · exact ⟨total, if_pos rfl, fun _ => rfl, nofun⟩
  have hlt : 2 ^ k < 2 ^ 32 := Nat.pow_lt_pow_right (by decide) hk
  have hpow : (1#32 <<< k).toNat = 2 ^ k := by
    rw [BitVec.toNat_shiftLeft, BitVec.toNat_one (by decide), Nat.shiftLeft_eq, Nat.one_mul,
      Nat.mod_eq_of_lt hlt]
  have hpos := Nat.two_pow_pos k
  have hne : ¬1#32 <<< k = 0 := by rw [eq_zero_iff]; omega
  have hmod := Nat.mod_lt start.toNat hpos
  rw [if_neg hne, roundUp_eq start hk]
  by_cases hzero : start.toNat % 2 ^ k = 0
  · refine ⟨1#32 <<< k, ?_, fun h => (hne h).elim, fun _ => ?_⟩
    · rw [hzero, Nat.sub_zero, Nat.mod_self, BitVec.add_zero, if_pos rfl]
    · rw [hpow, hzero, Nat.zero_add]
  · refine ⟨BitVec.ofNat 32 (2 ^ k - start.toNat % 2 ^ k), ?_, fun h => (hne h).elim, fun _ => ?_⟩
    · rw [Nat.mod_eq_of_lt (by omega), if_neg]
      · congr 1
        apply BitVec.eq_of_toNat_eq
        simp only [BitVec.toNat_setWidth, BitVec.toNat_ofNat]
        omega
      · intro heq
        have hz := eq_zero_iff.mp (left_eq_add.mp heq)
        rw [BitVec.toNat_ofNat] at hz
        omega
    · rw [hpow, BitVec.toNat_ofNat]
      omega

theorem new_ready (start : Addr) (total : BitVec 32)
    (hchunk : chunk = 0 ∨ ∃ k < 32, chunk = 1#32 <<< k) :
    ∃ g, new start total chunk = some g ∧ (total = 0 → g.done = true) ∧
      (total ≠ 0 → Ready g start total chunk 0) := by
  have hassert : chunk = 0 ∨ isPowerOf2 chunk = true := by
    have hpow : ∀ k < 32, isPowerOf2 (1#32 <<< k) = true := by decide
    rcases hchunk with h | ⟨k, hk, rfl⟩
    · exact .inl h
    · exact .inr (hpow k hk)
  obtain ⟨first, hend, hplain, hblock⟩ := firstEnd_eq start total hchunk
  have hfirst : (start + first.setWidth 64 - start).setWidth 32 = first := by
    rw [add_sub_cancel_left]
    simp
  unfold new
  dsimp only
  rw [if_pos hassert, hend, hfirst]
  refine ⟨_, rfl, fun hzero => ?_, fun hne => ?_⟩
  · simp [done, minSize, hzero, lt_def]
  rw [ne_eq, eq_zero_iff] at hne
  have hmin := minSize_toNat total first
  have hrest := sub_minSize_toNat total first
  have hmod := mod_lt start.toNat (y := chunk.toNat)
  have hzero (h : chunk.toNat = 0) : first.toNat = total.toNat := by
    rw [hplain (eq_zero_iff.mpr h)]
  refine ⟨rfl, rfl, rfl, ?_, ?_, fun hpos => ?_, nofun, fun hmore => ?_⟩
  all_goals dsimp only at *
  · omega
  · omega
  · have := hblock hpos
    omega
  · have hpos : 0 < chunk.toNat := by omega
    refine ⟨hpos, by have := hblock hpos; omega, ?_⟩
    rw [eq_of_toNat_eq (hmin.trans (by omega : _ = first.toNat))]

theorem Ready.chunks {fuel : Nat} {acc : List ChunkGenerator} (h : Ready g start total chunk n)
    (hfit : start.toNat + total.toNat ≤ 2 ^ 64) (hfuel : total.toNat ≤ n + fuel)
    (hacc : Tiles (fun g => g.size.toNat) (fun n g => Chunk g start total chunk n) n acc) :
    ∃ l, g.chunks fuel = some l ∧ (chunk = 0 → l.length ≤ 1) ∧
      Tiles (fun g => g.size.toNat) (fun n g => Chunk g start total chunk n) total.toNat
        (acc ++ l) := by
  induction fuel generalizing g n acc with
  | zero =>
    have := h.pos
    have := h.left
    omega
  | succ fuel ih =>
    have hpos := h.pos
    have hleft := h.left
    have hdone : g.done = false := by
      rw [done, decide_eq_false_iff_not, eq_zero_iff]
      omega
    unfold ChunkGenerator.chunks
    rw [hdone, if_neg (by decide)]
    by_cases hlast : g.sizeLeft = 0
    · have hend : g.next.2.chunks fuel = some [] := by
        cases fuel <;> simp [ChunkGenerator.next, hlast, ChunkGenerator.chunks, done]
      rw [hend]
      refine ⟨[g], rfl, fun _ => le_refl 1, ?_⟩
      have htiles := hacc.snoc h.toChunk
      rwa [size, show n + g.curSize.toNat = total.toNat by rw [← hleft, hlast]; rfl] at htiles
    · obtain ⟨l, hl, _, htiles⟩ := ih (h.next hlast hfit) (by omega) (hacc.snoc h.toChunk)
      rw [hl]
      refine ⟨g :: l, rfl, fun hzero => ?_, by simpa using htiles⟩
      have := (h.more (Nat.pos_of_ne_zero (eq_zero_iff.not.mp hlast))).1
      rw [hzero] at this
      exact absurd this (by decide)

/-- The loop over the chunks ends, and the chunks follow each other from the start of the region
to its end. -/
theorem new_chunks (hchunk : chunk = 0 ∨ ∃ k < 32, chunk = 1#32 <<< k)
    (hfit : start.toNat + total.toNat ≤ 2 ^ 64) :
    ∃ g l, new start total chunk = some g ∧ g.chunks total.toNat = some l ∧
      (chunk = 0 → l.length ≤ 1) ∧
      Tiles (fun g => g.size.toNat) (fun n g => Chunk g start total chunk n) total.toNat l := by
  obtain ⟨g, hg, hzero, hready⟩ := new_ready start total hchunk
  by_cases htotal : total = 0
  · subst htotal
    refine ⟨g, [], hg, ?_, fun _ => zero_le 1, .nil⟩
    exact if_pos (hzero rfl)
  · obtain ⟨l, hl, hone, htiles⟩ := (hready htotal).chunks hfit (le_add_left _ 0) .nil
    exact ⟨g, l, hg, hl, hone, htiles⟩

/-- Twelve bytes from the address 6 on in blocks of 8. -/
theorem new_chunks_twelve : ∃ g l, new 6 12 8 = some g ∧ g.chunks 12 = some l ∧
    Tiles (fun g => g.size.toNat) (fun n g => Chunk g 6 12 8 n) 12 l := by
  obtain ⟨g, l, hg, hl, _, htiles⟩ :=
    @new_chunks 6 12 8 (.inr ⟨3, by decide, rfl⟩) (by decide)
  exact ⟨g, l, hg, hl, htiles⟩

end ChunkGenerator

end Drain
