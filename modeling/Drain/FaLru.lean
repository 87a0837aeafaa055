import Drain.Bitfield
import Drain.Lib.Holds
import Drain.Lib.Recency

/-! The fully associative tags (`mem/cache/tags/fa_lru`): one doubly linked list of all blocks in
the order of their use, on which the boundaries of several smaller caches are tracked. Blocks are
named by their index in `blks`; a null pointer is `none`, and following it a failure. -/

namespace Drain

open Function

abbrev CachesMask := BitVec 32

structure FALRUBlk where
  prev : Option Nat
  next : Option Nat
  inCachesMask : CachesMask
  tag : Addr
  secure : Bool
  valid : Bool
  deriving DecidableEq

inductive FaLruFailure where
  | null
  | outOfBounds
  | blkNext
  | blkPrev
  | checkMask
  | checkBoundary
  | checkCycle
  | inCachesMask
  | insertValid
  | findTag
  | numErased
  | invalidateValid
  deriving DecidableEq, Repr

/-- The powers of two are what the constructor checks. That the cache and the smallest tracked one
have two blocks at least, and the latter whole ones, it takes for granted. -/
structure FaLruConfig where
  blkSize : Nat
  size : Nat
  minTrackedSize : Nat
  blkSize_pow : blkSize.isPowerOfTwo
  size_pow : size.isPowerOfTwo
  size_lt : size < 2 ^ 32
  two_blocks : 2 * blkSize ≤ size
  whole : blkSize ∣ minTrackedSize
  two_le : 2 * blkSize ≤ minTrackedSize

namespace FaLruConfig

def numBlocks (cfg : FaLruConfig) : Nat := cfg.size / cfg.blkSize

def numTrackedCaches (cfg : FaLruConfig) : Nat :=
  if cfg.minTrackedSize < cfg.size then cfg.size.log2 - cfg.minTrackedSize.log2 else 0

def inAllCachesMask (cfg : FaLruConfig) : CachesMask :=
  (Bitfield.mask cfg.numTrackedCaches).setWidth 32

def blkAlign (cfg : FaLruConfig) (addr : Addr) : Addr := addr &&& ~~~BitVec.ofNat 64 (cfg.blkSize - 1)

def blocks (cfg : FaLruConfig) (i : Nat) : Nat := cfg.minTrackedSize / cfg.blkSize * 2 ^ i

end FaLruConfig

structure FaLru where
  blks : Nat → FALRUBlk
  head : Option Nat
  tail : Option Nat
  tagHash : Addr × Bool → Option Nat
  boundaries : Nat → Option Nat
  hits : Nat → Nat
  misses : Nat → Nat
  accesses : Nat

namespace FaLru

def next (s : FaLru) (b : Nat) : Option Nat := (s.blks b).next

def prev (s : FaLru) (b : Nat) : Option Nat := (s.blks b).prev

def mask (s : FaLru) (b : Nat) : CachesMask := (s.blks b).inCachesMask

def valid (s : FaLru) (b : Nat) : Bool := (s.blks b).valid

def key (s : FaLru) (b : Nat) : Addr × Bool := ((s.blks b).tag, (s.blks b).secure)

def modify (s : FaLru) (b : Nat) (f : FALRUBlk → FALRUBlk) : FaLru :=
  { s with blks := update s.blks b (f (s.blks b)) }

def setNext (s : FaLru) (b : Nat) (p : Option Nat) : FaLru := s.modify b ({ · with next := p })

def setPrev (s : FaLru) (b : Nat) (p : Option Nat) : FaLru := s.modify b ({ · with prev := p })

def setMask (s : FaLru) (b : Nat) (m : CachesMask) : FaLru :=
  s.modify b ({ · with inCachesMask := m })

def setContents (s : FaLru) (b : Nat) (key : Addr × Bool) (valid : Bool) : FaLru :=
  s.modify b ({ · with tag := key.1, secure := key.2, valid })

def deref (p : Option Nat) : Except FaLruFailure Nat :=
  match p with
  | some b => pure b
  | none => throw .null

/-- The loop of `check` and of `init` over the list, with a bound for the iterations. -/
def walk (cfg : FaLruConfig) (visit : FaLru → Nat → CachesMask → Except FaLruFailure FaLru)
    (bound : FaLru → Nat → Nat → Except FaLruFailure FaLru) :
    Nat → Option Nat → Nat → Nat → CachesMask → Nat → FaLru → Except FaLruFailure FaLru
  | _, none, _, _, _, _, s => pure s
  | 0, some _, _, _, _, _, _ => throw .checkCycle
  | fuel + 1, some blk, currSize, trackedCacheSize, inCachesMask, j, s => do
    let s ← visit s blk inCachesMask
    let currSize := currSize + cfg.blkSize
    if currSize = trackedCacheSize ∧ s.tail ≠ some blk then do
      require (j < cfg.numTrackedCaches) .outOfBounds
      let s ← bound s j blk
      walk cfg visit bound fuel (s.next blk) currSize (trackedCacheSize * 2)
        (inCachesMask &&& ~~~(1#32 <<< j)) (j + 1) s
    else walk cfg visit bound fuel (s.next blk) currSize trackedCacheSize inCachesMask j s

def check (cfg : FaLruConfig) (s : FaLru) : Except FaLruFailure FaLru :=
  walk cfg
    (fun s blk m => do
      require (s.mask blk = m) .checkMask
      pure s)
    (fun s j blk => do
      require (s.boundaries j = some blk) .checkBoundary
      pure s)
    (cfg.numBlocks + 1) s.head 0 cfg.minTrackedSize cfg.inAllCachesMask 0 s

def initTracking (cfg : FaLruConfig) (s : FaLru) : Except FaLruFailure FaLru :=
  walk cfg (fun s blk m => pure (s.setMask blk m))
    (fun s j blk => pure { s with boundaries := update s.boundaries j (some blk) })
    (cfg.numBlocks + 1) (if cfg.numTrackedCaches = 0 then none else s.head) 0 cfg.minTrackedSize
    cfg.inAllCachesMask 0 s

def initBlk (cfg : FaLruConfig) (b : Nat) : FALRUBlk where
  prev := if b = 0 then none else some (b - 1)
  next := if b + 1 = cfg.numBlocks then none else some (b + 1)
  inCachesMask := 0
  tag := BitVec.allOnes 64
  secure := false
  valid := false

def init (cfg : FaLruConfig) : Except FaLruFailure FaLru :=
  initTracking cfg
    { blks := initBlk cfg
      head := some 0
      tail := some (cfg.numBlocks - 1)
      tagHash := fun _ => none
      boundaries := fun _ => none
      hits := fun _ => 0
      misses := fun _ => 0
      accesses := 0 }

def shrinkStep (blk : Nat) (updateCachesMask : CachesMask) (s : FaLru)
    (i : Nat) : Except FaLruFailure FaLru := do
  let currentCacheMask := 1#32 <<< i
  if currentCacheMask &&& updateCachesMask ≠ 0 then do
    let b ← deref (s.boundaries i)
    let s := s.setMask b (s.mask b &&& ~~~currentCacheMask)
    pure { s with boundaries := update s.boundaries i (s.prev b) }
  else if s.boundaries i = some blk then
    pure { s with boundaries := update s.boundaries i (s.prev blk) }
  else pure s

def moveBlockToHead (cfg : FaLruConfig) (s : FaLru) (blk : Nat) : Except FaLruFailure FaLru := do
  let updateCachesMask := cfg.inAllCachesMask ^^^ s.mask blk
  let s ← (List.range cfg.numTrackedCaches).foldlM (shrinkStep blk updateCachesMask) s
  pure (s.setMask blk cfg.inAllCachesMask)

def growStep (blk : Nat) (updateCachesMask : CachesMask) (s : FaLru) (i : Nat) :
    Except FaLruFailure FaLru := do
  let currentCacheMask := 1#32 <<< i
  if currentCacheMask &&& updateCachesMask ≠ 0 then do
    let b ← deref (s.boundaries i)
    let boundary := if s.next b = some blk then s.next blk else s.next b
    let b ← deref boundary
    let s := { s with boundaries := update s.boundaries i boundary }
    pure (s.setMask b (s.mask b ||| currentCacheMask))
  else pure s

def moveBlockToTail (cfg : FaLruConfig) (s : FaLru) (blk : Nat) : Except FaLruFailure FaLru := do
  let updateCachesMask := s.mask blk
  let s ← (List.range cfg.numTrackedCaches).foldlM (growStep blk updateCachesMask) s
  pure (s.setMask blk 0#32)

def unlink (s : FaLru) (blk : Nat) : Except FaLruFailure FaLru := do
  let p ← deref (s.prev blk)
  let s := s.setNext p (s.next blk)
  let n ← deref (s.next blk)
  pure (s.setPrev n (s.prev blk))

/-- The part of `moveToHead` that takes the block out of the list. -/
def leaveForHead (s : FaLru) (blk : Nat) : Except FaLruFailure FaLru :=
  if some blk = s.tail then do
    require (s.next blk = none) .blkNext
    let t ← deref (s.prev blk)
    pure { s.setNext t none with tail := some t }
  else unlink s blk

/-- The part of `moveToHead` that swaps the pointers. -/
def pushHead (s : FaLru) (blk : Nat) : Except FaLruFailure FaLru := do
  let s := (s.setNext blk s.head).setPrev blk none
  let h ← deref s.head
  pure { s.setPrev h (some blk) with head := some blk }

def moveToHead (cfg : FaLruConfig) (s : FaLru) (blk : Nat) : Except FaLruFailure FaLru :=
  if some blk = s.head then pure s
  else do
    let s ← moveBlockToHead cfg s blk
    let s ← leaveForHead s blk
    let s ← pushHead s blk
    check cfg s

/-- The part of `moveToTail` that takes the block out of the list. -/
def leaveForTail (s : FaLru) (blk : Nat) : Except FaLruFailure FaLru :=
  if some blk = s.head then do
    require (s.prev blk = none) .blkPrev
    let h ← deref (s.next blk)
    pure { s.setPrev h none with head := some h }
  else unlink s blk

/-- The part of `moveToTail` that swaps the pointers. -/
def pushTail (s : FaLru) (blk : Nat) : Except FaLruFailure FaLru := do
  let s := (s.setPrev blk s.tail).setNext blk none
  let t ← deref s.tail
  pure { s.setNext t (some blk) with tail := some blk }

def moveToTail (cfg : FaLruConfig) (s : FaLru) (blk : Nat) : Except FaLruFailure FaLru :=
  if some blk = s.tail then pure s
  else do
    let s ← moveBlockToTail cfg s blk
    let s ← leaveForTail s blk
    let s ← pushTail s blk
    check cfg s

def findBlock (s : FaLru) (key : Addr × Bool) : Except FaLruFailure (Option Nat) :=
  match s.tagHash key with
  | some b =>
    if s.valid b then do
      require (s.key b = key) .findTag
      pure (some b)
    else pure (some b)
  | none => pure none

def recordAccess (cfg : FaLruConfig) (s : FaLru) (blk : Option Nat) : FaLru :=
  let hit (i : Nat) : Bool :=
    match blk with
    | some b => if i = cfg.numTrackedCaches then s.valid b else 1#32 <<< i &&& s.mask b ≠ 0
    | none => false
  { s with
    hits := fun i => if i ≤ cfg.numTrackedCaches ∧ hit i then s.hits i + 1 else s.hits i
    misses := fun i => if i ≤ cfg.numTrackedCaches ∧ ¬hit i then s.misses i + 1 else s.misses i
    accesses := s.accesses + 1 }

def accessBlock (cfg : FaLruConfig) (s : FaLru) (addr : Addr) (isSecure : Bool) :
    Except FaLruFailure (Option Nat × CachesMask × FaLru) := do
  let blk ← s.findBlock (cfg.blkAlign addr, isSecure)
  match blk with
  | some b =>
    if s.valid b then do
      let t ← moveToHead cfg s b
      pure (blk, s.mask b, recordAccess cfg t blk)
    else pure (blk, 0, recordAccess cfg s blk)
  | none => pure (none, 0, recordAccess cfg s none)

def invalidate (cfg : FaLruConfig) (s : FaLru) (blk : Nat) : Except FaLruFailure FaLru := do
  require (s.tagHash (s.key blk) ≠ none) .numErased
  let s := { s with tagHash := update s.tagHash (s.key blk) none }
  require (s.valid blk = true) .invalidateValid
  moveToTail cfg (s.setContents blk (BitVec.allOnes 64, false) false) blk

def insertBlock (cfg : FaLruConfig) (s : FaLru) (addr : Addr) (isSecure : Bool) (blk : Nat) :
    Except FaLruFailure FaLru := do
  require (s.mask blk = 0) .inCachesMask
  require (s.valid blk = false) .insertValid
  let s ← moveToHead cfg (s.setContents blk (cfg.blkAlign addr, isSecure) false) blk
  pure { s with tagHash := update s.tagHash (s.key blk) (some blk) }

/-- The victim is invalidated first when it is valid. -/
def evict (cfg : FaLruConfig) (s : FaLru) (victim : Nat) : Except FaLruFailure FaLru :=
  if s.valid victim then invalidate cfg s victim else pure s

def replaceVictim (cfg : FaLruConfig) (s : FaLru) (addr : Addr) (isSecure : Bool) :
    Except FaLruFailure (Nat × FaLru) := do
  let victim ← deref s.tail
  let s ← evict cfg s victim
  let s ← insertBlock cfg s addr isSecure victim
  pure (victim, s)

def setValid (s : FaLru) (b : Nat) : FaLru := s.setContents b (s.key b) true

end FaLru

namespace FaLruConfig

variable (cfg : FaLruConfig)

theorem blkSize_pos : 0 < cfg.blkSize := by
  obtain ⟨k, hk⟩ := cfg.blkSize_pow
  rw [hk]
  exact Nat.two_pow_pos k

theorem numBlocks_mul : cfg.numBlocks * cfg.blkSize = cfg.size := by
  obtain ⟨k, hk⟩ := cfg.blkSize_pow
  obtain ⟨m, hm⟩ := cfg.size_pow
  apply Nat.div_mul_cancel
  have hle := cfg.two_blocks
  rw [hk, hm] at hle ⊢
  exact pow_dvd_pow 2 ((Nat.pow_le_pow_iff_right (a := 2) (by decide)).mp (by omega))

theorem two_le_numBlocks : 2 ≤ cfg.numBlocks :=
  (Nat.le_div_iff_mul_le cfg.blkSize_pos).mpr cfg.two_blocks

theorem blocks_mul (i : Nat) : cfg.blocks i * cfg.blkSize = cfg.minTrackedSize * 2 ^ i := by
  rw [blocks, Nat.mul_right_comm, Nat.div_mul_cancel cfg.whole]

theorem two_le_blocks (i : Nat) : 2 ≤ cfg.blocks i :=
  Nat.le_trans ((Nat.le_div_iff_mul_le cfg.blkSize_pos).mpr cfg.two_le)
    (Nat.le_mul_of_pos_right _ (Nat.two_pow_pos i))

theorem blocks_lt_blocks {i j : Nat} (h : i < j) : cfg.blocks i < cfg.blocks j :=
  Nat.mul_lt_mul_of_pos_left (Nat.pow_lt_pow_right (by decide) h)
    (Nat.lt_of_lt_of_le (by decide) ((Nat.le_div_iff_mul_le cfg.blkSize_pos).mpr cfg.two_le))

theorem minTrackedSize_ne : cfg.minTrackedSize ≠ 0 := by
  have := cfg.two_le
  have := cfg.blkSize_pos
  omega

theorem blocks_lt_numBlocks {i : Nat} (h : i < cfg.numTrackedCaches) :
    cfg.blocks i < cfg.numBlocks := by
  rw [numTrackedCaches] at h
  split at h
  · obtain ⟨m, hm⟩ := cfg.size_pow
    apply Nat.lt_of_mul_lt_mul_right (a := cfg.blkSize)
    rw [cfg.blocks_mul, cfg.numBlocks_mul]
    calc cfg.minTrackedSize * 2 ^ i < 2 ^ (cfg.minTrackedSize.log2 + 1) * 2 ^ i :=
          Nat.mul_lt_mul_of_pos_right Nat.lt_log2_self (Nat.two_pow_pos i)
      _ = 2 ^ (cfg.minTrackedSize.log2 + 1 + i) := (Nat.pow_add ..).symm
      _ ≤ 2 ^ cfg.size.log2 := Nat.pow_le_pow_right (by decide) (by omega)
      _ = cfg.size := by rw [hm, Nat.log2_two_pow]
  · omega

theorem numBlocks_le_blocks : cfg.numBlocks ≤ cfg.blocks cfg.numTrackedCaches := by
  apply Nat.le_of_mul_le_mul_right (c := cfg.blkSize) _ cfg.blkSize_pos
  rw [cfg.blocks_mul, cfg.numBlocks_mul, numTrackedCaches]
  split
  · next hlt =>
    obtain ⟨m, hm⟩ := cfg.size_pow
    have hlog : cfg.minTrackedSize.log2 ≤ m := by
      rw [← Nat.log2_two_pow (n := m), ← hm]
      exact (Nat.le_log2 (by omega)).mpr
        ((Nat.log2_self_le cfg.minTrackedSize_ne).trans hlt.le)
    calc cfg.size = 2 ^ cfg.minTrackedSize.log2 * 2 ^ (m - cfg.minTrackedSize.log2) := by
          rw [← Nat.pow_add, Nat.add_sub_cancel' hlog, hm]
      _ ≤ cfg.minTrackedSize * 2 ^ (cfg.size.log2 - cfg.minTrackedSize.log2) := by
          rw [hm, Nat.log2_two_pow]
          exact Nat.mul_le_mul_right _ (Nat.log2_self_le cfg.minTrackedSize_ne)
  · next hge => omega

theorem numTrackedCaches_le : cfg.numTrackedCaches ≤ 32 := by
  rw [numTrackedCaches]
  have hlog : cfg.size.log2 < 32 := by
    have := cfg.two_blocks
    have := cfg.blkSize_pos
    exact (Nat.log2_lt (by omega)).mpr cfg.size_lt
  split <;> omega

theorem getLsbD_inAllCachesMask (i : Nat) :
    cfg.inAllCachesMask.getLsbD i = decide (i < cfg.numTrackedCaches) := by
  have hle := cfg.numTrackedCaches_le
  rw [inAllCachesMask, BitVec.getLsbD_setWidth, Bitfield.getLsbD_mask (by omega)]
  by_cases hi : i < cfg.numTrackedCaches
  · simp [hi]
    omega
  · simp [hi]

end FaLruConfig

namespace FaLru

section Masks

variable {i j : Nat} {m : CachesMask}

theorem getLsbD_clear (hi : i < 32) :
    (m &&& ~~~(1#32 <<< i)).getLsbD j = (m.getLsbD j && decide (i ≠ j)) := by
  by_cases hj : j < 32
  · rw [BitVec.getLsbD_and, BitVec.getLsbD_not, Bitfield.getLsbD_one_shift hi]
    simp [hj]
  · rw [BitVec.getLsbD_of_ge _ _ (not_lt.mp hj), BitVec.getLsbD_of_ge _ _ (not_lt.mp hj)]
    rfl

theorem getLsbD_set (hi : i < 32) :
    (m ||| 1#32 <<< i).getLsbD j = (m.getLsbD j || decide (i = j)) := by
  rw [BitVec.getLsbD_or, Bitfield.getLsbD_one_shift hi]

end Masks

end FaLru

end Drain
