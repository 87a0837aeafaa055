import Drain.Lib.Calls
import Drain.RubyTypes

/-! `Prefetcher`: streams of lines that are fetched ahead, and the filter that finds strides of more
than one line. Strides are C++ `int`s, 32-bit words whose sign is lost where they meet the unsigned
size of a line. -/

namespace Drain

open Function List

structure PrefetchEntry where
  address : Addr := 0
  stride : BitVec 32
  useTime : Nat := 0
  isValid : Bool := false
  type : RubyRequestType := .LD
  deriving DecidableEq

structure PrefetcherParams where
  blockSizeBits : Nat := 6
  numStreams : Nat := 4
  trainMisses : Nat := 4
  numStartupPfs : Nat := 1
  numNonunitFilters : Nat := 8
  crossPages : Bool := false
  pageShift : Nat := 12
  blockSizeBits_lt : blockSizeBits < 32 := by decide
  numStreams_pos : 0 < numStreams := by decide
  numStartupPfs_le : numStartupPfs ≤ 8 := by decide

structure Prefetcher where
  array : Nat → PrefetchEntry
  nonunitFilter : Nat → Addr := fun _ => 0
  nonunitStride : Nat → BitVec 32 := fun _ => 0
  nonunitHit : Nat → Nat := fun _ => 0
  nonunitIndex : Nat := 0
  -- what the controller was asked to prefetch
  prefetches : List (Addr × RubyRequestType) := []
  curCycle : Nat := 0

structure NonunitAccess where
  hit : Bool
  stride : BitVec 32
  alloc : Bool
  prefetcher : Prefetcher

namespace Prefetcher

variable (p : PrefetcherParams) (pf : Prefetcher)

def new : Prefetcher where
  array := fun _ => { stride := blockSizeBytes p.blockSizeBits }

def pageAddress (addr : Addr) : Addr := maskLowOrderBits addr p.pageShift

def setStream (index : Nat) (entry : PrefetchEntry) : Prefetcher :=
  { pf with array := update pf.array index entry }

def enqueuePrefetch (addr : Addr) (type : RubyRequestType) : Prefetcher :=
  { pf with prefetches := pf.prefetches ++ [(addr, type)] }

/-- The loop of `initializeStream`, for the number of prefetches that remain. -/
def startStream (pageAddr : Addr) (index : Nat) (entry : PrefetchEntry) :
    Nat → Addr → Prefetcher → Prefetcher
  | 0, lineAddr, pf => pf.setStream index { entry with address := lineAddr }
  | k + 1, lineAddr, pf =>
    let lineAddr := makeNextStrideAddress p.blockSizeBits lineAddr entry.stride
    if pageAddr ≠ pageAddress p lineAddr ∧ p.crossPages = false then
      pf.setStream index { entry with isValid := false }
    else startStream pageAddr index entry k lineAddr (pf.enqueuePrefetch lineAddr entry.type)

def initializeStream (address : Addr) (stride : BitVec 32) (index : Nat) (type : RubyRequestType) :
    Prefetcher :=
  let lineAddr := makeLineAddress p.blockSizeBits address
  startStream p (pageAddress p lineAddr) index ⟨lineAddr, stride, pf.curCycle, true, type⟩
    p.numStartupPfs (makeLineAddress p.blockSizeBits lineAddr) pf

/-- A stream matches a line if it would have been the `j`-th before the last one. -/
def streamMatches (address : Addr) (i : Nat) : Bool :=
  (pf.array i).isValid && (range p.numStartupPfs).any fun j =>
    makeNextStrideAddress p.blockSizeBits (pf.array i).address
      (-((pf.array i).stride * BitVec.ofNat 32 j)) = address

/-- The stream found, if any, and the parameter `index`, which no path writes. -/
def getPrefetchEntry (address : Addr) (index : Nat) : Option Nat × Nat :=
  ((range p.numStreams).find? (pf.streamMatches p address), index)

def clearNonunitEntry (i : Nat) : Prefetcher :=
  { pf with
    nonunitFilter := update pf.nonunitFilter i 0
    nonunitStride := update pf.nonunitStride i 0
    nonunitHit := update pf.nonunitHit i 0 }

def seenNonunit (i : Nat) (lineAddr : Addr) (delta : BitVec 32) : Prefetcher :=
  { pf with
    nonunitStride := update pf.nonunitStride i delta
    nonunitFilter := update pf.nonunitFilter i lineAddr }

def setNonunitHit (i hit : Nat) : Prefetcher :=
  { pf with nonunitHit := update pf.nonunitHit i hit }

def enterNonunit (lineAddr : Addr) : Prefetcher :=
  { pf with
    nonunitFilter := update pf.nonunitFilter pf.nonunitIndex lineAddr
    nonunitStride := update pf.nonunitStride pf.nonunitIndex 0
    nonunitHit := update pf.nonunitHit pf.nonunitIndex 0
    nonunitIndex := if p.numNonunitFilters ≤ pf.nonunitIndex + 1 then 0 else pf.nonunitIndex + 1 }

def findNonunit (address : Addr) : Option Nat :=
  (range p.numNonunitFilters).find? fun i =>
    pageAddress p (pf.nonunitFilter i) = pageAddress p address

def nonunitDelta (i : Nat) (lineAddr : Addr) : BitVec 32 :=
  (lineAddr - pf.nonunitFilter i).setWidth 32

def hitNonunit (i : Nat) (lineAddr : Addr) (stride : BitVec 32) : NonunitAccess :=
  let delta := pf.nonunitDelta i lineAddr
  if delta ≠ 0 then
    if delta = pf.nonunitStride i then
      let pf := pf.setNonunitHit i (pf.nonunitHit i + 1)
      if p.trainMisses < pf.nonunitHit i then
        -- the quotient of unsigned numbers
        let stride := pf.nonunitStride i / blockSizeBytes p.blockSizeBits
        ⟨true, stride, true, (pf.clearNonunitEntry i).seenNonunit i lineAddr delta⟩
      else ⟨true, stride, false, pf.seenNonunit i lineAddr delta⟩
    else ⟨true, stride, false, (pf.setNonunitHit i 0).seenNonunit i lineAddr delta⟩
  else ⟨false, stride, false, pf⟩

def accessNonunitFilter (address : Addr) (stride : BitVec 32) : NonunitAccess :=
  let lineAddr := makeLineAddress p.blockSizeBits address
  match pf.findNonunit p address with
  | some i => pf.hitNonunit p i lineAddr stride
  | none => ⟨false, stride, false, pf.enterNonunit p lineAddr⟩

def strideBlock (bits : Nat) (a : Addr) (stride : BitVec 32) (j : Nat) : Addr :=
  a + BitVec.ofInt 64 (j * stride.toInt * 2 ^ bits)

section Strides

variable {bits : Nat} {a : Addr} {stride : BitVec 32}

theorem dvd_toNat_ofInt (hbits : bits ≤ 64) (x : Int) :
    2 ^ bits ∣ (BitVec.ofInt 64 (x * 2 ^ bits)).toNat := by
  rw [BitVec.toNat_ofInt, ← Int.natCast_dvd_natCast, Int.toNat_of_nonneg (by omega)]
  have hpow : ((2 ^ bits : Nat) : Int) ∣ ((2 ^ 64 : Nat) : Int) :=
    Int.natCast_dvd_natCast.mpr (Nat.pow_dvd_pow 2 hbits)
  apply Int.dvd_of_emod_eq_zero
  rw [Int.emod_emod_of_dvd _ hpow]
  exact Int.emod_eq_zero_of_dvd ⟨x, by push_cast; ring⟩

theorem blockSizeBytes_mul (hbits : bits < 32) (hpos : 0 ≤ stride.toInt)
    (hfit : stride.toInt * 2 ^ bits < 2 ^ 32) :
    (blockSizeBytes bits * stride).setWidth 64 = BitVec.ofInt 64 (stride.toInt * 2 ^ bits) := by
  have hnat : stride.toInt = stride.toNat := by
    rw [BitVec.toInt_eq_toNat_cond] at hpos ⊢
    split at hpos <;> omega
  rw [hnat] at hfit ⊢
  have hfit' : stride.toNat * 2 ^ bits < 2 ^ 32 := by exact_mod_cast hfit
  apply BitVec.eq_of_toNat_eq
  have hcast : (stride.toNat : Int) * 2 ^ bits = ((stride.toNat * 2 ^ bits : Nat) : Int) := by
    push_cast
    rfl
  rw [BitVec.toNat_setWidth, BitVec.toNat_mul, blockSizeBytes_toNat hbits, Nat.mul_comm,
    Nat.mod_eq_of_lt hfit', hcast, BitVec.ofInt_natCast, BitVec.toNat_ofNat]

theorem strideBlock_line (hbits : bits < 32) (ha : maskLowOrderBits a bits = a) (stride : BitVec 32)
    (j : Nat) :
    maskLowOrderBits (strideBlock bits a stride j) bits = strideBlock bits a stride j := by
  rw [maskLowOrderBits_eq_self (by omega)] at ha ⊢
  exact dvd_toNat_add (by omega) ha (dvd_toNat_ofInt (by omega) _)

theorem makeNextStrideAddress_strideBlock (hbits : bits < 32) (hpos : 0 ≤ stride.toInt)
    (hfit : stride.toInt * 2 ^ bits < 2 ^ 32) (ha : maskLowOrderBits a bits = a) (j : Nat) :
    makeNextStrideAddress bits (strideBlock bits a stride j) stride =
      strideBlock bits a stride (j + 1) := by
  rw [makeNextStrideAddress, strideBlock_line hbits ha stride, blockSizeBytes_mul hbits hpos hfit]
  unfold strideBlock
  rw [BitVec.add_assoc, ← BitVec.ofInt_add]
  congr 2
  push_cast
  ring

end Strides

section Streams

variable {p} {a pageAddr : Addr} {index : Nat}

theorem streamMatches_eq_true {address : Addr} {i : Nat} : pf.streamMatches p address i = true ↔
    (pf.array i).isValid = true ∧ ∃ j < p.numStartupPfs,
      makeNextStrideAddress p.blockSizeBits (pf.array i).address
        (-((pf.array i).stride * BitVec.ofNat 32 j)) = address := by
  simp [streamMatches]

theorem startStream_eq (index : Nat) (entry : PrefetchEntry)
    (ha : maskLowOrderBits a p.blockSizeBits = a) (hpos : 0 ≤ entry.stride.toInt)
    (hfit : entry.stride.toInt * 2 ^ p.blockSizeBits < 2 ^ 32) (k j : Nat)
    (hpage : ∀ n, j < n → n ≤ j + k →
      pageAddress p (strideBlock p.blockSizeBits a entry.stride n) = pageAddr) :
    startStream p pageAddr index entry k (strideBlock p.blockSizeBits a entry.stride j) pf =
      { pf with
        prefetches := pf.prefetches ++ (range' (j + 1) k).map fun n =>
          (strideBlock p.blockSizeBits a entry.stride n, entry.type)
        array := update pf.array index
          { entry with address := strideBlock p.blockSizeBits a entry.stride (j + k) } } := by
  induction k generalizing j pf with
  | zero => simp [startStream, setStream]
  | succ k ih =>
    have hnext := makeNextStrideAddress_strideBlock p.blockSizeBits_lt hpos hfit ha j
    have hin := hpage (j + 1) (by omega) (by omega)
    have hlast : j + 1 + k = j + (k + 1) := by omega
    unfold startStream
    simp only [hnext]
    rw [if_neg (by simp [hin]), ih _ (j + 1) (fun n hn hle => hpage n (by omega) (by omega))]
    simp [enqueuePrefetch, range'_succ, hlast]

theorem initializeStream_eq {address : Addr} {stride : BitVec 32} {type : RubyRequestType}
    (hpos : 0 ≤ stride.toInt) (hfit : stride.toInt * 2 ^ p.blockSizeBits < 2 ^ 32)
    (ha : makeLineAddress p.blockSizeBits address = a) (hpage : ∀ j, 1 ≤ j → j ≤ p.numStartupPfs →
      pageAddress p (strideBlock p.blockSizeBits a stride j) = pageAddress p a) :
    pf.initializeStream p address stride index type =
      { pf with
        prefetches := pf.prefetches ++ (range' 1 p.numStartupPfs).map fun j =>
          (strideBlock p.blockSizeBits a stride j, type)
        array := update pf.array index
          ⟨strideBlock p.blockSizeBits a stride p.numStartupPfs, stride, pf.curCycle, true,
            type⟩ } := by
  subst ha
  have hline := makeLineAddress_idem p.blockSizeBits address
  have hzero : strideBlock p.blockSizeBits (makeLineAddress p.blockSizeBits address) stride 0 =
      makeLineAddress p.blockSizeBits address := by simp [strideBlock]
  have hstart := startStream_eq pf index
    ⟨makeLineAddress p.blockSizeBits address, stride, pf.curCycle, true, type⟩ hline hpos hfit
    p.numStartupPfs 0 (fun n hn hle => hpage n hn (by omega))
  rw [hzero] at hstart
  simpa [initializeStream, hline] using hstart

/-- What `initializeStream` and `getPrefetchEntry` do for strides that are not negative and whose
distance in bytes fits in 32 bits: every line is prefetched in order, and the last one is found. -/
theorem stream_started (address : Addr) (stride : BitVec 32) (index : Nat) (type : RubyRequestType)
    (hindex : index < p.numStreams) (hstartup : 1 ≤ p.numStartupPfs) (hpos : 0 ≤ stride.toInt)
    (hfit : stride.toInt * 2 ^ p.blockSizeBits < 2 ^ 32)
    (ha : makeLineAddress p.blockSizeBits address = a) (hpage : ∀ j, 1 ≤ j → j ≤ p.numStartupPfs →
      pageAddress p (strideBlock p.blockSizeBits a stride j) = pageAddress p a) :
    let started := pf.initializeStream p address stride index type
    let last := strideBlock p.blockSizeBits a stride p.numStartupPfs
    started.prefetches = pf.prefetches ++ (range' 1 p.numStartupPfs).map (fun j =>
        (strideBlock p.blockSizeBits a stride j, type)) ∧
      ∃ i, started.getPrefetchEntry p last 0 = (some i, 0) ∧ (started.array i).isValid = true ∧
        (i = index ∨ i < index ∧ pf.streamMatches p last i = true) ∧
        (i = index ∨ p.numStartupPfs = 1 →
          makeLineAddress p.blockSizeBits (started.array i).address = last) := by
  have ha' : maskLowOrderBits a p.blockSizeBits = a := maskLowOrderBits_of_line ha
  have hlast := strideBlock_line p.blockSizeBits_lt ha' stride p.numStartupPfs
  intro started last
  have heq : started = _ := initializeStream_eq pf hpos hfit ha hpage
  have hown : started.array index = ⟨last, stride, pf.curCycle, true, type⟩ := by simp [heq, last]
  have hother : ∀ i, i ≠ index → started.array i = pf.array i := fun i hi => by simp [heq, hi]
  have hmatch : started.streamMatches p last index = true := by
    rw [streamMatches_eq_true, hown]
    exact ⟨rfl, 0, hstartup, by simp [makeNextStrideAddress, last, hlast]⟩
  refine ⟨by simp [heq], ?_⟩
  obtain ⟨i, hi⟩ := Option.isSome_iff_exists.mp (find?_isSome.mpr
    ⟨index, mem_range.mpr hindex, hmatch⟩)
  obtain ⟨hfound, -, hfirst⟩ := find?_range_eq_some.mp hi
  have hle : i ≤ index := by
    by_contra hlt
    have := hfirst index (not_le.mp hlt)
    simp [hmatch] at this
  obtain ⟨hvalid, k, hk, hnext⟩ := (streamMatches_eq_true _).mp hfound
  refine ⟨i, by rw [getPrefetchEntry, hi], hvalid, ?_, ?_⟩
  · rcases hle.eq_or_lt with heq | hlt
    · exact .inl heq
    · rw [streamMatches, hother i hlt.ne] at hfound
      exact .inr ⟨hlt, hfound⟩
  · rintro (rfl | hone)
    · rw [hown]
      exact hlast
    · obtain rfl : k = 0 := by omega
      simpa [makeNextStrideAddress, makeLineAddress] using hnext

end Streams

theorem stream_started_four_lines :
    let p : PrefetcherParams := { numStartupPfs := 4 }
    let started := (new p).initializeStream p 0x1008#64 2#32 0 .LD
    started.prefetches = [(0x1080#64, .LD), (0x1100#64, .LD), (0x1180#64, .LD), (0x1200#64, .LD)] ∧
      (started.getPrefetchEntry p 0x1200#64 0).1.isSome = true := by
  intro p started
  obtain ⟨hqueue, i, hi, -⟩ := stream_started (p := p) (a := 0x1000#64) (new p) 0x1008#64
    2#32 0 .LD (by decide) (by decide) (by decide) (by decide) (by decide)
    (fun j h1 h4 => by
      have h : ∀ j ≤ 4, 1 ≤ j →
          pageAddress p (strideBlock 6 0x1000#64 2#32 j) = pageAddress p 0x1000#64 := by decide
      exact h j h4 h1)
  refine ⟨hqueue.trans (by decide), ?_⟩
  have hlast : strideBlock p.blockSizeBits 0x1000#64 2#32 p.numStartupPfs = 0x1200#64 := by decide
  rw [hlast] at hi
  rw [hi]
  rfl

/-- With two lines the first is prefetched but not found, and of a stream that runs backwards
nothing is prefetched: the lines are in the page of the start in both. -/
theorem stream_lost_two_lines :
    let p : PrefetcherParams := { numStartupPfs := 2 }
    let started := (new p).initializeStream p 0x1000#64 1#32 0 .LD
    let back := (new p).initializeStream p 0x1080#64 (-1#32) 0 .LD
    (∀ j ∈ [1, 2], pageAddress p (strideBlock 6 0x1000#64 1#32 j) = pageAddress p 0x1000#64 ∧
        (strideBlock 6 0x1000#64 1#32 j, .LD) ∈ started.prefetches) ∧
      (started.getPrefetchEntry p (strideBlock 6 0x1000#64 1#32 1) 0).1 = none ∧
      (∀ j ∈ [1, 2], pageAddress p (strideBlock 6 0x1080#64 (-1#32) j) = pageAddress p 0x1080#64) ∧
      back.prefetches = [] := by
  decide

section Nonunit

variable {p} {pf} {i : Nat} {line : Addr} {stride : BitVec 32}

/-- A hit that is not for the line seen last writes the line and the difference into the entry, also
where the entry was cleared before. -/
theorem hitNonunit_cases (pf : Prefetcher) (i : Nat) (line : Addr) (stride : BitVec 32) :
    pf.hitNonunit p i line stride = ⟨false, stride, false, pf⟩ ∨
      (pf.nonunitDelta i line ≠ 0 ∧ (pf.hitNonunit p i line stride).hit = true ∧
        (pf.hitNonunit p i line stride).prefetcher.nonunitFilter =
          update pf.nonunitFilter i line ∧
        (pf.hitNonunit p i line stride).prefetcher.nonunitStride =
          update pf.nonunitStride i (pf.nonunitDelta i line)) := by
  by_cases hzero : pf.nonunitDelta i line = 0
  · left
    simp [hitNonunit, hzero]
  · right
    refine ⟨hzero, ?_⟩
    unfold hitNonunit
    simp only [ne_eq, hzero, not_false_eq_true, if_true]
    split <;> try split
    all_goals simp [seenNonunit, setNonunitHit, clearNonunitEntry]

theorem hitNonunit_alloc (h : (pf.hitNonunit p i line stride).alloc = true) :
    pf.nonunitStride i = pf.nonunitDelta i line ∧ pf.nonunitDelta i line ≠ 0 ∧
      (pf.hitNonunit p i line stride).stride =
        pf.nonunitDelta i line / blockSizeBytes p.blockSizeBits ∧
      (pf.hitNonunit p i line stride).prefetcher.nonunitHit i = 0 := by
  unfold hitNonunit at h ⊢
  simp only at h ⊢
  split at h
  · next hne =>
    split at h
    · next hsame =>
      split at h
      · next htrained =>
        simp only [if_pos hne, if_pos hsame, if_pos htrained]
        refine ⟨hsame.symm, hne, ?_, ?_⟩
        · simp [hsame, setNonunitHit]
        · simp [seenNonunit, clearNonunitEntry]
      · cases h
    · cases h
  · cases h

end Nonunit

end Prefetcher

/-- The filter along a sequence of misses, with the line of the last access that hit each entry. -/
structure Training where
  filter : Prefetcher
  lastHit : Nat → Option Addr := fun _ => none

namespace Training

variable (p : PrefetcherParams)

def access (t : Training) (address : Addr) : Training :=
  let line := makeLineAddress p.blockSizeBits address
  let answer := t.filter.accessNonunitFilter p address 0
  { filter := answer.prefetcher
    lastHit := match t.filter.findNonunit p address with
      | some i => if answer.hit then update t.lastHit i (some line) else t.lastHit
      | none => update t.lastHit t.filter.nonunitIndex none }

def trained (misses : List Addr) : Training := misses.foldl (access p) { filter := .new p }

/-- Entries hold line addresses, and an entry with a stride holds the line that hit it last. -/
structure Ok (t : Training) : Prop where
  aligned : ∀ i, 2 ^ p.blockSizeBits ∣ (t.filter.nonunitFilter i).toNat
  seen : ∀ i, t.filter.nonunitStride i ≠ 0 → t.lastHit i = some (t.filter.nonunitFilter i)

variable {p} {t : Training}

theorem dvd_toNat_line (address : Addr) :
    2 ^ p.blockSizeBits ∣ (makeLineAddress p.blockSizeBits address).toNat := by
  have hbits := p.blockSizeBits_lt
  rw [← maskLowOrderBits_eq_self (by omega)]
  exact maskLowOrderBits_of_line rfl

theorem Ok.access (h : Ok p t) (address : Addr) : Ok p (t.access p address) := by
  have hline := dvd_toNat_line (p := p) address
  unfold Training.access Prefetcher.accessNonunitFilter
  cases hfind : t.filter.findNonunit p address with
  | none =>
    refine ⟨fun i => ?_, fun i hi => ?_⟩
    all_goals by_cases heq : i = t.filter.nonunitIndex
    · simpa [Prefetcher.enterNonunit, heq] using hline
    · simpa [Prefetcher.enterNonunit, heq] using h.aligned i
    · simp [Prefetcher.enterNonunit, heq] at hi
    · have hi' : t.filter.nonunitStride i ≠ 0 := by simpa [Prefetcher.enterNonunit, heq] using hi
      simpa [Prefetcher.enterNonunit, heq] using h.seen i hi'
  | some k =>
    have hcases := Prefetcher.hitNonunit_cases (p := p) t.filter k
      (makeLineAddress p.blockSizeBits address) 0
    dsimp only
    generalize t.filter.hitNonunit p k (makeLineAddress p.blockSizeBits address) 0 = answer
      at hcases
    rcases hcases with rfl | ⟨-, hhit, hfilter, hstride⟩
    · exact ⟨h.aligned, h.seen⟩
    · refine ⟨fun i => ?_, fun i hi => ?_⟩
      all_goals by_cases heq : i = k
      · simpa [hfilter, heq] using hline
      · simpa [hfilter, heq] using h.aligned i
      · simp [hfilter, hhit, heq]
      · simpa [hfilter, hhit, heq] using h.seen i (by simpa [hstride, heq] using hi)

theorem ok_trained (misses : List Addr) : Ok p (trained p misses) := by
  unfold trained
  have hinit : Ok p { filter := .new p } := ⟨fun _ => ⟨0, rfl⟩, fun _ hi => absurd rfl hi⟩
  generalize ({ filter := .new p } : Training) = t at hinit
  induction misses generalizing t with
  | nil => exact hinit
  | cons address misses ih => exact ih _ (hinit.access address)

theorem stride_mul (hbits : p.blockSizeBits < 32) {line prev : Addr}
    (hline : 2 ^ p.blockSizeBits ∣ line.toNat) (hprev : 2 ^ p.blockSizeBits ∣ prev.toNat)
    (hlt : prev.toNat < line.toNat) (hnear : line.toNat - prev.toNat < 2 ^ 31) :
    ((line - prev).setWidth 32 / blockSizeBytes p.blockSizeBits).toInt * 2 ^ p.blockSizeBits =
      (line.toNat : Int) - prev.toNat := by
  obtain ⟨n, hn⟩ := Nat.dvd_sub hline hprev
  have hsize := blockSizeBytes_toNat hbits
  have hdelta : ((line - prev).setWidth 32).toNat = 2 ^ p.blockSizeBits * n := by
    rw [BitVec.toNat_setWidth, BitVec.toNat_sub_of_le (BitVec.le_def.mpr hlt.le), hn]
    exact Nat.mod_eq_of_lt (by omega)
  have hquotient : ((line - prev).setWidth 32 / blockSizeBytes p.blockSizeBits).toNat = n := by
    rw [BitVec.toNat_udiv, hdelta, hsize, Nat.mul_div_cancel_left _ (Nat.two_pow_pos _)]
  have hn_lt : n < 2 ^ 31 := by
    have := Nat.le_mul_of_pos_left n (Nat.two_pow_pos p.blockSizeBits)
    omega
  rw [BitVec.toInt_eq_toNat_of_lt (by rw [hquotient]; omega), hquotient]
  have hcast : ((2 ^ p.blockSizeBits * n : Nat) : Int) = line.toNat - prev.toNat := by omega
  rw [← hcast]
  push_cast
  ring

/-- What an access that reports a stream has done: its stride is the distance from the access before
it if that lies below, and of the entry only the count of hits is cleared. -/
theorem nonunit_allocated (misses : List Addr) (address : Addr) (stride : BitVec 32)
    (halloc : ((trained p misses).filter.accessNonunitFilter p address stride).alloc = true) :
    let t := trained p misses
    let answer := t.filter.accessNonunitFilter p address stride
    let line := makeLineAddress p.blockSizeBits address
    ∃ i prev, t.filter.findNonunit p address = some i ∧ t.lastHit i = some prev ∧
      (prev.toNat < line.toNat → line.toNat - prev.toNat < 2 ^ 31 →
        answer.stride.toInt * 2 ^ p.blockSizeBits = (line.toNat : Int) - prev.toNat) ∧
      answer.prefetcher.nonunitHit i = 0 ∧ answer.prefetcher.nonunitFilter i = line ∧
      answer.prefetcher.nonunitStride i ≠ 0 := by
  intro t answer line
  have hok : Ok p t := ok_trained misses
  cases hfind : t.filter.findNonunit p address with
  | none => simp [Prefetcher.accessNonunitFilter, t, hfind] at halloc
  | some i =>
    have hanswer : answer = t.filter.hitNonunit p i line stride := by
      simp [answer, Prefetcher.accessNonunitFilter, hfind, line]
    have halloc' : (t.filter.hitNonunit p i line stride).alloc = true := hanswer ▸ halloc
    obtain ⟨hsame, hne, hstride, hhit⟩ := Prefetcher.hitNonunit_alloc halloc'
    rcases Prefetcher.hitNonunit_cases (p := p) t.filter i line stride with
      hnone | ⟨-, -, hfilter, hdelta⟩
    · rw [hnone] at halloc'
      cases halloc'
    refine ⟨i, t.filter.nonunitFilter i, rfl, hok.seen i (hsame ▸ hne), fun hlt hnear => ?_, ?_⟩
    · rw [hanswer, hstride]
      exact stride_mul p.blockSizeBits_lt (dvd_toNat_line address) (hok.aligned i) hlt hnear
    · rw [hanswer]
      refine ⟨hhit, by simp [hfilter], ?_⟩
      simpa [hdelta] using hne

theorem nonunit_allocated_ascending :
    let p : PrefetcherParams := { trainMisses := 1 }
    let t := trained p [0x1000#64, 0x1080#64, 0x1100#64]
    let answer := t.filter.accessNonunitFilter p 0x1180#64 0
    answer.alloc = true ∧ ∃ i, t.lastHit i = some 0x1100#64 ∧ answer.stride.toInt * 2 ^ 6 = 0x80 ∧
      answer.prefetcher.nonunitHit i = 0 := by
  intro p t answer
  have halloc : answer.alloc = true := by decide +kernel
  have hfind : t.filter.findNonunit p 0x1180#64 = some 0 := by decide +kernel
  have hlast : t.lastHit 0 = some 0x1100#64 := by decide +kernel
  obtain ⟨i, prev, hi, hprev, hstride, hhit, -⟩ :=
    nonunit_allocated (p := p) [0x1000#64, 0x1080#64, 0x1100#64] 0x1180#64 0 halloc
  obtain rfl : i = 0 := Option.some.inj (hi.symm.trans hfind)
  obtain rfl : prev = 0x1100#64 := Option.some.inj (hprev.symm.trans hlast)
  have hmul := hstride (by decide) (by decide)
  exact ⟨halloc, 0, hlast, hmul.trans (by decide), hhit⟩

/-- Four lines that go down by two lines each: the stride reported is not -2, and the entry keeps
its address and stride. -/
theorem nonunit_wrong_descending :
    let p : PrefetcherParams := { trainMisses := 1 }
    let t := trained p [0x1400#64, 0x1380#64, 0x1300#64]
    let answer := t.filter.accessNonunitFilter p 0x1280#64 0
    answer.alloc = true ∧ t.filter.findNonunit p 0x1280#64 = some 0 ∧
      t.lastHit 0 = some 0x1300#64 ∧ answer.stride.toInt = 67108862 ∧
      answer.prefetcher.nonunitFilter 0 = 0x1280#64 ∧
      (answer.prefetcher.nonunitStride 0).toInt = -128 := by
  decide +kernel

end Training

end Drain
