import Drain.Lib.Holds
import Drain.Lib.InPlace

/-! The histograms of the memory system (`mem/ruby/common/Histogram.cc`): bins that are doubled in
size when a sample does not fit, and merging of one histogram into another. -/

namespace Drain

open Function List Nat

inductive HistogramFailure where
  | differentBins
  | logAndLinear
  | binSizeLog
  | binSizesDiffer
  | indexOutOfRange
  | endlessLoop
  deriving DecidableEq, Repr

/-- A bin size of -1 is a histogram to the base 2. -/
structure Histogram where
  data : Nat → Nat
  bins : Nat
  max : Nat
  count : Nat
  binsize : Int
  largestBin : Nat
  sumSamples : Nat
  sumSquaredSamples : Nat
  bins_pos : 0 < bins
  binsize_ok : binsize = -1 ∨ 1 ≤ binsize

namespace Histogram

def new (binsize : Int) (bins : Nat) (hbins : 0 < bins) (hbinsize : binsize = -1 ∨ 1 ≤ binsize) :
    Histogram where
  data := fun _ => 0
  bins := bins
  max := 0
  count := 0
  binsize := binsize
  largestBin := 0
  sumSamples := 0
  sumSquaredSamples := 0
  bins_pos := hbins
  binsize_ok := hbinsize

def pairBins (bins : Nat) (data : Nat → Nat) : Nat → Nat :=
  let data := overwrite id (fun d i => d (i * 2) + d (i * 2 + 1)) (range (bins / 2)) data
  overwrite id (fun _ _ => 0) (range' (bins / 2) (bins - bins / 2)) data

def doubleBinSize (h : Histogram) : Except HistogramFailure Histogram :=
  if hlog : h.binsize = -1 then throw .binSizeLog
  else pure { h with
    data := pairBins h.bins h.data
    binsize := h.binsize * 2
    binsize_ok := by have := h.binsize_ok; omega }

/-- `while (m_max >= t_bins * m_binsize) doubleBinSize()`, with a bound for the iterations. -/
def grow : Nat → Histogram → Except HistogramFailure Histogram
  | 0, h => pure h
  | fuel + 1, h =>
    if h.bins * h.binsize ≤ h.max then do
      let h ← h.doubleBinSize
      grow fuel h
    else pure h

/-- `while (binsize > m_binsize) doubleBinSize()`, with a bound for the iterations. -/
def growTo (binsize : Int) : Nat → Histogram → Except HistogramFailure Histogram
  | 0, h => pure h
  | fuel + 1, h =>
    if h.binsize < binsize then do
      let h ← h.doubleBinSize
      growTo binsize fuel h
    else pure h

def bump (index : Nat) (h : Histogram) : Except HistogramFailure Histogram := do
  require (index < h.bins) .indexOutOfRange
  pure { h with
    data := update h.data index (h.data index + 1)
    largestBin := Nat.max h.largestBin index }

def logIndex (h : Histogram) (value : Nat) : Nat :=
  if value = 0 then 0
  else if h.bins ≤ value.log2 + 1 then h.bins - 1 else value.log2 + 1

def tally (h : Histogram) (value : Nat) : Histogram :=
  { h with
    max := Nat.max h.max value
    count := h.count + 1
    sumSamples := h.sumSamples + value
    sumSquaredSamples := h.sumSquaredSamples + value * value }

def add (h : Histogram) (value : Nat) : Except HistogramFailure Histogram :=
  if h.binsize = -1 then (h.tally value).bump (h.logIndex value)
  else do
    let h ← (h.tally value).grow ((h.tally value).max + 1)
    h.bump (value / h.binsize.toNat)

def resize (h : Histogram) (bins : Nat) (hbins : 0 < bins) : Histogram :=
  { h with
    data := fun i => if i < h.bins then h.data i else 0
    bins := bins
    bins_pos := hbins }

def addTotals (h hist : Histogram) : Histogram :=
  { h with
    max := Nat.max h.max hist.max
    count := h.count + hist.count
    sumSamples := h.sumSamples + hist.sumSamples
    sumSquaredSamples := h.sumSquaredSamples + hist.sumSquaredSamples }

def logSample (i : Nat) : Nat := if i = 0 then 0 else 1 <<< (i - 1)

def replayLog (bins : Nat) (hist h : Histogram) : Except HistogramFailure Histogram :=
  (range bins).foldlM (fun h i => do
    require (i < hist.bins) .indexOutOfRange
    (replicate (hist.data i) (logSample i)).foldlM add h) h

def addBin (hist h : Histogram) (i : Nat) : Except HistogramFailure Histogram := do
  require (i < h.bins ∧ i < hist.bins) .indexOutOfRange
  let sum := h.data i + hist.data i
  pure { h with
    data := update h.data i sum
    largestBin := if 0 < sum then i else h.largestBin }

def addBins (bins : Nat) (hist h : Histogram) : Except HistogramFailure Histogram :=
  (range bins).foldlM (addBin hist) h

def fitBins (h hist : Histogram) : Histogram :=
  if hist.bins = h.bins then h else h.resize hist.bins hist.bins_pos

/-- `h.add(hist)`, with what becomes of the two histograms. The number of bins that the loops run
through is the one before `m_data` is resized. -/
def addHistogram (h hist : Histogram) : Except HistogramFailure (Histogram × Histogram) := do
  require (hist.bins = h.bins ∨ h.count = 0) .differentBins
  let bins := h.bins
  let h := (h.fitBins hist).addTotals hist
  if hist.binsize = -1 ∧ h.binsize = -1 then
    let h ← replayLog bins hist h
    pure (h, hist)
  else if 1 ≤ hist.binsize ∧ 1 ≤ h.binsize then do
    let hist ← hist.growTo h.binsize h.binsize.toNat
    let h ← h.growTo hist.binsize hist.binsize.toNat
    require (h.binsize = hist.binsize) .binSizesDiffer
    let h ← addBins bins hist h
    pure (h, hist)
  else throw .logAndLinear

/-- `h.add(h)`. The loops over a histogram to the base 2 add the samples whose number bounds
them. -/
def addSelf (h : Histogram) : Except HistogramFailure Histogram :=
  if h.binsize = -1 then do
    require (∀ i < h.bins, h.data i = 0) .endlessLoop
    pure (h.addTotals h)
  else addBins h.bins h (h.addTotals h)

end Histogram

inductive HistogramCall (ι : Type) where
  | add (i : ι) (value : Nat)
  | merge (i j : ι)

namespace Histogram

variable {ι : Type} [DecidableEq ι]

def call (s : ι → Histogram) : HistogramCall ι → Except HistogramFailure (ι → Histogram)
  | .add i value => do
    let h ← (s i).add value
    pure (update s i h)
  | .merge i j =>
    if i = j then do
      let h ← (s i).addSelf
      pure (update s i h)
    else do
      let (h, hist) ← (s i).addHistogram (s j)
      pure (update (update s i h) j hist)

def run (s : ι → Histogram) (calls : List (HistogramCall ι)) :
    Except HistogramFailure (ι → Histogram) :=
  calls.foldlM call s

/-- The samples that a histogram has been given, directly or with the histograms merged into it. -/
def recordCall (samples : ι → List Nat) : HistogramCall ι → ι → List Nat
  | .add i value => update samples i (value :: samples i)
  | .merge i j => update samples i (samples j ++ samples i)

def recorded (calls : List (HistogramCall ι)) : ι → List Nat :=
  calls.foldl recordCall fun _ => []

section Bins

variable {bins : Nat} {data : Nat → Nat}

theorem pairBins_lt {i : Nat} (hi : i < bins / 2) :
    pairBins bins data i = data (i * 2) + data (i * 2 + 1) := by
  have hreads : ReadsUnwritten id (fun (d : Nat → Nat) i => d (i * 2) + d (i * 2 + 1))
      (range (bins / 2)) := by
    refine pairwise_lt_range.imp fun {a b} hab => ⟨hab.ne, fun d x => ?_⟩
    have heven : b * 2 ≠ a := by omega
    have hodd : b * 2 + 1 ≠ a := by omega
    simp [heven, hodd]
  have hnot : ∀ a ∈ range' (bins / 2) (bins - bins / 2), id a ≠ i := by
    intro a ha
    have := (mem_range'_1.mp ha).1
    exact ne_of_gt (hi.trans_le this)
  have hpair := overwrite_of_mem (d := data) hreads (mem_range.mpr hi)
  exact (overwrite_of_notMem hnot).trans hpair

theorem pairBins_ge {i : Nat} (hi : bins / 2 ≤ i) (hlt : i < bins) : pairBins bins data i = 0 := by
  have hreads : ReadsUnwritten id (fun (_ : Nat → Nat) _ => 0)
      (range' (bins / 2) (bins - bins / 2)) :=
    (pairwise_lt_range' _).imp fun hab => ⟨hab.ne, fun _ _ => rfl⟩
  have hmem : i ∈ range' (bins / 2) (bins - bins / 2) :=
    mem_range'_1.mpr ⟨hi, by omega⟩
  have hclear := fun d => overwrite_of_mem (d := d) hreads hmem
  exact hclear _

theorem sum_range_pairs (data : Nat → Nat) (k : Nat) :
    ∑ i ∈ Finset.range k, (data (i * 2) + data (i * 2 + 1)) = ∑ i ∈ Finset.range (k * 2), data i := by
  induction k with
  | zero => rfl
  | succ k ih =>
    rw [Finset.sum_range_succ, ih, succ_mul, Finset.sum_range_succ, Finset.sum_range_succ,
      add_assoc]

theorem sum_pairBins (bins : Nat) (data : Nat → Nat) :
    ∑ i ∈ Finset.range bins, pairBins bins data i = ∑ i ∈ Finset.range (bins / 2 * 2), data i := by
  have hhalf : bins / 2 ≤ bins := div_le_self _ _
  rw [← sum_range_pairs, ← Finset.sum_range_add_sum_Ico _ hhalf]
  have hupper : ∑ i ∈ Finset.Ico (bins / 2) bins, pairBins bins data i = 0 := by
    refine Finset.sum_eq_zero fun i hi => ?_
    obtain ⟨hle, hlt⟩ := Finset.mem_Ico.mp hi
    exact pairBins_ge hle hlt
  rw [hupper, add_zero]
  exact Finset.sum_congr rfl fun i hi => pairBins_lt (Finset.mem_range.mp hi)

end Bins

def binTotal (h : Histogram) : Nat := ∑ i ∈ Finset.range h.bins, h.data i

/-- The sizes and the sums are those of the samples. -/
structure Conserves (h : Histogram) (samples : List Nat) : Prop where
  count : h.count = samples.length
  binTotal : h.binTotal = samples.length
  sumSamples : h.sumSamples = samples.sum

def Lossless (h : Histogram) : Prop := h.bins % 2 = 0 ∨ h.data (h.bins - 1) = 0

/-- What doubling the bins some times does to a linear histogram. -/
structure Regrouped (h h' : Histogram) : Prop where
  bins : h'.bins = h.bins
  max : h'.max = h.max
  count : h'.count = h.count
  sumSamples : h'.sumSamples = h.sumSamples
  linear : 1 ≤ h'.binsize
  binTotal : h.Lossless → h'.binTotal = h.binTotal ∧ h'.Lossless

section Growing

variable {h h' h'' : Histogram} {samples : List Nat}

theorem Regrouped.refl (hlin : 1 ≤ h.binsize) : Regrouped h h :=
  ⟨rfl, rfl, rfl, rfl, hlin, fun hl => ⟨rfl, hl⟩⟩

theorem Regrouped.trans (h₁ : Regrouped h h') (h₂ : Regrouped h' h'') : Regrouped h h'' where
  bins := h₂.bins.trans h₁.bins
  max := h₂.max.trans h₁.max
  count := h₂.count.trans h₁.count
  sumSamples := h₂.sumSamples.trans h₁.sumSamples
  linear := h₂.linear
  binTotal hl := by
    obtain ⟨htotal, hl'⟩ := h₁.binTotal hl
    exact ⟨(h₂.binTotal hl').1.trans htotal, (h₂.binTotal hl').2⟩

theorem Regrouped.conserves (hr : Regrouped h h') (hl : h.Lossless) (hc : h.Conserves samples) :
    h'.Conserves samples where
  count := hr.count.trans hc.count
  binTotal := (hr.binTotal hl).1.trans hc.binTotal
  sumSamples := hr.sumSamples.trans hc.sumSamples

theorem binTotal_pairs (hl : h.Lossless) :
    ∑ i ∈ Finset.range (h.bins / 2 * 2), h.data i = h.binTotal := by
  unfold binTotal
  rcases mod_two_eq_zero_or_one h.bins with heven | hodd
  · rw [show h.bins / 2 * 2 = h.bins by omega]
  · have hlast : h.data (h.bins - 1) = 0 := hl.resolve_left (by omega)
    have hsucc : h.bins = h.bins / 2 * 2 + 1 := by omega
    rw [show h.bins - 1 = h.bins / 2 * 2 by omega] at hlast
    rw [hsucc, Finset.sum_range_succ, ← hsucc, hlast, add_zero]

theorem doubleBinSize_regroups (hlin : 1 ≤ h.binsize) :
    ∃ h', h.doubleBinSize = .ok h' ∧ Regrouped h h' ∧ h'.binsize = h.binsize * 2 := by
  have hpos := h.bins_pos
  unfold doubleBinSize
  rw [dif_neg (by omega)]
  refine ⟨_, rfl, ⟨rfl, rfl, rfl, rfl, ?_, fun hl => ⟨?_, .inr ?_⟩⟩, rfl⟩
  · change 1 ≤ h.binsize * 2
    omega
  · exact (sum_pairBins _ _).trans (binTotal_pairs hl)
  · change pairBins h.bins h.data (h.bins - 1) = 0
    exact pairBins_ge (by omega) (by omega)

theorem grow_regroups (fuel : Nat) (hlin : 1 ≤ h.binsize)
    (hfuel : (h.max : Int) + 1 ≤ fuel + h.bins * h.binsize) :
    ∃ h', h.grow fuel = .ok h' ∧ Regrouped h h' ∧ (h'.max : Int) < h'.bins * h'.binsize ∧
      ((h.max : Int) < h.bins * h.binsize → h' = h) := by
  induction fuel generalizing h with
  | zero =>
    exact ⟨h, rfl, .refl hlin, by omega, fun _ => rfl⟩
  | succ fuel ih =>
    unfold grow
    split
    · next hsmall =>
      obtain ⟨h₁, heq, hr, hsize⟩ := doubleBinSize_regroups hlin
      have hpos : (0 : Int) < h.bins * h.binsize :=
        Int.mul_pos (Int.natCast_pos.mpr h.bins_pos) (by omega)
      have hfuel' : (h₁.max : Int) + 1 ≤ fuel + h₁.bins * h₁.binsize := by
        rw [hr.max, hr.bins, hsize, ← mul_assoc]
        push_cast at hfuel
        omega
      obtain ⟨h₂, heq', hr', hroom, -⟩ := ih hr.linear hfuel'
      refine ⟨h₂, ?_, hr.trans hr', hroom, fun hlt => absurd hlt (by omega)⟩
      rw [heq]
      exact heq'
    · next hlarge => exact ⟨h, rfl, .refl hlin, by omega, fun _ => rfl⟩

theorem growTo_regroups (binsize : Int) (fuel : Nat) (hlin : 1 ≤ h.binsize)
    (hfuel : binsize ≤ fuel + h.binsize) :
    ∃ h', h.growTo binsize fuel = .ok h' ∧ Regrouped h h' ∧ binsize ≤ h'.binsize ∧
      (binsize ≤ h.binsize → h' = h) ∧
      (h.binsize < binsize → h.binsize * 2 ≤ h'.binsize ∧ h'.binsize < binsize * 2) := by
  induction fuel generalizing h with
  | zero => exact ⟨h, rfl, .refl hlin, by omega, fun _ => rfl, fun hlt => absurd hlt (by omega)⟩
  | succ fuel ih =>
    unfold growTo
    split
    · next hlt =>
      obtain ⟨h₁, heq, hr, hsize⟩ := doubleBinSize_regroups hlin
      obtain ⟨h₂, heq', hr', hle, hsame, hgrown⟩ := ih (h := h₁) hr.linear (by omega)
      refine ⟨h₂, by rw [heq]; exact heq', hr.trans hr', hle, fun hge => absurd hge (by omega),
        fun _ => ?_⟩
      rcases lt_or_ge h₁.binsize binsize with hmore | hdone
      · have := hgrown hmore
        omega
      · rw [hsame hdone]
        omega
    · next hge => exact ⟨h, rfl, .refl hlin, by omega, fun _ => rfl, fun hlt => absurd hlt hge⟩

end Growing

section Adding

variable {h hist : Histogram} {samples samples' : List Nat} {value : Nat}

theorem bump_holds {index : Nat} (hindex : index < h.bins) (hcount : h.count = samples.length + 1)
    (htotal : h.binTotal = samples.length) (hsum : h.sumSamples = samples.sum + value) :
    Holds (h.bump index) (Conserves · (value :: samples)) (fun _ => False) := by
  refine holds_require_bind hindex ⟨hcount, ?_, hsum.trans (add_comm _ _)⟩
  have hmem : index ∈ Finset.range h.bins := Finset.mem_range.mpr hindex
  change ∑ i ∈ Finset.range h.bins, update h.data index (h.data index + 1) i = _
  rw [Finset.sum_update_of_mem hmem, Finset.sdiff_singleton_eq_erase, add_right_comm,
    Finset.add_sum_erase _ _ hmem]
  exact congrArg (· + 1) htotal

theorem logIndex_lt (h : Histogram) (value : Nat) : h.logIndex value < h.bins := by
  have hpos := h.bins_pos
  unfold logIndex
  split
  · exact hpos
  · split <;> omega

/-- The sample fits, or making room for it loses nothing. -/
def AddRegular (h : Histogram) (value : Nat) : Prop :=
  h.binsize = -1 ∨ (Nat.max h.max value : Int) < h.bins * h.binsize ∨ h.Lossless

theorem add_holds (hc : h.Conserves samples) (hreg : h.AddRegular value) :
    Holds (h.add value) (Conserves · (value :: samples)) (fun _ => False) := by
  unfold add
  split
  · exact bump_holds (logIndex_lt _ value) (congrArg (· + 1) hc.count) hc.binTotal
      (congrArg (· + value) hc.sumSamples)
  · next hlog =>
    have hlin : 1 ≤ h.binsize := h.binsize_ok.resolve_left hlog
    have hfuel : ((h.tally value).max : Int) + 1 ≤
        ((h.tally value).max + 1 : Nat) + (h.tally value).bins * (h.tally value).binsize := by
      have : 0 ≤ (h.bins : Int) * h.binsize := Int.mul_nonneg (by omega) (by omega)
      push_cast
      exact le_add_of_nonneg_right this
    obtain ⟨h₂, hgrow, hr, hroom, hsame⟩ := grow_regroups (h := h.tally value) _ hlin hfuel
    have htotal : h₂.binTotal = h.binTotal := by
      rcases hreg with hlog' | hfits | hl
      · exact absurd hlog' hlog
      · rw [hsame hfits]
        rfl
      · exact (hr.binTotal hl).1
    refine holds_bind_of_ok hgrow (bump_holds ?_ ?_ (htotal.trans hc.binTotal) ?_)
    · have hle : value ≤ h₂.max := by
        rw [hr.max]
        exact Nat.le_max_right _ _
      have hpos := hr.linear
      have hlt : (value : Int) < (h₂.binsize.toNat * h₂.bins : Nat) := by
        rw [Int.natCast_mul, Int.toNat_of_nonneg (by omega), mul_comm]
        omega
      exact Nat.div_lt_of_lt_mul (Int.ofNat_lt.mp hlt)
    · exact hr.count.trans (congrArg (· + 1) hc.count)
    · exact hr.sumSamples.trans (congrArg (· + value) hc.sumSamples)

end Adding

section Merging

variable {h hist : Histogram} {samples samples' : List Nat}

theorem Conserves.data_eq_zero (hc : h.Conserves samples) (hcount : h.count = 0) {i : Nat}
    (hi : i < h.bins) : h.data i = 0 := by
  have htotal : h.binTotal = 0 := by rw [hc.binTotal, ← hc.count, hcount]
  exact Finset.sum_eq_zero_iff.mp htotal i (Finset.mem_range.mpr hi)

theorem addBins_holds {bins : Nat} (hbins : bins ≤ h.bins) (hbins' : bins ≤ hist.bins) :
    Holds (addBins bins hist h) (fun h' => h'.bins = h.bins ∧ h'.count = h.count ∧
      h'.sumSamples = h.sumSamples ∧
      ∀ i, h'.data i = if i < bins then h.data i + hist.data i else h.data i)
      (fun _ => False) := by
  refine holds_foldlM_range (fun (k : Nat) (h' : Histogram) => h'.bins = h.bins ∧ h'.count = h.count ∧
    h'.sumSamples = h.sumSamples ∧
    ∀ i, h'.data i = if i < k then h.data i + hist.data i else h.data i)
    ⟨rfl, rfl, rfl, fun i => (if_neg (not_lt_zero i)).symm⟩ ?_
  rintro k hk h' ⟨hb, hcount, hsum, hdata⟩
  refine holds_require_bind ⟨by omega, by omega⟩ ⟨hb, hcount, hsum, fun i => ?_⟩
  change update h'.data k (h'.data k + hist.data k) i = _
  rcases eq_or_ne i k with rfl | hne
  · simp [hdata]
  · rw [update_of_ne hne, hdata]
    have hiff : i < k ↔ i < k + 1 := by omega
    simp only [hiff]

/-- A merge whose result the totals describe: nothing is counted twice, no bin is left out, and
doubling loses nothing. -/
structure MergeRegular (h hist : Histogram) : Prop where
  bins : h.count = 0 → hist.bins = h.bins ∨ h.bins < hist.bins ∧ hist.count = 0
  log : h.binsize = -1 → hist.binsize = -1 → hist.count = 0
  lossless : h.binsize < hist.binsize → h.Lossless
  lossless' : hist.binsize < h.binsize → hist.Lossless

theorem replayLog_eq {bins : Nat} (hbins : bins ≤ hist.bins)
    (hdata : ∀ i < hist.bins, hist.data i = 0) : replayLog bins hist h = .ok h := by
  have hstep : Holds (replayLog bins hist h) (· = h) (fun _ => False) := by
    refine holds_foldlM_range (fun _ h' => h' = h) rfl ?_
    rintro i hi h' rfl
    refine holds_require_bind (by omega) ?_
    rw [hdata i (by omega)]
    exact rfl
  obtain ⟨h', heq, rfl⟩ := hstep.exists_ok
  exact heq

theorem addBins_conserves {bins : Nat} (hbins : h.bins = hist.bins) (hle : bins ≤ hist.bins)
    (hzero : ∀ i, bins ≤ i → i < hist.bins → hist.data i = 0) (hc' : hist.Conserves samples')
    (hcount : h.count = samples.length + samples'.length) (htotal : h.binTotal = samples.length)
    (hsum : h.sumSamples = samples.sum + samples'.sum) :
    Holds (addBins bins hist h) (Conserves · (samples' ++ samples)) (fun _ => False) := by
  refine (addBins_holds (hbins ▸ hle) hle).imp fun h' hh' => ?_
  obtain ⟨hb, hcount', hsum', hdata⟩ := hh'
  refine ⟨?_, ?_, ?_⟩
  · rw [hcount', hcount, length_append, add_comm]
  · have hadd : ∀ i ∈ Finset.range h.bins, h'.data i = h.data i + hist.data i := by
      intro i hi
      rw [hdata]
      split
      · rfl
      · next hge =>
        rw [hzero i (not_lt.mp hge) (hbins ▸ Finset.mem_range.mp hi), add_zero]
    unfold binTotal
    rw [hb, Finset.sum_congr rfl hadd, Finset.sum_add_distrib, length_append, add_comm,
      ← htotal, ← hc'.binTotal]
    nth_rewrite 1 [hbins]
    rfl
  · rw [hsum', hsum, sum_append, add_comm]

theorem fitBins_bins : (h.fitBins hist).bins = hist.bins := by
  unfold fitBins
  split
  · next heq => exact heq.symm
  · rfl

theorem fitBins_binsize : (h.fitBins hist).binsize = h.binsize := by
  unfold fitBins
  split <;> rfl

theorem fitBins_conserves (hc : h.Conserves samples) (hfit : hist.bins = h.bins ∨ h.count = 0) :
    (h.fitBins hist).Conserves samples := by
  unfold fitBins
  split
  · exact hc
  · next hne =>
    have hempty := hfit.resolve_left hne
    refine ⟨hc.count, ?_, hc.sumSamples⟩
    rw [← hc.count, hempty]
    refine Finset.sum_eq_zero fun i _ => ?_
    change (if i < h.bins then h.data i else 0) = 0
    split
    · next hi => exact hc.data_eq_zero hempty hi
    · rfl

theorem fitBins_lossless (hc : h.Conserves samples) (hfit : hist.bins = h.bins ∨ h.count = 0)
    (hl : h.Lossless) : (h.fitBins hist).Lossless := by
  by_cases heq : hist.bins = h.bins
  · rw [fitBins, if_pos heq]
    exact hl
  · have hempty := hfit.resolve_left heq
    have hcount : (h.fitBins hist).count = 0 := by rwa [fitBins, if_neg heq]
    have hpos := (h.fitBins hist).bins_pos
    exact .inr ((fitBins_conserves hc hfit).data_eq_zero hcount (by omega))

def Foreseen (e : HistogramFailure) : Prop :=
  e = .differentBins ∨ e = .logAndLinear ∨ e = .binSizesDiffer

theorem growTo_pair (hlin : 1 ≤ h.binsize) (hlin' : 1 ≤ hist.binsize)
    (hl : h.binsize < hist.binsize → h.Lossless) (hl' : hist.binsize < h.binsize → hist.Lossless)
    (hc' : hist.Conserves samples') :
    ∃ hist₁ h₁, hist.growTo h.binsize h.binsize.toNat = .ok hist₁ ∧
      h.growTo hist₁.binsize hist₁.binsize.toNat = .ok h₁ ∧
      Regrouped h h₁ ∧ hist₁.bins = hist.bins ∧
      (h₁.binsize = hist₁.binsize → h₁.binTotal = h.binTotal ∧ hist₁.Conserves samples') := by
  obtain ⟨hist₁, heq, hr, hle, hsame, hgrown⟩ :=
    growTo_regroups (h := hist) h.binsize h.binsize.toNat hlin' (by omega)
  have hlin₁ := hr.linear
  obtain ⟨h₁, heq', hr', hle', hsame', hgrown'⟩ :=
    growTo_regroups (h := h) hist₁.binsize hist₁.binsize.toNat hlin (by omega)
  refine ⟨hist₁, h₁, heq, heq', hr', hr.bins, fun hsizes => ?_⟩
  rcases lt_or_ge hist.binsize h.binsize with hlt | hge
  · have := hgrown hlt
    have hstay : hist₁.binsize ≤ h.binsize := by
      by_contra hover
      have := hgrown' (not_le.mp hover)
      omega
    rw [hsame' hstay]
    exact ⟨rfl, hr.conserves (hl' hlt) hc'⟩
  · rw [hsame hge] at hsame' hgrown' ⊢
    refine ⟨?_, hc'⟩
    rcases hge.lt_or_eq with hlt | heq
    · exact (hr'.binTotal (hl hlt)).1
    · rw [hsame' heq.ge]

theorem addHistogram_holds (hc : h.Conserves samples) (hc' : hist.Conserves samples')
    (hreg : h.MergeRegular hist) :
    Holds (h.addHistogram hist)
      (fun r => r.1.Conserves (samples' ++ samples) ∧ r.2.Conserves samples') Foreseen := by
  unfold addHistogram
  refine holds_bind.mpr (holds_require.mpr ⟨fun hfit => ?_, fun _ => .inl rfl⟩)
  have hbins : h.bins ≤ hist.bins := by
    rcases hfit with heq | hempty
    · exact heq.ge
    · rcases hreg.bins hempty with heq | hlt
      · exact heq.ge
      · exact hlt.1.le
  have hzero : ∀ {hist₁ : Histogram}, hist₁.Conserves samples' → hist₁.bins = hist.bins →
      ∀ i, h.bins ≤ i → i < hist₁.bins → hist₁.data i = 0 := by
    intro hist₁ hc₁ hb i hge hlt
    have hempty : h.count = 0 := hfit.resolve_left (by omega)
    have hnone : hist.count = 0 := ((hreg.bins hempty).resolve_left (by omega)).2
    exact hc₁.data_eq_zero (by rw [hc₁.count, ← hc'.count, hnone]) hlt
  have hc₁ : (h.fitBins hist).Conserves samples := fitBins_conserves hc hfit
  have hcount : ((h.fitBins hist).addTotals hist).count = samples.length + samples'.length :=
    congrArg₂ (· + ·) hc₁.count hc'.count
  have hsum : ((h.fitBins hist).addTotals hist).sumSamples = samples.sum + samples'.sum :=
    congrArg₂ (· + ·) hc₁.sumSamples hc'.sumSamples
  have hsize : ((h.fitBins hist).addTotals hist).binsize = h.binsize := fitBins_binsize
  dsimp only
  split
  · next hlog =>
    -- nothing is replayed, since `hist` is empty
    rw [hsize] at hlog
    have hnone := hreg.log hlog.2 hlog.1
    have hnil : samples' = [] := eq_nil_of_length_eq_zero (hc'.count.symm.trans hnone)
    rw [replayLog_eq hbins fun i => hc'.data_eq_zero hnone]
    subst hnil
    exact ⟨⟨hcount, hc₁.binTotal, hsum⟩, hc'⟩
  split
  · next hlinear =>
    rw [hsize] at hlinear
    obtain ⟨hist₁, h₁, heq, heq', hr, hb, hequal⟩ :=
      growTo_pair (h := (h.fitBins hist).addTotals hist) (hsize ▸ hlinear.2) hlinear.1 (fun hlt => fitBins_lossless hc hfit (hreg.lossless (hsize ▸ hlt)))
        (fun hlt => hreg.lossless' (hsize ▸ hlt)) hc'
    refine holds_bind_of_ok heq (holds_bind_of_ok heq' ?_)
    refine holds_bind.mpr (holds_require.mpr ⟨fun hsizes => ?_, fun _ => .inr (.inr rfl)⟩)
    obtain ⟨htotal, hc₂⟩ := hequal hsizes
    have hbins₁ : h₁.bins = hist₁.bins := hr.bins.trans (fitBins_bins.trans hb.symm)
    refine holds_bind.mpr ?_
    refine (addBins_conserves hbins₁ (hb ▸ hbins) (hzero hc₂ hb) hc₂ (hr.count.trans hcount)
      (htotal.trans hc₁.binTotal) (hr.sumSamples.trans hsum)).mono ?_ fun _ _ => False.elim
    exact fun h₂ _ hc₃ => ⟨hc₃, hc₂⟩
  · exact .inr (.inl rfl)

theorem addSelf_holds (hc : h.Conserves samples) (hreg : h.binsize = -1 → h.count = 0) :
    Holds h.addSelf (Conserves · (samples ++ samples)) (fun _ => False) := by
  have hcount : (h.addTotals h).count = samples.length + samples.length :=
    congrArg₂ (· + ·) hc.count hc.count
  have hsum : (h.addTotals h).sumSamples = samples.sum + samples.sum :=
    congrArg₂ (· + ·) hc.sumSamples hc.sumSamples
  unfold addSelf
  split
  · next hlog =>
    have hnone := hreg hlog
    have hnil : samples = [] := eq_nil_of_length_eq_zero (hc.count.symm.trans hnone)
    refine holds_require_bind (fun i hi => hc.data_eq_zero hnone hi) ?_
    subst hnil
    exact ⟨hcount, hc.binTotal, hsum⟩
  · exact addBins_conserves (h := h.addTotals h) rfl le_rfl
      (fun i hge hlt => absurd hlt (not_lt.mpr hge)) hc hcount hc.binTotal hsum

end Merging

section Runs

variable {s : ι → Histogram} {samples : ι → List Nat}

def Regular (s : ι → Histogram) : HistogramCall ι → Prop
  | .add i value => (s i).AddRegular value
  | .merge i j => (s i).MergeRegular (s j)

def RegularRun : (ι → Histogram) → List (HistogramCall ι) → Prop
  | _, [] => True
  | s, c :: calls => Regular s c ∧ ∀ s', call s c = .ok s' → RegularRun s' calls

theorem conserves_update (hc : ∀ k, (s k).Conserves (samples k)) {i : ι} {h : Histogram}
    {l : List Nat} (hi : h.Conserves l) :
    ∀ k, (update s i h k).Conserves (update samples i l k) := by
  intro k
  rcases eq_or_ne k i with rfl | hne
  · rwa [update_self, update_self]
  · rw [update_of_ne hne, update_of_ne hne]
    exact hc k

theorem call_holds (hc : ∀ k, (s k).Conserves (samples k)) {c : HistogramCall ι}
    (hreg : Regular s c) :
    Holds (call s c) (fun s' => ∀ k, (s' k).Conserves (recordCall samples c k)) Foreseen := by
  cases c with
  | add i value =>
    refine holds_bind.mpr ((add_holds (hc i) hreg).mono ?_ fun _ _ => False.elim)
    exact fun h _ hh => conserves_update hc hh
  | merge i j =>
    dsimp only [call]
    split
    · next heq =>
      subst heq
      refine holds_bind.mpr ((addSelf_holds (hc i) fun hlog => hreg.log hlog hlog).mono ?_
        fun _ _ => False.elim)
      exact fun h _ hh => conserves_update hc hh
    · next hne =>
      refine holds_bind.mpr ((addHistogram_holds (hc i) (hc j) hreg).imp ?_)
      rintro ⟨h, hist⟩ ⟨hh, hhist⟩ k
      have hboth := conserves_update (conserves_update (i := i) hc hh) (i := j) hhist k
      have hj : update (update samples i (samples j ++ samples i)) j (samples j) =
          update samples i (samples j ++ samples i) := by
        rw [update_eq_self_iff, update_of_ne (Ne.symm hne)]
      rwa [hj] at hboth

theorem run_holds (calls : List (HistogramCall ι)) (hc : ∀ k, (s k).Conserves (samples k))
    (hreg : RegularRun s calls) :
    Holds (run s calls) (fun s' => ∀ k, (s' k).Conserves (calls.foldl recordCall samples k))
      Foreseen := by
  induction calls generalizing s samples with
  | nil => exact hc
  | cons c calls ih =>
    unfold run
    rw [foldlM_cons, holds_bind]
    exact (call_holds hc hreg.1).mono (fun s' hs' hc' => ih hc' (hreg.2 s' hs')) fun _ _ => id

theorem new_conserves {binsize : Int} {bins : Nat} (hbins : 0 < bins)
    (hbinsize : binsize = -1 ∨ 1 ≤ binsize) : (new binsize bins hbins hbinsize).Conserves [] :=
  ⟨rfl, Finset.sum_const_zero, rfl⟩

/-- Runs in which no bin is lost by doubling or resizing and no sample is counted twice: the sizes
and sums of every histogram are those of the samples that it was given. -/
theorem histogram_conserves (s : ι → Histogram)
    (hnew : ∀ i, ∃ binsize bins hbins hbinsize, s i = new binsize bins hbins hbinsize)
    (calls : List (HistogramCall ι)) (hreg : RegularRun s calls) :
    Holds (run s calls) (fun s' => ∀ i, (s' i).count = (recorded calls i).length ∧
      ∑ k ∈ Finset.range (s' i).bins, (s' i).data k = (s' i).count ∧
      (s' i).sumSamples = (recorded calls i).sum) Foreseen := by
  have hc : ∀ i, (s i).Conserves [] := by
    intro i
    obtain ⟨binsize, bins, hbins, hbinsize, heq⟩ := hnew i
    rw [heq]
    exact new_conserves hbins hbinsize
  refine (run_holds calls hc hreg).imp fun s' hs' i => ?_
  exact ⟨(hs' i).count, (hs' i).binTotal.trans (hs' i).count.symm, (hs' i).sumSamples⟩

def fourBins : Bool → Histogram := fun _ => new 1 4 (by decide) (by decide)

/-- A sample for which the bins are doubled, and a merge with bins of another size. -/
def growAndMerge : List (HistogramCall Bool) := [.add true 3, .add true 5, .merge false true]

theorem histogram_conserves_merged :
    RegularRun fourBins growAndMerge ∧ ∃ s, run fourBins growAndMerge = .ok s ∧
      (s false).count = 2 ∧ ∑ k ∈ Finset.range (s false).bins, (s false).data k = 2 ∧
      (s false).sumSamples = 8 := by
  have heven : ∀ h : Histogram, h.bins = 4 → h.Lossless := fun h hbins => .inl (by rw [hbins])
  have hreg : RegularRun fourBins growAndMerge := by
    refine ⟨.inr (.inr (heven _ rfl)), fun s₁ h₁ => ?_⟩
    obtain rfl := Except.ok.inj h₁
    refine ⟨.inr (.inr (heven _ rfl)), fun s₂ h₂ => ?_⟩
    obtain rfl := Except.ok.inj h₂
    exact ⟨⟨fun _ => .inl rfl, nofun, fun _ => heven _ rfl, fun _ => heven _ rfl⟩,
      fun _ _ => trivial⟩
  obtain ⟨s, hs⟩ : ∃ s, run fourBins growAndMerge = .ok s := ⟨_, rfl⟩
  have hall := (histogram_conserves fourBins (fun _ => ⟨1, 4, by decide, by decide, rfl⟩)
    growAndMerge hreg).of_ok hs false
  exact ⟨hreg, s, hs, hall.1, hall.2.1.trans hall.1, hall.2.2⟩

/-- The last one of three bins is lost when they are doubled. Histograms to the base 2 count what
is merged twice. A histogram that is resized for a merge only takes over as many bins as it had. -/
theorem histogram_miscounts :
    ((run (fun _ : Unit => new 1 3 (by decide) (by decide)) [.add () 2, .add () 3]).toOption.map
      fun s => ((s ()).count, (s ()).binTotal)) = some (2, 1) ∧
    ((run (fun _ : Bool => new (-1) 4 (by decide) (by decide))
      [.add true 5, .merge false true]).toOption.map
      fun s => ((s false).count, (s false).sumSamples)) = some (2, 9) ∧
    ((run (fun b : Bool => new 1 (if b then 4 else 2) (by cases b <;> decide) (by decide))
      [.add true 3, .merge false true]).toOption.map
      fun s => ((s false).count, (s false).binTotal)) = some (1, 0) := by
  refine ⟨?_, ?_, ?_⟩ <;> rfl

end Runs

end Histogram

end Drain
