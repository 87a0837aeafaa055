import Drain.Lib.Holds
import Drain.Lib.InPlace

/-! The histogram statistics (`Stats::HistStor` of `base/statistics`), which regroup their buckets
in place when a sample lies outside them. Counters are exact integers. -/

namespace Drain

open Function List

inductive HistStorFailure where
  | minMax
  | pairs
  | index
  deriving DecidableEq, Repr

structure HistStor where
  minBucket : Int
  maxBucket : Int
  bucketSize : Int
  sum : Int
  squares : Int
  samples : Int
  cvec : Nat → Int
  size : Nat

namespace HistStor

def reset (buckets : Nat) : HistStor where
  minBucket := 0
  maxBucket := buckets - 1
  bucketSize := 1
  sum := 0
  squares := 0
  samples := 0
  cvec := fun _ => 0
  size := buckets

def clearBuckets (first number : Nat) (cvec : Nat → Int) : Nat → Int :=
  overwrite id (fun _ _ => 0) (range' first number) cvec

/-- `number` buckets from `first` on are filled from the pairs that start at `pair`. -/
def pairUp (size first pair number : Nat) (cvec : Nat → Int) : Nat → Int :=
  overwrite (first + ·)
    (fun d k => d (pair + 2 * k) + if pair + 2 * k + 1 < size then d (pair + 2 * k + 1) else 0)
    (range number) cvec

/-- `number` buckets from `first` downwards are filled from the pairs that end at `pair`. -/
def pairDown (first pair number : Nat) (cvec : Nat → Int) : Nat → Int :=
  overwrite (first - ·)
    (fun d k => d (pair - 2 * k) + if 1 ≤ pair - 2 * k then d (pair - 2 * k - 1) else 0)
    (range number) cvec

def growOut (h : HistStor) : Except HistStorFailure HistStor := do
  let zeroBucket := h.size / 2
  let topHalf := zeroBucket + (h.size - zeroBucket + 1) / 2
  let bottomHalf := (h.size - zeroBucket) / 2
  let cvec := pairDown (zeroBucket - 1) (zeroBucket - 1) (zeroBucket - bottomHalf) h.cvec
  let lowPair : Int := zeroBucket - 1 - 2 * (zeroBucket - bottomHalf : Nat)
  require (lowPair = 0 ∨ lowPair = -1 ∨ lowPair = -2) .pairs
  let cvec := clearBuckets 0 bottomHalf cvec
  let cvec := pairUp h.size zeroBucket zeroBucket (topHalf - zeroBucket) cvec
  let highPair := zeroBucket + 2 * (topHalf - zeroBucket)
  require (highPair = h.size ∨ highPair = h.size + 1) .pairs
  let cvec := clearBuckets topHalf (h.size - topHalf) cvec
  pure { h with
    cvec
    maxBucket := h.maxBucket * 2
    minBucket := h.minBucket * 2
    bucketSize := h.bucketSize * 2 }

def growConvert (h : HistStor) : HistStor :=
  let half := (h.size + 1) / 2
  let cvec := pairDown (h.size - 1) (h.size - 1) (h.size - half) h.cvec
  let cvec := clearBuckets 0 half cvec
  { h with
    cvec
    minBucket := -h.maxBucket
    bucketSize := h.bucketSize * 2 }

def growUp (h : HistStor) : Except HistStorFailure HistStor := do
  let half := (h.size + 1) / 2
  let cvec := pairUp h.size 0 0 half h.cvec
  let pair := 2 * half
  require (pair = h.size ∨ pair = h.size + 1) .pairs
  let cvec := clearBuckets half (h.size - half) cvec
  pure { h with
    cvec
    maxBucket := h.maxBucket * 2
    bucketSize := h.bucketSize * 2 }

/-- A loop that grows the histogram, with a bound for the iterations. -/
def growWhile (small : HistStor → Bool) (grow : HistStor → Except HistStorFailure HistStor) :
    Nat → HistStor → Except HistStorFailure HistStor
  | 0, h => pure h
  | fuel + 1, h =>
    if small h = true then do
      let h ← grow h
      growWhile small grow fuel h
    else pure h

def below (val : Int) (h : HistStor) : Bool := val < h.minBucket

def above (val : Int) (h : HistStor) : Bool := h.maxBucket + h.bucketSize ≤ val

/-- The branches of `sample` that make room for `val`. -/
def fit (h : HistStor) (val : Int) : Except HistStorFailure HistStor :=
  let fuel := val.natAbs + 1
  if h.below val then
    growWhile (below val) growOut fuel (if h.minBucket = 0 then h.growConvert else h)
  else if h.above val then
    if h.minBucket = 0 then growWhile (above val) growUp fuel h
    else growWhile (above val) growOut fuel h
  else pure h

def bucket (h : HistStor) (val : Int) : Int := (val - h.minBucket) / h.bucketSize

def sample (h : HistStor) (val number : Int) : Except HistStorFailure HistStor := do
  require (h.minBucket < h.maxBucket) .minMax
  let h ← h.fit val
  let index := h.bucket val
  require (0 ≤ index ∧ index < h.size) .index
  pure { h with
    cvec := update h.cvec index.toNat (h.cvec index.toNat + number)
    sum := h.sum + val * number
    squares := h.squares + val * val * number
    samples := h.samples + number }

def run (h : HistStor) (history : List (Int × Int)) : Except HistStorFailure HistStor :=
  history.foldlM (fun h p => h.sample p.1 p.2) h

section Regrouping

variable {size first pair number c : Nat} {d : Nat → Int}

theorem clearBuckets_apply (i : Nat) :
    clearBuckets first number d i = if first ≤ i ∧ i < first + number then 0 else d i := by
  have hreads : ReadsUnwritten id (fun (_ : Nat → Int) _ => 0) (range' first number) :=
    (pairwise_lt_range' _).imp fun hab => ⟨hab.ne, fun _ _ => rfl⟩
  split
  · next hi =>
    have := overwrite_of_mem (d := d) hreads (mem_range'_1.mpr hi)
    exact this
  · next hi =>
    exact overwrite_of_notMem fun a ha heq => hi (heq ▸ mem_range'_1.mp ha)

theorem pairUp_apply (hpair : first ≤ pair) (i : Nat) :
    pairUp size first pair number d i =
      if first ≤ i ∧ i < first + number then
        d (pair + 2 * (i - first)) +
          if pair + 2 * (i - first) + 1 < size then d (pair + 2 * (i - first) + 1) else 0
      else d i := by
  have hreads : ReadsUnwritten (first + ·)
      (fun (d : Nat → Int) k => d (pair + 2 * k) +
        if pair + 2 * k + 1 < size then d (pair + 2 * k + 1) else 0) (range number) := by
    refine pairwise_lt_range.imp fun {a b} hab => ⟨?_, fun d x => ?_⟩
    · dsimp only
      omega
    have h₁ : pair + 2 * b ≠ first + a := by omega
    have h₂ : pair + 2 * b + 1 ≠ first + a := by omega
    simp [h₁, h₂]
  split
  · next hi =>
    have hmem : i - first ∈ range number := mem_range.mpr (by omega)
    have := overwrite_of_mem (d := d) hreads hmem
    rwa [Nat.add_sub_cancel' hi.1] at this
  · next hi =>
    refine overwrite_of_notMem fun a ha heq => hi ?_
    have := mem_range.mp ha
    omega

theorem pairDown_apply (hnumber : number ≤ first + 1) (hpair : 2 * number ≤ pair + 2)
    (hle : pair ≤ first) (i : Nat) :
    pairDown first pair number d i =
      if first < i + number ∧ i ≤ first then
        d (pair - 2 * (first - i)) +
          if 1 ≤ pair - 2 * (first - i) then d (pair - 2 * (first - i) - 1) else 0
      else d i := by
  have hreads : ReadsUnwritten (first - ·)
      (fun (d : Nat → Int) k => d (pair - 2 * k) +
        if 1 ≤ pair - 2 * k then d (pair - 2 * k - 1) else 0) (range number) := by
    refine List.Pairwise.imp_of_mem (fun {a b} ha hb hab => ⟨?_, fun d x => ?_⟩)
      pairwise_lt_range
    all_goals
      have := mem_range.mp ha
      have := mem_range.mp hb
    · dsimp only
      omega
    · have h₁ : pair - 2 * b ≠ first - a := by omega
      have h₂ : pair - 2 * b - 1 ≠ first - a := by omega
      simp [h₁, h₂]
  split
  · next hi =>
    have hmem : first - i ∈ range number := mem_range.mpr (by omega)
    have := overwrite_of_mem (d := d) hreads hmem
    rwa [Nat.sub_sub_self hi.2] at this
  · next hi =>
    refine overwrite_of_notMem fun a ha heq => hi ?_
    have := mem_range.mp ha
    omega

theorem clearBuckets_zero : clearBuckets first number 0 = 0 := by
  funext i
  rw [clearBuckets_apply]
  exact ite_self 0

theorem pairUp_zero (hpair : first ≤ pair) : pairUp size first pair number 0 = 0 := by
  funext i
  rw [pairUp_apply hpair]
  simp

theorem pairDown_zero (hnumber : number ≤ first + 1) (hpair : 2 * number ≤ pair + 2)
    (hle : pair ≤ first) : pairDown first pair number 0 = 0 := by
  funext i
  rw [pairDown_apply hnumber hpair hle]
  simp

/-- The buckets in pairs, the first pair at `c`. -/
def paired (c : Nat) (d : Nat → Int) (i : Nat) : Int :=
  if c ≤ i then d (2 * (i - c)) + d (2 * (i - c) + 1) else 0

end Regrouping

section Growing

variable {h h' : HistStor}

/-- The buckets cover an interval that starts at 0, or one around 0. -/
structure Shaped (h : HistStor) : Prop where
  two_le : 2 ≤ h.size
  size_pos : 0 < h.bucketSize
  outside : ∀ i, h.size ≤ i → h.cvec i = 0
  bounds : h.minBucket = 0 ∧ h.maxBucket = (h.size - 1) * h.bucketSize ∨
    2 * h.minBucket = -((h.size - 1) * h.bucketSize) ∧
      2 * h.maxBucket = (h.size - 1) * h.bucketSize

theorem Shaped.span (hs : Shaped h) :
    h.minBucket + h.size * h.bucketSize = h.maxBucket + h.bucketSize := by
  have hexpand : ((h.size : Int) - 1) * h.bucketSize = h.size * h.bucketSize - h.bucketSize := by
    rw [Int.sub_mul, Int.one_mul]
  rcases hs.bounds with ⟨hmin, hmax⟩ | ⟨hmin, hmax⟩ <;> omega

theorem Shaped.width_pos (hs : Shaped h) : 0 < ((h.size : Int) - 1) * h.bucketSize :=
  Int.mul_pos (by have := hs.two_le; omega) hs.size_pos

theorem Shaped.minBucket_nonpos (hs : Shaped h) : h.minBucket ≤ 0 := by
  have := hs.width_pos
  rcases hs.bounds with h | h <;> omega

theorem Shaped.maxBucket_pos (hs : Shaped h) : 0 < h.maxBucket := by
  have := hs.width_pos
  rcases hs.bounds with h | h <;> omega

structure Doubled (h h' : HistStor) : Prop where
  size : h'.size = h.size
  bucketSize : h'.bucketSize = h.bucketSize * 2
  samples : h'.samples = h.samples

theorem Shaped.maxBucket_eq (hs : Shaped h) (hmin : h.minBucket = 0) :
    h.maxBucket = (h.size - 1) * h.bucketSize := by
  rcases hs.bounds with hb | hb
  · exact hb.2
  · have := hs.width_pos
    omega

theorem growUp_spec (hs : Shaped h) (hmin : h.minBucket = 0) :
    ∃ h', h.growUp = .ok h' ∧ Shaped h' ∧ Doubled h h' ∧ h'.minBucket = 0 ∧
      h'.maxBucket = h.maxBucket * 2 ∧ h'.cvec = paired 0 h.cvec := by
  have htwo := hs.two_le
  have hcvec : clearBuckets ((h.size + 1) / 2) (h.size - (h.size + 1) / 2)
      (pairUp h.size 0 0 ((h.size + 1) / 2) h.cvec) = paired 0 h.cvec := by
    funext i
    rw [clearBuckets_apply, pairUp_apply le_rfl, paired, if_pos (Nat.zero_le i)]
    simp only [Nat.sub_zero, Nat.zero_add, Nat.zero_le, true_and]
    by_cases hlow : i < (h.size + 1) / 2
    · rw [if_neg (by omega), if_pos hlow]
      split
      · rfl
      · next hodd => rw [hs.outside _ (not_lt.mp hodd)]
    · rw [hs.outside (2 * i) (by omega), hs.outside (2 * i + 1) (by omega), add_zero]
      split
      · rfl
      · exact hs.outside i (by omega)
  refine ⟨{ h with
    cvec := clearBuckets ((h.size + 1) / 2) (h.size - (h.size + 1) / 2)
      (pairUp h.size 0 0 ((h.size + 1) / 2) h.cvec)
    maxBucket := h.maxBucket * 2
    bucketSize := h.bucketSize * 2 }, ?_, ?_, ⟨rfl, rfl, rfl⟩, hmin, rfl, hcvec⟩
  · unfold growUp
    exact bind_eq_ok.mpr ⟨⟨⟩, require_eq_ok.mpr (by omega), rfl⟩
  · refine ⟨htwo, ?_, fun i hi => ?_, .inl ⟨hmin, ?_⟩⟩
    · exact Int.mul_pos hs.size_pos (by decide)
    · refine (congrFun hcvec i).trans ?_
      rw [paired, if_pos (Nat.zero_le i), hs.outside _ (by simp only at hi; omega),
        hs.outside _ (by simp only at hi; omega), add_zero]
    · change h.maxBucket * 2 = (h.size - 1) * (h.bucketSize * 2)
      rw [hs.maxBucket_eq hmin, mul_assoc]

/-- The buckets after `grow_out`: those from the middle on are regrouped upwards, and those below
it downwards. -/
def outBuckets (n : Nat) (d : Nat → Int) : Nat → Int :=
  clearBuckets (n / 2 + (n - n / 2 + 1) / 2) (n - (n / 2 + (n - n / 2 + 1) / 2))
    (pairUp n (n / 2) (n / 2) (n / 2 + (n - n / 2 + 1) / 2 - n / 2)
      (clearBuckets 0 ((n - n / 2) / 2)
        (pairDown (n / 2 - 1) (n / 2 - 1) (n / 2 - (n - n / 2) / 2) d)))

theorem outBuckets_zero {n : Nat} (hn : 2 ≤ n) : outBuckets n 0 = 0 := by
  unfold outBuckets
  rw [pairDown_zero (by omega) (by omega) le_rfl, clearBuckets_zero, pairUp_zero le_rfl,
    clearBuckets_zero]

theorem outBuckets_outside {n i : Nat} {d : Nat → Int} (hn : 2 ≤ n) (hi : n ≤ i) :
    outBuckets n d i = d i := by
  unfold outBuckets
  rw [clearBuckets_apply, if_neg (by omega), pairUp_apply le_rfl, if_neg (by omega),
    clearBuckets_apply, if_neg (by omega), pairDown_apply (by omega) (by omega) le_rfl,
    if_neg (by omega)]

theorem outBuckets_eq_paired {n : Nat} {d : Nat → Int} (hn : 2 ≤ n) (hmod : n % 4 = 1)
    (hd : ∀ i, n ≤ i → d i = 0) : outBuckets n d = paired (n / 4) d := by
  obtain ⟨k, rfl⟩ : ∃ k, n = 4 * k + 1 := ⟨n / 4, by omega⟩
  have hmiddle : (4 * k + 1) / 2 = 2 * k := by omega
  have hbottom : (4 * k + 1 - 2 * k) / 2 = k := by omega
  have htop : 2 * k + (4 * k + 1 - 2 * k + 1) / 2 = 3 * k + 1 := by omega
  have hquarter : (4 * k + 1) / 4 = k := by omega
  have hinner : ∀ j, 2 * k ≤ j →
      clearBuckets 0 k (pairDown (2 * k - 1) (2 * k - 1) (2 * k - k) d) j = d j := by
    intro j hj
    rw [clearBuckets_apply, if_neg (by omega), pairDown_apply (by omega) (by omega) le_rfl,
      if_neg (by omega)]
  funext i
  simp only [outBuckets, paired, hmiddle, hbottom, htop, hquarter]
  rw [clearBuckets_apply, pairUp_apply le_rfl]
  by_cases hhigh : 3 * k < i
  · -- both buckets of the pair lie outside
    rw [if_pos (show k ≤ i by omega), hd (2 * (i - k)) (by omega),
      hd (2 * (i - k) + 1) (by omega)]
    split
    · rfl
    · rw [if_neg (by omega), hinner i (by omega), hd i (by omega), add_zero]
  rw [if_neg (by omega)]
  by_cases hmid : 2 * k ≤ i
  · have hindex : 2 * k + 2 * (i - 2 * k) = 2 * (i - k) := by omega
    rw [if_pos (show 2 * k ≤ i ∧ i < 2 * k + (3 * k + 1 - 2 * k) by omega),
      if_pos (show k ≤ i by omega), hindex, hinner _ (by omega), hinner _ (by omega)]
    by_cases hpair : 2 * (i - k) + 1 < 4 * k + 1
    · rw [if_pos hpair]
    · rw [if_neg hpair, hd (2 * (i - k) + 1) (not_lt.mp hpair)]
  rw [if_neg (by omega), clearBuckets_apply]
  by_cases hlow : k ≤ i
  · have hsecond : 2 * k - 1 - 2 * (2 * k - 1 - i) = 2 * (i - k) + 1 := by omega
    rw [if_neg (by omega), if_pos hlow, pairDown_apply (by omega) (by omega) le_rfl,
      if_pos (by omega), hsecond, if_pos (by omega), add_comm]
    rfl
  · rw [if_pos (by omega), if_neg hlow]

theorem growOut_spec (hs : Shaped h) (hmin : h.minBucket ≠ 0) :
    ∃ h', h.growOut = .ok h' ∧ Shaped h' ∧ Doubled h h' ∧ h'.minBucket = h.minBucket * 2 ∧
      h'.maxBucket = h.maxBucket * 2 ∧ h'.cvec = outBuckets h.size h.cvec := by
  have htwo := hs.two_le
  refine ⟨{ h with
    cvec := outBuckets h.size h.cvec
    maxBucket := h.maxBucket * 2
    minBucket := h.minBucket * 2
    bucketSize := h.bucketSize * 2 }, ?_, ?_, ⟨rfl, rfl, rfl⟩, rfl, rfl, rfl⟩
  · unfold growOut
    exact bind_eq_ok.mpr ⟨⟨⟩, require_eq_ok.mpr (by omega),
      bind_eq_ok.mpr ⟨⟨⟩, require_eq_ok.mpr (by omega), rfl⟩⟩
  · refine ⟨htwo, Int.mul_pos hs.size_pos (by decide), fun i hi => ?_, .inr ?_⟩
    · exact (outBuckets_outside htwo hi).trans (hs.outside i hi)
    · obtain ⟨hlow, hhigh⟩ := hs.bounds.resolve_left fun hb => hmin hb.1
      change 2 * (h.minBucket * 2) = -((h.size - 1) * (h.bucketSize * 2)) ∧
        2 * (h.maxBucket * 2) = (h.size - 1) * (h.bucketSize * 2)
      rw [← mul_assoc (h.size - 1 : Int), ← hhigh]
      omega

theorem growConvert_spec (hs : Shaped h) (hmin : h.minBucket = 0) :
    Shaped h.growConvert ∧ Doubled h h.growConvert ∧
      h.growConvert.minBucket = -h.maxBucket ∧ (h.cvec = 0 → h.growConvert.cvec = 0) := by
  have htwo := hs.two_le
  refine ⟨⟨htwo, Int.mul_pos hs.size_pos (by decide), fun i hi => ?_, .inr ?_⟩, ⟨rfl, rfl, rfl⟩,
    rfl, fun hzero => ?_⟩
  · change clearBuckets 0 _ (pairDown _ _ _ h.cvec) i = 0
    have hi' : h.size ≤ i := hi
    rw [clearBuckets_apply, if_neg (by omega), pairDown_apply (by omega) (by omega) le_rfl,
      if_neg (by omega)]
    exact hs.outside i hi
  · change 2 * -h.maxBucket = -(_ * (h.bucketSize * 2)) ∧ 2 * h.maxBucket = _ * (h.bucketSize * 2)
    rw [hs.maxBucket_eq hmin, ← mul_assoc]
    change 2 * -((h.size - 1) * h.bucketSize) = -((h.size - 1) * h.bucketSize * 2) ∧
      2 * ((h.size - 1) * h.bucketSize) = (h.size - 1) * h.bucketSize * 2
    omega
  · change clearBuckets 0 _ (pairDown _ _ _ h.cvec) = 0
    rw [hzero, pairDown_zero (by omega) (by omega) le_rfl, clearBuckets_zero]

end Growing

section Counting

variable {h h' h'' : HistStor} {history : List (Int × Int)}

def weightAt (h : HistStor) (history : List (Int × Int)) (i : Nat) : Int :=
  (history.map fun p => if h.bucket p.1 = i then p.2 else 0).sum

def total (history : List (Int × Int)) : Int := (history.map Prod.snd).sum

def Counts (h : HistStor) (history : List (Int × Int)) : Prop :=
  ∀ i, h.cvec i = weightAt h history i

def Inside (h : HistStor) (history : List (Int × Int)) : Prop :=
  ∀ p ∈ history, h.minBucket ≤ p.1 ∧ p.1 < h.maxBucket + h.bucketSize

theorem bucket_lt (hs : Shaped h) {val : Int} (hlow : h.minBucket ≤ val)
    (hhigh : val < h.maxBucket + h.bucketSize) : 0 ≤ h.bucket val ∧ h.bucket val < h.size := by
  have hspan := hs.span
  constructor
  · exact Int.ediv_nonneg (by omega) hs.size_pos.le
  · apply Int.ediv_lt_of_lt_mul hs.size_pos
    omega

theorem sum_weightAt (hs : Shaped h) (hin : Inside h history) :
    ∑ i ∈ Finset.range h.size, weightAt h history i = total history := by
  induction history with
  | nil => simp [weightAt, total]
  | cons p rest ih =>
    have hp := hin p mem_cons_self
    obtain ⟨hnonneg, hlt⟩ := bucket_lt hs hp.1 hp.2
    have hown : ∑ i ∈ Finset.range h.size, (if h.bucket p.1 = i then p.2 else 0) = p.2 := by
      rw [Finset.sum_eq_single (h.bucket p.1).toNat]
      · rw [if_pos (by omega)]
      · intro i _ hne
        exact if_neg (by omega)
      · intro hnot
        rw [Finset.mem_range] at hnot
        omega
    have hrest := ih fun q hq => hin q (mem_cons_of_mem p hq)
    simp only [weightAt, total, map_cons, sum_cons, Finset.sum_add_distrib] at hrest ⊢
    rw [hown, hrest]

theorem Counts.of_paired {c : Nat} (hs : Shaped h) (hin : Inside h history)
    (hcounts : Counts h history) (hcvec : h'.cvec = paired c h.cvec)
    (hbucket : ∀ val, h'.bucket val = c + h.bucket val / 2) : Counts h' history := by
  have hweight : ∀ i, weightAt h' history i = paired c (weightAt h history) i := by
    intro i
    clear hcounts
    induction history with
    | nil => simp [weightAt, paired]
    | cons p rest ih =>
      have hp := hin p mem_cons_self
      have hnonneg := (bucket_lt hs hp.1 hp.2).1
      have hrest := ih fun q hq => hin q (mem_cons_of_mem p hq)
      simp only [weightAt, paired, map_cons, sum_cons, hbucket] at hrest ⊢
      rw [hrest]
      by_cases hci : c ≤ i
      · rw [if_pos hci, if_pos hci]
        split_ifs <;> omega
      · rw [if_neg hci, if_neg hci, if_neg (by omega), add_zero]
  intro i
  rw [hcvec, hweight]
  have heq : h.cvec = weightAt h history := funext hcounts
  rw [heq]

theorem counts_nil : Counts h [] ↔ h.cvec = 0 :=
  ⟨fun hc => funext fun i => (hc i).trans rfl, fun hc i => congrFun hc i⟩

structure Grown (Right : List (Int × Int) → Prop) (h h' : HistStor) : Prop where
  size : h'.size = h.size
  samples : h'.samples = h.samples
  low : h'.minBucket ≤ h.minBucket
  high : h.maxBucket + h.bucketSize ≤ h'.maxBucket + h'.bucketSize
  counts : ∀ history, Right history → Inside h history → Counts h history → Counts h' history

theorem Grown.refl {Right : List (Int × Int) → Prop} : Grown Right h h :=
  ⟨rfl, rfl, le_rfl, le_rfl, fun _ _ _ hc => hc⟩

theorem Grown.inside {Right : List (Int × Int) → Prop} (hg : Grown Right h h')
    (hin : Inside h history) : Inside h' history := by
  intro p hp
  have hold := hin p hp
  have hlow := hg.low
  have hhigh := hg.high
  omega

theorem Grown.trans {Right : List (Int × Int) → Prop} (h₁ : Grown Right h h')
    (h₂ : Grown Right h' h'') : Grown Right h h'' where
  size := h₂.size.trans h₁.size
  samples := h₂.samples.trans h₁.samples
  low := h₂.low.trans h₁.low
  high := h₁.high.trans h₂.high
  counts := fun history hr hin hc =>
    h₂.counts history hr (h₁.inside hin) (h₁.counts history hr hin hc)

theorem Grown.imp {Right Right' : List (Int × Int) → Prop} (hg : Grown Right h h')
    (himp : ∀ history, Right' history → Right history) : Grown Right' h h' :=
  ⟨hg.size, hg.samples, hg.low, hg.high, fun history hr => hg.counts history (himp history hr)⟩

theorem growUp_grown (hs : Shaped h) (hmin : h.minBucket = 0) :
    ∃ h', h.growUp = .ok h' ∧ Shaped h' ∧ h'.minBucket = 0 ∧
      h.maxBucket + h.bucketSize < h'.maxBucket + h'.bucketSize ∧
      Grown (fun _ => True) h h' := by
  obtain ⟨h', hok, hs', hd, hmin', hmax', hcvec⟩ := growUp_spec hs hmin
  have hpos := hs.size_pos
  have hmaxpos := hs.maxBucket_pos
  have hsize := hd.bucketSize
  refine ⟨h', hok, hs', hmin', by omega, hd.size, hd.samples, by omega, by omega, ?_⟩
  intro history _ hin hc
  apply Counts.of_paired hs hin hc hcvec
  intro val
  show (val - h'.minBucket) / h'.bucketSize = 0 + (val - h.minBucket) / h.bucketSize / 2
  rw [hmin', hmin, hsize, zero_add, Int.ediv_ediv_of_nonneg hpos.le]

theorem growOut_grown (hs : Shaped h) (hmin : h.minBucket ≠ 0) :
    ∃ h', h.growOut = .ok h' ∧ Shaped h' ∧ h'.minBucket < h.minBucket ∧
      h.maxBucket + h.bucketSize < h'.maxBucket + h'.bucketSize ∧
      Grown (fun history => history = [] ∨ h.size % 4 = 1) h h' := by
  obtain ⟨h', hok, hs', hd, hmin', hmax', hcvec⟩ := growOut_spec hs hmin
  have hpos := hs.size_pos
  have hmaxpos := hs.maxBucket_pos
  have hminneg := hs.minBucket_nonpos
  have hsize := hd.bucketSize
  refine ⟨h', hok, hs', by omega, by omega, hd.size, hd.samples, by omega, by omega, ?_⟩
  rintro history (rfl | hmod) hin hc
  · rw [counts_nil] at hc ⊢
    rw [hcvec, hc, outBuckets_zero hs.two_le]
  apply Counts.of_paired hs hin hc (hcvec.trans (outBuckets_eq_paired hs.two_le hmod hs.outside))
  intro val
  -- the buckets below 0 are an even number, so half of them stay below 0
  obtain ⟨k, hk⟩ : ∃ k, h.size = 4 * k + 1 := ⟨h.size / 4, by omega⟩
  have hlow : h.minBucket = -(2 * k * h.bucketSize) := by
    obtain ⟨hlow, -⟩ := hs.bounds.resolve_left fun hb => hmin hb.1
    have hwidth : ((h.size : Int) - 1) * h.bucketSize = 2 * (2 * k * h.bucketSize) := by
      rw [hk, ← mul_assoc]
      congr 1
      omega
    omega
  have hshift : val - h.minBucket * 2 = val - h.minBucket + k * (h.bucketSize * 2) := by
    have hcomm : (k : Int) * (h.bucketSize * 2) = 2 * k * h.bucketSize := by
      rw [mul_comm h.bucketSize, ← mul_assoc, mul_comm (k : Int)]
    omega
  show (val - h'.minBucket) / h'.bucketSize =
    (h.size / 4 : Nat) + (val - h.minBucket) / h.bucketSize / 2
  rw [hmin', hsize, hshift, Int.add_mul_ediv_right _ _ (by omega),
    Int.ediv_ediv_of_nonneg hpos.le, add_comm]
  congr 1
  omega

theorem growConvert_grown (hs : Shaped h) (hmin : h.minBucket = 0) :
    Shaped h.growConvert ∧ h.growConvert.minBucket < 0 ∧
      Grown (fun history => history = []) h h.growConvert := by
  obtain ⟨hs', hd, hmin', hcvec⟩ := growConvert_spec hs hmin
  have hmaxpos := hs.maxBucket_pos
  have hpos := hs.size_pos
  refine ⟨hs', by omega, hd.size, hd.samples, by omega, ?_, ?_⟩
  · have hbucket := hd.bucketSize
    show h.maxBucket + h.bucketSize ≤ h.maxBucket + h.growConvert.bucketSize
    omega
  · rintro history rfl - hc
    rw [counts_nil] at hc ⊢
    exact hcvec hc

theorem growWhile_spec {small : HistStor → Bool}
    {grow : HistStor → Except HistStorFailure HistStor} {Right : List (Int × Int) → Prop}
    (Kept : HistStor → Prop) (rank : HistStor → Nat) (hgrow : ∀ h, Kept h → small h = true →
      ∃ h', grow h = .ok h' ∧ Kept h' ∧ rank h' < rank h ∧ Grown Right h h')
    (fuel : Nat) : ∀ h, Kept h → rank h < fuel →
      ∃ h', growWhile small grow fuel h = .ok h' ∧ Kept h' ∧ small h' = false ∧
        Grown Right h h' := by
  induction fuel with
  | zero => exact fun h _ hlt => absurd hlt (Nat.not_lt_zero _)
  | succ fuel ih =>
    intro h hk hlt
    by_cases hsmall : small h = true
    · obtain ⟨h', hok, hk', hrank, hg⟩ := hgrow h hk hsmall
      obtain ⟨h'', hok', hk'', hdone, hg'⟩ := ih h' hk' (by omega)
      refine ⟨h'', ?_, hk'', hdone, hg.trans hg'⟩
      rw [growWhile, if_pos hsmall]
      exact bind_eq_ok.mpr ⟨h', hok, hok'⟩
    · refine ⟨h, ?_, hk, by simpa using hsmall, Grown.refl⟩
      rw [growWhile, if_neg hsmall]
      rfl

/-- The room for `val` is made by `grow_up`, or by `grow_out` with half of the buckets below 0 an
even number, or there is room already. -/
def Regular (h : HistStor) (val : Int) : Prop :=
  (h.below val = true → h.minBucket ≠ 0 ∧ h.size % 4 = 1) ∧
    (h.above val = true → h.minBucket = 0 ∨ h.size % 4 = 1)

instance (val : Int) : Decidable (h.Regular val) := instDecidableAnd

theorem growOut_while (small : HistStor → Bool) (rank : HistStor → Nat)
    (hrank : ∀ h h', small h = true → h'.minBucket < h.minBucket →
      h.maxBucket + h.bucketSize < h'.maxBucket + h'.bucketSize → rank h' < rank h)
    (fuel : Nat) (hs : Shaped h) (hmin : h.minBucket < 0) (hfuel : rank h < fuel) :
    ∃ h', growWhile small growOut fuel h = .ok h' ∧ Shaped h' ∧ small h' = false ∧
      Grown (fun history => history = [] ∨ h.size % 4 = 1) h h' := by
  obtain ⟨h', hok, hk, hdone, hg⟩ := growWhile_spec
    (fun g => Shaped g ∧ g.minBucket < 0 ∧ g.size = h.size) rank
    (fun g hk (hsmall : small g = true) => by
      obtain ⟨hsg, hneg, hsize⟩ := hk
      obtain ⟨g', hok, hs', hlow, hhigh, hg⟩ := growOut_grown hsg hneg.ne
      rw [hsize] at hg
      exact ⟨g', hok, ⟨hs', hlow.trans hneg, hg.size.trans hsize⟩,
        hrank g g' hsmall hlow hhigh, hg⟩)
    fuel h ⟨hs, hmin, rfl⟩ hfuel
  exact ⟨h', hok, hk.1, hdone, hg⟩

theorem fit_below {val : Int} (hs : Shaped h) (hbelow : h.below val = true) :
    ∃ h', h.fit val = .ok h' ∧ Shaped h' ∧ h'.below val = false ∧
      Grown (fun history => history = [] ∨ h.Regular val) h h' := by
  have hval : val < h.minBucket := by simpa [below] using hbelow
  have hminneg := hs.minBucket_nonpos
  rw [fit, if_pos hbelow]
  by_cases hmin : h.minBucket = 0
  · obtain ⟨hs', hneg, hg⟩ := growConvert_grown hs hmin
    rw [if_pos hmin]
    obtain ⟨h', hok, hs'', hdone, hg'⟩ := growOut_while (below val)
      (fun g => (g.minBucket - val).toNat)
      (fun g g' hsmall hlow _ => by simp only [below, decide_eq_true_eq] at hsmall; omega)
      (val.natAbs + 1) hs' hneg (by omega)
    refine ⟨h', hok, hs'', hdone, (hg.trans (hg'.imp fun _ => .inl)).imp ?_⟩
    rintro history (hnil | hreg)
    · exact hnil
    · exact absurd hmin (hreg.1 hbelow).1
  · rw [if_neg hmin]
    obtain ⟨h', hok, hs', hdone, hg⟩ := growOut_while (below val)
      (fun g => (g.minBucket - val).toNat)
      (fun g g' hsmall hlow _ => by simp only [below, decide_eq_true_eq] at hsmall; omega)
      (val.natAbs + 1) hs (by omega) (by omega)
    exact ⟨h', hok, hs', hdone, hg.imp fun _ hr => hr.imp_right fun hreg => (hreg.1 hbelow).2⟩

theorem fit_above {val : Int} (hs : Shaped h) (hbelow : h.below val = false)
    (habove : h.above val = true) :
    ∃ h', h.fit val = .ok h' ∧ Shaped h' ∧ h'.above val = false ∧
      Grown (fun history => history = [] ∨ h.Regular val) h h' := by
  have hval : h.maxBucket + h.bucketSize ≤ val := by simpa [above] using habove
  have hmaxpos := hs.maxBucket_pos
  have hpos := hs.size_pos
  have hminneg := hs.minBucket_nonpos
  have hrank : ∀ g g' : HistStor, above val g = true →
      g.maxBucket + g.bucketSize < g'.maxBucket + g'.bucketSize →
      (val + 1 - (g'.maxBucket + g'.bucketSize)).toNat <
        (val + 1 - (g.maxBucket + g.bucketSize)).toNat := by
    intro g g' hsmall hhigh
    simp only [above, decide_eq_true_eq] at hsmall
    omega
  rw [fit, if_neg (by simp [hbelow]), if_pos habove]
  by_cases hmin : h.minBucket = 0
  · rw [if_pos hmin]
    obtain ⟨h', hok, hk, hdone, hg⟩ := growWhile_spec
      (fun g => Shaped g ∧ g.minBucket = 0)
      (fun g => (val + 1 - (g.maxBucket + g.bucketSize)).toNat)
      (fun g hk (hsmall : above val g = true) => by
        obtain ⟨g', hok, hs', hmin', hhigh, hg⟩ := growUp_grown hk.1 hk.2
        exact ⟨g', hok, ⟨hs', hmin'⟩, hrank g g' hsmall hhigh, hg⟩)
      (val.natAbs + 1) h ⟨hs, hmin⟩ (by omega)
    exact ⟨h', hok, hk.1, hdone, hg.imp fun _ _ => trivial⟩
  · rw [if_neg hmin]
    obtain ⟨h', hok, hs', hdone, hg⟩ := growOut_while (above val)
      (fun g => (val + 1 - (g.maxBucket + g.bucketSize)).toNat)
      (fun g g' hsmall _ hhigh => hrank g g' hsmall hhigh)
      (val.natAbs + 1) hs (by omega) (by omega)
    exact ⟨h', hok, hs', hdone,
      hg.imp fun _ hr => hr.imp_right fun hreg => (hreg.2 habove).resolve_left hmin⟩

theorem fit_spec (hs : Shaped h) (val : Int) :
    ∃ h', h.fit val = .ok h' ∧ Shaped h' ∧
      (h'.minBucket ≤ val ∧ val < h'.maxBucket + h'.bucketSize) ∧
      Grown (fun history => history = [] ∨ h.Regular val) h h' := by
  cases hbelow : h.below val with
  | true =>
    obtain ⟨h', hok, hs', hdone, hg⟩ := fit_below hs hbelow
    have := hs.minBucket_nonpos
    have := hs'.maxBucket_pos
    have := hs'.size_pos
    simp only [below, decide_eq_true_eq, decide_eq_false_iff_not] at hbelow hdone
    exact ⟨h', hok, hs', ⟨by omega, by omega⟩, hg⟩
  | false =>
    cases habove : h.above val with
    | true =>
      obtain ⟨h', hok, hs', hdone, hg⟩ := fit_above hs hbelow habove
      have := hs.maxBucket_pos
      have := hs.size_pos
      have := hs'.minBucket_nonpos
      simp only [above, decide_eq_true_eq, decide_eq_false_iff_not] at habove hdone
      exact ⟨h', hok, hs', ⟨by omega, by omega⟩, hg⟩
    | false =>
      refine ⟨h, by rw [fit, hbelow, habove]; rfl, hs, ?_, Grown.refl⟩
      simp only [below, above, decide_eq_false_iff_not] at hbelow habove
      omega

structure Kept (n : Nat) (h : HistStor) (history : List (Int × Int)) : Prop where
  shaped : Shaped h
  size : h.size = n
  samples : h.samples = total history
  inside : Inside h history

theorem sample_spec {n : Nat} (hk : Kept n h history) (val number : Int) :
    ∃ h', h.sample val number = .ok h' ∧ Kept n h' (history ++ [(val, number)]) ∧
      (history = [] ∨ h.Regular val → Counts h history →
        Counts h' (history ++ [(val, number)])) := by
  obtain ⟨g, hok, hsg, hval, hg⟩ := fit_spec hk.shaped val
  obtain ⟨hnonneg, hlt⟩ := bucket_lt hsg hval.1 hval.2
  have hrequire : h.minBucket < h.maxBucket :=
    lt_of_le_of_lt hk.shaped.minBucket_nonpos hk.shaped.maxBucket_pos
  refine ⟨{ g with
    cvec := update g.cvec (g.bucket val).toNat (g.cvec (g.bucket val).toNat + number)
    sum := g.sum + val * number
    squares := g.squares + val * val * number
    samples := g.samples + number }, ?_, ⟨⟨hsg.two_le, hsg.size_pos, ?_, hsg.bounds⟩,
      hg.size.trans hk.size, ?_, ?_⟩, ?_⟩
  · rw [sample]
    exact bind_eq_ok.mpr ⟨⟨⟩, require_eq_ok.mpr hrequire,
      bind_eq_ok.mpr ⟨g, hok, bind_eq_ok.mpr ⟨⟨⟩, require_eq_ok.mpr ⟨hnonneg, hlt⟩, rfl⟩⟩⟩
  · intro i hi
    have hi' : g.size ≤ i := hi
    exact (update_of_ne (by omega) _ _).trans (hsg.outside i hi)
  · show g.samples + number = _
    rw [hg.samples, hk.samples]
    simp [total]
  · intro p hp
    rcases mem_append.mp hp with hold | hnew
    · exact hg.inside hk.inside p hold
    · rw [mem_singleton.mp hnew]
      exact hval
  · intro hright hcounts i
    have hold := hg.counts history hright hk.inside hcounts i
    have hsplit : weightAt g (history ++ [(val, number)]) i =
        weightAt g history i + if g.bucket val = i then number else 0 := by
      simp [weightAt]
    show update g.cvec (g.bucket val).toNat _ i = weightAt g (history ++ [(val, number)]) i
    rw [hsplit, ← hold]
    by_cases hi : i = (g.bucket val).toNat
    · rw [if_pos (by omega), hi, update_self]
    · rw [if_neg (by omega), update_of_ne hi, add_zero]

/-- No sample after the first one makes `grow_convert` or an irregular `grow_out` necessary. -/
def RegularRun (n : Nat) (history : List (Int × Int)) : Prop :=
  ∀ before p, before ++ [p] <+: history → before ≠ [] →
    ∀ h, (reset n).run before = .ok h → h.Regular p.1

theorem RegularRun.of_append {n : Nat} {p : Int × Int} (hr : RegularRun n (history ++ [p])) :
    RegularRun n history :=
  fun before q hinit => hr before q (hinit.trans (prefix_append history [p]))

theorem reset_kept {n : Nat} (hn : 2 ≤ n) : Kept n (reset n) [] where
  shaped := ⟨hn, one_pos, fun _ _ => rfl, .inl ⟨rfl, (mul_one _).symm⟩⟩
  size := rfl
  samples := rfl
  inside := fun _ hp => absurd hp not_mem_nil

theorem run_spec {n : Nat} (hn : 2 ≤ n) (history : List (Int × Int)) :
    ∃ h, (reset n).run history = .ok h ∧ Kept n h history ∧
      (RegularRun n history → Counts h history) := by
  induction history using reverseRecOn with
  | nil => exact ⟨reset n, rfl, reset_kept hn, fun _ => counts_nil.mpr rfl⟩
  | append_singleton history p ih =>
    obtain ⟨h, hok, hk, hcounts⟩ := ih
    obtain ⟨h', hok', hk', hcounts'⟩ := sample_spec hk p.1 p.2
    refine ⟨h', ?_, hk', fun hr => hcounts' ?_ (hcounts hr.of_append)⟩
    · rw [run, foldlM_append]
      refine bind_eq_ok.mpr ⟨h, hok, ?_⟩
      simp [hok']
    · by_cases hnil : history = []
      · exact .inl hnil
      · exact .inr (hr history p (prefix_refl _) hnil h hok)

end Counting

theorem histogram_counts {n : Nat} (hn : 2 ≤ n) (history : List (Int × Int)) :
    ∃ h, (reset n).run history = .ok h ∧ h.samples = total history ∧
      (∀ p ∈ history, 0 ≤ h.bucket p.1 ∧ h.bucket p.1 < n) ∧
      (RegularRun n history →
        (∀ i, h.cvec i = weightAt h history i) ∧
          ∑ i ∈ Finset.range n, h.cvec i = h.samples) := by
  obtain ⟨h, hok, hk, hcounts⟩ := run_spec hn history
  refine ⟨h, hok, hk.samples, fun p hp => ?_, fun hr => ⟨hcounts hr, ?_⟩⟩
  · obtain ⟨hlow, hhigh⟩ := hk.inside p hp
    exact hk.size ▸ bucket_lt hk.shaped hlow hhigh
  · rw [hk.samples, ← sum_weightAt hk.shaped hk.inside, hk.size]
    exact Finset.sum_congr rfl fun i _ => hcounts hr i

theorem histogram_counts_grown_out :
    ∃ h, (reset 5).run [(-1, 1), (7, 1)] = .ok h ∧
      (∀ i, h.cvec i = weightAt h [(-1, 1), (7, 1)] i) ∧
        ∑ i ∈ Finset.range 5, h.cvec i = h.samples := by
  have hregular : RegularRun 5 [(-1, 1), (7, 1)] := by
    intro before p hinit hne h hrun
    obtain ⟨rfl, rfl⟩ : before = [(-1, 1)] ∧ p = (7, 1) := by
      rcases before with _ | ⟨a, _ | ⟨b, rest⟩⟩
      · exact absurd rfl hne
      · simpa [cons_prefix_cons] using hinit
      · simp [cons_prefix_cons] at hinit
    cases hrun
    decide
  obtain ⟨h, hok, -, -, hcounts⟩ := histogram_counts (show 2 ≤ 5 by decide) [(-1, 1), (7, 1)]
  exact ⟨h, hok, hcounts hregular⟩

/-- After `grow_convert` the first sample stands in the wrong bucket, or in none if the number of
buckets is odd; `grow_out` drops the first bucket of three. -/
theorem histogram_misplaces :
    (∃ h, (reset 2).run [(0, 1), (-1, 1)] = .ok h ∧
      h.cvec 0 = 1 ∧ weightAt h [(0, 1), (-1, 1)] 0 = 2) ∧
    (∃ h, (reset 3).run [(0, 1), (-1, 1)] = .ok h ∧
      ∑ i ∈ Finset.range 3, h.cvec i = 1 ∧ h.samples = 2) ∧
    (∃ h, (reset 3).run [(-1, 1), (10, 1)] = .ok h ∧
      ∑ i ∈ Finset.range 3, h.cvec i = 1 ∧ h.samples = 2) :=
  ⟨⟨_, rfl, by decide, by decide⟩, ⟨_, rfl, by decide, by decide⟩, ⟨_, rfl, by decide, by decide⟩⟩

end HistStor

end Drain
