import Drain.FaLru

/-! The blocks of the fully associative tags stay linked in one list when a block moves to an end of
it, and the boundaries and masks of the tracked caches follow. -/

namespace Drain.FaLru

open Function List Nat FaLru

variable {cfg : FaLruConfig} {s t u : FaLru} {l : List Nat} {blk k : Nat}

structure Lists (cfg : FaLruConfig) (s : FaLru) (l : List Nat) : Prop where
  linked : Linked s.prev s.next l
  head_eq : s.head = l[0]?
  tail_eq : s.tail = l[cfg.numBlocks - 1]?
  perm : l.Perm (range cfg.numBlocks)

theorem Lists.length (h : Lists cfg s l) : l.length = cfg.numBlocks := by
  rw [h.perm.length_eq, length_range]

/-- The boundary of the tracked cache `i` is its last block, and bit `i` marks its blocks. -/
structure TracksAt (cfg : FaLruConfig) (boundaries : Nat → Option Nat) (mask : Nat → CachesMask)
    (l : List Nat) (i : Nat) : Prop where
  boundary : boundaries i = l[cfg.blocks i - 1]?
  bit : ∀ p b, l[p]? = some b → (mask b).getLsbD i = decide (p < cfg.blocks i)

theorem TracksAt.congr {i : Nat} {boundaries boundaries' : Nat → Option Nat}
    {mask mask' : Nat → CachesMask} (h : TracksAt cfg boundaries mask l i)
    (hb : boundaries' i = boundaries i)
    (hm : ∀ b, (mask' b).getLsbD i = (mask b).getLsbD i) : TracksAt cfg boundaries' mask' l i :=
  ⟨hb.trans h.boundary, fun p b hp => (hm b).trans (h.bit p b hp)⟩

structure Tracks (cfg : FaLruConfig) (s : FaLru) (l : List Nat) : Prop where
  at_ : ∀ i < cfg.numTrackedCaches, TracksAt cfg s.boundaries s.mask l i
  unused : ∀ b ∈ l, ∀ i, cfg.numTrackedCaches ≤ i → (s.mask b).getLsbD i = false

structure Retracked (s t : FaLru) : Prop where
  blks : ∀ b, t.blks b = { s.blks b with inCachesMask := t.mask b }
  head : t.head = s.head
  tail : t.tail = s.tail
  tagHash : t.tagHash = s.tagHash
  hits : t.hits = s.hits
  misses : t.misses = s.misses
  accesses : t.accesses = s.accesses

theorem Retracked.refl : Retracked s s := ⟨fun _ => rfl, rfl, rfl, rfl, rfl, rfl, rfl⟩

theorem Retracked.trans (h : Retracked s t) (h' : Retracked t u) : Retracked s u where
  blks := fun b => by rw [h'.blks b, h.blks b]
  head := h'.head.trans h.head
  tail := h'.tail.trans h.tail
  tagHash := h'.tagHash.trans h.tagHash
  hits := h'.hits.trans h.hits
  misses := h'.misses.trans h.misses
  accesses := h'.accesses.trans h.accesses

theorem Retracked.next (h : Retracked s t) : t.next = s.next :=
  funext fun b => by rw [FaLru.next, h.blks b]; rfl

theorem Retracked.prev (h : Retracked s t) : t.prev = s.prev :=
  funext fun b => by rw [FaLru.prev, h.blks b]; rfl

theorem retracked_setMask {b : Nat} {m : CachesMask} : Retracked s (s.setMask b m) := by
  refine ⟨fun c => ?_, rfl, rfl, rfl, rfl, rfl, rfl⟩
  by_cases hc : c = b
  · simp [hc, setMask, modify, mask]
  · simp [hc, setMask, modify, mask]

@[simp] theorem mask_setMask {b : Nat} {m : CachesMask} :
    (s.setMask b m).mask = update s.mask b m := by
  funext c
  by_cases hc : c = b
  · simp [hc, setMask, modify, mask]
  · simp [hc, setMask, modify, mask]

structure AgreeOff (i : Nat) (s t : FaLru) : Prop where
  boundaries : ∀ j, j ≠ i → t.boundaries j = s.boundaries j
  bit : ∀ b j, j ≠ i → (t.mask b).getLsbD j = (s.mask b).getLsbD j

/-- The loops of `moveBlockToHead` and `moveBlockToTail` treat every tracked cache on its own; the
mask of the moved block is written after them. -/
theorem retrack_loop {l' : List Nat} {m : CachesMask}
    {step : FaLru → Nat → Except FaLruFailure FaLru} (hs : Tracks cfg s l)
    (hstep : ∀ i < cfg.numTrackedCaches, ∀ t, Retracked s t → t.mask blk = s.mask blk →
      TracksAt cfg t.boundaries t.mask l i →
      Holds (step t i) (fun u => Retracked t u ∧ AgreeOff i t u ∧ u.mask blk = t.mask blk ∧
        TracksAt cfg u.boundaries (update u.mask blk m) l' i) fun _ => False) :
    Holds ((range cfg.numTrackedCaches).foldlM step s)
      (fun u => Retracked s u ∧
        (∀ i < cfg.numTrackedCaches,
          TracksAt cfg u.boundaries (update u.mask blk m) l' i) ∧
        ∀ b i, cfg.numTrackedCaches ≤ i → (u.mask b).getLsbD i = (s.mask b).getLsbD i)
      fun _ => False := by
  refine (holds_foldlM_range (fun n t => Retracked s t ∧ t.mask blk = s.mask blk ∧
    (∀ i < n, TracksAt cfg t.boundaries (update t.mask blk m) l' i) ∧
    (∀ i, n ≤ i → t.boundaries i = s.boundaries i) ∧
    ∀ b i, n ≤ i → (t.mask b).getLsbD i = (s.mask b).getLsbD i)
    ⟨.refl, rfl, fun i hi => absurd hi (not_lt_zero i), fun _ _ => rfl, fun _ _ _ => rfl⟩
    ?_).imp fun u hu => ⟨hu.1, hu.2.2.1, hu.2.2.2.2⟩
  intro n hn t ht
  obtain ⟨hr, hblk, hdone, hb, hm⟩ := ht
  have hold : TracksAt cfg t.boundaries t.mask l n :=
    (hs.at_ n hn).congr (hb n le_rfl) fun b => hm b n le_rfl
  refine (hstep n hn t hr hblk hold).imp fun u hu => ?_
  obtain ⟨hru, hagree, hblku, hnew⟩ := hu
  refine ⟨hr.trans hru, hblku.trans hblk, fun i hi => ?_, fun i hi => ?_, fun b i hi => ?_⟩
  · by_cases hin : i = n
    · exact hin ▸ hnew
    · apply (hdone i (by omega)).congr (hagree.boundaries i hin)
      intro b
      by_cases hb : b = blk
      · rw [hb, update_self, update_self]
      · rw [update_of_ne hb, update_of_ne hb, hagree.bit b i hin]
  · rw [hagree.boundaries i (by omega), hb i (by omega)]
  · rw [hagree.bit b i (by omega), hm b i (by omega)]

theorem agreeOff_update {i b : Nat} {m : CachesMask} {boundary : Option Nat}
    (hm : ∀ j, j ≠ i → m.getLsbD j = (s.mask b).getLsbD j) :
    AgreeOff i s
      { s.setMask b m with boundaries := update s.boundaries i boundary } where
  boundaries := fun _ hj => update_of_ne hj _ _
  bit := by
    intro c j hj
    show ((s.setMask b m).mask c).getLsbD j = _
    rw [mask_setMask, update_apply]
    split
    · next hc => rw [hm j hj, hc]
    · rfl

theorem retracked_update {i b : Nat} {m : CachesMask} {boundary : Option Nat} :
    Retracked s { s.setMask b m with boundaries := update s.boundaries i boundary } :=
  retracked_setMask.trans ⟨fun _ => rfl, rfl, rfl, rfl, rfl, rfl, rfl⟩

theorem retracked_boundary {i : Nat} {boundary : Option Nat} :
    Retracked s { s with boundaries := update s.boundaries i boundary } :=
  ⟨fun _ => rfl, rfl, rfl, rfl, rfl, rfl, rfl⟩

theorem agreeOff_boundary {i : Nat} {boundary : Option Nat} :
    AgreeOff i s { s with boundaries := update s.boundaries i boundary } :=
  ⟨fun _ hj => update_of_ne hj _ _, fun _ _ _ => rfl⟩

theorem TracksAt.of_toFront {i : Nat} {boundaries : Nat → Option Nat} {mask : Nat → CachesMask}
    (hl : l.Nodup) (hi : i < cfg.numTrackedCaches) (hk : l[k]? = some blk)
    (hb : boundaries i = (toFront l blk)[cfg.blocks i - 1]?)
    (hlow : ∀ p b, p < k → l[p]? = some b → (mask b).getLsbD i = decide (p + 1 < cfg.blocks i))
    (hhigh : ∀ p b, k < p → l[p]? = some b → (mask b).getLsbD i = decide (p < cfg.blocks i)) :
    TracksAt cfg boundaries (update mask blk cfg.inAllCachesMask) (toFront l blk) i := by
  refine ⟨hb, fun p b hp => ?_⟩
  rcases toFront_cases hl hk hp with ⟨rfl, rfl⟩ | ⟨o, hlt, rfl, ho⟩ | ⟨hlt, ho⟩
  · have := cfg.two_le_blocks i
    rw [update_self, cfg.getLsbD_inAllCachesMask, decide_eq_true hi,
      decide_eq_true (by omega)]
  · rw [update_of_ne (mt (eq_iff_index hl ho hk).mp hlt.ne), hlow o b hlt ho]
  · rw [update_of_ne (mt (eq_iff_index hl ho hk).mp hlt.ne'), hhigh p b hlt ho]

theorem shrinkStep_spec {i : Nat} (hl : Lists cfg s l) (hi : i < cfg.numTrackedCaches)
    (hk : l[k]? = some blk) (hpos : k ≠ 0) (hold : TracksAt cfg s.boundaries s.mask l i)
    {m : CachesMask} (hm : m.getLsbD i = decide (cfg.blocks i ≤ k)) :
    Holds (shrinkStep blk m s i) (fun u => Retracked s u ∧ AgreeOff i s u ∧
      u.mask blk = s.mask blk ∧
      TracksAt cfg u.boundaries (update u.mask blk cfg.inAllCachesMask) (toFront l blk) i)
      fun _ => False := by
  have hnodup := hl.linked.nodup
  have hi32 : i < 32 := lt_of_lt_of_le hi cfg.numTrackedCaches_le
  have htwo := cfg.two_le_blocks i
  have hltN := cfg.blocks_lt_numBlocks hi
  have hlen := hl.length
  unfold shrinkStep
  by_cases hle : cfg.blocks i ≤ k
  · -- the last block of the cache leaves it
    rw [if_pos ((Bitfield.shift_and_ne_zero hi32).mpr (by rw [hm]; exact decide_eq_true hle))]
    obtain ⟨b, hb⟩ : ∃ b, l[cfg.blocks i - 1]? = some b :=
      ⟨_, getElem?_eq_getElem (by omega)⟩
    have hbblk : b ≠ blk := mt (eq_iff_index hnodup hb hk).mp (by omega)
    rw [hold.boundary, hb]
    refine ⟨retracked_update, agreeOff_update fun j hj => ?_, ?_,
      TracksAt.of_toFront hnodup hi hk ?_ ?_ ?_⟩
    · rw [getLsbD_clear hi32, decide_eq_true hj.symm, Bool.and_true]
    · show (s.setMask b _).mask blk = s.mask blk
      rw [mask_setMask, update_of_ne hbblk.symm]
    · show update s.boundaries i ((s.setMask b _).prev b) i = _
      rw [update_self, getElem?_toFront hnodup hk, if_neg (by omega), if_pos (by omega),
        retracked_setMask.prev, hl.linked.prev_eq _ b hb, if_neg (by omega)]
    · intro p c hp hc
      show ((s.setMask b _).mask c).getLsbD i = _
      rw [mask_setMask, update_apply]
      split
      · next hcb =>
        have hlast := (eq_iff_index hnodup hc hb).mp hcb
        rw [getLsbD_clear hi32, decide_eq_false (by simp), Bool.and_false, decide_eq_false]
        omega
      · next hcb =>
        have hlast := mt (eq_iff_index hnodup hc hb).mpr hcb
        rw [hold.bit p c hc, decide_eq_decide]
        omega
    · intro p c hp hc
      show ((s.setMask b _).mask c).getLsbD i = _
      rw [mask_setMask, update_of_ne (mt (eq_iff_index hnodup hc hb).mp (by omega)),
        hold.bit p c hc]
  · rw [if_neg (by rw [Bitfield.shift_and_ne_zero hi32, hm, decide_eq_true_eq]; exact hle)]
    have hlow : ∀ p b, p < k → l[p]? = some b →
        (s.mask b).getLsbD i = decide (p + 1 < cfg.blocks i) := by
      intro p b hp hb
      rw [hold.bit p b hb, decide_eq_decide]
      omega
    have hhigh : ∀ p b, k < p → l[p]? = some b →
        (s.mask b).getLsbD i = decide (p < cfg.blocks i) := fun p b _ hb => hold.bit p b hb
    by_cases hbound : s.boundaries i = some blk
    · have hkc : k = cfg.blocks i - 1 :=
        (eq_iff_index hnodup hk (hold.boundary.symm.trans hbound)).mp rfl
      rw [if_pos hbound]
      refine ⟨retracked_boundary, agreeOff_boundary, rfl,
        TracksAt.of_toFront hnodup hi hk ?_ hlow hhigh⟩
      show update s.boundaries i (s.prev blk) i = _
      rw [update_self, getElem?_toFront hnodup hk, if_neg (by omega), if_pos hkc.ge,
        hl.linked.prev_eq k blk hk, if_neg hpos, hkc]
    · rw [if_neg hbound]
      have hkc : k ≠ cfg.blocks i - 1 := fun heq => hbound (hold.boundary.trans (heq ▸ hk))
      refine ⟨.refl, ⟨fun _ _ => rfl, fun _ _ _ => rfl⟩, rfl,
        TracksAt.of_toFront hnodup hi hk ?_ hlow hhigh⟩
      rw [hold.boundary, getElem?_toFront hnodup hk, if_neg (by omega), if_neg (by omega)]

theorem TracksAt.of_toBack {i : Nat} {boundaries : Nat → Option Nat} {mask : Nat → CachesMask}
    (hl : l.Nodup) (hlen : cfg.blocks i < l.length) (hk : l[k]? = some blk)
    (hb : boundaries i = (toBack l blk)[cfg.blocks i - 1]?)
    (hlow : ∀ p b, p < k → l[p]? = some b → (mask b).getLsbD i = decide (p < cfg.blocks i))
    (hhigh : ∀ p b, k ≤ p → l[p + 1]? = some b → (mask b).getLsbD i = decide (p < cfg.blocks i)) :
    TracksAt cfg boundaries (update mask blk 0#32) (toBack l blk) i := by
  refine ⟨hb, fun p b hp => ?_⟩
  rcases toBack_cases hl hk hp with ⟨hend, rfl⟩ | ⟨hlt, ho⟩ | ⟨hlt, ho⟩
  · rw [update_self, BitVec.getLsbD_zero, decide_eq_false (by omega)]
  · rw [update_of_ne (mt (eq_iff_index hl ho hk).mp hlt.ne), hlow p b hlt ho]
  · rw [update_of_ne (mt (eq_iff_index hl ho hk).mp (by omega)), hhigh p b hlt ho]

section

variable (hl : Lists cfg s l)
include hl

theorem growStep_spec {i : Nat} (hi : i < cfg.numTrackedCaches)
    (hk : l[k]? = some blk) (hold : TracksAt cfg s.boundaries s.mask l i)
    {m : CachesMask} (hm : m.getLsbD i = decide (k < cfg.blocks i)) :
    Holds (growStep blk m s i) (fun u => Retracked s u ∧ AgreeOff i s u ∧
      u.mask blk = s.mask blk ∧
      TracksAt cfg u.boundaries (update u.mask blk 0#32) (toBack l blk) i)
      fun _ => False := by
  have hnodup := hl.linked.nodup
  have hi32 : i < 32 := lt_of_lt_of_le hi cfg.numTrackedCaches_le
  have htwo := cfg.two_le_blocks i
  have hltN := cfg.blocks_lt_numBlocks hi
  have hlen := hl.length
  unfold growStep
  by_cases hlt : k < cfg.blocks i
  · -- the first block behind the cache enters it
    rw [if_pos ((Bitfield.shift_and_ne_zero hi32).mpr (by rw [hm]; exact decide_eq_true hlt))]
    obtain ⟨b, hb⟩ : ∃ b, l[cfg.blocks i - 1]? = some b :=
      ⟨_, getElem?_eq_getElem (by omega)⟩
    obtain ⟨c, hc⟩ : ∃ c, l[cfg.blocks i]? = some c := ⟨_, getElem?_eq_getElem (by omega)⟩
    have hcblk : c ≠ blk := mt (eq_iff_index hnodup hc hk).mp (by omega)
    have hnext : s.next b = some c := by
      rw [hl.linked.next_eq _ b hb, Nat.sub_add_cancel (by omega), hc]
    have hboundary : (if s.next b = some blk then s.next blk else s.next b) = some c := by
      rw [hnext, if_neg (fun heq => hcblk (Option.some.inj heq))]
    rw [hold.boundary, hb]
    refine holds_bind.mpr (holds_of_eq_ok rfl ?_)
    dsimp only
    rw [hboundary]
    refine ⟨retracked_update, agreeOff_update fun j hj => ?_, ?_,
      TracksAt.of_toBack hnodup (by omega) hk ?_ ?_ ?_⟩
    · rw [getLsbD_set hi32, decide_eq_false hj.symm, Bool.or_false]
      rfl
    · show (s.setMask c _).mask blk = s.mask blk
      rw [mask_setMask, update_of_ne hcblk.symm]
    · show update s.boundaries i (some c) i = _
      rw [update_self, getElem?_toBack hnodup hk, if_neg (by omega), if_neg (by omega),
        Nat.sub_add_cancel (by omega), hc]
    · intro p d hp hd
      show ((s.setMask c _).mask d).getLsbD i = _
      rw [mask_setMask, update_of_ne (mt (eq_iff_index hnodup hd hc).mp (by omega)),
        hold.bit p d hd]
    · intro p d hp hd
      show ((s.setMask c _).mask d).getLsbD i = _
      rw [mask_setMask, update_apply]
      split
      · next hdc =>
        have hfirst := (eq_iff_index hnodup hd hc).mp hdc
        rw [getLsbD_set hi32, decide_eq_true rfl, Bool.or_true, decide_eq_true]
        omega
      · next hdc =>
        have hfirst := mt (eq_iff_index hnodup hd hc).mpr hdc
        rw [hold.bit _ d hd, decide_eq_decide]
        omega
  · rw [if_neg (by rw [Bitfield.shift_and_ne_zero hi32, hm, decide_eq_true_eq]; exact hlt)]
    refine ⟨.refl, ⟨fun _ _ => rfl, fun _ _ _ => rfl⟩, rfl,
      TracksAt.of_toBack hnodup (by omega) hk ?_ (fun p d _ hd => hold.bit p d hd) ?_⟩
    · rw [hold.boundary, getElem?_toBack hnodup hk, if_neg (by omega), if_pos (by omega)]
    · intro p d hp hd
      rw [hold.bit _ d hd, decide_eq_decide]
      omega

theorem mem_iff_lt {b : Nat} : b ∈ l ↔ b < cfg.numBlocks := by
  rw [hl.perm.mem_iff, mem_range]

theorem Lists.retracked (hr : Retracked s t) : Lists cfg t l where
  linked := by
    rw [hr.prev, hr.next]
    exact hl.linked
  head_eq := hr.head.trans hl.head_eq
  tail_eq := hr.tail.trans hl.tail_eq
  perm := hl.perm

theorem moveBlockToHead_spec (ht : Tracks cfg s l) (hk : l[k]? = some blk) (hpos : k ≠ 0) :
    Holds (moveBlockToHead cfg s blk)
      (fun t => Retracked s t ∧ Tracks cfg t (toFront l blk)) fun _ => False := by
  have hmem := mem_of_getElem? hk
  refine holds_bind.mpr ((retrack_loop ht fun i hi t hr hblk hold =>
    shrinkStep_spec (hl.retracked hr) hi hk hpos hold ?_).imp ?_)
  · rw [BitVec.getLsbD_xor, cfg.getLsbD_inAllCachesMask, decide_eq_true hi,
      (ht.at_ i hi).bit k blk hk]
    simp [← decide_not]
  · rintro u ⟨hr, hat, hunused⟩
    refine ⟨hr.trans retracked_setMask, ⟨fun i hi => ?_, fun b hb i hi => ?_⟩⟩
    · rw [mask_setMask]
      exact hat i hi
    · rw [mask_setMask, update_apply]
      split
      · rw [cfg.getLsbD_inAllCachesMask, decide_eq_false (by omega)]
      · rw [hunused b i hi]
        exact ht.unused b ((perm_toFront hmem).mem_iff.mp hb) i hi

theorem moveBlockToTail_spec (ht : Tracks cfg s l) (hk : l[k]? = some blk) :
    Holds (moveBlockToTail cfg s blk)
      (fun t => Retracked s t ∧ Tracks cfg t (toBack l blk)) fun _ => False := by
  have hmem := mem_of_getElem? hk
  refine holds_bind.mpr ((retrack_loop ht fun i hi t hr hblk hold =>
    growStep_spec (hl.retracked hr) hi hk hold ((ht.at_ i hi).bit k blk hk)).imp ?_)
  rintro u ⟨hr, hat, hunused⟩
  refine ⟨hr.trans retracked_setMask, ⟨fun i hi => ?_, fun b hb i hi => ?_⟩⟩
  · rw [mask_setMask]
    exact hat i hi
  · rw [mask_setMask, update_apply]
    split
    · exact BitVec.getLsbD_zero
    · rw [hunused b i hi]
      exact ht.unused b ((perm_toBack hmem).mem_iff.mp hb) i hi

end

/-- The loop meets the blocks of `l` with the mask of the tracked caches that still have room, and
the last block of every tracked cache as such. -/
theorem walk_spec (visit : FaLru → Nat → CachesMask → Except FaLruFailure FaLru)
    (bound : FaLru → Nat → Nat → Except FaLruFailure FaLru) {P : Nat → FaLru → Prop}
    (hlists : ∀ p s, P p s → Lists cfg s l) (hvisit : ∀ p b m s, P p s → l[p]? = some b →
      (∀ i, m.getLsbD i = decide (i < cfg.numTrackedCaches ∧ p < cfg.blocks i)) →
      ∃ s₁, visit s b m = .ok s₁ ∧ s₁.tail = s.tail ∧
        (∀ j < cfg.numTrackedCaches, cfg.blocks j = p + 1 →
          ∃ s₂, bound s₁ j b = .ok s₂ ∧ P (p + 1) s₂) ∧
        ((∀ j < cfg.numTrackedCaches, cfg.blocks j ≠ p + 1) → P (p + 1) s₁))
    (fuel p j : Nat) : ∀ (m : CachesMask) (s : FaLru), P p s → p + fuel = cfg.numBlocks + 1 →
      p ≤ cfg.numBlocks → j ≤ cfg.numTrackedCaches → (∀ i < j, cfg.blocks i ≤ p) → (∀ i, j ≤ i → p < cfg.blocks i) →
      (∀ i, m.getLsbD i = decide (i < cfg.numTrackedCaches ∧ p < cfg.blocks i)) →
      ∃ t, walk cfg visit bound fuel l[p]? (p * cfg.blkSize) (cfg.minTrackedSize * 2 ^ j) m j s =
        .ok t ∧ P cfg.numBlocks t := by
  induction fuel generalizing p j with
  | zero =>
    intro m s hP hfuel hle
    omega
  | succ fuel ih =>
    intro m s hP hfuel hle hj hbelow habove hm
    have hlen := (hlists p s hP).length
    cases hp : l[p]? with
    | none =>
      have hend : p = cfg.numBlocks := by
        have := getElem?_eq_none_iff.mp hp
        omega
      exact ⟨s, by rw [walk]; rfl, hend ▸ hP⟩
    | some b =>
      obtain ⟨hlt, -⟩ := List.getElem?_eq_some_iff.mp hp
      obtain ⟨s₁, hv, htail, hboundary, hinner⟩ := hvisit p b m s hP hp hm
      have htail' : s₁.tail ≠ some b ↔ p + 1 ≠ cfg.numBlocks := by
        obtain ⟨c, hc⟩ : ∃ c, l[cfg.numBlocks - 1]? = some c :=
          ⟨_, getElem?_eq_getElem (by omega)⟩
        rw [htail, (hlists p s hP).tail_eq, hc, Ne, Option.some.injEq,
          eq_iff_index (hlists p s hP).linked.nodup hc hp]
        omega
      have hsize : p * cfg.blkSize + cfg.blkSize = cfg.minTrackedSize * 2 ^ j ↔
          cfg.blocks j = p + 1 := by
        rw [← cfg.blocks_mul, ← Nat.succ_mul, Nat.mul_left_inj cfg.blkSize_pos.ne']
        exact eq_comm
      have hbelow' : ∀ i < j, cfg.blocks i ≤ p + 1 := fun i hi => (hbelow i hi).trans (by omega)
      have hblocks := cfg.numBlocks_le_blocks
      rw [walk, hv, ok_bind]
      dsimp only
      by_cases hstop : cfg.blocks j = p + 1 ∧ p + 1 ≠ cfg.numBlocks
      · have hjn : j < cfg.numTrackedCaches := by
          apply lt_of_le_of_ne hj
          rintro rfl
          omega
        have hj32 : j < 32 := lt_of_lt_of_le hjn cfg.numTrackedCaches_le
        obtain ⟨s₂, hb, hP₂⟩ := hboundary j hjn hstop.1
        have hafter : ∀ i, j + 1 ≤ i → p + 1 < cfg.blocks i := fun i hi =>
          hstop.1 ▸ cfg.blocks_lt_blocks hi
        rw [if_pos ⟨hsize.mpr hstop.1, htail'.mpr hstop.2⟩, require_eq_ok (u := ⟨⟩) |>.mpr hjn, ok_bind, hb,
          ok_bind, (hlists _ _ hP₂).linked.next_eq p b hp, ← succ_mul, mul_assoc,
          ← pow_succ]
        refine ih (p + 1) (j + 1) _ s₂ hP₂ (by omega) (by omega) hjn (fun i hi => ?_) hafter ?_
        · rcases Nat.lt_succ_iff_lt_or_eq.mp hi with hi | rfl
          · exact hbelow' i hi
          · exact hstop.1.le
        · intro i
          rw [getLsbD_clear hj32, hm, ← Bool.decide_and, decide_eq_decide]
          rcases lt_trichotomy i j with hi | rfl | hi
          · have := hbelow i hi
            omega
          · omega
          · have := hafter i hi
            omega
      · have hafter : p + 1 ≠ cfg.numBlocks → ∀ i, j ≤ i → p + 1 < cfg.blocks i := by
          intro hne i hi
          have hfirst := habove j le_rfl
          rcases hi.lt_or_eq with hi | rfl
          · have := cfg.blocks_lt_blocks hi
            omega
          · omega
        have hP₁ : P (p + 1) s₁ := by
          apply hinner
          intro i hi heq
          by_cases hend : p + 1 = cfg.numBlocks
          · have := cfg.blocks_lt_numBlocks hi
            omega
          · by_cases hij : i < j
            · have := hbelow i hij
              omega
            · have := hafter hend i (by omega)
              omega
        rw [if_neg (by rw [hsize, htail']; exact hstop),
          (hlists _ _ hP₁).linked.next_eq p b hp, ← succ_mul]
        by_cases hend : p + 1 = cfg.numBlocks
        · rw [getElem?_eq_none (by omega)]
          exact ⟨s₁, by rw [walk]; rfl, hend ▸ hP₁⟩
        · refine ih (p + 1) j m s₁ hP₁ (by omega) (by omega) hj hbelow' (hafter hend) fun i => ?_
          rw [hm, decide_eq_decide]
          by_cases hij : i < j
          · have := hbelow i hij
            omega
          · have := hafter hend i (by omega)
            have := habove i (by omega)
            omega

theorem Tracks.getLsbD_mask (ht : Tracks cfg s l) {p b : Nat} (hp : l[p]? = some b) (i : Nat) :
    (s.mask b).getLsbD i = decide (i < cfg.numTrackedCaches ∧ p < cfg.blocks i) := by
  by_cases hi : i < cfg.numTrackedCaches
  · simp [(ht.at_ i hi).bit p b hp, hi]
  · rw [ht.unused b (mem_of_getElem? hp) i (not_lt.mp hi), decide_eq_false (hi ·.1)]

theorem mask_start (i : Nat) : cfg.inAllCachesMask.getLsbD i =
    decide (i < cfg.numTrackedCaches ∧ 0 < cfg.blocks i) := by
  have := cfg.two_le_blocks i
  rw [cfg.getLsbD_inAllCachesMask, decide_eq_decide]
  omega

theorem check_eq_ok (hl : Lists cfg s l) (ht : Tracks cfg s l) : check cfg s = .ok s := by
  have hwalk := walk_spec
    (fun s blk m => do
      require (s.mask blk = m) .checkMask
      pure s)
    (fun s j blk => do
      require (s.boundaries j = some blk) .checkBoundary
      pure s)
    (P := fun _ t => t = s) (fun p t heq => heq ▸ hl) (fun p b m t heq hp hm => ?_) (cfg.numBlocks + 1) 0 0
    cfg.inAllCachesMask s rfl (zero_add _) (zero_le _) (zero_le _)
    (fun i hi => absurd hi (not_lt_zero i))
    (fun i _ => lt_of_lt_of_le (by decide) (cfg.two_le_blocks i)) mask_start
  · obtain ⟨t, ht, rfl⟩ := hwalk
    rw [zero_mul, pow_zero, mul_one, ← hl.head_eq] at ht
    exact ht
  · subst heq
    have hmask : t.mask b = m :=
      BitVec.eq_of_getLsbD_eq fun i _ => (ht.getLsbD_mask hp i).trans (hm i).symm
    refine ⟨t, bind_eq_ok.mpr ⟨⟨⟩, require_eq_ok.mpr hmask, rfl⟩, rfl, fun j hj hbound => ?_,
      fun _ => rfl⟩
    have hboundary : t.boundaries j = some b := by
      rw [(ht.at_ j hj).boundary, hbound, Nat.add_sub_cancel, hp]
    exact ⟨t, bind_eq_ok.mpr ⟨⟨⟩, require_eq_ok.mpr hboundary, rfl⟩, rfl⟩

theorem lists_start (hprev : s.prev = fun b => (initBlk cfg b).prev)
    (hnext : s.next = fun b => (initBlk cfg b).next) (hhead : s.head = some 0)
    (htail : s.tail = some (cfg.numBlocks - 1)) :
    Lists cfg s (range cfg.numBlocks) := by
  have htwo := cfg.two_le_numBlocks
  have hget : ∀ j a, (range cfg.numBlocks)[j]? = some a → a = j ∧ j < cfg.numBlocks := by
    intro j a hj
    obtain ⟨hlt, hval⟩ := List.getElem?_eq_some_iff.mp hj
    rw [getElem_range] at hval
    rw [length_range] at hlt
    exact ⟨hval.symm, hlt⟩
  refine ⟨⟨nodup_range, fun j a hj => ?_, fun j a hj => ?_⟩, ?_, ?_, .refl _⟩
  · obtain ⟨rfl, hlt⟩ := hget j a hj
    rw [hnext]
    by_cases hend : a + 1 = cfg.numBlocks
    · simp [initBlk, hend]
    · rw [getElem?_range (by omega)]
      simp [initBlk, hend]
  · obtain ⟨rfl, hlt⟩ := hget j a hj
    rw [hprev]
    by_cases hzero : a = 0
    · simp [initBlk, hzero]
    · rw [getElem?_range (by omega)]
      simp [initBlk, hzero]
  · rw [hhead, getElem?_range (by omega)]
  · rw [htail, getElem?_range (by omega)]

theorem initTracking_spec (hl : Lists cfg s l) (hmask : ∀ b, s.mask b = 0) :
    ∃ t, initTracking cfg s = .ok t ∧ Retracked s t ∧ Tracks cfg t l := by
  by_cases hnum : cfg.numTrackedCaches = 0
  · refine ⟨s, ?_, .refl, fun i hi => absurd hi (by omega), fun b _ i _ => ?_⟩
    · rw [initTracking, if_pos hnum, walk]
      rfl
    · rw [hmask]
      exact BitVec.getLsbD_zero
  have hnodup := hl.linked.nodup
  have hwalk := walk_spec (fun s blk m => pure (s.setMask blk m))
    (fun s j blk => pure { s with boundaries := update s.boundaries j (some blk) })
    (P := fun p t => Retracked s t ∧
      (∀ q b, q < p → l[q]? = some b → ∀ i,
        (t.mask b).getLsbD i = decide (i < cfg.numTrackedCaches ∧ q < cfg.blocks i)) ∧
      ∀ i < cfg.numTrackedCaches, cfg.blocks i ≤ p → t.boundaries i = l[cfg.blocks i - 1]?)
    (fun p t hP => hl.retracked hP.1) (fun p b m t hP hp hm => ?_) (cfg.numBlocks + 1) 0 0
    cfg.inAllCachesMask s
    ⟨.refl, fun q b hq => absurd hq (not_lt_zero q), fun i _ hi => ?_⟩
    (zero_add _) (zero_le _) (zero_le _) (fun i hi => absurd hi (not_lt_zero i))
    (fun i _ => lt_of_lt_of_le (by decide) (cfg.two_le_blocks i)) mask_start
  · obtain ⟨t, ht, hr, hbits, hbounds⟩ := hwalk
    rw [zero_mul, pow_zero, mul_one, ← hl.head_eq] at ht
    refine ⟨t, ?_, hr, fun i hi => ⟨hbounds i hi (cfg.blocks_lt_numBlocks hi).le,
      fun p b hp => ?_⟩, fun b hb i hi => ?_⟩
    · rw [initTracking, if_neg hnum]
      exact ht
    · rw [hbits p b ?_ hp i, decide_eq_decide]
      · simp [hi]
      · rw [← hl.length]
        exact (List.getElem?_eq_some_iff.mp hp).1
    · obtain ⟨p, hp⟩ := mem_iff_getElem?.mp hb
      rw [hbits p b ?_ hp i, decide_eq_false (by omega)]
      rw [← hl.length]
      exact (List.getElem?_eq_some_iff.mp hp).1
  · obtain ⟨hr, hbits, hbounds⟩ := hP
    have hbits' : ∀ q c, q < p + 1 → l[q]? = some c → ∀ i,
        ((t.setMask b m).mask c).getLsbD i =
          decide (i < cfg.numTrackedCaches ∧ q < cfg.blocks i) := by
      intro q c hq hc i
      rw [mask_setMask, update_apply]
      split
      · next hcb => rw [hm, (eq_iff_index hnodup hc hp).mp hcb]
      · next hcb =>
        have := mt (eq_iff_index hnodup hc hp).mpr hcb
        exact hbits q c (by omega) hc i
    refine ⟨t.setMask b m, rfl, rfl, fun j hj hbound => ⟨_, rfl,
      hr.trans (retracked_setMask.trans retracked_boundary), hbits', fun i hi hle => ?_⟩,
      fun hno => ⟨hr.trans retracked_setMask, hbits', fun i hi hle => ?_⟩⟩
    · show update t.boundaries j (some b) i = _
      rw [update_apply]
      split
      · next hij => rw [hij, hbound, Nat.add_sub_cancel, hp]
      · next hij =>
        apply hbounds i hi
        rcases lt_or_gt_of_ne hij with hlt | hgt
        · have := cfg.blocks_lt_blocks hlt
          omega
        · have := cfg.blocks_lt_blocks hgt
          omega
    · have := hno i hi
      exact hbounds i hi (by omega)
  · have := cfg.two_le_blocks i
    omega

structure SameContents (s t : FaLru) : Prop where
  key : t.key = s.key
  valid : t.valid = s.valid
  tagHash : t.tagHash = s.tagHash
  hits : t.hits = s.hits
  misses : t.misses = s.misses
  accesses : t.accesses = s.accesses

theorem SameContents.refl : SameContents s s := ⟨rfl, rfl, rfl, rfl, rfl, rfl⟩

theorem SameContents.trans (h : SameContents s t) (h' : SameContents t u) : SameContents s u where
  key := h'.key.trans h.key
  valid := h'.valid.trans h.valid
  tagHash := h'.tagHash.trans h.tagHash
  hits := h'.hits.trans h.hits
  misses := h'.misses.trans h.misses
  accesses := h'.accesses.trans h.accesses

theorem Retracked.sameContents (h : Retracked s t) : SameContents s t where
  key := funext fun b => by rw [key, h.blks b]; rfl
  valid := funext fun b => by rw [valid, h.blks b]; rfl
  tagHash := h.tagHash
  hits := h.hits
  misses := h.misses
  accesses := h.accesses

theorem init_spec (cfg : FaLruConfig) : ∃ s, init cfg = .ok s ∧ Lists cfg s (range cfg.numBlocks) ∧
    Tracks cfg s (range cfg.numBlocks) ∧ SameContents
      ⟨initBlk cfg, some 0, some (cfg.numBlocks - 1), fun _ => none, fun _ => none, fun _ => 0,
        fun _ => 0, 0⟩ s := by
  have hl : Lists cfg ⟨initBlk cfg, some 0, some (cfg.numBlocks - 1), fun _ => none,
      fun _ => none, fun _ => 0, fun _ => 0, 0⟩ (range cfg.numBlocks) :=
    lists_start rfl rfl rfl rfl
  obtain ⟨t, hok, hr, ht⟩ := initTracking_spec hl fun _ => rfl
  exact ⟨t, hok, hl.retracked hr, ht, hr.sameContents⟩

structure Repointed (s t : FaLru) : Prop extends SameContents s t where
  mask : t.mask = s.mask
  boundaries : t.boundaries = s.boundaries

theorem Repointed.trans (h : Repointed s t) (h' : Repointed t u) : Repointed s u :=
  ⟨h.toSameContents.trans h'.toSameContents, h'.mask.trans h.mask,
    h'.boundaries.trans h.boundaries⟩

theorem repointed_ends {head tail : Option Nat} :
    Repointed s { s with head := head, tail := tail } :=
  ⟨⟨rfl, rfl, rfl, rfl, rfl, rfl⟩, rfl, rfl⟩

section Setters

variable {b : Nat} {p : Option Nat}

@[simp] theorem next_setNext : (s.setNext b p).next = update s.next b p := by
  funext c
  by_cases hc : c = b <;> simp [hc, setNext, modify, next]

@[simp] theorem prev_setNext : (s.setNext b p).prev = s.prev := by
  funext c
  by_cases hc : c = b <;> simp [hc, setNext, modify, prev]

@[simp] theorem prev_setPrev : (s.setPrev b p).prev = update s.prev b p := by
  funext c
  by_cases hc : c = b <;> simp [hc, setPrev, modify, prev]

@[simp] theorem next_setPrev : (s.setPrev b p).next = s.next := by
  funext c
  by_cases hc : c = b <;> simp [hc, setPrev, modify, next]

theorem repointed_setNext : Repointed s (s.setNext b p) := by
  refine ⟨⟨funext fun c => ?_, funext fun c => ?_, rfl, rfl, rfl, rfl⟩, funext fun c => ?_, rfl⟩ <;>
    by_cases hc : c = b <;> simp [hc, setNext, modify, key, valid, mask]

theorem repointed_setPrev : Repointed s (s.setPrev b p) := by
  refine ⟨⟨funext fun c => ?_, funext fun c => ?_, rfl, rfl, rfl, rfl⟩, funext fun c => ?_, rfl⟩ <;>
    by_cases hc : c = b <;> simp [hc, setPrev, modify, key, valid, mask]

end Setters

theorem Tracks.repointed (ht : Tracks cfg s l) (hr : Repointed s t) : Tracks cfg t l := by
  refine ⟨fun i hi => ?_, fun b hmem i hi => ?_⟩
  · rw [hr.mask, hr.boundaries]
    exact ht.at_ i hi
  · rw [hr.mask]
    exact ht.unused b hmem i hi

theorem unlink_eq_ok {p n : Nat} (hp : s.prev blk = some p) (hn : s.next blk = some n)
    (hne : p ≠ blk) : unlink s blk = .ok ((s.setNext p (some n)).setPrev n (some p)) := by
  simp [unlink, deref, hp, hn, update_of_ne hne.symm]
  rfl

theorem leaveForHead_spec {p : Nat} (hl : Lists cfg s l) (hk : l[k]? = some blk) (hpos : k ≠ 0)
    (hp : l[k - 1]? = some p) :
    ∃ u, leaveForHead s blk = .ok u ∧ Repointed s u ∧
      u.next = update s.next p (s.next blk) ∧
      u.prev = skipBack s.prev blk (s.next blk) ∧ u.head = s.head ∧
      u.tail = (toFront l blk)[cfg.numBlocks - 1]? := by
  have hnodup := hl.linked.nodup
  have hlen := hl.length
  have hprev : s.prev blk = some p := by rw [hl.linked.prev_eq k blk hk, if_neg hpos, hp]
  have hpblk : p ≠ blk := mt (eq_iff_index hnodup hp hk).mp (by omega)
  have hkN : k < l.length := (List.getElem?_eq_some_iff.mp hk).1
  rw [getElem?_toFront hnodup hk, if_neg (by omega), hl.linked.next_eq k blk hk, leaveForHead]
  by_cases hlast : some blk = s.tail
  · have hkend : k = cfg.numBlocks - 1 :=
      (eq_iff_index hnodup hk (hl.tail_eq.symm.trans hlast.symm)).mp rfl
    have hnone : l[k + 1]? = none := getElem?_eq_none (by omega)
    refine ⟨{ s.setNext p none with tail := some p }, ?_, repointed_setNext.trans repointed_ends,
      ?_, ?_, rfl, ?_⟩
    · rw [if_pos hlast, hl.linked.next_eq k blk hk, hnone, hprev]
      rfl
    · rw [hnone]
      exact next_setNext
    · rw [hnone]
      exact prev_setNext
    · rw [if_pos hkend.ge, ← hkend, hp]
  · have hkend : k ≠ cfg.numBlocks - 1 := by
      rintro rfl
      exact hlast (hk.symm.trans hl.tail_eq.symm)
    obtain ⟨n, hn⟩ : ∃ n, l[k + 1]? = some n := ⟨_, getElem?_eq_getElem (by omega)⟩
    rw [if_neg hlast, if_neg (by omega), hn]
    refine ⟨(s.setNext p (some n)).setPrev n (some p),
      unlink_eq_ok hprev ((hl.linked.next_eq k blk hk).trans hn) hpblk,
      repointed_setNext.trans repointed_setPrev, ?_, ?_, rfl, hl.tail_eq⟩
    · rw [next_setPrev, next_setNext]
    · rw [prev_setPrev, prev_setNext, skipBack, hprev]

theorem pushHead_spec {h : Nat} (blk : Nat) (hh : s.head = some h) :
    ∃ u, pushHead s blk = .ok u ∧ Repointed s u ∧
      u.next = update s.next blk (some h) ∧
      u.prev = update (update s.prev blk none) h (some blk) ∧
      u.head = some blk ∧ u.tail = s.tail := by
  refine ⟨{ ((s.setNext blk s.head).setPrev blk none).setPrev h (some blk) with head := some blk },
    ?_, ((repointed_setNext.trans repointed_setPrev).trans repointed_setPrev).trans repointed_ends,
    ?_, ?_, rfl, rfl⟩
  · have hhead : ((s.setNext blk s.head).setPrev blk none).head = some h := hh
    simp [pushHead, hhead, deref]
    rfl
  · show (((s.setNext blk s.head).setPrev blk none).setPrev h (some blk)).next = _
    rw [next_setPrev, next_setPrev, next_setNext, hh]
  · show (((s.setNext blk s.head).setPrev blk none).setPrev h (some blk)).prev = _
    rw [prev_setPrev, prev_setPrev, prev_setNext]

theorem moveToHead_spec (hl : Lists cfg s l) (ht : Tracks cfg s l) (hmem : blk ∈ l) :
    ∃ t, moveToHead cfg s blk = .ok t ∧ Lists cfg t (toFront l blk) ∧
      Tracks cfg t (toFront l blk) ∧ SameContents s t := by
  rw [moveToHead]
  by_cases hfirst : some blk = s.head
  · rw [if_pos hfirst, toFront_head (by rw [head?_eq_getElem?, ← hl.head_eq, hfirst])]
    exact ⟨s, rfl, hl, ht, .refl⟩
  rw [if_neg hfirst]
  obtain ⟨k, hk⟩ := mem_iff_getElem?.mp hmem
  have hkN : k < l.length := (List.getElem?_eq_some_iff.mp hk).1
  have hpos : k ≠ 0 := by
    rintro rfl
    exact hfirst (hk.symm.trans hl.head_eq.symm)
  obtain ⟨p, hp⟩ : ∃ p, l[k - 1]? = some p := ⟨_, getElem?_eq_getElem (by omega)⟩
  obtain ⟨h, hh⟩ : ∃ h, l[0]? = some h := ⟨_, getElem?_eq_getElem (by omega)⟩
  obtain ⟨t, hok, hr, htracks⟩ := (moveBlockToHead_spec hl ht hk hpos).exists_ok
  have hl' := hl.retracked hr
  have hprev : t.prev blk = some p := by rw [hl'.linked.prev_eq k blk hk, if_neg hpos, hp]
  obtain ⟨u, hu, hru, hunext, huprev, huhead, hutail⟩ := leaveForHead_spec hl' hk hpos hp
  obtain ⟨v, hv, hrv, hvnext, hvprev, hvhead, hvtail⟩ :=
    pushHead_spec blk (huhead.trans (hl'.head_eq.trans hh))
  have hlinked := hl'.linked.toFront hmem hprev (by rw [head?_eq_getElem?, hh])
  have hlists : Lists cfg v (toFront l blk) := by
    refine ⟨?_, hvhead, hvtail.trans hutail, (perm_toFront hmem).trans hl.perm⟩
    rw [hvnext, hunext, hvprev, huprev]
    exact hlinked
  have htracks' := (htracks.repointed hru).repointed hrv
  refine ⟨v, ?_, hlists, htracks',
    hr.sameContents.trans (hru.trans hrv).toSameContents⟩
  rw [hok, ok_bind, hu, ok_bind, hv, ok_bind]
  exact check_eq_ok hlists htracks'

theorem leaveForTail_spec {n : Nat} (hl : Lists cfg s l) (hk : l[k]? = some blk)
    (hn : l[k + 1]? = some n) :
    ∃ u, leaveForTail s blk = .ok u ∧ Repointed s u ∧
      u.prev = update s.prev n (s.prev blk) ∧
      u.next = skipBack s.next blk (s.prev blk) ∧ u.tail = s.tail ∧
      u.head = (toBack l blk)[0]? := by
  have hnodup := hl.linked.nodup
  have hlen := hl.length
  have hnext : s.next blk = some n := by rw [hl.linked.next_eq k blk hk, hn]
  have hnN : k + 1 < l.length := (List.getElem?_eq_some_iff.mp hn).1
  rw [getElem?_toBack hnodup hk, if_neg (by omega), leaveForTail]
  by_cases hfirst : some blk = s.head
  · have hzero : k = 0 := (eq_iff_index hnodup hk (hl.head_eq.symm.trans hfirst.symm)).mp rfl
    have hprev : s.prev blk = none := by rw [hl.linked.prev_eq k blk hk, if_pos hzero]
    refine ⟨{ s.setPrev n none with head := some n }, ?_, repointed_setPrev.trans repointed_ends,
      ?_, ?_, rfl, ?_⟩
    · rw [if_pos hfirst, hprev, hnext]
      rfl
    · rw [hprev]
      exact prev_setPrev
    · rw [hprev]
      exact next_setPrev
    · rw [if_neg (by omega), ← hzero, hn]
  · have hpos : k ≠ 0 := by
      rintro rfl
      exact hfirst (hk.symm.trans hl.head_eq.symm)
    obtain ⟨p, hp⟩ : ∃ p, l[k - 1]? = some p := ⟨_, getElem?_eq_getElem (by omega)⟩
    have hprev : s.prev blk = some p := by rw [hl.linked.prev_eq k blk hk, if_neg hpos, hp]
    rw [if_neg hfirst, if_pos (by omega)]
    refine ⟨(s.setNext p (some n)).setPrev n (some p),
      unlink_eq_ok hprev hnext (mt (eq_iff_index hnodup hp hk).mp (by omega)),
      repointed_setNext.trans repointed_setPrev, ?_, ?_, rfl, hl.head_eq⟩
    · rw [prev_setPrev, prev_setNext, hprev]
    · rw [next_setPrev, next_setNext, hprev, skipBack, hnext]

theorem pushTail_spec {t : Nat} (blk : Nat) (ht : s.tail = some t) :
    ∃ u, pushTail s blk = .ok u ∧ Repointed s u ∧
      u.prev = update s.prev blk (some t) ∧
      u.next = update (update s.next blk none) t (some blk) ∧
      u.tail = some blk ∧ u.head = s.head := by
  refine ⟨{ ((s.setPrev blk s.tail).setNext blk none).setNext t (some blk) with tail := some blk },
    ?_, ((repointed_setPrev.trans repointed_setNext).trans repointed_setNext).trans repointed_ends,
    ?_, ?_, rfl, rfl⟩
  · have htail : ((s.setPrev blk s.tail).setNext blk none).tail = some t := ht
    simp [pushTail, htail, deref]
    rfl
  · show (((s.setPrev blk s.tail).setNext blk none).setNext t (some blk)).prev = _
    rw [prev_setNext, prev_setNext, prev_setPrev, ht]
  · show (((s.setPrev blk s.tail).setNext blk none).setNext t (some blk)).next = _
    rw [next_setNext, next_setNext, next_setPrev]

theorem moveToTail_spec (hl : Lists cfg s l) (ht : Tracks cfg s l) (hmem : blk ∈ l) :
    ∃ t, moveToTail cfg s blk = .ok t ∧ Lists cfg t (toBack l blk) ∧
      Tracks cfg t (toBack l blk) ∧ SameContents s t := by
  have hlen := hl.length
  have hlast? : l.getLast? = s.tail := by rw [getLast?_eq_getElem?, hl.tail_eq, hlen]
  rw [moveToTail]
  by_cases hlast : some blk = s.tail
  · rw [if_pos hlast, toBack_getLast hl.linked.nodup (hlast?.trans hlast.symm)]
    exact ⟨s, rfl, hl, ht, .refl⟩
  rw [if_neg hlast]
  obtain ⟨k, hk⟩ := mem_iff_getElem?.mp hmem
  have hkN : k < l.length := (List.getElem?_eq_some_iff.mp hk).1
  have hkend : k ≠ cfg.numBlocks - 1 := by
    rintro rfl
    exact hlast (hk.symm.trans hl.tail_eq.symm)
  obtain ⟨n, hn⟩ : ∃ n, l[k + 1]? = some n := ⟨_, getElem?_eq_getElem (by omega)⟩
  obtain ⟨z, hz⟩ : ∃ z, l[cfg.numBlocks - 1]? = some z := ⟨_, getElem?_eq_getElem (by omega)⟩
  obtain ⟨t, hok, hr, htracks⟩ := (moveBlockToTail_spec hl ht hk).exists_ok
  have hl' := hl.retracked hr
  have hnext : t.next blk = some n := by rw [hl'.linked.next_eq k blk hk, hn]
  obtain ⟨u, hu, hru, huprev, hunext, hutail, huhead⟩ := leaveForTail_spec hl' hk hn
  obtain ⟨v, hv, hrv, hvprev, hvnext, hvtail, hvhead⟩ :=
    pushTail_spec blk (hutail.trans (hl'.tail_eq.trans hz))
  have hlinked := hl'.linked.toBack hmem hnext (hlast?.trans (hl.tail_eq.trans hz))
  have hlists : Lists cfg v (toBack l blk) := by
    refine ⟨?_, hvhead.trans huhead, hvtail.trans ?_, (perm_toBack hmem).trans hl.perm⟩
    · rw [hvnext, hunext, hvprev, huprev]
      exact hlinked
    · rw [getElem?_toBack hl.linked.nodup hk, if_pos (by omega)]
  have htracks' := (htracks.repointed hru).repointed hrv
  refine ⟨v, ?_, hlists, htracks',
    hr.sameContents.trans (hru.trans hrv).toSameContents⟩
  rw [hok, ok_bind, hu, ok_bind, hv, ok_bind]
  exact check_eq_ok hlists htracks'

end Drain.FaLru
