import Drain.FaLruRun

/-! The statistics of the fully associative tags, against separate caches of the tracked sizes. -/

namespace Drain.FaLru

open Function List LruCache

variable {cfg : FaLruConfig} {s t : FaLru} {l : List Nat} {b m : Nat} {ks : List (Addr × Bool)}

def keyOf (cfg : FaLruConfig) (p : Addr × Bool) : Addr × Bool := (cfg.blkAlign p.1, p.2)

def serve (cfg : FaLruConfig) (s : FaLru) (p : Addr × Bool) : Except FaLruFailure FaLru := do
  let (blk, _, s) ← accessBlock cfg s p.1 p.2
  if blk.any s.valid then pure s
  else do
    let (victim, s) ← replaceVictim cfg s p.1 p.2
    pure (s.setValid victim)

def serveAll (cfg : FaLruConfig) (trace : List (Addr × Bool)) : Except FaLruFailure FaLru := do
  let s ← init cfg
  trace.foldlM (serve cfg) s

/-- The first `m` blocks are valid and hold `ks`, and the others are free. -/
structure Holding (cfg : FaLruConfig) (s : FaLru) (l : List Nat) (m : Nat)
    (ks : List (Addr × Bool)) : Prop where
  inv : Inv cfg s l
  le : m ≤ cfg.numBlocks
  valid : ∀ b ∈ l, s.valid b = true ↔ b ∈ l.take m
  keys : (l.take m).map s.key = ks
  nodup : ks.Nodup
  hash : ∀ key b, s.tagHash key = some b ↔ b ∈ l.take m ∧ s.key b = key

section

variable (h : Holding cfg s l m ks)
include h

theorem Holding.length : ks.length = m := by
  rw [← h.keys, length_map, length_take, h.inv.lists.length, Nat.min_eq_left h.le]

theorem Holding.mem_iff {key : Addr × Bool} :
    key ∈ ks ↔ ∃ b, s.tagHash key = some b := by
  rw [← h.keys, mem_map]
  exact exists_congr fun b => (h.hash key b).symm

theorem Holding.congr (hi : Inv cfg t l) (hk : t.key = s.key)
    (hv : t.valid = s.valid) (hh : t.tagHash = s.tagHash) : Holding cfg t l m ks := by
  refine ⟨hi, h.le, ?_, ?_, h.nodup, ?_⟩
  · rw [hv]
    exact h.valid
  · rw [hk]
    exact h.keys
  · rw [hk, hh]
    exact h.hash

theorem Holding.use (hb : b ∈ l.take m) (hi : Inv cfg t (toFront l b)) (hc : SameContents s t) :
    Holding cfg t (toFront l b) m (toFront ks (s.key b)) := by
  have hmem : b ∈ l := mem_of_mem_take hb
  have hkeys : s.key b ∈ ks := h.keys ▸ mem_map_of_mem hb
  refine ⟨hi, h.le, fun c hc' => ?_, ?_, (perm_toFront hkeys).nodup_iff.mpr h.nodup,
    fun key c => ?_⟩
  · rw [hc.valid, take_toFront_of_mem hb, (perm_toFront hb).mem_iff]
    exact h.valid c ((perm_toFront hmem).mem_iff.mp hc')
  · rw [hc.key, take_toFront_of_mem hb, map_toFront hb (h.keys ▸ h.nodup), h.keys]
  · rw [hc.tagHash, hc.key, take_toFront_of_mem hb, (perm_toFront hb).mem_iff]
    exact h.hash key c

end

structure SameStats (s t : FaLru) : Prop where
  hits : t.hits = s.hits
  misses : t.misses = s.misses
  accesses : t.accesses = s.accesses

section Victim

variable {l₀ : List Nat} {v : Nat}

theorem toFront_append (hv : v ∉ l₀) : toFront (l₀ ++ [v]) v = v :: l₀ := by
  rw [toFront, erase_append_right _ hv, erase_cons_head, append_nil]

theorem Holding.victim (h : Holding cfg s (l₀ ++ [v]) m ks) : l₀.length + 1 = cfg.numBlocks ∧
    v ∉ l₀ ∧ v ∈ l₀ ++ [v] ∧ (l₀ ++ [v])[cfg.numBlocks - 1]? = some v := by
  have hlen : l₀.length + 1 = cfg.numBlocks := by simpa using h.inv.lists.length
  have hdisj := (nodup_append.mp h.inv.lists.linked.nodup).2.2
  have hmem := mem_singleton_self v
  refine ⟨hlen, fun hv => hdisj v hv v hmem rfl, mem_append_right l₀ hmem, ?_⟩
  simp [← hlen]

theorem Holding.evict (h : Holding cfg s (l₀ ++ [v]) m ks) :
    ∃ t m', evict cfg s v = .ok t ∧ Holding cfg t (l₀ ++ [v]) m' (ks.take (cfg.numBlocks - 1)) ∧
      m' < cfg.numBlocks ∧ SameStats s t := by
  obtain ⟨hlen, hv, hmem, hlast⟩ := h.victim
  have hfull : s.valid v = true ↔ m = cfg.numBlocks := by
    rw [h.valid v hmem]
    constructor
    · intro hin
      by_contra hne
      rw [take_append_of_le_length (by have := h.le; omega)] at hin
      exact hv (mem_of_mem_take hin)
    · intro heq
      rw [take_of_length_le (by simp; omega)]
      exact hmem
  by_cases hvalid : s.valid v = true
  · have hm := hfull.mp hvalid
    have htake : (l₀ ++ [v]).take m = l₀ ++ [v] := take_of_length_le (by simp; omega)
    have htake' : (l₀ ++ [v]).take (cfg.numBlocks - 1) = l₀ := by simp [← hlen]
    obtain ⟨t, hok, hi, hk, hva, hh, hstats⟩ := invalidate_spec h.inv hmem
      (by rw [(h.hash _ v).mpr ⟨htake.symm ▸ hmem, rfl⟩]; exact Option.some_ne_none v) hvalid
    rw [h.inv.lists.toBack_last hlast] at hi
    have hkey : ∀ c ∈ l₀, t.key c = s.key c := fun c hc => by
      rw [hk, update_of_ne (ne_of_mem_of_not_mem hc hv)]
    refine ⟨t, cfg.numBlocks - 1, ?_, ⟨hi, by omega, fun c hc => ?_, ?_, h.nodup.sublist
      (take_sublist _ _), fun key c => ?_⟩, by omega, ⟨hstats.1, hstats.2.1, hstats.2.2⟩⟩
    · rw [FaLru.evict, if_pos hvalid]
      exact hok
    · rw [htake', hva]
      by_cases hcv : c = v
      · simp [hcv, hv]
      · have hc' : c ∈ l₀ := by simpa [hcv] using hc
        rw [update_of_ne hcv, h.valid c hc, htake]
        simp [hc']
    · rw [htake', map_congr_left hkey, ← h.keys, htake, map_append,
        take_append_of_le_length (by simp; omega), take_of_length_le (by simp; omega)]
    · rw [htake', hh]
      have hhash := h.hash key c
      rw [htake] at hhash
      by_cases hkv : key = s.key v
      · rw [hkv, update_self]
        refine ⟨by simp, fun hc => ?_⟩
        -- another block with the key of `v` would be `v`
        have hc' := hhash.mpr ⟨mem_append_left _ hc.1,
          (hkey c hc.1).symm.trans (hc.2.trans hkv.symm)⟩
        have hv' := (h.hash key v).mpr ⟨htake.symm ▸ hmem, hkv.symm⟩
        exact absurd (Option.some.inj (hc'.symm.trans hv') ▸ hc.1) hv
      · rw [update_of_ne hkv, hhash]
        constructor
        · rintro ⟨hc, hck⟩
          have hcv : c ≠ v := fun heq => hkv (hck.symm.trans (heq ▸ rfl))
          have hc' : c ∈ l₀ := by simpa [hcv] using hc
          exact ⟨hc', (hkey c hc').trans hck⟩
        · rintro ⟨hc, hck⟩
          exact ⟨mem_append_left _ hc, (hkey c hc).symm.trans hck⟩
  · have hm : m ≠ cfg.numBlocks := mt hfull.mpr hvalid
    have hle := h.le
    refine ⟨s, m, ?_, ?_, by omega, ⟨rfl, rfl, rfl⟩⟩
    · rw [FaLru.evict, if_neg hvalid]
      rfl
    · rw [take_of_length_le (by rw [h.length]; omega)]
      exact h

theorem Holding.insert (h : Holding cfg s (l₀ ++ [v]) m ks) (hm : m < cfg.numBlocks)
    {p : Addr × Bool} (hp : keyOf cfg p ∉ ks) :
    ∃ t, insertBlock cfg s p.1 p.2 v = .ok t ∧
      Holding cfg (t.setValid v) (v :: l₀) (m + 1) (keyOf cfg p :: ks) ∧
      SameStats s (t.setValid v) := by
  obtain ⟨hlen, hv, hmem, hlast⟩ := h.victim
  have htake : (l₀ ++ [v]).take m = l₀.take m := take_append_of_le_length (by omega)
  have hvt : v ∉ l₀.take m := fun hin => hv (mem_of_mem_take hin)
  have hvalid : s.valid v = false := by
    rw [← Bool.not_eq_true, h.valid v hmem, htake]
    exact hvt
  obtain ⟨t, hok, hi, hk, hva, hh, hstats⟩ := insertBlock_spec h.inv hlast hvalid p.1 p.2
  rw [toFront_append hv] at hi
  have hkv : t.key v = keyOf cfg p := by rw [hk, update_self]; rfl
  have hkey : (t.setValid v).key = update s.key v (keyOf cfg p) := by
    rw [setValid, key_setContents, hkv, hk]
    exact update_idem ..
  refine ⟨t, hok, ⟨⟨hi.lists.setContents _ _ _, hi.tracks.setContents, hi.hashed⟩, by omega,
    fun c hc => ?_, ?_, nodup_cons.mpr ⟨hp, h.nodup⟩, fun key c => ?_⟩,
    ⟨hstats.1, hstats.2.1, hstats.2.2⟩⟩
  · rw [setValid, valid_setContents, hva, update_idem, take_succ_cons,
      mem_cons]
    by_cases hcv : c = v
    · simp [hcv]
    · have hc' : c ∈ l₀ ++ [v] := by simpa [hcv] using hc
      rw [update_of_ne hcv, h.valid c hc', htake]
      simp [hcv]
  · rw [hkey, take_succ_cons, map_cons, update_self, ← h.keys, htake]
    congr 1
    exact map_congr_left fun c hc =>
      update_of_ne (ne_of_mem_of_not_mem hc hvt) _ _
  · rw [hkey, take_succ_cons, mem_cons]
    show t.tagHash key = some c ↔ _
    rw [hh]
    have hhash := h.hash key c
    rw [htake] at hhash
    by_cases hkp : key = keyOf cfg p
    · have hnone : ¬ s.tagHash key = some c := fun hsome =>
        hp (hkp ▸ h.mem_iff.mpr ⟨c, hsome⟩)
      rw [hhash] at hnone
      rw [hkp]
      show update s.tagHash (keyOf cfg p) _ _ = _ ↔ _
      rw [update_self]
      by_cases hcv : c = v
      · simp [hcv]
      · rw [update_of_ne hcv, ← hkp]
        simp [hcv, Ne.symm hcv] at hnone ⊢
        exact hnone
    · show update s.tagHash (keyOf cfg p) _ _ = _ ↔ _
      rw [update_of_ne hkp, hhash]
      by_cases hcv : c = v
      · simp [hcv, hvt, Ne.symm hkp]
      · rw [update_of_ne hcv]
        simp [hcv]

end Victim

def bump (cfg : FaLruConfig) (counts : Nat → Nat) (i : Nat) : Nat :=
  if i ≤ cfg.numTrackedCaches then counts i + 1 else counts i

theorem recordAccess_none (cfg : FaLruConfig) (s : FaLru) : (recordAccess cfg s none).hits = s.hits ∧
    (recordAccess cfg s none).misses = bump cfg s.misses := by
  constructor <;> funext i <;> simp [recordAccess, bump]

theorem recordAccess_front (ht : Tracks cfg s l) (hb : l[0]? = some b) (hvalid : s.valid b = true) :
    (recordAccess cfg s (some b)).hits = bump cfg s.hits ∧
      (recordAccess cfg s (some b)).misses = s.misses := by
  have hhit : ∀ i ≤ cfg.numTrackedCaches,
      (if i = cfg.numTrackedCaches then s.valid b else decide (1#32 <<< i &&& s.mask b ≠ 0)) =
        true := by
    intro i hi
    by_cases hlast : i = cfg.numTrackedCaches
    · rw [if_pos hlast, hvalid]
    · have hlt : i < cfg.numTrackedCaches := by omega
      have hbit : (s.mask b).getLsbD i = true := by
        have := cfg.two_le_blocks i
        rw [(ht.at_ i hlt).bit 0 b hb, decide_eq_true]
        omega
      rw [if_neg hlast, decide_eq_true]
      exact (Bitfield.shift_and_ne_zero (Nat.lt_of_lt_of_le hlt cfg.numTrackedCaches_le)).mpr hbit
  constructor
  · funext i
    by_cases hi : i ≤ cfg.numTrackedCaches
    · simp only [recordAccess, bump, if_pos hi]
      rw [if_pos ⟨hi, hhit i hi⟩]
    · simp only [recordAccess, bump, if_neg hi]
      rw [if_neg fun h => hi h.1]
  · funext i
    simp only [recordAccess]
    rw [if_neg]
    rintro ⟨hi, hmiss⟩
    exact hmiss (hhit i hi)

theorem serve_hit (h : Holding cfg s l m ks) {p : Addr × Bool} (hp : keyOf cfg p ∈ ks) :
    ∃ t l', serve cfg s p = .ok t ∧ Holding cfg t l' m (toFront ks (keyOf cfg p)) ∧
      t.hits = bump cfg s.hits ∧ t.misses = s.misses ∧ t.accesses = s.accesses + 1 := by
  obtain ⟨b, hhash⟩ := h.mem_iff.mp hp
  obtain ⟨hb, hkey⟩ := (h.hash _ b).mp hhash
  have hmem : b ∈ l := mem_of_mem_take hb
  have hvalid : s.valid b = true := (h.valid b hmem).mpr hb
  obtain ⟨t, hok, hi, hc⟩ := h.inv.moveToHead hmem
  have hvalid' : t.valid b = true := by rw [hc.valid, hvalid]
  obtain ⟨hhits, hmisses⟩ := recordAccess_front hi.tracks rfl hvalid'
  refine ⟨recordAccess cfg t (some b), toFront l b, ?_, ?_, ?_, ?_, ?_⟩
  · rw [serve, accessBlock_hit hhash hvalid hkey hok, ok_bind]
    have hany : (some b).any (recordAccess cfg t (some b)).valid = true := hvalid'
    dsimp only
    rw [if_pos hany]
    rfl
  · rw [← hkey]
    exact (h.use hb hi hc).congr hi.recordAccess rfl rfl rfl
  · rw [hhits, hc.hits]
  · rw [hmisses, hc.misses]
  · show t.accesses + 1 = _
    rw [hc.accesses]

theorem serve_miss (h : Holding cfg s l m ks) {p : Addr × Bool} (hp : keyOf cfg p ∉ ks) :
    ∃ t l' m', serve cfg s p = .ok t ∧
      Holding cfg t l' m' (keyOf cfg p :: ks.take (cfg.numBlocks - 1)) ∧
      t.hits = s.hits ∧ t.misses = bump cfg s.misses ∧ t.accesses = s.accesses + 1 := by
  have hhash : s.tagHash (cfg.blkAlign p.1, p.2) = none := by
    by_contra hsome
    obtain ⟨b, hb⟩ := Option.ne_none_iff_exists'.mp hsome
    exact hp (h.mem_iff.mpr ⟨b, hb⟩)
  obtain ⟨hhits, hmisses⟩ := recordAccess_none cfg s
  obtain ⟨v, hv⟩ := h.inv.lists.last
  obtain ⟨l₀, rfl⟩ : ∃ l₀, l = l₀ ++ [v] := by
    apply getLast?_eq_some_iff.mp
    rw [getLast?_eq_getElem?, h.inv.lists.length, hv]
  have h₁ : Holding cfg (recordAccess cfg s none) (l₀ ++ [v]) m ks :=
    h.congr h.inv.recordAccess rfl rfl rfl
  obtain ⟨t, m', hok, ht, hm', hst⟩ := h₁.evict
  obtain ⟨u, hok', hu, hst'⟩ := ht.insert hm' fun hin => hp (mem_of_mem_take hin)
  refine ⟨u.setValid v, v :: l₀, m' + 1, ?_, hu, ?_, ?_, ?_⟩
  · rw [serve, accessBlock_absent hhash, ok_bind]
    have htail : (recordAccess cfg s none).tail = some v := h.inv.lists.tail_eq.trans hv
    dsimp only
    rw [if_neg nofun, replaceVictim, htail]
    simp [deref, hok, hok']
  · rw [hst'.hits, hst.hits, hhits]
  · rw [hst'.misses, hst.misses, hmisses]
  · rw [hst'.accesses, hst.accesses]
    rfl

theorem serveAll_spec (cfg : FaLruConfig) (trace : List (Addr × Bool)) :
    ∃ s l m, serveAll cfg trace = .ok s ∧
      Holding cfg s l m (LruCache.run cfg.numBlocks (trace.map (keyOf cfg))).order ∧
      s.accesses = trace.length ∧ ∀ i ≤ cfg.numTrackedCaches,
        s.hits i = (LruCache.run cfg.numBlocks (trace.map (keyOf cfg))).hits ∧
          s.misses i = (LruCache.run cfg.numBlocks (trace.map (keyOf cfg))).misses := by
  induction trace using reverseRecOn with
  | nil =>
    obtain ⟨s, hok, hi, hhash, hvalid, hhits, hmisses, haccesses⟩ := init_inv cfg
    refine ⟨s, range cfg.numBlocks, 0, ?_, ⟨hi, Nat.zero_le _, ?_, rfl, nodup_nil, ?_⟩,
      haccesses, fun i _ => ⟨?_, ?_⟩⟩
    · rw [serveAll, hok]
      rfl
    · simp [hvalid]
    · simp [hhash]
    · rw [hhits]
      rfl
    · rw [hmisses]
      rfl
  | append_singleton trace p ih =>
    obtain ⟨s, l, m, hok, h, haccesses, hstats⟩ := ih
    have hrun : ∀ {t}, serve cfg s p = .ok t → serveAll cfg (trace ++ [p]) = .ok t := by
      intro t ht
      obtain ⟨s₀, hinit, hfold⟩ := bind_eq_ok.mp hok
      rw [serveAll, hinit, ok_bind, foldlM_append, hfold, ok_bind]
      simp [ht]
    have hlen : (LruCache.run cfg.numBlocks (trace.map (keyOf cfg))).order.length ≤
        cfg.numBlocks := h.length.trans_le h.le
    rw [map_append, map_singleton, run_append]
    by_cases hp : keyOf cfg p ∈ (LruCache.run cfg.numBlocks (trace.map (keyOf cfg))).order
    · obtain ⟨t, l', ht, h', hhits, hmisses, hacc⟩ := serve_hit h hp
      refine ⟨t, l', m, hrun ht, ?_, by simp [hacc, haccesses], fun i hi => ?_⟩
      · rw [access, take_of_length_le]
        · exact h'
        · rw [(perm_toFront hp).length_eq]
          exact hlen
      · simp only [access, if_pos hp, hhits, hmisses, bump, if_pos hi, hstats i hi,
          and_self]
    · obtain ⟨t, l', m', ht, h', hhits, hmisses, hacc⟩ := serve_miss h hp
      refine ⟨t, l', m', hrun ht, ?_, by simp [hacc, haccesses], fun i hi => ?_⟩
      · have hpos : cfg.numBlocks = cfg.numBlocks - 1 + 1 := by
          have := cfg.two_le_numBlocks
          omega
        rw [access, toFront_of_notMem hp]
        dsimp only
        rw [hpos, take_succ_cons, ← hpos]
        exact h'
      · simp only [access, if_neg hp, hhits, hmisses, bump, if_pos hi, hstats i hi,
          and_self]

theorem serveAll_statistics (cfg : FaLruConfig) (trace : List (Addr × Bool)) :
    ∃ s, serveAll cfg trace = .ok s ∧ s.accesses = trace.length ∧
      (∀ i ≤ cfg.numTrackedCaches, s.hits i + s.misses i = s.accesses) ∧
      s.hits cfg.numTrackedCaches =
        (LruCache.run cfg.numBlocks (trace.map (keyOf cfg))).hits ∧
      ∀ i < cfg.numTrackedCaches,
        LruCache.SameHits (cfg.blocks i) cfg.numBlocks (trace.map (keyOf cfg)) →
        s.hits i = (LruCache.run (cfg.blocks i) (trace.map (keyOf cfg))).hits ∧
          s.misses i = (LruCache.run (cfg.blocks i) (trace.map (keyOf cfg))).misses := by
  obtain ⟨s, l, m, hok, -, haccesses, hstats⟩ := serveAll_spec cfg trace
  have htotal := hits_add_misses cfg.numBlocks (trace.map (keyOf cfg))
  rw [length_map] at htotal
  refine ⟨s, hok, haccesses, fun i hi => ?_, (hstats _ le_rfl).1, fun i hi hsame => ?_⟩
  · rw [(hstats i hi).1, (hstats i hi).2, htotal, haccesses]
  · have hhits := hsame.hits_eq (cfg.blocks_lt_numBlocks hi).le
    have htotal' := hits_add_misses (cfg.blocks i) (trace.map (keyOf cfg))
    rw [length_map] at htotal'
    have := hstats i hi.le
    omega

def fourBlocks : FaLruConfig where
  blkSize := 64
  size := 256
  minTrackedSize := 128
  blkSize_pow := ⟨6, rfl⟩
  size_pow := ⟨8, rfl⟩
  size_lt := by decide
  two_blocks := by decide
  whole := by decide
  two_le := by decide

theorem serveAll_statistics_repeated :
    ∃ s, serveAll fourBlocks [(0x100, false), (0x104, false), (0x140, false)] = .ok s ∧
      s.hits 0 = 1 ∧ s.misses 0 = 2 := by
  obtain ⟨s, hok, -, -, -, hstats⟩ :=
    serveAll_statistics fourBlocks [(0x100, false), (0x104, false), (0x140, false)]
  have hsame : LruCache.SameHits (fourBlocks.blocks 0) fourBlocks.numBlocks
      ([(0x100, false), (0x104, false), (0x140, false)].map (keyOf fourBlocks)) := by
    decide
  obtain ⟨hhits, hmisses⟩ := hstats 0 (by decide) hsame
  exact ⟨s, hok, hhits.trans (by decide), hmisses.trans (by decide)⟩

/-- The last access misses in a cache of two blocks, and is counted as a hit there. -/
theorem serveAll_miscounts :
    ∃ s, serveAll fourBlocks [(0, false), (0x40, false), (0x80, false), (0, false)] = .ok s ∧
      s.hits 0 = 1 ∧
      (LruCache.run (fourBlocks.blocks 0) ([(0, false), (0x40, false), (0x80, false),
        (0, false)].map (keyOf fourBlocks))).hits = 0 :=
  ⟨_, rfl, by decide, by decide⟩

end Drain.FaLru
