import Drain.FaLruMoves

/-! Runs of the fully associative tags. The order of the blocks is kept beside the state, as the
order of their last use. -/

namespace Drain.FaLru

open Function List

variable {cfg : FaLruConfig} {s t : FaLru} {l : List Nat} {b : Nat}

inductive Op (cfg : FaLruConfig) where
  | access (addr : Addr) (isSecure : Bool)
  | invalidate (b : Fin cfg.numBlocks)
  | insert (addr : Addr) (isSecure : Bool)
  | setValid (b : Fin cfg.numBlocks)

def step (cfg : FaLruConfig) (s : FaLru) : Op cfg → Except FaLruFailure FaLru
  | .access addr isSecure => do
    let (_, _, s) ← accessBlock cfg s addr isSecure
    pure s
  | .invalidate b => invalidate cfg s b
  | .insert addr isSecure => do
    let (_, s) ← replaceVictim cfg s addr isSecure
    pure s
  | .setValid b => pure (s.setValid b)

/-- The uses and invalidations of blocks that a call stands for. -/
def after (cfg : FaLruConfig) (s : FaLru) (r : Recency Nat) : Op cfg → Recency Nat
  | .access addr isSecure =>
    match s.tagHash (cfg.blkAlign addr, isSecure) with
    | some b => if s.valid b then r.use b else r
    | none => r
  | .invalidate b => r.retire b
  | .insert _ _ =>
    match s.tail with
    | some b => (if s.valid b then r.retire b else r).use b
    | none => r
  | .setValid _ => r

def run (cfg : FaLruConfig) (ops : List (Op cfg)) : Except FaLruFailure (FaLru × Recency Nat) := do
  let s ← init cfg
  ops.foldlM
    (fun p op => do
      let s ← step cfg p.1 op
      pure (s, after cfg p.1 p.2 op))
    (s, Recency.start (range cfg.numBlocks))

structure Inv (cfg : FaLruConfig) (s : FaLru) (l : List Nat) : Prop where
  lists : Lists cfg s l
  tracks : Tracks cfg s l
  hashed : ∀ key b, s.tagHash key = some b → b ∈ l

/-- What the caller has to care for: blocks are invalidated when they are valid and entered, and
a block that is replaced has been made valid. -/
def Misuse (e : FaLruFailure) : Prop := e = .findTag ∨ e = .numErased ∨ e = .invalidateValid

section Contents

variable {key : Addr × Bool} {valid : Bool}

theorem key_setContents : (s.setContents b key valid).key = update s.key b key := by
  funext c
  by_cases hc : c = b <;> simp [hc, setContents, modify, FaLru.key]

theorem valid_setContents : (s.setContents b key valid).valid = update s.valid b valid := by
  funext c
  by_cases hc : c = b <;> simp [hc, setContents, modify, FaLru.valid]

theorem mask_setContents : (s.setContents b key valid).mask = s.mask := by
  funext c
  by_cases hc : c = b <;> simp [hc, setContents, modify, mask]

theorem Lists.congr (hl : Lists cfg s l) (hp : t.prev = s.prev) (hn : t.next = s.next)
    (hh : t.head = s.head) (ht : t.tail = s.tail) : Lists cfg t l := by
  refine ⟨?_, hh.trans hl.head_eq, ht.trans hl.tail_eq, hl.perm⟩
  rw [hp, hn]
  exact hl.linked

theorem Tracks.congr (ht : Tracks cfg s l) (hm : t.mask = s.mask)
    (hb : t.boundaries = s.boundaries) : Tracks cfg t l := by
  refine ⟨fun i hi => ?_, fun b hmem i hi => ?_⟩
  · rw [hm, hb]
    exact ht.at_ i hi
  · rw [hm]
    exact ht.unused b hmem i hi

theorem Lists.setContents (hl : Lists cfg s l) (b : Nat) (key : Addr × Bool) (valid : Bool) :
    Lists cfg (s.setContents b key valid) l := by
  refine hl.congr (funext fun c => ?_) (funext fun c => ?_) rfl rfl <;>
    by_cases hc : c = b <;> simp [hc, FaLru.setContents, modify, prev, next]

theorem Tracks.setContents (ht : Tracks cfg s l) : Tracks cfg (s.setContents b key valid) l :=
  ht.congr mask_setContents rfl

end Contents

theorem invalidate_spec (hi : Inv cfg s l) (hb : b ∈ l) (hhash : s.tagHash (s.key b) ≠ none)
    (hvalid : s.valid b = true) :
    ∃ t, invalidate cfg s b = .ok t ∧ Inv cfg t (toBack l b) ∧
      t.key = update s.key b (BitVec.allOnes 64, false) ∧
      t.valid = update s.valid b false ∧
      t.tagHash = update s.tagHash (s.key b) none ∧
      t.hits = s.hits ∧ t.misses = s.misses ∧ t.accesses = s.accesses := by
  let u : FaLru := { s with tagHash := update s.tagHash (s.key b) none }
  have hlists : Lists cfg u l := hi.lists.congr rfl rfl rfl rfl
  have htracks : Tracks cfg u l := hi.tracks.congr rfl rfl
  obtain ⟨t, hok, hl, ht, hc⟩ := moveToTail_spec
    (hlists.setContents b (BitVec.allOnes 64, false) false)
    htracks.setContents hb
  refine ⟨t, ?_, ⟨hl, ht, fun key c hc' => ?_⟩, hc.key.trans key_setContents,
    hc.valid.trans valid_setContents, hc.tagHash, hc.hits, hc.misses, hc.accesses⟩
  · exact bind_eq_ok.mpr ⟨⟨⟩, require_eq_ok.mpr hhash,
      bind_eq_ok.mpr ⟨⟨⟩, require_eq_ok.mpr hvalid, hok⟩⟩
  · rw [hc.tagHash] at hc'
    have hmem : c ∈ l := by
      by_cases hkey : key = s.key b
      · rw [hkey] at hc'
        exact absurd ((update_self ..).symm.trans hc') nofun
      · exact hi.hashed key c ((update_of_ne hkey _ _).symm.trans hc')
    exact (perm_toBack hb).mem_iff.mpr hmem

theorem mask_last (hi : Inv cfg s l) (hb : l[cfg.numBlocks - 1]? = some b) : s.mask b = 0 := by
  apply BitVec.eq_of_getLsbD_eq
  intro i _
  rw [hi.tracks.getLsbD_mask hb]
  refine (decide_eq_false ?_).trans BitVec.getLsbD_zero.symm
  rintro ⟨hlt, hle⟩
  have := cfg.blocks_lt_numBlocks hlt
  omega

theorem insertBlock_spec (hi : Inv cfg s l) (hb : l[cfg.numBlocks - 1]? = some b)
    (hvalid : s.valid b = false) (addr : Addr) (isSecure : Bool) :
    ∃ t, insertBlock cfg s addr isSecure b = .ok t ∧ Inv cfg t (toFront l b) ∧
      t.key = update s.key b (cfg.blkAlign addr, isSecure) ∧
      t.valid = update s.valid b false ∧
      t.tagHash = update s.tagHash (cfg.blkAlign addr, isSecure) (some b) ∧
      t.hits = s.hits ∧ t.misses = s.misses ∧ t.accesses = s.accesses := by
  have hmem := mem_of_getElem? hb
  obtain ⟨t, hok, hl, ht, hc⟩ := moveToHead_spec
    (hi.lists.setContents b (cfg.blkAlign addr, isSecure) false)
    hi.tracks.setContents hmem
  have hkey : t.key b = (cfg.blkAlign addr, isSecure) := by
    rw [hc.key, key_setContents, update_self]
  have hhash : t.tagHash = s.tagHash := hc.tagHash
  refine ⟨{ t with tagHash := update t.tagHash (t.key b) (some b) }, ?_,
    ⟨hl.congr rfl rfl rfl rfl, ht.congr rfl rfl, fun key c hc' => ?_⟩,
    hc.key.trans key_setContents, hc.valid.trans valid_setContents, ?_, hc.hits, hc.misses,
    hc.accesses⟩
  · exact bind_eq_ok.mpr ⟨⟨⟩, require_eq_ok.mpr (mask_last hi hb),
      bind_eq_ok.mpr ⟨⟨⟩, require_eq_ok.mpr hvalid, bind_eq_ok.mpr ⟨t, hok, rfl⟩⟩⟩
  · apply (perm_toFront hmem).mem_iff.mpr
    change update t.tagHash (t.key b) (some b) key = some c at hc'
    rw [hkey, hhash] at hc'
    by_cases hk : key = (cfg.blkAlign addr, isSecure)
    · rw [hk, update_self, Option.some.injEq] at hc'
      exact hc' ▸ hmem
    · exact hi.hashed key c ((update_of_ne hk _ _).symm.trans hc')
  · rw [hkey, hhash]

theorem Lists.last (hl : Lists cfg s l) : ∃ b, l[cfg.numBlocks - 1]? = some b := by
  have := hl.length
  have := cfg.two_le_numBlocks
  exact ⟨_, getElem?_eq_getElem (by omega)⟩

theorem invalidate_holds (hi : Inv cfg s l) (hb : b ∈ l) :
    Holds (invalidate cfg s b)
      (fun t => Inv cfg t (toBack l b) ∧ t.valid = update s.valid b false) Misuse := by
  by_cases hhash : s.tagHash (s.key b) ≠ none
  · by_cases hvalid : s.valid b = true
    · obtain ⟨t, hok, ht, -, hv, -⟩ := invalidate_spec hi hb hhash hvalid
      exact holds_of_eq_ok hok ⟨ht, hv⟩
    · refine holds_require_bind hhash (holds_bind.mpr (holds_require.mpr ⟨fun h => ?_, fun _ => ?_⟩))
      · exact absurd h hvalid
      · exact .inr (.inr rfl)
  · exact holds_bind.mpr (holds_require.mpr ⟨fun h => absurd h hhash, fun _ => .inr (.inl rfl)⟩)

section Access

variable {addr : Addr} {isSecure : Bool}

theorem accessBlock_absent (hhash : s.tagHash (cfg.blkAlign addr, isSecure) = none) :
    accessBlock cfg s addr isSecure = .ok (none, 0, recordAccess cfg s none) := by
  simp [accessBlock, findBlock, hhash]
  rfl

section

variable (hhash : s.tagHash (cfg.blkAlign addr, isSecure) = some b)
include hhash

theorem accessBlock_invalid (hvalid : s.valid b = false) :
    accessBlock cfg s addr isSecure = .ok (some b, 0, recordAccess cfg s (some b)) := by
  simp [accessBlock, findBlock, hhash, hvalid]
  rfl

theorem accessBlock_hit (hvalid : s.valid b = true) (hkey : s.key b = (cfg.blkAlign addr, isSecure))
    (hok : moveToHead cfg s b = .ok t) :
    accessBlock cfg s addr isSecure =
      .ok (some b, s.mask b, recordAccess cfg t (some b)) := by
  simp [accessBlock, findBlock, hhash, hvalid, hkey, require, hok]

theorem accessBlock_other
    (hvalid : s.valid b = true) (hkey : s.key b ≠ (cfg.blkAlign addr, isSecure)) :
    accessBlock cfg s addr isSecure = .error .findTag := by
  simp [accessBlock, findBlock, hhash, hvalid, hkey, require]
  rfl

end

end Access

theorem Inv.recordAccess {blk : Option Nat} (hi : Inv cfg s l) :
    Inv cfg (recordAccess cfg s blk) l :=
  ⟨hi.lists.congr rfl rfl rfl rfl, hi.tracks.congr rfl rfl, hi.hashed⟩

theorem Inv.moveToHead (hi : Inv cfg s l) (hb : b ∈ l) :
    ∃ t, moveToHead cfg s b = .ok t ∧ Inv cfg t (toFront l b) ∧ SameContents s t := by
  obtain ⟨t, hok, hl, ht, hc⟩ := moveToHead_spec hi.lists hi.tracks hb
  refine ⟨t, hok, ⟨hl, ht, fun key c hkey => ?_⟩, hc⟩
  rw [hc.tagHash] at hkey
  exact (perm_toFront hb).mem_iff.mpr (hi.hashed key c hkey)

theorem Lists.toBack_last (hl : Lists cfg s l) (hb : l[cfg.numBlocks - 1]? = some b) :
    toBack l b = l := by
  apply toBack_getLast hl.linked.nodup
  rw [getLast?_eq_getElem?, hl.length, hb]

theorem evict_holds (hi : Inv cfg s l) (hb : l[cfg.numBlocks - 1]? = some b) :
    Holds (evict cfg s b) (fun t => Inv cfg t l ∧ t.valid b = false) Misuse := by
  rw [evict]
  by_cases hvalid : s.valid b = true
  · rw [if_pos hvalid]
    refine (invalidate_holds hi (mem_of_getElem? hb)).imp fun t ht => ?_
    rw [hi.lists.toBack_last hb] at ht
    exact ⟨ht.1, by rw [ht.2, update_self]⟩
  · rw [if_neg hvalid]
    exact ⟨hi, by simpa using hvalid⟩

theorem replaceVictim_holds (hi : Inv cfg s l) (hb : l[cfg.numBlocks - 1]? = some b)
    (addr : Addr) (isSecure : Bool) :
    Holds (replaceVictim cfg s addr isSecure) (fun r => Inv cfg r.2 (toFront l b)) Misuse := by
  rw [replaceVictim, hi.lists.tail_eq.trans hb]
  refine holds_bind_of_ok rfl (holds_bind.mpr ((evict_holds hi hb).imp fun t ht => ?_))
  obtain ⟨u, hok, hu, -⟩ := insertBlock_spec ht.1 hb ht.2 addr isSecure
  exact holds_bind_of_ok hok hu

theorem step_holds {r : Recency Nat} (hi : Inv cfg s r.order) (hs : r.Sorted) (op : Op cfg) :
    Holds (step cfg s op)
      (fun t => Inv cfg t (after cfg s r op).order ∧ (after cfg s r op).Sorted) Misuse := by
  have hnodup := hi.lists.linked.nodup
  cases op with
  | access addr isSecure =>
    rw [after]
    cases hhash : s.tagHash (cfg.blkAlign addr, isSecure) with
    | none => exact holds_bind_of_ok (accessBlock_absent hhash) ⟨hi.recordAccess, hs⟩
    | some b =>
      cases hvalid : s.valid b with
      | false =>
        simp only [hvalid, Bool.false_eq_true, if_false]
        exact holds_bind_of_ok (accessBlock_invalid hhash hvalid) ⟨hi.recordAccess, hs⟩
      | true =>
        simp only [hvalid, if_true]
        by_cases hkey : s.key b = (cfg.blkAlign addr, isSecure)
        · obtain ⟨t, hok, ht, -⟩ := hi.moveToHead (hi.hashed _ b hhash)
          exact holds_bind_of_ok (accessBlock_hit hhash hvalid hkey hok)
            ⟨ht.recordAccess, hs.use hnodup⟩
        · rw [step, accessBlock_other hhash hvalid hkey]
          exact .inl rfl
  | invalidate b =>
    have hmem : (b : Nat) ∈ r.order := (mem_iff_lt hi.lists).mpr b.isLt
    exact (invalidate_holds hi hmem).imp fun t ht => ⟨ht.1, hs.retire hnodup⟩
  | insert addr isSecure =>
    obtain ⟨b, hb⟩ := hi.lists.last
    refine holds_bind.mpr ((replaceVictim_holds hi hb addr isSecure).imp fun q hq => ?_)
    show Inv cfg q.2 _ ∧ _
    rw [after, hi.lists.tail_eq.trans hb]
    by_cases hvalid : s.valid b = true
    · have horder : (r.retire b).order = r.order := hi.lists.toBack_last hb
      simp only [if_pos hvalid]
      refine ⟨?_, (hs.retire hnodup).use (horder ▸ hnodup)⟩
      show Inv cfg q.2 (toFront (r.retire b).order b)
      rw [horder]
      exact hq
    · simp only [if_neg hvalid]
      exact ⟨hq, hs.use hnodup⟩
  | setValid b =>
    exact ⟨⟨hi.lists.setContents _ _ _, hi.tracks.setContents, hi.hashed⟩, hs⟩

theorem init_inv (cfg : FaLruConfig) : ∃ s, init cfg = .ok s ∧ Inv cfg s (range cfg.numBlocks) ∧
    s.tagHash = (fun _ => none) ∧ s.valid = (fun _ => false) ∧ s.hits = (fun _ => 0) ∧
    s.misses = (fun _ => 0) ∧ s.accesses = 0 := by
  obtain ⟨s, hok, hl, ht, hc⟩ := init_spec cfg
  refine ⟨s, hok, ⟨hl, ht, fun key b hb => ?_⟩, hc.tagHash, hc.valid, hc.hits, hc.misses,
    hc.accesses⟩
  rw [hc.tagHash] at hb
  exact nomatch hb

theorem run_ordered (cfg : FaLruConfig) (ops : List (Op cfg)) :
    Holds (run cfg ops)
      (fun p => Lists cfg p.1 p.2.order ∧ Tracks cfg p.1 p.2.order ∧ p.2.Sorted) Misuse := by
  obtain ⟨s, hok, hi, -⟩ := init_inv cfg
  refine holds_bind_of_ok hok ((holds_foldlM
    (fun p : FaLru × Recency Nat => Inv cfg p.1 p.2.order ∧ p.2.Sorted) ops
    ⟨hi, Recency.sorted_start _⟩ fun op _ p hp => ?_).imp
    fun p hp => ⟨hp.1.lists, hp.1.tracks, hp.2⟩)
  exact holds_bind.mpr ((step_holds hp.1 hp.2 op).imp fun t ht => ht)

end Drain.FaLru
