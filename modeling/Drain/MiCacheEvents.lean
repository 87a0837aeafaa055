import Drain.MiCacheSteps

/-! The transitions of the caches: no event comes in a state that has no transition for it,
and no assertion fails but that of a full TBE table. -/

namespace Drain.Mi

open Function List Mi.System L1Cache AList

variable {α κ δ V : Type} {a : α} {c w : κ}

theorem Line.Ok.of_adjacent {l : Line κ V} (hl : l.Ok) (hm : (c, w) ∈ adjacent l.place.queue) :
    (l.role c).IsWaiting ∨
      ∃ q, l.place = .owned c (w :: q) ∧ (l.role c).held = some l.latest := by
  cases hplace : l.place with
  | owned h q =>
    obtain ⟨hnodup, hwait, hhead⟩ := hl.owned hplace
    rw [hplace] at hm
    cases q with
    | nil => cases hm
    | cons x q =>
      obtain hm | hm := mem_cons.mp hm
      · cases hm
        exact hhead.imp_right fun hheld => ⟨q, rfl, hheld⟩
      · exact .inl (hwait c (fst_mem_of_mem_adjacent hm))
  | _ =>
    rw [hplace] at hm
    cases hm

variable [DecidableEq α] {l n : L1Cache α V} {r : Role V}

namespace L1Cache

theorem cacheEntry_eq {e : CacheEntry V} (h : l.cacheMemory.lookup a = some e) :
    l.cacheEntry a = .ok e := by
  unfold cacheEntry
  rw [h]
  rfl

theorem tbe_eq {t : CacheTBE V} (h : l.tbes.lookup a = some t) : l.tbe a = .ok t := by
  unfold tbe
  rw [h]
  rfl

theorem wDeallocateTBE_eq {t : CacheTBE V} (h : l.tbes.lookup a = some t) :
    l.wDeallocateTBE a = .ok { l with tbes := l.tbes.erase a } := by
  unfold wDeallocateTBE
  rw [deallocate_eq h]
  rfl

theorem uWriteDataToCache_eq {e : CacheEntry V} {v : V} (h : l.cacheMemory.lookup a = some e) :
    l.uWriteDataToCache a v =
      .ok { l with cacheMemory := l.cacheMemory.insert a { e with dataBlk := v } } := by
  unfold uWriteDataToCache
  rw [cacheEntry_eq h]
  rfl

end L1Cache

section Triggers

variable [DecidableEq κ] {s : System α κ δ V}

namespace System

omit [DecidableEq α] in
@[simp] theorem setL1_l1_self : (s.setL1 c l).l1 c = l := update_self _ _ _

omit [DecidableEq α] in
@[simp] theorem setL1_setL1 : (s.setL1 c l).setL1 c n = s.setL1 c n := by
  unfold setL1
  simp

omit [DecidableEq α] in
theorem setL1_self : s.setL1 c (s.l1 c) = s := by
  unfold setL1
  rw [update_eq_self]

omit [DecidableEq α] in
theorem holds_onL1 {f : L1Cache α V → Except ProtocolFailure (L1Cache α V)}
    {P : System α κ δ V → Prop} {E : ProtocolFailure → Prop} :
    Holds (s.onL1 c f) P E ↔ Holds (f (s.l1 c)) (fun l => P (s.setL1 c l)) E := by
  unfold onL1
  rw [holds_bind]
  rfl

omit [DecidableEq α] in
theorem onL1_eq {f : L1Cache α V → Except ProtocolFailure (L1Cache α V)}
    (h : f (s.l1 c) = .ok n) : s.onL1 c f = .ok (s.setL1 c n) := by
  unfold onL1
  rw [h]
  rfl

omit [DecidableEq α] in
theorem onL1_setL1_eq {f : L1Cache α V → Except ProtocolFailure (L1Cache α V)} (h : f l = .ok n) :
    (s.setL1 c l).onL1 c f = .ok (s.setL1 c n) := by
  rw [onL1_eq (by rwa [setL1_l1_self]), setL1_setL1]

theorem loadHit_setL1_eq {e : CacheEntry V} (he : l.cacheMemory.lookup a = some e)
    (hn : l.readCallback a = .ok n) :
    (s.setL1 c l).loadHit c a =
      .ok ({ s with completed := .load c a e.dataBlk :: s.completed }.setL1 c n) := by
  unfold loadHit
  rw [setL1_l1_self, cacheEntry_eq he, ok_bind, hn]
  simp [setL1]

theorem storeHit_setL1_eq {cfg : Config α V} {e : CacheEntry V} {v : V}
    {request : SequencerRequest α V} (he : l.cacheMemory.lookup a = some e)
    (hn : l.writeCallback cfg a e.dataBlk = .ok (v, request, n)) :
    (s.setL1 c l).storeHit cfg c a = .ok ({ s with
      completed := .store c a request.pkt.data request.pkt.offset request.pkt.size :: s.completed
      }.setL1 c { n with cacheMemory := n.cacheMemory.insert a { e with dataBlk := v } }) := by
  unfold storeHit
  rw [setL1_l1_self, cacheEntry_eq he, ok_bind, hn]
  simp [setL1]

def finish (s : System α κ δ V) (c : κ) (a : α) :
    Option (CacheState × System α κ δ V) → System α κ δ V
  | none => s
  | some (state, s) => s.setL1 c ((s.l1 c).setState a state)

variable [DecidableEq δ] [DecidableEq V] [Inhabited V] {cfg : Config α V}
  {fwd : Option (RequestMsg α κ δ V)} {resp : Option (ResponseMsg α κ δ V)} {event : CacheEvent}
  {state : CacheState} {P : System α κ δ V → Prop} {E : ProtocolFailure → Prop}

theorem holds_l1Trigger (hstate : (s.l1 c).getState a = state)
    (h : Holds (s.l1Transition cfg c a fwd resp state event) (fun x => P (s.finish c a x)) E) :
    Holds (s.l1Trigger cfg c a fwd resp event) P E := by
  unfold l1Trigger
  rw [hstate, holds_bind]
  refine h.imp fun x hx => ?_
  cases x with
  | none => exact hx
  | some x => exact hx

end System

theorem System.putBack_eq {t : CacheTBE V} {e : CacheEntry V}
    (hentry : l.cacheMemory.lookup a = some e) (htbe : l.tbes.lookup a = some t) :
    (do
      let s ← (s.setL1 c l).bIssuePUT c a
      let s ← s.onL1 c (·.xCopyDataFromCacheToTBE a)
      let s ← s.onL1 c (·.hDeallocateL1CacheBlock a)
      pure (some (CacheState.MI, s))) =
    .ok (some (CacheState.MI,
      { s with requestToDir := s.requestToDir ++ [putx a c e.dataBlk] }.setL1 c { l with
        tbes := l.tbes.insert a { t with dataBlk := e.dataBlk }
        cacheMemory := l.cacheMemory.erase a })) := by
  have hput : (s.setL1 c l).bIssuePUT c a =
      .ok ({ s with requestToDir := s.requestToDir ++ [putx a c e.dataBlk] }.setL1 c l) := by
    unfold bIssuePUT
    rw [setL1_l1_self, cacheEntry_eq hentry]
    rfl
  have hcopy : l.xCopyDataFromCacheToTBE a =
      .ok { l with tbes := l.tbes.insert a { t with dataBlk := e.dataBlk } } := by
    unfold xCopyDataFromCacheToTBE
    rw [cacheEntry_eq hentry, tbe_eq htbe]
    rfl
  have hdealloc (tbes : AList fun _ : α => CacheTBE V) :
      { l with tbes }.hDeallocateL1CacheBlock a =
        .ok { l with tbes, cacheMemory := l.cacheMemory.erase a } := by
    unfold hDeallocateL1CacheBlock
    dsimp only
    rw [hentry]
    dsimp only
    rw [require, if_pos (mem_of_lookup hentry)]
    rfl
  refine bind_eq_ok.mpr ⟨_, hput, bind_eq_ok.mpr ⟨_, onL1_setL1_eq hcopy, ?_⟩⟩
  exact bind_eq_ok.mpr ⟨_, onL1_setL1_eq (hdealloc _), rfl⟩

variable [Inhabited V]

theorem good_finish {cfg : Config α V} {initial : α → V} {s₁ s₂ : System α κ δ V}
    {state : CacheState} (h : Good cfg initial (s₁.setL1 c (n.setState a state)))
    (hs : s₂ = s₁.setL1 c n) : Good cfg initial (s.finish c a (some (state, s₂))) := by
  subst hs
  unfold finish
  dsimp only
  rwa [setL1_l1_self, setL1_setL1]

theorem cacheShows_setState {state : CacheState} {t : Option (CacheTBE V)}
    {e : Option (CacheEntry V)} (htbe : n.tbes.lookup a = t)
    (ht : t.map ({ · with tbeState := state }) = r.tbe) (hentry : n.cacheMemory.lookup a = e)
    (he : r.EntryOk (e.map ({ · with cacheState := state }))) :
    CacheShows (n.setState a state) a r := by
  refine ⟨?_, ?_⟩
  · rwa [lookup_setState_tbes, if_pos rfl, htbe]
  · rwa [lookup_setState_cacheMemory, if_pos rfl, hentry]

variable {cfg : Config α V} {initial : α → V} {L : α → Line κ V} {req : RubyRequest α}
  {rest : List (RubyRequest α)}

section

variable (h : Shows cfg initial s L)
include h

theorem Shows.hit {v v' : V} {x : Access α κ V} (hrole : (L req.lineAddress).role c = .owner v)
    (hqueue : (s.l1 c).mandatoryQueue = req :: rest) (store : Bool)
    (hmem : req.lineAddress ∈ (s.l1 c).table store) (hn : n.tbes = (s.l1 c).tbes ∧
      n.cacheMemory.lookup req.lineAddress = some ⟨.M, v'⟩ ∧
      ∀ b, b ≠ req.lineAddress → n.cacheMemory.lookup b = (s.l1 c).cacheMemory.lookup b)
    (hs : ((s.l1 c).answered req.lineAddress store).readRequestTable = n.readRequestTable ∧
      ((s.l1 c).answered req.lineAddress store).writeRequestTable = n.writeRequestTable ∧
      ((s.l1 c).answered req.lineAddress store).outstandingCount = n.outstandingCount)
    (hrest : n.mandatoryQueue = rest)
    (hvalue : lineValue cfg initial req.lineAddress (x :: s.completed) = v')
    (hx : ∀ d e data offset size, x = .store d e data offset size → e = req.lineAddress)
    (hloads : LoadsLatest cfg initial (x :: s.completed)) :
    Good cfg initial ({ s with completed := x :: s.completed }.setL1 c
      (n.setState req.lineAddress .M)) := by
  obtain ⟨htbes, hentry, hother⟩ := hn
  have hshow := h.cache c req.lineAddress
  have hok := (h.ok req.lineAddress).role c
  have hnodup := (h.sequencer c).nodup
  unfold queuedLines at hnodup
  rw [hqueue, map_cons, nodup_cons] at hnodup
  rw [hrole] at hshow hok
  obtain ⟨-, q, hplace⟩ := hok
  have hsent := Line.not_sent hplace (by rw [hrole]; exact id)
  refine h.accessed hplace (by rw [hrole]; rfl) (by rw [hrole]; rfl)
    (sameElsewhere_setState fun b hb => ⟨by rw [htbes], hother b hb⟩)
    (cacheShows_setState (htbes ▸ hshow.tbe) rfl hentry rfl) ?_ ?_ hvalue hx hloads
  · refine (h.sequencer c).answer hmem rfl hs ?_ ?_
    · rw [hqueue]
      exact hrest ▸ suffix_cons req rest
    · change _ ∉ map _ n.mandatoryQueue
      rw [hrest]
      exact hnodup.1
  · exact h.responses.keep fun m _ =>
      iff_of_false (Line.responses_none (Line.not_sent_assign hplace)) (Line.responses_none hsent)

theorem Shows.owner {v : V} {a : α} (hrole : (L a).role c = .owner v) :
    (s.l1 c).cacheMemory.lookup a = some { cacheState := .M, dataBlk := v } ∧
      v = lineValue cfg initial a s.completed := by
  have hshow := h.cache c a
  have hok := (h.ok a).role c
  rw [hrole] at hshow hok
  exact ⟨hshow.entry, hok.1.trans (h.latest a)⟩

theorem Shows.hitLoad {v : V} (hrole : (L req.lineAddress).role c = .owner v)
    (hqueue : (s.l1 c).mandatoryQueue = req :: rest)
    (hmem : req.lineAddress ∈ (s.l1 c).readRequestTable) :
    Holds (do
        let s ← s.loadHit c req.lineAddress
        pure (some (CacheState.M, s.setL1 c (s.l1 c).mPopMandatoryQueue)))
      (fun x => Good cfg initial (s.finish c req.lineAddress x)) fun _ => False := by
  obtain ⟨hentry, hv⟩ := h.owner hrole
  have hload := loadHit_setL1_eq (s := s) (c := c) hentry ((h.sequencer c).readCallback_eq hmem)
  rw [setL1_self] at hload
  refine holds_bind_of_ok hload ?_
  refine good_finish (n := ((s.l1 c).answered req.lineAddress false).mPopMandatoryQueue)
    (h.hit (x := .load c req.lineAddress v) hrole hqueue false hmem
      ⟨rfl, hentry, fun _ _ => rfl⟩ ⟨rfl, rfl, rfl⟩ (congrArg tail hqueue) hv.symm nofun
      ⟨hv, h.loads⟩) ?_
  rw [setL1_l1_self, setL1_setL1]

theorem Shows.hitStore {v : V} (hrole : (L req.lineAddress).role c = .owner v)
    (hqueue : (s.l1 c).mandatoryQueue = req :: rest)
    (hmem : req.lineAddress ∈ (s.l1 c).writeRequestTable) :
    Holds (do
        let s ← s.storeHit cfg c req.lineAddress
        pure (some (CacheState.M, s.setL1 c (s.l1 c).mPopMandatoryQueue)))
      (fun x => Good cfg initial (s.finish c req.lineAddress x)) fun _ => False := by
  obtain ⟨hentry, hv⟩ := h.owner hrole
  obtain ⟨request, hcall⟩ := (h.sequencer c).writeCallback_eq cfg v hmem
  have hstore := storeHit_setL1_eq (s := s) (c := c) hentry hcall
  rw [setL1_self] at hstore
  refine holds_bind_of_ok hstore ?_
  let v' := cfg.setData v request.pkt.data request.pkt.offset request.pkt.size
  refine good_finish (n := { ((s.l1 c).answered req.lineAddress true).mPopMandatoryQueue with
      cacheMemory := (s.l1 c).cacheMemory.insert req.lineAddress ⟨.M, v'⟩ })
    (h.hit (x := .store c req.lineAddress request.pkt.data request.pkt.offset request.pkt.size)
      hrole hqueue true hmem ⟨rfl, lookup_insert _, fun b hb => lookup_insert_ne hb⟩
      ⟨rfl, rfl, rfl⟩ (congrArg tail hqueue) ?_ ?_ h.loads) ?_
  · rw [lineValue, if_pos rfl, ← hv]
  · rintro _ _ _ _ _ ⟨⟩
    rfl
  · rw [setL1_l1_self, setL1_setL1]
    rfl

theorem Shows.ask (store : Bool) (hrole : (L req.lineAddress).role c = .away)
    (hqueue : (s.l1 c).mandatoryQueue = req :: rest) (hmem : req.lineAddress ∈ (s.l1 c).table store)
    (havail : req.lineAddress ∈ (s.l1 c).cacheMemory ∨
      (s.l1 c).cacheAvail cfg req.lineAddress = true) :
    Fits (do
        let s ← s.onL1 c (·.vAllocateTBE cfg req.lineAddress)
        let s ← s.onL1 c (·.iAllocateL1CacheBlock cfg req.lineAddress)
        let s := s.aIssueRequest c req.lineAddress
        pure (some (Role.busyState store, s.setL1 c (s.l1 c).mPopMandatoryQueue)))
      (fun x => Good cfg initial (s.finish c req.lineAddress x))
      ((s.l1 c).tbes.entries.length < cfg.numberOfTBEs) := by
  have hshow := h.cache c req.lineAddress
  rw [hrole] at hshow
  unfold Fits
  rw [holds_bind, holds_onL1]
  unfold L1Cache.vAllocateTBE
  rw [holds_bind]
  refine (fits_allocate hshow.tbe).imp ?_
  rintro _ ⟨rfl, hroom⟩
  let l₁ := { s.l1 c with tbes := (s.l1 c).tbes.insert req.lineAddress ⟨.I, default⟩ }
  obtain ⟨t, e, halloc, he, hother⟩ := iAllocateL1CacheBlock_spec (l := l₁) havail
  refine holds_bind_of_ok (onL1_setL1_eq halloc) ?_
  refine ⟨good_finish (n := { l₁ with cacheMemory := t }.mPopMandatoryQueue)
    (h.asked store hrole (sameElsewhere_setState fun b hb => ?_) ?_ ?_) ?_, hroom⟩
  · exact ⟨lookup_insert_ne hb, hother b hb⟩
  · exact cacheShows_setState (lookup_insert _) rfl he ⟨e.dataBlk, rfl⟩
  · exact (h.sequencer c).take hqueue hmem rfl (congrArg tail hqueue) rfl rfl rfl
  · change ((s.aIssueRequest c req.lineAddress).setL1 c _).setL1 c
      (((s.aIssueRequest c req.lineAddress).setL1 c _).l1 c).mPopMandatoryQueue = _
    rw [setL1_l1_self, setL1_setL1]

theorem Shows.replace {v : V} (hrole : (L a).role c = .owner v) :
    Fits (do
        let s ← s.onL1 c (·.vAllocateTBE cfg a)
        let s ← s.bIssuePUT c a
        let s ← s.onL1 c (·.xCopyDataFromCacheToTBE a)
        let s ← s.onL1 c (·.hDeallocateL1CacheBlock a)
        pure (some (CacheState.MI, s)))
      (fun x => Good cfg initial (s.finish c a x))
      ((s.l1 c).tbes.entries.length < cfg.numberOfTBEs) := by
  have hshow := h.cache c a
  rw [hrole] at hshow
  unfold Fits
  rw [holds_bind, holds_onL1]
  unfold L1Cache.vAllocateTBE
  rw [holds_bind]
  refine (fits_allocate hshow.tbe).imp ?_
  rintro _ ⟨rfl, hroom⟩
  let l₁ := { s.l1 c with tbes := (s.l1 c).tbes.insert a ⟨.I, default⟩ }
  have hentry : l₁.cacheMemory.lookup a = some ⟨.M, v⟩ := hshow.entry
  rw [holds_pure]
  refine holds_of_eq_ok (putBack_eq (l := l₁) hentry (lookup_insert _)) ?_
  refine ⟨good_finish (n := { l₁ with
      tbes := l₁.tbes.insert a ⟨.I, v⟩
      cacheMemory := l₁.cacheMemory.erase a })
    (h.put hrole (sameElsewhere_setState fun b hb => ?_) ?_ ⟨rfl, rfl, rfl, rfl⟩) rfl, hroom⟩
  · exact ⟨(lookup_insert_ne hb).trans (lookup_insert_ne hb), lookup_erase_ne hb⟩
  · exact cacheShows_setState (lookup_insert _) rfl (lookup_erase a _) rfl

theorem Shows.makeRequest {pkt : Packet α V} :
    Holds (s.onL1 c (·.makeRequest cfg pkt)) (Good cfg initial) fun _ => False := by
  rw [holds_onL1]
  refine (h.sequencer c).makeRequest.imp ?_
  rintro n ⟨htbes, hentries, hseq⟩
  have hshow := h.cache c pkt.lineAddress
  refine h.local (a := pkt.lineAddress) (fun b _ => ⟨by rw [htbes], by rw [hentries]⟩) ⟨?_, ?_⟩ hseq
  · rw [htbes]
    exact hshow.tbe
  · rw [hentries]
    exact hshow.entry

theorem Shows.evict (hrole : (L a).role c = .away) :
    Holds (do
        let s ← s.onL1 c (·.hDeallocateL1CacheBlock a)
        pure (some (CacheState.I, s)))
      (fun x => Good cfg initial (s.finish c a x)) fun _ => False := by
  have hshow := h.cache c a
  rw [hrole] at hshow
  have hdealloc : ∃ t, (s.l1 c).hDeallocateL1CacheBlock a = .ok { s.l1 c with cacheMemory := t } ∧
      t.lookup a = none ∧ ∀ b, b ≠ a → t.lookup b = (s.l1 c).cacheMemory.lookup b := by
    unfold hDeallocateL1CacheBlock
    cases he : (s.l1 c).cacheMemory.lookup a with
    | none => exact ⟨_, rfl, he, fun _ _ => rfl⟩
    | some e =>
      refine ⟨(s.l1 c).cacheMemory.erase a, ?_, lookup_erase a _,
        fun b hb => lookup_erase_ne hb⟩
      dsimp only
      rw [require, if_pos (mem_of_lookup he)]
      rfl
  obtain ⟨t, hdealloc, hnone, hother⟩ := hdealloc
  refine holds_bind_of_ok (onL1_eq hdealloc) ?_
  refine good_finish (n := { s.l1 c with cacheMemory := t })
    (h.local (sameElsewhere_setState fun b hb => ⟨rfl, hother b hb⟩) ?_
      ((h.sequencer c).congr ⟨rfl, rfl, rfl, rfl⟩)) rfl
  rw [hrole]
  exact cacheShows_setState hshow.tbe rfl hnone (by rintro _ ⟨⟩)

end

variable [DecidableEq δ] [DecidableEq V]

section

variable (h : Shows cfg initial s L)
include h

theorem Shows.giveFromMI {v : V} {q : List κ}
    (hplace : (L a).place = .owned c (w :: q)) (hheld : ((L a).role c).held = some v)
    (hstate : ((L a).role c).state = .MI) (htbe : ((L a).role c).tbe = some ⟨.MI, v⟩)
    (hentry : (s.l1 c).cacheMemory.lookup a = none) (hr : r = .gave v ∨ r = .gaveRefused v)
    (hrequest : r.request a c = ((L a).role c).request (δ := δ) a c)
    (hreply : r.reply a c = ((L a).role c).reply (δ := δ) a c) :
    Holds (s.l1Trigger cfg c a (some (forwarded .GETX a w c)) none .Fwd_GETX) (Good cfg initial)
      fun _ => False := by
  have hshow := h.cache c a
  have htbe' : (s.l1 c).tbes.lookup a = some ⟨.MI, v⟩ := hshow.tbe.trans htbe
  refine holds_l1Trigger (hshow.getState.trans hstate) ?_
  dsimp only [l1Transition, peek, eeSendDataFromTBE]
  rw [tbe_eq htbe']
  refine h.gave hplace hheld ?_ hrequest hreply ?_
    (sameElsewhere_setState fun _ _ => ⟨rfl, rfl⟩) (cacheShows_setState htbe' ?_ hentry ?_)
    ⟨rfl, rfl, rfl, rfl⟩
  all_goals obtain rfl | rfl := hr <;> trivial

theorem Shows.fwdGetx (hm : (c, w) ∈ adjacent (L a).place.queue) :
    Holds (s.l1Trigger cfg c a (some (forwarded .GETX a w c)) none .Fwd_GETX) (Good cfg initial)
      fun _ => False := by
  have hshow := h.cache c a
  obtain hwait | ⟨q, hplace, hheld⟩ := (h.ok a).of_adjacent hm
  · refine holds_l1Trigger hshow.getState ?_
    obtain ⟨store, hstore⟩ := hwait.exists
    rw [hstore]
    cases store <;> exact ⟨L, h⟩
  cases hrole : (L a).role c with
  | owner v =>
    refine holds_l1Trigger hshow.getState ?_
    rw [hrole] at hshow ⊢
    have hentry : (s.l1 c).cacheMemory.lookup a = some ⟨.M, v⟩ := hshow.entry
    dsimp only [Role.state, l1Transition, peek, eSendData]
    rw [cacheEntry_eq hentry]
    refine h.gave hplace (by rw [hrole]; rfl) (r := .away) trivial (by rw [hrole]; rfl)
      (by rw [hrole]; rfl) rfl (sameElsewhere_setState fun _ _ => ⟨rfl, rfl⟩)
      (cacheShows_setState hshow.tbe rfl hentry ?_) ⟨rfl, rfl, rfl, rfl⟩
    rintro e ⟨⟩
    rfl
  | putting v =>
    rw [hrole] at hshow
    exact h.giveFromMI hplace (by rw [hrole]; rfl) (by rw [hrole]; rfl) (by rw [hrole]; rfl)
      hshow.entry (.inl rfl) (by rw [hrole]; rfl) (by rw [hrole]; rfl)
  | refused v =>
    rw [hrole] at hshow
    exact h.giveFromMI hplace (by rw [hrole]; rfl) (by rw [hrole]; rfl) (by rw [hrole]; rfl)
      hshow.entry (.inr rfl) (by rw [hrole]; rfl) (by rw [hrole]; rfl)
  | keeping v =>
    refine holds_l1Trigger hshow.getState ?_
    rw [hrole] at hshow ⊢
    have htbe : (s.l1 c).tbes.lookup a = some ⟨.MII, v⟩ := hshow.tbe
    have hentry : (s.l1 c).cacheMemory.lookup a = none := hshow.entry
    dsimp only [Role.state, l1Transition, peek, eeSendDataFromTBE]
    rw [tbe_eq htbe]
    refine holds_bind_of_ok rfl (holds_bind_of_ok rfl ?_)
    refine holds_bind_of_ok (onL1_eq (wDeallocateTBE_eq htbe)) ?_
    refine good_finish (n := { s.l1 c with tbes := (s.l1 c).tbes.erase a })
      (h.gave hplace (by rw [hrole]; rfl) (r := .away) trivial (by rw [hrole]; rfl)
      (by rw [hrole]; rfl) rfl (sameElsewhere_setState fun b hb => ?_)
      (cacheShows_setState (lookup_erase a _) rfl hentry nofun) ⟨rfl, rfl, rfl, rfl⟩) rfl
    exact ⟨lookup_erase_ne hb, rfl⟩
  | _ =>
    rw [hrole] at hheld
    cases hheld

theorem Shows.freed {v : V} {m₀ : RequestMsg α κ δ V} {state : CacheState}
    (hrole : (L a).role c = .gaveRefused v ∨ (L a).role c = .written v)
    (hreply : ((L a).role c).reply a c = some m₀) (htbe : ((L a).role c).tbe = some ⟨state, v⟩) :
    Holds (do
        let s ← s.onL1 c (·.wDeallocateTBE a)
        pure (some (CacheState.I, s.oPopForwardedRequestQueue m₀)))
      (fun x => Good cfg initial (s.finish c a x)) fun _ => False := by
  have hshow := h.cache c a
  have hentry : (s.l1 c).cacheMemory.lookup a = none := by
    have he := hshow.entry
    obtain hr | hr := hrole <;> rwa [hr] at he
  have hidle : ((L a).role c).Idle := by obtain hr | hr := hrole <;> rw [hr] <;> trivial
  refine holds_bind_of_ok (onL1_eq (wDeallocateTBE_eq (hshow.tbe.trans htbe))) ?_
  refine good_finish (n := { s.l1 c with tbes := (s.l1 c).tbes.erase a })
    (h.replied hreply rfl ?_ ((h.ok a).idle hidle (r := .away) trivial) id rfl
      (sameElsewhere_setState fun b hb => ⟨lookup_erase_ne hb, rfl⟩)
      (cacheShows_setState (lookup_erase a _) rfl hentry nofun) ⟨rfl, rfl, rfl, rfl⟩) rfl
  obtain hr | hr := hrole <;> rw [hr] <;> rfl

theorem Shows.writebackAck {v : V} (hrole : (L a).role c = .written v) :
    Holds (s.l1Trigger cfg c a (some (forwarded .WB_ACK a c c)) none .Writeback_Ack)
      (Good cfg initial) fun _ => False := by
  refine holds_l1Trigger (h.cache c a).getState ?_
  rw [hrole]
  exact h.freed (.inr hrole) (by rw [hrole]; rfl) (by rw [hrole]; rfl)

theorem Shows.writebackNack {v : V}
    (hrole : (L a).role c = .refused v ∨ (L a).role c = .gaveRefused v) :
    Holds (s.l1Trigger cfg c a (some (forwarded .WB_NACK a c c)) none .Writeback_Nack)
      (Good cfg initial) fun _ => False := by
  have hshow := h.cache c a
  refine holds_l1Trigger hshow.getState ?_
  obtain hrole | hrole := hrole
  · have hok := (h.ok a).role c
    rw [hrole] at hshow hok ⊢
    obtain ⟨-, w, q, hplace⟩ := hok
    have hheld : ((L a).role c).held = some v := by rw [hrole]; rfl
    have hentry : (s.l1 c).cacheMemory.lookup a = none := hshow.entry
    refine h.replied (by rw [hrole]; rfl) rfl (by rw [hrole]; rfl)
      ((h.ok a).hold (r := .keeping v) hplace hheld rfl nofun) id rfl
      (sameElsewhere_setState fun _ _ => ⟨rfl, rfl⟩)
      (cacheShows_setState hshow.tbe rfl hentry rfl) ⟨rfl, rfl, rfl, rfl⟩
  · rw [hrole]
    exact h.freed (.inl hrole) (by rw [hrole]; rfl) (by rw [hrole]; rfl)

theorem Shows.data (hsent : (L a).Sent c) :
    Holds (s.l1Trigger cfg c a none (some (dataMsg a c (L a).latest)) .Data) (Good cfg initial)
      fun _ => False := by
  obtain ⟨⟨q, hplace⟩, hwait⟩ := hsent
  obtain ⟨store, hrole⟩ := hwait.exists
  have hshow := h.cache c a
  refine holds_l1Trigger hshow.getState ?_
  rw [hrole] at hshow ⊢
  obtain ⟨hmem, hqueued⟩ := (h.sequencer c).busy a store (by rw [hrole]; rfl)
  obtain ⟨v₀, hentry⟩ := hshow.entry
  have hsent (d : κ) : (L a).Sent d ↔ d = c := by
    constructor
    · rintro ⟨⟨q', hq'⟩, -⟩
      exact (Place.owned.inj (hplace.symm.trans hq')).1.symm
    · rintro rfl
      exact ⟨⟨q, hplace⟩, hwait⟩
  have hresponses (v : V) : CarriesOn (·.addr) Line.Responses
      (s.responseToCache.erase (dataMsg a c (L a).latest)) (update L a ((L a).assign c v)) :=
    h.responses.receive rfl fun m => Line.responses_receive hsent (Line.not_sent_assign hplace)
  cases store with
  | false =>
    let l₁ := { s.l1 c with
      cacheMemory := (s.l1 c).cacheMemory.insert a ⟨.IS, (L a).latest⟩ }
    have hseq : SequencerOk l₁ _ := (h.sequencer c).congr ⟨rfl, rfl, rfl, rfl⟩
    refine holds_bind_of_ok rfl ?_
    refine holds_bind_of_ok (onL1_eq (uWriteDataToCache_eq hentry)) ?_
    refine holds_bind_of_ok (loadHit_setL1_eq (l := l₁) (lookup_insert _)
      (hseq.readCallback_eq hmem)) ?_
    refine holds_bind_of_ok (onL1_setL1_eq (l := l₁.answered a false)
      (wDeallocateTBE_eq hshow.tbe)) ?_
    refine good_finish (h.accessed (x := .load c a (L a).latest) hplace (by rw [hrole]; rfl)
      (by rw [hrole]; rfl) ?_ ?_ ?_ (hresponses (L a).latest) (h.latest a).symm nofun
      ⟨h.latest a, h.loads⟩) rfl
    · refine sameElsewhere_setState fun b hb => ⟨lookup_erase_ne hb, ?_⟩
      exact lookup_insert_ne hb
    · exact cacheShows_setState (lookup_erase a _) rfl (lookup_insert _) rfl
    · exact (h.sequencer c).answer hmem rfl ⟨rfl, rfl, rfl⟩ (suffix_refl _) hqueued
  | true =>
    let l₁ := { s.l1 c with
      cacheMemory := (s.l1 c).cacheMemory.insert a ⟨.IM, (L a).latest⟩ }
    have hseq : SequencerOk l₁ _ := (h.sequencer c).congr ⟨rfl, rfl, rfl, rfl⟩
    obtain ⟨request, hcall⟩ := hseq.writeCallback_eq cfg (L a).latest hmem
    refine holds_bind_of_ok rfl ?_
    refine holds_bind_of_ok (onL1_eq (uWriteDataToCache_eq hentry)) ?_
    refine holds_bind_of_ok (storeHit_setL1_eq (l := l₁) (lookup_insert _) hcall) ?_
    refine holds_bind_of_ok (onL1_setL1_eq (wDeallocateTBE_eq hshow.tbe)) ?_
    refine good_finish (h.accessed
      (x := .store c a request.pkt.data request.pkt.offset request.pkt.size) hplace
      (by rw [hrole]; rfl) (by rw [hrole]; rfl) ?_ ?_ ?_
      (hresponses (cfg.setData (L a).latest request.pkt.data request.pkt.offset request.pkt.size))
      ?_ ?_ h.loads) rfl
    · refine sameElsewhere_setState fun b hb => ⟨lookup_erase_ne hb, ?_⟩
      exact (lookup_insert_ne hb).trans (lookup_insert_ne hb)
    · exact cacheShows_setState (lookup_erase a _) rfl (lookup_insert _) rfl
    · exact (h.sequencer c).answer hmem rfl ⟨rfl, rfl, rfl⟩ (suffix_refl _) hqueued
    · rw [lineValue, if_pos rfl, ← h.latest a]
    · rintro _ _ _ _ _ ⟨⟩
      rfl

/-- The next request makes the cache allocate a TBE: it misses, or a modified line has to leave
the way that it needs. -/
def L1Cache.Allocates (cfg : Config α V) (l : L1Cache α V) (way : Nat) : Prop :=
  ∃ req ∈ l.mandatoryQueue.head?,
    if req.lineAddress ∉ l.cacheMemory ∧ l.cacheAvail cfg req.lineAddress = false then
      ∃ victim ∈ (l.ways cfg req.lineAddress)[way]?, l.getState victim = .M
    else l.getState req.lineAddress = .I

theorem Shows.replacement :
    Fits (s.l1Trigger cfg c a none none .Replacement) (Good cfg initial)
      ((s.l1 c).getState a = .M → (s.l1 c).tbes.entries.length < cfg.numberOfTBEs) := by
  have hstate := (h.cache c a).getState
  rw [hstate]
  refine holds_l1Trigger hstate ?_
  cases hrole : (L a).role c with
  | away => exact fits_of_holds (h.evict hrole) nofun
  | owner v => exact (h.replace hrole).congr ⟨fun hroom _ => hroom, fun hroom => hroom rfl⟩
  | asking store | waiting store => cases store <;> exact ⟨⟨L, h⟩, nofun⟩
  | _ => exact ⟨⟨L, h⟩, nofun⟩

theorem Shows.mandatory (way : Nat) :
    Fits (s.mandatoryQueueIn cfg c way) (Good cfg initial)
      ((s.l1 c).Allocates cfg way → (s.l1 c).tbes.entries.length < cfg.numberOfTBEs) := by
  unfold Fits mandatoryQueueIn L1Cache.Allocates
  cases hqueue : (s.l1 c).mandatoryQueue with
  | nil => exact ⟨⟨L, h⟩, fun ⟨_, hreq, _⟩ => nomatch hreq⟩
  | cons req rest =>
    obtain ⟨k, htype, hmem⟩ := (h.sequencer c).queue req (hqueue ▸ mem_cons_self)
    have hnext (P : RubyRequest α → Prop) : (∃ r ∈ (req :: rest).head?, P r) ↔ P req := by simp
    rw [hnext]
    dsimp only
    rw [holds_ite]
    refine ⟨fun hfull => ?_, fun havail => ?_⟩
    · rw [if_pos hfull]
      split
      · next hway => exact ⟨⟨L, h⟩, fun ⟨_, hvictim, _⟩ => by rw [hway] at hvictim; cases hvictim⟩
      · next victim hway =>
        refine h.replacement.congr ⟨fun hroom ⟨v, hv, hM⟩ => hroom ?_, fun hroom hM => ?_⟩
        · rw [hway] at hv
          cases hv
          exact hM
        · exact hroom ⟨victim, hway, hM⟩
    rw [if_neg havail]
    have havail' : req.lineAddress ∈ (s.l1 c).cacheMemory ∨
        (s.l1 c).cacheAvail cfg req.lineAddress = true := by
      by_contra hnot
      rw [not_or, Bool.not_eq_true] at hnot
      exact havail hnot
    have hstate := (h.cache c req.lineAddress).getState
    rw [hstate, htype]
    cases k with
    | read | instFetch =>
      refine holds_bind_of_ok rfl (holds_l1Trigger hstate ?_)
      cases hrole : (L req.lineAddress).role c with
      | away =>
        exact (h.ask false hrole hqueue hmem havail').congr ⟨fun hroom _ => hroom, fun hroom => hroom rfl⟩
      | owner v => exact fits_of_holds (h.hitLoad hrole hqueue hmem) nofun
      | asking store | waiting store => cases store <;> exact ⟨⟨L, h⟩, nofun⟩
      | _ => exact ⟨⟨L, h⟩, nofun⟩
    | write =>
      refine holds_bind_of_ok rfl (holds_l1Trigger hstate ?_)
      cases hrole : (L req.lineAddress).role c with
      | away =>
        exact (h.ask true hrole hqueue hmem havail').congr ⟨fun hroom _ => hroom, fun hroom => hroom rfl⟩
      | owner v => exact fits_of_holds (h.hitStore hrole hqueue hmem) nofun
      | asking store | waiting store => cases store <;> exact ⟨⟨L, h⟩, nofun⟩
      | _ => exact ⟨⟨L, h⟩, nofun⟩

theorem Shows.forward {m : RequestMsg α κ δ V}
    (hm : m ∈ s.forwardToCache) (hdst : m.destination = .l1Cache c) :
    Holds (s.forwardRequestNetworkIn cfg c m) (Good cfg initial) fun _ => False := by
  have hforwards := h.forwards.mem.mp hm
  unfold Line.Forwards at hforwards
  generalize m.addr = a at hforwards
  obtain ⟨d, hd⟩ | ⟨⟨d, w⟩, hpair, rfl⟩ := hforwards
  · obtain rfl := MachineID.l1Cache.inj ((Role.destination_of_reply hd).symm.trans hdst)
    cases hrole : (L a).role d with
    | refused v =>
      rw [hrole] at hd
      cases hd
      exact h.writebackNack (.inl hrole)
    | gaveRefused v =>
      rw [hrole] at hd
      cases hd
      exact h.writebackNack (.inr hrole)
    | written v =>
      rw [hrole] at hd
      cases hd
      exact h.writebackAck hrole
    | _ =>
      rw [hrole] at hd
      cases hd
  · obtain rfl := MachineID.l1Cache.inj hdst
    exact h.fwdGetx hpair

theorem Shows.response {m : ResponseMsg α κ δ V}
    (hm : m ∈ s.responseToCache) (hdst : m.destination = .l1Cache c) :
    Holds (s.responseNetworkIn cfg c m) (Good cfg initial) fun _ => False := by
  have hresponses := h.responses.mem.mp hm
  unfold Line.Responses at hresponses
  generalize m.addr = a at hresponses
  obtain ⟨d, hsent, rfl⟩ := hresponses
  obtain rfl := MachineID.l1Cache.inj hdst
  exact h.data hsent

end

end Triggers

end Drain.Mi
