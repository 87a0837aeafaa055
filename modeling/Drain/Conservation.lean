import Drain.FlitInvariant

/-! No flit is lost, duplicated or delivered elsewhere. The flits that have been made are counted
over all buffers: a step changes the count by the flits it makes, and a drain does not change it. -/

namespace Drain

open List State Core Net Flit

def Created (net : Net) (f : Flit) : Prop :=
  ∃ n < net.nodes, ∃ v vnet curCycle, ∃ dest < net.nodes,
    f = newFlit f.ptr 0 v vnet (messageRoute net n vnet dest) 1 curCycle

/-- From `c` to `t` the flits `made` have been made and no flit has been lost. -/
structure Conserves (net : Net) (made : List Flit) (c t : Core) : Prop where
  created : ∀ f ∈ made, Created net f
  ptrs : made.map ptr = range' c.nextPtr made.length
  nextPtr : t.nextPtr = c.nextPtr + made.length
  copies : ∀ q, t.copies net q = c.copies net q + made.countP fun f => q f.ident

section Count

variable {net : Net} {c t u : Core} {made made' : List Flit} {op : Op} {vc : Nat}
  {q : Nat × Nat × Nat → Bool}

theorem Conserves.of_eq (hptr : t.nextPtr = c.nextPtr)
    (hcopies : ∀ q, t.copies net q = c.copies net q) : Conserves net [] c t :=
  ⟨by simp, rfl, hptr, hcopies⟩

theorem Conserves.trans (h : Conserves net made c t) (h' : Conserves net made' t u) :
    Conserves net (made ++ made') c u := by
  refine ⟨forall_mem_append.mpr ⟨h.created, h'.created⟩, ?_, ?_, fun q => ?_⟩
  · rw [map_append, h.ptrs, h'.ptrs, h.nextPtr, length_append, range'_append_1]
  · rw [h'.nextPtr, h.nextPtr, length_append, add_assoc]
  · rw [h'.copies, h.copies, countP_append, add_assoc]

theorem Respun.ident {r : Nat} {f f' : Flit} (h : Respun net r f f') : f'.ident = f.ident := by
  rw [h.eq]
  rfl

theorem Carried.ident {x y : Place} {f f' : Flit} (h : Carried net c x y f f') :
    f'.ident = f.ident := by
  cases h with
  | receive _ _ _ harr =>
    obtain ⟨g, hg, rfl⟩ := harr
    exact hg.ident
  | mark _ _ hmark => cases hmark <;> rfl
  | _ => rfl

theorem Move.conserves (hc : Wf net c) (h : Move net op c t) : ∃ made, Conserves net made c t := by
  have ht := hc.move h
  cases h.flow with
  | still heq hptr =>
    refine ⟨[], .of_eq hptr fun q => ?_⟩
    unfold copies
    rw [heq]
  | carry hmoved hcarried hptr =>
    refine ⟨[], .of_eq hptr fun q => ?_⟩
    obtain ⟨_, hx, hy⟩ := id hmoved
    have htotal := hmoved.total (w := fun _ f => (q f.ident).toNat) (hc.flits _ _ hx.mem).1
      (ht.flits _ _ hy.mem).1
    rw [hcarried.ident] at htotal
    exact add_right_cancel htotal
  | @make n v vnet dest hn hv hdest _ hmade hptr =>
    refine ⟨[newFlit c.nextPtr 0 v vnet (messageRoute net n vnet dest) 1 c.curCycle],
      ⟨?_, rfl, hptr, fun q => ?_⟩⟩
    · exact forall_mem_singleton.mpr ⟨n, hn, v, vnet, c.curCycle, dest, hdest, rfl⟩
    · unfold copies
      rw [hmade.total_eq (ht.flits _ _ hmade.mem).1, countP_singleton]
      cases q _ <;> rfl

theorem Spun.moves_on (h : Spun net vc c t) (hc : Wf net c) {i : Nat} (hi : i < net.ringSize) :
    ((c.vcs (net.ringLink i) vc).inputBuffer = [] ∧
      (t.vcs (net.ringLink (i + 1)) vc).inputBuffer = []) ∨
    ∃ f f', (c.vcs (net.ringLink i) vc).inputBuffer = [f] ∧
      (t.vcs (net.ringLink (i + 1)) vc).inputBuffer = [f'] ∧
      Respun net (net.dstRouter (net.ringLink (i + 1))) f f' := by
  have hempty := ((hc.vcOk (net.ringLink (i + 1)) vc).removed (c := c.linkVc _ vc) c.curCycle).1
  have hplaced := h.channels.done i hi
  unfold flitAt at hplaced
  rcases hc.vcOk (net.ringLink i) vc with ⟨hbuf, _⟩ | ⟨f, hbuf, _⟩
  · rw [hbuf] at hplaced
    have heq : t.linkVc (net.ringLink (i + 1)) vc = _ := hplaced
    exact .inl ⟨hbuf, (congrArg (fun p : LinkVc => p.1.inputBuffer) heq).trans hempty⟩
  · rw [hbuf] at hplaced
    obtain ⟨f', hf', heq⟩ := hplaced
    refine .inr ⟨f, f', hbuf, ?_, hf'⟩
    refine (congrArg (fun p : LinkVc => p.1.inputBuffer) heq).trans ?_
    change bufferInsert f' _ = _
    rw [hempty]
    rfl

/-- What a drain does to the flits of one position of the ring at a time. -/
theorem Spun.forall_flits {P : Place → Flit → Prop} (h : Spun net vc c t) (hc : Wf net c)
    (hall : c.AllFlits P)
    (hmoved : ∀ i < net.ringSize, ∀ f ∈ (c.vcs (net.ringLink i) vc).inputBuffer,
      ∀ f', Respun net (net.dstRouter (net.ringLink (i + 1))) f f' →
        P (.vc (net.ringLink (i + 1)) vc) f') (l : Link) (v : Nat) :
    ∀ f ∈ (t.vcs l v).inputBuffer, P (.vc l v) f := by
  intro f hf
  by_cases hposition : v = vc ∧ ∃ i < net.ringSize, l = net.ringLink (i + 1)
  · obtain ⟨rfl, i, hi, rfl⟩ := hposition
    rcases h.moves_on hc hi with ⟨-, hbuf'⟩ | ⟨f₀, f', hbuf, hbuf', hrespun⟩
    · rw [hbuf'] at hf
      cases hf
    rw [hbuf'] at hf
    obtain rfl := mem_singleton.mp hf
    exact hmoved i hi f₀ (hbuf ▸ mem_cons_self) f hrespun
  · have hrest := h.channels.rest l v fun hv i hi hl => hposition ⟨hv, i, hi, hl⟩
    have hsame : (t.vcs l v).inputBuffer = (c.vcs l v).inputBuffer :=
      congrArg (fun p : LinkVc => p.1.inputBuffer) hrest
    rw [hsame] at hf
    exact hall (.vc l v) f hf

theorem flitTimesSet_conserves (c : Core) : Conserves net [] c (c.flitTimesSet net) := by
  have hstamped : Stamped net c _ (c.flitTimesSet net) := flitTimesSet_stamped c
  refine .of_eq (congrArg nextPtr hstamped.frame :) fun q => total_congr fun x _ => ?_
  cases x with
  | vc l v =>
    rw [sum_map_toNat, sum_map_toNat]
    change ((c.flitTimesSet net).vcs l v).inputBuffer.countP _ = (c.vcs l v).inputBuffer.countP _
    rcases hstamped.vcs l v with heq | heq
    · rw [heq]
    · rw [heq]
      unfold VirtualChannel.mapTop
      cases (c.vcs l v).inputBuffer with
      | nil => rfl
      | cons f rest =>
        simp only [modifyHead_cons, countP_cons]
        rfl
  | _ =>
    rw [hstamped.frame]
    rfl

theorem conserves_stepInv (c₀ : Core) :
    StepInv net fun c => ∃ made, Conserves net made c₀ c where
  data := by
    rintro c t ⟨made, h⟩ hsame
    refine ⟨made ++ [], h.trans (.of_eq (congrArg nextPtr hsame :) fun q => ?_)⟩
    unfold copies
    rw [hsame.flitsAt]
  move := by
    rintro op c t hc ⟨made, h⟩ hmove
    obtain ⟨made', h'⟩ := hmove.conserves hc
    exact ⟨made ++ made', h.trans h'⟩
  spin := by
    rintro vc c t _ _ ⟨made, h⟩ hspin
    exact ⟨made ++ [], h.trans (.of_eq (congrArg nextPtr hspin.frame :) hspin.copies)⟩
  stamp := by
    rintro c _ ⟨made, h⟩
    exact ⟨made ++ [], h.trans (flitTimesSet_conserves c)⟩

end Count

/-- The output port of a flit that lies at router `r` is not the `Local` port of another node. -/
def PortHome (net : Net) (r : Nat) (f : Flit) : Prop :=
  ∀ op, (net.outports r)[f.outport]? = some op → ∀ n, op.link = .extOut n → n = f.route.destNi

/-- A flit for a node goes to that node only. -/
def Homeward (net : Net) : Place → Flit → Prop
  | .vc l _, f => PortHome net (net.dstRouter l) f
  | .switch r _, f => PortHome net r f
  | .out l, f => ∀ n, l = .extOut n → n = f.route.destNi
  | .link l, f => ∀ n, l = .extOut n → n = f.route.destNi
  | .stall n, f => n = f.route.destNi
  | .niVc _ _, _ => True
  | .delivered, _ => True

section Destination

variable {net : Net} {r : Nat} {f f' : Flit}

theorem Respun.portHome (hn : net.topology.Connected) (htable : net.routingAlgorithm = .table)
    (hr : r < net.numRouters) (hf : FlitWf net f) (h : Respun net r f f') : PortHome net r f' := by
  intro op hop n hl
  obtain ⟨op', hop', hmatch, _⟩ := mem_outputLinkCandidates.mp (h.table (.inr htable))
  have hopeq : op' = op := Option.some.inj (hop'.symm.trans hop)
  subst hopeq
  have hroute := hf.ok.route
  rw [hroute.netDest, Topology.matchesEntry_singleton] at hmatch
  have hport : op' ∈ net.topology.outports r := net.outports_eq r hr ▸ mem_of_getElem? hop
  rw [h.eq]
  exact hn.eq_of_extOut hr hroute.destNi hport hmatch hl

theorem Marked.portHome {p : InPort} (hr : r < net.numRouters)
    (h : Marked (net.outportsDirn2idx r) p f f') (hf : PortHome net r f) : PortHome net r f' := by
  cases h with
  | note => exact hf
  | deflect _ _ ho hlocal _ =>
    intro op hop n hl
    obtain ⟨op', hop', hd⟩ := outportsDirn2idx_spec ho
    have hopeq : op' = op := Option.some.inj (hop'.symm.trans hop)
    subst hopeq
    rcases outport_cases hr (mem_of_getElem? hop) with ⟨_, _, _, _, hlocal'⟩ | ⟨b, _, hl'⟩
    · exact absurd (hd.symm.trans hlocal') hlocal
    · rw [hl] at hl'
      cases hl'

theorem homeward_flitInvOn (hring : net.RingOk) (hn : net.topology.Connected)
    (htable : net.routingAlgorithm = .table) :
    FlitInvOn net (· = net.outportsDirn2idx) (Homeward net) where
  dirns_move := by
    intro op c t hmove hD
    cases hmove with
    | receive _ _ _ _ _ _ _ hsame => split <;> exact (hsame htable).trans hD
    | _ => exact hD
  dirns_spin := fun hspin hD => ((hspin.spun hring).same htable).trans hD
  carried := by
    intro c x y f f' hc hD hf hcarried hx
    have hwf := (hc.flits x f hf).2.1
    cases hcarried with
    | receive hr hp _ harr =>
      obtain ⟨g, hg, rfl⟩ := harr
      change PortHome net _ g
      rw [(inport_mem_links hr hp).2.1]
      exact hg.portHome hn htable hr hwf
    | mark hr hp hmark =>
      change PortHome net _ _ at hx ⊢
      rw [(inport_mem_links hr hp).2.1] at hx ⊢
      exact Marked.portHome hr (hD ▸ hmark) hx
    | grant _ hr hp _ hport =>
      change PortHome net _ _ at hx ⊢
      rw [(inport_mem_links hr (mem_of_getElem? hp)).2.1] at hx
      intro op hop
      exact hx op (hport ▸ hop)
    | cross hr hop => exact hx _ hop
    | send => exact fun n hl => nomatch hl
    | link => exact hx
    | stall => exact hx _ rfl
    | deliver => trivial
    | unstall => trivial
  made := fun _ _ _ _ _ _ => trivial
  spun := by
    refine fun hc hspin hall => (hspin.spun hring).forall_flits hc hall fun i hi f hf f' hrespun => ?_
    obtain ⟨_, a, b, d, _, hentry, hl⟩ := hring.entry_succ hi
    have hlt : net.dstRouter (net.ringLink (i + 1)) < net.numRouters := by
      rw [hl]
      exact hentry.hasLink.lt.2
    exact hrespun.portHome hn htable hlt (hc.flits (.vc _ _) f hf).2.1
  delayed := fun _ h => h

def DeliveredHome (c : Core) : Prop :=
  ∀ d ∈ c.delivered, d.node = d.flit.route.destNi ∧ d.vnet = d.flit.vnet

theorem deliveredHome_stepInv (hring : net.RingOk) (hn : net.topology.Connected)
    (htable : net.routingAlgorithm = .table) : StepInv net fun c =>
      (c.outportsDirn2idx = net.outportsDirn2idx ∧ c.AllFlits (Homeward net)) ∧ DeliveredHome c where
  data := by
    rintro c t ⟨h, hd⟩ hsame
    refine ⟨(homeward_flitInvOn hring hn htable).stepInv.data h hsame, ?_⟩
    rw [hsame]
    exact hd
  move := by
    rintro op c t hc ⟨h, hd⟩ hmove
    refine ⟨(homeward_flitInvOn hring hn htable).stepInv.move hc h hmove, ?_⟩
    cases hmove with
    | receive => split <;> exact hd
    | @deliver _ n f rest _ hbuf _ =>
      refine forall_mem_cons.mpr ⟨⟨?_, rfl⟩, hd⟩
      exact h.2 (.link (.extOut n)) f (by simp [flitsAt, hbuf]) n rfl
    | @unstall _ n f pre post _ hbuf =>
      refine forall_mem_cons.mpr ⟨⟨?_, rfl⟩, hd⟩
      exact h.2 (.stall n) f (by simp [flitsAt, hbuf])
    | _ => exact hd
  spin := by
    rintro vc c t hc hvc ⟨h, hd⟩ hspin
    refine ⟨(homeward_flitInvOn hring hn htable).stepInv.spin hc hvc h hspin, ?_⟩
    rw [hspin.frame]
    exact hd
  stamp := by
    rintro c hc ⟨h, hd⟩
    refine ⟨(homeward_flitInvOn hring hn htable).stepInv.stamp hc h, ?_⟩
    rw [(flitTimesSet_stamped c).frame]
    exact hd

end Destination

section Runs

variable {net : Net} {s s' : State}

theorem copies_init (net : Net) (random : Nat → Nat) (q : Nat × Nat × Nat → Bool) :
    (init net random).toCore.copies net q = 0 := by
  unfold copies total
  refine Finset.sum_eq_zero fun x _ => ?_
  cases x <;> rfl

theorem State.FreeReachable.made (h : s.FreeReachable net) : ∃ made : List Flit,
    (∀ f ∈ made, Created net f) ∧ made.map ptr = range s.nextPtr ∧
      ∀ q, s.copies net q = made.countP fun f => q f.ident := by
  obtain ⟨random, hrun⟩ := h
  obtain ⟨made, hmade⟩ := (conserves_stepInv (init net random).toCore).runs
    ⟨random, .refl⟩ ⟨[], .of_eq rfl fun _ => rfl⟩ hrun
  have hlength : s.nextPtr = made.length := hmade.nextPtr.trans (zero_add _)
  refine ⟨made, hmade.created, ?_, fun q => ?_⟩
  · rw [hmade.ptrs, hlength, range_eq_range']
    rfl
  · rw [hmade.copies, copies_init, zero_add]

theorem copies_pos {q : Nat × Nat × Nat → Bool} {c : Core} (hc : Wf net c) :
    0 < c.copies net q ↔ ∃ x, ∃ f ∈ c.flitsAt x, q f.ident = true := by
  constructor
  · intro hpos
    unfold copies total at hpos
    obtain ⟨x, _, hne⟩ := Finset.exists_ne_zero_of_sum_ne_zero hpos.ne'
    rw [sum_map_toNat] at hne
    obtain ⟨f, hf, hq⟩ := countP_pos_iff.mp (pos_of_ne_zero hne)
    exact ⟨x, f, hf, hq⟩
  · rintro ⟨x, f, hf, hq⟩
    have hle := sum_le_total (w := fun _ f => (q f.ident).toNat) (c := c.flitsAt) (hc.flits x f hf).1
    rw [sum_map_toNat] at hle
    exact (countP_pos_iff.mpr ⟨f, hf, hq⟩).trans_le hle

theorem copies_ptr {made : List Flit} (hptrs : made.map ptr = range s.nextPtr)
    (hcopies : ∀ q, s.copies net q = made.countP fun f => q f.ident) {f : Flit} (hf : f ∈ made) :
    s.copies net (fun k => k.1 == f.ptr) = 1 := by
  have hnodup : (made.map ptr).Nodup := hptrs ▸ nodup_range
  have hcount := count_eq_one_of_mem hnodup (mem_map_of_mem hf)
  rw [hcopies, ← hcount, count, countP_map]
  rfl

theorem State.FreeReachable.ptrs_nodup (h : s.FreeReachable net) {xs : List Place} (hxs : xs.Nodup)
    (hsub : ∀ x ∈ xs, x ∈ net.places) : ((xs.flatMap s.flitsAt).map ptr).Nodup ∧
      ∀ f ∈ xs.flatMap s.flitsAt, f.ptr < s.nextPtr := by
  obtain ⟨made, _, hptrs, hcopies⟩ := h.made
  have hcount (p : Nat) : ((xs.flatMap s.flitsAt).map ptr).count p ≤
      (range s.nextPtr).count p := by
    calc ((xs.flatMap s.flitsAt).map ptr).count p
        = ∑ x ∈ xs.toFinset, ((s.flitsAt x).map ptr).count p := by
          rw [map_flatMap, count_flatMap, sum_toFinset _ hxs]
          rfl
      _ ≤ ∑ x ∈ net.places, ((s.flitsAt x).map ptr).count p :=
          Finset.sum_le_sum_of_subset fun x hx => hsub x (mem_toFinset.mp hx)
      _ = s.copies net fun k => k.1 == p := by
          refine Finset.sum_congr rfl fun x _ => ?_
          rw [sum_map_toNat, count, countP_map]
          rfl
      _ = (range s.nextPtr).count p := by
          rw [hcopies, ← hptrs, count, countP_map]
          rfl
  refine ⟨nodup_iff_count_le_one.mpr fun p => ?_, fun f hf => ?_⟩
  · exact (hcount p).trans (nodup_iff_count_le_one.mp nodup_range p)
  · have hpos := (count_pos_iff.mpr (mem_map_of_mem hf)).trans_le (hcount f.ptr)
    exact mem_range.mp (count_pos_iff.mp hpos)

/-- Every flit that has been made is in one buffer or has been delivered once, and nothing else is
anywhere; what has been delivered, has been delivered at its destination and into the buffer of
its virtual network. However the run goes on, no flit gets lost or becomes another. -/
theorem flits_conserved (hring : net.RingOk) (hn : net.topology.Connected)
    (htable : net.routingAlgorithm = .table) (h : s.FreeReachable net) :
    (∃ made : List Flit, (∀ f ∈ made, Created net f) ∧ made.map ptr = range s.nextPtr ∧
      (∀ f ∈ made, ∃ x, ((s.flitsAt x).filter (·.ptr == f.ptr)).map ident = [f.ident] ∧
        ∀ y ≠ x, ∀ g ∈ s.flitsAt y, g.ptr ≠ f.ptr) ∧
      ∀ x, ∀ g ∈ s.flitsAt x, ∃ f ∈ made, g.ident = f.ident) ∧
    (∀ d ∈ s.delivered, d.node = d.flit.route.destNi ∧ d.vnet = d.flit.vnet) ∧
    ∀ s', Relation.ReflTransGen (State.FreeStep net) s s' → ∀ x, ∀ f ∈ s.flitsAt x,
      ∃ y, ∃ g ∈ s'.flitsAt y, g.ident = f.ident := by
  have hwf := h.wf.1
  refine ⟨?_, ?_, fun s' hrun x f hf => ?_⟩
  · obtain ⟨made, hcreated, hptrs, hcopies⟩ := h.made
    refine ⟨made, hcreated, hptrs, fun f hf => ?_, fun x g hg => ?_⟩
    · obtain ⟨x, _, hone, hzero⟩ := exists_place_of_total_eq_one (copies_ptr hptrs hcopies hf)
      rw [sum_map_toNat] at hone
      have hother : ∀ y ≠ x, ∀ g ∈ s.flitsAt y, g.ptr ≠ f.ptr := by
        intro y hy g hg heq
        have := hzero y (hwf.flits y g hg).1 hy
        rw [sum_map_toNat] at this
        exact absurd (countP_eq_zero.mp this g hg) (by simp [ident, heq])
      refine ⟨x, ?_, hother⟩
      -- the one flit with the pointer is the flit with the identity
      have hpos : 0 < s.copies net fun k => k == f.ident := by
        rw [hcopies]
        exact countP_pos_iff.mpr ⟨f, hf, by simp⟩
      obtain ⟨y, g, hg, hident⟩ := (copies_pos hwf).mp hpos
      have hident : g.ident = f.ident := by simpa using hident
      have hptr : g.ptr = f.ptr := congrArg Prod.fst hident
      obtain rfl : y = x := by
        by_contra hne
        exact hother y hne g hg hptr
      obtain ⟨g', hg'⟩ := length_eq_one_iff.mp (countP_eq_length_filter.symm.trans hone)
      have hmem : g ∈ (s.flitsAt y).filter (·.ptr == f.ptr) := mem_filter.mpr ⟨hg, by simp [hptr]⟩
      change (s.flitsAt y).filter (·.ptr == f.ptr) = [g'] at hg'
      rw [hg'] at hmem ⊢
      rw [← mem_singleton.mp hmem, map_singleton, hident]
    · have hpos := (copies_pos (q := fun k => k == g.ident) hwf).mpr ⟨x, g, hg, by simp⟩
      rw [hcopies] at hpos
      obtain ⟨f, hf, hident⟩ := countP_pos_iff.mp hpos
      exact ⟨f, hf, (beq_iff_eq.mp hident).symm⟩
  · exact ((deliveredHome_stepInv hring hn htable).reachable h fun _ =>
      ⟨⟨rfl, fun x f hf => by cases x <;> cases hf⟩, fun d hd => absurd hd not_mem_nil⟩).2
  · obtain ⟨made, hmade⟩ := (conserves_stepInv s.toCore).runs h
      ⟨[], .of_eq rfl fun _ => rfl⟩ hrun
    have hpos := (copies_pos (q := fun k => k == f.ident) hwf).mpr ⟨x, f, hf, by simp⟩
    obtain ⟨random, hinit⟩ := h
    have hs' : s'.FreeReachable net := ⟨random, hinit.trans hrun⟩
    have hpos' : 0 < s'.copies net fun k => k == f.ident := by
      rw [hmade.copies]
      omega
    obtain ⟨y, g, hg, hident⟩ := (copies_pos hs'.wf.1).mp hpos'
    exact ⟨y, g, hg, by simpa using hident⟩

end Runs

/-- A flit arrives at router 1 when the network halts, is drained back to router 0, and is delivered
in cycle 17. -/
def drainedActions : List Action :=
  [.message 0 0 ⟨[1], 4⟩, .tick, .tick, .tick, .tick, .ni 0 fun _ => true, .tick, .link (.extIn 0),
    .tick, .router 0, .tick, .link (.int 0 1), .creditLink (.extIn 0), .tick, .router 1,
    .ni 0 fun _ => true, .tick, .router 1, .tick, .router 1, .tick, .router 0, .router 1, .tick, .tick,
    .router 0, .router 1, .tick, .link (.int 0 1), .creditLink (.int 1 0), .tick, .router 1, .tick,
    .link (.extOut 1), .creditLink (.int 0 1), .tick, .router 0, .ni 1 fun _ => true]

theorem drainedActions_run : ∃ s : State, s.Reachable (pairNet 1 8) ∧
    s.drainLog = [11] ∧ s.nextPtr = 1 ∧ s.delivered.map (fun d => (d.node, d.flit.ptr)) = [(1, 0)] :=
  exists_reachable drainedActions (fun _ => 0) (by decide +kernel)

theorem flits_conserved_pairNet : ∃ s : State,
    s.FreeReachable (pairNet 1 8) ∧ s.drainLog = [11] ∧
    s.delivered.map (fun d => (d.node, d.flit.ptr)) = [(1, 0)] ∧
    (∀ d ∈ s.delivered, d.node = d.flit.route.destNi ∧ d.vnet = d.flit.vnet) ∧
    ∃ made : List Flit, made.map ptr = [0] ∧
      ∀ f ∈ made, ∃ x, ((s.flitsAt x).filter (·.ptr == f.ptr)).map ident = [f.ident] ∧
        ∀ y ≠ x, ∀ g ∈ s.flitsAt y, g.ptr ≠ f.ptr := by
  obtain ⟨s, hreach, hdrain, hptr, hdelivered⟩ := drainedActions_run
  obtain ⟨⟨made, _, hptrs, hplaced, _⟩, hhome, _⟩ :=
    flits_conserved pairNet_ringOk Topology.pair_connected rfl hreach.free
  rw [hptr] at hptrs
  exact ⟨s, hreach.free, hdrain, hdelivered, hhome, made, hptrs, hplaced⟩

end Drain
