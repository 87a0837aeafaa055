import Drain.IrregularMesh
import Drain.MeshRouting

/-! What route computation chooses: the dependence of table routing on the state of
the output VCs, and the ports found for the directions of the other algorithms on
full and on irregular meshes. -/

namespace Drain

open List State Core Net Topology IrregularMeshXY

section Table

variable {net : Net} {r o : Nat} {route : RouteInfo}

def idleOnly (net : Net) (l : Link) : Core :=
  { (init net fun _ => 0).toCore with
    outvcState := fun l' vc =>
      if l' = l then .new (net.maxCreditCount vc)
      else (OutVcState.new (net.maxCreditCount vc)).setState .active 0 }

theorem getNumFreeVCs_idleOnly (net : Net) (l l' : Link) (vnet : Nat) :
    (idleOnly net l).getNumFreeVCs net l' vnet = if l' = l then net.vcsPerVnet else 0 := by
  unfold getNumFreeVCs isVcIdle idleOnly
  by_cases h : l' = l
  · simp [h, OutVcState.new, OutVcState.isInState]
  · simp [h, OutVcState.new, OutVcState.isInState, OutVcState.setState]

theorem exists_lookupTable (hr : r < net.numRouters)
    (ho : o ∈ outputLinkCandidates (net.outports r) route.netDest) :
    ∃ s : Core, s.lookupTable net r route = .ok o := by
  obtain ⟨p, hp, _, _⟩ := mem_outputLinkCandidates.mp ho
  refine ⟨idleOnly net p.link, lookupRoutingTable_eq ho fun o' hne => ?_⟩
  have hlink : ∀ q, (net.outports r)[o']? = some q → q.link ≠ p.link := by
    intro q hq hsame
    have hnd := net.outports_link_nodup hr
    have ho' : ((net.outports r).map OutPort.link)[o']? = some p.link := by simp [hq, hsame]
    have ho : ((net.outports r).map OutPort.link)[o]? = some p.link := by simp [hp]
    exact hne ((List.getElem?_inj (List.getElem?_eq_some_iff.mp ho').1 hnd).mp (ho'.trans ho.symm))
  have hpos := net.vcsPerVnet_pos
  cases hq : (net.outports r)[o']? with
  | none => simpa [hp, getNumFreeVCs_idleOnly] using hpos
  | some q => simpa [hp, hlink q hq, getNumFreeVCs_idleOnly] using hpos

/-- The route to a destination depends on the state of the output VCs exactly when
several ports of least weight lead to it. Ordered virtual networks are no exception. -/
theorem lookupTable_const_iff (hr : r < net.numRouters) :
    (∀ s s' : Core, s.lookupTable net r route = s'.lookupTable net r route) ↔
      (outputLinkCandidates (net.outports r) route.netDest).length ≤ 1 := by
  constructor
  · intro hconst
    by_contra hlen
    obtain ⟨c, c', cs, hc⟩ : ∃ c c' cs,
        outputLinkCandidates (net.outports r) route.netDest = c :: c' :: cs := by
      match outputLinkCandidates (net.outports r) route.netDest, hlen with
      | c :: c' :: cs, _ => exact ⟨c, c', cs, rfl⟩
      | [], h => exact absurd (Nat.zero_le 1) h
      | [_], h => exact absurd le_rfl h
    have hne : c ≠ c' := by
      have hnd := nodup_outputLinkCandidates (net.outports r) route.netDest
      rw [hc] at hnd
      exact fun h => (nodup_cons.mp hnd).1 (h ▸ mem_cons_self)
    obtain ⟨s, hs⟩ := exists_lookupTable hr
      (show c ∈ outputLinkCandidates (net.outports r) route.netDest by simp [hc])
    obtain ⟨s', hs'⟩ := exists_lookupTable hr
      (show c' ∈ outputLinkCandidates (net.outports r) route.netDest by simp [hc])
    have hsame := hconst s s'
    rw [hs, hs'] at hsame
    exact hne (Except.ok.inj hsame)
  · intro hlen s s'
    unfold lookupTable lookupRoutingTable lookupRoutingTablePrefOutport
    cases hc : outputLinkCandidates (net.outports r) route.netDest with
    | nil => rfl
    | cons c cs =>
      rw [hc, length_cons] at hlen
      have hcs : cs = [] := eq_nil_of_length_eq_zero (by omega)
      rw [hcs]
      rfl

def squareConf : ConfFile := ⟨2, 2, [[0, 1, 1, 0], [1, 0, 0, 1], [1, 0, 0, 1], [0, 1, 1, 0]]⟩

theorem squareConf_topology :
    ∃ m t, makeTopology 4 2 squareNodes squareConf = .ok m ∧
      m.topology = some t ∧ t.numRouters = 4 ∧
      outputLinkCandidates (t.outports 0) [3] = [1, 2] :=
  MadeLinks.exists_topology (by decide +kernel)

/-- With all links present a flit in an ordered virtual network goes east or north,
depending on the output VCs. -/
theorem lookupTable_varies_square :
    ∃ (m : MadeLinks) (net : Net), makeTopology 4 2 squareNodes squareConf = .ok m ∧
      m.topology = some net.topology ∧ net.isVNetOrdered 0 = true ∧
      ∃ s s' : Core, s.lookupTable net 0 ⟨0, [3], 0, 0, 3, 3, 0⟩ = .ok 1 ∧
        s'.lookupTable net 0 ⟨0, [3], 0, 0, 3, 3, 0⟩ = .ok 2 := by
  obtain ⟨m, t, hmake, ht, hrouters, hcand⟩ := squareConf_topology
  have hpos : 0 < t.numRouters := by omega
  let net := gridNet .table (show 2 * (4 / 2) = t.numRouters by omega) hpos
    (topology_grid hmake ht)
  have hchosen : ∀ o ∈ [1, 2], ∃ s : Core, s.lookupTable net 0 ⟨0, [3], 0, 0, 3, 3, 0⟩ = .ok o :=
    fun o ho => exists_lookupTable hpos (show o ∈ outputLinkCandidates (t.outports 0) [3] from hcand ▸ ho)
  obtain ⟨s, hs⟩ := hchosen 1 (by decide)
  obtain ⟨s', hs'⟩ := hchosen 2 (by decide)
  exact ⟨m, net, hmake, ht, rfl, s, s', hs, hs'⟩

/-- On the mesh of two routers there is one way only. -/
theorem lookupTable_const_pairNet :
    let net := pairNet 1 4
    (outputLinkCandidates (net.outports 0) [1]).length ≤ 1 ∧
      ∀ s s' : Core, s.lookupTable net 0 ⟨0, [1], 0, 0, 1, 1, 0⟩ =
        s'.lookupTable net 0 ⟨0, [1], 0, 0, 1, 1, 0⟩ :=
  ⟨by decide, (lookupTable_const_iff (by decide)).mpr (by decide)⟩

end Table

/-- The five algorithms that compute a direction, each with that computation. -/
inductive Directed : OutportCompute → (Net → Nat → Nat → State → Except Failure PortDirection) → Prop
  | xy : Directed (fun net r route s => s.outportComputeXY net r route)
      (fun net r dest _ => directionXY net r dest)
  | random : Directed (fun net r route s => s.outportComputeRandom net r route)
      (fun net r dest s => directionRandom net r dest s.rand)
  | adaptRand : Directed (fun net r route s => s.outportComputeAdaptRand net r route)
      (fun net r dest s => s.directionAdaptRand net r dest s.rand)
  | westFirst : Directed (fun net r route s => s.outportComputeWestFirst net r route)
      (fun net r dest s => directionWestFirst net r dest s.rand)
  | adaptWestFirst : Directed (fun net r route s => s.outportComputeAdaptWestFirst net r route)
      (fun net r dest s => s.directionAdaptWestFirst net r dest s.rand)

section Directions

variable {compute : OutportCompute}
  {direction : Net → Nat → Nat → State → Except Failure PortDirection} {net : Net} {r dest : Nat}
  {route : RouteInfo} {s : State} {d : PortDirection}

theorem Directed.compute_eq (h : Directed compute direction) (net : Net) (r : Nat)
    (route : RouteInfo) (s : State) :
    ∃ s' : State, s'.outportsDirn2idx = s.outportsDirn2idx ∧ compute net r route s =
      direction net r route.destRouter s >>= fun d => pure (s'.outportIdx r d) := by
  cases h with
  | xy => exact ⟨s, rfl, rfl⟩
  | westFirst | adaptWestFirst => exact ⟨s.skipRandom, rfl, rfl⟩
  | random | adaptRand =>
    by_cases hstraight : noXHops net.numCols r route.destRouter ∨ noYHops net.numCols r route.destRouter
    · refine ⟨s, rfl, ?_⟩
      simp only [outportComputeRandom, outportComputeAdaptRand, hstraight, if_true]
    · refine ⟨s.skipRandom, rfl, ?_⟩
      simp only [outportComputeRandom, outportComputeAdaptRand, hstraight, if_false]

theorem directionOr_productive {choice : Except Failure PortDirection} (hne : dest ≠ r)
    (h : ¬noXHops net.numCols r dest → ¬noYHops net.numCols r dest →
      Holds choice (between productiveMove net.numCols r dest) fun _ => False) :
    Holds (directionOr net r dest choice) (between productiveMove net.numCols r dest)
      fun _ => False := by
  have hhops : ¬(noXHops net.numCols r dest ∧ noYHops net.numCols r dest) := not_noHops hne
  simp only [directionOr, holds_bind, holds_require, holds_ite, holds_pure]
  refine ⟨fun _ => ⟨fun hx => ?_, fun hx => ⟨fun _ => productive_xDirn hx, h hx⟩⟩, fun hno => hno hhops⟩
  exact productive_yDirn fun hy => hhops ⟨hx, hy⟩

theorem freerDirection_productive (hf : net.FullMesh) (hr : r < net.numRouters)
    (hd : dest < net.numRouters) {rand : Bool} {dx dy : PortDirection}
    (hx : between productiveMove net.numCols r dest dx)
    (hy : between productiveMove net.numCols r dest dy) :
    Holds (s.freerDirection net r dx dy rand) (between productiveMove net.numCols r dest)
      fun _ => False := by
  obtain ⟨b, hb⟩ := hasLink_of_productive hf hr hd hx
  obtain ⟨b', hb'⟩ := hasLink_of_productive hf hr hd hy
  refine ((freerDirection_total hf hb hb').and freerDirection_choice).mono (fun d _ h => ?_) (fun _ _ h => h.1)
  rcases h.2 with rfl | rfl
  · exact hx
  · exact hy

theorem Directed.productive (h : Directed compute direction) (hf : net.FullMesh)
    (hr : r < net.numRouters) (hd : dest < net.numRouters) (hne : dest ≠ r) (s : State) :
    Holds (direction net r dest s) (between productiveMove net.numCols r dest) fun _ => False := by
  cases h with
  | xy =>
    exact ((directionXY_total hne).and directionXY_move).mono (fun _ _ h => h.2.productive)
      fun _ _ h => h.1
  | random =>
    refine directionOr_productive hne fun hx hy => ?_
    rw [holds_pure]
    split
    · exact productive_xDirn hx
    · exact productive_yDirn hy
  | adaptRand =>
    exact directionOr_productive hne fun hx hy =>
      freerDirection_productive hf hr hd (productive_xDirn hx) (productive_yDirn hy)
  | westFirst =>
    refine directionOr_productive hne fun hx hy => ?_
    have hprod := productive_xDirn hx
    split
    · next hw => exact hw ▸ hprod
    · next hw =>
      rw [xDirn_of_not_west hw] at hprod
      rw [holds_pure]
      split
      · exact hprod
      · exact productive_yDirn hy
  | adaptWestFirst =>
    refine directionOr_productive hne fun hx hy => ?_
    have hprod := productive_xDirn hx
    split
    · next hw => exact hw ▸ hprod
    · next hw =>
      rw [xDirn_of_not_west hw] at hprod
      exact freerDirection_productive hf hr hd hprod (productive_yDirn hy)

end Directions

section FullMesh

variable {compute : OutportCompute}
  {direction : Net → Nat → Nat → State → Except Failure PortDirection} {net : Net} {r b dest : Nat}
  {route : RouteInfo} {s : State} {d : PortDirection}

theorem getUpstreamId_of_gridStep (h : gridStep net.numCols r d b) :
    net.getUpstreamId d r = .ok (b : Int) := by
  cases d <;> simp only [gridStep] at h
  · exact congrArg Except.ok (by omega)
  · exact congrArg Except.ok (by omega)
  · exact congrArg Except.ok (by omega)
  · exact congrArg Except.ok (by omega)

theorem computeHopsRemaining_step (h : gridStep net.numCols r d b)
    (hprod : between productiveMove net.numCols r dest d) :
    net.computeHopsRemaining b dest + 1 = net.computeHopsRemaining r dest := by
  have hstep := gridStep_coordStep net.numCols_pos h
  unfold computeHopsRemaining
  cases d <;> simp only [coordStep, between, productiveMove] at hstep hprod <;> omega

/-- On a full mesh every one of the five algorithms returns a port to a neighbour
inside the mesh that is one hop closer to the destination. -/
theorem mesh_route_one_hop_closer (h : Directed compute direction) (hf : net.FullMesh)
    (hr : r < net.numRouters) (hd : route.destRouter < net.numRouters) (hne : route.destRouter ≠ r)
    (hs : DirnOk net s.outportsDirn2idx) :
    ∃ o s' p b, compute net r route s = .ok (o, s') ∧ (net.outports r)[o]? = some p ∧
      p.link = .int r b ∧ net.getUpstreamId p.dirn r = .ok (b : Int) ∧ b < net.numRouters ∧
      net.computeHopsRemaining b route.destRouter + 1 = net.computeHopsRemaining r route.destRouter := by
  obtain ⟨d, hdir, hprod⟩ := (h.productive hf hr hd hne s).exists_ok
  obtain ⟨s', hs', hcompute⟩ := h.compute_eq net r route s
  obtain ⟨b, hlink⟩ := hasLink_of_productive hf hr hd hprod
  obtain ⟨o, p, hidx, hp, hpl⟩ := outportIdx_of_hasLink (hs'.symm ▸ hs) hlink
  have hdirn : p.dirn = d := by
    rcases outport_cases hr (mem_of_getElem? hp) with ⟨n, _, _, hext, _⟩ | ⟨b', hlink', hint⟩
    · rw [hext] at hpl
      cases hpl
    · rw [hint] at hpl
      cases hpl
      exact gridStep_dirn_unique net.numCols_pos hlink'.gridStep hlink.gridStep
  refine ⟨o, s', p, b, ?_, hp, hpl, ?_, hlink.lt.2, computeHopsRemaining_step hlink.gridStep hprod⟩
  · rw [hcompute, hdir, ok_bind, hidx]
    rfl
  · rw [hdirn]
    exact getUpstreamId_of_gridStep hlink.gridStep

theorem mesh_route_one_hop_closer_squareNet :
    ∃ o s' p b, outportComputeAdaptRand squareNet 0 ⟨0, [1], 0, 0, 1, 3, 0⟩
        (.init squareNet fun _ => 0) = .ok (o, s') ∧
      (squareNet.outports 0)[o]? = some p ∧ p.link = .int 0 b ∧
      squareNet.getUpstreamId p.dirn 0 = .ok (b : Int) ∧ b < squareNet.numRouters ∧
      squareNet.computeHopsRemaining b 3 + 1 = squareNet.computeHopsRemaining 0 3 :=
  mesh_route_one_hop_closer .adaptRand squareNet_fullMesh (by decide) (by decide) (by decide) ⟨id, .inl⟩

end FullMesh

section Irregular

variable {net : Net} {r dest : Nat} {route : RouteInfo} {s : State} {d : PortDirection}

theorem xDirn_ne_local {numCols : Nat} : xDirn numCols r dest ≠ .Local := by
  unfold xDirn
  split <;> exact nofun

theorem yDirn_ne_local {numCols : Nat} : yDirn numCols r dest ≠ .Local := by
  unfold yDirn
  split <;> exact nofun

theorem directionOr_ne_local {choice : Except Failure PortDirection}
    (h : Holds choice (· ≠ .Local) fun _ => True) :
    Holds (directionOr net r dest choice) (· ≠ .Local) fun _ => True := by
  simp only [directionOr, holds_bind, holds_require, holds_ite, holds_pure]
  exact ⟨fun _ => ⟨fun _ => yDirn_ne_local, fun _ => ⟨fun _ => xDirn_ne_local, fun _ => h⟩⟩,
    fun _ => trivial⟩

theorem directionOf_ne_local {direction : Except Failure PortDirection}
    (h : directionOf net r dest s = some direction) :
    Holds direction (· ≠ .Local) fun _ => True := by
  have hx : xDirn net.numCols r dest ≠ .Local := xDirn_ne_local
  have hy : yDirn net.numCols r dest ≠ .Local := yDirn_ne_local
  unfold directionOf at h
  split at h <;> cases h
  · refine directionXY_move.imp fun d hd => ?_
    rintro rfl
    exact hd
  · refine directionOr_ne_local ?_
    rw [holds_pure]
    split
    · exact hx
    · exact hy
  · refine directionOr_ne_local (freerDirection_choice.imp fun d hd => ?_)
    rcases hd with rfl | rfl
    · exact hx
    · exact hy
  · refine directionWestFirst_move.imp fun d hd => ?_
    rintro rfl
    exact hd
  · refine directionAdaptWestFirst_move.imp fun d hd => ?_
    rintro rfl
    exact hd

theorem outportComputeTable_leads_on (hc : net.topology.Connected) (hr : r < net.numRouters)
    (hroute : RouteOk net route) :
    Holds (s.outportComputeTable net r route) (fun t => ∃ p, (net.outports r)[t.1]? = some p ∧
      (route.destRouter = r → p.link = .extOut route.destNi) ∧
      (route.destRouter ≠ r → ∃ b, p.link = .int r b)) fun _ => True := by
  unfold outportComputeTable
  rw [holds_bind]
  cases ho : s.lookupTable net r route with
  | error e => trivial
  | ok o =>
    rw [holds_ok, holds_pure]
    obtain ⟨p, hp, hmatch, _⟩ := mem_outputLinkCandidates.mp (mem_of_lookupRoutingTable ho)
    rw [hroute.netDest, matchesEntry_singleton] at hmatch
    have hmem : p ∈ net.topology.outports r := net.outports_eq r hr ▸ mem_of_getElem? hp
    refine ⟨p, hp, fun hhome => ?_, fun hne => ?_⟩
    · have hrouter : r = net.topology.extRouter route.destNi := hhome.symm.trans hroute.destRouter
      subst hrouter
      exact hc.link_eq_extOut hroute.destNi hmem hmatch
    · rcases outport_cases hr (mem_of_getElem? hp) with ⟨n, _, hn, hl, _⟩ | ⟨b, _, hl⟩
      · have hnd := hc.eq_of_extOut hr hroute.destNi hmem hmatch hl
        subst hnd
        exact absurd (hroute.destRouter.trans hn) hne
      · exact ⟨b, hl⟩

/-- Route computation stops with an error or returns the port of the direction that it computes,
which leads to another router, and at the destination the port of the destination's own node, if
and only if that direction has a port. -/
theorem outportCompute_leads_on (hc : net.topology.Connected) (hr : r < net.numRouters)
    (hroute : RouteOk net route) (hs : DirnOk net s.outportsDirn2idx) :
    Holds (s.outportCompute net r route) (fun t => ∃ p, (net.outports r)[t.1]? = some p ∧
      (route.destRouter = r → p.link = .extOut route.destNi) ∧
      (route.destRouter ≠ r → (∃ b, p.link = .int r b) ∧
        ∀ d, directionOf net r route.destRouter s = some (.ok d) → p.dirn = d)) (fun _ => True) ↔
    (route.destRouter ≠ r → ∀ d, directionOf net r route.destRouter s = some (.ok d) →
      (net.outportsDirn2idx r d).isSome) := by
  constructor
  · intro hholds hne d hd
    have hok : Holds (s.outportCompute net r route) (fun _ => True) fun _ => False := by
      refine holds_outportCompute (fun hnone => ?_) (fun hcustom => ?_) fun s' _ hdir _ => ?_
      · cases hd.symm.trans (hnone.resolve_left hne)
      · simp [directionOf, hcustom] at hd
      · cases hd.symm.trans hdir
        trivial
    obtain ⟨t, ht, -⟩ := hok.exists_ok
    obtain ⟨p, hp, -, hon⟩ := hholds.of_ok ht
    rw [← (hon hne).2 d hd, Option.isSome_iff_exists]
    exact exists_outportsDirn2idx (mem_of_getElem? hp)
  intro hport
  refine holds_outportCompute (fun hnone => ?_) (fun _ => trivial) ?_
  · refine (outportComputeTable_leads_on hc hr hroute).imp ?_
    rintro t ⟨p, hp, hown, hon⟩
    refine ⟨p, hp, hown, fun hne => ⟨hon hne, fun d hd => ?_⟩⟩
    rw [hnone.resolve_left hne] at hd
    cases hd
  · intro direction s' hne hdir hs'
    refine (directionOf_ne_local hdir).mono (fun d hd hlocal => ?_) fun _ _ _ => trivial
    rw [hd] at hdir
    obtain ⟨o, ho⟩ := Option.isSome_iff_exists.mp (hport hne d hdir)
    obtain ⟨p, hp, hpd⟩ := outportsDirn2idx_spec ho
    have hidx : s'.outportIdx r d = (o, s') := by
      unfold outportIdx
      rw [show s'.outportsDirn2idx = s.outportsDirn2idx by rw [hs'], hs.port ho]
    rw [hidx]
    refine ⟨p, hp, fun h => absurd h hne, fun _ => ⟨?_, fun d' hd' => ?_⟩⟩
    · rcases outport_cases hr (mem_of_getElem? hp) with ⟨_, _, _, _, hloc⟩ | ⟨b, _, hl⟩
      · exact absurd (hpd.symm.trans hloc) hlocal
      · exact ⟨b, hl⟩
    · rw [hdir] at hd'
      cases hd'
      exact hpd

def gapConf : ConfFile := ⟨2, 2, [[0, 0, 1, 0], [0, 0, 0, 1], [1, 0, 0, 1], [0, 1, 1, 0]]⟩

theorem gapConf_topology :
    ∃ m t, makeTopology 4 2 squareNodes gapConf = .ok m ∧ m.topology = some t ∧
      (t.numRouters = 4 ∧ t.nodes = 4) ∧ t.extRouter 1 = 1 ∧ t.extRouter 2 = 2 ∧
      (t.outports 0).map (fun p => (p.link, p.dirn)) = [(.extOut 0, .Local), (.int 0 2, .North)] ∧
      ∀ r ∈ range 4, ∀ d ∈ range 4,
        t.dist (t.routerSwitch r) (t.nodeSwitch d) < infiniteLatency :=
  MadeLinks.exists_topology (by decide +kernel)

theorem gapConf_net :
    ∃ (m : MadeLinks) (net : Net), makeTopology 4 2 squareNodes gapConf = .ok m ∧
      m.topology = some net.topology ∧ net.topology.Connected ∧ net.numRouters = 4 ∧ net.nodes = 4 ∧
      net.extRouter 1 = 1 ∧ net.extRouter 2 = 2 ∧ net.routingAlgorithm = .xy ∧ net.numCols = 2 ∧
      (net.outports 0).map (fun p => (p.link, p.dirn)) =
        [(.extOut 0, .Local), (.int 0 2, .North)] := by
  obtain ⟨m, t, hmake, ht, ⟨hrouters, hnodes⟩, hone, htwo, hports, hdist⟩ := gapConf_topology
  have hpos : 0 < t.numRouters := by omega
  have hconn : t.Connected := by
    intro r hr d hd
    have hlt := hdist r (by simp; omega) d (by simp; omega)
    exact ⟨_, hlt, dist_linkWalk (routerSwitch_lt hr) (nodeSwitch_lt hd)
      (routerSwitch_ne_nodeSwitch t r hd) hlt⟩
  exact ⟨m, gridNet .xy (show 2 * (4 / 2) = t.numRouters by omega) hpos
    (topology_grid hmake ht), hmake, ht, hconn, hrouters, hnodes, hone, htwo, rfl, rfl,
    hports⟩

theorem directionXY_gap {net : Net} (h : net.numCols = 2) :
    directionXY net 0 1 = .ok .East ∧ directionXY net 0 2 = .ok .North := by
  simp [directionXY, noXHops, noYHops, xDirn, yDirn, require, h]

theorem dirns_gap {net : Net} (h : (net.outports 0).map (fun p => (p.link, p.dirn)) =
    [(.extOut 0, .Local), (.int 0 2, .North)]) :
    net.outportsDirn2idx 0 .East = none ∧ net.outportsDirn2idx 0 .North = some 1 ∧
      ∃ p, (net.outports 0)[0]? = some p ∧ p.link = .extOut 0 := by
  obtain ⟨p, ps, hports, hp, hps⟩ := map_eq_cons_iff.mp h
  obtain ⟨q, qs, rfl, hq, hqs⟩ := map_eq_cons_iff.mp hps
  obtain rfl := map_eq_nil_iff.mp hqs
  obtain ⟨hpl, hpd⟩ := Prod.mk.inj hp
  obtain ⟨_, hqd⟩ := Prod.mk.inj hq
  simp [Net.outportsDirn2idx, hports, zipIdx, hpd, hqd, hpl]

theorem outportCompute_leads_on_gap :
    ∃ (m : MadeLinks) (net : Net), makeTopology 4 2 squareNodes gapConf = .ok m ∧
      m.topology = some net.topology ∧
      Holds ((init net fun _ => 0).outportCompute net 0 ⟨0, [2], 0, 0, 2, 2, 0⟩)
        (fun t => ∃ p, (net.outports 0)[t.1]? = some p ∧ ∃ b, p.link = .int 0 b) fun _ => True := by
  obtain ⟨m, net, hmake, ht, hconn, hrouters, hnodes, _, htwo, halg, hcols, hports⟩ := gapConf_net
  have hroute : RouteOk net ⟨0, [2], 0, 0, 2, 2, 0⟩ := ⟨rfl, by change 2 < net.nodes; omega, htwo.symm⟩
  have hport : ∀ d, directionOf net 0 2 (.init net fun _ => 0) = some (.ok d) →
      (net.outportsDirn2idx 0 d).isSome := by
    intro d hd
    simp only [directionOf, halg, (directionXY_gap hcols).2] at hd
    cases hd
    rw [(dirns_gap hports).2.1]
    rfl
  refine ⟨m, net, hmake, ht, ((outportCompute_leads_on hconn (by omega) hroute ⟨id, .inl⟩).mpr
    fun _ => hport).imp ?_⟩
  rintro t ⟨p, hp, _, hon⟩
  exact ⟨p, hp, (hon (by decide : (2 : Nat) ≠ 0)).1⟩

/-- Without the link to the east the lookup answers 0: the flit for router 1 is sent to
the node of router 0. -/
theorem outportCompute_local_gap :
    ∃ (m : MadeLinks) (net : Net), makeTopology 4 2 squareNodes gapConf = .ok m ∧
      m.topology = some net.topology ∧ net.topology.Connected ∧ net.routingAlgorithm = .xy ∧
      RouteOk net ⟨0, [1], 0, 0, 1, 1, 0⟩ ∧
      ∃ s' p, (init net fun _ => 0).outportCompute net 0 ⟨0, [1], 0, 0, 1, 1, 0⟩ = .ok (0, s') ∧
        (net.outports 0)[0]? = some p ∧ p.link = .extOut 0 := by
  obtain ⟨m, net, hmake, ht, hconn, hrouters, hnodes, hone, _, halg, hcols, hports⟩ := gapConf_net
  obtain ⟨hnone, _, p, hp, hl⟩ := dirns_gap hports
  have hidx : (init net fun _ => 0).outportIdx 0 .East =
      (0, ((init net fun _ => 0).outportIdx 0 .East).2) := by
    unfold outportIdx
    rw [show (init net fun _ => 0).outportsDirn2idx 0 .East = none from hnone]
  refine ⟨m, net, hmake, ht, hconn, halg, ⟨rfl, by change 1 < net.nodes; omega, hone.symm⟩,
    ((init net fun _ => 0).outportIdx 0 .East).2, p, ?_, hp, hl⟩
  simp only [outportCompute, halg, outportComputeXY, (directionXY_gap hcols).1]
  rw [if_neg (by decide), ok_bind, ← hidx]
  rfl

end Irregular

end Drain
