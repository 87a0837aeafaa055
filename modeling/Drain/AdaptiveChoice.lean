import Drain.Control
import Drain.MeshNet
import Drain.RouteChoice

/-! The choice between two directions by the free VCs at the neighbours. The VCs of virtual network
0 are counted for every flit. -/

namespace Drain

open State Core

def Core.emptyVCs (c : Core) (net : Net) (l : Link) (vnet : Nat) : Nat :=
  (List.range net.vcsPerVnet).countP fun i => (c.vcs l (vnet * net.vcsPerVnet + i)).inputBuffer.isEmpty

/-- Route computation succeeds with the output port of the link from `r` to `b`. -/
def Selects (net : Net) (r : Nat) (x : Except Failure (Nat × State)) (b : Nat) : Prop :=
  ∃ o s p, x = .ok (o, s) ∧ (net.outports r)[o]? = some p ∧ p.link = .int r b

/-- The adaptive algorithms, the second one where the destination is not to the west. -/
inductive Adaptive (net : Net) (r dest : Nat) : OutportCompute → Prop
  | adaptRand : Adaptive net r dest fun net r route s => s.outportComputeAdaptRand net r route
  | adaptWestFirst : xDirn net.numCols r dest ≠ .West →
      Adaptive net r dest fun net r route s => s.outportComputeAdaptWestFirst net r route

section

variable {net : Net} {r b b' dest : Nat} {s : State} {dx dy : PortDirection}
  {compute : OutportCompute} {f : Flit}

theorem numFreeVCOf_emptyVCs (hf : net.FullMesh) {d : PortDirection} (h : net.HasLink r b d) :
    s.numFreeVCOf net r d = .ok (s.emptyVCs net (.int r b) 0) := by
  rw [numFreeVCOf_eq hf h]
  simp [emptyVCs]

theorem freerDirection_eq (hf : net.FullMesh) (hx : net.HasLink r b dx) (hy : net.HasLink r b' dy)
    (rand : Bool) :
    (s.emptyVCs net (.int r b') 0 < s.emptyVCs net (.int r b) 0 →
      s.freerDirection net r dx dy rand = .ok dx) ∧
    (s.emptyVCs net (.int r b) 0 < s.emptyVCs net (.int r b') 0 →
      s.freerDirection net r dx dy rand = .ok dy) := by
  simp only [freerDirection, numFreeVCOf_emptyVCs hf hx, numFreeVCOf_emptyVCs hf hy, ok_bind]
  refine ⟨fun h => by simp [h]; rfl, fun h => ?_⟩
  simp [h, Nat.lt_asymm h]
  rfl

theorem Adaptive.compute_eq (h : Adaptive net r dest compute) (hx : ¬noXHops net.numCols r dest)
    (hy : ¬noYHops net.numCols r dest) {route : RouteInfo} (hdest : route.destRouter = dest) :
    ∃ rand, compute net r route s =
      s.freerDirection net r (xDirn net.numCols r dest) (yDirn net.numCols r dest) rand >>= fun d =>
        pure (s.skipRandom.outportIdx r d) := by
  subst hdest
  refine ⟨s.rand, ?_⟩
  cases h with
  | adaptRand =>
    simp [outportComputeAdaptRand, directionAdaptRand, directionOr, require, hx, hy]
  | adaptWestFirst hwest =>
    simp [outportComputeAdaptWestFirst, directionAdaptWestFirst, directionOr, require,
      hx, hy, xDirn_of_not_west hwest]

/-- A flit of virtual network 0 goes where more of its VCs are empty. -/
theorem adaptive_freer (hf : net.FullMesh) (hs : DirnOk net s.outportsDirn2idx)
    (hr : r < net.numRouters) (hd : f.route.destRouter < net.numRouters)
    (hx : ¬noXHops net.numCols r f.route.destRouter) (hy : ¬noYHops net.numCols r f.route.destRouter)
    (h : Adaptive net r f.route.destRouter compute) (hvnet : f.vnet = 0) :
    ∃ bx bY, net.HasLink r bx (xDirn net.numCols r f.route.destRouter) ∧
      net.HasLink r bY (yDirn net.numCols r f.route.destRouter) ∧
      (s.emptyVCs net (.int r bY) f.vnet < s.emptyVCs net (.int r bx) f.vnet →
        Selects net r (compute net r f.route s) bx) ∧
      (s.emptyVCs net (.int r bx) f.vnet < s.emptyVCs net (.int r bY) f.vnet →
        Selects net r (compute net r f.route s) bY) := by
  obtain ⟨⟨bx, hbx⟩, bY, hby⟩ := hasLink_towards hf hr hd hx hy
  obtain ⟨rand, hcompute⟩ := h.compute_eq (s := s) hx hy rfl
  have hselects {b : Nat} {d : PortDirection} (hlink : net.HasLink r b d)
      (hfree : s.freerDirection net r (xDirn net.numCols r f.route.destRouter)
        (yDirn net.numCols r f.route.destRouter) rand = .ok d) :
      Selects net r (compute net r f.route s) b := by
    obtain ⟨o, p, hidx, hp, hpl⟩ := outportIdx_of_hasLink (s := s.skipRandom) hs hlink
    rw [hcompute, hfree]
    exact ⟨o, _, p, congrArg Except.ok hidx, hp, hpl⟩
  obtain ⟨hleft, hright⟩ := freerDirection_eq (s := s) hf hbx hby rand
  rw [hvnet]
  exact ⟨bx, bY, hbx, hby, fun hlt => hselects hbx (hleft hlt), fun hlt => hselects hby (hright hlt)⟩

end

def crowdNet : Net :=
  { squareNet with
    virtualNetworks := 2
    vcsPerVnet := 2
    vcsPerVnet_pos := Nat.two_pos
    routingAlgorithm := .adaptRand
    spin := true
    spinThrshld := 8
    spinThrshld_pos := eight_pos }

/-- The first of two messages for router 3 waits at router 1 when the second one comes to
router 0. -/
def crowdActions (vnet : Nat) : List Action :=
  [.message 0 vnet ⟨[1], 4⟩, .message 0 vnet ⟨[1], 7⟩, .tick, .tick, .tick, .tick,
    .ni 0 fun _ => true, .tick, .link (.extIn 0), .tick, .router 0, .tick, .ni 0 fun _ => true,
    .link (.int 0 1), .creditLink (.extIn 0), .tick, .router 1, .ni 0 fun _ => true,
    .link (.extIn 0), .tick]

theorem crowdNet_fullMesh : crowdNet.FullMesh := fullMesh_of_topology rfl rfl

theorem adaptive_freer_crowdNet : ∃ (s : State) (f : Flit), s.Reachable crowdNet ∧
    s.linkBuffer (.extIn 0) = [f] ∧ f.vnet = 0 ∧
    s.emptyVCs crowdNet (.int 0 1) f.vnet < s.emptyVCs crowdNet (.int 0 2) f.vnet ∧
    ∃ b, crowdNet.HasLink 0 b .North ∧
      Selects crowdNet 0 (s.outportComputeAdaptRand crowdNet 0 f.route) b := by
  have hrun : ∃ s : State, s.Reachable crowdNet ∧
      (s.linkBuffer (.extIn 0)).map (fun f => (f.vnet, f.route.destRouter)) = [(0, 3)] ∧
      s.emptyVCs crowdNet (.int 0 1) 0 < s.emptyVCs crowdNet (.int 0 2) 0 :=
    exists_reachable (crowdActions 0) (fun _ => 1) (by decide +kernel)
  obtain ⟨s, hs, hbuf, hlt⟩ := hrun
  obtain ⟨f, hf, hpair⟩ := List.map_eq_singleton_iff.mp hbuf
  obtain ⟨hvnet, hdest⟩ := Prod.mk.inj hpair
  have hlt' : s.emptyVCs crowdNet (.int 0 1) f.vnet < s.emptyVCs crowdNet (.int 0 2) f.vnet := by
    rw [hvnet]
    exact hlt
  obtain ⟨bx, bY, hbx, hby, _, hselects⟩ := adaptive_freer (r := 0) (f := f) crowdNet_fullMesh
    hs.free.wf.1.dirns (by decide) (by rw [hdest]; decide) (by rw [hdest]; decide)
    (by rw [hdest]; decide) .adaptRand hvnet
  rw [hdest] at hbx hby
  have hx : bx = 1 := gridStep_right_unique hbx.gridStep (show gridStep 2 0 .East 1 by decide)
  have hy : bY = 2 := gridStep_right_unique hby.gridStep (show gridStep 2 0 .North 2 by decide)
  rw [hx, hy] at hselects
  exact ⟨s, f, hs, hf, hvnet, hlt', 2, hy ▸ hby, hselects hlt'⟩

/-- In virtual network 1 the northern neighbour of router 0 has two empty VCs and the eastern
one has one; in virtual network 0 all are empty, and the random number sends the flit east. -/
theorem adaptive_crowded_crowdNet : crowdNet.FullMesh ∧ ∃ s : State, s.Reachable crowdNet ∧
    s.curCycle ∈ s.events (.router 0) ∧
    s.emptyVCs crowdNet (.int 0 1) 1 < s.emptyVCs crowdNet (.int 0 2) 1 ∧
    ((crowdNet.outports 0)[1]?.map OutPort.link) = some (.int 0 1) ∧
    (s.linkBuffer (.extIn 0)).map (fun f => (f.vnet, f.route.destRouter,
      (s.outportComputeAdaptRand crowdNet 0 f.route).map Prod.fst)) = [(1, 3, .ok 1)] :=
  ⟨crowdNet_fullMesh, exists_reachable (crowdActions 1) (fun _ => 1) (by decide +kernel)⟩

end Drain
