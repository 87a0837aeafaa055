import Drain.TurnModel

/-! What route computation can do: it changes nothing but the random stream and
the direction map, and at the destination router it takes a port from the table. -/

namespace Drain

open List State Core Net

def DirnExt (dirns dirns' : Nat → PortDirection → Option Nat) : Prop :=
  (∀ {r d o}, dirns r d = some o → dirns' r d = some o) ∧
    ∀ {r d o}, dirns' r d = some o → dirns r d = some o ∨ o = 0

theorem DirnExt.refl (dirns : Nat → PortDirection → Option Nat) : DirnExt dirns dirns :=
  ⟨id, .inl⟩

theorem DirnExt.trans {d₁ d₂ d₃ : Nat → PortDirection → Option Nat} (h : DirnExt d₁ d₂)
    (h' : DirnExt d₂ d₃) : DirnExt d₁ d₃ := by
  refine ⟨fun ho => h'.1 (h.1 ho), fun ho => ?_⟩
  rcases h'.2 ho with ho | ho
  · exact h.2 ho
  · exact .inr ho

theorem DirnOk.ext {net : Net} {d d' : Nat → PortDirection → Option Nat} (h : DirnOk net d)
    (h' : DirnExt d d') : DirnOk net d' := by
  refine ⟨fun ho => h'.1 (h.port ho), fun ho => ?_⟩
  rcases h'.2 ho with ho | ho
  · exact h.added ho
  · exact .inr ho

structure Routed (net : Net) (r : Nat) (route : RouteInfo) (s : State) (t : Nat × State) : Prop where
  frame : t.2 = { s with
    outportsDirn2idx := t.2.outportsDirn2idx
    random := t.2.random }
  dirns : DirnExt s.outportsDirn2idx t.2.outportsDirn2idx
  same : net.routingAlgorithm = .table → t.2.outportsDirn2idx = s.outportsDirn2idx
  table : route.destRouter = r ∨ net.routingAlgorithm = .table →
    t.1 ∈ outputLinkCandidates (net.outports r) route.netDest

section Spec

variable {net : Net} {r : Nat} {route : RouteInfo} {s : State}

theorem outportIdx_ext (s : State) (r : Nat) (d : PortDirection) :
    (s.outportIdx r d).2 = { s with outportsDirn2idx := (s.outportIdx r d).2.outportsDirn2idx } ∧
      DirnExt s.outportsDirn2idx (s.outportIdx r d).2.outportsDirn2idx := by
  unfold outportIdx
  cases h : s.outportsDirn2idx r d with
  | some o => exact ⟨rfl, DirnExt.refl _⟩
  | none =>
    refine ⟨rfl, fun {r' d' o'} ho => ?_, fun {r' d' o'} ho => ?_⟩
    · change setEntry s.outportsDirn2idx r d (some 0) r' d' = some o'
      rw [setEntry_of_ne]
      · exact ho
      · rintro ⟨rfl, rfl⟩
        rw [h] at ho
        cases ho
    · change setEntry s.outportsDirn2idx r d (some 0) r' d' = some o' at ho
      rw [setEntry_apply] at ho
      split at ho
      · exact .inr (Option.some.inj ho).symm
      · exact .inl ho

theorem Routed.of_direction {s₁ : State} {d : PortDirection} (hd : route.destRouter ≠ r)
    (ht : net.routingAlgorithm ≠ .table) (hs : s₁ = { s with random := s₁.random }) :
    Routed net r route s (s₁.outportIdx r d) := by
  obtain ⟨hframe, hext⟩ := outportIdx_ext s₁ r d
  have hsame : s₁.outportsDirn2idx = s.outportsDirn2idx := by rw [hs]
  refine ⟨?_, hsame ▸ hext, fun h => absurd h ht, fun h => ?_⟩
  · rw [hframe, hs]
  · rcases h with h | h
    · exact absurd h hd
    · exact absurd h ht

theorem outportComputeTable_routed :
    Holds (s.outportComputeTable net r route) (Routed net r route s) fun _ => True := by
  unfold outportComputeTable
  rw [holds_bind]
  cases h : s.lookupTable net r route with
  | error e => trivial
  | ok o => exact ⟨rfl, DirnExt.refl _, fun _ => rfl, fun _ => mem_of_lookupRoutingTable h⟩

/-- The direction that the configured algorithm computes, if it computes one. -/
def directionOf (net : Net) (r dest : Nat) (s : State) : Option (Except Failure PortDirection) :=
  match net.routingAlgorithm with
  | .xy => some (directionXY net r dest)
  | .random => some (directionRandom net r dest s.rand)
  | .adaptRand => some (s.directionAdaptRand net r dest s.rand)
  | .westFirst => some (directionWestFirst net r dest s.rand)
  | .adaptWestFirst => some (s.directionAdaptWestFirst net r dest s.rand)
  | .table | .custom | .other => none

/-- The table, or the port of a direction, after the random number that was used is taken. -/
theorem holds_outportCompute {Q : Nat × State → Prop} {E : Failure → Prop}
    (htable : route.destRouter = r ∨ directionOf net r route.destRouter s = none →
      Holds (s.outportComputeTable net r route) Q E)
    (hcustom : net.routingAlgorithm = .custom → E .customRouting)
    (hdirected : ∀ {direction} (s' : State), route.destRouter ≠ r →
      directionOf net r route.destRouter s = some direction → s' = { s with random := s'.random } →
      Holds direction (fun d => Q (s'.outportIdx r d)) E) :
    Holds (s.outportCompute net r route) Q E := by
  unfold outportCompute
  split
  · next hhome => exact htable (.inl hhome)
  next hne =>
  have hrandom {direction} (hdir : directionOf net r route.destRouter s = some direction) :
      Holds (direction >>= fun d => if noXHops net.numCols r route.destRouter ∨
        noYHops net.numCols r route.destRouter then pure (s.outportIdx r d)
        else pure (s.skipRandom.outportIdx r d)) Q E := by
    rw [holds_bind]
    split
    · exact hdirected s hne hdir rfl
    · exact hdirected s.skipRandom hne hdir rfl
  cases hal : net.routingAlgorithm with
  | table => exact htable (.inr (by rw [directionOf, hal]))
  | other => exact htable (.inr (by rw [directionOf, hal]))
  | custom => exact hcustom hal
  | xy => exact holds_bind.mpr (hdirected s hne (by rw [directionOf, hal]) rfl)
  | westFirst => exact holds_bind.mpr (hdirected s.skipRandom hne (by rw [directionOf, hal]) rfl)
  | adaptWestFirst => exact holds_bind.mpr (hdirected s.skipRandom hne (by rw [directionOf, hal]) rfl)
  | random => exact hrandom (by rw [directionOf, hal])
  | adaptRand => exact hrandom (by rw [directionOf, hal])

theorem outportCompute_routed :
    Holds (s.outportCompute net r route) (Routed net r route s) fun _ => True := by
  refine holds_outportCompute (fun _ => outportComputeTable_routed) (fun _ => trivial) ?_
  intro direction s' hne hdir hs'
  refine (holds_true direction).imp fun d _ => Routed.of_direction hne (fun hal => ?_) hs'
  rw [directionOf, hal] at hdir
  cases hdir

/-- The assertions about credits, about the VC of an arriving flit and about the lock. -/
def Failure.ofProtocol : Failure → Bool
  | .creditAboveMax | .creditBelowZero | .headAtBusyVc | .lockHeld => true
  | _ => false

theorem freerDirection_error {dx dy : PortDirection} {rand : Bool} :
    Holds (s.freerDirection net r dx dy rand) (fun _ => True) fun e => e.ofProtocol = false := by
  have hupstream (d : PortDirection) : Holds (net.getUpstreamrouter d r) (fun _ => True)
      fun e => e.ofProtocol = false := by
    cases d <;> simp [getUpstreamrouter, getUpstreamId, holds_ite, Failure.ofProtocol]
  have hfree (d : PortDirection) : Holds (s.numFreeVCOf net r d) (fun _ => True)
      fun e => e.ofProtocol = false := by
    unfold numFreeVCOf
    rw [holds_bind]
    refine (hupstream d).imp fun r' _ => ?_
    cases r' with
    | none => rfl
    | some r' =>
      dsimp only
      unfold getNumFreeVC inportAt
      split
      · rw [ok_bind]
        exact .require ⟨fun _ => trivial, fun _ => rfl⟩
      · rfl
  unfold freerDirection
  rw [holds_bind]
  refine (hfree dx).imp fun _ _ => ?_
  rw [holds_bind]
  exact (hfree dy).imp fun _ _ => trivial

theorem directionOr_error {destRouter : Nat} {choice : Except Failure PortDirection}
    (h : Holds choice (fun _ => True) fun e => e.ofProtocol = false) :
    Holds (directionOr net r destRouter choice) (fun _ => True)
      fun e => e.ofProtocol = false := by
  unfold directionOr
  rw [holds_bind, holds_require, holds_ite, holds_ite]
  exact ⟨fun _ => ⟨fun _ => trivial, fun _ => ⟨fun _ => trivial, fun _ => h⟩⟩, fun _ => rfl⟩

theorem outportComputeTable_error :
    Holds (s.outportComputeTable net r route) (fun _ => True) fun e => e.ofProtocol = false := by
  unfold outportComputeTable lookupTable lookupRoutingTable lookupRoutingTablePrefOutport
  rw [holds_bind, holds_bind]
  refine .require ⟨fun _ => ?_, fun _ => rfl⟩
  rw [holds_pure]
  split
  · rfl
  · trivial

theorem directionOf_error {dest : Nat} {direction : Except Failure PortDirection}
    (h : directionOf net r dest s = some direction) :
    Holds direction (fun _ => True) fun e => e.ofProtocol = false := by
  unfold directionOf at h
  split at h <;> cases h
  · unfold directionXY
    rw [holds_bind, holds_require, holds_ite]
    exact ⟨fun _ => ⟨fun _ => trivial, fun _ => trivial⟩, fun _ => rfl⟩
  · exact directionOr_error (holds_pure.mpr trivial)
  · exact directionOr_error freerDirection_error
  · refine directionOr_error ?_
    rw [holds_ite]
    exact ⟨fun _ => trivial, fun _ => trivial⟩
  · refine directionOr_error ?_
    rw [holds_ite]
    exact ⟨fun _ => trivial, fun _ => freerDirection_error⟩

theorem outportCompute_error :
    Holds (s.outportCompute net r route) (fun _ => True) fun e => e.ofProtocol = false :=
  holds_outportCompute (fun _ => outportComputeTable_error) (fun _ => rfl) fun _ _ hdir _ =>
    (directionOf_error hdir).imp fun _ _ => trivial

end Spec

/-- Routing cannot fail: every node is reachable, and the adaptive algorithms,
which look at neighbours, have all of them. -/
structure Net.Routable (net : Net) : Prop where
  connected : net.topology.Connected
  not_custom : net.routingAlgorithm ≠ .custom
  adaptive : net.routingAlgorithm = .adaptRand ∨ net.routingAlgorithm = .adaptWestFirst → net.FullMesh

/-- The route of a flit, as `flitisizeMessage` makes it. -/
structure RouteOk (net : Net) (route : RouteInfo) : Prop where
  netDest : route.netDest = [route.destNi]
  destNi : route.destNi < net.nodes
  destRouter : route.destRouter = net.extRouter route.destNi

section Total

variable {net : Net} {r : Nat} {route : RouteInfo} {s : State}

theorem RouteOk.destRouter_lt (h : RouteOk net route) : route.destRouter < net.numRouters := by
  rw [h.destRouter]
  exact net.topology.extRouter_lt _ h.destNi

theorem Net.Routable.candidates_ne_nil (hn : net.Routable) (h : RouteOk net route)
    (hr : r < net.numRouters) : outputLinkCandidates (net.outports r) route.netDest ≠ [] := by
  rw [h.netDest, net.outports_eq r hr]
  exact hn.connected.outputLinkCandidates_ne_nil hr h.destNi

theorem Net.Routable.outports_ne_nil (hn : net.Routable) (h : RouteOk net route)
    (hr : r < net.numRouters) : 0 < (net.outports r).length := by
  obtain ⟨o, ho⟩ := exists_mem_of_ne_nil _ (hn.candidates_ne_nil h hr)
  obtain ⟨p, hp, _⟩ := mem_outputLinkCandidates.mp ho
  exact length_pos_of_mem (mem_of_getElem? hp)

theorem outportIdx_lt (hs : DirnOk net s.outportsDirn2idx) (hpos : 0 < (net.outports r).length)
    (d : PortDirection) : (s.outportIdx r d).1 < (net.outports r).length := by
  unfold outportIdx
  cases h : s.outportsDirn2idx r d with
  | none => exact hpos
  | some o =>
    rcases hs.added h with ho | rfl
    · obtain ⟨p, hp, _⟩ := outportsDirn2idx_spec ho
      exact (List.getElem?_eq_some_iff.mp hp).1
    · exact hpos

theorem outportComputeTable_total (hn : net.Routable) (h : RouteOk net route)
    (hr : r < net.numRouters) :
    Holds (s.outportComputeTable net r route) (fun t => t.1 < (net.outports r).length)
      fun _ => False := by
  obtain ⟨o, ho, heq⟩ := lookupRoutingTable_mem
    (fun o => ((net.outports r)[o]?.map fun p => s.getNumFreeVCs net p.link route.vnet).getD 0)
    (hn.candidates_ne_nil h hr)
  have hlookup : s.lookupTable net r route = .ok o := heq
  unfold outportComputeTable
  rw [hlookup]
  obtain ⟨p, hp, _⟩ := mem_outputLinkCandidates.mp ho
  exact (List.getElem?_eq_some_iff.mp hp).1

theorem not_noHops {net : Net} {a dest : Nat} (h : dest ≠ a) :
    ¬(noXHops net.numCols a dest ∧ noYHops net.numCols a dest) := by
  rintro ⟨hx, hy⟩
  apply h
  rw [← Nat.div_add_mod a net.numCols, ← Nat.div_add_mod dest net.numCols, hx, hy]

theorem directionXY_total {dest : Nat} (h : dest ≠ r) :
    Holds (directionXY net r dest) (fun _ => True) fun _ => False := by
  unfold directionXY
  simp only [holds_bind, holds_require, holds_ite, holds_pure, implies_true, and_true, true_and]
  exact fun hne => hne (not_noHops h)

theorem directionOr_total {dest : Nat} {choice : Except Failure PortDirection} (h : dest ≠ r)
    (hc : ¬noXHops net.numCols r dest → ¬noYHops net.numCols r dest →
      Holds choice (fun _ => True) fun _ => False) :
    Holds (directionOr net r dest choice) (fun _ => True) fun _ => False := by
  unfold directionOr
  simp only [holds_bind, holds_require, holds_ite, holds_pure, implies_true, true_and]
  exact ⟨fun _ hx hy => hc hx hy, fun hne => hne (not_noHops h)⟩

theorem numFreeVCOf_eq (hf : net.FullMesh) {b : Nat} {d : PortDirection}
    (h : net.HasLink r b d) : s.numFreeVCOf net r d =
      .ok ((range net.vcsPerVnet).countP fun vc => (s.vcs (.int r b) vc).inputBuffer.isEmpty) := by
  have hback : net.HasLink b r d.opposite := by
    refine hf b r _ h.lt.2 h.lt.1 ?_
    have hg := h.gridStep
    cases d <;> simp only [gridStep] at hg <;> simp only [PortDirection.opposite, gridStep] <;> omega
  have hup := hback.getUpstreamrouter
  rw [PortDirection.opposite_opposite] at hup
  have hport := getElem?_inportsDirn2idx h.lt.2 h.inport (gridStep_opposite_ne_local h.gridStep)
  unfold numFreeVCOf getNumFreeVC inportAt
  rw [hup]
  simp only [bind, Except.bind, hport, require, if_true, pure, Except.pure]

theorem freerDirection_total (hf : net.FullMesh) {b b' : Nat} {dx dy : PortDirection} {rand : Bool}
    (hx : net.HasLink r b dx) (hy : net.HasLink r b' dy) :
    Holds (s.freerDirection net r dx dy rand) (fun _ => True) fun _ => False := by
  unfold freerDirection
  rw [numFreeVCOf_eq hf hx, holds_bind, holds_ok, numFreeVCOf_eq hf hy]
  trivial

theorem hasLink_towards (hf : net.FullMesh) {dest : Nat} (hr : r < net.numRouters)
    (hd : dest < net.numRouters) (hx : ¬noXHops net.numCols r dest)
    (hy : ¬noYHops net.numCols r dest) :
    (∃ b, net.HasLink r b (xDirn net.numCols r dest)) ∧
      ∃ b, net.HasLink r b (yDirn net.numCols r dest) :=
  ⟨hasLink_of_productive hf hr hd (productive_xDirn hx),
    hasLink_of_productive hf hr hd (productive_yDirn hy)⟩

theorem outportCompute_total (hn : net.Routable) (hs : DirnOk net s.outportsDirn2idx)
    (h : RouteOk net route) (hr : r < net.numRouters) :
    Holds (s.outportCompute net r route) (fun t => t.1 < (net.outports r).length)
      fun _ => False := by
  refine holds_outportCompute (fun _ => outportComputeTable_total hn h hr) hn.not_custom ?_
  intro direction s' hne hdir hs'
  have hdirns : DirnOk net s'.outportsDirn2idx := by
    rw [hs']
    exact hs
  suffices hok : Holds direction (fun _ => True) fun _ => False from
    hok.imp fun d _ => outportIdx_lt hdirns (hn.outports_ne_nil h hr) d
  unfold directionOf at hdir
  split at hdir <;> cases hdir
  · exact directionXY_total hne
  · exact directionOr_total hne fun _ _ => trivial
  · next hal =>
    have hf := hn.adaptive (.inl hal)
    refine directionOr_total hne fun hx hy => ?_
    obtain ⟨⟨b, hb⟩, b', hb'⟩ := hasLink_towards hf hr h.destRouter_lt hx hy
    exact freerDirection_total hf hb hb'
  · refine directionOr_total hne fun _ _ => ?_
    split <;> trivial
  · next hal =>
    have hf := hn.adaptive (.inr hal)
    refine directionOr_total hne fun hx hy => ?_
    obtain ⟨⟨b, hb⟩, b', hb'⟩ := hasLink_towards hf hr h.destRouter_lt hx hy
    split
    · trivial
    · next hw => exact freerDirection_total hf (xDirn_of_not_west hw ▸ hb) hb'

end Total

theorem pairNet_routable {linkLatency spinThrshld : Nat} {hl : 0 < linkLatency}
    {ht : 0 < spinThrshld} : (pairNet linkLatency spinThrshld hl ht).Routable :=
  ⟨Topology.pair_connected, nofun, fun _ => pairNet_fullMesh⟩

end Drain
