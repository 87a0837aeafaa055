import Drain.RoutingTable
import Drain.Spin

/-! The ports of a mesh network. Directions identify the ports between routers,
and the arithmetic of `get_upstream*` finds the other end of their links. -/

namespace Drain

open List Option Topology Except

theorem PortDirection.opposite_opposite (d : PortDirection) : d.opposite.opposite = d := by
  cases d <;> rfl

section Grid

variable {numCols a b a' b' : Nat} {d : PortDirection}

section

variable (h : gridStep numCols a d b)
include h

theorem gridStep_right_unique (h' : gridStep numCols a d b') :
    b = b' := by
  cases d <;> simp only [gridStep] at h h' <;> omega

theorem gridStep_left_unique (h' : gridStep numCols a' d b) :
    a = a' := by
  cases d <;> simp only [gridStep] at h h' <;> omega

theorem gridStep_ne_local : d ≠ .Local := by
  rintro rfl
  exact h

theorem gridStep_opposite_ne_local : d.opposite ≠ .Local := by
  cases d <;> simp_all [PortDirection.opposite, gridStep]

end

theorem mod_div_succ (hx : a % numCols + 1 < numCols) :
    (a + 1) % numCols = a % numCols + 1 ∧ (a + 1) / numCols = a / numCols := by
  have hd := Nat.div_add_mod a numCols
  have he : a + 1 = (a % numCols + 1) + numCols * (a / numCols) := by omega
  constructor
  · rw [he, Nat.add_mul_mod_self_left, Nat.mod_eq_of_lt hx]
  · rw [he, Nat.add_mul_div_left _ _ (by omega), Nat.div_eq_of_lt hx, Nat.zero_add]

def coordStep (x y : Nat) : PortDirection → Nat → Nat → Prop
  | .East, x', y' => x' = x + 1 ∧ y' = y
  | .West, x', y' => x = x' + 1 ∧ y' = y
  | .North, x', y' => x' = x ∧ y' = y + 1
  | .South, x', y' => x' = x ∧ y = y' + 1
  | .Local, _, _ => False
  | .Unknown, _, _ => False

theorem gridStep_coordStep (hc : 0 < numCols) (h : gridStep numCols a d b) :
    coordStep (a % numCols) (a / numCols) d (b % numCols) (b / numCols) := by
  cases d with
  | East =>
    obtain ⟨rfl, hx⟩ := h
    exact mod_div_succ hx
  | West =>
    obtain ⟨rfl, hx⟩ := h
    exact ⟨(mod_div_succ hx).1, (mod_div_succ hx).2.symm⟩
  | North =>
    obtain rfl : b = a + numCols := h
    exact ⟨Nat.add_mod_right a numCols, Nat.add_div_right a hc⟩
  | South =>
    obtain rfl : a = b + numCols := h
    exact ⟨(Nat.add_mod_right b numCols).symm, Nat.add_div_right b hc⟩
  | Local => exact h
  | Unknown => exact h

end Grid

section Directions

variable {ports : List OutPort}

/-- The direction map of a router with these output ports, whatever the topology. -/
def dirn2idx (ports : List OutPort) (d : PortDirection) : Option Nat :=
  (ports.zipIdx.filter fun p => p.1.dirn == d).getLast?.map Prod.snd

theorem dirn2idx_spec {o : Nat} {d : PortDirection} (h : dirn2idx ports d = some o) :
    ∃ q, ports[o]? = some q ∧ q.dirn = d := by
  obtain ⟨⟨q, i⟩, hlast, rfl⟩ := map_eq_some_iff.mp h
  have hmem := mem_of_getLast? hlast
  simp only [mem_filter, mem_zipIdx_iff_getElem?, beq_iff_eq] at hmem
  exact ⟨q, hmem⟩

theorem exists_dirn2idx {q : OutPort} (hq : q ∈ ports) : ∃ o, dirn2idx ports q.dirn = some o := by
  obtain ⟨i, hi⟩ := getElem?_of_mem hq
  have hmem : (q, i) ∈ ports.zipIdx.filter fun p => p.1.dirn == q.dirn := by
    simp [mem_zipIdx_iff_getElem?, hi]
  obtain ⟨x, hx⟩ := isSome_iff_exists.mp (getLast?_isSome.mpr (ne_nil_of_mem hmem))
  exact ⟨x.2, by simp [dirn2idx, hx]⟩

end Directions

namespace Net

variable {net : Net} {r a b o i : Nat} {d : PortDirection} {x : IntLink}

theorem numCols_pos (net : Net) : 0 < net.numCols := by
  have h := net.numRouters_pos
  rw [← net.rows_mul_cols] at h
  exact Nat.pos_of_mul_pos_left h

def HasLink (net : Net) (a b : Nat) (d : PortDirection) : Prop :=
  ∃ x, net.topology.intLink a b = some x ∧ x.weight ≠ infiniteLatency ∧ x.srcOutport = d

theorem HasLink.gridStep (h : net.HasLink a b d) : Drain.gridStep net.numCols a d b := by
  obtain ⟨x, hx, _, rfl⟩ := h
  exact (net.grid hx).1

theorem HasLink.lt (h : net.HasLink a b d) : a < net.numRouters ∧ b < net.numRouters := by
  obtain ⟨x, hx, _, _⟩ := h
  exact net.topology.intLink_lt hx

theorem outport_cases {p : OutPort} (hr : r < net.numRouters) (hp : p ∈ net.outports r) :
    (∃ n < net.nodes, net.extRouter n = r ∧ p.link = .extOut n ∧ p.dirn = .Local) ∨
      ∃ b, net.HasLink r b p.dirn ∧ p.link = .int r b := by
  rw [net.outports_eq r hr] at hp
  obtain ⟨j, e, he, hw, rfl⟩ := mem_outports.mp hp
  rcases linkMap_routerSwitch he with ⟨n, hn, _, hr', rfl⟩ | ⟨b, x, _, hx, rfl⟩
  · exact .inl ⟨n, hn, hr', rfl, rfl⟩
  · exact .inr ⟨b, ⟨x, hx, hw, rfl⟩, rfl⟩

theorem HasLink.outport (h : net.HasLink a b d) :
    ∃ p ∈ net.outports a, p.link = .int a b ∧ p.dirn = d := by
  have hlt := h.lt
  obtain ⟨x, hx, hw, rfl⟩ := h
  rw [net.outports_eq a hlt.1]
  exact ⟨_, mem_outports.mpr ⟨_, _, linkMap_routers hx, hw, rfl⟩, rfl, rfl⟩

theorem HasLink.inport (h : net.HasLink a b d) : ⟨.int a b, d.opposite⟩ ∈ net.inports b := by
  have hlt := h.lt
  obtain ⟨x, hx, hw, rfl⟩ := h
  rw [net.inports_eq b hlt.2]
  unfold Topology.inports Topology.connected
  simp only [mem_filterMap, mem_range, map_eq_some_iff, filter_eq_some_iff]
  refine ⟨net.topology.routerSwitch a, routerSwitch_lt hlt.1, _, ⟨linkMap_routers hx, ?_⟩, ?_⟩
  · simp [net.topology.intLink_pos hx, hw]
  · simp only [(net.grid hx).2]

theorem linkMap_of_dst {j e} (h : net.topology.linkMap j (net.topology.routerSwitch r) = some e) :
    (j < net.nodes ∧ net.extRouter j = r ∧
        e = ⟨.extIn j, net.topology.extWeight j, .Unknown, .Local⟩) ∨
      ∃ a x, j = net.topology.routerSwitch a ∧ net.topology.intLink a r = some x ∧
        e = ⟨.int a r, x.weight, x.srcOutport, x.dstInport⟩ := by
  have hr : r + 2 * net.topology.nodes - 2 * net.topology.nodes = r := by omega
  unfold linkMap routerSwitch at h
  split at h
  · next hj =>
    split at h
    · cases h
      exact .inl ⟨hj, by unfold extRouter; omega, rfl⟩
    · cases h
  split at h
  · cases h
  rw [if_neg (by omega), if_neg (by omega), hr] at h
  obtain ⟨x, hx, rfl⟩ := map_eq_some_iff.mp h
  exact .inr ⟨_, x, by unfold routerSwitch; omega, hx, rfl⟩

section

variable (hr : r < net.numRouters)
include hr

theorem inports_nodup : (net.inports r).Nodup := by
  rw [net.inports_eq r hr]
  refine List.Nodup.filterMap ?_ nodup_range
  intro j j' p hj hj'
  simp only [connected, mem_def, map_eq_some_iff,
    filter_eq_some_iff] at hj hj'
  obtain ⟨e, ⟨he, _⟩, rfl⟩ := hj
  obtain ⟨e', ⟨he', _⟩, hp⟩ := hj'
  have hl : e'.link = e.link := congrArg InPort.link hp
  rcases linkMap_of_dst he with ⟨_, _, rfl⟩ | ⟨a, x, rfl, _, rfl⟩ <;>
    rcases linkMap_of_dst he' with ⟨_, _, rfl⟩ | ⟨a', x', rfl, _, rfl⟩
  · exact (Link.extIn.inj hl).symm
  · cases hl
  · cases hl
  · rw [(Link.int.inj hl).1]

theorem inport_cases {p : InPort} (hp : p ∈ net.inports r) :
    (∃ n < net.nodes, net.extRouter n = r ∧ p = ⟨.extIn n, .Local⟩) ∨
      ∃ a d, net.HasLink a r d ∧ p = ⟨.int a r, d.opposite⟩ := by
  rw [net.inports_eq r hr] at hp
  unfold Topology.inports Topology.connected at hp
  simp only [mem_filterMap, map_eq_some_iff, filter_eq_some_iff] at hp
  obtain ⟨j, _, e, ⟨he, hw⟩, rfl⟩ := hp
  simp only [Bool.and_eq_true, bne_iff_ne] at hw
  rcases linkMap_of_dst he with ⟨hn, hr', rfl⟩ | ⟨a, x, _, hx, rfl⟩
  · exact .inl ⟨j, hn, hr', rfl⟩
  · exact .inr ⟨a, x.srcOutport, ⟨x, hx, hw.2, rfl⟩, by rw [← (net.grid hx).2]⟩

theorem inport_unique {p q : InPort} (hp : p ∈ net.inports r)
    (hq : q ∈ net.inports r) (hd : q.dirn = p.dirn) (hl : p.dirn ≠ .Local) : q = p := by
  rcases inport_cases hr hp with ⟨_, _, _, rfl⟩ | ⟨a, d, ha, rfl⟩
  · exact absurd rfl hl
  rcases inport_cases hr hq with ⟨_, _, _, rfl⟩ | ⟨a', d', ha', rfl⟩
  · exact absurd hd.symm hl
  have hdd : d' = d := by
    have := congrArg PortDirection.opposite hd
    simpa only [PortDirection.opposite_opposite] using this
  subst hdd
  rw [gridStep_left_unique ha.gridStep ha'.gridStep]

theorem inport_index_unique {p q : InPort} {i j : Nat}
    (hp : (net.inports r)[i]? = some p) (hq : (net.inports r)[j]? = some q) (h : p.link = q.link) :
    i = j := by
  have hpq : p = q := by
    rcases inport_cases hr (mem_of_getElem? hp) with ⟨n, _, _, rfl⟩ | ⟨a, d, ha, rfl⟩ <;>
      rcases inport_cases hr (mem_of_getElem? hq) with ⟨n', _, _, rfl⟩ | ⟨a', d', ha', rfl⟩
    · rw [Link.extIn.inj h]
    · cases h
    · cases h
    · obtain ⟨rfl, _⟩ := Link.int.inj h
      obtain ⟨x, hx, _, rfl⟩ := ha
      obtain ⟨x', hx', _, rfl⟩ := ha'
      rw [hx] at hx'
      rw [some.inj hx']
  subst hpq
  obtain ⟨hi, hpi⟩ := List.getElem?_eq_some_iff.mp hp
  obtain ⟨hj, hpj⟩ := List.getElem?_eq_some_iff.mp hq
  exact (inports_nodup hr).getElem_inj_iff.mp (hpi.trans hpj.symm)

theorem outports_link_nodup :
    ((net.outports r).map OutPort.link).Nodup := by
  rw [net.outports_eq r hr]
  unfold Topology.outports
  rw [map_filterMap]
  refine List.Nodup.filterMap ?_ nodup_range
  intro j j' l hj hj'
  simp only [connected, mem_def, map_eq_some_iff,
    filter_eq_some_iff] at hj hj'
  obtain ⟨p, ⟨e, ⟨he, _⟩, rfl⟩, hl⟩ := hj
  obtain ⟨p', ⟨e', ⟨he', _⟩, rfl⟩, hl'⟩ := hj'
  change e.link = l at hl
  change e'.link = l at hl'
  rw [← linkTarget_of_linkMap he, ← linkTarget_of_linkMap he', hl, hl']

theorem outport_index_unique {p q : OutPort} {i j : Nat}
    (hp : (net.outports r)[i]? = some p) (hq : (net.outports r)[j]? = some q)
    (h : p.link = q.link) : i = j := by
  have hi : i < ((net.outports r).map OutPort.link).length := by
    rw [length_map]
    exact (List.getElem?_eq_some_iff.mp hp).1
  refine (getElem?_inj hi (outports_link_nodup hr)).mp ?_
  rw [getElem?_map, getElem?_map, hp, hq, map_some, map_some, h]

theorem outport_ne_extIn {p : OutPort} (hp : p ∈ net.outports r) (n : Nat) :
    p.link ≠ .extIn n := by
  rcases outport_cases hr hp with ⟨_, _, _, hl, _⟩ | ⟨_, _, hl⟩
  · rw [hl]
    nofun
  · rw [hl]
    nofun

theorem getElem?_inportsDirn2idx {p : InPort} (hp : p ∈ net.inports r) (hl : p.dirn ≠ .Local) :
    (net.inports r)[net.inportsDirn2idx r p.dirn]? = some p := by
  obtain ⟨i, hi⟩ := getElem?_of_mem hp
  have hmem : (p, i) ∈ (net.inports r).zipIdx.filter fun q => q.1.dirn == p.dirn := by
    simp [mem_zipIdx_iff_getElem?, hi]
  unfold inportsDirn2idx
  cases hlast : ((net.inports r).zipIdx.filter fun q => q.1.dirn == p.dirn).getLast? with
  | none =>
    rw [getLast?_eq_none_iff] at hlast
    rw [hlast] at hmem
    cases hmem
  | some q =>
    have hq := mem_of_getLast? hlast
    simp only [mem_filter, mem_zipIdx_iff_getElem?, beq_iff_eq] at hq
    rw [← inport_unique hr hp (mem_of_getElem? hq.1) hq.2 hl]
    exact hq.1

theorem ringPort_eq {p : InPort} (hp : p ∈ net.inports r)
    (hl : p.dirn ≠ .Local) : net.ringPort ⟨r, p.dirn⟩ = .ok p := by
  unfold ringPort require
  rw [if_pos hr]
  show net.inportAt r (net.inportsDirn2idx r p.dirn) = ok p
  unfold inportAt
  rw [getElem?_inportsDirn2idx hr hp hl]

end

theorem outportsDirn2idx_spec (h : net.outportsDirn2idx r d = some o) :
    ∃ p, (net.outports r)[o]? = some p ∧ p.dirn = d :=
  dirn2idx_spec h

theorem exists_outportsDirn2idx {p : OutPort} (hp : p ∈ net.outports r) :
    ∃ o, net.outportsDirn2idx r p.dirn = some o :=
  exists_dirn2idx hp

theorem HasLink.outportsDirn2idx (h : net.HasLink a b d) :
    ∃ o p, net.outportsDirn2idx a d = some o ∧ (net.outports a)[o]? = some p ∧
      p.link = .int a b ∧ p.dirn = d := by
  obtain ⟨p, hp, _, rfl⟩ := h.outport
  obtain ⟨o, ho⟩ := exists_outportsDirn2idx hp
  obtain ⟨q, hq, hqd⟩ := outportsDirn2idx_spec ho
  rcases outport_cases h.lt.1 (mem_of_getElem? hq) with ⟨_, _, _, _, hloc⟩ | ⟨b', hb', hql⟩
  · rw [hqd] at hloc
    exact absurd hloc (gridStep_ne_local h.gridStep)
  · rw [hqd] at hb'
    rw [gridStep_right_unique h.gridStep hb'.gridStep]
    exact ⟨o, q, ho, hq, hql, hqd⟩

theorem HasLink.getUpstreamrouter (h : net.HasLink a b d) :
    net.getUpstreamrouter d.opposite b = .ok (some a) := by
  have hg := h.gridStep
  have hlt := h.lt.1
  have hid : net.getUpstreamId d.opposite b = .ok (a : Int) := by
    cases d <;> simp only [Drain.gridStep] at hg <;>
      simp only [PortDirection.opposite, getUpstreamId, pure, Except.pure, Except.ok.injEq] <;> omega
  unfold Net.getUpstreamrouter
  rw [hid]
  change (if (a : Int) < 0 ∨ (net.numRouters : Int) ≤ a then _ else _) = _
  rw [if_neg (by omega)]
  rfl

def FullMesh (net : Net) : Prop :=
  ∀ a b d, a < net.numRouters → b < net.numRouters → Drain.gridStep net.numCols a d b →
    net.HasLink a b d

end Net

/-- The direction map knows all ports; `operator[]` may have added entries 0. -/
structure DirnOk (net : Net) (dirns : Nat → PortDirection → Option Nat) : Prop where
  port : ∀ {r d o}, net.outportsDirn2idx r d = some o → dirns r d = some o
  added : ∀ {r d o}, dirns r d = some o → net.outportsDirn2idx r d = some o ∨ o = 0

theorem outportIdx_of_hasLink {net : Net} {a b : Nat} {d : PortDirection} {s : State}
    (hs : DirnOk net s.outportsDirn2idx) (h : net.HasLink a b d) :
    ∃ o p, s.outportIdx a d = (o, s) ∧ (net.outports a)[o]? = some p ∧ p.link = .int a b := by
  obtain ⟨o, p, ho, hp, hpl, _⟩ := h.outportsDirn2idx
  refine ⟨o, p, ?_, hp, hpl⟩
  unfold State.outportIdx
  rw [hs.port ho]

theorem upstreamLink_eq {net : Net} {a b : Nat} {d : PortDirection} {s : State}
    (hs : DirnOk net s.outportsDirn2idx) (h : net.HasLink a b d) :
    s.upstreamLink net ⟨b, d.opposite⟩ = .ok (.int a b, s) := by
  obtain ⟨o, p, hidx, hp, hpl⟩ := outportIdx_of_hasLink hs h
  have hdir : Net.getUpstreamOutportDirn d.opposite = .ok d := by
    have hne := gridStep_opposite_ne_local h.gridStep
    cases d <;> first | rfl | exact absurd rfl hne
  have hport : net.outportAt a o = .ok p := by
    unfold Net.outportAt
    rw [hp]
  unfold State.upstreamLink
  rw [h.getUpstreamrouter]
  simp only [bind, Except.bind, hdir, hidx, hport, hpl, pure, Except.pure]

theorem three_pos : 0 < 3 := by decide

theorem four_pos : 0 < 4 := by decide

theorem eight_pos : 0 < 8 := by decide

def pairNet (linkLatency spinThrshld : Nat) (hl : 0 < linkLatency := by decide)
    (ht : 0 < spinThrshld := by decide) : Net where
  topology := .pair
  numRows := 1
  numCols := 2
  inports := fun r =>
    if r = 0 then [⟨.extIn 0, .Local⟩, ⟨.int 1 0, .East⟩]
    else [⟨.extIn 1, .Local⟩, ⟨.int 0 1, .West⟩]
  outports := fun r =>
    if r = 0 then [⟨.extOut 0, .Local, [0], 1⟩, ⟨.int 0 1, .East, [1], 1⟩]
    else [⟨.extOut 1, .Local, [1], 1⟩, ⟨.int 1 0, .West, [0], 1⟩]
  virtualNetworks := 2
  vcsPerVnet := 1
  buffersPerDataVc := 4
  buffersPerCtrlVc := 1
  isDataVnet := fun _ => false
  isVNetOrdered := fun _ => false
  routingAlgorithm := .table
  routerLatency := 1
  linkLatency := linkLatency
  spin := true
  spinThrshld := spinThrshld
  spinMult := 1
  drainAllVc := 0
  uTurnCrossbar := 1
  injSingleVnet := 0
  niInj := .rr
  spinRing := [⟨0, .East⟩, ⟨1, .West⟩, ⟨0, .East⟩]
  rows_mul_cols := rfl
  numRouters_pos := by decide
  grid := by
    intro a b e h
    unfold pair at h
    dsimp only at h
    split at h
    · next hab =>
      cases h
      rw [hab.1, hab.2]
      exact ⟨by decide, rfl⟩
    · split at h
      · next hab =>
        cases h
        rw [hab.1, hab.2]
        exact ⟨by decide, rfl⟩
      · cases h
  inports_eq := by decide +kernel
  outports_eq := by decide +kernel
  vcsPerVnet_pos := by decide
  buffers_pos := by decide
  routerLatency_pos := by decide
  linkLatency_pos := hl
  spinThrshld_pos := ht

section Pair

variable {linkLatency spinThrshld : Nat} {hl : 0 < linkLatency} {ht : 0 < spinThrshld}

theorem pairNet_hasLink {a b : Nat} {d : PortDirection} :
    (pairNet linkLatency spinThrshld hl ht).HasLink a b d ↔
      a = 0 ∧ b = 1 ∧ d = .East ∨ a = 1 ∧ b = 0 ∧ d = .West := by
  constructor
  · rintro ⟨x, hx, _, rfl⟩
    change (if _ then _ else _) = _ at hx
    split at hx
    · next hab =>
      cases hx
      exact .inl ⟨hab.1, hab.2, rfl⟩
    · split at hx
      · next hab =>
        cases hx
        exact .inr ⟨hab.1, hab.2, rfl⟩
      · cases hx
  · rintro (⟨rfl, rfl, rfl⟩ | ⟨rfl, rfl, rfl⟩)
    · exact ⟨⟨1, .East, .West⟩, rfl, by decide, rfl⟩
    · exact ⟨⟨1, .West, .East⟩, rfl, by decide, rfl⟩

theorem pairNet_fullMesh : (pairNet linkLatency spinThrshld hl ht).FullMesh := by
  intro a b d ha hb hstep
  have ha : a < 2 := ha
  have hb : b < 2 := hb
  change gridStep 2 a d b at hstep
  rw [pairNet_hasLink]
  cases d <;> simp only [gridStep] at hstep <;> simp <;> omega

end Pair

end Drain
