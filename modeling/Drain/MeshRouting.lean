import Drain.MeshLinks
import Drain.RouteCompute

/-! Table routing on meshes whose weights depend on the direction of a link only:
the least weight of a way is a sum over the two axes, so the routing table holds
the moves towards the destination, and the smallest weight among them decides. -/

namespace Drain

open List Nat State Core

section Cost

variable {w : PortDirection → Nat} {up down x y u v x' y' : Nat} {d : PortDirection}

def axisCost (up down x u : Nat) : Nat := (u - x) * up + (x - u) * down

def meshCost (w : PortDirection → Nat) (x y u v : Nat) : Nat :=
  axisCost (w .East) (w .West) x u + axisCost (w .North) (w .South) y v

theorem axisCost_up (h : x < u) : axisCost up down x u = up + axisCost up down (x + 1) u := by
  have hux : u - x = u - (x + 1) + 1 := by omega
  have hxu : x - u = 0 := by omega
  have hxu' : x + 1 - u = 0 := by omega
  simp only [axisCost, hux, hxu, hxu', add_mul]
  omega

theorem axisCost_down (h : u ≤ x) : axisCost up down (x + 1) u = down + axisCost up down x u := by
  have hxu : x + 1 - u = x - u + 1 := by omega
  have hux : u - x = 0 := by omega
  have hux' : u - (x + 1) = 0 := by omega
  simp only [axisCost, hxu, hux, hux', add_mul]
  omega

theorem axisCost_le {n : Nat} (hx : x < n) (hu : u < n) :
    axisCost up down x u ≤ (n - 1) * max up down := by
  rcases le_total x u with h | h
  · have hzero : x - u = 0 := by omega
    rw [axisCost, hzero, zero_mul, add_zero]
    exact Nat.mul_le_mul (by omega) (le_max_left _ _)
  · have hzero : u - x = 0 := by omega
    rw [axisCost, hzero, zero_mul, zero_add]
    exact Nat.mul_le_mul (by omega) (le_max_right _ _)

theorem meshCost_of_productive (hstep : coordStep x y d x' y') (h : productiveMove x y u v d) :
    meshCost w x y u v = w d + meshCost w x' y' u v := by
  cases d with
  | East =>
    obtain ⟨rfl, rfl⟩ := hstep
    rw [meshCost, axisCost_up h, meshCost]
    omega
  | West =>
    obtain ⟨rfl, rfl⟩ := hstep
    have hle : u ≤ x' := le_of_lt_succ h
    rw [meshCost, axisCost_down hle, meshCost]
    omega
  | North =>
    obtain ⟨rfl, rfl⟩ := hstep
    rw [meshCost, axisCost_up h, meshCost]
    omega
  | South =>
    obtain ⟨rfl, rfl⟩ := hstep
    have hle : v ≤ y' := le_of_lt_succ h
    rw [meshCost, axisCost_down hle, meshCost]
    omega
  | Local => exact h.elim
  | Unknown => exact h.elim

theorem productive_opposite (hstep : coordStep x y d x' y') (h : ¬productiveMove x y u v d) :
    coordStep x' y' d.opposite x y ∧ productiveMove x' y' u v d.opposite := by
  cases d <;> simp only [coordStep, productiveMove, PortDirection.opposite] at * <;> omega

theorem meshCost_le (hstep : coordStep x y d x' y') :
    meshCost w x y u v ≤ w d + meshCost w x' y' u v := by
  by_cases h : productiveMove x y u v d
  · rw [meshCost_of_productive hstep h]
  · obtain ⟨hback, hprod⟩ := productive_opposite hstep h
    rw [meshCost_of_productive hback hprod]
    omega

theorem meshCost_eq_iff (hpos : 0 < w d) (hstep : coordStep x y d x' y') :
    w d + meshCost w x' y' u v = meshCost w x y u v ↔ productiveMove x y u v d := by
  constructor
  · intro heq
    by_contra h
    obtain ⟨hback, hprod⟩ := productive_opposite hstep h
    rw [meshCost_of_productive hback hprod] at heq
    omega
  · intro h
    rw [meshCost_of_productive hstep h]

theorem coords_ne {a b : Nat} (hne : a ≠ b) (numCols : Nat) :
    a % numCols ≠ b % numCols ∨ a / numCols ≠ b / numCols := by
  by_contra hsame
  push Not at hsame
  apply hne
  rw [← div_add_mod a numCols, ← div_add_mod b numCols, hsame.1, hsame.2]

theorem exists_productive (h : x ≠ u ∨ y ≠ v) : ∃ d, productiveMove x y u v d := by
  by_cases hlt : x < u
  · exact ⟨.East, hlt⟩
  by_cases hgt : u < x
  · exact ⟨.West, hgt⟩
  by_cases hlt' : y < v
  · exact ⟨.North, hlt'⟩
  · exact ⟨.South, show v < y by omega⟩

end Cost

def routerCost (w : PortDirection → Nat) (numCols a b : Nat) : Nat :=
  meshCost w (a % numCols) (a / numCols) (b % numCols) (b / numCols)

theorem routerCost_le {w : PortDirection → Nat} {numRows numCols a b : Nat} (hc : 0 < numCols)
    (ha : a < numRows * numCols) (hb : b < numRows * numCols) :
    routerCost w numCols a b ≤ (numCols - 1) * max (w .East) (w .West) +
      (numRows - 1) * max (w .North) (w .South) := by
  have hya : a / numCols < numRows := Nat.div_lt_of_lt_mul (by rwa [Nat.mul_comm])
  have hyb : b / numCols < numRows := Nat.div_lt_of_lt_mul (by rwa [Nat.mul_comm])
  exact Nat.add_le_add (axisCost_le (Nat.mod_lt a hc) (Nat.mod_lt b hc)) (axisCost_le hya hyb)

def weightOf (link : PortDirection → IntLink) (d : PortDirection) : Nat := (link d).weight

/-- Only the ways between routers that exist count: all of them are lighter than an absent link. -/
def Light (link : PortDirection → IntLink) (numRows numCols : Nat) : Prop :=
  (numCols - 1) * max (weightOf link .East) (weightOf link .West) +
    (numRows - 1) * max (weightOf link .North) (weightOf link .South) < infiniteLatency

namespace Topology.IsMesh

variable {t : Topology} {numRows numCols a b r n : Nat} {d : PortDirection} {e : IntLink}
  {link : PortDirection → IntLink}

theorem weight_pos (hm : t.IsMesh numRows numCols link) (ha : a < t.numRouters)
    (hb : b < t.numRouters) (hstep : gridStep numCols a d b) : 0 < weightOf link d :=
  t.intLink_pos (hm.intLink_iff.mpr ⟨ha, hb, d, hstep, rfl⟩)

variable (hm : t.IsMesh numRows numCols link) (hlight : Light link numRows numCols)

include hm hlight in
theorem routerCost_lt (ha : a < t.numRouters) (hb : b < t.numRouters) :
    routerCost (weightOf link) numCols a b < infiniteLatency := by
  rw [hm.numRouters_eq] at ha hb
  exact lt_of_le_of_lt (routerCost_le hm.numCols_pos ha hb) hlight

/-- What a switch is away from node `n`, as far as lower bounds go. -/
def potential (t : Topology) (w : PortDirection → Nat) (numCols n i : Nat) : Nat :=
  if 2 * t.nodes ≤ i then 1 + routerCost w numCols (i - 2 * t.nodes) (t.extRouter n)
  else if i < t.nodes ∨ i = t.nodeSwitch n then 0 else infiniteLatency

theorem potential_routerSwitch (t : Topology) (w : PortDirection → Nat) (numCols n r : Nat) :
    potential t w numCols n (t.routerSwitch r) = 1 + routerCost w numCols r (t.extRouter n) := by
  unfold potential routerSwitch
  rw [if_pos (by omega), Nat.add_sub_cancel]

theorem potential_nodeSwitch (t : Topology) (w : PortDirection → Nat) (numCols n : Nat) {m : Nat}
    (hm : m < t.nodes) :
    potential t w numCols n (t.nodeSwitch m) = if m = n then 0 else infiniteLatency := by
  unfold potential nodeSwitch
  rw [if_neg (by omega)]
  by_cases h : m = n
  · simp [h]
  · rw [if_neg (by omega), if_neg h]

include hm hlight in
theorem potential_le (hn : n < t.nodes) {i : Nat} (hi : i ∈ indices t.numSwitches) :
    potential t (weightOf link) numCols n i ≤ infiniteLatency := by
  have hlt : i < 2 * t.nodes + t.numRouters := hi
  unfold potential
  split
  · have := hm.routerCost_lt hlight (show i - 2 * t.nodes < t.numRouters by omega)
      (t.extRouter_lt n hn)
    omega
  · split
    · exact zero_le _
    · exact le_rfl

include hm hlight in
theorem potential_step (hn : n < t.nodes) {i k : Nat} (hi : i ∈ indices t.numSwitches) :
    potential t (weightOf link) numCols n i ≤
      t.topologyWeights i k + potential t (weightOf link) numCols n k := by
  have hle := hm.potential_le hlight hn hi
  cases he : t.linkMap i k with
  | none =>
    unfold topologyWeights
    rw [he]
    by_cases hik : i = k
    · simp [hik]
    · simp only [hik, if_false]
      omega
  | some x =>
    rw [topologyWeights_of_linkMap he]
    by_cases hrouter : 2 * t.nodes ≤ i
    · obtain ⟨r, rfl⟩ : ∃ r, i = t.routerSwitch r := ⟨i - 2 * t.nodes, by unfold routerSwitch; omega⟩
      rcases linkMap_routerSwitch he with ⟨m, hmn, rfl, rfl, rfl⟩ | ⟨b, y, rfl, hy, rfl⟩
      · rw [potential_nodeSwitch t _ _ _ hmn, hm.extWeight_eq]
        split
        · next hmeq =>
          subst hmeq
          rw [potential_routerSwitch]
          simp [routerCost, meshCost, axisCost]
        · omega
      · obtain ⟨_, _, d, hstep, rfl⟩ := hm.intLink_iff.mp hy
        have hcost := meshCost_le (w := weightOf link) (u := t.extRouter n % numCols)
          (v := t.extRouter n / numCols) (gridStep_coordStep hm.numCols_pos hstep)
        rw [potential_routerSwitch, potential_routerSwitch]
        change 1 + routerCost _ _ _ _ ≤ weightOf link d + (1 + routerCost _ _ _ _)
        unfold routerCost
        omega
    · by_cases hin : i < t.nodes
      · have hzero : potential t (weightOf link) numCols n i = 0 := by
          unfold potential
          rw [if_neg hrouter, if_pos (.inl hin)]
        omega
      · have hnode := linkMap_nodeSwitch t (show i - t.nodes < t.nodes by omega) k
        rw [nodeSwitch, Nat.sub_add_cancel (by omega), he] at hnode
        cases hnode

include hm in
theorem exists_step (ha : a < t.numRouters) (hb : b < t.numRouters) (hne : a ≠ b) :
    ∃ d, ∃ c < t.numRouters, gridStep numCols a d c ∧ between productiveMove numCols a b d := by
  obtain ⟨d, hd⟩ := exists_productive (coords_ne hne numCols)
  rw [hm.numRouters_eq] at ha hb ⊢
  obtain ⟨c, hc, hstep⟩ := gridStep_of_productive hm.numCols_pos ha hb hd
  exact ⟨d, c, hc, hstep, hd⟩

include hm in
theorem dist_le (hn : n < t.nodes) (hr : r < t.numRouters) :
    t.dist (t.routerSwitch r) (t.nodeSwitch n) ≤
      1 + routerCost (weightOf link) numCols r (t.extRouter n) := by
  -- the cost falls along every move towards the router of the node
  induction hk : routerCost (weightOf link) numCols r (t.extRouter n) using Nat.strong_induction_on
    generalizing r with
  | _ k ih =>
    by_cases hhome : r = t.extRouter n
    · have hle := dist_le_linkWalk (.link (linkMap_extOut t hn))
      rw [hm.extWeight_eq, ← hhome] at hle
      change _ ≤ 1 at hle
      omega
    · obtain ⟨d, b, hb, hstep, hprod⟩ := hm.exists_step hr (t.extRouter_lt n hn) hhome
      have hlink := hm.intLink_iff.mpr ⟨hr, hb, d, hstep, rfl⟩
      have hcost := meshCost_of_productive (w := weightOf link)
        (gridStep_coordStep hm.numCols_pos hstep) hprod
      change routerCost _ _ r _ = _ + routerCost _ _ b _ at hcost
      have hpos := hm.weight_pos hr hb hstep
      have hrest := ih _ (by omega) hb rfl
      have htri := t.dist_isClosure.triangle _ (routerSwitch_lt hr) _ (nodeSwitch_lt hn) _
        (routerSwitch_lt hb)
      have hfirst := dist_le_linkWalk (.link (linkMap_routers hlink))
      change _ ≤ weightOf link d at hfirst
      omega

include hm hlight in
theorem dist_eq (hn : n < t.nodes) (hr : r < t.numRouters) :
    t.dist (t.routerSwitch r) (t.nodeSwitch n) =
      1 + routerCost (weightOf link) numCols r (t.extRouter n) := by
  have hlower := t.dist_isClosure.le_of_potential
    (fun i hi k _ => hm.potential_step hlight hn (k := k) hi) (routerSwitch_lt hr) (nodeSwitch_lt hn)
  rw [potential_routerSwitch, potential_nodeSwitch t _ _ _ hn, if_pos rfl] at hlower
  have := hm.dist_le hn hr
  omega

include hm hlight in
theorem mem_entry_iff (hn : n < t.nodes) (hr : r < t.numRouters) (hne : r ≠ t.extRouter n)
    {p : OutPort} (hp : p ∈ t.outports r) :
    n ∈ p.routingTableEntry ↔ ∃ d b, gridStep numCols r d b ∧ p.link = .int r b ∧
      p.dirn = (link d).srcOutport ∧ p.weight = weightOf link d ∧
      between productiveMove numCols r (t.extRouter n) d := by
  obtain ⟨j, e, he, hw, rfl⟩ := mem_outports.mp hp
  have hdist := hm.dist_eq hlight hn hr
  have hlt := hm.routerCost_lt hlight hr (t.extRouter_lt n hn)
  rw [mem_shortestPathToNode, topologyWeights_of_linkMap he, hdist]
  rcases linkMap_routerSwitch he with ⟨m, hmn, rfl, rfl, rfl⟩ | ⟨b, x, rfl, hx, rfl⟩
  · have hmn' : m ≠ n := fun h => hne (congrArg t.extRouter h)
    have hfar := dist_nodeSwitch_ne hmn hn hmn'
    constructor
    · rintro ⟨_, heq⟩
      rw [hm.extWeight_eq] at heq
      change 1 + _ = _ at heq
      omega
    · rintro ⟨d, b, _, hlink, _⟩
      cases hlink
  · obtain ⟨_, hb, d, hstep, rfl⟩ := hm.intLink_iff.mp hx
    have hiff := meshCost_eq_iff (w := weightOf link) (u := t.extRouter n % numCols)
      (v := t.extRouter n / numCols) (hm.weight_pos hr hb hstep)
      (gridStep_coordStep hm.numCols_pos hstep)
    change _ + routerCost _ _ b _ = routerCost _ _ r _ ↔ _ at hiff
    rw [hm.dist_eq hlight hn hb]
    change _ ∧ weightOf link d + _ = _ ↔ _
    constructor
    · rintro ⟨_, heq⟩
      exact ⟨d, b, hstep, rfl, rfl, rfl, hiff.mp (by omega)⟩
    · rintro ⟨d', b', hstep', hlink, _, _, hprod⟩
      cases hlink
      rw [gridStep_dirn_unique hm.numCols_pos hstep' hstep] at hprod
      have := hiff.mpr hprod
      exact ⟨hn, by omega⟩

def leastMove (w : PortDirection → Nat) (x y u v : Nat) (d : PortDirection) : Prop :=
  productiveMove x y u v d ∧ ∀ d', productiveMove x y u v d' → w d ≤ w d'

include hm hlight in
theorem weight_lt (ha : a < t.numRouters) (hb : b < t.numRouters)
    (hprod : between productiveMove numCols a b d) : weightOf link d < infiniteLatency := by
  have hlt := hm.routerCost_lt hlight ha hb
  obtain ⟨c, _, hstep⟩ := gridStep_of_productive hm.numCols_pos (hm.numRouters_eq ▸ ha)
    (hm.numRouters_eq ▸ hb) hprod
  have hcost := meshCost_of_productive (w := weightOf link)
    (gridStep_coordStep hm.numCols_pos hstep) hprod
  change routerCost _ _ a _ = _ at hcost
  omega

include hm hlight in
theorem exists_port (hn : n < t.nodes) (hr : r < t.numRouters) (hne : r ≠ t.extRouter n)
    (hprod : between productiveMove numCols r (t.extRouter n) d) :
    ∃ b, gridStep numCols r d b ∧ ∃ p ∈ t.outports r, p.link = .int r b ∧
      p.dirn = (link d).srcOutport ∧ p.weight = weightOf link d ∧ n ∈ p.routingTableEntry := by
  have hq := t.extRouter_lt n hn
  obtain ⟨b, hb, hstep⟩ := gridStep_of_productive hm.numCols_pos (hm.numRouters_eq ▸ hr)
    (hm.numRouters_eq ▸ hq) hprod
  rw [← hm.numRouters_eq] at hb
  have hlink := hm.intLink_iff.mpr ⟨hr, hb, d, hstep, rfl⟩
  have hw : (link d).weight ≠ infiniteLatency := (hm.weight_lt hlight hr hq hprod).ne
  have hp := mem_outports.mpr ⟨_, _, linkMap_routers hlink, hw, rfl⟩
  exact ⟨b, hstep, _, hp, rfl, rfl, rfl,
    (hm.mem_entry_iff hlight hn hr hne hp).mpr ⟨d, b, hstep, rfl, rfl, rfl, hprod⟩⟩

include hm hlight in
theorem mem_candidates_iff (hn : n < t.nodes) (hr : r < t.numRouters) (hne : r ≠ t.extRouter n)
    {o : Nat} : o ∈ outputLinkCandidates (t.outports r) [n] ↔
      ∃ p, (t.outports r)[o]? = some p ∧ ∃ d b, gridStep numCols r d b ∧ p.link = .int r b ∧
        p.dirn = (link d).srcOutport ∧
        between (leastMove (weightOf link)) numCols r (t.extRouter n) d := by
  have hq := t.extRouter_lt n hn
  have hentry : ∀ p ∈ t.outports r, matchesEntry [n] p → ∃ d b, gridStep numCols r d b ∧
      p.link = .int r b ∧ p.dirn = (link d).srcOutport ∧ p.weight = weightOf link d ∧
      between productiveMove numCols r (t.extRouter n) d := by
    intro p hp hmatch
    exact (hm.mem_entry_iff hlight hn hr hne hp).mp (matchesEntry_singleton.mp hmatch)
  have hweight : ∀ p ∈ t.outports r, matchesEntry [n] p → p.weight ≤ infiniteTime := by
    intro p hp hmatch
    obtain ⟨d, _, _, _, _, hw, hprod⟩ := hentry p hp hmatch
    rw [hw]
    exact (hm.weight_lt hlight hr hq hprod).le
  rw [mem_outputLinkCandidates_least hweight]
  constructor
  · rintro ⟨p, hp, hmatch, hleast⟩
    obtain ⟨d, b, hstep, hl, hd, hw, hprod⟩ := hentry p (mem_of_getElem? hp) hmatch
    refine ⟨p, hp, d, b, hstep, hl, hd, hprod, fun d' hprod' => ?_⟩
    obtain ⟨_, _, q, hq, _, _, hqw, hqn⟩ := hm.exists_port hlight hn hr hne hprod'
    rw [← hw, ← hqw]
    exact hleast q hq (matchesEntry_singleton.mpr hqn)
  · rintro ⟨p, hp, d, b, hstep, hl, hd, hprod, hleast⟩
    have hmem := mem_of_getElem? hp
    obtain ⟨b', hstep', q, hq, hql, _, hqw, hqn⟩ := hm.exists_port hlight hn hr hne hprod
    have hsame : p = q := by
      refine outport_unique hmem hq ?_
      rw [hl, hql, gridStep_right_unique hstep hstep']
    subst hsame
    refine ⟨p, hp, matchesEntry_singleton.mpr hqn, fun q' hq' hqm' => ?_⟩
    obtain ⟨d', _, _, _, _, hw', hprod'⟩ := hentry q' hq' hqm'
    rw [hw', hqw]
    exact hleast d' hprod'

include hm hlight in
theorem candidates_ne_nil (hn : n < t.nodes) (hr : r < t.numRouters) (hne : r ≠ t.extRouter n) :
    outputLinkCandidates (t.outports r) [n] ≠ [] := by
  have hq := t.extRouter_lt n hn
  obtain ⟨d, b, _, _, hprod⟩ := hm.exists_step hr hq hne
  obtain ⟨_, _, p, hp, _, _, hpw, hpn⟩ := hm.exists_port hlight hn hr hne hprod
  refine outputLinkCandidates_ne_nil hp (matchesEntry_singleton.mpr hpn) ?_
  rw [hpw]
  exact hm.weight_lt hlight hr hq hprod

end Topology.IsMesh

section Scripts

variable {x y u v : Nat} {d : PortDirection}

theorem leastMove_xy :
    Topology.IsMesh.leastMove (weightOf MeshXY.link) x y u v d ↔ xyMove x y u v d := by
  constructor
  · rintro ⟨hprod, hleast⟩
    have heast := hleast .East
    have hwest := hleast .West
    cases d <;> simp [productiveMove, weightOf, MeshXY.link] at hprod heast hwest <;>
      simp only [xyMove] <;> omega
  · intro h
    refine ⟨h.productive, fun d' hd' => ?_⟩
    cases d <;> cases d' <;> simp only [xyMove, productiveMove] at h hd' <;>
      first | decide | omega

theorem leastMove_westfirst :
    Topology.IsMesh.leastMove (weightOf MeshWestfirst.link) x y u v d ↔
      westFirstMove x y u v d := by
  constructor
  · rintro ⟨hprod, hleast⟩
    have hwest := hleast .West
    cases d <;> simp [productiveMove, weightOf, MeshWestfirst.link] at hprod hwest <;>
      simp only [westFirstMove] <;> omega
  · intro h
    refine ⟨h.productive, fun d' hd' => ?_⟩
    cases d <;> cases d' <;> simp only [westFirstMove, productiveMove] at h hd' <;>
      first | decide | omega

theorem directionXY_eq {net : Net} {a dest : Nat} (hne : dest ≠ a)
    (h : between xyMove net.numCols a dest d) : directionXY net a dest = .ok d := by
  obtain ⟨d', hd', hmove⟩ :=
    ((directionXY_total hne).and directionXY_move).mono (fun _ _ h => h.2) (fun _ _ h => h.1) |>.exists_ok
  rw [hd', xyMove_unique hmove h]

theorem exists_directionWestFirst {net : Net} {a dest : Nat} (hne : dest ≠ a)
    (h : between westFirstMove net.numCols a dest d) :
    ∃ rand, directionWestFirst net a dest rand = .ok d := by
  refine ⟨d = .East, ?_⟩
  have hhops : ¬(noXHops net.numCols a dest ∧ noYHops net.numCols a dest) := not_noHops hne
  unfold directionWestFirst directionOr require
  rw [if_pos hhops, ok_bind]
  unfold noXHops noYHops at *
  cases d <;> simp only [between, westFirstMove] at h <;> simp [xDirn, yDirn] <;>
    split_ifs <;> first | rfl | omega

theorem MeshXY.link_dirn {x y u v : Nat} (h : xyMove x y u v d) : (MeshXY.link d).srcOutport = d := by
  cases d <;> first | rfl | exact h.elim

theorem Net.numCols_eq (net : Net) {cols : Nat} (h : net.numRouters = net.numRows * cols) :
    net.numCols = cols := by
  have hmul : net.numRows * net.numCols = net.numRouters := net.rows_mul_cols
  have hpos : 0 < net.numRows * net.numCols := hmul ▸ net.numRouters_pos
  exact Nat.eq_of_mul_eq_mul_left (Nat.pos_of_mul_pos_right hpos) (hmul.trans h)

/-- The weights of `Mesh_XY` make the routing table follow XY routing, whatever
the occupancy of the output VCs. -/
theorem mesh_xy_table_routing {numCpus meshRows : Nat} {nodes : List Controller} {m : MadeLinks}
    {net : Net} (hmake : MeshXY.makeTopology numCpus meshRows nodes = .ok m)
    (htop : m.topology = some net.topology) (hrows : net.numRows = meshRows)
    (hdiam : (net.numCols - 1) * 1 + (net.numRows - 1) * 2 < infiniteLatency)
    {r n : Nat} (hr : r < net.numRouters) (hn : n < net.nodes) {route : RouteInfo}
    (hdest : route.netDest = [n]) (hrouter : route.destRouter = net.extRouter n)
    (hne : route.destRouter ≠ r) (s : Core) :
    ∃ o p, s.lookupTable net r route = .ok o ∧ (net.outports r)[o]? = some p ∧
      directionXY net r route.destRouter = .ok p.dirn := by
  subst hrows
  have hm := fullMesh_isMesh hmake htop
  rw [← net.numCols_eq hm.numRouters_eq] at hm
  have hne' : r ≠ net.topology.extRouter n := fun h => hne (hrouter.trans h.symm)
  unfold lookupTable
  rw [hdest, net.outports_eq r hr]
  obtain ⟨o, ho, hlookup⟩ := lookupRoutingTable_mem
    (fun o => ((net.topology.outports r)[o]?.map fun p => s.getNumFreeVCs net p.link route.vnet).getD 0)
    (hm.candidates_ne_nil hdiam hn hr hne')
  obtain ⟨p, hp, d, b, _, _, hd, hleast⟩ := (hm.mem_candidates_iff hdiam hn hr hne').mp ho
  have hxy := leastMove_xy.mp hleast
  refine ⟨o, p, hlookup, hp, ?_⟩
  rw [hd, MeshXY.link_dirn hxy]
  exact directionXY_eq hne (hrouter ▸ hxy)

def squareNodes : List Controller := [⟨0, false⟩, ⟨1, false⟩, ⟨2, false⟩, ⟨3, false⟩]

theorem mesh_xy_table_routing_square :
    ∃ m net, MeshXY.makeTopology 4 2 squareNodes = .ok m ∧ m.topology = some net.topology ∧
      ∀ s : Core, ∃ o p, s.lookupTable net 0 ⟨0, [3], 0, 0, 3, 3, 0⟩ = .ok o ∧
        (net.outports 0)[o]? = some p ∧ directionXY net 0 3 = .ok p.dirn := by
  obtain ⟨m, t, hmake, ht, hrouters, hnodes, hrouter⟩ : ∃ m t,
      MeshXY.makeTopology 4 2 squareNodes = .ok m ∧ m.topology = some t ∧
        t.numRouters = 4 ∧ t.nodes = 4 ∧ t.extRouter 3 = 3 :=
    MadeLinks.exists_topology (by decide +kernel)
  have hm := fullMesh_isMesh hmake ht
  have hpos : 0 < t.numRouters := by omega
  have hthree : 3 < t.nodes := by omega
  have hdiam : (4 / 2 - 1) * 1 + (2 - 1) * 2 < infiniteLatency := by decide
  have hgrid : ∀ {a b e}, t.intLink a b = some e →
      gridStep (4 / 2) a e.srcOutport b ∧ e.dstInport = e.srcOutport.opposite := by
    intro a b e he
    obtain ⟨_, _, d, hstep, rfl⟩ := hm.intLink_iff.mp he
    cases d <;> exact ⟨hstep, rfl⟩
  exact ⟨m, gridNet .table hm.numRouters_eq.symm hpos hgrid, hmake, ht, fun s =>
    mesh_xy_table_routing hmake ht rfl hdiam hpos hthree rfl hrouter.symm (by decide) s⟩

/-- The routers to which the table of router `r` can send a flit for node `n`,
over all ways in which `vcs` output VCs of each port can be idle or not. -/
def tableNext (t : Topology) (vcs r n : Nat) : Set Nat :=
  {b | ∃ (idle : Nat → Nat → Bool) (o : Nat) (p : OutPort),
    lookupRoutingTable (t.outports r) (fun o => (range vcs).countP (idle o)) [n] = .ok o ∧
      (t.outports r)[o]? = some p ∧ p.link = .int r b}

/-- The routers to which `outportComputeWestFirst` can send a flit, over all random bits. -/
def westFirstNext (net : Net) (s : State) (r : Nat) (route : RouteInfo) : Set Nat :=
  {b | ∃ (random : Nat → Nat) (o : Nat) (s' : State) (p : OutPort),
    outportComputeWestFirst net r route { s with random := random } = .ok (o, s') ∧
      (net.outports r)[o]? = some p ∧ p.link = .int r b}

theorem mem_tableNext {t : Topology} {vcs r n b : Nat} (hvcs : 0 < vcs) :
    b ∈ tableNext t vcs r n ↔ ∃ o ∈ outputLinkCandidates (t.outports r) [n], ∃ p,
      (t.outports r)[o]? = some p ∧ p.link = .int r b := by
  constructor
  · rintro ⟨idle, o, p, hlookup, hp, hl⟩
    exact ⟨o, mem_of_lookupRoutingTable hlookup, p, hp, hl⟩
  · rintro ⟨o, ho, p, hp, hl⟩
    refine ⟨fun o' _ => o' = o, o, p, lookupRoutingTable_eq ho fun o' hne => ?_, hp, hl⟩
    simp [hne, hvcs]

theorem mem_westFirstNext {net : Net} (hf : net.FullMesh) {s : State}
    (hs : DirnOk net s.outportsDirn2idx) {r b : Nat} {route : RouteInfo} (hr : r < net.numRouters)
    (hdest : route.destRouter < net.numRouters) (hne : route.destRouter ≠ r) :
    b ∈ westFirstNext net s r route ↔
      ∃ d, gridStep net.numCols r d b ∧ between westFirstMove net.numCols r route.destRouter d := by
  have hport : ∀ {d} (random : Nat → Nat), between westFirstMove net.numCols r route.destRouter d →
      ∃ b' o p, outportIdx { s with random := random } r d = (o, { s with random := random }) ∧
        (net.outports r)[o]? = some p ∧ p.link = .int r b' ∧ gridStep net.numCols r d b' := by
    intro d random hd
    obtain ⟨b', hlink⟩ := hasLink_of_productive hf hr hdest hd.productive
    obtain ⟨o, p, hidx, hp, hl⟩ := outportIdx_of_hasLink (s := { s with random := random }) hs hlink
    exact ⟨b', o, p, hidx, hp, hl, hlink.gridStep⟩
  constructor
  · rintro ⟨random, o, s', p, hcompute, hp, hl⟩
    obtain ⟨d, hdir, hidx⟩ := bind_eq_ok.mp hcompute
    have hd := directionWestFirst_move.of_ok hdir
    obtain ⟨b', o', p', hidx', hp', hl', hstep⟩ := hport (fun i => random (i + 1)) hd
    have ho : (o, s') = (o', { s with random := fun i => random (i + 1) }) :=
      (Except.ok.inj hidx).symm.trans hidx'
    cases ho
    rw [hp] at hp'
    cases hp'
    rw [hl] at hl'
    cases hl'
    exact ⟨d, hstep, hd⟩
  · rintro ⟨d, hstep, hd⟩
    obtain ⟨rand, hdir⟩ := exists_directionWestFirst hne hd
    obtain ⟨b', o, p, hidx, hp, hl, hstep'⟩ := hport (fun _ => rand.toNat) hd
    have hrand : State.rand { s with random := fun _ => rand.toNat } = rand := by
      cases rand <;> rfl
    refine ⟨fun _ => rand.toNat, o, { s with random := fun _ => rand.toNat }, p, ?_, hp, ?_⟩
    · unfold outportComputeWestFirst
      rw [hrand, hdir, ok_bind]
      exact congrArg Except.ok hidx
    · rw [hl, gridStep_right_unique hstep hstep']

/-- The weights of `Mesh_westfirst` make the routing table follow west-first routing:
over all occupancies it reaches the same routers as `outportComputeWestFirst`
reaches over all random bits on the mesh of that size with named ports. -/
theorem mesh_westfirst_table_routing {numCpus meshRows : Nat} {nodes : List Controller}
    {m : MadeLinks} {t : Topology}
    (hmake : MeshWestfirst.makeTopology numCpus meshRows nodes = .ok m) (htop : m.topology = some t)
    {net : Net} (hf : net.FullMesh) (hrows : net.numRows = meshRows)
    (hrouters : net.numRouters = t.numRouters)
    (hdiam : (net.numCols - 1) * 2 + (net.numRows - 1) * 2 < infiniteLatency)
    {r n vcs : Nat} (hvcs : 0 < vcs) (hr : r < t.numRouters) (hn : n < t.nodes) {route : RouteInfo}
    (hrouter : route.destRouter = t.extRouter n) (hne : route.destRouter ≠ r)
    {s : State} (hs : DirnOk net s.outportsDirn2idx) :
    tableNext t vcs r n = westFirstNext net s r route := by
  subst hrows
  have hm := fullMesh_isMesh hmake htop
  rw [← net.numCols_eq (hrouters.trans hm.numRouters_eq)] at hm
  have hne' : r ≠ t.extRouter n := fun h => hne (hrouter.trans h.symm)
  have hdest : route.destRouter < net.numRouters := by
    rw [hrouter, hrouters]
    exact t.extRouter_lt n hn
  ext b
  rw [mem_tableNext hvcs, mem_westFirstNext hf hs (hrouters ▸ hr) hdest hne, hrouter]
  constructor
  · rintro ⟨o, ho, p, hp, hl⟩
    obtain ⟨p', hp', d, b', hstep, hl', _, hleast⟩ := (hm.mem_candidates_iff hdiam hn hr hne').mp ho
    rw [hp] at hp'
    cases hp'
    rw [hl] at hl'
    cases hl'
    exact ⟨d, hstep, leastMove_westfirst.mp hleast⟩
  · rintro ⟨d, hstep, hd⟩
    obtain ⟨b', hstep', p, hp, hl, hdirn, _, _⟩ := hm.exists_port hdiam hn hr hne' hd.productive
    obtain ⟨o, ho⟩ := getElem?_of_mem hp
    refine ⟨o, (hm.mem_candidates_iff hdiam hn hr hne').mpr
      ⟨p, ho, d, b', hstep', hl, hdirn, leastMove_westfirst.mpr hd⟩, p, ho, ?_⟩
    rw [hl, gridStep_right_unique hstep hstep']

theorem mesh_westfirst_table_routing_square :
    ∃ m t, MeshWestfirst.makeTopology 4 2 squareNodes = .ok m ∧ m.topology = some t ∧
      tableNext t 1 0 3 =
        westFirstNext squareNet (init squareNet fun _ => 0) 0 ⟨0, [3], 0, 0, 3, 3, 0⟩ := by
  obtain ⟨m, t, hmake, htop, hrouters, hnodes, hext⟩ :
      ∃ m t, MeshWestfirst.makeTopology 4 2 squareNodes = .ok m ∧ m.topology = some t ∧
        t.numRouters = 4 ∧ t.nodes = 4 ∧ t.extRouter 3 = 3 :=
    MadeLinks.exists_topology (by decide +kernel)
  have hdiam : (2 - 1) * 2 + (2 - 1) * 2 < infiniteLatency := by decide
  exact ⟨m, t, hmake, htop, mesh_westfirst_table_routing hmake htop squareNet_fullMesh rfl
    hrouters.symm hdiam Nat.one_pos (by omega) (by omega) hext.symm (by decide) ⟨id, .inl⟩⟩

def pairNodes : List Controller := [⟨0, false⟩, ⟨1, false⟩]

def Topology.outportsDirn2idx (t : Topology) (r : Nat) (d : PortDirection) : Option Nat :=
  ((t.outports r).zipIdx.filter fun p => p.1.dirn == d).getLast?.map Prod.snd

theorem pair_westfirst :
    ∃ m t, MeshWestfirst.makeTopology 2 1 pairNodes = .ok m ∧ m.topology = some t ∧
      t.outportsDirn2idx 0 .East = none ∧
      (t.outports 0).map OutPort.link = [.extOut 0, .int 0 1] ∧
      outputLinkCandidates (t.outports 0) [1] = [1] :=
  MadeLinks.exists_topology (by decide +kernel)

theorem outportComputeWestFirst_unnamed {s : State} (h : s.outportsDirn2idx 0 .East = none) :
    ∃ s', outportComputeWestFirst (pairNet 1 4) 0
      ⟨0, [1], 0, 0, 1, 1, 0⟩ s = .ok (0, s') := by
  have hdir : ∀ rand, directionWestFirst (pairNet 1 4) 0 1 rand =
      .ok .East := by decide
  have hidx : outportIdx s.skipRandom 0 .East = (0, (s.skipRandom.outportIdx 0 .East).2) := by
    unfold outportIdx
    rw [show s.skipRandom.outportsDirn2idx 0 .East = none from h]
  refine ⟨(s.skipRandom.outportIdx 0 .East).2, ?_⟩
  rw [outportComputeWestFirst, hdir, ok_bind, hidx]
  rfl

/-- On the mesh that `Mesh_westfirst` itself makes no port has a direction, so the map
answers every direction with index 0, which is the port of the router's own node. -/
theorem westfirst_ports_unnamed_pair :
    ∃ m t, MeshWestfirst.makeTopology 2 1 pairNodes = .ok m ∧ m.topology = some t ∧
      1 ∈ tableNext t 1 0 1 ∧
      ∃ s : State, s.outportsDirn2idx = t.outportsDirn2idx ∧ ∀ random, ∃ s' p,
        outportComputeWestFirst (pairNet 1 4) 0 ⟨0, [1], 0, 0, 1, 1, 0⟩
          { s with random := random } = .ok (0, s') ∧
        (t.outports 0)[0]? = some p ∧ p.link = .extOut 0 := by
  obtain ⟨m, t, hmake, htop, hnone, hports, hcand⟩ := pair_westfirst
  have hport : ∀ o : Nat, (t.outports 0)[o]?.map OutPort.link = [Link.extOut 0, .int 0 1][o]? := by
    intro o
    rw [← hports, getElem?_map]
  obtain ⟨p, hp, hl⟩ := Option.map_eq_some_iff.mp (hport 0)
  obtain ⟨q, hq, hql⟩ := Option.map_eq_some_iff.mp (hport 1)
  refine ⟨m, t, hmake, htop, (mem_tableNext Nat.one_pos).mpr ⟨1, by simp [hcand], q, hq, hql⟩,
    { init (pairNet 1 4) (fun _ => 0) with
      outportsDirn2idx := t.outportsDirn2idx }, rfl, fun random => ?_⟩
  obtain ⟨s', hs'⟩ := outportComputeWestFirst_unnamed (s := { init _ random with
    outportsDirn2idx := t.outportsDirn2idx }) hnone
  exact ⟨s', p, hs', hp, hl⟩

end Scripts

end Drain
