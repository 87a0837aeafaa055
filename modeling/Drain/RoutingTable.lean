import Drain.ShortestPath
import Drain.Routing

/-! Table routing follows walks of least weight: the routing table entries that
`createLinks` derives, and the choice that `lookupRoutingTable` makes among them. -/

namespace Drain

open List Option

theorem foldl_minWeight (dest : NetDest) (ports : List OutPort) (m : Nat) :
    let r := ports.foldl
      (fun m p => if matchesEntry dest p && p.weight ≤ m then p.weight else m) m
    r ≤ m ∧ (∀ p ∈ ports, matchesEntry dest p → p.weight ≤ m → r ≤ p.weight) ∧
      (r = m ∨ ∃ p ∈ ports, matchesEntry dest p ∧ p.weight = r) := by
  induction ports generalizing m with
  | nil => simp
  | cons q ports ih =>
    rw [foldl_cons]
    by_cases hq : matchesEntry dest q = true ∧ q.weight ≤ m
    · rw [if_pos (by simp [hq])]
      obtain ⟨hle, hall, heq⟩ := ih q.weight
      refine ⟨hle.trans hq.2, fun p hp hm hw => ?_, .inr ?_⟩
      · rcases mem_cons.mp hp with rfl | hp
        · exact hle
        · by_cases hpq : p.weight ≤ q.weight
          · exact hall p hp hm hpq
          · omega
      · rcases heq with heq | ⟨p, hp, hm, heq⟩
        · exact ⟨q, by simp, hq.1, heq.symm⟩
        · exact ⟨p, by simp [hp], hm, heq⟩
    · rw [if_neg (by simpa using hq)]
      obtain ⟨hle, hall, heq⟩ := ih m
      refine ⟨hle, fun p hp hm hw => ?_, ?_⟩
      · rcases mem_cons.mp hp with rfl | hp
        · exact absurd ⟨hm, hw⟩ hq
        · exact hall p hp hm hw
      · rcases heq with heq | ⟨p, hp, hm, heq⟩
        · exact .inl heq
        · exact .inr ⟨p, by simp [hp], hm, heq⟩

theorem mem_outputLinkCandidates {ports : List OutPort} {dest : NetDest} {o : Nat} :
    o ∈ outputLinkCandidates ports dest ↔
      ∃ p, ports[o]? = some p ∧ matchesEntry dest p ∧ p.weight = minWeight ports dest := by
  unfold outputLinkCandidates
  simp [mem_zipIdx_iff_getElem?]

theorem mem_outputLinkCandidates_least {ports : List OutPort} {dest : NetDest} {o : Nat}
    (hw : ∀ p ∈ ports, matchesEntry dest p → p.weight ≤ infiniteTime) :
    o ∈ outputLinkCandidates ports dest ↔ ∃ p, ports[o]? = some p ∧ matchesEntry dest p ∧
      ∀ q ∈ ports, matchesEntry dest q → p.weight ≤ q.weight := by
  obtain ⟨hle, hall, heq⟩ := foldl_minWeight dest ports infiniteTime
  change minWeight ports dest ≤ infiniteTime at hle
  change ∀ q ∈ ports, _ → _ → minWeight ports dest ≤ q.weight at hall
  change minWeight ports dest = infiniteTime ∨ ∃ q ∈ ports, _ ∧ q.weight = minWeight ports dest at heq
  rw [mem_outputLinkCandidates]
  constructor
  · rintro ⟨p, hp, hm, hpw⟩
    exact ⟨p, hp, hm, fun q hq hqm => hpw ▸ hall q hq hqm (hw q hq hqm)⟩
  · rintro ⟨p, hp, hm, hleast⟩
    have hmem := mem_of_getElem? hp
    have hge := hall p hmem hm (hw p hmem hm)
    refine ⟨p, hp, hm, le_antisymm ?_ hge⟩
    rcases heq with heq | ⟨q, hq, hqm, heq⟩
    · rw [heq]
      exact hw p hmem hm
    · rw [← heq]
      exact hleast q hq hqm

theorem outputLinkCandidates_ne_nil {ports : List OutPort} {dest : NetDest} {p : OutPort}
    (hp : p ∈ ports) (hm : matchesEntry dest p) (hw : p.weight < infiniteTime) :
    outputLinkCandidates ports dest ≠ [] := by
  obtain ⟨_, hall, heq⟩ := foldl_minWeight dest ports infiniteTime
  have hle : minWeight ports dest ≤ p.weight := hall p hp hm hw.le
  rcases heq with heq | ⟨q, hq, hqm, heq⟩
  · have : minWeight ports dest = infiniteTime := heq
    omega
  · obtain ⟨o, ho⟩ := getElem?_of_mem hq
    exact ne_nil_of_mem (mem_outputLinkCandidates.mpr ⟨q, ho, hqm, heq⟩)

theorem nodup_snd_zipIdx {α : Type*} (l : List α) : (l.zipIdx.map Prod.snd).Nodup := by
  rw [zipIdx_map_snd]
  exact nodup_range'

theorem nodup_outputLinkCandidates (ports : List OutPort) (dest : NetDest) :
    (outputLinkCandidates ports dest).Nodup := by
  have hsub : (outputLinkCandidates ports dest).Sublist (ports.zipIdx.map Prod.snd) :=
    filter_sublist.map Prod.snd
  exact (nodup_snd_zipIdx ports).sublist hsub

theorem mostFree_mem (free : Nat → Nat) (c : Nat) (cs : List Nat) :
    mostFree free c cs ∈ c :: cs := by
  induction cs generalizing c with
  | nil => simp [mostFree]
  | cons c' cs ih =>
    have h := ih (if free c < free c' then c' else c)
    unfold mostFree
    split at h
    · next hlt =>
      rw [if_pos hlt]
      exact mem_cons_of_mem c h
    · next hge =>
      rw [if_neg hge]
      rcases mem_cons.mp h with h | h
      · simp [h]
      · simp [h]

theorem mostFree_eq {free : Nat → Nat} {o c : Nat} {cs : List Nat} (ho : o ∈ c :: cs)
    (hfree : ∀ o' ≠ o, free o' < free o) : mostFree free c cs = o := by
  induction cs generalizing c with
  | nil => simpa [mostFree, eq_comm] using ho
  | cons c' cs ih =>
    rw [mostFree]
    apply ih
    by_cases hc : c = o
    · subst hc
      have hge : ¬free c < free c' := by
        by_cases hc' : c' = c
        · simp [hc']
        · have := hfree c' hc'
          omega
      simp [hge]
    · rcases mem_cons.mp ho with h | h
      · exact absurd h.symm hc
      · rcases mem_cons.mp h with rfl | h
        · simp [hfree c hc]
        · exact mem_cons_of_mem _ h

theorem lookupRoutingTable_mem {ports : List OutPort} {dest : NetDest} (free : Nat → Nat)
    (hc : outputLinkCandidates ports dest ≠ []) :
    ∃ o ∈ outputLinkCandidates ports dest, lookupRoutingTable ports free dest = .ok o := by
  unfold lookupRoutingTable lookupRoutingTablePrefOutport require
  rw [if_pos hc]
  cases hl : outputLinkCandidates ports dest with
  | nil => exact absurd hl hc
  | cons c cs => exact ⟨_, mostFree_mem free c cs, rfl⟩

theorem lookupRoutingTable_eq {ports : List OutPort} {dest : NetDest} {free : Nat → Nat} {o : Nat}
    (ho : o ∈ outputLinkCandidates ports dest) (hfree : ∀ o' ≠ o, free o' < free o) :
    lookupRoutingTable ports free dest = .ok o := by
  unfold lookupRoutingTable lookupRoutingTablePrefOutport require
  rw [if_pos (ne_nil_of_mem ho)]
  cases hl : outputLinkCandidates ports dest with
  | nil => simp [hl] at ho
  | cons c cs => exact congrArg Except.ok (mostFree_eq (hl ▸ ho) hfree)

theorem mem_of_lookupRoutingTable {ports : List OutPort} {dest : NetDest} {free : Nat → Nat}
    {o : Nat} (h : lookupRoutingTable ports free dest = .ok o) :
    o ∈ outputLinkCandidates ports dest := by
  by_cases hc : outputLinkCandidates ports dest = []
  · unfold lookupRoutingTable lookupRoutingTablePrefOutport require at h
    rw [if_neg (by simp [hc])] at h
    cases h
  · obtain ⟨o', ho', heq⟩ := lookupRoutingTable_mem free hc
    rw [heq] at h
    exact Except.ok.inj h ▸ ho'

namespace Topology

variable {t : Topology} {i j k r d n w : Nat} {e : LinkEntry}

def nodeSwitch (t : Topology) (d : Nat) : Nat := d + t.nodes

/-- `LinkWalk t i j w`: links of total weight `w` lead from switch `i` to switch `j`. -/
inductive LinkWalk (t : Topology) : Nat → Nat → Nat → Prop
  | link {i j : Nat} {e : LinkEntry} : t.linkMap i j = some e → LinkWalk t i j e.weight
  | cons {i k j w : Nat} {e : LinkEntry} :
      t.linkMap i k = some e → LinkWalk t k j w → LinkWalk t i j (e.weight + w)

def Connected (t : Topology) : Prop :=
  ∀ r < t.numRouters, ∀ d < t.nodes,
    ∃ w < infiniteLatency, t.LinkWalk (t.routerSwitch r) (t.nodeSwitch d) w

theorem linkMap_lt (h : t.linkMap i j = some e) : i < t.numSwitches ∧ j < t.numSwitches := by
  unfold linkMap routerSwitch at h
  unfold numSwitches
  split at h
  · next hi =>
    have := t.extRouter_lt i hi
    split at h
    · omega
    · cases h
  split at h
  · cases h
  split at h
  · cases h
  split at h
  · have := t.extRouter_lt (j - t.nodes) (by omega)
    split at h
    · omega
    · cases h
  · obtain ⟨x, hx, _⟩ := map_eq_some_iff.mp h
    have := t.intLink_lt hx
    omega

theorem linkMap_weight_pos (h : t.linkMap i j = some e) : 0 < e.weight := by
  unfold linkMap at h
  split at h
  · next hi =>
    split at h
    · cases h
      exact t.extWeight_pos i hi
    · cases h
  split at h
  · cases h
  split at h
  · cases h
  split at h
  · split at h
    · cases h
      exact t.extWeight_pos _ (by omega)
    · cases h
  · obtain ⟨x, hx, rfl⟩ := map_eq_some_iff.mp h
    exact t.intLink_pos hx

theorem linkMap_nodeSwitch (t : Topology) (hn : n < t.nodes) (j : Nat) :
    t.linkMap (t.nodeSwitch n) j = none := by
  unfold linkMap nodeSwitch
  rw [if_neg (by omega), if_pos (by omega)]

theorem linkMap_routerSwitch (h : t.linkMap (t.routerSwitch r) j = some e) :
    (∃ n < t.nodes, j = t.nodeSwitch n ∧ t.extRouter n = r ∧
      e = ⟨.extOut n, t.extWeight n, .Local, .Unknown⟩) ∨
    ∃ b x, j = t.routerSwitch b ∧ t.intLink r b = some x ∧
      e = ⟨.int r b, x.weight, x.srcOutport, x.dstInport⟩ := by
  have hr : r + 2 * t.nodes - 2 * t.nodes = r := by omega
  unfold linkMap routerSwitch at h
  rw [if_neg (by omega), if_neg (by omega), hr] at h
  split at h
  · cases h
  · split at h
    · split at h
      · cases h
        exact .inl ⟨j - t.nodes, by omega, by unfold nodeSwitch; omega, by omega, rfl⟩
      · cases h
    · obtain ⟨x, hx, rfl⟩ := map_eq_some_iff.mp h
      exact .inr ⟨j - 2 * t.nodes, x, by unfold routerSwitch; omega, hx, rfl⟩

theorem linkMap_extOut (t : Topology) (hn : n < t.nodes) :
    t.linkMap (t.routerSwitch (t.extRouter n)) (t.nodeSwitch n) =
      some ⟨.extOut n, t.extWeight n, .Local, .Unknown⟩ := by
  unfold linkMap nodeSwitch
  rw [if_neg (by unfold routerSwitch; omega), if_neg (by unfold routerSwitch; omega),
    if_neg (by omega), if_pos (by omega), Nat.add_sub_cancel, if_pos rfl]

theorem linkMap_routers {a b : Nat} {x : IntLink} (hx : t.intLink a b = some x) :
    t.linkMap (t.routerSwitch a) (t.routerSwitch b) =
      some ⟨.int a b, x.weight, x.srcOutport, x.dstInport⟩ := by
  have ha : a + 2 * t.nodes - 2 * t.nodes = a := by omega
  have hb : b + 2 * t.nodes - 2 * t.nodes = b := by omega
  unfold linkMap routerSwitch
  rw [if_neg (by omega), if_neg (by omega), if_neg (by omega), if_neg (by omega), ha, hb, hx]
  rfl

theorem topologyWeights_of_linkMap (h : t.linkMap i j = some e) :
    t.topologyWeights i j = e.weight := by
  unfold topologyWeights
  rw [h]

theorem LinkWalk.walk (h : t.LinkWalk i j w) :
    Walk t.topologyWeights (indices t.numSwitches) i j w := by
  induction h with
  | link he =>
    rw [← topologyWeights_of_linkMap he]
    exact .edge (linkMap_lt he).1 (linkMap_lt he).2
  | cons he _ ih =>
    rw [← topologyWeights_of_linkMap he]
    exact .cons (linkMap_lt he).1 ih

theorem linkWalk_of_walk (h : Walk t.topologyWeights (indices t.numSwitches) i j w)
    (hw : w < infiniteLatency) (hij : i ≠ j) : ∃ w' ≤ w, t.LinkWalk i j w' := by
  induction h with
  | @edge i j _ _ =>
    cases he : t.linkMap i j with
    | some e =>
      rw [topologyWeights_of_linkMap he]
      exact ⟨e.weight, le_rfl, .link he⟩
    | none =>
      unfold topologyWeights at hw
      rw [he] at hw
      simp only [hij, if_false] at hw
      omega
  | @cons i k j w _ _ ih =>
    cases he : t.linkMap i k with
    | some e =>
      rw [topologyWeights_of_linkMap he] at hw ⊢
      by_cases hkj : k = j
      · exact ⟨e.weight, by omega, hkj ▸ .link he⟩
      · obtain ⟨w', hw', hwalk⟩ := ih (by omega) hkj
        exact ⟨e.weight + w', by omega, .cons he hwalk⟩
    | none =>
      have hik : i = k := by
        by_contra hne
        unfold topologyWeights at hw
        rw [he] at hw
        simp only [hne, if_false] at hw
        omega
      subst hik
      obtain ⟨w', hw', hwalk⟩ := ih (by omega) hij
      exact ⟨w', by omega, hwalk⟩

theorem routerSwitch_lt (hr : r < t.numRouters) : t.routerSwitch r ∈ indices t.numSwitches := by
  change r + 2 * t.nodes < 2 * t.nodes + t.numRouters
  omega

theorem nodeSwitch_lt (hd : d < t.nodes) : t.nodeSwitch d ∈ indices t.numSwitches := by
  change d + t.nodes < 2 * t.nodes + t.numRouters
  omega

theorem routerSwitch_ne_nodeSwitch (t : Topology) (r : Nat) (hd : d < t.nodes) :
    t.routerSwitch r ≠ t.nodeSwitch d := by
  unfold routerSwitch nodeSwitch
  omega

theorem dist_le_linkWalk (h : t.LinkWalk i j w) : t.dist i j ≤ w :=
  t.dist_isClosure.le_walk h.walk

theorem dist_linkWalk (hi : i ∈ indices t.numSwitches) (hj : j ∈ indices t.numSwitches)
    (hij : i ≠ j) (hw : t.dist i j < infiniteLatency) : t.LinkWalk i j (t.dist i j) := by
  obtain ⟨w', hle, hwalk⟩ := linkWalk_of_walk (t.dist_isClosure.walk i hi j hj) hw hij
  have := dist_le_linkWalk hwalk
  rwa [show t.dist i j = w' by omega]

theorem dist_nodeSwitch_self (hd : d < t.nodes) :
    t.dist (t.nodeSwitch d) (t.nodeSwitch d) = 0 := by
  have h := t.dist_isClosure.le_weight _ (nodeSwitch_lt hd) _ (nodeSwitch_lt hd)
  unfold topologyWeights at h
  rw [linkMap_nodeSwitch t hd] at h
  simpa using h

theorem dist_nodeSwitch_ne (hn : n < t.nodes) (hd : d < t.nodes) (hnd : n ≠ d) :
    infiniteLatency ≤ t.dist (t.nodeSwitch n) (t.nodeSwitch d) := by
  by_contra hlt
  have hne : t.nodeSwitch n ≠ t.nodeSwitch d := by
    unfold nodeSwitch
    omega
  have hwalk := dist_linkWalk (nodeSwitch_lt hn) (nodeSwitch_lt hd) hne (by omega)
  generalize t.dist (t.nodeSwitch n) (t.nodeSwitch d) = w at hwalk
  cases hwalk with
  | link he => rw [linkMap_nodeSwitch t hn] at he; cases he
  | cons he _ => rw [linkMap_nodeSwitch t hn] at he; cases he

variable (hc : t.Connected)

include hc in
theorem Connected.dist_lt (hr : r < t.numRouters) (hd : d < t.nodes) :
    t.dist (t.routerSwitch r) (t.nodeSwitch d) < infiniteLatency := by
  obtain ⟨w, hw, hwalk⟩ := hc r hr d hd
  exact lt_of_le_of_lt (dist_le_linkWalk hwalk) hw

include hc in
theorem Connected.dist_isLeast (hr : r < t.numRouters) (hd : d < t.nodes) :
    IsLeast {w | t.LinkWalk (t.routerSwitch r) (t.nodeSwitch d) w}
      (t.dist (t.routerSwitch r) (t.nodeSwitch d)) :=
  ⟨dist_linkWalk (routerSwitch_lt hr) (nodeSwitch_lt hd) (routerSwitch_ne_nodeSwitch t r hd)
    (hc.dist_lt hr hd), fun _ hw => dist_le_linkWalk hw⟩

include hc in
theorem Connected.first_link (hr : r < t.numRouters) (hd : d < t.nodes) :
    ∃ k e, t.linkMap (t.routerSwitch r) k = some e ∧
      e.weight + t.dist k (t.nodeSwitch d) = t.dist (t.routerSwitch r) (t.nodeSwitch d) := by
  have hwalk := (hc.dist_isLeast hr hd).1
  have htri := t.dist_isClosure.triangle _ (routerSwitch_lt hr) _ (nodeSwitch_lt hd)
  generalize hD : t.dist (t.routerSwitch r) (t.nodeSwitch d) = D at hwalk
  cases hwalk with
  | link he => exact ⟨_, _, he, by rw [dist_nodeSwitch_self hd, add_zero]⟩
  | @cons _ k _ w e he hrest =>
    refine ⟨k, e, he, ?_⟩
    have hk := htri k (linkMap_lt he).2
    have hw := t.dist_isClosure.le_weight _ (linkMap_lt he).1 k (linkMap_lt he).2
    rw [topologyWeights_of_linkMap he] at hw
    have := dist_le_linkWalk hrest
    omega

def linkTarget (t : Topology) : Link → Nat
  | .extIn n => t.routerSwitch (t.extRouter n)
  | .extOut n => t.nodeSwitch n
  | .int _ b => t.routerSwitch b

theorem mem_shortestPathToNode {src next : Nat} :
    d ∈ t.shortestPathToNode src next ↔ d < t.nodes ∧
      t.topologyWeights src next + t.dist next (t.nodeSwitch d) = t.dist src (t.nodeSwitch d) := by
  simp [shortestPathToNode, linkIsShortestPathToNode, nodeSwitch]

theorem mem_outports {p : OutPort} :
    p ∈ t.outports r ↔ ∃ j e, t.linkMap (t.routerSwitch r) j = some e ∧
      e.weight ≠ infiniteLatency ∧
      p = ⟨e.link, e.srcOutportDirn, t.shortestPathToNode (t.routerSwitch r) j, e.weight⟩ := by
  unfold outports connected
  simp only [mem_filterMap, mem_range, map_eq_some_iff, filter_eq_some_iff]
  constructor
  · rintro ⟨j, _, e, ⟨he, hw⟩, rfl⟩
    refine ⟨j, e, he, ?_, rfl⟩
    simp only [Bool.and_eq_true, bne_iff_ne] at hw
    exact hw.2
  · rintro ⟨j, e, he, hw, rfl⟩
    refine ⟨j, (linkMap_lt he).2, e, ⟨he, ?_⟩, rfl⟩
    simp [linkMap_weight_pos he, hw]

theorem linkTarget_of_linkMap (h : t.linkMap (t.routerSwitch r) j = some e) :
    t.linkTarget e.link = j := by
  rcases linkMap_routerSwitch h with ⟨n, _, rfl, _, rfl⟩ | ⟨b, x, rfl, _, rfl⟩ <;> rfl

theorem outport_unique {p q : OutPort} (hp : p ∈ t.outports r) (hq : q ∈ t.outports r)
    (h : p.link = q.link) : p = q := by
  obtain ⟨j, e, he, _, rfl⟩ := mem_outports.mp hp
  obtain ⟨j', e', he', _, rfl⟩ := mem_outports.mp hq
  have hj : j = j' := by
    rw [← linkTarget_of_linkMap he, ← linkTarget_of_linkMap he']
    exact congrArg t.linkTarget h
  subst hj
  rw [he] at he'
  cases he'
  rfl

theorem matchesEntry_singleton {p : OutPort} :
    matchesEntry [d] p ↔ d ∈ p.routingTableEntry := by
  simp [matchesEntry, intersectionIsNotEmpty]

theorem dist_outport {p : OutPort} (hp : p ∈ t.outports r) (hd : d ∈ p.routingTableEntry) :
    t.dist (t.routerSwitch r) (t.nodeSwitch d) =
      p.weight + t.dist (t.linkTarget p.link) (t.nodeSwitch d) := by
  obtain ⟨j, e, he, _, rfl⟩ := mem_outports.mp hp
  rw [linkTarget_of_linkMap he, ← topologyWeights_of_linkMap he]
  exact (mem_shortestPathToNode.mp hd).2.symm

include hc in
theorem Connected.outputLinkCandidates_ne_nil (hr : r < t.numRouters) (hd : d < t.nodes) :
    outputLinkCandidates (t.outports r) [d] ≠ [] := by
  obtain ⟨k, e, he, hD⟩ := hc.first_link hr hd
  have hlt := hc.dist_lt hr hd
  refine Drain.outputLinkCandidates_ne_nil (mem_outports.mpr ⟨k, e, he, by omega, rfl⟩)
    (matchesEntry_singleton.mpr ?_) (show e.weight < infiniteLatency by omega)
  rw [mem_shortestPathToNode, topologyWeights_of_linkMap he]
  exact ⟨hd, hD⟩

include hc in
theorem Connected.eq_of_extOut {p : OutPort} (hr : r < t.numRouters) (hd : d < t.nodes)
    (hp : p ∈ t.outports r) (hdp : d ∈ p.routingTableEntry) (hl : p.link = .extOut n) :
    n = d := by
  by_contra hne
  have hD := dist_outport hp hdp
  have hlt := hc.dist_lt hr hd
  obtain ⟨j, e, he, _, rfl⟩ := mem_outports.mp hp
  rcases linkMap_routerSwitch he with ⟨m, hm, _, _, rfl⟩ | ⟨b, x, _, _, rfl⟩
  · have hmn : m = n := Link.extOut.inj hl
    rw [hl] at hD
    have := dist_nodeSwitch_ne (hmn ▸ hm) hd hne
    change _ = _ + t.dist (t.nodeSwitch n) (t.nodeSwitch d) at hD
    omega
  · cases hl

theorem extWeight_le_linkWalk (hd : d < t.nodes) (h : t.LinkWalk i j w) (hj : j = t.nodeSwitch d) :
    t.extWeight d ≤ w := by
  induction h with
  | @link i j e he =>
    subst hj
    have hsub : d + t.nodes - t.nodes = d := by omega
    unfold linkMap nodeSwitch routerSwitch at he
    split at he
    · rw [if_neg (by omega)] at he
      cases he
    split at he
    · cases he
    rw [if_neg (by omega), if_pos (by omega), hsub] at he
    split at he
    · cases he
      exact le_rfl
    · cases he
  | cons _ _ ih =>
    have := ih hj
    omega

include hc in
theorem Connected.link_eq_extOut {p : OutPort} (hd : d < t.nodes)
    (hp : p ∈ t.outports (t.extRouter d)) (hdp : d ∈ p.routingTableEntry) : p.link = .extOut d := by
  have hr := t.extRouter_lt d hd
  have hD := dist_outport hp hdp
  have hlt := hc.dist_lt hr hd
  obtain ⟨j, e, he, _, hpe⟩ := mem_outports.mp hp
  rcases linkMap_routerSwitch he with ⟨n, _, _, _, rfl⟩ | ⟨b, x, rfl, hx, rfl⟩
  · have hl : p.link = .extOut n := by rw [hpe]
    rw [hl, hc.eq_of_extOut hr hd hp hdp hl]
  · have hb := (t.intLink_lt hx).2
    have hwalk := (hc.dist_isLeast hb hd).1
    have hle := extWeight_le_linkWalk hd hwalk rfl
    have hpos := linkMap_weight_pos he
    have hhome : t.dist (t.routerSwitch (t.extRouter d)) (t.nodeSwitch d) ≤ t.extWeight d := by
      refine dist_le_linkWalk (.link (e := ⟨.extOut d, t.extWeight d, .Local, .Unknown⟩) ?_)
      have hsub : d + t.nodes - t.nodes = d := by omega
      unfold linkMap nodeSwitch routerSwitch
      rw [if_neg (by omega), if_neg (by omega), if_neg (by omega), if_pos (by omega), hsub,
        if_pos rfl]
    rw [hpe] at hD
    change _ = x.weight + t.dist (t.routerSwitch b) (t.nodeSwitch d) at hD
    change 0 < x.weight at hpos
    omega

/-- The way of a flit through the routing tables; `occupancy` gives the free output
VCs that each hop sees. -/
def travel (t : Topology) (occupancy : Nat → Nat → Nat → Nat) (d : Nat) :
    Nat → Nat → Nat → Option (List OutPort)
  | 0, _, _ => none
  | fuel + 1, hop, r =>
    match lookupRoutingTable (t.outports r) (occupancy hop r) [d] with
    | .error _ => none
    | .ok o =>
      match (t.outports r)[o]? with
      | none => none
      | some p =>
        match p.link with
        | .int _ b => (travel t occupancy d fuel (hop + 1) b).map (p :: ·)
        | _ => some [p]

include hc in
theorem Connected.lookupRoutingTable (hr : r < t.numRouters) (hd : d < t.nodes) (free : Nat → Nat) :
    ∃ o p, lookupRoutingTable (t.outports r) free [d] = .ok o ∧ (t.outports r)[o]? = some p ∧
      d ∈ p.routingTableEntry := by
  obtain ⟨o, ho, heq⟩ := lookupRoutingTable_mem free (hc.outputLinkCandidates_ne_nil hr hd)
  obtain ⟨p, hp, hm, _⟩ := mem_outputLinkCandidates.mp ho
  exact ⟨o, p, heq, hp, matchesEntry_singleton.mp hm⟩

include hc in
theorem Connected.travel (occupancy : Nat → Nat → Nat → Nat) (hd : d < t.nodes) {fuel : Nat}
    (hop : Nat) (hr : r < t.numRouters) (hf : t.dist (t.routerSwitch r) (t.nodeSwitch d) < fuel) :
    ∃ ports, t.travel occupancy d fuel hop r = some ports ∧
      (ports.map OutPort.weight).sum = t.dist (t.routerSwitch r) (t.nodeSwitch d) ∧
      ports.getLast?.map OutPort.link = some (.extOut d) := by
  induction fuel generalizing hop r with
  | zero => omega
  | succ fuel ih =>
    obtain ⟨o, p, ho, hp, hdp⟩ := hc.lookupRoutingTable hr hd (occupancy hop r)
    have hmem : p ∈ t.outports r := mem_of_getElem? hp
    have hD := dist_outport hmem hdp
    unfold Topology.travel
    simp only [ho, hp]
    obtain ⟨j, e, he, _, hpe⟩ := mem_outports.mp hmem
    rcases linkMap_routerSwitch he with ⟨n, hn, _, _, rfl⟩ | ⟨b, x, _, hx, rfl⟩
    · have hl : p.link = .extOut n := by rw [hpe]
      have hnd := hc.eq_of_extOut hr hd hmem hdp hl
      subst hnd
      rw [hl] at hD ⊢
      refine ⟨[p], rfl, ?_, by simp [hl]⟩
      rw [hD]
      simpa [linkTarget] using dist_nodeSwitch_self hd
    · have hl : p.link = .int r b := by rw [hpe]
      have hw : 0 < p.weight := by
        rw [hpe]
        exact t.intLink_pos hx
      rw [hl] at hD
      change _ = _ + t.dist (t.routerSwitch b) (t.nodeSwitch d) at hD
      obtain ⟨ports, hports, hsum, hlast⟩ := ih (hop + 1) (t.intLink_lt hx).2 (by omega)
      rw [hl]
      refine ⟨p :: ports, by simp [hports], by simp [hsum, hD], ?_⟩
      cases ports with
      | nil => simp at hlast
      | cons q qs => simpa using hlast

/-- Table routing never fails, each hop lowers the distance by the weight of the
link it takes, and a flit reaches its own `Local` port on a walk of least weight. -/
theorem table_routing_minimal {t : Topology} (hc : t.Connected) {r d : Nat}
    (hr : r < t.numRouters) (hd : d < t.nodes) :
    IsLeast {w | t.LinkWalk (t.routerSwitch r) (t.nodeSwitch d) w}
        (t.dist (t.routerSwitch r) (t.nodeSwitch d)) ∧
      (∀ free, ∃ o p, Drain.lookupRoutingTable (t.outports r) free [d] = .ok o ∧
        (t.outports r)[o]? = some p ∧
        t.dist (t.routerSwitch r) (t.nodeSwitch d) =
          p.weight + t.dist (t.linkTarget p.link) (t.nodeSwitch d)) ∧
      ∀ occupancy hop, ∃ ports,
        t.travel occupancy d (t.dist (t.routerSwitch r) (t.nodeSwitch d) + 1) hop r = some ports ∧
        (ports.map OutPort.weight).sum = t.dist (t.routerSwitch r) (t.nodeSwitch d) ∧
        ports.getLast?.map OutPort.link = some (.extOut d) := by
  refine ⟨hc.dist_isLeast hr hd, fun free => ?_, fun occupancy hop => ?_⟩
  · obtain ⟨o, p, ho, hp, hdp⟩ := hc.lookupRoutingTable hr hd free
    exact ⟨o, p, ho, hp, dist_outport (mem_of_getElem? hp) hdp⟩
  · exact hc.travel occupancy hd hop hr (Nat.lt_succ_self _)

def pair : Topology where
  numRouters := 2
  nodes := 2
  extRouter := fun n => n
  extWeight := fun _ => 1
  intLink := fun a b =>
    if a = 0 ∧ b = 1 then some ⟨1, .East, .West⟩
    else if a = 1 ∧ b = 0 then some ⟨1, .West, .East⟩
    else none
  extRouter_lt := fun _ h => h
  extWeight_pos := fun _ _ => Nat.one_pos
  intLink_lt := by
    intro a b e h
    split at h
    · omega
    · split at h
      · omega
      · cases h
  intLink_pos := by
    intro a b e h
    split at h
    · cases h; decide
    · split at h
      · cases h; decide
      · cases h

theorem pair_connected : pair.Connected := by
  intro r hr d hd
  have hr : r < 2 := hr
  have hd : d < 2 := hd
  interval_cases r <;> interval_cases d
  · exact ⟨_, by decide, .link (e := ⟨.extOut 0, 1, .Local, .Unknown⟩) rfl⟩
  · exact ⟨_, by decide, .cons (e := ⟨.int 0 1, 1, .East, .West⟩) (k := 5) rfl
      (.link (e := ⟨.extOut 1, 1, .Local, .Unknown⟩) rfl)⟩
  · exact ⟨_, by decide, .cons (e := ⟨.int 1 0, 1, .West, .East⟩) (k := 4) rfl
      (.link (e := ⟨.extOut 0, 1, .Local, .Unknown⟩) rfl)⟩
  · exact ⟨_, by decide, .link (e := ⟨.extOut 1, 1, .Local, .Unknown⟩) rfl⟩

theorem table_routing_minimal_pair :
    IsLeast {w | pair.LinkWalk (pair.routerSwitch 0) (pair.nodeSwitch 1) w}
      (pair.dist (pair.routerSwitch 0) (pair.nodeSwitch 1)) :=
  (table_routing_minimal pair_connected (r := 0) (d := 1) (by decide) (by decide)).1

end Topology

end Drain
