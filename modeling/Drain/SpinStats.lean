import Drain.Upstream

/-! The counters of `doSpin`, position by position: a position of the ring is a bubble, or its
flit makes progress or is misrouted, and the second loop adds the hops the flit is farther away. -/

namespace Drain

open Function List State Net

namespace Net

variable (net : Net)

def ringRouter (idx : Nat) : Nat := (net.spinRing[idx]?.map SpinStruct.routerId).getD 0

/-- Does a preferred output port lead the flit of position `idx` to the next position? -/
def makesProgress (idx : Nat) (f : Flit) : Bool :=
  match net.leadsTo (net.ringRouter idx) (net.ringRouter (idx + 1))
    (outputLinkCandidates (net.outports (net.ringRouter idx)) f.route.netDest) with
  | .ok forward => forward
  | .error _ => false

/-- The hops that the flit of position `idx` is farther away at the next position. -/
def addedHops (idx : Nat) (f : Flit) : Int :=
  max 0 (net.computeHopsRemaining (net.ringRouter (idx + 1)) f.route.destRouter -
    net.computeHopsRemaining (net.ringRouter idx) f.route.destRouter)

end Net

structure Tallied (net : Net) (slots : Nat → Option Flit) (n : Nat) (st st' : Stats) : Prop where
  bubble : st'.bubble = st.bubble + (range n).countP fun i => (slots (i + 1)).isNone
  fwdProgress : st'.fwdProgress =
    st.fwdProgress + (range n).countP fun i => (slots (i + 1)).any (net.makesProgress i)
  misroute : st'.misroute =
    st.misroute + (range n).countP fun i => (slots (i + 1)).any fun f => !net.makesProgress i f

section Count

variable {net : Net} {slots slots' : Nat → Option Flit} {n : Nat} {st st' : Stats}

theorem Tallied.total (h : Tallied net slots n st st') :
    st'.fwdProgress + st'.misroute + st'.bubble = st.fwdProgress + st.misroute + st.bubble + n := by
  have hn : (range n).countP (fun i => (slots (i + 1)).any (net.makesProgress i)) +
      (range n).countP (fun i => (slots (i + 1)).any fun f => !net.makesProgress i f) +
      (range n).countP (fun i => (slots (i + 1)).isNone) = n := by
    clear h
    induction n with
    | zero => rfl
    | succ n ih =>
      simp only [range_succ, countP_append, countP_singleton]
      cases slots (n + 1) with
      | none => simp; omega
      | some f =>
        cases hf : net.makesProgress n f <;> simp [hf] <;> omega
  rw [h.bubble, h.fwdProgress, h.misroute]
  omega

theorem Tallied.congr (h : Tallied net slots n st st') (hslots : ∀ i ≤ n, slots' i = slots i) :
    Tallied net slots' n st st' := by
  have hcount {p : Nat → Option Flit → Bool} :
      (range n).countP (fun i => p i (slots' (i + 1))) =
        (range n).countP fun i => p i (slots (i + 1)) :=
    countP_congr fun i hi => by rw [hslots (i + 1) (mem_range.mp hi)]
  refine ⟨?_, ?_, ?_⟩
  · rw [h.bubble, hcount (p := fun _ x => x.isNone)]
  · rw [h.fwdProgress, hcount (p := fun i x => x.any (net.makesProgress i))]
  · rw [h.misroute, hcount (p := fun i x => x.any fun f => !net.makesProgress i f)]

def Net.countSlot (net : Net) (n : Nat) (st : Stats) : Option Flit → Stats
  | none => { st with bubble := st.bubble + 1 }
  | some f =>
    if net.makesProgress n f then { st with fwdProgress := st.fwdProgress + 1 }
    else { st with misroute := st.misroute + 1 }

theorem Tallied.countSlot (h : Tallied net slots n st st') :
    Tallied net slots (n + 1) st (net.countSlot n st' (slots (n + 1))) := by
  have hb := h.bubble
  have hf := h.fwdProgress
  have hm := h.misroute
  cases hx : slots (n + 1) with
  | none =>
    constructor <;>
      simp only [range_succ, countP_append, countP_singleton, hx, Net.countSlot] <;>
      simp <;> omega
  | some f =>
    cases hp : net.makesProgress n f <;> constructor <;>
      simp only [range_succ, countP_append, countP_singleton, hx, Net.countSlot, hp] <;>
      simp [hp] <;> omega

end Count

section Stages

variable {net : Net} {vc idx n : Nat} {s : State} {num : Int} {e : SpinStruct}

theorem ringRouter_of_ringAt (h : net.ringAt idx = .ok e) : e.routerId = net.ringRouter idx := by
  unfold ringAt at h
  unfold ringRouter
  cases he : net.spinRing[idx]? with
  | none =>
    rw [he] at h
    cases h
  | some e' =>
    rw [he] at h
    cases h
    rfl

structure SlotCounted (net : Net) (idx : Nat) (s s' : State) : Prop where
  router : net.ringRouter idx < net.numRouters
  kept : ∀ i ≤ idx, s'.spinFlit i = s.spinFlit i
  stats : s'.stats = net.countSlot idx s.stats (s'.spinFlit (idx + 1))
  hops : ∀ f, s'.spinFlit (idx + 1) = some f →
    f.hopsNeededBeforeSpin = net.computeHopsRemaining (net.ringRouter idx) f.route.destRouter

theorem countFlit_countSlot {f : Flit} {forward : Bool} (h : net.makesProgress idx f = forward) :
    (s.countFlit forward).stats = net.countSlot idx s.stats (some f) := by
  cases forward <;> simp [countFlit, countSlot, h]

theorem removeFlit_counted : Holds (removeFlit net vc (s, num) idx)
    (fun t => SlotCounted net idx s t.1) fun _ => True := by
  have hkept {x : Option Flit} : ∀ i ≤ idx, update s.spinFlit (idx + 1) x i = s.spinFlit i :=
    fun i hi => update_of_ne (by omega) _ _
  unfold removeFlit
  dsimp only
  rw [holds_bind]
  refine (holds_true _).mono (fun e he _ => ?_) fun _ _ _ => trivial
  rw [holds_bind]
  refine ringPort_spec.mono (fun p _ hp => ?_) fun _ _ _ => trivial
  have hr : net.ringRouter idx < net.numRouters := ringRouter_of_ringAt he ▸ hp.1
  rw [holds_ite]
  refine ⟨fun _ => ⟨hr, hkept, ?_, fun f hf => ?_⟩, fun _ => ?_⟩
  · dsimp only
    rw [update_self]
    rfl
  · dsimp only at hf
    rw [update_self] at hf
    cases hf
  rw [holds_bind]
  refine (holds_true _).mono (fun next hnext _ => ?_) fun _ _ _ => trivial
  rw [holds_bind]
  refine (holds_true _).imp fun ⟨f, rest⟩ _ => ?_
  unfold lookupRoutingTablePrefOutport
  dsimp only
  rw [holds_bind]
  refine .require ⟨fun _ => ?_, fun _ => trivial⟩
  rw [holds_pure, holds_bind]
  refine (holds_true _).mono (fun forward hforward _ => ?_) fun _ _ _ => trivial
  rw [ringRouter_of_ringAt he, ringRouter_of_ringAt hnext] at hforward
  refine .require ⟨fun _ => ?_, fun _ => trivial⟩
  rw [holds_bind]
  refine upstreamLink_spec.mono ?_ fun _ _ _ => trivial
  rintro ⟨l, _⟩ _ ⟨dirns, rfl, _⟩
  dsimp only
  rw [holds_bind]
  refine (holds_true _).imp fun o _ => ?_
  obtain ⟨stats, hstats⟩ := countFlit_eq forward s
  have hcount : (s.countFlit forward).stats = net.countSlot idx s.stats (some f) :=
    countFlit_countSlot (by rw [makesProgress, hforward])
  rw [hstats] at hcount ⊢
  refine ⟨hr, hkept, ?_, fun g hg => ?_⟩
  · change stats = net.countSlot idx s.stats (update s.spinFlit (idx + 1) _ (idx + 1))
    rw [update_self]
    exact hcount
  · change update s.spinFlit (idx + 1) _ (idx + 1) = _ at hg
    rw [update_self] at hg
    cases hg
    rw [ringRouter_of_ringAt he]

def slotAdded (net : Net) (idx : Nat) (x : Option Flit) : Int :=
  x.elim 0 fun f => max 0 (net.computeHopsRemaining (net.ringRouter idx) f.route.destRouter -
    f.hopsNeededBeforeSpin)

theorem countMisroute_stats (net : Net) (s : State) (r : Nat) (f : Flit) : (s.countMisroute net r f).stats = { s.stats with
    totalMisroute := s.stats.totalMisroute +
      max 0 (net.computeHopsRemaining r f.route.destRouter - f.hopsNeededBeforeSpin) } := by
  unfold countMisroute
  dsimp only
  split
  · next h =>
    rw [max_eq_right (by omega)]
  · next h =>
    rw [max_eq_left (by omega), add_zero]

theorem insertSpun_counted : Holds (insertSpun net vc (s, num) idx)
    (fun t => t.1.spinFlit = s.spinFlit ∧ t.1.stats = { s.stats with
      totalMisroute := s.stats.totalMisroute + slotAdded net idx (s.spinFlit idx) }) fun _ => True := by
  cases hslot : s.spinFlit idx with
  | none =>
    rw [insertSpun_none hslot]
    exact ⟨rfl, by simp [slotAdded]⟩
  | some f =>
    unfold insertSpun
    simp only [hslot]
    rw [holds_bind]
    refine (holds_true _).mono (fun e he _ => ?_) fun _ _ _ => trivial
    rw [ringRouter_of_ringAt he, holds_bind]
    refine (holds_true _).imp fun p _ => ?_
    rw [holds_bind]
    refine outportCompute_routed.imp ?_
    rintro ⟨o, s₁⟩ hrouted
    obtain ⟨dirns, random, rfl⟩ : ∃ dirns random, s₁ = { s with
        outportsDirn2idx := dirns
        random := random } := ⟨_, _, hrouted.frame⟩
    dsimp only
    rw [holds_bind]
    refine (holds_true _).imp fun op _ => ?_
    refine .require ⟨fun _ => ?_, fun _ => trivial⟩
    generalize hg : ({ f with
      outport := o
      outportDir := op.dirn } : Flit).incrementHops = g
    have hstats := countMisroute_stats net { s with
      outportsDirn2idx := dirns
      random := random } (net.ringRouter idx) g
    obtain ⟨stats, hmis⟩ := countMisroute_eq net (net.ringRouter idx) g { s with
      outportsDirn2idx := dirns
      random := random }
    rw [hmis] at hstats ⊢
    refine .require ⟨fun _ => ?_, fun _ => trivial⟩
    rw [holds_bind]
    refine upstreamLink_spec.mono ?_ fun _ _ _ => trivial
    rintro ⟨l, _⟩ _ ⟨dirns', rfl, _⟩
    dsimp only
    rw [holds_bind]
    refine (holds_true _).imp fun o' _ => ?_
    subst hg
    exact ⟨rfl, hstats⟩

structure FlitsCounted (net : Net) (st : Stats) (n : Nat) (s : State) : Prop where
  tallied : Tallied net s.spinFlit n st s.stats
  totalMisroute : s.stats.totalMisroute = st.totalMisroute
  routers : ∀ i < n, net.ringRouter i < net.numRouters
  hops : ∀ i < n, ∀ f, s.spinFlit (i + 1) = some f →
    f.hopsNeededBeforeSpin = net.computeHopsRemaining (net.ringRouter i) f.route.destRouter

theorem Net.countSlot_totalMisroute (net : Net) (n : Nat) (st : Stats) (x : Option Flit) :
    (net.countSlot n st x).totalMisroute = st.totalMisroute := by
  cases x with
  | none => rfl
  | some f => cases hf : net.makesProgress n f <;> simp [countSlot, hf]

theorem FlitsCounted.step {st : Stats} {s' : State} (h : FlitsCounted net st n s)
    (hstep : SlotCounted net n s s') : FlitsCounted net st (n + 1) s' := by
  refine ⟨?_, ?_, ?_, ?_⟩
  · rw [hstep.stats]
    exact (h.tallied.congr hstep.kept).countSlot
  · rw [hstep.stats, net.countSlot_totalMisroute, h.totalMisroute]
  · intro i hi
    rcases Nat.lt_succ_iff_lt_or_eq.mp hi with hi | rfl
    · exact h.routers i hi
    · exact hstep.router
  · intro i hi f hf
    rcases Nat.lt_succ_iff_lt_or_eq.mp hi with hi | rfl
    · rw [hstep.kept (i + 1) hi] at hf
      exact h.hops i hi f hf
    · exact hstep.hops f hf

theorem removeFlits_counted (st : Stats) (h : FlitsCounted net st 0 s) (n : Nat) :
    Holds ((range n).foldlM (removeFlit net vc) (s, num))
      (fun t => FlitsCounted net st n t.1) fun _ => True :=
  holds_foldlM_range (fun k (t : State × Int) => FlitsCounted net st k t.1) h
    fun _ _ _ ht => removeFlit_counted.imp fun _ => ht.step

theorem insertFlits_counted (n : Nat) :
    Holds ((range' 1 n).foldlM (insertSpun net vc) (s, num))
      (fun t => t.1.spinFlit = s.spinFlit ∧ t.1.stats = { s.stats with
        totalMisroute := s.stats.totalMisroute +
          ((range n).map fun i => slotAdded net (i + 1) (s.spinFlit (i + 1))).sum })
      fun _ => True := by
  rw [range'_eq_map_range, foldlM_map]
  refine holds_foldlM_range (fun k (t : State × Int) => t.1.spinFlit = s.spinFlit ∧
    t.1.stats = { s.stats with totalMisroute := s.stats.totalMisroute +
      ((range k).map fun i => slotAdded net (i + 1) (s.spinFlit (i + 1))).sum })
    ⟨rfl, by simp⟩ fun k _ t ht => ?_
  rw [add_comm 1 k]
  refine insertSpun_counted.imp ?_
  rintro t' ⟨hslots, hstats⟩
  refine ⟨hslots.trans ht.1, ?_⟩
  rw [hstats, ht.2, ht.1, range_succ, map_append, sum_append]
  simp [add_assoc]

structure SpinCounts (net : Net) (st : Stats) (s' : State) : Prop where
  tallied : Tallied net s'.spinFlit (net.spinRing.length - 1) st s'.stats
  totalMisroute : s'.stats.totalMisroute = st.totalMisroute +
    ((range (net.spinRing.length - 1)).map fun i =>
      (s'.spinFlit (i + 1)).elim 0 (net.addedHops i)).sum
  routers : ∀ i < net.spinRing.length - 1, net.ringRouter i < net.numRouters

theorem FlitsCounted.slotAdded_eq {st : Stats} (h : FlitsCounted net st n s) (hi : idx < n) :
    slotAdded net (idx + 1) (s.spinFlit (idx + 1)) =
      (s.spinFlit (idx + 1)).elim 0 (net.addedHops idx) := by
  cases hx : s.spinFlit (idx + 1) with
  | none => rfl
  | some f =>
    simp only [slotAdded, Option.elim_some, addedHops]
    rw [h.hops idx hi f hx]

theorem doSpin_counts :
    Holds (s.doSpin net vc) (SpinCounts net s.stats) fun _ => True := by
  unfold doSpin
  dsimp only
  rw [holds_bind]
  have hstart : FlitsCounted net s.stats 0
      { s with stats := { s.stats with totalSpins := s.stats.totalSpins + 1 } } :=
    ⟨⟨rfl, rfl, rfl⟩, rfl, by simp, by simp⟩
  refine (removeFlits_counted s.stats hstart _).imp ?_
  rintro ⟨s₁, num⟩ h₁
  have h₁ : FlitsCounted net s.stats (net.spinRing.length - 1) s₁ := h₁
  dsimp only
  refine .require ⟨fun _ => ?_, fun _ => trivial⟩
  rw [holds_bind]
  refine (insertFlits_counted _).imp ?_
  rintro ⟨s₂, num₂⟩ ⟨hslots, hstats⟩
  dsimp only at hslots hstats ⊢
  refine .require ⟨fun _ => ?_, fun _ => trivial⟩
  have htallied := h₁.tallied
  refine ⟨?_, ?_, h₁.routers⟩
  · rw [hslots, hstats]
    exact ⟨htallied.bubble, htallied.fwdProgress, htallied.misroute⟩
  · rw [hslots, hstats, h₁.totalMisroute]
    refine congrArg (s.stats.totalMisroute + sum ·) (map_congr_left fun i hi => ?_)
    exact h₁.slotAdded_eq (mem_range.mp hi)

end Stages

namespace Topology

variable {t : Topology} {a b c k n w i j : Nat} {x : IntLink}

/-- `RouterPath t a b k`: `k` links between routers lead from `a` to `b`. -/
inductive RouterPath (t : Topology) : Nat → Nat → Nat → Prop
  | refl (a : Nat) : RouterPath t a a 0
  | cons {a b c k : Nat} {x : IntLink} :
      t.intLink a b = some x → RouterPath t b c k → RouterPath t a c (k + 1)

structure UnitWeights (t : Topology) : Prop where
  intLink : ∀ {a b x}, t.intLink a b = some x → x.weight = 1
  extWeight : ∀ n < t.nodes, t.extWeight n = 1

variable (hu : t.UnitWeights)

include hu in
theorem UnitWeights.linkWalk_of_path (hn : n < t.nodes) (h : t.RouterPath a c k)
    (hc : c = t.extRouter n) : t.LinkWalk (t.routerSwitch a) (t.nodeSwitch n) (k + 1) := by
  induction h with
  | refl a =>
    have hlast := LinkWalk.link (linkMap_extOut t hn)
    rwa [← hc, show (⟨_, _, _, _⟩ : LinkEntry).weight = 1 from hu.extWeight n hn] at hlast
  | @cons a b c k x hx _ ih =>
    have hwalk := LinkWalk.cons (linkMap_routers hx) (ih hc)
    rwa [show (⟨_, _, _, _⟩ : LinkEntry).weight = 1 from hu.intLink hx, add_comm 1] at hwalk

include hu in
theorem UnitWeights.path_of_linkWalk (hn : n < t.nodes) (h : t.LinkWalk i j w)
    (hi : i = t.routerSwitch a) (hj : j = t.nodeSwitch n) :
    ∃ k, w = k + 1 ∧ t.RouterPath a (t.extRouter n) k := by
  induction h generalizing a with
  | @link i j e he =>
    subst hi hj
    rcases linkMap_routerSwitch he with ⟨n', hn', hsame, rfl, rfl⟩ | ⟨b, x, hsame, _, _⟩
    · obtain rfl : n = n' := by
        unfold nodeSwitch at hsame
        omega
      exact ⟨0, hu.extWeight n hn, .refl _⟩
    · exact absurd hsame.symm (routerSwitch_ne_nodeSwitch t b hn)
  | @cons i m j w e he hrest ih =>
    subst hi hj
    rcases linkMap_routerSwitch he with ⟨n', hn', rfl, _, _⟩ | ⟨b, x, rfl, hx, rfl⟩
    · exfalso
      cases hrest with
      | link he' => rw [linkMap_nodeSwitch t hn'] at he'; cases he'
      | cons he' _ => rw [linkMap_nodeSwitch t hn'] at he'; cases he'
    · obtain ⟨k, rfl, hpath⟩ := ih rfl rfl
      refine ⟨k + 1, ?_, .cons hx hpath⟩
      rw [show (⟨_, _, _, _⟩ : LinkEntry).weight = 1 from hu.intLink hx]
      omega

include hu in
theorem UnitWeights.weight_eq {e : LinkEntry} (h : t.linkMap (t.routerSwitch a) j = some e) :
    e.weight = 1 := by
  rcases linkMap_routerSwitch h with ⟨n, hn, _, _, rfl⟩ | ⟨b, x, _, hx, rfl⟩
  · exact hu.extWeight n hn
  · exact hu.intLink hx

include hu in
theorem UnitWeights.dist_le (ha : a < t.numRouters) (hn : n < t.nodes) :
    t.dist (t.routerSwitch a) (t.nodeSwitch n) ≤ infiniteLatency := by
  refine (t.dist_isClosure.le_weight _ (routerSwitch_lt ha) _ (nodeSwitch_lt hn)).trans ?_
  unfold topologyWeights
  split
  · next e he =>
    rw [hu.weight_eq he]
    decide
  · rw [if_neg (routerSwitch_ne_nodeSwitch t a hn)]

include hu in
theorem UnitWeights.path_of_outport {p : OutPort} (ha : a < t.numRouters) (hb : b < t.numRouters)
    (hn : n < t.nodes) (hp : p ∈ t.outports a) (hlink : p.link = .int a b)
    (hentry : n ∈ p.routingTableEntry) (hpath : t.RouterPath a (t.extRouter n) k) :
    ∃ k', t.RouterPath b (t.extRouter n) k' ∧ k' + 1 ≤ k := by
  have hD := dist_outport hp hentry
  have hle := hu.dist_le ha hn
  have hk := dist_le_linkWalk (hu.linkWalk_of_path hn hpath rfl)
  have hw : p.weight = 1 := by
    obtain ⟨j, e, he, _, rfl⟩ := mem_outports.mp hp
    exact hu.weight_eq he
  rw [hw, hlink] at hD
  change _ = 1 + t.dist (t.routerSwitch b) (t.nodeSwitch n) at hD
  have hwalk := dist_linkWalk (routerSwitch_lt hb) (nodeSwitch_lt hn)
    (routerSwitch_ne_nodeSwitch t b hn) (by omega)
  obtain ⟨k', hk', hpath'⟩ := hu.path_of_linkWalk hn hwalk rfl rfl
  exact ⟨k', hpath', by omega⟩

end Topology

namespace Net

variable {net : Net} {a b c i k : Nat} {d : PortDirection} {f : Flit}

/-- Some way between the routers has no more links than the routers are apart in the grid. -/
def Straight (net : Net) (a c : Nat) : Prop :=
  ∃ k, net.topology.RouterPath a c k ∧ (k : Int) = net.computeHopsRemaining a c

theorem computeHopsRemaining_gridStep (h : gridStep net.numCols a d b) (c : Nat) :
    net.computeHopsRemaining a c ≤ net.computeHopsRemaining b c + 1 := by
  have hstep := gridStep_coordStep net.numCols_pos h
  unfold computeHopsRemaining
  cases d <;> simp only [coordStep] at hstep <;> omega

theorem computeHopsRemaining_le_path (h : net.topology.RouterPath a c k) :
    net.computeHopsRemaining a c ≤ k := by
  induction h with
  | refl a => simp [computeHopsRemaining]
  | @cons a b c k x hx _ ih =>
    have hstep := computeHopsRemaining_gridStep (net.grid hx).1 c
    rw [Nat.cast_add, Nat.cast_one]
    omega

theorem Straight.isLeast (h : net.Straight a c)
    (hk : IsLeast {k | net.topology.RouterPath a c k} k) : (k : Int) = net.computeHopsRemaining a c := by
  obtain ⟨k', hpath, hk'⟩ := h
  have hle : k ≤ k' := hk.2 hpath
  have hge := computeHopsRemaining_le_path hk.1
  omega

theorem FullMesh.straight (hf : net.FullMesh) (ha : a < net.numRouters) (hc : c < net.numRouters) :
    net.Straight a c := by
  generalize hm : (net.computeHopsRemaining a c).toNat = m
  induction m using Nat.strong_induction_on generalizing a with
  | h m ih =>
    by_cases hac : a = c
    · subst hac
      exact ⟨0, .refl a, by simp [computeHopsRemaining]⟩
    · obtain ⟨d, hprod⟩ := exists_productive (coords_ne hac net.numCols)
      obtain ⟨b, hlink⟩ := hasLink_of_productive hf ha hc hprod
      have hstep := computeHopsRemaining_step hlink.gridStep hprod
      have hpos : 0 ≤ net.computeHopsRemaining b c := by
        unfold computeHopsRemaining
        omega
      obtain ⟨k, hpath, hk⟩ := ih _ (by omega) hlink.lt.2 rfl
      obtain ⟨x, hx, _, _⟩ := hlink
      exact ⟨k + 1, .cons hx hpath, by omega⟩

theorem leadsTo_true {r target : Nat} {os : List Nat} (h : net.leadsTo r target os = .ok true) :
    ∃ o ∈ os, ∃ p, (net.outports r)[o]? = some p ∧ net.getUpstreamId p.dirn r = .ok (target : Int) := by
  induction os with
  | nil => cases h
  | cons o os ih =>
    unfold leadsTo at h
    obtain ⟨p, hp, h⟩ := bind_eq_ok.mp h
    obtain ⟨u, hu, h⟩ := bind_eq_ok.mp h
    obtain ⟨_, _, h⟩ := bind_eq_ok.mp h
    split at h
    · next heq =>
      refine ⟨o, by simp, p, ?_, heq ▸ hu⟩
      unfold outportAt at hp
      cases ho : (net.outports r)[o]? with
      | none => simp [ho] at hp
      | some q => simpa [ho] using hp
    · obtain ⟨o', ho', hrest⟩ := ih h
      exact ⟨o', by simp [ho'], hrest⟩

theorem makesProgress_spec (hroute : RouteOk net f.route) (hr : net.ringRouter i < net.numRouters)
    (h : net.makesProgress i f = true) : net.ringRouter (i + 1) = net.ringRouter i ∨
      ∃ p ∈ net.outports (net.ringRouter i),
        p.link = .int (net.ringRouter i) (net.ringRouter (i + 1)) ∧
        net.ringRouter (i + 1) < net.numRouters ∧ f.route.destNi ∈ p.routingTableEntry := by
  have hleads : net.leadsTo (net.ringRouter i) (net.ringRouter (i + 1))
      (outputLinkCandidates (net.outports (net.ringRouter i)) f.route.netDest) = .ok true := by
    unfold makesProgress at h
    split at h
    · next forward hforward => rw [hforward, h]
    · cases h
  obtain ⟨o, ho, p, hp, hid⟩ := leadsTo_true hleads
  have hmem := mem_of_getElem? hp
  rcases outport_cases hr hmem with ⟨_, _, _, _, hlocal⟩ | ⟨b, hlink, hl⟩
  · left
    rw [hlocal] at hid
    have hsame : ((net.ringRouter i : Nat) : Int) = net.ringRouter (i + 1) := Except.ok.inj hid
    omega
  · right
    rw [getUpstreamId_of_gridStep hlink.gridStep] at hid
    have hb : (b : Int) = net.ringRouter (i + 1) := Except.ok.inj hid
    obtain rfl : b = net.ringRouter (i + 1) := by omega
    obtain ⟨q, hq, hmatch, _⟩ := mem_outputLinkCandidates.mp ho
    rw [hp] at hq
    cases hq
    rw [hroute.netDest, Topology.matchesEntry_singleton] at hmatch
    exact ⟨p, hmem, hl, hlink.lt.2, hmatch⟩

theorem addedHops_of_makesProgress (hu : net.topology.UnitWeights) (hroute : RouteOk net f.route)
    (hr : net.ringRouter i < net.numRouters)
    (hstraight : net.Straight (net.ringRouter i) f.route.destRouter)
    (h : net.makesProgress i f = true) : net.addedHops i f = 0 := by
  unfold addedHops
  refine max_eq_left ?_
  rcases makesProgress_spec hroute hr h with hsame | ⟨p, hp, hlink, hb, hentry⟩
  · rw [hsame]
    omega
  · obtain ⟨k, hpath, hk⟩ := hstraight
    rw [net.outports_eq _ hr] at hp
    rw [hroute.destRouter] at hpath hk ⊢
    obtain ⟨k', hpath', hle⟩ := hu.path_of_outport hr hb hroute.destNi hp hlink hentry hpath
    have hge : net.computeHopsRemaining _ (net.extRouter f.route.destNi) ≤ k' :=
      computeHopsRemaining_le_path hpath'
    omega

theorem addedHops_of_straight {before after h : Nat}
    (hstraight : net.Straight (net.ringRouter i) f.route.destRouter)
    (hstraight' : net.Straight (net.ringRouter (i + 1)) f.route.destRouter)
    (hbefore : IsLeast {k | net.topology.RouterPath (net.ringRouter i) f.route.destRouter k} before)
    (hafter : IsLeast {k | net.topology.RouterPath (net.ringRouter (i + 1)) f.route.destRouter k} after)
    (hgrown : after = before + h) : net.addedHops i f = h := by
  unfold addedHops
  rw [← hstraight.isLeast hbefore, ← hstraight'.isLeast hafter, hgrown]
  omega

end Net

namespace IrregularMeshXY

variable {numCpus meshRows vc : Nat} {nodes : List Controller} {conf : ConfFile} {m : MadeLinks}
  {net : Net} {s s' : State}

theorem unitWeights {t : Topology} (h : makeTopology numCpus meshRows nodes conf = .ok m)
    (ht : m.topology = some t) : t.UnitWeights := by
  obtain ⟨_, _, _, hext, hint⟩ := MadeLinks.topology_spec ht
  refine ⟨fun {a b x} hx => ?_, fun n _ => hext n⟩
  rw [hint] at hx
  obtain ⟨l, hl, _, _, rfl⟩ := MadeLinks.mem_of_intLink hx
  exact (intLinks_grid h hl).2.2.2.2

/-- The two measures agree for a flit from whose routers the destination can be reached without
a detour: progress adds no hops, and a flit on a wrong way adds those its shortest way grows by. -/
theorem spin_measures_agree (h : makeTopology numCpus meshRows nodes conf = .ok m)
    (ht : m.topology = some net.topology) (hs : Wf net s.toCore) (hvc : vc < net.numVcs)
    (hspin : s.doSpin net vc = .ok s') :
    s'.stats.fwdProgress + s'.stats.misroute + s'.stats.bubble =
        s.stats.fwdProgress + s.stats.misroute + s.stats.bubble + (net.spinRing.length - 1) ∧
      SpinCounts net s.stats s' ∧
      (∀ i < net.spinRing.length - 1, ∀ f, s'.spinFlit (i + 1) = some f →
        net.Straight (net.ringRouter i) f.route.destRouter →
          (net.makesProgress i f = true → net.addedHops i f = 0) ∧
          (net.makesProgress i f = false →
            net.Straight (net.ringRouter (i + 1)) f.route.destRouter → ∀ before after h : Nat,
            IsLeast {k | net.topology.RouterPath (net.ringRouter i) f.route.destRouter k} before →
            IsLeast {k | net.topology.RouterPath (net.ringRouter (i + 1)) f.route.destRouter k} after →
            after = before + h → net.addedHops i f = h)) ∧
      (net.FullMesh → ∀ a < net.numRouters, ∀ c < net.numRouters, net.Straight a c) := by
  have hcounts := doSpin_counts.of_ok hspin
  have hslots := ((doSpin_spinning hs hvc).of_ok hspin).1.slots
  refine ⟨hcounts.tallied.total, hcounts, fun i hi f hf hstraight => ⟨fun hforward => ?_, ?_⟩,
    fun hf a ha c hc => hf.straight ha hc⟩
  · have hroute : RouteOk net f.route := (hslots i hi f hf).1.1.ok.route
    exact addedHops_of_makesProgress (unitWeights h ht) hroute (hcounts.routers i hi) hstraight
      hforward
  · intro _ hstraight' before after grown hbefore hafter hgrown
    exact addedHops_of_straight hstraight hstraight' hbefore hafter hgrown

def cycleConf : ConfFile := ⟨2, 2, [[0, 1, 0, 0], [0, 0, 0, 1], [1, 0, 0, 0], [0, 0, 1, 0]]⟩

def cycleLinks : MadeLinks :=
  ⟨4, [⟨0, 0, 0⟩, ⟨1, 1, 1⟩, ⟨2, 2, 2⟩, ⟨3, 3, 3⟩],
    [⟨4, 0, 1, link .East⟩, ⟨5, 3, 2, link .West⟩, ⟨6, 1, 3, link .North⟩, ⟨7, 2, 0, link .South⟩]⟩

theorem makeTopology_cycleConf : makeTopology 4 2 squareNodes cycleConf = .ok cycleLinks := rfl

theorem cycleLinks_ok : cycleLinks.Ok := by decide

def cycleTopology : Topology where
  numRouters := 4
  nodes := 4
  extRouter := cycleLinks.extRouter
  extWeight := fun _ => 1
  intLink := cycleLinks.intLink
  extRouter_lt := fun n _ => cycleLinks_ok.extRouter_lt n
  extWeight_pos := fun _ _ => Nat.one_pos
  intLink_lt := fun he => by
    obtain ⟨l, hl, rfl, rfl, _⟩ := MadeLinks.mem_of_intLink he
    exact ⟨(cycleLinks_ok.2.2 l hl).1, (cycleLinks_ok.2.2 l hl).2.1⟩
  intLink_pos := fun he => by
    obtain ⟨l, hl, _, _, rfl⟩ := MadeLinks.mem_of_intLink he
    exact (cycleLinks_ok.2.2 l hl).2.2

theorem topology_cycleLinks : cycleLinks.topology = some cycleTopology := dif_pos cycleLinks_ok

/-- The mesh with the table of its routers; a drain moves every flit twice. -/
def cycleNet : Net :=
  { gridNet .table (show 2 * 2 = cycleTopology.numRouters from rfl) (by decide)
      (topology_grid makeTopology_cycleConf topology_cycleLinks) with
    inports := fun r =>
      if r = 0 then [⟨.extIn 0, .Local⟩, ⟨.int 2 0, .North⟩]
      else if r = 1 then [⟨.extIn 1, .Local⟩, ⟨.int 0 1, .West⟩]
      else if r = 2 then [⟨.extIn 2, .Local⟩, ⟨.int 3 2, .East⟩]
      else [⟨.extIn 3, .Local⟩, ⟨.int 1 3, .South⟩]
    outports := fun r =>
      if r = 0 then [⟨.extOut 0, .Local, [0], 1⟩, ⟨.int 0 1, .East, [1, 2, 3], 1⟩]
      else if r = 1 then [⟨.extOut 1, .Local, [1], 1⟩, ⟨.int 1 3, .North, [0, 2, 3], 1⟩]
      else if r = 2 then [⟨.extOut 2, .Local, [2], 1⟩, ⟨.int 2 0, .South, [0, 1, 3], 1⟩]
      else [⟨.extOut 3, .Local, [3], 1⟩, ⟨.int 3 2, .West, [0, 1, 2], 1⟩]
    inports_eq := by decide +kernel
    outports_eq := by decide +kernel
    isVNetOrdered := fun _ => false
    spin := true
    spinThrshld := 8
    spinMult := 2
    spinRing := [⟨0, .North⟩, ⟨1, .West⟩, ⟨3, .South⟩, ⟨2, .East⟩, ⟨0, .North⟩]
    spinThrshld_pos := eight_pos }

/-- A flit for node `dest` is at router 1 when the network is halted, in cycle 11 it is drained. -/
def cycleActions (dest : Nat) : List Action :=
  [.message 0 0 ⟨[dest], 4⟩, .tick, .tick, .tick, .tick, .ni 0 fun _ => true, .tick, .link (.extIn 0),
    .tick, .router 0, .tick, .link (.int 0 1), .creditLink (.extIn 0), .tick, .router 1,
    .ni 0 fun _ => true, .tick, .router 1, .tick, .router 1, .tick]

/-- `doSpin` moves a flit for router `dest` on from position `i`, as one that makes progress or not,
and adds `hops` to the total. -/
def MovesOn (dest i : Nat) (forward : Bool) (hops : Int) (s s' : State) : Prop :=
  s'.stats.fwdProgress = s.stats.fwdProgress + forward.toNat ∧
    s'.stats.misroute = s.stats.misroute + (!forward).toNat ∧
    s'.stats.totalMisroute = s.stats.totalMisroute + hops ∧
    ∃ f ∈ s'.spinFlit (i + 1), f.route.destRouter = dest ∧ cycleNet.makesProgress i f = forward

instance (dest i : Nat) (forward : Bool) (hops : Int) (s s' : State) :
    Decidable (MovesOn dest i forward hops s s') :=
  inferInstanceAs (Decidable (_ ∧ _ ∧ _ ∧ _))

theorem spin_measures_agree_cycleNet : ∃ s s' : State, s.Reachable cycleNet ∧
    s.doSpin cycleNet 0 = .ok s' ∧
    s'.stats.fwdProgress + s'.stats.misroute + s'.stats.bubble =
      s.stats.fwdProgress + s.stats.misroute + s.stats.bubble + 4 ∧
    ∃ f, s'.spinFlit 2 = some f ∧ cycleNet.makesProgress 1 f = true ∧ cycleNet.addedHops 1 f = 0 := by
  have hrun : ∃ s : State, s.Reachable cycleNet ∧
      ∃ s' ∈ (s.doSpin cycleNet 0).toOption, MovesOn 3 1 true 0 s s' :=
    exists_reachable (cycleActions 3) (fun _ => 0) (by decide +kernel)
  obtain ⟨s, hreach, s', hspin, _, _, _, f, hf, hdest, hforward⟩ := hrun
  rw [mem_toOption] at hspin
  obtain ⟨htotal, _, hagree, _⟩ := spin_measures_agree makeTopology_cycleConf topology_cycleLinks
    hreach.free.wf.1 (by decide) hspin
  have hnorth : cycleTopology.intLink 1 3 = some (link .North) := rfl
  have hstraight : cycleNet.Straight (cycleNet.ringRouter 1) f.route.destRouter := by
    rw [hdest]
    exact ⟨1, .cons hnorth (.refl 3), by decide⟩
  exact ⟨s, s', hreach, hspin, htotal, f, hf, hforward,
    (hagree 1 (by decide) f hf hstraight).1 hforward⟩

def cycleNext (r : Nat) : Nat := if r = 0 then 1 else if r = 1 then 3 else if r = 3 then 2 else 0

theorem cycleNext_of_intLink {a b : Nat} {x : IntLink} (h : cycleTopology.intLink a b = some x) :
    b = cycleNext a := by
  obtain ⟨l, hl, rfl, rfl, _⟩ := MadeLinks.mem_of_intLink h
  have hall : ∀ l ∈ cycleLinks.intLinks, l.dstNode = cycleNext l.srcNode := by decide
  exact hall l hl

theorem iterate_of_path {a c k : Nat} (h : cycleTopology.RouterPath a c k) : c = cycleNext^[k] a := by
  induction h with
  | refl a => rfl
  | cons hx _ ih => rw [ih, Function.iterate_succ_apply, cycleNext_of_intLink hx]

theorem isLeast_path_three : IsLeast {k | cycleTopology.RouterPath 3 1 k} 3 := by
  constructor
  · have hwest : cycleTopology.intLink 3 2 = some (link .West) := rfl
    have hsouth : cycleTopology.intLink 2 0 = some (link .South) := rfl
    have heast : cycleTopology.intLink 0 1 = some (link .East) := rfl
    exact .cons hwest (.cons hsouth (.cons heast (.refl 1)))
  · intro k hk
    have hk := iterate_of_path hk
    by_contra hlt
    push Not at hlt
    interval_cases k <;> simp [cycleNext] at hk

/-- Where links lead in one direction only, a flit drained from its destination is three hops away
but counted as one, and its next hop, on the shortest way, is counted as another one. -/
theorem spin_measures_differ_cycleNet :
    makeTopology 4 2 squareNodes cycleConf = .ok cycleLinks ∧
      cycleLinks.topology = some cycleNet.topology ∧ cycleNet.routingAlgorithm = .table ∧
      cycleNet.RingOk ∧ ∃ s s₁ s₂ : State, s.Reachable cycleNet ∧
        releaseTime cycleNet s.toCore ∧ s.halt 0 = true ∧
        s.doSpin cycleNet 0 = .ok s₁ ∧ s₁.doSpin cycleNet 0 = .ok s₂ ∧
        ((∃ f, s₁.spinFlit 2 = some f ∧ f.route.destRouter = 1 ∧ cycleNet.makesProgress 1 f = false) ∧
          IsLeast {k | cycleTopology.RouterPath 1 1 k} 0 ∧
          IsLeast {k | cycleTopology.RouterPath 3 1 k} 3 ∧
          s₁.stats.misroute = s.stats.misroute + 1 ∧
          s₁.stats.totalMisroute = s.stats.totalMisroute + 1) ∧
        (∃ f, s₂.spinFlit 3 = some f ∧ f.route.destRouter = 1 ∧ cycleNet.makesProgress 2 f = true) ∧
          s₂.stats.fwdProgress = s₁.stats.fwdProgress + 1 ∧
          s₂.stats.totalMisroute = s₁.stats.totalMisroute + 1 := by
  refine ⟨makeTopology_cycleConf, topology_cycleLinks, rfl,
    ⟨⟨by decide, rfl⟩, by decide⟩, ?_⟩
  have hrun : ∃ s : State, s.Reachable cycleNet ∧ releaseTime cycleNet s.toCore ∧ s.halt 0 = true ∧
      ∃ s₁ ∈ (s.doSpin cycleNet 0).toOption, MovesOn 1 1 false 1 s s₁ ∧
        ∃ s₂ ∈ (s₁.doSpin cycleNet 0).toOption, MovesOn 1 2 true 1 s₁ s₂ :=
    exists_reachable (cycleActions 1) (fun _ => 0) (by decide +kernel)
  obtain ⟨s, hreach, htime, hhalt, s₁, h₁, ⟨_, hmis₁, htotal₁, hf₁⟩, s₂, h₂,
    ⟨hfwd₂, _, htotal₂, hf₂⟩⟩ := hrun
  exact ⟨s, s₁, s₂, hreach, htime, hhalt, mem_toOption.mp h₁, mem_toOption.mp h₂,
    ⟨hf₁, ⟨.refl 1, fun _ _ => Nat.zero_le _⟩, isLeast_path_three, hmis₁, htotal₁⟩,
    hf₂, hfwd₂, htotal₂⟩

end IrregularMeshXY

end Drain
