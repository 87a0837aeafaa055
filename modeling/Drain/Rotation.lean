import Drain.DoSpin

/-! From a quiescent state `doSpin` rotates the flits of one VC index by one
position, and the state is quiescent again. Repeated, the rotation takes every
flit past its destination router. -/

namespace Drain

open Nat

/-- The sender of an internal link sees the receiver's VC as it is. -/
def LinkVc.Settled (max : Nat) (c : LinkVc) : Prop :=
  c.2.maxCreditCount = max ∧
    if c.1.inputBuffer = [] then c.2.vcState = .idle ∧ c.2.creditCount = max
    else c.2.vcState = .active ∧ c.2.creditCount = max - 1

structure Quiescent (net : Net) (s : Core) : Prop where
  dirns : DirnOk net s.outportsDirn2idx
  vcs : ∀ r < net.numRouters, ∀ p ∈ net.inports r, ∀ v < net.numVcs, VcOk net (s.vcs p.link v)
  credits : ∀ a b d, net.HasLink a b d → ∀ v < net.numVcs,
    (s.linkVc (.int a b) v).Settled (net.maxCreditCount v)

section Spin

variable {net : Net} {s s' : Core} {vc i : Nat} {f f' : Flit}

theorem LinkVc.Settled.removed {c : LinkVc} {max : Nat} (h : c.Settled max) (hv : VcOk net c.1)
    (curTime : Nat) : (c.removed curTime).Settled max := by
  have hempty := (hv.removed curTime).1
  refine ⟨?_, ?_⟩
  · unfold LinkVc.removed
    split
    · exact h.1
    · exact h.1
  · rw [if_pos hempty]
    unfold LinkVc.removed
    have hc := h.2
    split
    · next he =>
      rwa [if_pos he] at hc
    · next he =>
      rw [if_neg he] at hc
      refine ⟨rfl, ?_⟩
      change c.2.creditCount + 1 = max
      omega

theorem LinkVc.Settled.placed {c : LinkVc} {max curTime : Nat} (h : c.Settled max)
    (he : c.1.inputBuffer = []) : (c.placed curTime f).Settled max := by
  have hc := h.2
  rw [if_pos he] at hc
  have hfull : (c.placed curTime f).1.inputBuffer = [f] := by
    change bufferInsert f c.1.inputBuffer = [f]
    rw [he]
    rfl
  refine ⟨h.1, ?_⟩
  rw [hfull, if_neg (List.cons_ne_nil f [])]
  refine ⟨rfl, ?_⟩
  change c.2.creditCount - 1 = _
  rw [hc.2]

theorem Respun.flitOk {r : Nat} (h : Respun net r f f') (hf : FlitOk net f) : FlitOk net f' := by
  obtain ⟨hroute, hbefore, hafter⟩ := hf
  have heq := h.eq
  refine ⟨?_, ?_, ?_⟩
  · rw [heq]
    exact ⟨hroute.netDest, hroute.destNi, hroute.destRouter⟩
  · rw [heq]
    exact hbefore
  · rw [heq]
    exact hafter

theorem Quiescent.vcOk_ring (h : Quiescent net s) (hring : net.RingOk) (hvc : vc < net.numVcs)
    (hi : i < net.ringSize) : VcOk net (s.vcs (net.ringLink i) vc) := by
  obtain ⟨_, a, b, d, _, hentry, hl⟩ := hring.entry hi
  rw [hl]
  exact h.vcs b hentry.hasLink.lt.2 _ hentry.hasLink.inport vc hvc

theorem Quiescent.settled_ring (h : Quiescent net s) (hring : net.RingOk)
    (hvc : vc < net.numVcs) (hi : i < net.ringSize) :
    (s.linkVc (net.ringLink i) vc).Settled (net.maxCreditCount vc) := by
  obtain ⟨_, a, b, d, _, hentry, hl⟩ := hring.entry hi
  rw [hl]
  exact h.credits a b d hentry.hasLink vc hvc

theorem Quiescent.spinSafe (h : Quiescent net s) (hring : net.RingOk)
    (hvc : vc < net.numVcs) : s.SpinSafe net vc := by
  have hpos := net.maxCreditCount_pos vc
  refine ⟨fun i hi hne => ?_, fun i hi _ => ?_⟩
  · have hs := h.settled_ring hring hvc hi
    have hcredit := hs.2
    rw [if_neg ?_] at hcredit
    · have hmax : (s.outvcState (net.ringLink i) vc).maxCreditCount = _ := hs.1
      have hcount : (s.outvcState (net.ringLink i) vc).creditCount = _ := hcredit.2
      omega
    · intro hempty
      refine hne ?_
      change (s.linkVc (net.ringLink i) vc).1.inputBuffer.head? = none
      rw [hempty]
      rfl
  · rw [hring.ringLink_mod (i := i + 1) hi]
    have hlt := mod_lt (i + 1) (show 0 < net.ringSize by omega)
    have hvc' := h.vcOk_ring hring hvc hlt
    have hs := ((h.settled_ring hring hvc hlt).removed hvc' s.curCycle).2
    rw [if_pos (VcOk.removed (c := s.linkVc _ vc) hvc' s.curCycle).1] at hs
    omega

theorem Placed.spec {r curTime max : Nat} {x : Option Flit} {c c' : LinkVc}
    (h : Placed net r curTime x c c') (hc : c.1.inputBuffer = [] ∧ c.1.vcState = .idle)
    (hf : ∀ f, x = some f → FlitOk net f) (hs : c.Settled max) :
    VcOk net c'.1 ∧ c'.Settled max ∧ Option.Rel (Respun net r) x c'.1.inputBuffer.head? := by
  cases x with
  | none =>
    have heq : c' = c := h
    rw [heq, hc.1]
    exact ⟨.inl hc, hs, .none⟩
  | some f =>
    obtain ⟨f', hf', rfl⟩ := h
    have hfull : (c.placed curTime f').1.inputBuffer = [f'] := by
      change bufferInsert f' c.1.inputBuffer = [f']
      rw [hc.1]
      rfl
    rw [hfull]
    exact ⟨.inr ⟨f', hfull, rfl, hf'.flitOk (hf f rfl)⟩, hs.placed hc.1, .some hf'⟩

theorem Spun.linkVc_of_ne (h : Spun net vc s s') (hring : net.RingOk) {l : Link} {v : Nat}
    (hne : v ≠ vc ∨ ∀ a b, l ≠ .int a b) : s'.linkVc l v = s.linkVc l v := by
  refine h.channels.rest l v fun hv i hi hl => ?_
  obtain ⟨_, a, b, _, _, _, hlink⟩ := hring.entry_succ hi
  rcases hne with hne | hne
  · exact hne hv
  · exact hne a b (hl.trans hlink)

theorem Spun.position (h : Spun net vc s s') (hring : net.RingOk) (hq : Quiescent net s)
    (hvc : vc < net.numVcs) (hi : i < net.ringSize) :
    VcOk net (s'.linkVc (net.ringLink ((i + 1) % net.ringSize)) vc).1 ∧
    (s'.linkVc (net.ringLink ((i + 1) % net.ringSize)) vc).Settled (net.maxCreditCount vc) ∧
    Option.Rel (Respun net (net.dstRouter (net.ringLink ((i + 1) % net.ringSize))))
      (s.flitAt net vc i) (s'.flitAt net vc ((i + 1) % net.ringSize)) := by
  have hplaced := h.channels.done i hi
  have hlt := mod_lt (i + 1) (show 0 < net.ringSize by omega)
  have hmod : net.ringLink (i + 1) = net.ringLink ((i + 1) % net.ringSize) := hring.ringLink_mod hi
  rw [hmod] at hplaced
  have hok := hq.vcOk_ring hring hvc hlt
  exact hplaced.spec (VcOk.removed (c := s.linkVc _ vc) hok s.curCycle)
    (fun f hf => (hq.vcOk_ring hring hvc hi).flitOk hf)
    ((hq.settled_ring hring hvc hlt).removed hok s.curCycle)

theorem Net.RingOk.exists_succ_mod (hring : net.RingOk) {a b : Nat} {d : PortDirection}
    (h : net.HasLink a b d) :
    ∃ i < net.ringSize, net.ringLink ((i + 1) % net.ringSize) = .int a b := by
  obtain ⟨j, hj, hlink⟩ := hring.exists_ringLink h
  obtain ⟨i, hi, hij⟩ := hring.exists_pred hj
  refine ⟨i, hi, ?_⟩
  rw [← hring.ringLink_mod (i := i + 1) hi, hij, hlink]

theorem Spun.quiescent (h : Spun net vc s s') (hring : net.RingOk) (hq : Quiescent net s)
    (hvc : vc < net.numVcs) : Quiescent net s' := by
  refine ⟨hq.dirns.ext h.dirns, fun r hr p hp v hv => ?_, fun a b d hd v hv => ?_⟩
  · by_cases hspun : v = vc ∧ ∃ a b, p.link = .int a b
    · obtain ⟨rfl, _⟩ := hspun
      rcases Net.inport_cases hr hp with ⟨n, _, _, rfl⟩ | ⟨a, d, hd, rfl⟩
      · simp_all
      · obtain ⟨i, hi, hlink⟩ := hring.exists_succ_mod hd
        have := (h.position hring hq hvc hi).1
        rwa [hlink] at this
    · have heq : s'.linkVc p.link v = s.linkVc p.link v := h.linkVc_of_ne hring (by
        by_cases hv' : v = vc
        · exact .inr fun a b hl => hspun ⟨hv', a, b, hl⟩
        · exact .inl hv')
      have hvcs : s'.vcs p.link v = s.vcs p.link v := congrArg Prod.fst heq
      rw [hvcs]
      exact hq.vcs r hr p hp v hv
  · by_cases hspun : v = vc
    · subst hspun
      obtain ⟨i, hi, hlink⟩ := hring.exists_succ_mod hd
      have := (h.position hring hq hvc hi).2.1
      rwa [hlink] at this
    · rw [h.linkVc_of_ne hring (.inl hspun)]
      exact hq.credits a b d hd v hv

end Spin

section Rotate

variable {net : Net} {s : State} {vc : Nat}

theorem Quiescent.doSpin (hq : Quiescent net s.toCore) (hring : net.RingOk) (hn : net.Routable)
    (hvc : vc < net.numVcs) :
    ∃ s', s.doSpin net vc = .ok s' ∧ Spun net vc s.toCore s'.toCore ∧
      Quiescent net s'.toCore := by
  have hspun := doSpin_spun hring hq.dirns fun i hi => hq.vcOk_ring hring hvc hi
  have hok : Holds (s.doSpin net vc) (fun s' => Spun net vc s.toCore s'.toCore) fun _ => False :=
    hspun.mono (fun _ _ => id) fun _ _ hbad =>
      hbad.elim (fun h => h.2 hn) (fun h => h (hq.spinSafe hring hvc))
  obtain ⟨s', heq, h⟩ := hok.exists_ok
  exact ⟨s', heq, h, h.quiescent hring hq hvc⟩

/-- From a quiescent state `doSpin` passes all its assertions and moves the flit of
every position of the ring to the next one; nothing else changes, and the state
is quiescent again. -/
theorem doSpin_rotates (hring : net.RingOk) (hn : net.Routable) (hq : Quiescent net s.toCore)
    (hvc : vc < net.numVcs) :
    ∃ s', s.doSpin net vc = .ok s' ∧
      (∀ i < net.ringSize,
        Option.Rel (Respun net (net.dstRouter (net.ringLink ((i + 1) % net.ringSize))))
          (s.flitAt net vc i) (s'.flitAt net vc ((i + 1) % net.ringSize))) ∧
      (∀ l v, v ≠ vc ∨ (∀ a b, l ≠ .int a b) →
        s'.vcs l v = s.vcs l v ∧ s'.outvcState l v = s.outvcState l v) ∧
      s'.toCore = { s.toCore with
        vcs := s'.vcs
        outvcState := s'.outvcState
        outportsDirn2idx := s'.outportsDirn2idx } ∧
      Quiescent net s'.toCore := by
  obtain ⟨s', heq, hspun, hq'⟩ := hq.doSpin hring hn hvc
  refine ⟨s', heq, fun i hi => (hspun.position hring hq hvc hi).2.2, fun l v hne => ?_, hspun.core, hq'⟩
  have hsame := hspun.linkVc_of_ne hring hne
  exact ⟨congrArg Prod.fst hsame, congrArg Prod.snd hsame⟩

end Rotate

/-- One flit, in router 1 and bound for the West port. -/
def westState (route : RouteInfo) : State :=
  let net := pairNet 1 4 Nat.one_pos four_pos
  let f := { newFlit 0 0 0 0 route 1 0 with outport := 1, outportDir := .West }
  let s := State.init net fun _ => 0
  { s with
    vcs := setEntry s.vcs (.int 0 1) 0 (VirtualChannel.new.filled f 0)
    outvcState := setEntry s.outvcState (.int 0 1) 0 ((s.outvcState (.int 0 1) 0).taken 0) }

def pairState : State := westState ⟨0, [0], 1, 1, 0, 0, 0⟩

theorem westState_quiescent {route : RouteInfo}
    (h : RouteOk (pairNet 1 4) route) :
    Quiescent (pairNet 1 4) (westState route).toCore := by
  refine ⟨⟨id, .inl⟩, fun r hr p hp v hv => ?_, fun a b d hd v hv => ?_⟩
  · by_cases hp : p.link = .int 0 1 ∧ v = 0
    · rw [hp.1, hp.2]
      exact .inr ⟨_, rfl, rfl, h, rfl, rfl⟩
    · refine .inl ?_
      have hnew : (westState route).vcs p.link v = .new := setEntry_of_ne _ _ hp
      rw [hnew]
      exact ⟨rfl, rfl⟩
  · have hv : v < 2 := hv
    rw [pairNet_hasLink] at hd
    rcases hd with ⟨rfl, rfl, rfl⟩ | ⟨rfl, rfl, rfl⟩ <;> interval_cases v <;> exact ⟨rfl, rfl, rfl⟩

theorem pairState_quiescent : Quiescent (pairNet 1 4) pairState.toCore :=
  westState_quiescent ⟨rfl, by decide, rfl⟩

theorem doSpin_rotates_pairState :
    ∃ s', pairState.doSpin (pairNet 1 4) 0 = .ok s' ∧
      (s'.flitAt (pairNet 1 4) 0 0).isSome := by
  obtain ⟨s', heq, hmoved, _⟩ := doSpin_rotates pairNet_ringOk pairNet_routable pairState_quiescent
    (show 0 < 2 by decide)
  have hrel := hmoved 1 (by decide)
  refine ⟨s', heq, ?_⟩
  generalize hy : s'.flitAt _ 0 _ = y at hrel
  cases hrel with
  | some _ => exact hy ▸ rfl

def State.doSpins (net : Net) (vc : Nat) : Nat → State → Except Failure State
  | 0, s => pure s
  | k + 1, s => do
    let s ← s.doSpin net vc
    doSpins net vc k s

/-- `f'` is `f` after `k` hops: only its output port and hop count differ. -/
def Hopped (k : Nat) (f f' : Flit) : Prop :=
  f' = { f with
    outport := f'.outport
    outportDir := f'.outportDir
    route := { f.route with hopsTraversed := f.route.hopsTraversed + k } }

/-- If the flit is at its destination router, it leaves by a port of the routing table. -/
def RoutedHome (net : Net) (r : Nat) (f : Flit) : Prop :=
  f.route.destRouter = r → ∃ op, (net.outports r)[f.outport]? = some op ∧ op.dirn = f.outportDir ∧
    f.outport ∈ outputLinkCandidates (net.outports r) f.route.netDest

def Core.RingRouted (s : Core) (net : Net) (vc : Nat) : Prop :=
  ∀ i < net.ringSize, ∀ f, s.flitAt net vc i = some f →
    RoutedHome net (net.dstRouter (net.ringLink i)) f

section Repeat

variable {net : Net} {s s' : State} {vc i k : Nat} {f f' f'' : Flit}

theorem Hopped.refl (f : Flit) : Hopped 0 f f := by
  obtain ⟨⟩ := f
  simp [Hopped]

theorem Respun.hopped {r : Nat} (h : Respun net r f f') : Hopped 1 f f' := h.eq

theorem Hopped.trans {k' : Nat} (h : Hopped k f f') (h' : Hopped k' f' f'') :
    Hopped (k + k') f f'' := by
  unfold Hopped at h h' ⊢
  rw [h', h]
  simp [add_assoc]

theorem Hopped.rel_trans {k' : Nat} {x y z : Option Flit} (h : Option.Rel (Hopped k) x y)
    (h' : Option.Rel (Hopped k') y z) : Option.Rel (Hopped (k + k')) x z := by
  cases h with
  | none =>
    cases h'
    exact .none
  | some h =>
    cases h' with
    | some h' => exact .some (h.trans h')

theorem Respun.routedHome {r : Nat} (h : Respun net r f f') : RoutedHome net r f' := by
  intro hr
  have hroute : f'.route = { f.route with hopsTraversed := f.route.hopsTraversed + 1 } := by
    rw [h.eq]
  rw [hroute] at hr ⊢
  obtain ⟨op, hop, hdir⟩ := h.port
  exact ⟨op, hop, hdir, h.table (.inl hr)⟩

theorem Spun.ringRouted {s s' : Core} (h : Spun net vc s s') (hring : net.RingOk)
    (hq : Quiescent net s) (hvc : vc < net.numVcs) : s'.RingRouted net vc := by
  intro j hj f hf
  obtain ⟨i, hi, hij⟩ := hring.exists_pred hj
  have hmod : net.ringLink (i + 1) = net.ringLink ((i + 1) % net.ringSize) := hring.ringLink_mod hi
  have hrel := (h.position hring hq hvc hi).2.2
  have hat : s'.flitAt net vc ((i + 1) % net.ringSize) = some f := by
    unfold Core.flitAt
    rw [← hmod, hij]
    exact hf
  rw [hat, ← hmod, hij] at hrel
  generalize s.flitAt net vc i = x at hrel
  cases hrel with
  | some hrespun => exact hrespun.routedHome

theorem Quiescent.doSpins (hring : net.RingOk) (hn : net.Routable) (hvc : vc < net.numVcs) (k : Nat)
    (hq : Quiescent net s.toCore) :
    ∃ s', s.doSpins net vc k = .ok s' ∧ Quiescent net s'.toCore ∧
      (0 < k → s'.RingRouted net vc) ∧
      ∀ i < net.ringSize, Option.Rel (Hopped k) (s.flitAt net vc i)
        (s'.flitAt net vc ((i + k) % net.ringSize)) := by
  induction k generalizing s with
  | zero =>
    refine ⟨s, rfl, hq, nofun, fun i hi => ?_⟩
    rw [add_zero, mod_eq_of_lt hi]
    cases s.flitAt net vc i with
    | none => exact .none
    | some f => exact .some (.refl f)
  | succ k ih =>
    obtain ⟨s₁, heq, hspun, hq₁⟩ := hq.doSpin hring hn hvc
    obtain ⟨s', heq', hq', hr', hmoved⟩ := ih hq₁
    refine ⟨s', ?_, hq', fun _ => ?_, fun i hi => ?_⟩
    · unfold State.doSpins
      rw [heq]
      exact heq'
    · cases k with
      | zero =>
        cases heq'
        exact hspun.ringRouted hring hq hvc
      | succ k => exact hr' k.succ_pos
    · have hlt := mod_lt (i + 1) (show 0 < net.ringSize by omega)
      have hfirst : Option.Rel (Hopped 1) (s.flitAt net vc i)
          (s₁.flitAt net vc ((i + 1) % net.ringSize)) := by
        have hrel := (hspun.position hring hq hvc hi).2.2
        generalize s.flitAt net vc i = x, s₁.flitAt net vc ((i + 1) % net.ringSize) = y at hrel ⊢
        cases hrel with
        | none => exact .none
        | some h => exact .some h.hopped
      have := Hopped.rel_trans hfirst (hmoved _ hlt)
      rwa [mod_add_mod, add_assoc, add_comm 1 k] at this

theorem RoutedHome.ejects (hn : net.Routable) (hf : RouteOk net f.route) {r : Nat}
    (h : RoutedHome net r f) (hr : f.route.destRouter = r) :
    f.outportDir = .Local ∧ ∃ op, (net.outports r)[f.outport]? = some op ∧
      op.link = .extOut f.route.destNi ∧ op.dirn = .Local ∧ f.route.destNi ∈ op.routingTableEntry := by
  obtain ⟨op, hop, hdir, hmem⟩ := h hr
  obtain ⟨op', hop', hmatch, _⟩ := mem_outputLinkCandidates.mp hmem
  have hopeq : op' = op := Option.some.inj (hop'.symm.trans hop)
  subst hopeq
  rw [hf.netDest, Topology.matchesEntry_singleton] at hmatch
  have hlt : r < net.numRouters := hr ▸ hf.destRouter_lt
  have hport := List.mem_of_getElem? hop
  have hlink : op'.link = .extOut f.route.destNi := by
    rw [net.outports_eq r hlt] at hport
    refine hn.connected.link_eq_extOut hf.destNi ?_ hmatch
    rwa [← hr, hf.destRouter] at hport
  have hlocal : op'.dirn = .Local := by
    rcases Net.outport_cases hlt hport with ⟨_, _, _, _, hd⟩ | ⟨b, _, hl⟩
    · exact hd
    · rw [hlink] at hl
      cases hl
  exact ⟨hdir.symm.trans hlocal, op', hop, hlink, hlocal, hmatch⟩

theorem exists_add_mod {n i j : Nat} (hi : i < n) (hj : j < n) :
    ∃ k < n, (i + k) % n = j ∧ (k = 0 → i = j) := by
  refine ⟨(j + (n - i)) % n, mod_lt _ (by omega), ?_, fun hzero => ?_⟩
  · rw [add_mod_mod, show i + (j + (n - i)) = j + n by omega, add_mod_right, mod_eq_of_lt hj]
  · rcases Nat.lt_or_ge j i with hlt | hge
    · rw [mod_eq_of_lt (by omega)] at hzero
      omega
    · rw [show j + (n - i) = j - i + n by omega, add_mod_right, mod_eq_of_lt (by omega)] at hzero
      omega

/-- Spins compose to a rotation of the ring: `k` calls move every flit by `k`
positions, as many calls as the ring has positions restore the placement, and by
then every flit has stopped at its destination router, routed to the port of
its destination. The last call is needed only for a flit that is at its destination
router and routed elsewhere. -/
theorem doSpins_rotation (hring : net.RingOk) (hn : net.Routable) (hq : Quiescent net s.toCore)
    (hvc : vc < net.numVcs) :
    (∀ k, ∃ s', s.doSpins net vc k = .ok s' ∧ ∀ i < net.ringSize,
      Option.Rel (Hopped k) (s.flitAt net vc i) (s'.flitAt net vc ((i + k) % net.ringSize))) ∧
    (∃ s', s.doSpins net vc net.ringSize = .ok s' ∧ ∀ i < net.ringSize,
      Option.Rel (Hopped net.ringSize) (s.flitAt net vc i) (s'.flitAt net vc i)) ∧
    ∀ i < net.ringSize, ∀ f, s.flitAt net vc i = some f →
      (∃ a d, net.HasLink a f.route.destRouter d) →
      ∃ k ≤ net.ringSize, (RoutedHome net (net.dstRouter (net.ringLink i)) f → k < net.ringSize) ∧
        ∃ s' f', s.doSpins net vc k = .ok s' ∧ Hopped k f f' ∧
        s'.flitAt net vc ((i + k) % net.ringSize) = some f' ∧
        net.dstRouter (net.ringLink ((i + k) % net.ringSize)) = f.route.destRouter ∧
        f'.outportDir = .Local ∧ ∃ op, (net.outports f.route.destRouter)[f'.outport]? = some op ∧
          op.dirn = .Local ∧ f.route.destNi ∈ op.routingTableEntry := by
  refine ⟨fun k => ?_, ?_, fun i hi f hf ⟨a, d, hd⟩ => ?_⟩
  · obtain ⟨s', heq, _, _, hmoved⟩ := hq.doSpins hring hn hvc k
    exact ⟨s', heq, hmoved⟩
  · obtain ⟨s', heq, _, _, hmoved⟩ := hq.doSpins hring hn hvc net.ringSize
    refine ⟨s', heq, fun i hi => ?_⟩
    have := hmoved i hi
    rwa [add_mod_right, mod_eq_of_lt hi] at this
  obtain ⟨j, hj, hlink⟩ := hring.exists_ringLink hd
  have hrouter : net.dstRouter (net.ringLink j) = f.route.destRouter := by
    rw [hlink]
    rfl
  -- A flit that starts at home and is routed elsewhere has to come round once.
  obtain ⟨k, hk, hlt, hij, hstay⟩ : ∃ k ≤ net.ringSize,
      (RoutedHome net (net.dstRouter (net.ringLink i)) f → k < net.ringSize) ∧
      (i + k) % net.ringSize = j ∧
      (k = 0 → i = j ∧ RoutedHome net (net.dstRouter (net.ringLink i)) f) := by
    obtain ⟨k, hk, hij, hzero⟩ := exists_add_mod hi hj
    by_cases hhome : k = 0 ∧ ¬RoutedHome net (net.dstRouter (net.ringLink i)) f
    · refine ⟨net.ringSize, le_rfl, fun h => absurd h hhome.2, ?_, fun hn => by omega⟩
      rw [add_mod_right, mod_eq_of_lt hi, hzero hhome.1]
    · exact ⟨k, hk.le, fun _ => hk, hij, fun h0 => ⟨hzero h0, by_contra fun h => hhome ⟨h0, h⟩⟩⟩
  refine ⟨k, hk, hlt, ?_⟩
  obtain ⟨s', heq, hq', hr', hmoved⟩ := hq.doSpins hring hn hvc k
  have hrel := hmoved i hi
  rw [hij] at hrel ⊢
  rw [hf] at hrel
  obtain ⟨f', hf', hhop⟩ : ∃ f', s'.flitAt net vc j = some f' ∧ Hopped k f f' := by
    generalize s'.flitAt net vc j = y at hrel
    cases hrel with
    | some h => exact ⟨_, rfl, h⟩
  have hdest : f'.route.destRouter = f.route.destRouter ∧ f'.route.destNi = f.route.destNi := by
    rw [hhop]
    exact ⟨rfl, rfl⟩
  have hroute : RouteOk net f'.route := ((hq'.vcOk_ring hring hvc hj).flitOk hf').route
  have hhome : RoutedHome net (net.dstRouter (net.ringLink j)) f' := by
    cases k with
    | zero =>
      obtain ⟨rfl, hhome⟩ := hstay rfl
      cases heq
      cases hf.symm.trans hf'
      exact hhome
    | succ k => exact hr' k.succ_pos j hj f' hf'
  obtain ⟨hdir, op, hop, _, hlocal, hentry⟩ := hhome.ejects hn hroute (hdest.1.trans hrouter.symm)
  rw [hrouter] at hop
  rw [hdest.2] at hentry
  exact ⟨s', f', heq, hhop, hf', hrouter, hdir, op, hop, hlocal, hentry⟩

end Repeat

theorem doSpins_rotation_pairState :
    ∃ k < 2, ∃ s' f', pairState.doSpins (pairNet 1 4) 0 k = .ok s' ∧
      s'.flitAt (pairNet 1 4) 0 ((1 + k) % 2) = some f' ∧
      f'.outportDir = .Local := by
  obtain ⟨k, _, hk, s', f', heq, _, hf', _, hdir, _⟩ := (doSpins_rotation pairNet_ringOk
    pairNet_routable pairState_quiescent (show 0 < 2 by decide)).2.2 1 (by decide) _ rfl
    ⟨1, .West, pairNet_hasLink.mpr (.inr ⟨rfl, rfl, rfl⟩)⟩
  exact ⟨k, hk nofun, s', f', heq, hf', hdir⟩

/-- The flit is at its destination router and routed to the West. One call takes it away, with
the next one the ring is round. -/
theorem doSpins_misrouted :
    ∃ s : State, Quiescent (pairNet 1 4) s.toCore ∧
      ∃ f, s.flitAt (pairNet 1 4) 0 1 = some f ∧
        (pairNet 1 4).HasLink 0 f.route.destRouter .East ∧
        ¬∃ k < 2, ∃ s' f', s.doSpins (pairNet 1 4) 0 k = .ok s' ∧
          s'.flitAt (pairNet 1 4) 0 ((1 + k) % 2) = some f' ∧
          (pairNet 1 4).dstRouter
            ((pairNet 1 4).ringLink ((1 + k) % 2)) = f.route.destRouter ∧
          f'.outportDir = .Local := by
  refine ⟨westState ⟨0, [1], 0, 0, 1, 1, 0⟩, westState_quiescent ⟨rfl, by decide, rfl⟩, _, rfl,
    pairNet_hasLink.mpr (.inl ⟨rfl, rfl, rfl⟩), ?_⟩
  rintro ⟨k, hk, s', f', heq, hf', hrouter, hdir⟩
  interval_cases k
  · cases heq
    cases hf'
    cases hdir
  · exact absurd hrouter (by decide)

end Drain
