import Drain.Lib.Frame
import Drain.Control

/-! Parts of the state that a wakeup leaves alone. The moves do not mention them: the round robin
pointers of the output ports, which only a grant changes, and what the network interfaces keep
besides their buffers, which no router touches, not even with a drain. -/

namespace Drain

open Function State Core Net

structure NiFields where
  vcBusyCounter : Nat → Nat → Nat
  vcRoundRobin : Nat → Nat
  niOutVcsEnqueueTime : Nat → Nat → Nat
  stallCount : Nat → Nat → Int

structure EjectFields where
  pointers : Nat → Nat → Nat
  stallQueue : Nat → List Flit
  stallCount : Nat → Nat → Int
  linkBuffer : Link → List Flit
  curCycle : Nat

/-- The output VCs of the network interfaces. A router has no output port to such a link. -/
def Core.injectionVcs (c : Core) (n v : Nat) : OutVcState := c.outvcState (.extIn n) v

theorem Core.injectionVcs_setEntry (c : Core) {l : Link} (v : Nat) (o : OutVcState)
    (hl : ∀ n, l ≠ .extIn n) (n w : Nat) :
    setEntry c.outvcState l v o (.extIn n) w = c.injectionVcs n w :=
  setEntry_of_ne _ _ fun h => hl n h.1.symm

namespace State

def niFields (s : State) : NiFields :=
  ⟨s.vcBusyCounter, s.vcRoundRobin, s.niOutVcsEnqueueTime, s.stallCount⟩

/-- What a router's wakeup keeps up to the grants. -/
def kept (s : State) : (Nat → Nat → Nat) × NiFields := (s.roundRobinInport, s.niFields)

/-- What routing and draining keep. -/
def spared (s : State) : ((Nat → Nat → Nat) × NiFields) × (Nat → Nat → OutVcState) :=
  (s.kept, s.injectionVcs)

variable {net : Net} {r : Nat} {s : State} {k : (Nat → Nat → Nat) × NiFields}

section Routing

variable {k : ((Nat → Nat → Nat) × NiFields) × (Nat → Nat → OutVcState)}

theorem outportIdx_frame (s : State) (r : Nat) (d : PortDirection) :
    (s.outportIdx r d).2.spared = s.spared := by
  unfold outportIdx
  split <;> rfl

theorem outportCompute_frame (route : RouteInfo) (h : s.spared = k) :
    Frames (s.outportCompute net r route) (·.2.spared) k := by
  refine outportCompute_routed.imp fun a ha => ?_
  dsimp only
  rw [ha.frame]
  exact h

theorem upstreamLink_frame (e : SpinStruct) (h : s.spared = k) :
    Holds (s.upstreamLink net e) (fun t => (∀ n, t.1 ≠ .extIn n) ∧ t.2.spared = k)
      fun _ => True := by
  unfold upstreamLink getUpstreamrouter
  rw [holds_bind, holds_bind]
  refine (holds_true _).imp fun u _ => ?_
  rw [holds_ite]
  refine ⟨fun _ => trivial, fun hu => ?_⟩
  rw [holds_pure, holds_bind]
  refine (holds_true _).imp fun d _ => ?_
  rw [holds_bind]
  refine outportAt_spec.mono (fun p _ hp => ?_) fun _ _ _ => trivial
  exact ⟨outport_ne_extIn (by omega) (List.mem_of_getElem? hp), (outportIdx_frame s _ d).trans h⟩

end Routing

section Read

theorem receiveCredit_frame (l : Link) (h : s.kept = k) :
    Frames (s.receiveCredit l) kept k := by
  refine frames_ite ?_ h
  exact frames_bind fun _ => frames_bind fun _ => h

theorem openPacket_frame (p : InPort) (f : Flit) (h : s.kept = k) :
    Frames (s.openPacket net r p f) (·.2.kept) k := by
  refine frames_bind fun _ => ?_
  dsimp only
  refine ((outportCompute_frame f.route rfl).map Prod.fst).bind fun a ha => ?_
  exact frames_bind fun _ => ha.trans h

theorem inputUnitWakeup_frame (p : InPort) (h : s.kept = k) :
    Frames (s.inputUnitWakeup net r p) kept k := by
  refine frames_ite (frames_bind fun top => ?_) h
  dsimp only
  refine frames_ite ?_ (frames_bind fun _ => frames_ite h h)
  refine (openPacket_frame (k := k) p _ ?_).bind fun a ha => ?_
  · exact h
  · exact frames_ite ha ha

theorem readPorts_frame (h : s.kept = k) : Frames (s.readPorts net r) kept k := by
  refine (frames_foldlM h fun t p ht => inputUnitWakeup_frame p ht).bind fun t ht => ?_
  exact frames_foldlM ht fun u p hu => receiveCredit_frame p.link hu

end Read

section Spin

variable {k : ((Nat → Nat → Nat) × NiFields) × (Nat → Nat → OutVcState)}

theorem removeFlit_frame {vc idx : Nat} {t : State × Int} (h : t.1.spared = k) :
    Frames (removeFlit net vc t idx) (·.1.spared) k := by
  refine frames_bind fun e => frames_bind fun p => frames_ite h ?_
  refine frames_bind fun next => frames_bind fun top => frames_bind fun pref => frames_bind fun fwd => ?_
  refine frames_bind fun _ => ?_
  have hcount : (t.1.countFlit fwd).spared = k := by
    unfold countFlit
    split <;> exact h
  dsimp only
  unfold Frames
  rw [holds_bind]
  refine (upstreamLink_frame (k := k) e ?_).imp fun u hu => frames_bind fun o => ?_
  · exact hcount
  · rw [← hu.2]
    exact congrArg (Prod.mk _) (funext₂ (injectionVcs_setEntry _ vc _ hu.1))

theorem countMisroute_frame (f : Flit) : (s.countMisroute net r f).spared = s.spared := by
  unfold countMisroute
  dsimp only
  split <;> rfl

theorem insertSpun_frame {vc idx : Nat} {t : State × Int} (h : t.1.spared = k) :
    Frames (insertSpun net vc t idx) (·.1.spared) k := by
  unfold insertSpun
  dsimp only
  cases t.1.spinFlit idx with
  | none => exact h
  | some f =>
    refine frames_bind fun e => frames_bind fun p => ?_
    refine (outportCompute_frame f.route h).bind fun a ha => ?_
    refine frames_bind fun op => frames_bind fun _ => frames_bind fun _ => ?_
    unfold Frames
    rw [holds_bind]
    refine (upstreamLink_frame (k := k) e ?_).imp fun u hu => frames_bind fun o => ?_
    · exact (countMisroute_frame _).trans ha
    · rw [← hu.2]
      exact congrArg (Prod.mk _) (funext₂ (injectionVcs_setEntry _ vc _ hu.1))

theorem doSpin_frame (vc : Nat) (h : s.spared = k) : Frames (s.doSpin net vc) spared k := by
  unfold doSpin
  dsimp only
  refine (frames_foldlM (g := fun t : State × Int => t.1.spared) h
    fun t idx ht => removeFlit_frame ht).bind fun t ht => frames_bind fun _ => ?_
  refine (frames_foldlM (g := fun t : State × Int => t.1.spared) ht
    fun t idx ht => insertSpun_frame ht).bind fun u hu => ?_
  exact frames_bind fun _ => hu

theorem drain_frame (h : s.spared = k) : Frames (s.drain net) spared k := by
  refine frames_bind fun _ => ?_
  dsimp only
  have hspin (t : State) (vc : Nat) (ht : t.spared = k) : Frames (t.spinOnce net vc) spared k :=
    doSpin_frame vc ht
  refine (frames_foldlM (g := spared) (b := k) ?_ hspin).bind fun t ht => ?_
  · split <;> exact h
  · rw [← ht]
    refine congrArg (Prod.mk _) ?_
    change (flitTimesSet net t.toCore).injectionVcs = _
    rw [(flitTimesSet_stamped t.toCore).frame]
    rfl

theorem spinStage_frame (asserts : Bool) (h : s.spared = k) :
    Frames (s.spinStage net asserts r) spared k := by
  refine frames_ite ?_ (frames_ite ?_ (frames_bind fun _ => h))
  · unfold startHalt
    dsimp only
    refine frames_ite (frames_bind fun _ => frames_ite h h) (frames_ite h h)
  · unfold release
    dsimp only
    have hassert : (if asserts then s.on fun c => { c with halt := update c.halt r true }
        else s).spared = k := by
      split <;> exact h
    refine frames_ite ((drain_frame hassert).bind fun t ht => ?_) ?_
    · exact ht
    · exact hassert

end Spin

section Allocate

theorem markUturn_frame (p : InPort) (invc : Nat) (h : s.kept = k) :
    Frames (s.markUturn net r p invc) kept k := by
  refine frames_bind fun f => frames_ite (frames_ite (frames_bind fun d => ?_) ?_) ?_
  all_goals exact h

theorem arbitrateInport_frame (p : InPort) (inport count invc : Nat) {t : State × Requests}
    (h : t.1.kept = k) : Frames (arbitrateInport net r p inport count invc t) (·.1.kept) k := by
  induction count generalizing invc t with
  | zero => exact h
  | succ count ih =>
    unfold arbitrateInport
    refine frames_bind fun ready => frames_ite ?_ (ih _ h)
    refine (markUturn_frame p invc h).bind fun u hu => ?_
    refine frames_bind fun f => frames_bind fun op => frames_bind fun allowed => ?_
    exact frames_ite hu (ih _ hu)

theorem arbitrateInports_frame (h : s.kept = k) :
    Frames (s.arbitrateInports net r) (·.1.kept) k := by
  refine frames_ite h ?_
  exact frames_foldlM h fun t p ht => arbitrateInport_frame _ _ _ _ ht

theorem vcAllocate_frame (p : InPort) (invc : Nat) (op : OutPort) (h : s.kept = k) :
    Frames (s.vcAllocate net p invc op) (·.2.kept) k := by
  refine frames_bind fun vnet => ?_
  cases selectFreeVc net s.toCore op.link vnet with
  | none => exact frames_throw
  | some vc => exact h

theorem countUturn_frame (p : InPort) (f : Flit) (h : s.kept = k) :
    Frames (s.countUturn p f) kept k :=
  frames_ite (frames_bind fun _ => h) h

theorem grantOutport_frame (op : OutPort) (outport : Nat) (p : InPort) (inport invc : Nat)
    (h : s.kept = k) : Frames (s.grantOutport net r op outport p inport invc) kept
      (setEntry k.1 r outport (nextIndex (k.1 r outport) (net.inports r).length), k.2) := by
  have hlast {u : State} (hu : u.kept = k) :
      (setEntry u.roundRobinInport r outport
          (nextIndex (u.roundRobinInport r outport) (net.inports r).length), u.kept.2) =
        (setEntry k.1 r outport (nextIndex (k.1 r outport) (net.inports r).length), k.2) := by
    rw [← hu]
    rfl
  unfold grantOutport
  dsimp only
  -- the VC that the packet has, or a new one
  split
  · rw [pure_bind]
    refine frames_bind fun top => (countUturn_frame (k := k) p top.1 ?_).bind fun u hu =>
      frames_bind fun o => frames_ite (frames_bind fun _ => ?_) ?_
    · exact h
    all_goals
      rw [← hlast hu]
      simp only [pure_bind, frames_pure]
      rfl
  · refine (vcAllocate_frame (k := k) p invc op ?_).bind fun a ha => frames_bind fun top =>
      (countUturn_frame p top.1 ha).bind fun u hu => frames_bind fun o =>
        frames_ite (frames_bind fun _ => ?_) ?_
    · exact h
    all_goals
      rw [← hlast hu]
      simp only [pure_bind, frames_pure]
      rfl

theorem arbitrateOutport_frame (op : OutPort) (outport count inport : Nat) {t : State × Requests}
    {k : NiFields} (h : t.1.niFields = k) :
    Frames (arbitrateOutport net r op outport count inport t) (·.1.niFields) k := by
  induction count generalizing inport t with
  | zero => exact h
  | succ count ih =>
    unfold arbitrateOutport
    refine frames_ite (frames_bind fun p => ?_) (ih _ h)
    refine ((grantOutport_frame op outport p inport _ rfl).map Prod.snd).bind fun u hu => ?_
    exact hu.trans h

theorem switchAllocatorWakeup_frame (h : s.kept = k) :
    Frames (s.switchAllocatorWakeup net r) niFields k.2 := by
  refine ((arbitrateInports_frame h).map Prod.snd).bind fun t ht => ?_
  have hgrants : Frames (arbitrateOutports net r t) niFields k.2 := by
    refine frames_ite ht ?_
    exact (frames_foldlM (g := fun t : State × Requests => t.1.niFields) ht
      fun u op hu => arbitrateOutport_frame _ _ _ _ hu).bind fun u hu => hu
  refine hgrants.bind fun u hu => ?_
  exact frames_bind fun ready => frames_ite hu hu

theorem crossbarWakeup_frame (h : s.kept = k) : Frames (s.crossbarWakeup net r) kept k := by
  refine frames_foldlM h fun t inport ht => frames_ite (frames_bind fun top => ?_) ht
  exact frames_ite (frames_bind fun op => ht) ht

end Allocate

theorem routerWakeup_frame (asserts : Bool) (s : State) :
    Frames (s.routerWakeup net asserts r) niFields s.niFields := by
  have halloc (u : State) (hu : u.kept = s.kept) :
      Frames (u.switchAllocatorWakeup net r >>= fun u => u.crossbarWakeup net r) niFields s.niFields :=
    (switchAllocatorWakeup_frame hu).bind fun u hu => ((crossbarWakeup_frame rfl).map Prod.snd).imp
      fun v hv => hv.trans hu
  refine (readPorts_frame rfl).bind fun t ht => ?_
  refine frames_ite (((spinStage_frame asserts rfl).map Prod.fst).bind fun u hu => ?_) (halloc t ht)
  exact halloc u (hu.trans ht)

section Inject

/-- What a network interface keeps while it makes flits and sends them, and the pointers. -/
def ejecting (s : State) : EjectFields where
  pointers := s.roundRobinInport
  stallQueue := s.stallQueue
  stallCount := s.stallCount
  linkBuffer := s.linkBuffer
  curCycle := s.curCycle

variable {n vnet : Nat} {k : EjectFields}

theorem calculateVCrr_frame (count : Nat) (s : State) :
    (calculateVCrr net n vnet count s).2.ejecting = s.ejecting := by
  induction count generalizing s with
  | zero => rfl
  | succ count ih =>
    unfold calculateVCrr
    dsimp only
    generalize (if s.vcAllocator n vnet + 1 = net.vcsPerVnet then 0 else _) = next
    split
    · rfl
    · exact ih _

theorem calculateVC_frame (h : s.ejecting = k) :
    Frames (s.calculateVC net n vnet) (·.2.ejecting) k := by
  unfold calculateVC
  split
  · exact (calculateVCrr_frame _ s).trans h
  · exact h
  · exact frames_throw

theorem flitisizeMessage_frame (dests : List Nat) (h : s.ejecting = k) :
    Frames (s.flitisizeMessage net n vnet dests) (·.2.ejecting) k := by
  induction dests generalizing s with
  | nil => exact h
  | cons dest dests ih =>
    unfold flitisizeMessage
    refine frames_bind fun _ => (calculateVC_frame h).bind fun t ht => ?_
    obtain ⟨vc, t⟩ := t
    cases vc with
    | none => exact ht
    | some vc => exact ih ht

theorem injectVnet_frame (h : s.ejecting = k) : Frames (s.injectVnet net n vnet) ejecting k := by
  unfold injectVnet
  split
  · exact h
  · exact frames_ite ((flitisizeMessage_frame _ h).bind fun t ht => ht) h

theorem sendFrom_frame (count vc : Nat) (h : s.ejecting = k) :
    Frames (s.sendFrom net n count vc) ejecting k := by
  induction count generalizing vc with
  | zero => exact h
  | succ count ih =>
    unfold sendFrom
    refine frames_ite (frames_bind fun vnet => frames_ite ?_ (ih _)) (ih _)
    exact frames_bind fun _ => frames_bind fun _ => frames_ite h h

def inject (net : Net) (n : Nat) (s : State) : Except Failure State := do
  let s ← (List.range net.virtualNetworks).foldlM (injectVnet net n) s
  let s ← s.scheduleOutputLink net n
  pure (s.checkReschedule net n)

def receiveCredits (n : Nat) (s : State) : Except Failure State := do
  let s ← s.receiveCredit (.extIn n)
  if (s.creditQueue (.extOut n)).isEmpty then pure s
  else pure (s.on (·.scheduleEvent (.creditLink (.extOut n)) 1))

theorem niWakeup_eq (n : Nat) (slots : Nat → Bool) (s : State) :
    s.niWakeup net n slots = s.inject net n >>= fun s =>
      (s.checkStallQueue n slots).2.receiveFlit n slots (s.checkStallQueue n slots).1 >>=
        receiveCredits n := by
  unfold niWakeup inject
  simp only [bind_assoc, pure_bind]
  rfl

theorem inject_frame (s : State) : Frames (s.inject net n) ejecting s.ejecting := by
  refine (frames_foldlM rfl fun t vnet ht => injectVnet_frame ht).bind fun t ht => ?_
  refine (sendFrom_frame (k := s.ejecting) _ _ ?_).bind fun u hu => ?_
  · exact ht
  · refine Eq.trans ?_ hu
    unfold checkReschedule
    split <;> rfl

theorem receiveCredits_frame (s : State) : Frames (s.receiveCredits n) ejecting s.ejecting := by
  refine Frames.bind (g := ejecting) (b := s.ejecting) ?_ fun t ht => frames_ite ht ht
  exact frames_ite (frames_bind fun _ => frames_bind fun _ => rfl) rfl

end Inject

end State

section Buffers

variable {net : Net} {c t : Core} {op : Op} {ops : List Op} {r : Nat} {s : State} {a : Action}

def Core.niBuffers (c : Core) : (Nat → Nat → List Flit) × (Nat → List Flit) := (c.niOutVcs, c.stallQueue)

theorem Move.niBuffers (h : Move net op c t) (hop : ∀ n, op.actor ≠ .ni n) :
    t.niBuffers = c.niBuffers := by
  cases h with
  | receive => split <;> rfl
  | create => exact absurd rfl (hop _)
  | send => exact absurd rfl (hop _)
  | stall => exact absurd rfl (hop _)
  | deliver => exact absurd rfl (hop _)
  | unstall => exact absurd rfl (hop _)
  | _ => rfl

theorem trace_niBuffers (h : Trace (Move net) ops c t) (hops : ∀ op ∈ ops, ∀ n, op.actor ≠ .ni n) :
    t.niBuffers = c.niBuffers :=
  h.keeps (I := fun t => t.niBuffers = c.niBuffers)
    (fun op hop _ _ hmove hc => (hmove.niBuffers (hops op hop)).trans hc) rfl

theorem SpinPhase.niBuffers (h : SpinPhase net r c t) : t.niBuffers = c.niBuffers := by
  cases h with
  | skip => rfl
  | halt => rfl
  | drain _ _ _ hspins =>
    rw [hspins.released_frame]
    rfl

theorem Performed.router_niBuffers (h : Performed net c (.router r) t) : t.niBuffers = c.niBuffers := by
  cases h with
  | router hread hspin halloc =>
    obtain ⟨_, hread, hops⟩ := hread.trace
    obtain ⟨_, halloc, hops'⟩ := halloc.trace
    have hbefore := trace_niBuffers hread fun op hop n h => by
      rcases hops op hop with rfl | ⟨p, _, rfl⟩ <;> cases h
    have hafter := trace_niBuffers halloc fun op hop n h => nomatch (hops' op hop).symm.trans h
    exact hafter.trans (hspin.niBuffers.trans hbefore)

end Buffers

section InjectionVcs

variable {net : Net} {c t : Core} {op : Op} {ops : List Op} {r : Nat} {s : State} {a : Action}
  {b : Nat → Nat → OutVcState}

theorem Move.injectionVcs (h : Move net op c t) (hop : ∀ n, op.actor ≠ .ni n)
    (hcredit : ∀ k n, op ≠ .credit k (.extIn n)) : t.injectionVcs = c.injectionVcs := by
  cases h with
  | receive => split <;> rfl
  | credit =>
    exact funext₂ (injectionVcs_setEntry _ _ _ fun n hl => hcredit _ n (congrArg _ hl))
  | grant _ hr _ ho =>
    exact funext₂ (injectionVcs_setEntry _ _ _
      (outport_ne_extIn hr (List.mem_of_getElem? ho)))
  | create => exact absurd rfl (hop _)
  | send => exact absurd rfl (hop _)
  | _ => rfl

theorem trace_injectionVcs (h : Trace (Move net) ops c t)
    (hops : ∀ op ∈ ops, (∀ n, op.actor ≠ .ni n) ∧ ∀ k n, op ≠ .credit k (.extIn n)) :
    t.injectionVcs = c.injectionVcs :=
  h.keeps (I := fun t => t.injectionVcs = c.injectionVcs)
    (fun op hop _ _ hmove hc => (hmove.injectionVcs (hops op hop).1 (hops op hop).2).trans hc) rfl

theorem AllocPhase.injectionVcs (h : AllocPhase net r c t) : t.injectionVcs = c.injectionVcs := by
  obtain ⟨m₁, m₂, m₃, ms, gs, ws, xs, h⟩ := h
  have hmark := trace_injectionVcs h.mark fun op hop => by
    obtain ⟨l, rfl⟩ := h.marks op hop
    exact ⟨nofun, nofun⟩
  have hgrant := trace_injectionVcs h.grant fun op hop => by
    obtain ⟨l, m, rfl⟩ := h.grants.grant op hop
    exact ⟨nofun, nofun⟩
  have hwake := trace_injectionVcs h.wake fun op hop => by
    rw [h.wakes op hop]
    exact ⟨nofun, nofun⟩
  have hcross := trace_injectionVcs h.cross fun op hop => by
    obtain ⟨l, rfl⟩ := h.crosses op hop
    exact ⟨nofun, nofun⟩
  exact ((hcross.trans hwake).trans hgrant).trans hmark

theorem routerWakeup_injectionVcs (hs : Wf net s.toCore) (hc : Control net s.toCore)
    (hr : r < net.numRouters) (asserts : Bool) :
    Frames (s.routerWakeup net asserts r) (·.injectionVcs) s.injectionVcs := by
  unfold Frames
  rw [routerWakeup_eq, holds_bind]
  refine (readPorts_phase hs hr).mono (fun s₁ _ hread => ?_) fun _ _ _ => trivial
  have hs₁ := hread.wf hs
  have hvcs₁ : s₁.injectionVcs = s.injectionVcs := by
    obtain ⟨ops, htrace, hops⟩ := hread.trace
    refine trace_injectionVcs htrace fun op hop => ?_
    rcases hops op hop with rfl | ⟨p, hp, rfl⟩
    · exact ⟨nofun, nofun⟩
    · exact ⟨nofun, fun k n h => outport_ne_extIn hr hp n (Op.credit.inj h).2⟩
  have hvcs₂ : Frames (if net.spin then s₁.spinStage net asserts r else pure s₁) (·.injectionVcs)
      s.injectionVcs := frames_ite (((spinStage_frame asserts rfl).map Prod.snd).imp fun _ h => h.trans hvcs₁) hvcs₁
  rw [holds_bind]
  refine (Holds.and hvcs₂ (spinStage_spec hs₁ (hc.congr hread.control) hr asserts)).mono ?_
    fun _ _ _ => trivial
  rintro s₂ _ ⟨hvcs₂, hspin⟩
  refine (allocate_phase (hspin.wf hs₁) hr).mono (fun s' _ halloc => ?_) fun _ _ _ => trivial
  exact halloc.injectionVcs.trans hvcs₂

theorem perform_frame {s' : State} (hs : s.FreeReachable net) (hvalid : s.valid net a)
    (h : s.perform net a = .ok s') (ha : ∀ n slots, a ≠ .ni n slots) :
    s'.niFields = s.niFields ∧ s'.niBuffers = s.niBuffers ∧ s'.injectionVcs = s.injectionVcs := by
  cases a with
  | router r =>
    exact ⟨(routerWakeup_frame true (s.on (popEvent (.router r)))).of_ok h,
      ((perform_spec hs.wf.1 hs.wf.2 hvalid).of_ok h).router_niBuffers,
      (routerWakeup_injectionVcs (s := s.on (popEvent (.router r)))
        (hs.wf.1.popEvent _) hs.wf.2 hvalid true).of_ok h⟩
  | ni n slots => exact absurd rfl (ha n slots)
  | link l =>
    cases h
    refine ⟨rfl, ?_⟩
    rcases linkWakeup_move hvalid (popEvent (.link l) s.toCore) with ⟨_, hmove⟩ | ⟨_, heq⟩
    · exact ⟨hmove.niBuffers nofun, hmove.injectionVcs nofun nofun⟩
    · exact ⟨(congrArg niBuffers heq).trans rfl, (congrArg injectionVcs heq).trans rfl⟩
  | creditLink l =>
    cases h
    refine ⟨rfl, ?_⟩
    rcases creditLinkWakeup_move hvalid (popEvent (.creditLink l) s.toCore) with
      ⟨_, hmove⟩ | ⟨_, heq⟩
    · exact ⟨hmove.niBuffers nofun, hmove.injectionVcs nofun nofun⟩
    · exact ⟨(congrArg niBuffers heq).trans rfl, (congrArg injectionVcs heq).trans rfl⟩
  | message n vnet m =>
    cases h
    exact ⟨rfl, rfl, rfl⟩
  | dequeueCallback n =>
    cases h
    exact ⟨rfl, rfl, rfl⟩
  | tick =>
    cases h
    exact ⟨rfl, rfl, rfl⟩

theorem perform_curCycle {s' : State} (hs : s.FreeReachable net) (hvalid : s.valid net a)
    (h : s.perform net a = .ok s') : s'.curCycle = s.curCycle ∨ s'.curCycle = s.curCycle + 1 := by
  have hperformed := (perform_spec hs.wf.1 hs.wf.2 hvalid).of_ok h
  rcases hperformed.control_cases with ⟨r, m₁, m₂, _, hbefore, hspin, hafter⟩ | hsame | ⟨_, heq⟩
  · have hcur : m₂.curCycle = m₁.curCycle := by
      cases hspin with
      | skip => rfl
      | halt => rfl
      | drain _ _ _ hspins =>
        rw [hspins.released_frame]
        rfl
    exact .inl (hafter.curCycle.trans (hcur.trans hbefore.curCycle))
  · exact .inl hsame.curCycle
  · exact .inr (congrArg curCycle heq)

end InjectionVcs

end Drain
