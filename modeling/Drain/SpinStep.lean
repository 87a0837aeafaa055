import Drain.Ring

/-! One iteration of the two loops of `doSpin`. -/

namespace Drain

open List State Net

open Function (update)

structure FlitOk (net : Net) (f : Flit) : Prop where
  route : RouteOk net f.route
  before : f.hopsNeededBeforeSpin = -1
  after : f.hopsNeededAfterSpin = -1

def VirtualChannel.drained (v : VirtualChannel) (curTime : Nat) : VirtualChannel :=
  { v with inputBuffer := [] }.setIdle curTime

def OutVcState.returned (o : OutVcState) (curTime : Nat) : OutVcState :=
  { o with creditCount := o.creditCount + 1 }.setState .idle curTime

def VirtualChannel.filled (v : VirtualChannel) (f : Flit) (curTime : Nat) : VirtualChannel :=
  (v.insertFlit f).setActive curTime

def OutVcState.taken (o : OutVcState) (curTime : Nat) : OutVcState :=
  { o with creditCount := o.creditCount - 1 }.setState .active curTime

/-- The flit `f'` is `f` after a hop: only its output port and hop count differ. -/
structure Respun (net : Net) (r : Nat) (f f' : Flit) : Prop where
  eq : f' = { f with
    outport := f'.outport
    outportDir := f'.outportDir
    route := { f.route with hopsTraversed := f.route.hopsTraversed + 1 } }
  port : ∃ op, (net.outports r)[f'.outport]? = some op ∧ op.dirn = f'.outportDir
  table : f.route.destRouter = r ∨ net.routingAlgorithm = .table →
    f'.outport ∈ outputLinkCandidates (net.outports r) f.route.netDest

section Step

variable {net : Net} {vc idx a b : Nat} {d : PortDirection} {e : SpinStruct} {s : State} {num : Int}
  {f : Flit}

theorem getUpstreamId_outport {p : OutPort} {r : Nat} (hr : r < net.numRouters)
    (hp : p ∈ net.outports r) : ∃ n : Nat, net.getUpstreamId p.dirn r = .ok (n : Int) := by
  rcases outport_cases hr hp with ⟨_, _, _, _, hd⟩ | ⟨b, hb, _⟩
  · rw [hd]
    exact ⟨r, rfl⟩
  · have hg := hb.gridStep
    refine ⟨b, ?_⟩
    generalize p.dirn = d at hg
    cases d <;> simp only [gridStep] at hg <;>
      simp only [getUpstreamId, pure, Except.pure, Except.ok.injEq] <;> omega

theorem leadsTo_total {r : Nat} (hr : r < net.numRouters) (target : Nat) {os : List Nat}
    (hos : ∀ o ∈ os, ∃ p, (net.outports r)[o]? = some p) :
    ∃ forward, net.leadsTo r target os = .ok forward := by
  induction os with
  | nil => exact ⟨false, rfl⟩
  | cons o os ih =>
    obtain ⟨p, hp⟩ := hos o (by simp)
    obtain ⟨n, hn⟩ := getUpstreamId_outport hr (mem_of_getElem? hp)
    obtain ⟨forward, hforward⟩ := ih fun o ho => hos o (by simp [ho])
    unfold leadsTo outportAt
    simp only [hp, bind, Except.bind, hn, require]
    rw [if_pos (by omega)]
    simp only [hforward]
    split
    · exact ⟨true, rfl⟩
    · exact ⟨forward, rfl⟩

theorem ringAt_eq (he : net.spinRing[idx]? = some e) : net.ringAt idx = .ok e := by
  unfold ringAt
  rw [he]

theorem countFlit_eq (forward : Bool) (s : State) :
    ∃ stats, s.countFlit forward = { s with stats := stats } := by
  unfold countFlit
  split
  · exact ⟨_, rfl⟩
  · exact ⟨_, rfl⟩

theorem removeFlit_empty (he : net.spinRing[idx]? = some e) (hentry : net.IsEntry e a b d)
    (hb : (s.vcs (.int a b) vc).inputBuffer = []) :
    removeFlit net vc (s, num) idx = .ok ({ s with
      spinFlit := update s.spinFlit (idx + 1) none
      stats := { s.stats with bubble := s.stats.bubble + 1 } }, num) := by
  unfold removeFlit
  simp only [ringAt_eq he, hentry.ringPort, ok_bind, hb, isEmpty_nil, if_true]
  rfl

theorem removeFlit_full (he : net.spinRing[idx]? = some e) (hentry : net.IsEntry e a b d)
    (hnext : ∃ e', net.spinRing[idx + 1]? = some e') (hs : DirnOk net s.outportsDirn2idx)
    (hb : (s.vcs (.int a b) vc).inputBuffer = [f]) (hf : FlitOk net f) :
    Holds (removeFlit net vc (s, num) idx)
      (fun t => ∃ stats hops, t = ({ s with
        vcs := setEntry s.vcs (.int a b) vc ((s.vcs (.int a b) vc).drained s.curCycle)
        outvcState := setEntry s.outvcState (.int a b) vc
          ((s.outvcState (.int a b) vc).returned s.curCycle)
        spinFlit := update s.spinFlit (idx + 1) (some { f with hopsNeededBeforeSpin := hops })
        stats := stats }, num + 1))
      (fun x => (x.ofProtocol = false ∧ ¬net.Routable) ∨
        ¬(s.outvcState (.int a b) vc).creditCount + 1 ≤ (s.outvcState (.int a b) vc).maxCreditCount) := by
  obtain ⟨e', he'⟩ := hnext
  have hr : e.routerId < net.numRouters := by
    rw [hentry.eq]
    exact hentry.hasLink.lt.2
  unfold removeFlit
  simp only [ringAt_eq he, ringAt_eq he', hentry.ringPort, ok_bind, hb, isEmpty_cons,
    Bool.false_eq_true, if_false, getTopFlit, lookupRoutingTablePrefOutport]
  rw [holds_bind]
  refine .require ⟨fun hne => ?_,
    fun hne => .inl ⟨rfl, fun hn => hne (hn.candidates_ne_nil hf.route hr)⟩⟩
  have hports : ∀ o ∈ outputLinkCandidates (net.outports e.routerId) f.route.netDest,
      ∃ p, (net.outports e.routerId)[o]? = some p :=
    fun o ho => (mem_outputLinkCandidates.mp ho).imp fun p hp => hp.1
  obtain ⟨forward, hforward⟩ := leadsTo_total hr e'.routerId hports
  rw [holds_pure, hforward, ok_bind]
  refine holds_require_bind hf.before ?_
  obtain ⟨stats, hstats⟩ := countFlit_eq forward s
  rw [hstats, hentry.eq, upstreamLink_eq ?_ hentry.hasLink, ok_bind, holds_bind]
  · unfold OutVcState.incrementCredit
    exact .require ⟨fun _ => ⟨stats, _, rfl⟩, .inr⟩
  · exact hs

theorem countMisroute_eq (net : Net) (r : Nat) (f : Flit) (s : State) :
    ∃ stats, s.countMisroute net r f = { s with stats := stats } := by
  unfold countMisroute
  dsimp only
  split
  · exact ⟨_, rfl⟩
  · exact ⟨_, rfl⟩

theorem insertSpun_none (hslot : s.spinFlit idx = none) :
    insertSpun net vc (s, num) idx = .ok (s, num) := by
  unfold insertSpun
  simp only [hslot]
  rfl

theorem insertSpun_some {hops : Int} (he : net.spinRing[idx]? = some e)
    (hentry : net.IsEntry e a b d) (hs : DirnOk net s.outportsDirn2idx)
    (hslot : s.spinFlit idx = some { f with hopsNeededBeforeSpin := hops }) (hf : FlitOk net f)
    (hv : (s.vcs (.int a b) vc).vcState = .idle) :
    Holds (insertSpun net vc (s, num) idx)
      (fun t => ∃ stats random dirns f', Respun net b f f' ∧
        DirnExt s.outportsDirn2idx dirns ∧
        (net.routingAlgorithm = .table → dirns = s.outportsDirn2idx) ∧
        t = ({ s with
          vcs := setEntry s.vcs (.int a b) vc ((s.vcs (.int a b) vc).filled f' s.curCycle)
          outvcState := setEntry s.outvcState (.int a b) vc
            ((s.outvcState (.int a b) vc).taken s.curCycle)
          outportsDirn2idx := dirns
          random := random
          stats := stats }, num - 1))
      (fun x => (x.ofProtocol = false ∧ ¬net.Routable) ∨
        ¬0 ≤ (s.outvcState (.int a b) vc).creditCount - 1) := by
  have hr : b < net.numRouters := hentry.hasLink.lt.2
  unfold insertSpun
  simp only [hslot, ringAt_eq he, hentry.ringPort, ok_bind]
  rw [hentry.eq, holds_bind]
  have hroute : Holds (s.outportCompute net b f.route) (Routed net b f.route s) fun _ => True :=
    outportCompute_routed
  cases hc : s.outportCompute net b f.route with
  | error x =>
    refine .inl ⟨outportCompute_error.of_error hc, fun hn => ?_⟩
    exact (outportCompute_total hn hs hf.route hr).of_error hc
  | ok t =>
    obtain ⟨o, s₁⟩ := t
    have hrouted := hroute.of_ok hc
    rw [holds_ok]
    dsimp only
    unfold outportAt
    cases hop : (net.outports b)[o]? with
    | none =>
      refine .inl ⟨rfl, fun hn => ?_⟩
      have := (outportCompute_total hn hs hf.route hr).of_ok hc
      rw [getElem?_eq_none_iff] at hop
      dsimp only at this
      omega
    | some op =>
      obtain ⟨dirns, random, hframe⟩ : ∃ dirns random, s₁ = { s with
          outportsDirn2idx := dirns
          random := random } := ⟨_, _, hrouted.frame⟩
      subst hframe
      dsimp only
      rw [ok_bind]
      refine holds_require_bind hf.after ?_
      generalize hg : ({ { f with hopsNeededBeforeSpin := hops } with
        outport := o
        outportDir := op.dirn } : Flit).incrementHops = g
      obtain ⟨stats, hstats⟩ := countMisroute_eq net b g { s with
        outportsDirn2idx := dirns
        random := random }
      rw [hstats]
      refine holds_require_bind hv ?_
      rw [upstreamLink_eq ?_ hentry.hasLink, ok_bind, holds_bind]
      · unfold OutVcState.decrementCredit
        refine .require ⟨fun _ => ?_, .inr⟩
        have hbefore := hf.before
        have hafter := hf.after
        refine ⟨stats, random, dirns, { g with hopsNeededBeforeSpin := -1, hopsNeededAfterSpin := -1 },
          ?_, hrouted.dirns, hrouted.same, rfl⟩
        subst hg
        refine ⟨?_, ⟨op, hop, rfl⟩, hrouted.table⟩
        obtain ⟨⟩ := f
        simp_all [Flit.incrementHops]
      · exact hs.ext hrouted.dirns

end Step

end Drain
