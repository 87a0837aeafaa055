import Drain.InFlight

/-! What a drain finds between the routers. A halted router grants nothing, so that three cycles
after the halt all flits have left the switches and the output buffers. Credits take one link
more, which is in time when the link latency is at most 2. -/

namespace Drain

open Function List Nat State Core Net

/-- What is on its way was sent before cycle `k`, except for credits that the credit links have
taken on in cycle `k` itself. -/
structure Settling (net : Net) (k : Nat) (s : Core) : Prop where
  out : ∀ r < net.numRouters, ∀ p ∈ net.outports r, ∀ f ∈ s.outBuffer p.link, f.time ≤ k
  queue : ∀ b c, Link.int b c ∈ net.links → ∀ x ∈ s.creditQueue (.int b c), x.time < k
  credit : ∀ b c, Link.int b c ∈ net.links → ∀ x ∈ s.creditLinkBuffer (.int b c),
    x.time ≤ k + net.linkLatency

def Unwoken (net : Net) (s : Core) : Prop :=
  net.spin = true → epochStart net s → s.lock = none →
    ∀ r < net.numRouters, ¬(s.agenda (.router r)).Woke s.curCycle

def Core.haltCycle (net : Net) (s : Core) : Nat := s.curCycle - s.curCycle % net.spinThrshld

section Halt

variable {net : Net} {s t : Core} {a : Action} {k r : Nat}

theorem HaltedSince.haltCycle_eq (h : HaltedSince net s k) (hT : 4 ≤ net.spinThrshld) :
    s.haltCycle net = k := by
  have hmod := h.mod_eq hT
  have hle := h.window.1
  unfold haltCycle
  omega

theorem Settling.start (h : InTime net s)
    (hwoke : ∀ r < net.numRouters, ¬(s.agenda (.router r)).Woke s.curCycle) :
    Settling net s.curCycle s := by
  refine ⟨fun r hr p hp f hf => ?_, fun b c hmem x hx => ?_, fun b c hmem => (h.credit b c hmem).bound⟩
  · have hsource : (outHop net p.link).source = .router r := creditLinkConsumer_outport hr hp
    exact le_of_lt_succ ((h.out r hr p hp).lt_of_not_sent (hsource ▸ hwoke r hr) f hf)
  · obtain ⟨d, hd⟩ := int_mem_links.mp hmem
    exact lt_of_succ_lt_succ ((h.queue b c hmem).lt_of_not_sent (hwoke c hd.lt.2) x hx)

theorem Control.halted (h : Control net s) (hlock : s.lock ≠ none) (hr : r < net.numRouters) :
    s.halt r = true := by
  rcases h with ⟨hfree, _⟩ | ⟨_, _, _, hhalt⟩
  · exact absurd hfree hlock
  · exact hhalt r hr

section Step

variable (h : Settling net k s) (htime : InTime net s) (hs : Wf net s) (hev : EventsOk net s)
  (hstep : Performed net s a t) (hsched : ∀ k, a.consumer = some k → s.curCycle ∈ s.events k)
  (hc : Control net t) (hlock : t.lock ≠ none)

include h htime hs hev hstep hsched hc hlock

theorem Settling.out_step {p : OutPort} (hr : r < net.numRouters) (hp : p ∈ net.outports r) :
    ∀ f ∈ t.outBuffer p.link, f.time ≤ k := by
  intro f hf
  refine h.out r hr p hp f ?_
  by_cases hrouter : a = .router r
  · subst hrouter
    rcases htime.router_outBuffer hs hev hstep hr hp (hsched _ rfl) with hsame | ⟨hfree, _⟩
    · exact hsame ▸ hf
    · rw [hc.halted hlock hr] at hfree
      cases hfree
  · by_cases ha : a = .link p.link
    · subst ha
      rcases hstep.link_outBuffer with ⟨g, hq⟩ | ⟨hq, _⟩
      · rw [hq]
        exact mem_cons_of_mem g hf
      · exact hq ▸ hf
    · exact hstep.outBuffer_eq hr hp hrouter ha ▸ hf

theorem Settling.queue_step {b c : Nat} (hmem : Link.int b c ∈ net.links) :
    ∀ x ∈ t.creditQueue (.int b c), x.time < k := by
  intro x hx
  obtain ⟨d, hd⟩ := int_mem_links.mp hmem
  refine h.queue b c hmem x ?_
  by_cases hrouter : a = .router c
  · subst hrouter
    rcases htime.router_creditQueue hs hev hstep hmem (hsched _ rfl) with hsame | ⟨hfree, _⟩
    · exact hsame ▸ hx
    · rw [hc.halted hlock hd.lt.2] at hfree
      cases hfree
  · by_cases ha : a = .creditLink (.int b c)
    · subst ha
      rcases hstep.creditLink_creditQueue with ⟨y, hq⟩ | ⟨hq, _⟩
      · rw [hq]
        exact mem_cons_of_mem y hx
      · exact hq ▸ hx
    · exact hstep.creditQueue_eq hrouter ha ▸ hx

omit hs hev hsched hc hlock in
theorem Settling.credit_step (hvalid : ∀ r, a = .router r → r < net.numRouters) {b c : Nat}
    (hmem : Link.int b c ∈ net.links) :
    ∀ x ∈ t.creditLinkBuffer (.int b c), x.time ≤ k + net.linkLatency := by
  intro x hx
  obtain ⟨d, hd⟩ := int_mem_links.mp hmem
  have hold := h.credit b c hmem x
  by_cases hrouter : a = .router b
  · subst hrouter
    rw [hstep.router_creditLinkBuffer hd, popReady] at hx
    split at hx
    · exact hold (mem_of_mem_tail hx)
    · exact hold hx
  · by_cases ha : a = .creditLink (.int b c)
    · subst ha
      cases hstep with
      | creditLink hmove =>
        cases hmove with
        | @creditLink _ _ y rest _ hbuf _ =>
          -- the credit was due now, and it was sent before the halt
          have hy : y ∈ s.creditQueue (.int b c) := by
            rw [show s.creditQueue _ = y :: rest from hbuf]
            exact mem_cons_self
          have hnow : s.curCycle ≤ y.time + 1 := ((htime.queue b c hmem).awaited y hy).1
          have hsent := h.queue b c hmem y hy
          change x ∈ update s.creditLinkBuffer (.int b c) _ (.int b c) at hx
          rw [update_self, (bufferInsert_perm _ _).mem_iff, mem_cons] at hx
          rcases hx with rfl | hx
          · change s.curCycle + net.linkLatency ≤ _
            omega
          · exact hold hx
      | creditLinkIdle => exact hold hx
    · exact hold (hstep.creditLinkBuffer_eq hvalid hrouter ha ▸ hx)

theorem Settling.step (hvalid : ∀ r, a = .router r → r < net.numRouters) : Settling net k t :=
  ⟨fun _ hr _ hp => h.out_step htime hs hev hstep hsched hc hlock hr hp,
    fun _ _ hmem => h.queue_step htime hs hev hstep hsched hc hlock hmem,
    fun _ _ hmem => h.credit_step htime hstep hvalid hmem⟩

end Step

theorem SpinPhase.lock_of_epochStart (h : SpinPhase net r s t) (hspin : net.spin = true)
    (hepoch : epochStart net s) : t.lock ≠ none := by
  cases h with
  | skip hskip _ => exact fun hlock => hskip ⟨hspin, hepoch, hlock⟩
  | halt => nofun
  | drain _ hrelease _ _ =>
    have hmod := hrelease.2.1
    have hstart := hepoch.2
    omega

theorem epochStart_congr (hcur : t.curCycle = s.curCycle) :
    epochStart net t ↔ epochStart net s := by
  unfold epochStart
  rw [hcur]

theorem Unwoken.step (h : Unwoken net s) (hstep : Performed net s a t) (hne : a ≠ .tick) :
    Unwoken net t := by
  intro hspin hepoch hlock r' hr' hwoke
  obtain ⟨hcur, hgrows⟩ := hstep.grows hne
  rw [epochStart_congr hcur] at hepoch
  by_cases ha : a.consumer = some (.router r')
  · obtain rfl : a = .router r' := by
      cases a <;> cases ha
      rfl
    cases hstep with
    | router hread hphase halloc =>
      obtain ⟨_, hmoves, _⟩ := halloc.trace
      refine hphase.lock_of_epochStart hspin ?_ (hmoves.control.lock ▸ hlock)
      exact (epochStart_congr hread.control.curCycle).mpr hepoch
  · have hgrows := hgrows (.router r')
    rw [if_neg ha] at hgrows
    rw [hcur] at hwoke
    rcases hstep.control_cases with ⟨r, m₁, m₂, _, hbefore, hphase, hafter⟩ | hsame | ⟨ha, _⟩
    · refine hphase.lock_of_epochStart hspin ?_ (hafter.lock ▸ hlock)
      exact (epochStart_congr hbefore.curCycle).mpr hepoch
    · exact h hspin hepoch (hsame.lock ▸ hlock) r' hr' (hgrows.woke_iff.mp hwoke)
    · exact hne ha

theorem Unwoken.tick (hev : EventsOk net s) (hidle : ∀ k ∈ net.consumers, s.curCycle ∉ s.events k) :
    Unwoken net { s with curCycle := s.curCycle + 1 } := by
  intro _ _ _ r hr
  have hmem := router_mem_consumers hr
  exact ((hev _ hmem).tick (hidle _ hmem)).2

theorem Unwoken.halts (h : Unwoken net s) (hstep : Performed net s a t) (hne : a ≠ .tick)
    (hfree : s.lock = none) (hlock : t.lock ≠ none) :
    epochStart net s ∧ ∀ r < net.numRouters, ¬(s.agenda (.router r)).Woke s.curCycle := by
  rcases hstep.control_cases with ⟨r, m₁, m₂, _, hbefore, hphase, hafter⟩ | hsame | ⟨ha, _⟩
  · rw [hafter.lock] at hlock
    cases hphase with
    | skip => exact absurd (hbefore.lock.trans hfree) hlock
    | halt hspin hepoch _ =>
      rw [epochStart_congr hbefore.curCycle] at hepoch
      exact ⟨hepoch, h hspin hepoch hfree⟩
    | drain _ _ _ hspins =>
      rw [hspins.released_frame] at hlock
      exact absurd rfl hlock
  · exact absurd (hsame.lock.trans hfree) hlock
  · exact absurd ha hne

end Halt

section Run

variable {net : Net} {s : State}

theorem State.Reachable.unwoken (h : s.Reachable net) : Unwoken net s.toCore := by
  refine h.induct (fun _ _ hepoch => absurd hepoch.1 (lt_irrefl 0)) ?_
  intro s a t hreach _ hsched hstep hs
  by_cases hne : a = .tick
  · subst hne
    cases hstep
    exact .tick hreach.eventsOk hsched
  · exact hs.step hstep hne

theorem State.Reachable.settling (h : s.Reachable net) (hT : 4 ≤ net.spinThrshld) :
    s.lock ≠ none → Settling net (s.haltCycle net) s.toCore := by
  refine h.induct (I := fun c => c.lock ≠ none → Settling net (c.haltCycle net) c)
    (fun _ hlock => absurd rfl hlock) ?_
  intro s a t hreach hvalid hsched hstep hs hlock
  by_cases hne : a = .tick
  · subst hne
    cases hstep
    obtain ⟨_, k, _, hsince⟩ := (hreach.haltWindow hT).locked hlock
    have hset := hs hlock
    rw [hsince.haltCycle_eq hT] at hset
    rw [(hsince.tick hsched).haltCycle_eq hT]
    exact ⟨hset.out, hset.queue, hset.credit⟩
  · obtain ⟨hwf, hc⟩ := hreach.free.wf
    have hcur := (hstep.grows hne).1
    have hset : Settling net (s.haltCycle net) s.toCore := by
      by_cases hfree : s.lock = none
      · obtain ⟨hepoch, hwoke⟩ := hreach.unwoken.halts hstep hne hfree hlock
        have hnow : s.haltCycle net = s.curCycle := by
          unfold haltCycle
          rw [hepoch.2, Nat.sub_zero]
        rw [hnow]
        exact .start hreach.inTime hwoke
      · exact hs hfree
    have hcycle : t.haltCycle net = s.haltCycle net := by
      unfold haltCycle
      rw [hcur]
    rw [hcycle]
    refine hset.step hreach.inTime hwf hreach.eventsOk hstep hsched.mem_events
      (hstep.keeps_control hvalid hc) hlock ?_
    rintro r rfl
    exact hvalid

end Run

structure Quiet (net : Net) (s : Core) : Prop where
  switch : ∀ r < net.numRouters, ∀ i < (net.inports r).length, s.switchBuffer r i = []
  out : ∀ r < net.numRouters, ∀ p ∈ net.outports r, s.outBuffer p.link = []
  link : ∀ r < net.numRouters, ∀ p ∈ net.outports r, s.linkBuffer p.link = []
  queue : ∀ b c, Link.int b c ∈ net.links → s.creditQueue (.int b c) = []
  credit : ∀ b c, Link.int b c ∈ net.links → s.creditLinkBuffer (.int b c) = []

section Quiet

variable {net : Net} {s m : State} {c : Core} {r : Nat}

theorem chckLinkState_iff : c.chckLinkState net = true ↔
    ∀ r < net.numRouters, ∀ p ∈ net.outports r, c.linkBuffer p.link = [] := by
  simp [chckLinkState]

theorem Hop.OnTime.nil_of_lt {α : Type} {h : Hop α} {k : Nat} (hl : h.OnTime c)
    (hdue : ∀ x ∈ h.queue c, h.due x ≤ k) (hk : k < c.curCycle) : h.queue c = [] := by
  refine eq_nil_iff_forall_not_mem.mpr fun x hx => ?_
  have hle := hdue x hx
  have hge := (hl.awaited x hx).1
  omega

theorem ReadPhase.creditLinkBuffer_nil {t : Core} {l : Link} (h : ReadPhase net r c t)
    (hnil : c.creditLinkBuffer l = []) : t.creditLinkBuffer l = [] := by
  obtain ⟨ops, htrace, hops⟩ := h.trace
  refine htrace.keeps (I := fun u => u.creditLinkBuffer l = []) (fun op hop u v hmove hu => ?_) hnil
  rw [← hu]
  refine hmove.creditLinkBuffer_eq fun hl => ?_
  rcases hops op hop with rfl | ⟨p, _, rfl⟩
  · cases hl
  · cases hmove with
    | credit hbuf =>
      rw [Option.some.inj hl, hu] at hbuf
      cases hbuf

theorem Quiet.spins {t : Core} (h : Quiet net c) (hspins : Spins net (c.drainStart net) t) :
    Quiet net t := by
  rw [hspins.frame]
  exact ⟨h.switch, h.out, h.link, h.queue, h.credit⟩

theorem State.Reachable.quiet (h : s.Reachable net) (hT : 4 ≤ net.spinThrshld)
    (hlatency : net.linkLatency ≤ 2) (hphase : ReadPhase net r (popEvent (.router r) s.toCore) c)
    (hrelease : releaseTime net c) (hlink : c.chckLinkState net = true) : Quiet net c := by
  have htime := h.inTime
  have hm := hphase.started h.free.wf.1 h.eventsOk
  have hrelease' := (releaseTime_congr hphase.control).mp hrelease
  obtain ⟨_, k, _, hsince⟩ := (h.haltWindow hT).locked hrelease'.2.2
  have hcur : s.curCycle = k + 3 := (hsince.releaseTime_iff hT).mp hrelease'
  have hset := h.settling hT hrelease'.2.2
  rw [hsince.haltCycle_eq hT] at hset
  refine ⟨fun r hr i hi => ?_, fun r hr p hp => ?_, chckLinkState_iff.mp hlink,
    fun b c hmem => ?_, fun b c hmem => hphase.creditLinkBuffer_nil ?_⟩
  · rw [hm.switchBuffer, htime.switch r hr i hi]
  · rw [hm.outBuffer]
    exact (htime.out r hr p hp).nil_of_lt (hset.out r hr p hp) (by omega)
  · rw [hm.creditQueue]
    exact (htime.queue b c hmem).nil_of_lt (hset.queue b c hmem) (by omega)
  · exact (htime.credit b c hmem).nil_of_lt (hset.credit b c hmem) (by omega)

/-- Whenever a router's wakeup comes to a drain, and at every call of `doSpin` in it, no flit is
in a switch, an output buffer or on a link between routers, and no credit is in a credit queue or
on a credit link between routers. -/
theorem drain_finds_quiet (hT : 4 ≤ net.spinThrshld) (hlatency : net.linkLatency ≤ 2)
    (h : s.Reachable net) (hr : r < net.numRouters)
    (hread : (s.on (popEvent (.router r))).readPorts net r = .ok m)
    (hrelease : releaseTime net m.toCore) (hlink : m.chckLinkState net = true) :
    Quiet net m.toCore ∧ ∀ (calls : List Nat) (m₁ m₂ : State), (∀ vc ∈ calls, vc ∈ net.drainVcs) →
      m₁.toCore = m.drainStart net → calls.foldlM (spinOnce net) m₁ = .ok m₂ →
        Quiet net m₂.toCore := by
  obtain ⟨hwf, _⟩ := h.free.wf
  have hphase : ReadPhase net r (popEvent (.router r) s.toCore) m.toCore :=
    (readPorts_phase (hwf.popEvent _) hr).of_ok hread
  have hquiet := h.quiet hT hlatency hphase hrelease hlink
  refine ⟨hquiet, fun calls m₁ m₂ hcalls hstart hfold => hquiet.spins ?_⟩
  rw [← hstart]
  refine (spinOnce_spins ?_ hcalls).of_ok hfold
  rw [hstart]
  exact (hphase.wf (hwf.popEvent _)).drainStart

end Quiet

theorem releaseActions_run : ∃ s : State, s.Reachable (pairNet 1 4) ∧
    ∃ m ∈ ((s.on (popEvent (.router 0))).readPorts (pairNet 1 4) 0).toOption,
      releaseTime (pairNet 1 4) m.toCore ∧
      m.chckLinkState (pairNet 1 4) = true ∧
      (m.vcs (.extIn 0) 0).inputBuffer ≠ [] :=
  exists_reachable (haltActions ++ [.tick, .router 0, .tick, .router 0, .tick]) (fun _ => 0)
    (by decide +kernel)

theorem drain_finds_quiet_pairNet : ∃ s m : State, s.Reachable (pairNet 1 4) ∧
    (s.on (popEvent (.router 0))).readPorts (pairNet 1 4) 0 = .ok m ∧
    releaseTime (pairNet 1 4) m.toCore ∧
    m.chckLinkState (pairNet 1 4) = true ∧
    Quiet (pairNet 1 4) m.toCore := by
  obtain ⟨s, hreach, m, hread, hrelease, hlink, _⟩ := releaseActions_run
  rw [mem_toOption] at hread
  exact ⟨s, m, hreach, hread, hrelease, hlink,
    (drain_finds_quiet le_rfl (by decide) hreach (by decide) hread hrelease hlink).1⟩

theorem lateCreditActions_run : ∃ s : State,
    s.Reachable (pairNet 3 14) ∧ s.curCycle = 17 ∧ 17 ∈ s.events (.router 1) ∧
    (∃ m ∈ ((s.on (popEvent (.router 1))).readPorts
        (pairNet 3 14) 1).toOption,
      releaseTime (pairNet 3 14) m.toCore ∧
      m.chckLinkState (pairNet 3 14) = true ∧
      m.creditLinkBuffer (.int 0 1) = [⟨1, true, 17⟩]) ∧
    ∃ t ∈ (s.perform (pairNet 3 14) (.router 1)).toOption,
      t.drainLog = [17] ∧ t.stats.numDrain = 2 :=
  exists_reachable lateCreditActions (fun _ => 0) (by decide +kernel)

/-- With link latency 3 the first router that wakes up three cycles after the halt drains while
the other one has a credit to read in the same cycle. -/
theorem drain_finds_credit_pairNet : ∃ s m t : State,
    s.Reachable (pairNet 3 14) ∧ s.curCycle ∈ s.events (.router 1) ∧
    (s.on (popEvent (.router 1))).readPorts (pairNet 3 14) 1 = .ok m ∧
    releaseTime (pairNet 3 14) m.toCore ∧
    m.chckLinkState (pairNet 3 14) = true ∧
    Link.int 0 1 ∈ (pairNet 3 14).links ∧
    m.creditLinkBuffer (.int 0 1) = [⟨1, true, 17⟩] ∧
    s.perform (pairNet 3 14) (.router 1) = .ok t ∧ t.drainLog = [17] ∧
    t.stats.numDrain = 2 := by
  obtain ⟨s, hreach, hcur, hevents, ⟨m, hread, hrelease, hlink, hcredit⟩, t, hperform, hlog, hcount⟩ :=
    lateCreditActions_run
  exact ⟨s, m, t, hreach, hcur ▸ hevents, mem_toOption.mp hread, hrelease, hlink, by decide,
    hcredit, mem_toOption.mp hperform, hlog, hcount⟩

end Drain
