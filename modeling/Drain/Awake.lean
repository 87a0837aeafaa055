import Drain.Events
import Drain.MeshLinks

/-! A router that holds a flit will wake up for it. A flit that is not ready yet has the wakeup of
the cycle in which it will be, a ready one has a wakeup in the next cycle at the latest. -/

namespace Drain

open Function List Nat State Core Net

/-- For each flit in a VC of router `r` that becomes ready later there is a wakeup then. -/
def Core.Alarmed (net : Net) (r : Nat) (c : Core) : Prop :=
  ∀ p ∈ net.inports r, ∀ v, ∀ f ∈ (c.vcs p.link v).inputBuffer, c.curCycle < f.stage.2 →
    f.stage.2 ∈ c.events (.router r)

/-- For each flit that is ready there is a wakeup in this cycle or in the next one. -/
def Core.Stirred (net : Net) (r : Nat) (c : Core) : Prop :=
  ∀ p ∈ net.inports r, ∀ v, ∀ f ∈ (c.vcs p.link v).inputBuffer, f.stage.2 ≤ c.curCycle →
    ∃ t ∈ c.events (.router r), t ≤ c.curCycle + 1

def Core.Awake (net : Net) (r : Nat) (c : Core) : Prop := c.Alarmed net r ∧ c.Stirred net r

section Moves

variable {net : Net} {c t : Core} {op : Op} {ops : List Op} {r r' : Nat}

theorem Net.inport_link_ne {p q : InPort} (hr : r < net.numRouters) (hr' : r' < net.numRouters)
    (hp : p ∈ net.inports r) (hq : q ∈ net.inports r') (hne : r ≠ r') : p.link ≠ q.link := by
  intro h
  have hdst := (inport_mem_links hr hp).2.1
  rw [h, (inport_mem_links hr' hq).2.1] at hdst
  exact hne hdst.symm

theorem Move.vcs_other (h : Move net op c t) (hr : r < net.numRouters) (hop : op.actor ≠ .router r)
    {p : InPort} (hp : p ∈ net.inports r) : t.vcs p.link = c.vcs p.link := by
  have hset {r' : Nat} {q : InPort} (hr' : r' < net.numRouters) (hq : q ∈ net.inports r')
      (hne : (Consumer.router r') ≠ .router r) (v : Nat) (w : VirtualChannel) :
      setEntry c.vcs q.link v w p.link = c.vcs p.link :=
    setEntry_row_of_ne _ (inport_link_ne hr hr' hp hq fun h => hne (congrArg _ h.symm)) _ _
  cases h with
  | receive hr' hq =>
    split
    · exact hset hr' hq hop _ _
    · exact hset hr' hq hop _ _
  | mark hr' hq => exact hset hr' hq hop _ _
  | grant _ hr' hq => exact hset hr' (mem_of_getElem? hq) hop _ _
  | _ => rfl

theorem trace_vcs_other (h : Trace (Move net) ops c t) (hr : r < net.numRouters)
    (hops : ∀ op ∈ ops, op.actor ≠ .router r) {p : InPort} (hp : p ∈ net.inports r) :
    t.vcs p.link = c.vcs p.link :=
  h.keeps (I := fun t => t.vcs p.link = c.vcs p.link)
    (fun op hop _ _ hmove hc => (hmove.vcs_other hr (hops op hop) hp).trans hc) rfl

theorem Core.Alarmed.later (h : c.Alarmed net r) (hcur : t.curCycle = c.curCycle)
    (hvcs : ∀ p ∈ net.inports r, t.vcs p.link = c.vcs p.link)
    (hevents : ∀ time, time ≠ c.curCycle → time ∈ c.events (.router r) → time ∈ t.events (.router r)) :
    t.Alarmed net r := by
  intro p hp v f hf hlater
  rw [hvcs p hp] at hf
  rw [hcur] at hlater
  exact hevents _ hlater.ne' (h p hp v f hf hlater)

theorem Core.Awake.later (h : c.Awake net r) (hcur : t.curCycle = c.curCycle)
    (hvcs : ∀ p ∈ net.inports r, t.vcs p.link = c.vcs p.link)
    (hevents : ∀ time, time ∈ c.events (.router r) → time ∈ t.events (.router r)) :
    t.Awake net r := by
  refine ⟨h.1.later hcur hvcs fun time _ => hevents time, fun p hp v f hf hready => ?_⟩
  rw [hvcs p hp] at hf
  rw [hcur] at hready ⊢
  obtain ⟨time, htime, hle⟩ := h.2 p hp v f hf hready
  exact ⟨time, hevents time htime, hle⟩

theorem Move.stage_cases (h : Move net op c t) (hr : r < net.numRouters) (hev : EventsOk net c)
    {p : InPort} (hp : p ∈ net.inports r) {v : Nat} {f : Flit}
    (hf : f ∈ (t.vcs p.link v).inputBuffer) :
    (∃ f₀ ∈ (c.vcs p.link v).inputBuffer, f₀.stage = f.stage) ∨
      (c.curCycle < f.stage.2 → f.stage.2 ∈ t.events (.router r)) := by
  have hkept (heq : t.vcs = c.vcs) : ∃ f₀ ∈ (c.vcs p.link v).inputBuffer, f₀.stage = f.stage :=
    ⟨f, heq ▸ hf, rfl⟩
  cases h with
  | @receive _ r' q g g' rest dirns hr' hq hbuf htime hidle harr hext hsame =>
    have hvcs : f ∈ (setEntry c.vcs q.link g.vc ((c.vcs q.link g.vc).filled g' c.curCycle) p.link
        v).inputBuffer := by
      split at hf <;> exact hf
    rw [setEntry_apply] at hvcs
    by_cases hset : p.link = q.link ∧ v = g.vc
    · rw [if_pos hset] at hvcs
      have hmem : f = g' ∨ f ∈ (c.vcs q.link g.vc).inputBuffer := mem_bufferInsert.mp hvcs
      rcases hmem with rfl | hmem
      · right
        obtain ⟨_, _, rfl⟩ := harr
        have hrr : r' = r := by
          by_contra hne
          exact inport_link_ne hr hr' hp hq (Ne.symm hne) hset.1
        subst hrr
        intro hlater
        have hlat : net.routerLatency ≠ 1 := by
          intro hone
          rw [hone] at hlater
          exact absurd hlater (lt_irrefl _)
        rw [if_neg hlat]
        change _ ∈ (update c.agenda (.router r') _ (.router r')).events
        rw [update_self]
        exact (hev _ (router_mem_consumers hr')).mem_schedule_self hlater
      · rw [← hset.1, ← hset.2] at hmem
        exact .inl ⟨f, hmem, rfl⟩
    · rw [if_neg hset] at hvcs
      exact .inl ⟨f, hvcs, rfl⟩
  | @mark _ r' w q g g' hr' hq hbuf hmark =>
    left
    change f ∈ (setEntry c.vcs q.link w _ p.link v).inputBuffer at hf
    rw [setEntry_apply] at hf
    split at hf
    · next hset =>
      rw [hset.1, hset.2, hbuf]
      obtain rfl := mem_singleton.mp hf
      exact ⟨g, mem_singleton_self g, hmark.stage_time.1.symm⟩
    · exact ⟨f, hf, rfl⟩
  | @grant _ r' i o w w' q op g uturn hr' hq hop =>
    left
    change f ∈ (setEntry c.vcs q.link w _ p.link v).inputBuffer at hf
    rw [setEntry_apply] at hf
    split at hf
    · exact absurd hf not_mem_nil
    · exact ⟨f, hf, rfl⟩
  | _ => exact .inl (hkept rfl)

theorem Core.Alarmed.move (hc : c.Alarmed net r) (hr : r < net.numRouters) (hev : EventsOk net c)
    (h : Move net op c t) : t.Alarmed net r := by
  intro p hp v f hf hlater
  rw [h.curCycle_eq] at hlater
  rcases h.stage_cases hr hev hp hf with ⟨f₀, hf₀, hstage⟩ | hnew
  · rw [← hstage] at hlater ⊢
    exact (h.grows _).mem (hc p hp v f₀ hf₀ hlater)
  · exact hnew hlater

theorem Core.Alarmed.trace (hc : c.Alarmed net r) (hr : r < net.numRouters) (hev : EventsOk net c)
    (h : Trace (Move net) ops c t) : t.Alarmed net r :=
  (h.keeps (I := fun c => EventsOk net c ∧ c.Alarmed net r) (fun _ _ _ _ hmove ⟨hev, hc⟩ =>
    ⟨hev.grows hmove.curCycle_eq hmove.grows, hc.move hr hev hmove⟩) ⟨hev, hc⟩).2

end Moves

section Phases

variable {net : Net} {s c t u m : Core} {r r' : Nat} {a : Action}

theorem AllocRun.vcs_eq {m₁ m₂ m₃ : Core} {ms gs ws xs : List Op}
    (h : AllocRun net r c m₁ m₂ m₃ t ms gs ws xs) : t.vcs = m₂.vcs := by
  have hkeep {ops : List Op} {u v : Core} (htrace : Trace (Move net) ops u v)
      (hops : ∀ op ∈ ops, op = .wake (.router r) ∨ ∃ l, op = .cross r l) : v.vcs = u.vcs := by
    refine htrace.keeps (I := fun v => v.vcs = u.vcs) (fun op hop _ _ hmove hu => ?_) rfl
    rcases hops op hop with rfl | ⟨l, rfl⟩
    · cases hmove
      exact hu
    · cases hmove
      exact hu
  exact (hkeep h.cross fun op hop => .inr (h.crosses op hop)).trans
    (hkeep h.wake fun op hop => .inl (h.wakes op hop))

theorem AllocPhase.awake (h : AllocPhase net r c t) (hr : r < net.numRouters) (hc : Wf net c)
    (hev : EventsOk net c) (halarm : c.Alarmed net r) : t.Awake net r := by
  obtain ⟨_, htrace, _⟩ := h.trace
  have htalarm := halarm.trace hr hev htrace
  obtain ⟨m₁, m₂, m₃, ms, gs, ws, xs, h⟩ := h
  have hbefore := h.mark.append h.grant
  have hm₂ := hc.trace hbefore
  have hev₂ := hev.grows hbefore.curCycle_eq hbefore.grows
  have hcur : t.curCycle = m₂.curCycle := h.cross.curCycle_eq.trans h.wake.curCycle_eq
  refine ⟨htalarm, fun p hp v f hf hready => ⟨t.curCycle + 1, ?_, le_rfl⟩⟩
  rw [h.vcs_eq] at hf
  have hvc : v < net.numVcs := (vc_mem_places.mp (hm₂.flits (.vc p.link v) f hf).1).2
  have hwait := h.waiting p hp v hvc f ((hm₂.vcs p.link v).eq_singleton hf) (by omega)
  have hmem : m₂.curCycle + 1 ∈ m₃.events (.router r) := by
    rw [hwait]
    change _ ∈ (update m₂.agenda (.router r) _ (.router r)).events
    rw [update_self]
    exact (hev₂ _ (router_mem_consumers hr)).mem_schedule_self (lt_succ_self _)
  rw [hcur]
  exact (h.cross.grows _).mem hmem

theorem Spins.released_cases (hring : net.RingOk) (h : Spins net (c.drainStart net) u) {l : Link}
    {v : Nat} {f : Flit} (hu : Wf net u) (hf : f ∈ ((u.released net).vcs l v).inputBuffer) :
    f ∈ (c.vcs l v).inputBuffer ∨ f.stage.2 = c.curCycle + spinDelay net := by
  have hcur : u.curCycle = c.curCycle := (congrArg curCycle h.frame :)
  have hstamped : Stamped net u _ (u.flitTimesSet net) := flitTimesSet_stamped u
  change f ∈ ((u.flitTimesSet net).vcs l v).inputBuffer at hf
  have hdelayed (heq : (u.flitTimesSet net).vcs l v =
      (u.vcs l v).mapTop (Flit.delayed net u.curCycle)) :
      f.stage.2 = c.curCycle + spinDelay net := by
    rw [heq] at hf
    rcases (hu.vcs l v).1 with ⟨hbuf, _⟩ | ⟨f₀, hbuf, _⟩
    · simp [VirtualChannel.mapTop, hbuf] at hf
    · simp only [VirtualChannel.mapTop, hbuf, modifyHead_cons, mem_singleton] at hf
      rw [hf, ← hcur]
      rfl
  by_cases hdone : v ∈ net.drainVcs ∧ ∃ a b d, net.HasLink a b d ∧ l = .int a b
  · exact .inr (hdelayed (hstamped.done l v hdone))
  · rcases hstamped.vcs l v with heq | heq
    · left
      have hkept : u.vcs l v = c.vcs l v := by
        obtain ⟨calls, hcalls, htrace⟩ := h
        refine htrace.keeps (I := fun u => u.vcs l v = c.vcs l v) (fun vc hvc _ _ hmove hu => ?_) rfl
        refine Eq.trans ?_ hu
        refine congrArg Prod.fst ((hmove.spun hring).channels.rest l v fun hv i hi hl => hdone ?_)
        obtain ⟨_, a, b, d, _, hentry, hlink⟩ := hring.entry_succ hi
        exact ⟨hv ▸ hcalls vc hvc, a, b, d, hentry.hasLink, hl.trans hlink⟩
      rw [heq, hkept] at hf
      exact hf
    · exact .inr (hdelayed heq)

theorem Spins.released_mem (h : Spins net (c.drainStart net) u) (hr : r < net.numRouters)
    (hev : EventsOk net c) (hdelay : 0 < spinDelay net) :
    c.curCycle + spinDelay net ∈ (u.released net).events (.router r) := by
  change _ ∈ ((u.released net).agenda (.router r)).events
  rw [h.released_agenda]
  change _ ∈ (if r < net.numRouters then _ else _ : Agenda).events
  rw [if_pos hr]
  exact (hev _ (router_mem_consumers hr)).mem_schedule_self (Nat.lt_add_of_pos_right hdelay)

/-- A drain stamps the flits it has moved and wakes all routers then. With a delay of 0 the other
routers still have to wake up in this cycle. -/
theorem Spins.released_awake (hring : net.RingOk) (h : Spins net (c.drainStart net) u)
    (hr : r < net.numRouters) (hc : Wf net c) (hev : EventsOk net c) (halarm : c.Alarmed net r) :
    (u.released net).Alarmed net r ∧
      (c.curCycle ∈ c.events (.router r) → (u.released net).Stirred net r) := by
  have hu : Wf net u := hc.drainStart.spins h
  have hcur : (u.released net).curCycle = c.curCycle := by
    rw [h.released_frame]
    rfl
  have hgrows {time : Nat} (htime : time ∈ c.events (.router r)) :
      time ∈ (u.released net).events (.router r) := by
    change _ ∈ ((u.released net).agenda (.router r)).events
    rw [h.released_agenda]
    exact (scheduleAllWakeup_grows net _ c (.router r)).mem htime
  refine ⟨fun p hp v f hf hlater => ?_, fun hnow p hp v f hf hready => ?_⟩
  · rw [hcur] at hlater
    rcases h.released_cases hring hu hf with hf | hstage
    · exact hgrows (halarm p hp v f hf hlater)
    · rw [hstage] at hlater ⊢
      exact h.released_mem hr hev (by omega)
  · rw [hcur]
    exact ⟨c.curCycle, hgrows hnow, le_succ _⟩

theorem SpinPhase.alarmed (h : SpinPhase net r c t) (hring : net.RingOk) (hr : r' < net.numRouters)
    (hc : Wf net c) (hev : EventsOk net c) (halarm : c.Alarmed net r') : t.Alarmed net r' := by
  have hgrows := h.grows.2 (.router r')
  cases h with
  | skip => exact halarm
  | halt => exact halarm.later rfl (fun _ _ => rfl) fun _ _ => hgrows.mem
  | drain _ _ _ hspins => exact (hspins.released_awake hring hr hc hev halarm).1

theorem Performed.awake_self (h : Performed net s (.router r) t) (hring : net.RingOk)
    (hr : r < net.numRouters) (hs : Wf net s) (hev : EventsOk net s) (halarm : s.Alarmed net r) :
    t.Awake net r := by
  cases h with
  | router hread hspin halloc =>
    have hpop : (popEvent (.router r) s).Alarmed net r :=
      halarm.later rfl (fun _ _ => rfl) fun time hne htime => mem_popEvent htime fun _ => hne
    obtain ⟨_, htrace, _⟩ := hread.trace
    have hev₀ := hev.popEvent (.router r)
    have hwf₁ := hread.wf (hs.popEvent _)
    have hev₁ := hev₀.grows htrace.curCycle_eq htrace.grows
    have halarm₂ := hspin.alarmed hring hr hwf₁ hev₁ (hpop.trace hr hev₀ htrace)
    exact halloc.awake hr (hspin.wf hwf₁) (hev₁.grows hspin.grows.1 hspin.grows.2) halarm₂

theorem Performed.awake_other (h : Performed net s (.router r) t) (hring : net.RingOk)
    (hT : 4 ≤ net.spinThrshld) (hr : r' < net.numRouters) (hne : r' ≠ r) (hs : Wf net s)
    (hev : EventsOk net s) (hwindow : HaltWindow net s) (hawake : s.Awake net r') : t.Awake net r' := by
  cases h with
  | @router _ m₁ m₂ _ hread hspin halloc =>
    have hactor {op : Op} (h : op.actor = .router r) : op.actor ≠ .router r' := by
      rw [h]
      exact fun h => hne (Consumer.router.inj h).symm
    obtain ⟨_, htrace, hops⟩ := hread.trace
    obtain ⟨_, htrace', hops'⟩ := halloc.trace
    have hkept {time : Nat} (htime : time ∈ s.events (.router r')) : time ∈ m₁.events (.router r') :=
      (htrace.grows _).mem (mem_popEvent htime fun h => absurd (Consumer.router.inj h) hne)
    have hwf₁ := hread.wf (hs.popEvent _)
    have hev₁ := (hev.popEvent (.router r)).grows htrace.curCycle_eq htrace.grows
    have hawake₁ : m₁.Awake net r' :=
      hawake.later htrace.curCycle_eq (fun p hp =>
        trace_vcs_other htrace hr (fun op hop => hactor (hops op hop).actor_eq) hp) fun _ => hkept
    have hawake₂ : m₂.Awake net r' := by
      have hgrows := hspin.grows.2 (.router r')
      cases hspin with
      | skip => exact hawake₁
      | halt => exact hawake₁.later rfl (fun _ _ => rfl) fun _ => hgrows.mem
      | drain _ hrelease _ hspins =>
        -- the first router that wakes up drains, so the others have not woken up yet
        have hsame : SameControl s m₁ := (popEvent_control s _).trans hread.control
        have hrelease := (releaseTime_congr hsame).mp hrelease
        obtain ⟨_, k, _, hsince⟩ := hwindow.locked hrelease.2.2
        have hcur := (hsince.releaseTime_iff hT).mp hrelease
        obtain ⟨halarm, hstir⟩ := hspins.released_awake hring hr hwf₁ hev₁ hawake₁.1
        refine ⟨halarm, hstir ?_⟩
        rw [hsame.curCycle, hcur]
        exact hkept (hsince.pending r' hr)
    exact hawake₂.later htrace'.curCycle_eq (fun p hp =>
      trace_vcs_other htrace' hr (fun op hop => hactor (hops' op hop)) hp)
      fun _ => (htrace'.grows _).mem

theorem Core.Awake.tick (h : c.Awake net r) :
    ({ c with curCycle := c.curCycle + 1 } : Core).Awake net r := by
  refine ⟨fun p hp v f hf hlater => h.1 p hp v f hf (lt_of_succ_lt hlater),
    fun p hp v f hf hready => ?_⟩
  by_cases hlater : c.curCycle < f.stage.2
  · exact ⟨_, h.1 p hp v f hf hlater, le_succ_of_le hready⟩
  · obtain ⟨time, htime, hle⟩ := h.2 p hp v f hf (Nat.le_of_not_lt hlater)
    exact ⟨time, htime, le_succ_of_le hle⟩

theorem Performed.awake (h : Performed net s a t) (hring : net.RingOk) (hT : 4 ≤ net.spinThrshld)
    (hs : Wf net s) (hev : EventsOk net s) (hwindow : HaltWindow net s)
    (hawake : ∀ r < net.numRouters, s.Awake net r) : ∀ r < net.numRouters, t.Awake net r := by
  intro r hr
  have hother {k : Consumer} {ops : List Op}
      (htrace : Trace (Move net) ops (popEvent k s) t) (hk : k ≠ .router r)
      (hops : ∀ op ∈ ops, op.actor ≠ .router r) : t.Awake net r :=
    (hawake r hr).later htrace.curCycle_eq (fun p hp => trace_vcs_other htrace hr hops hp)
      fun _ htime => (htrace.grows _).mem (mem_popEvent htime fun h => absurd h.symm hk)
  have hni {n : Nat} {op : Op} (hop : NiOp n op) : op.actor ≠ .router r := by
    rw [hop.actor_eq]
    exact nofun
  have hplain {ops : List Op} (htrace : Trace (Move net) ops s t)
      (hops : ∀ op ∈ ops, op.actor ≠ .router r) : t.Awake net r :=
    (hawake r hr).later htrace.curCycle_eq (fun p hp => trace_vcs_other htrace hr hops hp)
      fun _ => (htrace.grows _).mem
  cases h with
  | @router r' m₁ m₂ _ hread hspin halloc =>
    have hstep : Performed net s (.router r') t := .router hread hspin halloc
    by_cases hrr : r = r'
    · subst hrr
      exact hstep.awake_self hring hr hs hev (hawake r hr).1
    · exact hstep.awake_other hring hT hr hrr hs hev hwindow (hawake r hr)
  | ni htrace hops => exact hother htrace nofun fun op hop => hni (hops op hop)
  | link hmove => exact hother (.single hmove) nofun (by simp [Op.actor])
  | linkIdle _ => exact hother (.nil _) nofun (by simp)
  | creditLink hmove => exact hother (.single hmove) nofun (by simp [Op.actor])
  | creditLinkIdle _ => exact hother (.nil _) nofun (by simp)
  | message htrace hops => exact hplain htrace fun op hop => hni (hops op hop)
  | dequeueCallback htrace hops => exact hplain htrace fun op hop => hni (hops op hop)
  | tick => exact (hawake r hr).tick

end Phases

section Runs

variable {net : Net} {s : State}

theorem State.Reachable.awake (hring : net.RingOk) (hT : 4 ≤ net.spinThrshld) (h : s.Reachable net) :
    ∀ r < net.numRouters, s.toCore.Awake net r :=
  h.induct (fun _ _ _ => ⟨fun _ _ _ _ hf => absurd hf not_mem_nil,
      fun _ _ _ _ hf => absurd hf not_mem_nil⟩)
    fun _ _ _ hreach _ _ hstep hawake => hstep.awake hring hT hreach.free.wf.1 hreach.eventsOk
      (hreach.haltWindow hT) hawake

/-- A router with a flit in one of its VCs has a wakeup to come, in the next cycle at the latest or
when the flit becomes ready for the switch allocator. -/
theorem buffered_flit_awaited (hring : net.RingOk) (hT : 4 ≤ net.spinThrshld) (h : s.Reachable net)
    {r : Nat} (hr : r < net.numRouters) {p : InPort} (hp : p ∈ net.inports r) {v : Nat} {f : Flit}
    (hf : f ∈ (s.vcs p.link v).inputBuffer) : ∃ t ∈ s.events (.router r),
      s.curCycle ≤ t ∧ t ≤ max (s.curCycle + 1) f.stage.2 := by
  obtain ⟨halarm, hstir⟩ := h.awake hring hT r hr
  have hfuture {t : Nat} (ht : t ∈ s.events (.router r)) : s.curCycle ≤ t :=
    (h.eventsOk _ (router_mem_consumers hr)).future t ht
  by_cases hlater : s.curCycle < f.stage.2
  · have hmem := halarm p hp v f hf hlater
    exact ⟨_, hmem, hfuture hmem, le_max_right _ _⟩
  · obtain ⟨t, ht, hle⟩ := hstir p hp v f hf (Nat.le_of_not_lt hlater)
    exact ⟨t, ht, hfuture ht, hle.trans (le_max_left _ _)⟩

theorem waitingActions_run : ∃ s : State, s.Reachable (pairNet 1 8) ∧
    s.curCycle = 9 ∧ s.halt 1 = true ∧ (s.vcs (.int 0 1) 0).inputBuffer ≠ [] :=
  exists_reachable
    [.message 0 0 ⟨[1], 4⟩, .tick, .tick, .tick, .tick, .ni 0 fun _ => true, .tick, .link (.extIn 0),
      .tick, .router 0, .tick, .link (.int 0 1), .creditLink (.extIn 0), .tick, .router 1,
      .ni 0 fun _ => true, .tick, .router 1]
    (fun _ => 0) (by decide +kernel)

theorem buffered_flit_awaited_pairNet : ∃ s : State,
    s.Reachable (pairNet 1 8) ∧ s.curCycle = 9 ∧ s.halt 1 = true ∧
      ∃ f ∈ (s.vcs (.int 0 1) 0).inputBuffer, ∃ t ∈ s.events (.router 1),
        9 ≤ t ∧ t ≤ max 10 f.stage.2 := by
  obtain ⟨s, hreach, hcur, hhalt, hne⟩ := waitingActions_run
  obtain ⟨f, hf⟩ := exists_mem_of_ne_nil _ hne
  obtain ⟨t, ht, hle⟩ := buffered_flit_awaited pairNet_ringOk (by decide) hreach (r := 1) (by decide)
    (p := ⟨.int 0 1, .West⟩) (by decide) hf
  rw [hcur] at hle
  exact ⟨s, hreach, hcur, hhalt, f, hf, t, ht, hle⟩

end Runs

/-- Routers 0 and 1 joined by two links, router 2 with a node but without a link to another router,
router 3 with neither. -/
def Topology.sparse : Topology :=
  { Topology.pair with
    numRouters := 4
    nodes := 3
    extRouter_lt := fun _ hn => lt_succ_of_lt hn
    extWeight_pos := fun _ _ => Nat.one_pos
    intLink_lt := fun h => (Topology.pair.intLink_lt h).imp (lt_trans · (by decide))
      (lt_trans · (by decide)) }

/-- The ring of the file `1 W`, `0 N`, `1 W`, with an entry for the north port of router 0, which
does not exist. `doSpin` takes the Local port in its place. -/
def phantomNet : Net :=
  { gridNet (t := .sparse) .table (show 2 * 2 = 4 from rfl) (by decide)
      (pairNet 1 8 Nat.one_pos eight_pos).grid with
    inports := fun r =>
      if r = 0 then [⟨.extIn 0, .Local⟩, ⟨.int 1 0, .East⟩]
      else if r = 1 then [⟨.extIn 1, .Local⟩, ⟨.int 0 1, .West⟩]
      else if r = 2 then [⟨.extIn 2, .Local⟩]
      else []
    outports := fun r =>
      if r = 0 then [⟨.extOut 0, .Local, [0], 1⟩, ⟨.int 0 1, .East, [1], 1⟩]
      else if r = 1 then [⟨.extOut 1, .Local, [1], 1⟩, ⟨.int 1 0, .West, [0], 1⟩]
      else if r = 2 then [⟨.extOut 2, .Local, [2], 1⟩]
      else []
    inports_eq := by decide +kernel
    outports_eq := by decide +kernel
    routerLatency := 7
    routerLatency_pos := by decide
    spin := true
    spinThrshld := 12
    spinThrshld_pos := by decide
    spinRing := [⟨0, .East⟩, ⟨1, .West⟩, ⟨0, .North⟩, ⟨1, .West⟩, ⟨0, .East⟩] }

/-- The drain of cycle 15 moves a flit into the Local VC of router 0, which `set_flit_time` does
not visit. The flit is ready in cycle 19, the router's last wakeup is the one after the drain. -/
theorem buffered_flit_forgotten_phantomNet : phantomNet.linkLatency = 1 ∧ 4 ≤ phantomNet.spinThrshld ∧
    ∃ s : State, s.Reachable phantomNet ∧ s.curCycle = 17 ∧ s.drainLog = [15] ∧
      ((s.vcs (.extIn 0) 0).inputBuffer.map fun f => f.stage) = [(.SA, 19)] ∧
      s.events (.router 0) = [] :=
  ⟨rfl, by decide, exists_reachable
    [.message 0 0 ⟨[1], 3⟩, .message 2 0 ⟨[2], 10⟩, .tick, .tick, .tick, .ni 0 fun _ => true, .tick,
      .link (.extIn 0), .tick, .router 0, .tick, .tick, .tick, .tick, .tick, .ni 2 fun _ => true,
      .tick, .router 0, .link (.extIn 2), .tick, .router 2, .link (.int 0 1),
      .creditLink (.extIn 0), .tick, .router 1, .ni 0 fun _ => true, .tick, .tick, .router 0,
      .router 1, .router 2, .router 3, .tick, .tick, .router 0]
    (fun _ => 0) (by decide +kernel)⟩

end Drain
