import Drain.SpinMoves

/-! Every step of a run, described by moves: a wakeup of a router reads its ports,
takes one of the spin branches, and then allocates and crosses its switch. -/

namespace Drain

open Function List State Core

/-- The lock and the halts of all routers agree. -/
def Control (net : Net) (s : Core) : Prop :=
  (s.lock = none ∧ ∀ r < net.numRouters, s.halt r = false) ∨
    ∃ id < net.numRouters, s.lock = some id ∧ ∀ r < net.numRouters, s.halt r = true

namespace Core

variable (net : Net)

def halted (r : Nat) (s : Core) : Core :=
  { scheduleAllWakeup net 3
      { s.setHalt net true with haltLog := s.curCycle :: s.haltLog } with lock := some r }

def released (s : Core) : Core :=
  scheduleAllWakeup net (spinDelay net) { s.flitTimesSet net with lock := none }

end Core

inductive SpinPhase (net : Net) (r : Nat) (s : Core) : Core → Prop
  | skip : ¬(net.spin = true ∧ epochStart net s ∧ s.lock = none) →
      ¬(net.spin = true ∧ releaseTime net s) → SpinPhase net r s s
  | halt : net.spin = true → epochStart net s → s.lock = none →
      SpinPhase net r s (s.halted net r)
  | drain {c : Core} : net.spin = true → releaseTime net s → s.chckLinkState net = true →
      Spins net (s.drainStart net) c → SpinPhase net r s (c.released net)

structure ReadPhase (net : Net) (r : Nat) (s t : Core) : Prop where
  trace : ∃ ops, Trace (Move net) ops s t ∧ ∀ op ∈ ops, ReadOp net r op
  credits : ∀ p ∈ net.outports r,
    t.creditLinkBuffer p.link = popReady s.curCycle (s.creditLinkBuffer p.link)

/-- The switch allocator and the crossbar, from SA-I to the last crossing. -/
structure AllocRun (net : Net) (r : Nat) (s m₁ m₂ m₃ t : Core) (ms gs ws xs : List Op) : Prop where
  mark : Trace (Move net) ms s m₁
  marks : ∀ op ∈ ms, ∃ l, op = .mark r l
  grant : Trace (Move net) gs m₁ m₂
  grants : Grants r gs
  halted : s.halt r = true → gs = []
  wake : Trace (Move net) ws m₂ m₃
  wakes : ∀ op ∈ ws, op = .wake (.router r)
  waiting : ∀ p ∈ net.inports r, ∀ v < net.numVcs, ∀ f, (m₂.vcs p.link v).inputBuffer = [f] →
    f.stage.2 ≤ m₂.curCycle + 1 → m₃ = m₂.scheduleEvent (.router r) 1
  cross : Trace (Move net) xs m₃ t
  crosses : ∀ op ∈ xs, ∃ l, op = .cross r l
  switch : ∀ i < (net.inports r).length, t.switchBuffer r i = (m₃.switchBuffer r i).tail

def AllocPhase (net : Net) (r : Nat) (s t : Core) : Prop :=
  ∃ m₁ m₂ m₃ ms gs ws xs, AllocRun net r s m₁ m₂ m₃ t ms gs ws xs

/-- Where a failed wakeup of a router has stopped. -/
inductive RouterFails (net : Net) (r : Nat) (s : Core) (x : Failure) : Prop
  | read {ops : List Op} {t : Core} : Trace (Move net) ops s t → Fails t x → RouterFails net r s x
  | busy : x = .linkBusy → RouterFails net r s x
  | spin {m c : Core} : ReadPhase net r s m → net.spin = true → releaseTime net m →
      m.chckLinkState net = true → Spins net (m.drainStart net) c → SpinError net c x →
      RouterFails net r s x
  | alloc {m₁ m₂ t : Core} {ops : List Op} : ReadPhase net r s m₁ → SpinPhase net r m₁ m₂ →
      Trace (Move net) ops m₂ t → Fails t x → RouterFails net r s x

section Spin

variable {net : Net} {r : Nat} {s : State}

theorem startHalt_spec (hc : Control net s.toCore) (hr : r < net.numRouters) :
    Holds (s.startHalt net r)
      (fun s' => s.lock = none ∧ s'.toCore = s.halted net r ∨ s.lock ≠ none ∧ s'.toCore = s.toCore)
      fun _ => False := by
  unfold startHalt
  rcases hc with ⟨hlock, hhalt⟩ | ⟨id, _, hlock, hhalt⟩
  · rw [if_pos (hhalt r hr)]
    dsimp only
    refine holds_require_bind hlock ?_
    have hlock' : ((s.on fun c => { c.setHalt net true with haltLog := c.curCycle :: c.haltLog }).on
        (scheduleAllWakeup net 3)).lock = none := hlock
    rw [pure_bind, if_pos hlock', holds_pure]
    exact .inl ⟨hlock, rfl⟩
  · have hne : s.lock ≠ none := by simp [hlock]
    rw [if_neg (by simp [hhalt r hr]), pure_bind]
    dsimp only
    rw [if_neg hne]
    exact .inr ⟨hne, rfl⟩

theorem assignHalt_eq (hhalt : s.halt r = true) (asserts : Bool) :
    (if asserts then s.on fun c => { c with halt := update c.halt r true } else s) = s := by
  have hupdate : update s.halt r true = s.halt := by
    rw [← hhalt]
    exact update_eq_self r s.halt
  split
  · dsimp only [State.on]
    rw [hupdate]
  · rfl

theorem release_spec (hs : Wf net s.toCore) (hhalt : s.halt r = true) (asserts : Bool) :
    Holds (s.release net asserts r)
      (fun s' => s.chckLinkState net = true ∧ ∃ c, Spins net (s.drainStart net) c ∧
        s'.toCore = c.released net)
      fun x => x = .linkBusy ∨ (s.chckLinkState net = true ∧
        ∃ c, Spins net (s.drainStart net) c ∧ SpinError net c x) := by
  unfold release
  dsimp only
  rw [assignHalt_eq hhalt, if_pos hhalt, holds_bind]
  refine (drain_spec hs).imp ?_
  rintro s' ⟨hlink, c, hspins, hs'⟩
  refine ⟨hlink, c, hspins, ?_⟩
  change scheduleAllWakeup net _ { s'.toCore with lock := none } = _
  rw [hs']
  rfl

theorem spinStage_spec (hs : Wf net s.toCore) (hc : Control net s.toCore) (hr : r < net.numRouters)
    (asserts : Bool) :
    Holds (if net.spin then s.spinStage net asserts r else pure s)
      (fun s' => SpinPhase net r s.toCore s'.toCore)
      fun x => x = .linkBusy ∨ (net.spin = true ∧ releaseTime net s.toCore ∧
        s.chckLinkState net = true ∧ ∃ c, Spins net (s.drainStart net) c ∧ SpinError net c x) := by
  rw [holds_ite]
  refine ⟨fun hspin => ?_, fun hspin => .skip (fun h => hspin h.1) fun h => hspin h.1⟩
  unfold spinStage
  rw [holds_ite, holds_ite]
  refine ⟨fun hepoch => ?_, fun hepoch => ⟨fun hrelease => ?_, fun hrelease => ?_⟩⟩
  · have hnot : ¬releaseTime net s.toCore := fun h => by
      have := h.2.1
      have := hepoch.2
      omega
    refine (startHalt_spec hc hr).mono ?_ fun _ _ h => h.elim
    rintro s' _ (⟨hlock, hs'⟩ | ⟨hlock, hs'⟩)
    · rw [hs']
      exact .halt hspin hepoch hlock
    · rw [hs']
      exact .skip (fun h => hlock h.2.2) fun h => hnot h.2
  · have hhalt : s.halt r = true := by
      rcases hc with ⟨hlock, _⟩ | ⟨_, _, _, hhalt⟩
      · exact absurd hlock hrelease.2.2
      · exact hhalt r hr
    refine (release_spec hs hhalt asserts).mono ?_ ?_
    · rintro s' _ ⟨hlink, c, hspins, hs'⟩
      rw [hs']
      exact .drain hspin hrelease hlink hspins
    · rintro x _ (hx | ⟨hlink, hx⟩)
      · exact .inl hx
      · exact .inr ⟨hspin, hrelease, hlink, hx⟩
  · exact .require ⟨fun _ => .skip (fun h => hepoch h.2.1) fun h => hrelease h.2, fun _ => .inl rfl⟩

end Spin

section Wakeup

variable {net : Net} {r : Nat} {s : State} {c m t : Core}

theorem Wf.scheduleAllWakeup (h : Wf net c) (k : Nat) : Wf net (c.scheduleAllWakeup net k) :=
  h.setControl ..

theorem Wf.setLock (h : Wf net c) (lock : Option Nat) : Wf net { c with lock := lock } :=
  h.setControl ..

theorem Wf.popEvent (h : Wf net c) (k : Consumer) : Wf net (popEvent k c) :=
  h.setControl ..

theorem Wf.spins (h : Wf net c) (hspins : Spins net c t) : Wf net t := by
  obtain ⟨_, _, htrace⟩ := hspins
  exact htrace.keeps (I := Wf net) (fun _ _ _ _ hmove _ => hmove.wf) h

theorem ReadPhase.wf (h : ReadPhase net r c t) (hc : Wf net c) : Wf net t := by
  obtain ⟨_, htrace, _⟩ := h.trace
  exact hc.trace htrace

theorem SpinPhase.wf (h : SpinPhase net r c t) (hc : Wf net c) : Wf net t := by
  cases h with
  | skip => exact hc
  | halt =>
    refine (Wf.scheduleAllWakeup ?_ 3).setLock _
    exact ⟨hc.dirns, hc.vcs, hc.outvc, fun x f hf => hc.flits x f (by cases x <;> exact hf),
      hc.credits, hc.messages, hc.allocator⟩
  | drain _ _ _ hspins =>
    have hwf := (flitTimesSet_stamped _).wf (hc.drainStart.spins hspins)
    exact (hwf.setLock none).scheduleAllWakeup _

theorem readPorts_phase (hs : Wf net s.toCore) (hr : r < net.numRouters) :
    Holds (s.readPorts net r) (fun s' => ReadPhase net r s.toCore s'.toCore)
      fun x => ∃ ops t, Trace (Move net) ops s.toCore t ∧ Fails t x :=
  Holds.imp (readPorts_does hs hr) fun _ ⟨ops, htrace, hops, hcredits⟩ =>
    ⟨⟨ops, htrace, hops⟩, hcredits⟩

theorem allocate_phase (hs : Wf net s.toCore) (hr : r < net.numRouters) :
    Holds (s.switchAllocatorWakeup net r >>= crossbarWakeup net r)
      (fun s' => AllocPhase net r s.toCore s'.toCore)
      fun x => ∃ ops t, Trace (Move net) ops s.toCore t ∧ Fails t x := by
  have hdoes : Does (Move net) Fails s.toCore
      (s.switchAllocatorWakeup net r >>= crossbarWakeup net r) toCore
      fun _ s' => AllocPhase net r s.toCore s'.toCore := by
    unfold switchAllocatorWakeup
    rw [bind_assoc]
    refine (arbitrateInports_does hr hs).bind ?_
    rintro ms ⟨s₁, q⟩ hmark ⟨hms, hq, _⟩
    have hs₁ := hs.trace hmark
    rw [bind_assoc]
    refine (arbitrateOutports_does hs₁ hr (hq.mono fun _ _ _ => Ready.asks)).bind ?_
    rintro gs s₂ hgrant ⟨hgs, hhalt⟩
    have hs₂ := hs₁.trace hgrant
    refine (checkForWakeup_does hs₂).bind ?_
    rintro ws s₃ hwake ⟨hws, hwaiting⟩
    refine (crossbarWakeup_does (hs₂.trace hwake) hr).imp ?_
    rintro xs s₄ hcross ⟨hxs, hswitch⟩
    refine ⟨_, _, _, ms, gs, ws, xs, ⟨hmark, hms, hgrant, hgs, fun h => hhalt ?_, hwake, hws,
      hwaiting, hcross, hxs, hswitch⟩⟩
    exact (congrFun hmark.control.halt r).trans h
  exact Holds.mono hdoes (fun _ _ ⟨_, _, h⟩ => h) fun _ _ => id

theorem routerWakeup_eq (asserts : Bool) : s.routerWakeup net asserts r =
    s.readPorts net r >>= fun s => (if net.spin then s.spinStage net asserts r else pure s) >>=
      fun s => s.switchAllocatorWakeup net r >>= crossbarWakeup net r := by
  unfold routerWakeup
  refine congrArg _ (funext fun s => ?_)
  cases net.spin with
  | true => rfl
  | false => rfl

theorem ReadPhase.control (h : ReadPhase net r c t) : SameControl c t := by
  obtain ⟨ops, htrace, _⟩ := h.trace
  exact htrace.control

theorem Control.congr (h : Control net c) (hsame : SameControl c t) : Control net t := by
  unfold Control
  rwa [hsame.lock, hsame.halt]

theorem routerWakeup_spec (hs : Wf net s.toCore) (hc : Control net s.toCore)
    (hr : r < net.numRouters) (asserts : Bool) :
    Holds (s.routerWakeup net asserts r)
      (fun s' => ∃ m₁ m₂, ReadPhase net r s.toCore m₁ ∧ SpinPhase net r m₁ m₂ ∧
        AllocPhase net r m₂ s'.toCore)
      (RouterFails net r s.toCore) := by
  rw [routerWakeup_eq, holds_bind]
  refine (readPorts_phase hs hr).mono (fun s₁ _ hread => ?_) fun x _ ⟨ops, t, htrace, hx⟩ =>
    .read htrace hx
  have hs₁ := hread.wf hs
  have hc₁ : Control net s₁.toCore := hc.congr hread.control
  rw [holds_bind]
  refine (spinStage_spec hs₁ hc₁ hr asserts).mono (fun s₂ _ hspin => ?_) ?_
  · refine (allocate_phase (hspin.wf hs₁) hr).mono (fun s' _ halloc => ⟨_, _, hread, hspin, halloc⟩) ?_
    exact fun x _ ⟨ops, t, htrace, hx⟩ => .alloc hread hspin htrace hx
  · rintro x _ (hx | ⟨hspin, hrelease, hlink, c, hspins, hx⟩)
    · exact .busy hx
    · exact .spin hread hspin hrelease hlink hspins hx

end Wakeup

inductive Performed (net : Net) (s : Core) : Action → Core → Prop
  | router {r : Nat} {m₁ m₂ t : Core} : ReadPhase net r (popEvent (.router r) s) m₁ →
      SpinPhase net r m₁ m₂ → AllocPhase net r m₂ t → Performed net s (.router r) t
  | ni {n : Nat} {slots : Nat → Bool} {ops : List Op} {t : Core} :
      Trace (Move net) ops (popEvent (.ni n) s) t → (∀ op ∈ ops, NiOp n op) →
      Performed net s (.ni n slots) t
  | link {l : Link} {t : Core} : Move net (.link l) (popEvent (.link l) s) t →
      Performed net s (.link l) t
  | linkIdle {l : Link} : isReady (s.outBuffer l) s.curCycle = false →
      Performed net s (.link l) (popEvent (.link l) s)
  | creditLink {l : Link} {t : Core} :
      Move net (.creditLink l) (popEvent (.creditLink l) s) t →
      Performed net s (.creditLink l) t
  | creditLinkIdle {l : Link} : isReady (s.creditQueue l) s.curCycle = false →
      Performed net s (.creditLink l) (popEvent (.creditLink l) s)
  | message {n vnet : Nat} {m : Message} {ops : List Op} {t : Core} : Trace (Move net) ops s t →
      (∀ op ∈ ops, NiOp n op) → Performed net s (.message n vnet m) t
  | dequeueCallback {n : Nat} {ops : List Op} {t : Core} : Trace (Move net) ops s t →
      (∀ op ∈ ops, NiOp n op) → Performed net s (.dequeueCallback n) t
  | tick : Performed net s .tick { s with curCycle := s.curCycle + 1 }

def PerformFails (net : Net) (s : Core) : Action → Failure → Prop
  | .router r, x => RouterFails net r (popEvent (.router r) s) x
  | .ni n _, x => ∃ ops t, Trace (Move net) ops (popEvent (.ni n) s) t ∧ Fails t x
  | _, _ => False

section Steps

variable {net : Net} {s : State} {c t : Core} {a : Action}

theorem mem_insertMessage {m m' : Message} {q : List Message} (h : m' ∈ insertMessage m q) :
    m' = m ∨ m' ∈ q := by
  induction q with
  | nil => exact .inl (mem_singleton.mp h)
  | cons x q ih =>
    unfold insertMessage at h
    split at h
    · exact mem_cons.mp h
    · rcases mem_cons.mp h with rfl | h
      · exact .inr mem_cons_self
      · exact (ih h).imp_right (mem_cons_of_mem x)

theorem perform_spec (hs : Wf net s.toCore) (hc : Control net s.toCore) (ha : s.valid net a) :
    Holds (s.perform net a) (fun s' => Performed net s.toCore a s'.toCore)
      (PerformFails net s.toCore a) := by
  cases a with
  | router r =>
    refine (routerWakeup_spec (s := s.on (popEvent (.router r))) (hs.popEvent _) hc ha
      true).imp ?_
    exact fun s' ⟨m₁, m₂, hread, hspin, halloc⟩ => .router hread hspin halloc
  | ni n slots =>
    refine Holds.imp (niWakeup_does (s := s.on (popEvent (.ni n))) ha (hs.popEvent _) slots) ?_
    exact fun s' ⟨ops, htrace, hops⟩ => .ni htrace hops
  | link l =>
    rcases linkWakeup_move ha (popEvent (.link l) s.toCore) with ⟨_, hmove⟩ | ⟨hidle, heq⟩
    · exact .link hmove
    · change Performed net s.toCore _ (linkWakeup net l (popEvent (.link l) s.toCore))
      rw [heq]
      exact .linkIdle hidle
  | creditLink l =>
    rcases creditLinkWakeup_move ha (popEvent (.creditLink l) s.toCore) with
      ⟨_, hmove⟩ | ⟨hidle, heq⟩
    · exact .creditLink hmove
    · change Performed net s.toCore _
        (creditLinkWakeup net l (popEvent (.creditLink l) s.toCore))
      rw [heq]
      exact .creditLinkIdle hidle
  | message n vnet m =>
    obtain ⟨_, hvnet, _, hdests, harrival⟩ := ha
    have hqueue : Move net (.queue n) s.toCore { s.toCore with
        inNode := setEntry s.inNode n vnet (insertMessage m (s.inNode n vnet)) } := by
      refine .queue fun m' hm' => ?_
      rcases mem_insertMessage hm' with rfl | hm'
      · exact ⟨hvnet, hdests⟩
      · exact hs.messages n vnet m' hm'
    have htrace : Trace (Move net) [.queue n, .wake (.ni n)] s.toCore
        (s.enqueueMessage n vnet m).toCore := (Trace.single hqueue).snoc (.wake harrival)
    exact .message htrace (by simp [NiOp])
  | dequeueCallback n =>
    have htrace : Trace (Move net) [.wake (.ni n)] s.toCore (s.scheduleEvent (.ni n) 1) :=
      .single (.wake (Nat.lt_succ_self _))
    exact .dequeueCallback htrace (by simp [NiOp])
  | tick => exact .tick

theorem Spins.frame (h : Spins net c t) : t = { c with
    vcs := t.vcs
    outvcState := t.outvcState
    outportsDirn2idx := t.outportsDirn2idx } := by
  obtain ⟨calls, _, htrace⟩ := h
  refine htrace.keeps (I := fun t => t = { c with
    vcs := t.vcs
    outvcState := t.outvcState
    outportsDirn2idx := t.outportsDirn2idx }) (fun _ _ u v hmove hu => ?_) rfl
  rw [hmove.frame, hu]

theorem Spins.released_frame (h : Spins net (c.drainStart net) t) :
    t.released net = { c.drainStart net with
      lock := none
      vcs := (t.released net).vcs
      outvcState := (t.released net).outvcState
      outportsDirn2idx := (t.released net).outportsDirn2idx
      agenda := (c.scheduleAllWakeup net (spinDelay net)).agenda } := by
  have hstamped : t.flitTimesSet net = { t with vcs := (t.flitTimesSet net).vcs } :=
    (flitTimesSet_stamped t).frame
  unfold released scheduleAllWakeup
  rw [hstamped, h.frame]
  rfl

theorem SpinPhase.keeps_control {r : Nat} (h : SpinPhase net r c t) (hr : r < net.numRouters)
    (hc : Control net c) : Control net t := by
  cases h with
  | skip => exact hc
  | halt => exact .inr ⟨r, hr, rfl, fun r' hr' => if_pos hr'⟩
  | drain _ _ _ hspins =>
    rw [hspins.released_frame]
    exact .inl ⟨rfl, fun r' hr' => if_pos hr'⟩

theorem AllocPhase.trace {r : Nat} (h : AllocPhase net r c t) :
    ∃ ops, Trace (Move net) ops c t ∧ ∀ op ∈ ops, op.actor = .router r := by
  obtain ⟨m₁, m₂, m₃, ms, gs, ws, xs, h⟩ := h
  refine ⟨ms ++ gs ++ ws ++ xs, ((h.mark.append h.grant).append h.wake).append h.cross, ?_⟩
  simp only [forall_mem_append]
  refine ⟨⟨⟨fun op hop => ?_, fun op hop => ?_⟩, fun op hop => ?_⟩, fun op hop => ?_⟩
  · obtain ⟨l, rfl⟩ := h.marks op hop
    rfl
  · obtain ⟨l, m, rfl⟩ := h.grants.grant op hop
    rfl
  · rw [h.wakes op hop]
    rfl
  · obtain ⟨l, rfl⟩ := h.crosses op hop
    rfl

end Steps

end Drain
