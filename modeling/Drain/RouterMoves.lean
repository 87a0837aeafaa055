import Drain.WellFormed

/-! The parts of `Router::wakeup` other than the drain make moves. -/

namespace Drain

open Function List State

/-- States in which an assertion about credits or about an arriving flit fails. The lock
is only tested when an epoch starts. -/
def Fails (t : Core) : Failure → Prop
  | .creditAboveMax => ∃ l x rest, t.creditLinkBuffer l = x :: rest ∧
      ¬(t.outvcState l x.vc).creditCount + 1 ≤ (t.outvcState l x.vc).maxCreditCount
  | .creditBelowZero => ∃ l w, (t.outvcState l w).vcState = .idle ∧
      ¬0 ≤ (t.outvcState l w).creditCount - 1
  | .headAtBusyVc => ∃ l f rest, t.linkBuffer l = f :: rest ∧ (t.vcs l f.vc).vcState ≠ .idle
  | .lockHeld => False
  | _ => True

theorem Fails.of_ofProtocol {t : Core} {e : Failure} (h : e.ofProtocol = false) : Fails t e := by
  cases e <;> trivial

theorem isReady_iff {α : Type} [Timed α] {b : List α} {curTime : Nat} :
    isReady b curTime = true ↔ ∃ x rest, b = x :: rest ∧ Timed.time x ≤ curTime := by
  cases b with
  | nil => simp [isReady]
  | cons x rest => simp [isReady]

theorem Trace.control {net : Net} {ops : List Op} {s t : Core} (h : Trace (Move net) ops s t) :
    SameControl s t :=
  h.keeps (I := SameControl s) (fun _ _ _ _ hmove hu => hu.trans hmove.control) (.refl s)

theorem Trace.curCycle_eq {net : Net} {ops : List Op} {s t : Core} (h : Trace (Move net) ops s t) :
    t.curCycle = s.curCycle := h.control.curCycle

def Op.out : Op → Option Link
  | .cross _ l | .link l => some l
  | .send n => some (.extIn n)
  | _ => none

def Op.creditQueue : Op → Option Link
  | .grant _ l _ | .creditLink l => some l
  | .deliver n => some (.extOut n)
  | _ => none

def Op.creditLinkBuffer : Op → Option Link
  | .credit _ l | .creditLink l => some l
  | _ => none

section Frame

variable {net : Net} {op : Op} {s t : Core} {l : Link}

theorem Move.outBuffer_eq (h : Move net op s t) (hne : op.out ≠ some l) :
    t.outBuffer l = s.outBuffer l := by
  have hl {l' : Link} (h : some l' ≠ some l) : l ≠ l' := fun heq => h (by rw [heq])
  cases h with
  | receive => split <;> rfl
  | cross => exact update_of_ne (hl hne) _ _
  | send => exact update_of_ne (hl hne) _ _
  | link => exact update_of_ne (hl hne) _ _
  | _ => rfl

theorem Move.creditQueue_eq (h : Move net op s t) (hne : op.creditQueue ≠ some l) :
    t.creditQueue l = s.creditQueue l := by
  have hl {l' : Link} (h : some l' ≠ some l) : l ≠ l' := fun heq => h (by rw [heq])
  cases h with
  | receive => split <;> rfl
  | grant => exact update_of_ne (hl hne) _ _
  | deliver => exact update_of_ne (hl hne) _ _
  | unstall => exact update_of_ne (hl hne) _ _
  | creditLink => exact update_of_ne (hl hne) _ _
  | _ => rfl

theorem Move.creditLinkBuffer_eq (h : Move net op s t) (hne : op.creditLinkBuffer ≠ some l) :
    t.creditLinkBuffer l = s.creditLinkBuffer l := by
  have hl {l' : Link} (h : some l' ≠ some l) : l ≠ l' := fun heq => h (by rw [heq])
  cases h with
  | receive => split <;> rfl
  | credit => exact update_of_ne (hl hne) _ _
  | creditLink => exact update_of_ne (hl hne) _ _
  | _ => rfl

end Frame

section Read

variable {net : Net} {s : State} {r : Nat} {p : InPort} {l : Link}

theorem outportAt_spec {o : Nat} : Holds (net.outportAt r o)
    (fun op => (net.outports r)[o]? = some op) fun e => e.ofProtocol = false := by
  unfold Net.outportAt
  cases (net.outports r)[o]? with
  | none => rfl
  | some op => rfl

theorem openPacket_spec {f : Flit} : Holds (s.openPacket net r p f)
    (fun t => (s.vcs p.link f.vc).vcState = .idle ∧ ∃ dirns random,
      t.2 = { s with
        vcs := setEntry s.vcs p.link f.vc ((s.vcs p.link f.vc).setActive s.curCycle)
        outportsDirn2idx := dirns
        random := random } ∧
      DirnExt s.outportsDirn2idx dirns ∧
      (net.routingAlgorithm = .table → dirns = s.outportsDirn2idx) ∧
      (∃ op, (net.outports r)[t.1.outport]? = some op ∧ op.dirn = t.1.outportDir) ∧
      t.1 = { f with outport := t.1.outport, outportDir := t.1.outportDir } ∧
      (f.route.destRouter = r ∨ net.routingAlgorithm = .table →
        t.1.outport ∈ outputLinkCandidates (net.outports r) f.route.netDest))
    fun e => e.ofProtocol = false ∨
      (e = .headAtBusyVc ∧ (s.vcs p.link f.vc).vcState ≠ .idle) := by
  unfold openPacket
  refine .require ⟨fun hidle => ?_, fun hne => .inr ⟨rfl, hne⟩⟩
  rw [holds_bind]
  refine (Holds.and outportCompute_routed outportCompute_error).mono ?_ fun _ _ he => .inl he.2
  rintro ⟨o, s₁⟩ _ ⟨hrouted, _⟩
  rw [holds_bind]
  refine outportAt_spec.mono (fun op _ hop => ?_) fun _ _ he => .inl he
  exact ⟨hidle, _, _, hrouted.frame, hrouted.dirns, hrouted.same, ⟨op, hop, rfl⟩, rfl,
    hrouted.table⟩

theorem inputUnitWakeup_does (hs : Wf net s.toCore) (hr : r < net.numRouters)
    (hp : p ∈ net.inports r) :
    Does (Move net) Fails s.toCore (s.inputUnitWakeup net r p) toCore
      fun ops _ => ∀ op ∈ ops, op = .receive r := by
  unfold inputUnitWakeup
  by_cases hready : isReady (s.linkBuffer p.link) s.curCycle = true
  · obtain ⟨f, rest, hbuf, htime⟩ := isReady_iff.mp hready
    have hf : FlitWf net f := (hs.flits (.link p.link) f (by simp [Core.flitsAt, hbuf])).2.1
    have hhead : f.incrementHops.isHead = true := by
      simp [Flit.isHead, Flit.incrementHops, hf.type]
    rw [if_pos hready]
    simp only [hbuf, getTopFlit, ok_bind, hhead, if_true]
    unfold Does
    rw [holds_bind]
    refine openPacket_spec.mono ?_ ?_
    · rintro ⟨g, s₁⟩ _ ⟨hidle, dirns, random, hs₁, hext, hsame, hport, hg, htable⟩
      dsimp only at hs₁ hport hg htable ⊢
      have harr : Arrived net r s.curCycle f
          { g with stage := (.SA, s.curCycle + (net.routerLatency - 1)) } :=
        ⟨g, ⟨hg, hport, htable⟩, rfl⟩
      have hmove := Move.receive hr hp hbuf htime hidle harr hext hsame
      have hvc : g.vc = f.vc := by rw [hg]; rfl
      subst hs₁
      have hcore : setEntry (setEntry s.vcs p.link f.vc
          ((s.vcs p.link f.vc).setActive s.curCycle)) p.link g.vc
          ((setEntry s.vcs p.link f.vc ((s.vcs p.link f.vc).setActive s.curCycle) p.link
            g.vc).insertFlit { g with stage := (.SA, s.curCycle + (net.routerLatency - 1)) }) =
          setEntry s.vcs p.link f.vc ((s.vcs p.link f.vc).filled
            { g with stage := (.SA, s.curCycle + (net.routerLatency - 1)) } s.curCycle) := by
        rw [hvc, setEntry_setEntry, setEntry_self]
        rfl
      by_cases hlat : net.routerLatency = 1
      · rw [if_pos hlat] at hmove ⊢
        refine ⟨[.receive r], .single ?_, by simp⟩
        rw [Core.received, ← hcore] at hmove
        exact hmove
      · rw [if_neg hlat] at hmove ⊢
        refine ⟨[.receive r], .single ?_, by simp⟩
        rw [Core.received, ← hcore] at hmove
        exact hmove
    · rintro e _ (he | ⟨rfl, hne⟩)
      · exact ⟨[], _, .nil _, .of_ofProtocol he⟩
      · exact ⟨[], _, .nil _, p.link, f, rest, hbuf, hne⟩
  · rw [if_neg hready]
    exact .pure rfl (by simp)

def popReady {α : Type} [Timed α] (curTime : Nat) (b : List α) : List α :=
  if isReady b curTime then b.tail else b

theorem receiveCredit_does (hs : Wf net s.toCore) (c : Consumer) :
    Does (Move net) Fails s.toCore (s.receiveCredit l) toCore fun ops s' =>
      (∀ op ∈ ops, op = .credit c l) ∧ s'.creditLinkBuffer =
        update s.creditLinkBuffer l (popReady s.curCycle (s.creditLinkBuffer l)) := by
  unfold receiveCredit popReady
  by_cases hready : isReady (s.creditLinkBuffer l) s.curCycle = true
  · obtain ⟨x, rest, hbuf, htime⟩ := isReady_iff.mp hready
    have hfree : x.isFreeSignal = true := (hs.credits l).2 x (by simp [hbuf])
    rw [if_pos hready, if_pos hready]
    simp only [hbuf, getTopFlit, ok_bind, hfree, if_true, OutVcState.incrementCredit]
    unfold Does
    rw [holds_bind]
    refine .require ⟨fun hle => ?_, fun hgt => ⟨[], _, .nil _, l, x, rest, hbuf, hgt⟩⟩
    exact ⟨[.credit c l], .single (.credit hbuf htime hle), by simp, rfl⟩
  · rw [if_neg hready, if_neg hready, update_eq_self]
    exact .pure rfl ⟨by simp, rfl⟩

def ReadOp (net : Net) (r : Nat) (op : Op) : Prop :=
  op = .receive r ∨ ∃ p ∈ net.outports r, op = .credit (.router r) p.link

theorem ReadOp.actor_eq {op : Op} (h : ReadOp net r op) : op.actor = .router r := by
  rcases h with rfl | ⟨_, _, rfl⟩ <;> rfl

theorem readPorts_does (hs : Wf net s.toCore) (hr : r < net.numRouters) :
    Does (Move net) Fails s.toCore (s.readPorts net r) toCore fun ops s' =>
      (∀ op ∈ ops, ReadOp net r op) ∧ ∀ p ∈ net.outports r, s'.creditLinkBuffer p.link =
        popReady s.curCycle (s.creditLinkBuffer p.link) := by
  unfold readPorts
  have hin : Does (Move net) Fails s.toCore
      ((net.inports r).foldlM (inputUnitWakeup net r) s) toCore
      fun ops _ => ∀ op ∈ ops, op = .receive r := by
    refine holds_foldlM (fun t : State => ∃ ops, Trace (Move net) ops s.toCore t.toCore ∧
      ∀ op ∈ ops, op = .receive r) (net.inports r) ⟨[], .nil _, by simp⟩ ?_
    rintro p hp t ⟨ops, htrace, hops⟩
    refine ((inputUnitWakeup_does (hs.trace htrace) hr hp).imp ?_).after htrace
    intro ops' _ _ hops' op hop
    exact (mem_append.mp hop).elim (hops op) (hops' op)
  refine hin.bind fun ops s₁ htrace hops => ?_
  have hs₁ := hs.trace htrace
  have hcur : s₁.curCycle = s.curCycle := htrace.curCycle_eq
  have hcredit : s₁.creditLinkBuffer = s.creditLinkBuffer := by
    funext l
    refine htrace.keeps (I := fun t => t.creditLinkBuffer l = s.creditLinkBuffer l) ?_ rfl
    intro op hop u v hmove hu
    rw [← hu]
    refine hmove.creditLinkBuffer_eq ?_
    rw [hops op hop]
    nofun
  refine Holds.imp (holds_foldlM_rest (fun rest (t : State) => ∃ ops',
    Trace (Move net) ops' s₁.toCore t.toCore ∧
    (∀ op ∈ ops', ∃ p ∈ net.outports r, op = .credit (.router r) p.link) ∧
    (∀ p ∈ rest, t.creditLinkBuffer p.link = s₁.creditLinkBuffer p.link) ∧
    ∀ p ∈ net.outports r, p ∈ rest ∨
      t.creditLinkBuffer p.link = popReady s.curCycle (s₁.creditLinkBuffer p.link))
    ⟨[], .nil _, by simp, fun _ _ => rfl, fun p hp => .inl hp⟩ ?_) ?_
  · rintro p rest t hsuffix ⟨ops', htrace', hops', hrest, hdone⟩
    have hp : p ∈ net.outports r := hsuffix.subset mem_cons_self
    have hcur' : t.curCycle = s.curCycle := htrace'.curCycle_eq.trans hcur
    have hnodup : ((p :: rest).map OutPort.link).Nodup :=
      (Net.outports_link_nodup hr).sublist (hsuffix.sublist.map _)
    rw [map_cons, nodup_cons] at hnodup
    refine ((receiveCredit_does (hs₁.trace htrace') (.router r)).imp ?_).after htrace'
    rintro ops'' t' _ ⟨hops'', hbuf⟩
    refine ⟨fun op hop => ?_, fun q hq => ?_, fun q hq => ?_⟩
    · rcases mem_append.mp hop with hop | hop
      · exact hops' op hop
      · exact ⟨p, hp, hops'' op hop⟩
    · have hne : q.link ≠ p.link := fun h => hnodup.1 (h ▸ mem_map_of_mem hq)
      rw [hbuf, update_of_ne hne]
      exact hrest q (mem_cons_of_mem p hq)
    · rw [hbuf]
      by_cases hne : q.link = p.link
      · refine .inr ?_
        rw [hne, update_self, hcur', hrest p mem_cons_self]
      · rw [update_of_ne hne]
        refine (hdone q hq).imp_left fun hmem => ?_
        exact (mem_cons.mp hmem).resolve_left fun h => hne (by rw [h])
  · rintro t ⟨ops', htrace', hops', _, hdone⟩
    refine ⟨ops', htrace', fun op hop => ?_, fun p hp => ?_⟩
    · exact (mem_append.mp hop).elim (fun h => .inl (hops op h)) fun h => .inr (hops' op h)
    · rw [(hdone p hp).resolve_left (by simp), hcredit]

end Read

section Mark

variable {net : Net} {s : State} {r v : Nat} {p : InPort} {f : Flit}

def PortDirection.perpendicular : PortDirection → List PortDirection
  | .East | .West => [.North, .South]
  | .North | .South => [.East, .West]
  | .Local | .Unknown => []

theorem deflect_eq (c : Core) (r : Nat) (d₁ d₂ : PortDirection) :
    (match c.outportsDirn2idx r d₁ with
      | some o => (pure (o, d₁) : Except Failure (Nat × PortDirection))
      | none => match c.outportsDirn2idx r d₂ with
        | some o => pure (o, d₂)
        | none => throw Failure.uturnStuck) =
    ([d₁, d₂].findSome? fun d' => (c.outportsDirn2idx r d').map (·, d')).elim
      (.error .uturnStuck) .ok := by
  cases h₁ : c.outportsDirn2idx r d₁ with
  | some o => simp [h₁]; rfl
  | none =>
    cases h₂ : c.outportsDirn2idx r d₂ with
    | some o => simp [h₁, h₂]; rfl
    | none => simp [h₁, h₂]; rfl

theorem disallowUturn_eq {c : Core} (d : PortDirection) :
    disallowUturn c r d =
      (d.perpendicular.findSome? fun d' => (c.outportsDirn2idx r d').map (·, d')).elim
        (.error .uturnStuck) .ok := by
  cases d with
  | Local => rfl
  | Unknown => rfl
  | _ => exact deflect_eq c r _ _

theorem perpendicular_ne {d d' : PortDirection} (h : d' ∈ d.perpendicular) : 
    d' ≠ .Local ∧ d' ≠ .Unknown ∧ d' ≠ d := by
  cases d <;> simp [PortDirection.perpendicular] at h <;> rcases h with rfl | rfl <;> simp

theorem disallowUturn_spec {c : Core} (d : PortDirection) : Holds (disallowUturn c r d)
    (fun t => c.outportsDirn2idx r t.2 = some t.1 ∧ t.2 ≠ .Local ∧ t.2 ≠ .Unknown)
    fun e => e.ofProtocol = false := by
  rw [disallowUturn_eq]
  cases hfound : d.perpendicular.findSome? fun d' => (c.outportsDirn2idx r d').map (·, d') with
  | none => rfl
  | some t =>
    obtain ⟨d', hd', ht⟩ := exists_of_findSome?_eq_some hfound
    obtain ⟨o, ho, rfl⟩ := Option.map_eq_some_iff.mp ht
    exact ⟨ho, (perpendicular_ne hd').1, (perpendicular_ne hd').2.1⟩

theorem Move.of_mapTop {c : Core} {g : Flit → Flit} (hr : r < net.numRouters)
    (hp : p ∈ net.inports r) (hbuf : (c.vcs p.link v).inputBuffer = [f])
    (h : Marked (c.outportsDirn2idx r) p f (g f)) :
    Move net (.mark r p.link) c (c.setVc p.link v ((c.vcs p.link v).mapTop g)) ∧
      (c.setVc p.link v ((c.vcs p.link v).mapTop g)).vcs p.link v =
        { c.vcs p.link v with inputBuffer := [g f] } := by
  have htop : (c.vcs p.link v).mapTop g = { c.vcs p.link v with inputBuffer := [g f] } := by
    unfold VirtualChannel.mapTop
    rw [hbuf]
    rfl
  rw [htop]
  exact ⟨.mark hr hp hbuf h, setEntry_self _ _ _ _⟩

structure Noted (p : InPort) (f f' : Flit) : Prop where
  stage : f'.stage = f.stage
  time : f'.time = f.time
  uturn : f'.outportDir = p.dirn → p.dirn ≠ .Local → f'.requestUturn = true

theorem markUturn_does (hr : r < net.numRouters) (hp : p ∈ net.inports r)
    (hbuf : (s.vcs p.link v).inputBuffer = [f]) :
    Does (Move net) Fails s.toCore (s.markUturn net r p v) toCore fun ops s' =>
      (∀ op ∈ ops, op = .mark r p.link) ∧ ∃ f',
        s'.vcs p.link v = { s.vcs p.link v with inputBuffer := [f'] } ∧ Noted p f f' := by
  unfold markUturn
  simp only [hbuf, peekTopFlit, ok_bind]
  have hnote (uturn : Bool) := Move.of_mapTop (g := ({ · with requestUturn := uturn })) hr hp hbuf
    (.note uturn)
  by_cases huturn : f.outportDir = p.dirn ∧ p.dirn ≠ .Local
  · rw [if_pos huturn]
    obtain ⟨hmove, hbuf'⟩ := hnote true
    by_cases hcross : net.uTurnCrossbar = 0
    · rw [if_pos hcross]
      unfold Does
      rw [holds_bind]
      refine (disallowUturn_spec p.dirn).mono ?_ fun e _ he => ⟨[], _, .nil _, .of_ofProtocol he⟩
      rintro ⟨o, d⟩ _ ⟨ho, hlocal, hunknown⟩
      obtain ⟨hmove', hbuf''⟩ := Move.of_mapTop (g := ({ · with outport := o, outportDir := d })) hr hp
        (congrArg VirtualChannel.inputBuffer hbuf' :) (.deflect huturn.1 huturn.2 ho hlocal hunknown)
      refine ⟨[.mark r p.link, .mark r p.link], (Trace.single hmove).snoc hmove', by simp,
        { f with requestUturn := true, outport := o, outportDir := d }, hbuf''.trans ?_,
        ⟨rfl, rfl, fun _ _ => rfl⟩⟩
      rw [hbuf']
    · rw [if_neg hcross]
      exact ⟨[.mark r p.link], .single hmove, by simp, _, hbuf', ⟨rfl, rfl, fun _ _ => rfl⟩⟩
  · rw [if_neg huturn]
    obtain ⟨hmove, hbuf'⟩ := hnote false
    exact ⟨[.mark r p.link], .single hmove, by simp, _, hbuf',
      ⟨rfl, rfl, fun hdir hlocal => absurd ⟨hdir, hlocal⟩ huturn⟩⟩

end Mark

end Drain
