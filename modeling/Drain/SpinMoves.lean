import Drain.NiMoves

/-! What the drain does on any ring: the calls of `doSpin` keep the state
well-formed and leave the clock, the lock and the pending wakeups alone. -/

namespace Drain

open Function List State Core Net Flit VirtualChannel

section Updates

variable {net : Net} {c : Core} {l : Link} {v : Nat}

theorem Wf.setVc (hs : Wf net c) {w : VirtualChannel} (hw : w.Wf c.curCycle)
    (hf : ∀ f ∈ w.inputBuffer, Place.vc l v ∈ net.places ∧ FlitWf net f ∧ f.stage.1 = .SA ∧
      f.time ≤ c.curCycle ∧ ∃ op, (net.outports (net.dstRouter l))[f.outport]? = some op) :
    Wf net (c.setVc l v w) := by
  refine ⟨hs.dirns, ?_, hs.outvc, fun x f hx => ?_, hs.credits, hs.messages, hs.allocator⟩
  · exact forall_setEntry (P := fun _ _ (v : VirtualChannel) => v.Wf c.curCycle) hs.vcs hw
  · rw [Core.setVc, flitsAt_vcs, update_apply] at hx
    split at hx
    · next h =>
      subst h
      exact hf f hx
    · exact hs.flits x f hx

theorem Wf.setOutVc (hs : Wf net c) {o : OutVcState} (ho : OutVcOk net c.curCycle l v o) :
    Wf net (c.setOutVc l v o) :=
  ⟨hs.dirns, hs.vcs, forall_setEntry hs.outvc ho, hs.flits, hs.credits, hs.messages, hs.allocator⟩

theorem Wf.setDirns (hs : Wf net c) {dirns : Nat → PortDirection → Option Nat}
    (h : DirnExt c.outportsDirn2idx dirns) : Wf net { c with outportsDirn2idx := dirns } :=
  ⟨hs.dirns.ext h, hs.vcs, hs.outvc, hs.flits, hs.credits, hs.messages, hs.allocator⟩

end Updates

section Loops

variable {net : Net} {vc idx k : Nat} {s₀ : Core} {s : State} {num : Int}

/-- A flit between its removal from one VC and its insertion into the next. -/
def SlotOk (net : Net) (curTime : Nat) (f : Flit) : Prop :=
  FlitWf net f.unmarked ∧ f.stage.1 = .SA ∧ f.time ≤ curTime

def FromVc (s₀ : Core) (v : Nat) (f : Flit) : Prop :=
  ∃ l, ∃ f₀ ∈ (s₀.vcs l v).inputBuffer,
    f.route = { f₀.route with hopsTraversed := f.route.hopsTraversed }

def Net.IsInport (net : Net) (l : Link) : Prop :=
  ∃ r < net.numRouters, ∃ p ∈ net.inports r, p.link = l

/-- In the loops of `doSpin vc`, when the first `k` slots have been filled. -/
structure Spinning (net : Net) (vc : Nat) (s₀ : Core) (k : Nat) (t : State) : Prop where
  frame : t.toCore = { s₀ with
    vcs := t.vcs
    outvcState := t.outvcState
    outportsDirn2idx := t.outportsDirn2idx }
  wf : Wf net t.toCore
  slots : ∀ i < k, ∀ f, t.spinFlit (i + 1) = some f → SlotOk net s₀.curCycle f ∧ FromVc s₀ vc f
  origin : ∀ l v, ∀ f ∈ (t.vcs l v).inputBuffer, FromVc s₀ v f
  ports : ∀ l v, t.vcs l v = s₀.vcs l v ∨ net.IsInport l

theorem forall_ports_setEntry {vcs : Link → Nat → VirtualChannel} {l : Link} {v : Nat}
    {w : VirtualChannel} (h : ∀ l v, vcs l v = s₀.vcs l v ∨ net.IsInport l) (hl : net.IsInport l) :
    ∀ l' v', setEntry vcs l v w l' v' = s₀.vcs l' v' ∨ net.IsInport l' := by
  intro l' v'
  by_cases heq : l' = l ∧ v' = v
  · exact .inr (heq.1 ▸ hl)
  · rw [setEntry_of_ne _ _ heq]
    exact h l' v'

theorem forall_fromVc_setEntry {vcs : Link → Nat → VirtualChannel} {l : Link} {v : Nat}
    {w : VirtualChannel} (h : ∀ l v, ∀ f ∈ (vcs l v).inputBuffer, FromVc s₀ v f)
    (hw : ∀ f ∈ w.inputBuffer, FromVc s₀ v f) :
    ∀ l' v', ∀ f ∈ (setEntry vcs l v w l' v').inputBuffer, FromVc s₀ v' f :=
  forall_setEntry (P := fun _ v (w : VirtualChannel) => ∀ f ∈ w.inputBuffer, FromVc s₀ v f) h hw

def slotCopies (q : Nat × Nat × Nat → Bool) (slot : Option Flit) : Nat :=
  (slot.any fun f => q f.ident).toNat

theorem ringPort_spec {e : SpinStruct} : Holds (net.ringPort e)
    (fun p => e.routerId < net.numRouters ∧ p ∈ net.inports e.routerId)
    fun x => x.ofProtocol = false := by
  unfold ringPort inportAt
  refine .require ⟨fun hr => ?_, fun _ => rfl⟩
  cases hp : (net.inports e.routerId)[net.inportsDirn2idx e.routerId e.inportDir]? with
  | none => rfl
  | some p => exact ⟨hr, mem_of_getElem? hp⟩

theorem ringAt_spec : Holds (net.ringAt idx) (fun _ => True) fun x => x.ofProtocol = false := by
  unfold ringAt
  split
  · trivial
  · rfl

theorem getUpstreamId_spec {d : PortDirection} {r : Nat} :
    Holds (net.getUpstreamId d r) (fun _ => True) fun x => x.ofProtocol = false := by
  cases d <;> trivial

theorem leadsTo_spec {r target : Nat} (os : List Nat) :
    Holds (net.leadsTo r target os) (fun _ => True) fun x => x.ofProtocol = false := by
  induction os with
  | nil => trivial
  | cons o os ih =>
    unfold leadsTo
    rw [holds_bind]
    refine outportAt_spec.imp fun p _ => ?_
    rw [holds_bind]
    refine getUpstreamId_spec.imp fun n _ => ?_
    refine .require ⟨fun _ => ?_, fun _ => rfl⟩
    rw [holds_ite]
    exact ⟨fun _ => trivial, fun _ => ih⟩

theorem upstreamLink_spec {e : SpinStruct} : Holds (s.upstreamLink net e)
    (fun t => ∃ dirns, t.2 = { s with outportsDirn2idx := dirns } ∧
      DirnExt s.outportsDirn2idx dirns) fun x => x.ofProtocol = false := by
  unfold upstreamLink getUpstreamrouter
  rw [holds_bind, holds_bind]
  refine getUpstreamId_spec.imp fun n _ => ?_
  rw [holds_ite]
  refine ⟨fun _ => rfl, fun _ => ?_⟩
  rw [holds_pure, holds_bind]
  have hdirn : Holds (getUpstreamOutportDirn e.inportDir) (fun _ => True)
      fun x => x.ofProtocol = false := by
    cases e.inportDir <;> trivial
  refine hdirn.imp fun d _ => ?_
  rw [holds_bind]
  refine outportAt_spec.imp fun p _ => ?_
  exact ⟨_, outportIdx_ext s n.toNat d⟩

theorem ne_lockHeld {x : Failure} (hx : x.ofProtocol = false) : x ≠ .lockHeld := by
  rintro rfl
  cases hx

theorem Spinning.removeFlit (hvc : vc < net.numVcs) (h : Spinning net vc s₀ idx s) :
    Holds (removeFlit net vc (s, num) idx)
      (fun t => Spinning net vc s₀ (idx + 1) t.1 ∧ (∀ i ≤ idx, t.1.spinFlit i = s.spinFlit i) ∧
        ∀ q, t.1.copies net q + slotCopies q (t.1.spinFlit (idx + 1)) = s.copies net q)
      fun x => x ≠ .lockHeld := by
  have hslots {x : Option Flit} (hx : ∀ f, x = some f → SlotOk net s₀.curCycle f ∧ FromVc s₀ vc f) :
      ∀ i < idx + 1, ∀ f, update s.spinFlit (idx + 1) x (i + 1) = some f →
        SlotOk net s₀.curCycle f ∧ FromVc s₀ vc f := by
    intro i hi f hf
    rw [update_apply] at hf
    split at hf
    · exact hx f hf
    · exact h.slots i (by omega) f hf
  have hkept {x : Option Flit} : ∀ i ≤ idx, update s.spinFlit (idx + 1) x i = s.spinFlit i :=
    fun i hi => update_of_ne (by omega) _ _
  have hcur : s.curCycle = s₀.curCycle := (congrArg curCycle h.frame :)
  unfold State.removeFlit
  dsimp only
  rw [holds_bind]
  refine ringAt_spec.mono (fun e _ _ => ?_) fun _ _ => ne_lockHeld
  rw [holds_bind]
  refine ringPort_spec.mono (fun p _ hp => ?_) fun _ _ => ne_lockHeld
  rw [holds_ite]
  refine ⟨fun _ => ?_, fun hne => ?_⟩
  · refine ⟨⟨h.frame, h.wf, hslots fun _ hf => (Option.some_ne_none _ hf.symm).elim, h.origin,
      h.ports⟩, hkept, fun q => ?_⟩
    change _ + slotCopies q (update s.spinFlit (idx + 1) none (idx + 1)) = _
    rw [update_self]
    rfl
  rw [holds_bind]
  refine ringAt_spec.mono (fun next _ _ => ?_) fun _ _ => ne_lockHeld
  obtain ⟨hbuf, _⟩ | ⟨f, hbuf, _⟩ := (h.wf.vcs p.link vc).1
  · rw [hbuf] at hne
    exact absurd rfl hne
  obtain ⟨_, hf, hstage, htime, _⟩ := h.wf.flits (.vc p.link vc) f (by simp [flitsAt, hbuf])
  have hslot (hops : Int) : SlotOk net s₀.curCycle { f with hopsNeededBeforeSpin := hops } ∧
      FromVc s₀ vc { f with hopsNeededBeforeSpin := hops } := by
    refine ⟨⟨?_, hstage, hcur ▸ htime⟩, h.origin p.link vc f (by simp [hbuf])⟩
    rw [hf.ok.unmarked hops]
    exact hf
  simp only [hbuf, getTopFlit, ok_bind, lookupRoutingTablePrefOutport]
  rw [holds_bind]
  refine .require ⟨fun _ => ?_, fun _ => ne_lockHeld rfl⟩
  rw [holds_pure, holds_bind]
  refine (leadsTo_spec _).mono (fun forward _ _ => ?_) fun _ _ => ne_lockHeld
  obtain ⟨stats, hstats⟩ := countFlit_eq forward s
  rw [hstats]
  refine .require ⟨fun _ => ?_, fun _ => ne_lockHeld rfl⟩
  rw [holds_bind]
  refine upstreamLink_spec.mono ?_ fun _ _ => ne_lockHeld
  rintro ⟨l, _⟩ _ ⟨dirns, rfl, hext⟩
  unfold OutVcState.incrementCredit
  dsimp only
  rw [holds_bind]
  refine .require ⟨fun _ => ?_, fun _ => by simp⟩
  have hempty : Wf net (s.setVc p.link vc ((s.vcs p.link vc).drained s.curCycle)) :=
    h.wf.setVc (drained_wf _ _) fun _ hf => (not_mem_nil hf).elim
  have hwf := (hempty.setDirns hext).setOutVc (h.wf.outvc l vc).returned
  have hplace : Place.vc p.link vc ∈ net.places :=
    vc_mem_places.mpr ⟨(inport_mem_links hp.1 hp.2).1, hvc⟩
  rw [holds_pure, holds_pure]
  refine ⟨⟨?_, hwf, hslots ?_,
    forall_fromVc_setEntry h.origin fun _ hf => (not_mem_nil hf).elim,
    forall_ports_setEntry h.ports ⟨_, hp.1, p, hp.2, rfl⟩⟩, hkept, fun q => ?_⟩
  · simp only [State.on, setVc, setOutVc]
    rw [h.frame]
  · rintro g ⟨⟩
    exact hslot _
  · have htaken := copies_setVc_of_taken (c := s.toCore) (q := q)
      (w := (s.vcs p.link vc).drained s.curCycle) hplace hbuf
    refine Eq.trans (congrArg₂ (· + ·) (copies_congr ?_) ?_) htaken
    · funext x
      cases x <;> rfl
    · change slotCopies q (update s.spinFlit (idx + 1) (some _) (idx + 1)) = _
      rw [update_self]
      rfl

theorem Spinning.insertSpun (hvc : vc < net.numVcs) (hidx : idx < k) (h : Spinning net vc s₀ k s) :
    Holds (insertSpun net vc (s, num) (1 + idx))
      (fun t => Spinning net vc s₀ k t.1 ∧ t.1.spinFlit = s.spinFlit ∧
        ∀ q, t.1.copies net q = s.copies net q + slotCopies q (s.spinFlit (idx + 1)))
      fun x => x ≠ .lockHeld := by
  have hcur : s.curCycle = s₀.curCycle := (congrArg curCycle h.frame :)
  rw [Nat.add_comm]
  cases hslot : s.spinFlit (idx + 1) with
  | none =>
    rw [insertSpun_none hslot]
    exact ⟨h, rfl, fun q => rfl⟩
  | some f =>
    obtain ⟨⟨hf, hstage, htime⟩, l₀, f₀, hf₀, hroute⟩ := h.slots idx hidx f hslot
    unfold State.insertSpun
    simp only [hslot]
    rw [holds_bind]
    refine ringAt_spec.mono (fun e _ _ => ?_) fun _ _ => ne_lockHeld
    rw [holds_bind]
    refine ringPort_spec.mono ?_ fun _ _ => ne_lockHeld
    rintro p _ ⟨hr, hp⟩
    rw [holds_bind]
    refine (Holds.and outportCompute_routed outportCompute_error).mono ?_ fun _ _ hx => ne_lockHeld hx.2
    rintro ⟨o, s₁⟩ _ ⟨hrouted, _⟩
    obtain ⟨dirns, random, hs₁, hext⟩ : ∃ dirns random,
        s₁ = { s with outportsDirn2idx := dirns, random := random } ∧
          DirnExt s.outportsDirn2idx dirns := ⟨_, _, hrouted.frame, hrouted.dirns⟩
    subst hs₁
    rw [holds_bind]
    refine outportAt_spec.mono (fun op _ hop => ?_) fun _ _ => ne_lockHeld
    refine .require ⟨fun _ => ?_, fun _ => ne_lockHeld rfl⟩
    generalize hg : ({ f with outport := o, outportDir := op.dirn } : Flit).incrementHops = g
    obtain ⟨stats, hstats⟩ := countMisroute_eq net e.routerId g { s with
      outportsDirn2idx := dirns
      random := random }
    rw [hstats]
    refine .require ⟨fun hidle => ?_, fun _ => ne_lockHeld rfl⟩
    rw [holds_bind]
    refine upstreamLink_spec.mono ?_ fun _ _ => ne_lockHeld
    rintro ⟨l, _⟩ _ ⟨dirns', rfl, hext'⟩
    unfold OutVcState.decrementCredit
    dsimp only
    rw [holds_bind]
    refine .require ⟨fun hcredit => ?_, fun _ => by simp⟩
    have hempty := (h.wf.vcs p.link vc).inputBuffer_eq_nil hidle
    generalize hg' : ({ g with hopsNeededBeforeSpin := -1, hopsNeededAfterSpin := -1 } : Flit) = g'
    have hnew : ∀ f' ∈ ((s.vcs p.link vc).filled g' s.curCycle).inputBuffer, f' = g' := by
      intro f' hf'
      change f' ∈ bufferInsert _ (s.vcs p.link vc).inputBuffer at hf'
      rw [hempty, mem_bufferInsert] at hf'
      exact hf'.resolve_right (by simp)
    have hplace : Place.vc p.link vc ∈ net.places :=
      vc_mem_places.mpr ⟨(inport_mem_links hr hp).1, hvc⟩
    have hvc' : Wf net (s.setVc p.link vc ((s.vcs p.link vc).filled g' s.curCycle)) := by
      refine h.wf.setVc ((h.wf.vcs p.link vc).filled hempty _) fun f' hf' => ?_
      rw [hnew f' hf', ← hg', ← hg]
      refine ⟨hplace, ?_, hstage, hcur ▸ htime, op, ?_⟩
      · exact ⟨⟨⟨hf.ok.route.netDest, hf.ok.route.destNi, hf.ok.route.destRouter⟩, rfl, rfl⟩,
          hf.type, hf.vc⟩
      · rw [(inport_mem_links hr hp).2.1]
        exact hop
    have hwf := ((hvc'.setDirns hext).setDirns hext').setOutVc ((h.wf.outvc l vc).taken hcredit)
    rw [holds_pure, holds_pure]
    refine ⟨⟨?_, hwf, h.slots, forall_fromVc_setEntry h.origin fun f' hf' => ?_,
      forall_ports_setEntry h.ports ⟨_, hr, p, hp, rfl⟩⟩, rfl, fun q => ?_⟩
    · simp only [State.on, setVc, setOutVc]
      rw [h.frame]
    · rw [hnew f' hf', ← hg', ← hg]
      exact ⟨l₀, f₀, hf₀, congrArg (fun route : RouteInfo =>
        { route with hopsTraversed := f.route.hopsTraversed + 1 }) hroute⟩
    · have hident : g'.ident = f.ident := by
        rw [← hg', ← hg]
        rfl
      have hput := copies_setVc_of_put (c := s.toCore) (q := q)
        (w := (s.vcs p.link vc).filled g' s.curCycle) hplace (bufferInsert_perm g' _)
      rw [hident] at hput
      refine Eq.trans (copies_congr ?_) hput
      funext x
      cases x <;> rfl

end Loops

structure SpinMove (net : Net) (vc : Nat) (s s' : Core) : Prop where
  frame : s' = { s with
    vcs := s'.vcs
    outvcState := s'.outvcState
    outportsDirn2idx := s'.outportsDirn2idx }
  wf : Wf net s'
  origin : ∀ l v, ∀ f ∈ (s'.vcs l v).inputBuffer, FromVc s v f
  copies : ∀ q, s'.copies net q = s.copies net q
  ports : ∀ l v, s'.vcs l v = s.vcs l v ∨ net.IsInport l
  spun : net.RingOk → Spun net vc s s'

def SpinError (net : Net) (s : Core) (x : Failure) : Prop :=
  x ≠ .lockHeld ∧ (net.RingOk → ∃ vc < net.numVcs, s.SpinFails net vc x)

section Drain

variable {net : Net} {vc : Nat} {s : State}

theorem Wf.vcOk {c : Core} (hs : Wf net c) (l : Link) (v : Nat) : VcOk net (c.vcs l v) := by
  rcases (hs.vcs l v).1 with h | ⟨f, hbuf, hactive⟩
  · exact .inl h
  · exact .inr ⟨f, hbuf, hactive, (hs.flits (.vc l v) f (by simp [flitsAt, hbuf])).2.1.ok⟩

theorem removeFlits_spinning (hs : Wf net s.toCore) (hvc : vc < net.numVcs) (k : Nat) :
    Holds ((range k).foldlM (removeFlit net vc) (s, 0))
      (fun t => Spinning net vc s.toCore k t.1 ∧ ∀ q, t.1.copies net q +
        ((range k).map fun i => slotCopies q (t.1.spinFlit (i + 1))).sum = s.copies net q)
      fun x => x ≠ .lockHeld := by
  refine holds_foldlM_range (fun k (t : State × Int) => Spinning net vc s.toCore k t.1 ∧
    ∀ q, t.1.copies net q + ((range k).map fun i => slotCopies q (t.1.spinFlit (i + 1))).sum =
      s.copies net q) ?_ fun k _ t ht => (ht.1.removeFlit hvc).imp ?_
  · exact ⟨⟨rfl, hs, fun _ h => absurd h (Nat.not_lt_zero _), fun l v f hf => ⟨l, f, hf, rfl⟩,
      fun l v => .inl rfl⟩, fun q => rfl⟩
  · rintro t' ⟨ht', hkept, hcopies⟩
    refine ⟨ht', fun q => ?_⟩
    have hslots : (range k).map (fun i => slotCopies q (t'.1.spinFlit (i + 1))) =
        (range k).map fun i => slotCopies q (t.1.spinFlit (i + 1)) :=
      map_congr_left fun i hi => by rw [hkept (i + 1) (mem_range.mp hi)]
    rw [range_succ, map_append, sum_append, hslots, ← ht.2 q, ← hcopies q]
    simp only [map_cons, map_nil, sum_cons, sum_nil]
    omega

theorem Spinning.insertFlits (hvc : vc < net.numVcs) (h : Spinning net vc s₀ k s) :
    Holds ((range' 1 k).foldlM (State.insertSpun net vc) (s, num))
      (fun t => Spinning net vc s₀ k t.1 ∧ ∀ q, t.1.copies net q =
        s.copies net q + ((range k).map fun i => slotCopies q (s.spinFlit (i + 1))).sum)
      fun x => x ≠ .lockHeld := by
  rw [range'_eq_map_range, foldlM_map]
  refine (holds_foldlM_range (fun i (t : State × Int) => Spinning net vc s₀ k t.1 ∧
    t.1.spinFlit = s.spinFlit ∧ ∀ q, t.1.copies net q =
      s.copies net q + ((range i).map fun i => slotCopies q (s.spinFlit (i + 1))).sum)
    ⟨h, rfl, fun q => rfl⟩ fun i hi t ht => (ht.1.insertSpun hvc hi).imp ?_).imp
      fun t ht => ⟨ht.1, ht.2.2⟩
  rintro t' ⟨ht', hslots, hcopies⟩
  refine ⟨ht', hslots.trans ht.2.1, fun q => ?_⟩
  rw [hcopies q, ht.2.1, ht.2.2 q, range_succ, map_append, sum_append]
  simp only [map_cons, map_nil, sum_cons, sum_nil]
  omega

theorem doSpin_spinning (hs : Wf net s.toCore) (hvc : vc < net.numVcs) : Holds (s.doSpin net vc)
    (fun t => Spinning net vc s.toCore (net.spinRing.length - 1) t ∧
      ∀ q, t.copies net q = s.copies net q) fun x => x ≠ .lockHeld := by
  unfold State.doSpin
  dsimp only
  rw [holds_bind]
  refine (removeFlits_spinning (s := { s with stats := { s.stats with
    totalSpins := s.stats.totalSpins + 1 } }) hs hvc _).imp ?_
  rintro t ⟨ht, hremoved⟩
  refine .require ⟨fun _ => ?_, fun _ => nofun⟩
  rw [holds_bind]
  refine (ht.insertFlits hvc).imp ?_
  rintro t' ⟨ht', hinserted⟩
  exact .require ⟨fun _ => ⟨ht', fun q => (hinserted q).trans (hremoved q)⟩, fun _ => nofun⟩

theorem doSpin_move (hs : Wf net s.toCore) (hvc : vc < net.numVcs) : Holds (s.doSpin net vc)
    (fun s' => SpinMove net vc s.toCore s'.toCore) (SpinError net s.toCore) := by
  by_cases hring : net.RingOk
  · have hspun := doSpin_spun hring hs.dirns fun i _ => hs.vcOk (net.ringLink i) vc
    refine ((doSpin_spinning hs hvc).and hspun).mono (fun s' _ h => ?_) fun x _ h => ?_
    · exact ⟨h.1.1.frame, h.1.1.wf, h.1.1.origin, h.1.2, h.1.1.ports, fun _ => h.2⟩
    · exact ⟨h.1, fun _ => ⟨vc, hvc, h.2⟩⟩
  · refine (doSpin_spinning hs hvc).mono (fun s' _ h => ?_) fun x _ h => ?_
    · exact ⟨h.1.frame, h.1.wf, h.1.origin, h.2, h.1.ports, fun h' => absurd h' hring⟩
    · exact ⟨h, fun h' => absurd h' hring⟩

theorem Net.lt_numVcs_of_mem_drainVcs (h : vc ∈ net.drainVcs) : vc < net.numVcs := by
  unfold drainVcs at h
  split at h
  · exact mem_range.mp h
  · obtain ⟨vnet, hvnet, rfl⟩ := mem_map.mp h
    exact vc_lt_numVcs (mem_range.mp hvnet) net.vcsPerVnet_pos

theorem spinCalls_mem (h : vc ∈ s.spinCalls net) : vc ∈ net.drainVcs := by
  unfold spinCalls at h
  split at h
  · have hbase : vc ∈ net.baseVcs := by
      obtain ⟨l, hl, hvc⟩ := mem_flatten.mp h
      rwa [eq_of_mem_replicate hl] at hvc
    unfold drainVcs
    split
    · obtain ⟨vnet, hvnet, rfl⟩ := mem_map.mp hbase
      exact mem_range.mpr (vc_lt_numVcs (mem_range.mp hvnet) net.vcsPerVnet_pos)
    · exact hbase
  · obtain ⟨l, hl, hvc⟩ := mem_flatten.mp h
    rwa [eq_of_mem_replicate hl] at hvc

def Core.drainStart (net : Net) (s : Core) : Core :=
  { s.setHalt net false with drainLog := s.curCycle :: s.drainLog }

def Core.flitTimesSet (net : Net) (s : Core) : Core := net.drainVcs.foldl (setFlitTime net) s

/-- Nothing of a well-formed core is in its lock, its halts, its agenda or its log of drains. -/
theorem Wf.setControl {c : Core} (h : Wf net c) (lock : Option Nat) (halt : Nat → Bool)
    (agenda : Consumer → Agenda) (log : List Nat) :
    Wf net { c with lock := lock, halt := halt, agenda := agenda, drainLog := log } :=
  ⟨h.dirns, h.vcs, h.outvc, fun x f hf => h.flits x f (by cases x <;> exact hf), h.credits,
    h.messages, h.allocator⟩

theorem Wf.drainStart {c : Core} (hs : Wf net c) : Wf net (c.drainStart net) := hs.setControl ..

def Spins (net : Net) (s s' : Core) : Prop :=
  ∃ calls, (∀ vc ∈ calls, vc ∈ net.drainVcs) ∧ Trace (SpinMove net) calls s s'

theorem spinOnce_spins {calls : List Nat} (hs : Wf net s.toCore)
    (hcalls : ∀ vc ∈ calls, vc ∈ net.drainVcs) : Holds (calls.foldlM (spinOnce net) s)
    (fun s' => Spins net s.toCore s'.toCore)
    fun x => ∃ t, Spins net s.toCore t ∧ SpinError net t x := by
  have hspins : Holds (calls.foldlM (spinOnce net) s)
      (fun s' => Spins net s.toCore s'.toCore ∧ Wf net s'.toCore)
      fun x => ∃ t, Spins net s.toCore t ∧ SpinError net t x := by
    refine holds_foldlM (fun t : State => Spins net s.toCore t.toCore ∧ Wf net t.toCore) calls
      ⟨⟨[], by simp, .nil _⟩, hs⟩ ?_
    rintro vc hvc t ⟨⟨done, hdone, htrace⟩, ht⟩
    have hmove := doSpin_move (s := { t with stats := { t.stats with
      numDrain := t.stats.numDrain + 1 } }) ht (lt_numVcs_of_mem_drainVcs (hcalls vc hvc))
    refine hmove.mono (fun t' _ hmove => ⟨?_, hmove.wf⟩)
      fun x _ hx => ⟨_, ⟨done, hdone, htrace⟩, hx⟩
    refine ⟨done ++ [vc], ?_, htrace.snoc hmove⟩
    exact forall_mem_append.mpr ⟨hdone, by simpa using hcalls vc hvc⟩
  exact hspins.imp fun _ h => h.1

theorem drain_spec (hs : Wf net s.toCore) : Holds (s.drain net)
    (fun s' => s.chckLinkState net = true ∧ ∃ c, Spins net (s.drainStart net) c ∧
      s'.toCore = c.flitTimesSet net)
    fun x => x = .linkBusy ∨ (s.chckLinkState net = true ∧
      ∃ c, Spins net (s.drainStart net) c ∧ SpinError net c x) := by
  unfold drain
  refine .require ⟨fun hlink => ?_, fun _ => .inl rfl⟩
  dsimp only
  rw [holds_bind]
  generalize hstart : (if net.spinMult = 0 then skipRandom _ else _ : State) = s₁
  have hcore : s₁.toCore = s.drainStart net := by
    rw [← hstart]
    split
    · rfl
    · rfl
  have hspins := spinOnce_spins (s := s₁) (hcore ▸ hs.drainStart)
    fun vc => spinCalls_mem (s := s.on fun c => c.drainStart net)
  rw [hcore] at hspins
  exact hspins.mono (fun s' _ h => ⟨hlink, _, h, rfl⟩) fun x _ h => .inr ⟨hlink, h⟩

end Drain

section FlitTimes

variable {net : Net} {s t : Core}

def Flit.delayed (net : Net) (curTime : Nat) (f : Flit) : Flit :=
  { f with stage := (.SA, curTime + spinDelay net) }

/-- The loops of `set_flit_time` have stamped the flits of the channels in `done`, and
perhaps others. -/
structure Stamped (net : Net) (s : Core) (done : Link × Nat → Prop) (t : Core) : Prop where
  frame : t = { s with vcs := t.vcs }
  vcs : ∀ l v, t.vcs l v = s.vcs l v ∨ t.vcs l v = (s.vcs l v).mapTop (delayed net s.curCycle)
  done : ∀ l v, done (l, v) → t.vcs l v = (s.vcs l v).mapTop (delayed net s.curCycle)

theorem VirtualChannel.mapTop_delayed (w : VirtualChannel) (curTime : Nat) :
    (w.mapTop (delayed net curTime)).mapTop (delayed net curTime) =
      w.mapTop (delayed net curTime) := by
  unfold mapTop
  cases w.inputBuffer with
  | nil => rfl
  | cons f rest => rfl

theorem Stamped.setVc {done : Link × Nat → Prop} (h : Stamped net s done t) (l : Link) (v : Nat) :
    Stamped net s (fun k => done k ∨ k = (l, v))
      (t.setVc l v ((t.vcs l v).mapTop (delayed net t.curCycle))) := by
  have hcur : t.curCycle = s.curCycle := (congrArg curCycle h.frame :)
  have hnew : (t.vcs l v).mapTop (delayed net t.curCycle) =
      (s.vcs l v).mapTop (delayed net s.curCycle) := by
    rw [hcur]
    rcases h.vcs l v with heq | heq
    · rw [heq]
    · rw [heq, mapTop_delayed]
  have hvcs (l' : Link) (v' : Nat) :
      (t.setVc l v ((t.vcs l v).mapTop (delayed net t.curCycle))).vcs l' v' =
        if l' = l ∧ v' = v then (s.vcs l v).mapTop (delayed net s.curCycle)
        else t.vcs l' v' := by
    rw [← hnew]
    exact setEntry_apply _ _ _ _ _ _
  refine ⟨?_, fun l' v' => ?_, fun l' v' hdone => ?_⟩
  · unfold Core.setVc
    rw [h.frame]
  · rw [hvcs]
    split
    · next heq =>
      rw [heq.1, heq.2]
      exact .inr rfl
    · exact h.vcs l' v'
  · rw [hvcs]
    split
    · next heq => rw [heq.1, heq.2]
    · next hne =>
      refine h.done l' v' (hdone.resolve_right fun heq => hne ?_)
      exact Prod.mk.inj heq

def InPort.IsDirected (p : InPort) : Prop :=
  p.dirn = .North ∨ p.dirn = .South ∨ p.dirn = .East ∨ p.dirn = .West

theorem Stamped.setFlitTime {done : Link × Nat → Prop} (h : Stamped net s done t) (v : Nat) :
    Stamped net s (fun k => done k ∨ ∃ r ∈ range net.numRouters, ∃ p ∈ net.inports r,
      p.IsDirected ∧ k = (p.link, v)) (t.setFlitTime net v) := by
  unfold Core.setFlitTime
  refine foldl_collect (P := Stamped net s) _ (fun r _ d t ht => ?_) h
  refine foldl_collect (P := Stamped net s) _ (fun p _ d t ht => ?_) ht
  by_cases hp : p.dirn = .North ∨ p.dirn = .South ∨ p.dirn = .East ∨ p.dirn = .West
  · rw [if_pos hp]
    have hset := ht.setVc p.link v
    exact ⟨hset.frame, hset.vcs, fun l' v' hdone => hset.done l' v' (hdone.imp_right And.right)⟩
  · rw [if_neg hp]
    exact ⟨ht.frame, ht.vcs, fun l' v' hdone =>
      ht.done l' v' (hdone.resolve_right fun hbad => hp hbad.1)⟩

theorem flitTimesSet_stamped (s : Core) : Stamped net s
    (fun k => k.2 ∈ net.drainVcs ∧ ∃ a b d, net.HasLink a b d ∧ k.1 = .int a b)
    (s.flitTimesSet net) := by
  have hstart : Stamped net s (fun _ => False) s := ⟨rfl, fun _ _ => .inl rfl, nofun⟩
  have h := foldl_collect (P := Stamped net s) net.drainVcs
    (fun v _ d t ht => ht.setFlitTime v) hstart
  refine ⟨h.frame, h.vcs, fun l v hlv => h.done l v (.inr ⟨v, hlv.1, ?_⟩)⟩
  obtain ⟨a, b, d, hd, rfl⟩ := hlv.2
  refine ⟨b, mem_range.mpr hd.lt.2, _, hd.inport, ?_, rfl⟩
  have hg := hd.gridStep
  cases d <;> simp_all [gridStep, PortDirection.opposite, InPort.IsDirected]

theorem VirtualChannel.Wf.mapTop {w : VirtualChannel} {curTime : Nat} (h : w.Wf curTime)
    (g : Flit → Flit) : (w.mapTop g).Wf curTime := by
  refine ⟨?_, h.2⟩
  unfold VirtualChannel.mapTop
  rcases h.1 with ⟨hbuf, hstate⟩ | ⟨f, hbuf, hstate⟩
  · exact .inl ⟨by rw [hbuf]; rfl, hstate⟩
  · exact .inr ⟨g f, by rw [hbuf]; rfl, hstate⟩

theorem Stamped.flits {done : Link × Nat → Prop} (h : Stamped net s done t) (hs : Wf net s)
    {x : Place} {f : Flit} (hf : f ∈ t.flitsAt x) :
    ∃ f₀ ∈ s.flitsAt x, f = f₀ ∨ (f = f₀.delayed net s.curCycle ∧ ∃ l v, x = .vc l v) := by
  cases x with
  | vc l v =>
    change f ∈ (t.vcs l v).inputBuffer at hf
    rcases h.vcs l v with heq | heq
    · rw [heq] at hf
      exact ⟨f, hf, .inl rfl⟩
    · rw [heq] at hf
      rcases (hs.vcs l v).1 with ⟨hbuf, _⟩ | ⟨f₀, hbuf, _⟩
      · simp [mapTop, hbuf] at hf
      · refine ⟨f₀, by simp [flitsAt, hbuf], .inr ⟨?_, l, v, rfl⟩⟩
        simpa [mapTop, hbuf] using hf
  | _ =>
    rw [h.frame] at hf
    exact ⟨f, hf, .inl rfl⟩

theorem Stamped.wf {done : Link × Nat → Prop} (h : Stamped net s done t) (hs : Wf net s) :
    Wf net t := by
  have hvcs : ∀ l v, (t.vcs l v).Wf s.curCycle := by
    intro l v
    rcases h.vcs l v with heq | heq
    · rw [heq]
      exact hs.vcs l v
    · rw [heq]
      exact (hs.vcs l v).mapTop _
  have hflits : ∀ x, ∀ f ∈ t.flitsAt x, x ∈ net.places ∧ FlitWf net f ∧ PlaceOk net s.curCycle x f := by
    intro x f hf
    obtain ⟨f₀, hf₀, rfl | ⟨rfl, l, v, rfl⟩⟩ := h.flits hs hf
    · exact hs.flits x f hf₀
    · obtain ⟨hplace, hwf, _, htime, hport⟩ := hs.flits _ f₀ hf₀
      exact ⟨hplace, ⟨⟨hwf.ok.route, hwf.ok.before, hwf.ok.after⟩, hwf.type, hwf.vc⟩, rfl, htime, hport⟩
  have hframe := h.frame
  generalize t.vcs = vcs at hframe hvcs
  subst hframe
  exact ⟨hs.dirns, hvcs, hs.outvc, hflits, hs.credits, hs.messages, hs.allocator⟩

end FlitTimes

end Drain
