import Drain.Flow

/-! Well-formed states: what holds of the flits, credits and virtual channels of
every state, whatever the order of the wakeups. -/

namespace Drain

open Function List Net

/-- A packet of one flit, on a valid route. -/
structure FlitWf (net : Net) (f : Flit) : Prop where
  ok : FlitOk net f
  type : f.type = .headTail
  vc : f.vc < net.numVcs

def PlaceOk (net : Net) (curCycle : Nat) : Place → Flit → Prop
  | .niVc _ v, f => f.vc = v ∧ f.time ≤ curCycle
  | .vc l _, f => f.stage.1 = .SA ∧ f.time ≤ curCycle ∧
      ∃ op, (net.outports (net.dstRouter l))[f.outport]? = some op
  | .switch r _, f => f.stage.1 = .ST ∧ f.stage.2 ≤ curCycle ∧ f.time ≤ curCycle ∧
      ∃ op, (net.outports r)[f.outport]? = some op
  | _, _ => True

def VirtualChannel.Wf (v : VirtualChannel) (curCycle : Nat) : Prop :=
  (v.inputBuffer = [] ∧ v.vcState = .idle ∨ ∃ f, v.inputBuffer = [f] ∧ v.vcState = .active) ∧
    v.stateTime ≤ curCycle ∧ v.outputVc = none ∧ v.outputPort = none

/-- A router takes a credit together with the VC and gets it back with the VC, so that an
idle VC has one. -/
structure OutVcOk (net : Net) (curCycle : Nat) (l : Link) (v : Nat) (o : OutVcState) : Prop where
  time : o.time ≤ curCycle
  max : o.maxCreditCount = net.maxCreditCount v
  credit : (∀ n, l ≠ .extIn n) → 0 ≤ o.creditCount ∧ (o.vcState = .idle → 0 < o.creditCount)

structure Wf (net : Net) (s : Core) : Prop where
  dirns : DirnOk net s.outportsDirn2idx
  vcs : ∀ l v, (s.vcs l v).Wf s.curCycle
  outvc : ∀ l v, OutVcOk net s.curCycle l v (s.outvcState l v)
  flits : ∀ x, ∀ f ∈ s.flitsAt x, x ∈ net.places ∧ FlitWf net f ∧ PlaceOk net s.curCycle x f
  credits : ∀ l, (∀ x ∈ s.creditQueue l, x.isFreeSignal = true) ∧
    ∀ x ∈ s.creditLinkBuffer l, x.isFreeSignal = true
  messages : ∀ n vnet, ∀ m ∈ s.inNode n vnet, vnet < net.virtualNetworks ∧
    ∀ d ∈ m.dests, d < net.nodes
  allocator : ∀ n vnet, s.vcAllocator n vnet < net.vcsPerVnet

section Flits

variable {net : Net} {s t : Core} {op : Op} {x y : Place} {f f' : Flit} {r : Nat}

theorem Respun.flitWf (h : Respun net r f f') (hf : FlitWf net f) : FlitWf net f' := by
  have heq := h.eq
  refine ⟨⟨?_, ?_, ?_⟩, ?_, ?_⟩
  · rw [heq]
    exact ⟨hf.ok.route.netDest, hf.ok.route.destNi, hf.ok.route.destRouter⟩
  · rw [heq]
    exact hf.ok.before
  · rw [heq]
    exact hf.ok.after
  · rw [heq]
    exact hf.type
  · rw [heq]
    exact hf.vc

theorem Arrived.flitWf {curTime : Nat} (h : Arrived net r curTime f f') (hf : FlitWf net f) :
    FlitWf net f' := by
  obtain ⟨g, hg, rfl⟩ := h
  have hgf := hg.flitWf hf
  exact ⟨⟨hgf.ok.route, hgf.ok.before, hgf.ok.after⟩, hgf.type, hgf.vc⟩

theorem Arrived.time {curTime : Nat} (h : Arrived net r curTime f f') : f'.time = f.time := by
  obtain ⟨g, hg, rfl⟩ := h
  exact (congrArg Flit.time hg.eq :)

theorem Marked.flitWf {dirns : PortDirection → Option Nat} {p : InPort} (h : Marked dirns p f f')
    (hf : FlitWf net f) : FlitWf net f' := by
  cases h <;> exact ⟨⟨hf.ok.route, hf.ok.before, hf.ok.after⟩, hf.type, hf.vc⟩

theorem Marked.stage_time {dirns : PortDirection → Option Nat} {p : InPort}
    (h : Marked dirns p f f') : f'.stage = f.stage ∧ f'.time = f.time := by
  cases h <;> exact ⟨rfl, rfl⟩

theorem Arrived.port {curTime : Nat} (h : Arrived net r curTime f f') :
    ∃ op, (net.outports r)[f'.outport]? = some op := by
  obtain ⟨g, hg, rfl⟩ := h
  obtain ⟨op, hop, _⟩ := hg.port
  exact ⟨op, hop⟩

theorem Marked.port {dirns : Nat → PortDirection → Option Nat} {p : InPort}
    (h : Marked (dirns r) p f f') (hd : DirnOk net dirns)
    (hport : ∃ op, (net.outports r)[f.outport]? = some op) :
    ∃ op, (net.outports r)[f'.outport]? = some op := by
  cases h with
  | note => exact hport
  | deflect _ _ ho _ _ =>
    rcases hd.added ho with ho | rfl
    · obtain ⟨op, hop, _⟩ := outportsDirn2idx_spec ho
      exact ⟨op, hop⟩
    · obtain ⟨op, hop⟩ := hport
      have hpos : 0 < (net.outports r).length :=
        length_pos_of_mem (mem_of_getElem? hop)
      exact ⟨_, getElem?_eq_getElem hpos⟩

theorem newFlit_flitWf {n v vnet dest curTime ptr : Nat} (hv : v < net.numVcs)
    (hdest : dest < net.nodes) :
    FlitWf net (newFlit ptr 0 v vnet (State.messageRoute net n vnet dest) 1 curTime) :=
  ⟨⟨⟨rfl, hdest, rfl⟩, rfl, rfl⟩, rfl, hv⟩

theorem Carried.wf (h : Carried net s x y f f') (hd : DirnOk net s.outportsDirn2idx)
    (hf : x ∈ net.places ∧ FlitWf net f ∧ PlaceOk net s.curCycle x f) :
    y ∈ net.places ∧ FlitWf net f' ∧ PlaceOk net s.curCycle y f' := by
  obtain ⟨hx, hwf, hplace⟩ := hf
  have hkeep {g : Flit} (hok : FlitOk net g) (ht : g.type = f.type) (hvc : g.vc = f.vc) :
      FlitWf net g := ⟨hok, ht.trans hwf.type, hvc ▸ hwf.vc⟩
  cases h with
  | receive hr hp htime harr =>
    obtain ⟨hlink, hdst, _⟩ := inport_mem_links hr hp
    refine ⟨vc_mem_places.mpr ⟨hlink, hwf.vc⟩, harr.flitWf hwf, ?_, ?_, ?_⟩
    · obtain ⟨g, _, rfl⟩ := harr
      rfl
    · rwa [harr.time]
    · rw [hdst]
      exact harr.port
  | mark hr hp hmark =>
    obtain ⟨hstage, htime, hport⟩ := hplace
    rw [(inport_mem_links hr hp).2.1] at hport
    refine ⟨hx, hmark.flitWf hwf, ?_, ?_, ?_⟩
    · rw [hmark.stage_time.1]
      exact hstage
    · rw [hmark.stage_time.2]
      exact htime
    · rw [(inport_mem_links hr hp).2.1]
      exact hmark.port hd hport
  | @grant r i o v w p op _ uturn hr hp hop hport hw =>
    refine ⟨?_, ⟨⟨hwf.ok.route, hwf.ok.before, hwf.ok.after⟩, hwf.type, hw⟩, rfl, le_rfl,
      hplace.2.1, op, hop⟩
    rw [switch_mem_places]
    exact ⟨hr, (List.getElem?_eq_some_iff.mp hp).1⟩
  | cross hr hop =>
    refine ⟨?_, hkeep ⟨hwf.ok.route, hwf.ok.before, hwf.ok.after⟩ rfl rfl, trivial⟩
    exact out_mem_places.mpr (outport_mem_links hr (mem_of_getElem? hop))
  | send hn =>
    refine ⟨?_, hkeep ⟨hwf.ok.route, hwf.ok.before, hwf.ok.after⟩ rfl rfl, trivial⟩
    exact out_mem_places.mpr (extIn_mem_links.mpr hn)
  | link hl =>
    refine ⟨?_, hkeep ⟨hwf.ok.route, hwf.ok.before, hwf.ok.after⟩ rfl rfl, trivial⟩
    exact link_mem_places.mpr hl
  | stall hn => exact ⟨stall_mem_places.mpr hn, hwf, trivial⟩
  | deliver hn => exact ⟨delivered_mem_places, hwf, trivial⟩
  | unstall hn => exact ⟨delivered_mem_places, hwf, trivial⟩

structure SameControl (s t : Core) : Prop where
  curCycle : t.curCycle = s.curCycle
  lock : t.lock = s.lock
  halt : t.halt = s.halt
  haltLog : t.haltLog = s.haltLog
  drainLog : t.drainLog = s.drainLog

theorem SameControl.refl (s : Core) : SameControl s s := ⟨rfl, rfl, rfl, rfl, rfl⟩

theorem SameControl.trans {u : Core} (h : SameControl s t) (h' : SameControl t u) :
    SameControl s u :=
  ⟨h'.curCycle.trans h.curCycle, h'.lock.trans h.lock, h'.halt.trans h.halt,
    h'.haltLog.trans h.haltLog, h'.drainLog.trans h.drainLog⟩

theorem Move.control (h : Move net op s t) : SameControl s t := by
  cases h with
  | receive =>
    split
    · exact ⟨rfl, rfl, rfl, rfl, rfl⟩
    · exact ⟨rfl, rfl, rfl, rfl, rfl⟩
  | _ => exact ⟨rfl, rfl, rfl, rfl, rfl⟩

theorem Move.curCycle_eq (h : Move net op s t) : t.curCycle = s.curCycle := h.control.curCycle

theorem Wf.flits_move (hs : Wf net s) (h : Move net op s t) :
    ∀ x, ∀ f ∈ t.flitsAt x, x ∈ net.places ∧ FlitWf net f ∧ PlaceOk net t.curCycle x f := by
  rw [h.curCycle_eq]
  cases h.flow with
  | still heq =>
    rw [heq]
    exact hs.flits
  | carry hmoved hcarried =>
    obtain ⟨_, hx, hy⟩ := hmoved
    exact hx.forall_moved hy hs.flits (hcarried.wf hs.dirns)
  | make hn hv hdest _ hmade =>
    intro x f hf
    rcases hmade.eq_or_mem hf with ⟨rfl, rfl⟩ | hf
    · exact ⟨niVc_mem_places.mpr ⟨hn, hv⟩, newFlit_flitWf hv hdest, rfl, le_rfl⟩
    · exact hs.flits x f hf

end Flits

section Moves

variable {net : Net} {s t : Core} {op : Op} {curCycle v : Nat} {f : Flit}

theorem VirtualChannel.Wf.inputBuffer_eq_nil {v : VirtualChannel} (h : v.Wf curCycle)
    (hidle : v.vcState = .idle) : v.inputBuffer = [] := by
  rcases h.1 with ⟨hempty, _⟩ | ⟨f, _, hactive⟩
  · exact hempty
  · rw [hidle] at hactive
    cases hactive

theorem VirtualChannel.Wf.eq_singleton {v : VirtualChannel} (h : v.Wf curCycle)
    (hf : f ∈ v.inputBuffer) : v.inputBuffer = [f] := by
  rcases h.1 with ⟨hbuf, _⟩ | ⟨g, hbuf, _⟩
  · rw [hbuf] at hf
    cases hf
  · rw [hbuf] at hf ⊢
    rw [mem_singleton.mp hf]

theorem VirtualChannel.Wf.filled {v : VirtualChannel} (h : v.Wf curCycle)
    (hempty : v.inputBuffer = []) (f : Flit) : (v.filled f curCycle).Wf curCycle := by
  refine ⟨.inr ⟨f, ?_, rfl⟩, le_rfl, h.2.2⟩
  change bufferInsert f v.inputBuffer = [f]
  rw [hempty]
  rfl

theorem VirtualChannel.drained_wf (v : VirtualChannel) (curCycle : Nat) :
    (v.drained curCycle).Wf curCycle := ⟨.inl ⟨rfl, rfl⟩, le_rfl, rfl, rfl⟩

theorem VirtualChannel.Wf.replace {v : VirtualChannel} (h : v.Wf curCycle)
    (hbuf : v.inputBuffer = [f]) (f' : Flit) : { v with inputBuffer := [f'] }.Wf curCycle := by
  refine ⟨.inr ⟨f', rfl, ?_⟩, h.2⟩
  rcases h.1 with ⟨hempty, _⟩ | ⟨_, _, hactive⟩
  · rw [hempty] at hbuf
    cases hbuf
  · exact hactive

theorem Wf.vcs_move (hs : Wf net s) (h : Move net op s t) : ∀ l v, (t.vcs l v).Wf t.curCycle := by
  rw [h.curCycle_eq]
  cases h with
  | @receive _ r p f f' rest dirns _ _ _ _ hidle =>
    have hvc := hs.vcs p.link f.vc
    have hnew := forall_setEntry (P := fun _ _ (v : VirtualChannel) => v.Wf s.curCycle) hs.vcs
      (hvc.filled (hvc.inputBuffer_eq_nil hidle) f') (a := p.link) (b := f.vc)
    split
    · exact hnew
    · exact hnew
  | @mark _ r v p f f' _ _ hbuf _ =>
    exact forall_setEntry (P := fun _ _ (v : VirtualChannel) => v.Wf s.curCycle) hs.vcs ((hs.vcs _ _).replace hbuf f')
  | grant =>
    exact forall_setEntry (P := fun _ _ (v : VirtualChannel) => v.Wf s.curCycle) hs.vcs (VirtualChannel.drained_wf _ _)
  | _ => exact hs.vcs

theorem OutVcOk.returned {l : Link} {o : OutVcState} (h : OutVcOk net curCycle l v o) :
    OutVcOk net curCycle l v (o.returned curCycle) := by
  refine ⟨le_rfl, h.max, fun hl => ?_⟩
  obtain ⟨hpos, _⟩ := h.credit hl
  have hlt : 0 < o.creditCount + 1 := by omega
  exact ⟨hlt.le, fun _ => hlt⟩

theorem OutVcOk.taken {l : Link} {o : OutVcState} (h : OutVcOk net curCycle l v o)
    (hcredit : 0 ≤ o.creditCount - 1) : OutVcOk net curCycle l v (o.taken curCycle) :=
  ⟨le_rfl, h.max, fun _ => ⟨hcredit, nofun⟩⟩

theorem Wf.outvc_move (hs : Wf net s) (h : Move net op s t) :
    ∀ l v, OutVcOk net t.curCycle l v (t.outvcState l v) := by
  rw [h.curCycle_eq]
  have hext {n v : Nat} {o : OutVcState} (htime : o.time ≤ s.curCycle)
      (hmax : o.maxCreditCount = (s.outvcState (.extIn n) v).maxCreditCount) :
      OutVcOk net s.curCycle (.extIn n) v o :=
    ⟨htime, hmax.trans (hs.outvc (.extIn n) v).max, fun hl => absurd rfl (hl n)⟩
  cases h with
  | receive =>
    split
    · exact hs.outvc
    · exact hs.outvc
  | credit => exact forall_setEntry hs.outvc (hs.outvc _ _).returned
  | grant _ _ _ _ _ _ _ _ _ hcredit =>
    exact forall_setEntry hs.outvc ((hs.outvc _ _).taken hcredit)
  | create => exact forall_setEntry hs.outvc (hext le_rfl rfl)
  | send => exact forall_setEntry hs.outvc (hext (hs.outvc _ _).time rfl)
  | _ => exact hs.outvc

theorem Wf.credits_move (hs : Wf net s) (h : Move net op s t) : ∀ l,
    (∀ x ∈ t.creditQueue l, x.isFreeSignal = true) ∧
      ∀ x ∈ t.creditLinkBuffer l, x.isFreeSignal = true := by
  have hinsert {m : Link → List Credit} {l : Link} {y : Credit} (hm : ∀ l, ∀ x ∈ m l, x.isFreeSignal = true)
      (hy : y.isFreeSignal = true) :
      ∀ l', ∀ x ∈ update m l (bufferInsert y (m l)) l', x.isFreeSignal = true := by
    intro l' x hx
    by_cases hl : l' = l
    · subst hl
      rw [update_self, mem_bufferInsert] at hx
      rcases hx with rfl | hx
      · exact hy
      · exact hm _ x hx
    · rw [update_of_ne hl] at hx
      exact hm _ x hx
  have hrest {m : Link → List Credit} {l : Link} {y : Credit} {rest : List Credit}
      (hm : ∀ l, ∀ x ∈ m l, x.isFreeSignal = true) (hl : m l = y :: rest) :
      ∀ l', ∀ x ∈ update m l rest l', x.isFreeSignal = true := by
    intro l' x hx
    by_cases hl' : l' = l
    · subst hl'
      rw [update_self] at hx
      exact hm _ x (by rw [hl]; exact mem_cons_of_mem y hx)
    · rw [update_of_ne hl'] at hx
      exact hm _ x hx
  have hqueue : ∀ l, ∀ x ∈ s.creditQueue l, x.isFreeSignal = true := fun l => (hs.credits l).1
  have hlink : ∀ l, ∀ x ∈ s.creditLinkBuffer l, x.isFreeSignal = true := fun l => (hs.credits l).2
  cases h with
  | receive =>
    split
    · exact hs.credits
    · exact hs.credits
  | credit hbuf => exact fun l => ⟨hqueue l, hrest hlink hbuf l⟩
  | grant => exact fun l => ⟨hinsert hqueue rfl l, hlink l⟩
  | deliver => exact fun l => ⟨hinsert hqueue rfl l, hlink l⟩
  | unstall => exact fun l => ⟨hinsert hqueue rfl l, hlink l⟩
  | @creditLink _ l x rest _ hbuf _ =>
    have hx : x.isFreeSignal = true := hqueue l x (by rw [hbuf]; exact mem_cons_self)
    exact fun l => ⟨hrest hqueue hbuf l,
      hinsert (y := { x with time := s.curCycle + net.linkLatency }) hlink hx l⟩
  | _ => exact hs.credits

theorem Wf.injection_move (hs : Wf net s) (h : Move net op s t) :
    (∀ n vnet, ∀ m ∈ t.inNode n vnet, vnet < net.virtualNetworks ∧ ∀ d ∈ m.dests, d < net.nodes) ∧
      ∀ n vnet, t.vcAllocator n vnet < net.vcsPerVnet := by
  cases h with
  | receive =>
    split
    · exact ⟨hs.messages, hs.allocator⟩
    · exact ⟨hs.messages, hs.allocator⟩
  | queue hq =>
    exact ⟨forall_setEntry (P := fun _ vnet (q : List Message) => ∀ m ∈ q,
      vnet < net.virtualNetworks ∧ ∀ d ∈ m.dests, d < net.nodes) hs.messages hq, hs.allocator⟩
  | allocator hnext =>
    exact ⟨hs.messages, forall_setEntry (P := fun _ _ i => i < net.vcsPerVnet) hs.allocator hnext⟩
  | _ => exact ⟨hs.messages, hs.allocator⟩

theorem Wf.move (hs : Wf net s) (h : Move net op s t) : Wf net t := by
  have hflits := hs.flits_move h
  have hvcs := hs.vcs_move h
  have houtvc := hs.outvc_move h
  have hcredits := hs.credits_move h
  obtain ⟨hmessages, hallocator⟩ := hs.injection_move h
  have hdirns : DirnExt s.outportsDirn2idx t.outportsDirn2idx := by
    cases h with
    | receive _ _ _ _ _ _ hext =>
      split
      · exact hext
      · exact hext
    | _ => exact .refl _
  exact ⟨hs.dirns.ext hdirns, hvcs, houtvc, hflits, hcredits, hmessages, hallocator⟩

theorem Wf.trace {ops : List Op} (hs : Wf net s) (h : Trace (Move net) ops s t) : Wf net t :=
  h.keeps (fun _ _ _ _ hmove hwf => hwf.move hmove) hs

end Moves

end Drain
