import Drain.RouterMoves

/-! Switch allocation and the crossbar as moves: at most one grant for every input
port and for every output port in one wakeup. -/

namespace Drain

open List Nat State Core Net

open Function (update)

section Requests

variable {net : Net} {s : State} {r i o v : Nat} {p : InPort} {op : OutPort} {f : Flit} {q : Requests}

theorem needStage_spec {v : VirtualChannel} {stage : FlitStage} {time : Nat} :
    Holds (v.needStage stage time)
      (fun ready => ready = true → ∃ f rest, v.inputBuffer = f :: rest)
      fun e => e.ofProtocol = false := by
  unfold VirtualChannel.needStage
  by_cases hready : isReady v.inputBuffer time = true
  · obtain ⟨f, rest, hbuf, _⟩ := isReady_iff.mp hready
    rw [if_pos hready, hbuf]
    exact .require ⟨fun _ _ => ⟨f, rest, rfl⟩, fun _ => rfl⟩
  · rw [if_neg hready]
    exact nofun

theorem sendAllowed_spec {c : Core} {invc : Nat} :
    Holds (sendAllowed net c p invc op o)
      (fun allowed => allowed = true →
        hasFreeVc net c op.link (invc / net.vcsPerVnet) = true)
      fun e => e.ofProtocol = false := by
  have hearlier (vnet : Nat) : Holds (enqueuedEarlier net c p invc o vnet) (fun _ => True)
      fun e => e.ofProtocol = false := by
    refine Holds.imp (holds_anyM _ fun k _ => ?_) fun _ _ => trivial
    rw [holds_bind]
    exact needStage_spec.imp fun _ _ => trivial
  unfold sendAllowed getVnet
  rw [holds_bind]
  refine .require ⟨fun _ => ?_, fun _ => rfl⟩
  rw [holds_pure, holds_ite, holds_ite, holds_bind]
  exact ⟨fun hfree => ⟨fun _ => (hearlier _).imp fun _ _ _ => hfree, fun _ _ => hfree⟩, fun _ => nofun⟩

/-- Every request names a VC of which `R` holds, and an input port requests at most one
output port. -/
structure Requests.Ok (net : Net) (r : Nat) (R : InPort → Nat → Nat → Prop) (q : Requests) : Prop where
  valid : ∀ o i, q.portRequests o i = true →
    ∃ p, (net.inports r)[i]? = some p ∧ R p o (q.vcWinners o i)
  unique : ∀ o o' i, q.portRequests o i = true → q.portRequests o' i = true → o = o'

def Asks (c : Core) (p : InPort) (o w : Nat) : Prop :=
  ∃ f, (c.vcs p.link w).inputBuffer = [f] ∧ f.outport = o

def Ready (net : Net) (r : Nat) (c : Core) (p : InPort) (o w : Nat) : Prop :=
  ∃ f op, (c.vcs p.link w).inputBuffer = [f] ∧ f.outport = o ∧ (net.outports r)[o]? = some op ∧
    (c.vcs p.link w).needStage .SA c.curCycle = .ok true ∧
    hasFreeVc net c op.link (w / net.vcsPerVnet) = true ∧
    (f.outportDir = p.dirn → p.dirn ≠ .Local → f.requestUturn = true)

theorem Ready.asks {c : Core} {w : Nat} (h : Ready net r c p o w) : Asks c p o w := by
  obtain ⟨f, _, hbuf, hf, _⟩ := h
  exact ⟨f, hbuf, hf⟩

theorem needStage_noted {v : VirtualChannel} {f f' : Flit} (stage : FlitStage) (time : Nat)
    (hbuf : v.inputBuffer = [f]) (h : Noted p f f') :
    { v with inputBuffer := [f'] }.needStage stage time = v.needStage stage time := by
  simp only [VirtualChannel.needStage, hbuf, isReady, Timed.time, peekTopFlit, ok_bind, Flit.isStage,
    h.stage, h.time]

theorem arbitrateInport_does (hr : r < net.numRouters) (hp : p ∈ net.inports r) (n invc : Nat)
    (hs : Wf net s.toCore) :
    Does (Move net) Fails s.toCore (arbitrateInport net r p i n invc (s, q))
      (fun t => t.1.toCore) fun ops t => (∀ op ∈ ops, op = .mark r p.link) ∧
        (t.2 = q ∨ ∃ o w, Ready net r t.1.toCore p o w ∧ t.2 = q.add o i w) := by
  induction n generalizing s invc with
  | zero => exact .pure rfl ⟨by simp, .inl rfl⟩
  | succ n ih =>
    unfold arbitrateInport Does
    rw [holds_bind]
    refine needStage_spec.mono (fun ready hstage hready => ?_)
      fun e _ he => ⟨[], _, .nil _, .of_ofProtocol he⟩
    cases ready with
    | false => exact ih _ hs
    | true =>
      obtain ⟨f, rest, hbuf⟩ := hready rfl
      have hsingle : (s.vcs p.link invc).inputBuffer = [f] :=
        (hs.vcs p.link invc).eq_singleton (by simp [hbuf])
      refine (markUturn_does hr hp hsingle).bind ?_
      rintro ops s₁ htrace ⟨hops, f₁, hvc, hnoted⟩
      have hbuf₁ : (s₁.vcs p.link invc).inputBuffer = [f₁] := by rw [hvc]
      have hstage₁ : (s₁.vcs p.link invc).needStage .SA s₁.curCycle = .ok true := by
        have hcur : s₁.curCycle = s.curCycle := htrace.curCycle_eq
        rw [hvc, needStage_noted _ _ hsingle hnoted, hcur]
        exact hstage
      rw [hbuf₁]
      unfold Does
      change Holds (net.outportAt r f₁.outport >>= _) _ _
      rw [holds_bind]
      refine outportAt_spec.mono (fun op _ hop => ?_) fun e _ he => ⟨[], _, .nil _, .of_ofProtocol he⟩
      rw [holds_bind]
      refine sendAllowed_spec.mono (fun allowed _ hfree => ?_)
        fun e _ he => ⟨[], _, .nil _, .of_ofProtocol he⟩
      cases allowed with
      | true =>
        refine ⟨[], .nil _, by simpa using hops, .inr ⟨_, invc, ?_, rfl⟩⟩
        exact ⟨f₁, op, hbuf₁, rfl, hop, hstage₁, hfree rfl, hnoted.uturn⟩
      | false =>
        refine (ih _ (hs.trace htrace)).imp ?_
        rintro ops' t _ ⟨hops', hq⟩
        exact ⟨fun op hop => (mem_append.mp hop).elim (hops op) (hops' op), hq⟩

theorem Move.vcs_of_mark {c c' : Core} {l l' : Link} (h : Move net (.mark r l) c c') (hl : l' ≠ l) :
    c'.vcs l' = c.vcs l' := by
  cases h with
  | mark =>
    funext v
    exact setEntry_of_ne _ _ fun h => hl h.1

theorem Move.vcs_of_grant {c c' : Core} {l l' m : Link} (h : Move net (.grant r l m) c c')
    (hl : l' ≠ l) : c'.vcs l' = c.vcs l' := by
  cases h with
  | grant =>
    funext v
    exact setEntry_of_ne _ _ fun h => hl h.1

theorem Trace.frame_of_mark {c c' : Core} {ops : List Op} {l : Link}
    (h : Trace (Move net) ops c c') (hops : ∀ op ∈ ops, op = .mark r l) :
    c'.outvcState = c.outvcState ∧ ∀ l', l' ≠ l → c'.vcs l' = c.vcs l' := by
  refine h.keeps (I := fun u => u.outvcState = c.outvcState ∧ ∀ l', l' ≠ l → u.vcs l' = c.vcs l') ?_
    ⟨rfl, fun _ _ => rfl⟩
  rintro op hop u u' hmove ⟨hout, hvcs⟩
  rw [hops op hop] at hmove
  refine ⟨?_, fun l' hl => (hmove.vcs_of_mark hl).trans (hvcs l' hl)⟩
  rw [← hout]
  cases hmove
  rfl

theorem Ready.congr {c c' : Core} {w : Nat} (h : Ready net r c p o w)
    (hcur : c'.curCycle = c.curCycle) (hout : c'.outvcState = c.outvcState)
    (hvcs : c'.vcs p.link = c.vcs p.link) : Ready net r c' p o w := by
  unfold Ready hasFreeVc isVcIdle at h ⊢
  rwa [hcur, hout, hvcs]

section Frame

variable {R R' : InPort → Nat → Nat → Prop}

theorem Requests.Ok.frame (hr : r < net.numRouters) (hq : q.Ok net r R)
    (hi : (net.inports r)[i]? = some p) (hnone : ∀ o, q.portRequests o i = false)
    (hframe : ∀ p' o w, p'.link ≠ p.link → R p' o w → R' p' o w) : q.Ok net r R' := by
  refine ⟨fun o' i' h => ?_, hq.unique⟩
  obtain ⟨p', hi', hready⟩ := hq.valid o' i' h
  refine ⟨p', hi', hframe p' _ _ (fun hlink => ?_) hready⟩
  have := inport_index_unique hr hi' hi hlink
  rw [this, hnone] at h
  cases h

theorem Requests.Ok.add {w : Nat} (hq : q.Ok net r R) (hi : (net.inports r)[i]? = some p)
    (hnone : ∀ o, q.portRequests o i = false) (hw : R p o w) : (q.add o i w).Ok net r R := by
  have hold {o' i' : Nat} (h : setEntry q.portRequests o i true o' i' = true) :
      (o' = o ∧ i' = i) ∨ (¬(o' = o ∧ i' = i) ∧ q.portRequests o' i' = true) := by
    by_cases hc : o' = o ∧ i' = i
    · exact .inl hc
    · rw [setEntry_of_ne _ _ hc] at h
      exact .inr ⟨hc, h⟩
  constructor
  · intro o' i' h
    change ∃ p : InPort, _ ∧ R p o' (setEntry q.vcWinners o i w o' i')
    rcases hold h with ⟨rfl, rfl⟩ | ⟨hne, h⟩
    · rw [setEntry_self]
      exact ⟨p, hi, hw⟩
    · rw [setEntry_of_ne _ _ hne]
      exact hq.valid o' i' h
  · intro o' o'' i' h h'
    rcases hold h with ⟨ho, hi⟩ | ⟨_, hreq⟩ <;> rcases hold h' with ⟨ho', hi'⟩ | ⟨_, hreq'⟩
    · rw [ho, ho']
    · rw [hi, hnone] at hreq'
      cases hreq'
    · rw [hi', hnone] at hreq
      cases hreq
    · exact hq.unique o' o'' i' hreq hreq'

theorem Requests.Ok.mono (hq : q.Ok net r R) (h : ∀ p o w, R p o w → R' p o w) : q.Ok net r R' := by
  refine ⟨fun o i hreq => ?_, hq.unique⟩
  obtain ⟨p, hi, hready⟩ := hq.valid o i hreq
  exact ⟨p, hi, h p _ _ hready⟩

end Frame

theorem arbitrateInports_does (hr : r < net.numRouters) (hs : Wf net s.toCore) :
    Does (Move net) Fails s.toCore (s.arbitrateInports net r) (fun t => t.1.toCore) fun ops t =>
      (∀ op ∈ ops, ∃ l, op = .mark r l) ∧ t.2.Ok net r (Ready net r t.1.toCore) ∧
        (s.halt r = true → ops = []) := by
  unfold arbitrateInports
  by_cases hhalt : s.halt r = true
  · rw [if_pos hhalt]
    exact .pure rfl ⟨by simp, ⟨nofun, nofun⟩, fun _ => rfl⟩
  rw [if_neg hhalt]
  refine Holds.imp (holds_foldlM_rest (fun rest (t : State × Requests) => ∃ ops,
    Trace (Move net) ops s.toCore t.1.toCore ∧ (∀ op ∈ ops, ∃ l, op = .mark r l) ∧
    t.2.Ok net r (Ready net r t.1.toCore) ∧ ∀ x ∈ rest, ∀ o, t.2.portRequests o x.2 = false)
    ⟨[], .nil _, by simp, ⟨nofun, nofun⟩, fun _ _ _ => rfl⟩ ?_) ?_
  · rintro ⟨p, i⟩ rest ⟨t, q⟩ hsuffix ⟨ops, htrace, hops, hq, hnone⟩
    have hi : (net.inports r)[i]? = some p :=
      mem_zipIdx_iff_getElem?.mp (hsuffix.subset mem_cons_self)
    have hnodup : (((p, i) :: rest).map Prod.snd).Nodup :=
      (nodup_snd_zipIdx _).sublist (hsuffix.sublist.map _)
    rw [map_cons, nodup_cons] at hnodup
    have hnonei := hnone (p, i) mem_cons_self
    refine ((arbitrateInport_does hr (mem_of_getElem? hi) _ _ (hs.trace htrace)).imp ?_).after
      htrace
    rintro ops' ⟨t', q'⟩ htrace' ⟨hops', hcase⟩
    obtain ⟨hout, hvcs⟩ := htrace'.frame_of_mark hops'
    have hq' : q.Ok net r (Ready net r t'.toCore) := hq.frame hr hi hnonei fun p' _ _ hne h =>
      h.congr htrace'.curCycle_eq hout (hvcs p'.link hne)
    refine ⟨fun op hop => ?_, ?_⟩
    · exact (mem_append.mp hop).elim (hops op) fun h => ⟨_, hops' op h⟩
    rcases hcase with rfl | ⟨o', w, hready, rfl⟩
    · exact ⟨hq', fun x hx => hnone x (mem_cons_of_mem _ hx)⟩
    · refine ⟨hq'.add hi hnonei hready, fun x hx o => ?_⟩
      have hne : x.2 ≠ i := fun h => hnodup.1 (mem_map.mpr ⟨x, hx, h⟩)
      change setEntry q.portRequests o' i true o x.2 = false
      rw [setEntry_of_ne _ _ fun h => hne h.2]
      exact hnone x (mem_cons_of_mem _ hx) o
  · rintro t ⟨ops, htrace, hops, hq, _⟩
    exact ⟨ops, htrace, hops, hq, fun h => absurd h hhalt⟩

end Requests

section Grant

variable {net : Net} {s : State} {r i o v vnet : Nat} {p : InPort} {op : OutPort} {f : Flit}
  {q : Requests}

theorem Net.vc_lt_numVcs {j : Nat} (hv : vnet < net.virtualNetworks) (hj : j < net.vcsPerVnet) :
    vnet * net.vcsPerVnet + j < net.numVcs := by
  calc vnet * net.vcsPerVnet + j
    _ < vnet * net.vcsPerVnet + net.vcsPerVnet := by omega
    _ = (vnet + 1) * net.vcsPerVnet := by rw [succ_mul]
    _ ≤ net.numVcs := mul_le_mul_right _ hv

theorem Net.vc_div {j : Nat} (hj : j < net.vcsPerVnet) :
    (vnet * net.vcsPerVnet + j) / net.vcsPerVnet = vnet := by
  rw [mul_comm, mul_add_div net.vcsPerVnet_pos, div_eq_of_lt hj, add_zero]

theorem Core.idle_of_isVcIdle {c : Core} {l : Link} {vc : Nat} (h : c.isVcIdle l vc = true) :
    (c.outvcState l vc).vcState = .idle := by
  simp only [isVcIdle, OutVcState.isInState, Bool.and_eq_true, beq_iff_eq] at h
  exact h.1

theorem selectFreeVc_spec {c : Core} {l : Link} {vc : Nat}
    (h : selectFreeVc net c l vnet = some vc) :
    (∃ j < net.vcsPerVnet, vc = vnet * net.vcsPerVnet + j) ∧ c.isVcIdle l vc = true := by
  obtain ⟨j, hj, rfl⟩ := mem_map.mp (mem_of_find?_eq_some h)
  exact ⟨⟨j, mem_range.mp hj, rfl⟩, find?_some h⟩

/-- The ways in which a grant of output port `op` to the flit `f` of VC `v` can fail. -/
inductive GrantFails (net : Net) (c : Core) (p : InPort) (v : Nat) (op : OutPort) (f : Flit) :
    Failure → Prop
  | vnet : ¬v / net.vcsPerVnet < net.virtualNetworks → GrantFails net c p v op f .vnetRange
  | noFreeVc : selectFreeVc net c op.link (v / net.vcsPerVnet) = none →
      GrantFails net c p v op f .noFreeVc
  | uturn : f.outportDir = p.dirn → p.dirn ≠ .Local → f.requestUturn ≠ true →
      GrantFails net c p v op f .uturnNotRequested
  | credit {w : Nat} : (c.outvcState op.link w).vcState = .idle →
      ¬0 ≤ (c.outvcState op.link w).creditCount - 1 → GrantFails net c p v op f .creditBelowZero

theorem GrantFails.fails {c : Core} {e : Failure} (h : GrantFails net c p v op f e) : Fails c e := by
  cases h with
  | credit hidle hcredit => exact ⟨op.link, _, hidle, hcredit⟩
  | _ => trivial

theorem vcAllocate_spec : Holds (s.vcAllocate net p v op)
    (fun t => selectFreeVc net s.toCore op.link (v / net.vcsPerVnet) = some t.1 ∧
      (s.outvcState op.link t.1).vcState = .idle ∧ t.1 < net.numVcs ∧
      t.1 / net.vcsPerVnet = v / net.vcsPerVnet ∧ t.2 = { s with
        vcs := setEntry s.vcs p.link v { s.vcs p.link v with outputVc := some t.1 }
        outvcState := setEntry s.outvcState op.link t.1
          ((s.outvcState op.link t.1).setState .active s.curCycle) })
    (GrantFails net s.toCore p v op f) := by
  unfold vcAllocate getVnet
  rw [holds_bind]
  refine .require ⟨fun hvnet => ?_, .vnet⟩
  rw [holds_pure]
  cases hfind : selectFreeVc net s.toCore op.link (v / net.vcsPerVnet) with
  | none => exact .noFreeVc hfind
  | some w =>
    obtain ⟨⟨k, hk, hwk⟩, hidle⟩ := selectFreeVc_spec hfind
    exact ⟨rfl, idle_of_isVcIdle hidle, hwk ▸ vc_lt_numVcs hvnet hk,
      hwk ▸ vc_div hk, rfl⟩

theorem countUturn_spec {c : Core} : Holds (s.countUturn p f) (fun t => t.toCore = s.toCore)
    (GrantFails net c p v op f) := by
  unfold countUturn
  rw [holds_ite, holds_bind, holds_require]
  exact ⟨fun hturn => ⟨fun _ => rfl, .uturn hturn.1 hturn.2⟩, fun _ => rfl⟩

theorem grantOutport_spec (hs : Wf net s.toCore) (hr : r < net.numRouters)
    (hi : (net.inports r)[i]? = some p) (ho : (net.outports r)[o]? = some op)
    (hhalt : s.halt r = false) (hbuf : (s.vcs p.link v).inputBuffer = [f]) (hf : f.outport = o) :
    Holds (s.grantOutport net r op o p i v)
      (fun s' => Move net (.grant r p.link op.link) s.toCore s'.toCore ∧ ∃ w,
        selectFreeVc net s.toCore op.link (v / net.vcsPerVnet) = some w ∧
        s'.outvcState = setEntry s.outvcState op.link w
          ((s.outvcState op.link w).taken s.curCycle))
      (GrantFails net s.toCore p v op f) := by
  have htail : f.isTail = true := by
    have := (hs.flits (.vc p.link v) f (by simp [flitsAt, hbuf])).2.1.type
    simp [Flit.isTail, this]
  have houtvc : (s.vcs p.link v).outputVc = none := (hs.vcs p.link v).2.2.1
  unfold grantOutport
  simp only [houtvc]
  rw [holds_bind]
  refine vcAllocate_spec.imp ?_
  rintro ⟨w, s₁⟩ ⟨hsel, hidle, hw, hvnet, hs₁⟩
  dsimp only at hsel hidle hw hvnet hs₁ ⊢
  have hbuf₁ : (s₁.vcs p.link v).inputBuffer = [f] := by
    rw [hs₁]
    change (setEntry s.vcs p.link v _ p.link v).inputBuffer = _
    rw [setEntry_self]
    exact hbuf
  simp only [hbuf₁, getTopFlit, ok_bind]
  rw [holds_bind]
  refine countUturn_spec.imp ?_
  intro s₂ hs₂
  have hcore : s₂.toCore = { s.toCore with
      vcs := setEntry s.vcs p.link v { s.vcs p.link v with outputVc := some w }
      outvcState := setEntry s.outvcState op.link w
        ((s.outvcState op.link w).setState .active s.curCycle) } := by
    rw [hs₂, hs₁]
  have hout : s₂.outvcState op.link w = (s.outvcState op.link w).setState .active s.curCycle := by
    rw [hcore]
    exact setEntry_self _ _ _ _
  unfold OutVcState.decrementCredit
  rw [holds_bind]
  refine .require ⟨fun hcredit => ?_, fun hne => .credit hidle (by rwa [hout] at hne)⟩
  rw [hout] at hcredit
  rw [holds_pure, holds_ite]
  refine ⟨fun _ => ?_, fun hne => absurd htail hne⟩
  refine holds_require_bind (by rintro ⟨⟩) ?_
  rw [holds_bind, holds_pure, holds_pure]
  have hmove := Move.grant (if f.outportDir = p.dirn ∧ p.dirn ≠ .Local then false else f.requestUturn)
    hr hi ho hhalt hbuf hf hidle hw hcredit hvnet
  refine ⟨?_, w, hsel, ?_⟩
  · convert hmove using 1
    simp only [on, hcore, setVc, setOutVc, setEntry_setEntry, setEntry_self]
    rfl
  · simp only [on, hcore, setVc, setOutVc, setEntry_setEntry, setEntry_self]
    rfl

theorem arbitrateOutport_does (hs : Wf net s.toCore) (hr : r < net.numRouters)
    (ho : (net.outports r)[o]? = some op) (hhalt : s.halt r = false) (hq : q.Ok net r (Asks s.toCore))
    (n inport : Nat) :
    Does (Move net) Fails s.toCore (arbitrateOutport net r op o n inport (s, q))
      (fun t => t.1.toCore) fun ops t => (ops = [] ∧ t.2 = q) ∨
        ∃ i p, (net.inports r)[i]? = some p ∧ q.portRequests o i = true ∧
          ops = [.grant r p.link op.link] ∧ t.2 = q.remove o i := by
  induction n generalizing inport with
  | zero => exact .pure rfl (.inl ⟨rfl, rfl⟩)
  | succ n ih =>
    unfold arbitrateOutport
    by_cases hreq : q.portRequests o inport = true
    · rw [if_pos hreq]
      obtain ⟨p, hi, f, hbuf, hf⟩ := hq.valid o inport hreq
      unfold Does inportAt
      simp only [hi, ok_bind]
      rw [holds_bind]
      refine (grantOutport_spec hs hr hi ho hhalt hbuf hf).mono (fun s' _ ⟨hmove, _⟩ => ?_)
        fun e _ he => ⟨[], _, .nil _, he.fails⟩
      exact ⟨_, .single hmove, .inr ⟨inport, p, hi, hreq, rfl, rfl⟩⟩
    · rw [if_neg hreq]
      exact ih _

def Op.grantSrc : Op → Option Link
  | .grant _ l _ => some l
  | _ => none

def Op.grantDst : Op → Option Link
  | .grant _ _ l => some l
  | _ => none

structure Grants (r : Nat) (ops : List Op) : Prop where
  grant : ∀ op ∈ ops, ∃ l m, op = .grant r l m
  src : (ops.filterMap Op.grantSrc).Nodup
  dst : (ops.filterMap Op.grantDst).Nodup

theorem Grants.nil (r : Nat) : Grants r [] := ⟨by simp, by simp, by simp⟩

theorem Grants.snoc {ops : List Op} {l m : Link} (h : Grants r ops)
    (hl : l ∉ ops.filterMap Op.grantSrc) (hm : m ∉ ops.filterMap Op.grantDst) :
    Grants r (ops ++ [.grant r l m]) := by
  refine ⟨fun op hop => ?_, ?_, ?_⟩
  · rcases mem_append.mp hop with hop | hop
    · exact h.grant op hop
    · exact ⟨l, m, mem_singleton.mp hop⟩
  · rw [filterMap_append]
    exact nodup_append'.mpr ⟨h.src, by simp [Op.grantSrc], by simpa [Op.grantSrc] using hl⟩
  · rw [filterMap_append]
    exact nodup_append'.mpr ⟨h.dst, by simp [Op.grantDst], by simpa [Op.grantDst] using hm⟩

theorem Requests.Ok.remove {R R' : InPort → Nat → Nat → Prop} (hr : r < net.numRouters)
    (hq : q.Ok net r R) (hi : (net.inports r)[i]? = some p) (hreq : q.portRequests o i = true)
    (hframe : ∀ p' o w, p'.link ≠ p.link → R p' o w → R' p' o w) :
    (q.remove o i).Ok net r R' ∧ ∀ o', (q.remove o i).portRequests o' i = false := by
  have hnone : ∀ o', (q.remove o i).portRequests o' i = false := by
    intro o'
    change setEntry q.portRequests o i false o' i = false
    by_cases ho' : o' = o
    · rw [ho', setEntry_self]
    · rw [setEntry_of_ne _ _ fun h => ho' h.1]
      by_contra hne
      exact ho' (hq.unique o' o i (by simpa using hne) hreq)
  have hsub {o' i' : Nat} (h : (q.remove o i).portRequests o' i' = true) :
      q.portRequests o' i' = true := by
    by_cases hc : o' = o ∧ i' = i
    · rw [hc.1, hc.2]
      exact hreq
    · change setEntry q.portRequests o i false o' i' = true at h
      rwa [setEntry_of_ne _ _ hc] at h
  have hq' : (q.remove o i).Ok net r R :=
    ⟨fun o' i' h => hq.valid o' i' (hsub h), fun o' o'' i' h h' => hq.unique o' o'' i' (hsub h) (hsub h')⟩
  exact ⟨hq'.frame hr hi hnone hframe, hnone⟩

theorem arbitrateOutports_does (hs : Wf net s.toCore) (hr : r < net.numRouters)
    (hq : q.Ok net r (Asks s.toCore)) :
    Does (Move net) Fails s.toCore (arbitrateOutports net r (s, q)) toCore fun ops _ =>
      Grants r ops ∧ (s.halt r = true → ops = []) := by
  unfold arbitrateOutports
  by_cases hhalt : s.halt r = true
  · dsimp only
    rw [if_pos hhalt]
    exact .pure rfl ⟨.nil r, fun _ => rfl⟩
  dsimp only
  rw [if_neg hhalt]
  unfold Does
  rw [holds_bind]
  refine Holds.imp (holds_foldlM_rest (fun rest (t : State × Requests) => ∃ ops,
    Trace (Move net) ops s.toCore t.1.toCore ∧ Grants r ops ∧ t.2.Ok net r (Asks t.1.toCore) ∧
    (∀ x ∈ rest, x.1.link ∉ ops.filterMap Op.grantDst) ∧
    ∀ i p o, (net.inports r)[i]? = some p → t.2.portRequests o i = true →
      p.link ∉ ops.filterMap Op.grantSrc)
    ⟨[], .nil _, .nil r, hq, by simp, by simp⟩ ?_) ?_
  · rintro ⟨op, o⟩ rest ⟨t, q⟩ hsuffix ⟨ops, htrace, hgrants, hq, hdst, hsrc⟩
    have ho : (net.outports r)[o]? = some op :=
      mem_zipIdx_iff_getElem?.mp (hsuffix.subset mem_cons_self)
    have hhalt' : t.halt r = false := by
      have : t.halt = s.halt := htrace.control.halt
      rw [this]
      simpa using hhalt
    refine ((arbitrateOutport_does (hs.trace htrace) hr ho hhalt' hq _ _).imp ?_).after htrace
    rintro ops' ⟨t', q'⟩ htrace' (⟨rfl, rfl⟩ | ⟨i, p, hi, hreq, rfl, rfl⟩)
    · have heq : t'.toCore = t.toCore := htrace'.eq_of_nil
      rw [append_nil]
      exact ⟨hgrants, heq ▸ hq, fun x hx => hdst x (mem_cons_of_mem _ hx), hsrc⟩
    · have hframe : ∀ p' o w, p'.link ≠ p.link → Asks t.toCore p' o w → Asks t'.toCore p' o w := by
        intro p' o w hl hasks
        unfold Asks
        rwa [htrace'.of_single.vcs_of_grant hl]
      obtain ⟨hq', hnone⟩ := hq.remove hr hi hreq hframe
      have hnodup : (((op, o) :: rest).map fun x => x.1.link).Nodup := by
        have hsub := (hsuffix.sublist.map Prod.fst).map OutPort.link
        rw [zipIdx_map_fst] at hsub
        have := (outports_link_nodup hr).sublist hsub
        rwa [map_map] at this
      rw [map_cons, nodup_cons] at hnodup
      refine ⟨hgrants.snoc (hsrc i p o hi hreq) (hdst (op, o) mem_cons_self), hq', ?_, ?_⟩
      · intro x hx hmem
        rw [filterMap_append, mem_append] at hmem
        rcases hmem with hmem | hmem
        · exact hdst x (mem_cons_of_mem _ hx) hmem
        · have hlink : x.1.link = op.link := by simpa [Op.grantDst] using hmem
          exact hnodup.1 (mem_map.mpr ⟨x, hx, hlink⟩)
      · intro i' p' o' hi' hreq' hmem
        have hne : i' ≠ i := by
          rintro rfl
          rw [hnone] at hreq'
          cases hreq'
        rw [filterMap_append, mem_append] at hmem
        rcases hmem with hmem | hmem
        · refine hsrc i' p' o' hi' ?_ hmem
          change setEntry q.portRequests o i false o' i' = true at hreq'
          rwa [setEntry_of_ne _ _ fun h => hne h.2] at hreq'
        · have hlink : p'.link = p.link := by simpa [Op.grantSrc] using hmem
          exact hne (inport_index_unique hr hi' hi hlink)
  · rintro t ⟨ops, htrace, hgrants, _⟩
    exact ⟨ops, htrace, hgrants, fun h => absurd h hhalt⟩

end Grant

section Crossbar

variable {net : Net} {s : State} {r i : Nat}

theorem checkForWakeup_does (hs : Wf net s.toCore) :
    Does (Move net) Fails s.toCore (s.checkForWakeup net r) toCore fun ops s' =>
      (∀ op ∈ ops, op = .wake (.router r)) ∧
        ∀ p ∈ net.inports r, ∀ v < net.numVcs, ∀ f, (s.vcs p.link v).inputBuffer = [f] →
          f.stage.2 ≤ s.curCycle + 1 → s'.toCore = s.toCore.scheduleEvent (.router r) 1 := by
  have hready {p : InPort} {v : Nat} {f : Flit} (hbuf : (s.vcs p.link v).inputBuffer = [f])
      (hstage : f.stage.2 ≤ s.curCycle + 1) :
      (s.vcs p.link v).needStage .SA (s.curCycle + 1) = .ok true := by
    obtain ⟨hsa, htime, _⟩ := (hs.flits (.vc p.link v) f (by simp [flitsAt, hbuf])).2.2
    obtain ⟨hcase, hstate, _⟩ := hs.vcs p.link v
    have hactive : (s.vcs p.link v).vcState = .active := by
      rcases hcase with ⟨hempty, _⟩ | ⟨_, _, hactive⟩
      · rw [hempty] at hbuf
        cases hbuf
      · exact hactive
    have hle : f.time ≤ s.curCycle + 1 := by omega
    have hle' : (s.vcs p.link v).stateTime ≤ s.curCycle + 1 := by omega
    simp [VirtualChannel.needStage, hbuf, isReady, Timed.time, hle, hle', hactive, require, bind,
      Except.bind, peekTopFlit, Flit.isStage, hsa, hstage, pure, Except.pure]
  have hstage (v : VirtualChannel) : Holds (v.needStage .SA (s.curCycle + 1)) (fun _ => True)
      fun e => e.ofProtocol = false := needStage_spec.imp fun _ _ => trivial
  have hinner (p : InPort) := holds_anyM (range net.numVcs) fun v _ => hstage (s.vcs p.link v)
  unfold checkForWakeup Does
  rw [holds_bind]
  refine (holds_anyM (net.inports r) fun p _ => (hinner p).imp fun _ _ => trivial).mono
    (fun ready _ hnone => ?_) fun e _ he => ⟨[], _, .nil _, .of_ofProtocol he⟩
  cases ready with
  | true =>
    exact ⟨[.wake (.router r)], .single (.wake (lt_succ_self _)), by simp,
      fun _ _ _ _ _ _ _ => rfl⟩
  | false =>
    refine ⟨[], .nil _, by simp, fun p hp v hv f hbuf hle => ?_⟩
    have hok := (hinner p).of_ok (hnone rfl p hp) rfl v (mem_range.mpr hv)
    rw [hready hbuf hle] at hok
    cases hok

theorem crossbarInport_does (hs : Wf net s.toCore) (hr : r < net.numRouters)
    (hi : i < (net.inports r).length) :
    Does (Move net) Fails s.toCore (s.crossbarInport net r i) toCore fun ops s' =>
      (∀ op ∈ ops, ∃ l, op = .cross r l) ∧
        s'.switchBuffer = setEntry s.switchBuffer r i (s.switchBuffer r i).tail := by
  unfold crossbarInport
  cases hbuf : s.switchBuffer r i with
  | nil =>
    refine .pure rfl ⟨by simp, ?_⟩
    rw [tail_nil, ← hbuf, setEntry_eq_self]
  | cons f rest =>
    obtain ⟨_, _, hst, hstage, htime, op, hop⟩ :=
      hs.flits (.switch r i) f (by simp [flitsAt, hbuf])
    have hready : isReady (f :: rest) s.curCycle = true := isReady_iff.mpr ⟨f, rest, rfl, htime⟩
    have hisStage : f.isStage .ST s.curCycle = true := by
      simp [Flit.isStage, hst, hstage]
    have hport : net.outportAt r f.outport = .ok op := by
      unfold outportAt
      rw [hop]
    rw [if_pos hready]
    simp only [getTopFlit, ok_bind, hisStage, if_true, hport]
    exact ⟨[.cross r op.link], .single (.cross hr hi hbuf hop), by simp, rfl⟩

theorem crossbarWakeup_does (hs : Wf net s.toCore) (hr : r < net.numRouters) :
    Does (Move net) Fails s.toCore (s.crossbarWakeup net r) toCore fun ops s' =>
      (∀ op ∈ ops, ∃ l, op = .cross r l) ∧ ∀ i < (net.inports r).length,
        s'.switchBuffer r i = (s.switchBuffer r i).tail := by
  unfold crossbarWakeup
  refine Holds.imp (holds_foldlM_range (fun k (t : State) => ∃ ops,
    Trace (Move net) ops s.toCore t.toCore ∧ (∀ op ∈ ops, ∃ l, op = .cross r l) ∧
    ∀ i, t.switchBuffer r i = if i < k then (s.switchBuffer r i).tail else s.switchBuffer r i)
    ⟨[], .nil _, by simp, by simp⟩ ?_) ?_
  · rintro k hk t ⟨ops, htrace, hops, hswitch⟩
    refine ((crossbarInport_does (hs.trace htrace) hr hk).imp ?_).after htrace
    rintro ops' t' _ ⟨hops', hswitch'⟩
    refine ⟨fun op hop => (mem_append.mp hop).elim (hops op) (hops' op), fun i => ?_⟩
    rw [hswitch', setEntry_apply]
    by_cases hik : i = k
    · subst hik
      rw [if_pos ⟨rfl, rfl⟩, hswitch, if_neg (by omega), if_pos (by omega)]
    · rw [if_neg fun h => hik h.2, hswitch]
      have : i < k ↔ i < k + 1 := by omega
      simp only [this]
  · rintro t ⟨ops, htrace, hops, hswitch⟩
    refine ⟨ops, htrace, hops, fun i hi => ?_⟩
    rw [hswitch, if_pos hi]

end Crossbar

end Drain
