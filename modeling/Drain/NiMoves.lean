import Drain.AllocatorMoves

/-! The wakeups of network interfaces and links make moves. -/

namespace Drain

open List State

open Function (update)

def NiOp (n : Nat) : Op → Prop
  | .queue m | .create m | .send m | .stall m | .deliver m => m = n
  | .wake c => c = .ni n
  | .credit c l => c = .ni n ∧ l = .extIn n
  | _ => False

theorem NiOp.actor_eq {n : Nat} {op : Op} (h : NiOp n op) : op.actor = .ni n := by
  cases op with
  | queue m | create m | send m | stall m | deliver m => exact congrArg Consumer.ni h
  | wake c => exact h
  | credit c l => exact h.1
  | receive r | mark r a | grant r a b | cross r a | link l | creditLink l => exact h.elim

section Inject

variable {net : Net} {s : State} {n vnet : Nat}

theorem calculateVCrr_trace (hs : Wf net s.toCore) (k : Nat) : ∃ ops,
    Trace (Move net) ops s.toCore (calculateVCrr net n vnet k s).2.toCore ∧
      (∀ op ∈ ops, op = .queue n) ∧ ∀ vc, (calculateVCrr net n vnet k s).1 = some vc →
        (∃ j < net.vcsPerVnet, vc = vnet * net.vcsPerVnet + j) ∧
        (calculateVCrr net n vnet k s).2.isVcIdle (.extIn n) vc = true := by
  induction k generalizing s with
  | zero => exact ⟨[], .nil _, by simp, nofun⟩
  | succ k ih =>
    have hdelta := hs.allocator n vnet
    have hnext : (if s.vcAllocator n vnet + 1 = net.vcsPerVnet then 0
        else s.vcAllocator n vnet + 1) < net.vcsPerVnet := by
      split <;> omega
    unfold calculateVCrr
    dsimp only
    generalize (if s.vcAllocator n vnet + 1 = net.vcsPerVnet then 0
      else s.vcAllocator n vnet + 1) = next at hnext ⊢
    have hmove : Move net (.queue n) s.toCore
        { s.toCore with vcAllocator := setEntry s.vcAllocator n vnet next } := .allocator hnext
    split
    · next hidle =>
      refine ⟨[.queue n], .single hmove, by simp, fun vc hvc => ?_⟩
      cases hvc
      exact ⟨⟨_, hdelta, rfl⟩, hidle⟩
    · obtain ⟨ops, htrace, hops, hvc⟩ := ih (s := { s with
        vcAllocator := setEntry s.vcAllocator n vnet next }) (hs.move hmove)
      exact ⟨[.queue n] ++ ops, (Trace.single hmove).append htrace, by simpa using hops, hvc⟩

theorem calculateVC_does (hs : Wf net s.toCore) :
    Does (Move net) Fails s.toCore (s.calculateVC net n vnet) (fun t => t.2.toCore) fun ops t =>
      (∀ op ∈ ops, op = .queue n) ∧ ∀ vc, t.1 = some vc →
        (∃ j < net.vcsPerVnet, vc = vnet * net.vcsPerVnet + j) ∧
        t.2.isVcIdle (.extIn n) vc = true := by
  unfold calculateVC
  cases net.niInj with
  | rr => exact calculateVCrr_trace hs net.vcsPerVnet
  | fcfs => exact ⟨[], .nil _, by simp, fun vc hvc => selectFreeVc_spec hvc⟩
  | other => exact .error trivial

theorem flitisizeMessage_does (hn : n < net.nodes) (hvnet : vnet < net.virtualNetworks)
    {dests : List Nat} (hdests : ∀ d ∈ dests, d < net.nodes) (hlock : s.lock = none)
    (hs : Wf net s.toCore) :
    Does (Move net) Fails s.toCore (flitisizeMessage net n vnet dests s) (fun t => t.2.toCore)
      fun ops t => (∀ op ∈ ops, NiOp n op) ∧ ∀ d ∈ t.1, d < net.nodes := by
  induction dests generalizing s with
  | nil => exact .pure rfl ⟨by simp, by simp⟩
  | cons dest dests ih =>
    unfold flitisizeMessage
    refine Does.of_require (fun _ => ?_) fun _ => trivial
    refine (calculateVC_does hs).bind ?_
    rintro ops ⟨vc, s₁⟩ htrace ⟨hops, hvc⟩
    have hops' : ∀ op ∈ ops, NiOp n op := fun op hop => by
      rw [hops op hop]
      rfl
    cases vc with
    | none => exact .pure rfl ⟨by simpa using hops', hdests⟩
    | some vc =>
      obtain ⟨⟨j, hj, hvceq⟩, hidle⟩ := hvc vc rfl
      have hlt : vc < net.numVcs := by
        rw [hvceq]
        refine Net.vc_lt_numVcs ?_ hj
        split <;> omega
      have hlock₁ : s₁.lock = none := htrace.control.lock.trans hlock
      have hmove : Move net (.create n) s₁.toCore (createFlit net n vnet dest vc s₁.toCore) :=
        .create hn hlt (hdests dest mem_cons_self) hlock₁ (Core.idle_of_isVcIdle hidle)
          (hvceq ▸ Net.vc_div hj)
      refine ((ih (fun d hd => hdests d (mem_cons_of_mem _ hd)) ?_ ?_).imp ?_).after
        (.single hmove)
      · exact hlock₁
      · exact (hs.trace htrace).move hmove
      · rintro ops₂ t _ ⟨hops₂, hleft⟩
        refine ⟨?_, hleft⟩
        simp only [forall_mem_append]
        exact ⟨hops', by simp [NiOp], hops₂⟩

theorem injectVnet_does (hn : n < net.nodes) (hs : Wf net s.toCore) :
    Does (Move net) Fails s.toCore (injectVnet net n s vnet) toCore fun ops _ =>
      ∀ op ∈ ops, NiOp n op := by
  unfold injectVnet
  cases hin : s.inNode n vnet with
  | nil => exact .pure rfl (by simp)
  | cons m ms =>
    have hmessages : ∀ m' ∈ m :: ms, vnet < net.virtualNetworks ∧ ∀ d ∈ m'.dests, d < net.nodes := by
      rw [← hin]
      exact hs.messages n vnet
    obtain ⟨hvnet, hdests⟩ := hmessages m mem_cons_self
    dsimp only
    by_cases hready : m.arrival ≤ s.curCycle ∧ s.lock = none
    · rw [if_pos hready]
      refine (flitisizeMessage_does hn hvnet hdests hready.2 hs).bind ?_
      rintro ops ⟨left, s₁⟩ _ ⟨hops, hleft⟩
      refine ⟨[.queue n], .single (.queue fun m' hm' => ?_), ?_⟩
      · split at hm'
        · exact hmessages m' (mem_cons_of_mem _ hm')
        · rcases mem_cons.mp hm' with rfl | hm'
          · exact ⟨hvnet, hleft⟩
          · exact hmessages m' (mem_cons_of_mem _ hm')
      · simp only [forall_mem_append]
        exact ⟨hops, by simp [NiOp]⟩
    · rw [if_neg hready]
      exact .pure rfl (by simp)

end Inject

section Exchange

variable {net : Net} {s : State} {n : Nat}

theorem sendFlit_does {vc : Nat} (hn : n < net.nodes)
    (hready : isReady (s.niOutVcs n vc) s.curCycle = true)
    (hcredit : (s.outvcState (.extIn n) vc).hasCredit = true) :
    Does (Move net) Fails s.toCore (s.sendFlit n vc) toCore fun ops _ =>
      ∀ op ∈ ops, NiOp n op := by
  obtain ⟨f, rest, hbuf, _⟩ := isReady_iff.mp hready
  have hpos : 0 < (s.outvcState (.extIn n) vc).creditCount := by
    simpa [OutVcState.hasCredit] using hcredit
  have hmove : Move net (.send n) _ _ := Move.send (s := s.toCore) hn hbuf hpos
  unfold sendFlit OutVcState.decrementCredit Does
  rw [holds_bind]
  refine holds_require_bind (by omega) ?_
  rw [holds_pure]
  simp only [hbuf, getTopFlit, ok_bind]
  rw [holds_ite]
  exact ⟨fun _ => ⟨[.send n], .single hmove, by simp [NiOp]⟩,
    fun _ => ⟨[.send n], .single hmove, by simp [NiOp]⟩⟩

theorem sendFrom_does (hn : n < net.nodes) (k vc : Nat) :
    Does (Move net) Fails s.toCore (sendFrom net n k vc s) toCore fun ops _ =>
      ∀ op ∈ ops, NiOp n op := by
  induction k generalizing vc with
  | zero => exact .pure rfl (by simp)
  | succ k ih =>
    unfold sendFrom Does
    dsimp only
    generalize (if vc + 1 = net.numVcs then 0 else vc + 1) = vc'
    rw [holds_ite]
    refine ⟨fun hready => ?_, fun _ => ih _⟩
    rw [Bool.and_eq_true] at hready
    have hvnet : Holds (niGetVnet net vc') (fun _ => True) fun e => e.ofProtocol = false := by
      unfold niGetVnet
      split
      · trivial
      · rfl
    rw [holds_bind]
    refine hvnet.mono (fun vnet _ _ => ?_) fun e _ he => ⟨[], _, .nil _, .of_ofProtocol he⟩
    rw [holds_ite]
    exact ⟨fun _ => sendFlit_does hn hready.1 hready.2, fun _ => ih _⟩

theorem checkReschedule_trace (net : Net) (n : Nat) (s : State) : ∃ ops,
    Trace (Move net) ops s.toCore (s.checkReschedule net n).toCore ∧ ∀ op ∈ ops, NiOp n op := by
  unfold checkReschedule
  split
  · exact ⟨[.wake (.ni n)], .single (.wake (Nat.lt_succ_self _)), by simp [NiOp]⟩
  · exact ⟨[], .nil _, by simp⟩

theorem eraseP_of_find? {α : Type*} {p : α → Bool} {l : List α} {a : α} (h : l.find? p = some a) :
    ∃ pre post, l = pre ++ a :: post ∧ l.eraseP p = pre ++ post := by
  obtain ⟨hpa, pre, post, rfl, hpre⟩ := find?_eq_some_iff_append.mp h
  refine ⟨pre, post, rfl, ?_⟩
  rw [eraseP_append_right _ (by simpa using hpre), eraseP_cons_of_pos hpa]

theorem checkStallQueue_trace (hn : n < net.nodes) (slots : Nat → Bool) (s : State) : ∃ ops,
    Trace (Move net) ops s.toCore (s.checkStallQueue n slots).2.toCore ∧ ∀ op ∈ ops, NiOp n op := by
  unfold checkStallQueue
  cases hfind : (s.stallQueue n).find? fun f => slots f.vnet with
  | none => exact ⟨[], .nil _, by simp⟩
  | some f =>
    obtain ⟨pre, post, hqueue, herase⟩ := eraseP_of_find? hfind
    have hmove : Move net (.deliver n) _ _ := Move.unstall hn hqueue
    rw [← herase] at hmove
    exact ⟨[.deliver n], .single hmove, by simp [NiOp]⟩

theorem receiveFlit_does (hn : n < net.nodes) (hs : Wf net s.toCore) (slots : Nat → Bool)
    (enqueued : Bool) :
    Does (Move net) Fails s.toCore (s.receiveFlit n slots enqueued) toCore fun ops _ =>
      ∀ op ∈ ops, NiOp n op := by
  unfold receiveFlit
  by_cases hready : isReady (s.linkBuffer (.extOut n)) s.curCycle = true
  · obtain ⟨f, rest, hbuf, htime⟩ := isReady_iff.mp hready
    have htail : f.isTail = true := by
      have := (hs.flits (.link (.extOut n)) f (by simp [Core.flitsAt, hbuf])).2.1.type
      simp [Flit.isTail, this]
    rw [if_pos hready]
    simp only [hbuf, getTopFlit, ok_bind]
    unfold Does
    refine holds_require_bind htail ?_
    rw [holds_ite]
    exact ⟨fun _ => ⟨[.deliver n], .single (.deliver hn hbuf htime), by simp [NiOp]⟩,
      fun _ => ⟨[.stall n], .single (.stall hn hbuf htime), by simp [NiOp]⟩⟩
  · rw [if_neg hready]
    exact .pure rfl (by simp)

theorem niWakeup_does (hn : n < net.nodes) (hs : Wf net s.toCore) (slots : Nat → Bool) :
    Does (Move net) Fails s.toCore (s.niWakeup net n slots) toCore fun ops _ =>
      ∀ op ∈ ops, NiOp n op := by
  unfold niWakeup
  have hinject : Does (Move net) Fails s.toCore
      ((range net.virtualNetworks).foldlM (injectVnet net n) s) toCore
      fun ops _ => ∀ op ∈ ops, NiOp n op := by
    refine holds_foldlM (fun t : State => ∃ ops, Trace (Move net) ops s.toCore t.toCore ∧
      ∀ op ∈ ops, NiOp n op) _ ⟨[], .nil _, by simp⟩ ?_
    rintro vnet _ t ⟨ops, htrace, hops⟩
    refine ((injectVnet_does hn (hs.trace htrace)).imp ?_).after htrace
    exact fun ops' t' _ hops' => forall_mem_append.mpr ⟨hops, hops'⟩
  refine hinject.bind fun ops₁ s₁ htrace₁ hops₁ => ?_
  have hsend : Does (Move net) Fails s₁.toCore (s₁.scheduleOutputLink net n) toCore
      fun ops _ => ∀ op ∈ ops, NiOp n op := sendFrom_does hn _ _
  refine hsend.bind fun ops₂ s₂ htrace₂ hops₂ => ?_
  obtain ⟨ops₃, htrace₃, hops₃⟩ := checkReschedule_trace net n s₂
  obtain ⟨ops₄, htrace₄, hops₄⟩ := checkStallQueue_trace hn slots (s₂.checkReschedule net n)
  dsimp only
  generalize (s₂.checkReschedule net n).checkStallQueue n slots = t at *
  obtain ⟨enqueued, s₄⟩ := t
  refine .after (htrace₃.append htrace₄) ?_
  have hs₄ : Wf net s₄.toCore := (((hs.trace htrace₁).trace htrace₂).trace htrace₃).trace htrace₄
  refine (receiveFlit_does hn hs₄ slots enqueued).bind fun ops₅ s₅ htrace₅ hops₅ => ?_
  refine (receiveCredit_does (hs₄.trace htrace₅) (.ni n)).bind fun ops₆ s₆ _ ⟨hops₆, _⟩ => ?_
  have hops₆' : ∀ op ∈ ops₆, NiOp n op := fun op hop => by
    rw [hops₆ op hop]
    exact ⟨rfl, rfl⟩
  by_cases hqueue : (s₆.creditQueue (.extOut n)).isEmpty = true
  · rw [if_pos hqueue]
    refine .pure rfl ?_
    simp only [forall_mem_append]
    exact ⟨hops₁, hops₂, ⟨hops₃, hops₄⟩, hops₅, hops₆', by simp⟩
  · rw [if_neg hqueue]
    refine ⟨[.wake (.ni n)], .single (.wake (Nat.lt_succ_self _)), ?_⟩
    simp only [forall_mem_append]
    exact ⟨hops₁, hops₂, ⟨hops₃, hops₄⟩, hops₅, hops₆', by simp [NiOp]⟩

end Exchange

section Links

variable {net : Net} {l : Link}

theorem linkWakeup_move (hl : l ∈ net.links) (c : Core) :
    (isReady (c.outBuffer l) c.curCycle = true ∧
      Move net (.link l) c (linkWakeup net l c)) ∨
    (isReady (c.outBuffer l) c.curCycle = false ∧ linkWakeup net l c = c) := by
  unfold linkWakeup
  cases hbuf : c.outBuffer l with
  | nil => exact .inr ⟨rfl, rfl⟩
  | cons f rest =>
    by_cases htime : f.time ≤ c.curCycle
    · dsimp only
      rw [if_pos htime]
      exact .inl ⟨decide_eq_true htime, .link hl hbuf htime⟩
    · dsimp only
      rw [if_neg htime]
      exact .inr ⟨decide_eq_false htime, rfl⟩

theorem creditLinkWakeup_move (hl : l ∈ net.links) (c : Core) :
    (isReady (c.creditQueue l) c.curCycle = true ∧
      Move net (.creditLink l) c (creditLinkWakeup net l c)) ∨
    (isReady (c.creditQueue l) c.curCycle = false ∧ creditLinkWakeup net l c = c) := by
  unfold creditLinkWakeup
  cases hbuf : c.creditQueue l with
  | nil => exact .inr ⟨rfl, rfl⟩
  | cons x rest =>
    by_cases htime : x.time ≤ c.curCycle
    · dsimp only
      rw [if_pos htime]
      exact .inl ⟨decide_eq_true htime, .creditLink hl hbuf htime⟩
    · dsimp only
      rw [if_neg htime]
      exact .inr ⟨decide_eq_false htime, rfl⟩

end Links

end Drain
