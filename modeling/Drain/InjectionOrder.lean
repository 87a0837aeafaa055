import Drain.WakeupFrame

/-! The order in which a network interface sends the flits that it makes. Seen from one interface,
a run is a sequence of four moves: the clock advances, `flitisizeMessage` fills an idle VC,
`scheduleOutputLink` sends a flit, a credit comes back. -/

namespace Drain

open Function List State

/-- The virtual network whose VCs `flitisizeMessage` gives to a message of `vnet`. -/
def Net.injectionVnet (net : Net) (vnet : Nat) : Nat := if net.injSingleVnet = 0 then vnet else 0

/-- One network interface: its output VCs, their buffers and enqueue times, and the flits that
have left, in order. A flit in a buffer still has the time of its creation. -/
structure Injection where
  curCycle : Nat
  outVcs : Nat → OutVcState
  buffers : Nat → List Flit
  times : Nat → Nat
  sent : List Flit

namespace Injection

/-- What `scheduleOutputLink` checks of the VC it sends from. -/
def Candidate (net : Net) (k : Injection) (vc : Nat) : Prop :=
  net.isVNetOrdered (vc / net.vcsPerVnet) = true → ∀ w, w / net.vcsPerVnet = vc / net.vcsPerVnet →
    isReady (k.buffers w) k.curCycle = true → k.times vc ≤ k.times w

def credited (isFree : Bool) (curCycle : Nat) (o : OutVcState) : OutVcState :=
  let o := { o with creditCount := o.creditCount + 1 }
  if isFree then o.setState .idle curCycle else o

inductive Move (net : Net) (k : Injection) : Injection → Prop
  | tick : Move net k { k with curCycle := k.curCycle + 1 }
  | create {f : Flit} : (k.outVcs f.vc).vcState = .idle →
      f.vc / net.vcsPerVnet = net.injectionVnet f.vnet → f.time = k.curCycle →
      Move net k { k with
        outVcs := update k.outVcs f.vc ((k.outVcs f.vc).setState .active k.curCycle)
        buffers := update k.buffers f.vc (bufferInsert f (k.buffers f.vc))
        times := update k.times f.vc k.curCycle }
  | send {vc time : Nat} {f : Flit} {rest : List Flit} : k.buffers vc = f :: rest →
      k.Candidate net vc → Move net k { k with
        outVcs := update k.outVcs vc { k.outVcs vc with creditCount := (k.outVcs vc).creditCount - 1 }
        buffers := update k.buffers vc rest
        times := update k.times vc time
        sent := k.sent ++ [f] }
  | credit {vc : Nat} (isFree : Bool) :
      (k.outVcs vc).creditCount + 1 ≤ (k.outVcs vc).maxCreditCount →
      Move net k { k with outVcs := update k.outVcs vc (credited isFree k.curCycle (k.outVcs vc)) }

/-- An output VC is free, or its flit waits in the buffer, or the flit has left and the VC has not
been freed. -/
inductive VcPhase (net : Net) (curCycle vc : Nat) (o : OutVcState) : List Flit → Nat → Prop
  | free {time : Nat} : o.vcState = .idle → o.creditCount = o.maxCreditCount →
      VcPhase net curCycle vc o [] time
  | waiting {f : Flit} : o.vcState = .active → o.creditCount = o.maxCreditCount → f.vc = vc →
      vc / net.vcsPerVnet = net.injectionVnet f.vnet → f.time ≤ curCycle →
      VcPhase net curCycle vc o [f] f.time
  | sent {time : Nat} : o.vcState = .active → o.maxCreditCount ≤ o.creditCount + 1 →
      VcPhase net curCycle vc o [] time

structure Ok (net : Net) (k : Injection) : Prop where
  vcs : ∀ vc, VcPhase net k.curCycle vc (k.outVcs vc) (k.buffers vc) (k.times vc)
  past : ∀ f ∈ k.sent, f.time ≤ k.curCycle ∧ f.vc / net.vcsPerVnet = net.injectionVnet f.vnet
  before : ∀ f ∈ k.sent, net.isVNetOrdered (f.vc / net.vcsPerVnet) = true → ∀ w,
    w / net.vcsPerVnet = f.vc / net.vcsPerVnet → ∀ g ∈ k.buffers w, f.time ≤ g.time
  sorted : k.sent.Pairwise fun f g => f.vc / net.vcsPerVnet = g.vc / net.vcsPerVnet →
    net.isVNetOrdered (f.vc / net.vcsPerVnet) = true → f.time ≤ g.time

section Moves

variable {net : Net} {k k' : Injection} {vc curCycle time : Nat} {o : OutVcState} {b : List Flit}

section

variable (h : VcPhase net curCycle vc o b time)
include h

theorem VcPhase.tick :
    VcPhase net (curCycle + 1) vc o b time := by
  cases h with
  | free hidle hcredit => exact .free hidle hcredit
  | waiting hactive hcredit hvc hvnet htime => exact .waiting hactive hcredit hvc hvnet (by omega)
  | sent hactive hcredit => exact .sent hactive hcredit

theorem VcPhase.eq_nil (hidle : o.vcState = .idle) :
    b = [] ∧ o.creditCount = o.maxCreditCount := by
  cases h with
  | free _ hcredit => exact ⟨rfl, hcredit⟩
  | waiting hactive => cases hidle.symm.trans hactive
  | sent hactive => cases hidle.symm.trans hactive

theorem VcPhase.credited (hcredit : o.creditCount + 1 ≤ o.maxCreditCount) (isFree : Bool) :
    VcPhase net curCycle vc (Injection.credited isFree curCycle o) b time := by
  cases h with
  | free _ heq => omega
  | waiting _ heq => omega
  | sent hactive hmax =>
    cases isFree with
    | true => exact .free rfl (le_antisymm hcredit hmax)
    | false => exact .sent hactive (Int.le_add_one hmax)

theorem VcPhase.mem {f : Flit} (hf : f ∈ b) :
    b = [f] ∧ time = f.time ∧ f.vc = vc ∧ f.time ≤ curCycle ∧
      vc / net.vcsPerVnet = net.injectionVnet f.vnet := by
  cases h with
  | free => cases hf
  | waiting _ _ hvc hvnet htime =>
    obtain rfl := mem_singleton.mp hf
    exact ⟨rfl, rfl, hvc, htime, hvnet⟩
  | sent => cases hf

theorem VcPhase.taken {f : Flit} {time' : Nat} (hf : f ∈ b) :
    VcPhase net curCycle vc { o with creditCount := o.creditCount - 1 } [] time' := by
  cases h with
  | free => cases hf
  | waiting hactive hcredit => exact .sent hactive (by dsimp only; omega)
  | sent => cases hf

end

section

variable (hk : Ok net k)
include hk

theorem Ok.candidate {f g : Flit} {w : Nat} (hf : f ∈ k.buffers vc)
    (h : k.Candidate net vc) (hord : net.isVNetOrdered (vc / net.vcsPerVnet) = true)
    (hw : w / net.vcsPerVnet = vc / net.vcsPerVnet) (hg : g ∈ k.buffers w) : f.time ≤ g.time := by
  obtain ⟨_, hftime, _⟩ := (hk.vcs vc).mem hf
  obtain ⟨hbuf, hgtime, _, hpast, _⟩ := (hk.vcs w).mem hg
  have hready : isReady (k.buffers w) k.curCycle = true := isReady_iff.mpr ⟨g, [], hbuf, hpast⟩
  rw [← hftime, ← hgtime]
  exact h hord w hw hready

theorem Ok.create {f : Flit} (hidle : (k.outVcs f.vc).vcState = .idle)
    (hvnet : f.vc / net.vcsPerVnet = net.injectionVnet f.vnet) (htime : f.time = k.curCycle) :
    Ok net { k with
      outVcs := update k.outVcs f.vc ((k.outVcs f.vc).setState .active k.curCycle)
      buffers := update k.buffers f.vc (bufferInsert f (k.buffers f.vc))
      times := update k.times f.vc k.curCycle } := by
  obtain ⟨hnil, hcredit⟩ := (hk.vcs f.vc).eq_nil hidle
  refine ⟨fun vc => ?_, hk.past, fun g hg hord w hw g' hg' => ?_, hk.sorted⟩
  · by_cases hvc : vc = f.vc
    · subst hvc
      simp only [update_self, hnil]
      have hwaits : VcPhase net k.curCycle f.vc ((k.outVcs f.vc).setState .active k.curCycle) [f]
          f.time := .waiting rfl hcredit rfl hvnet htime.le
      rwa [htime] at hwaits
    · simp only [update_of_ne hvc]
      exact hk.vcs vc
  · by_cases hvc : w = f.vc
    · -- the new flit is made now, and everything that was sent was made before
      subst hvc
      simp only [update_self, hnil, mem_bufferInsert, not_mem_nil, or_false] at hg'
      rw [hg', htime]
      exact (hk.past g hg).1
    · simp only [update_of_ne hvc] at hg'
      exact hk.before g hg hord w hw g' hg'

theorem Ok.send {f : Flit} {rest : List Flit} (hbuf : k.buffers vc = f :: rest)
    (hcand : k.Candidate net vc) : Ok net { k with
      outVcs := update k.outVcs vc { k.outVcs vc with creditCount := (k.outVcs vc).creditCount - 1 }
      buffers := update k.buffers vc rest
      times := update k.times vc time
      sent := k.sent ++ [f] } := by
  have hf : f ∈ k.buffers vc := hbuf ▸ mem_cons_self
  obtain ⟨hsingle, _, hfvc, hpast, hvnet⟩ := (hk.vcs vc).mem hf
  obtain rfl : rest = [] := (cons.inj (hbuf.symm.trans hsingle)).2
  have hleft {w : Nat} {g : Flit} (hg : g ∈ update k.buffers vc [] w) : g ∈ k.buffers w := by
    rw [update_apply] at hg
    split at hg
    · cases hg
    · exact hg
  refine ⟨fun w => ?_, ?_, ?_, ?_⟩
  · by_cases hw : w = vc
    · subst hw
      simp only [update_self]
      exact (hk.vcs w).taken hf
    · simp only [update_of_ne hw]
      exact hk.vcs w
  · refine forall_mem_append.mpr ⟨hk.past, forall_mem_singleton.mpr ⟨hpast, ?_⟩⟩
    rw [hfvc]
    exact hvnet
  · refine forall_mem_append.mpr ⟨fun g hg hord w hw g' hg' => ?_,
      forall_mem_singleton.mpr fun hord w hw g hg => ?_⟩
    · exact hk.before g hg hord w hw g' (hleft hg')
    · exact hk.candidate hf hcand (hfvc ▸ hord) (hfvc ▸ hw) (hleft hg)
  · refine pairwise_append.mpr ⟨hk.sorted, pairwise_singleton _ _, fun g hg f' hf' => ?_⟩
    obtain rfl := mem_singleton.mp hf'
    exact fun hvc hord => hk.before g hg hord vc (hfvc ▸ hvc.symm) f' hf

theorem Ok.credit (isFree : Bool)
    (hcredit : (k.outVcs vc).creditCount + 1 ≤ (k.outVcs vc).maxCreditCount) :
    Ok net { k with
      outVcs := update k.outVcs vc (credited isFree k.curCycle (k.outVcs vc)) } := by
  refine ⟨fun w => ?_, hk.past, hk.before, hk.sorted⟩
  by_cases hw : w = vc
  · subst hw
    simp only [update_self]
    exact (hk.vcs w).credited hcredit isFree
  · simp only [update_of_ne hw]
    exact hk.vcs w

theorem Ok.move (h : Move net k k') : Ok net k' := by
  cases h with
  | tick =>
    refine ⟨fun vc => (hk.vcs vc).tick, fun f hf => ?_, hk.before, hk.sorted⟩
    obtain ⟨htime, hvnet⟩ := hk.past f hf
    exact ⟨Nat.le_succ_of_le htime, hvnet⟩
  | create hidle hvnet htime => exact hk.create hidle hvnet htime
  | send hbuf hcand => exact hk.send hbuf hcand
  | credit isFree hcredit => exact hk.credit isFree hcredit

theorem Ok.moves (h : Relation.ReflTransGen (Move net) k k') : Ok net k' := by
  induction h with
  | refl => exact hk
  | tail _ hmove ih => exact ih.move hmove

end

end Moves

end Injection

section Wakeup

variable {net : Net} {n vnet : Nat} {s s' : State}

def State.injection (s : State) (sent : List Flit) (n : Nat) : Injection where
  curCycle := s.curCycle
  outVcs := s.outvcState (.extIn n)
  buffers := s.niOutVcs n
  times := s.niOutVcsEnqueueTime n
  sent := sent

structure Injects (net : Net) (n : Nat) (s s' : State) : Prop where
  moves : ∀ sent, Relation.ReflTransGen (Injection.Move net) (s.injection sent n)
    (s'.injection sent n)
  others : ∀ m ≠ n, ∀ sent, s'.injection sent m = s.injection sent m

section Set

variable {vc time : Nat} {o : OutVcState} {b : List Flit} (hcur : s'.curCycle = s.curCycle)
  (hout : s'.outvcState = setEntry s.outvcState (.extIn n) vc o)
  (hbuf : s'.niOutVcs = setEntry s.niOutVcs n vc b)
  (htime : s'.niOutVcsEnqueueTime = setEntry s.niOutVcsEnqueueTime n vc time)
include hcur hout hbuf htime

theorem State.injection_self (sent : List Flit) :
    s'.injection sent n = { s.injection sent n with
      outVcs := update (s.outvcState (.extIn n)) vc o
      buffers := update (s.niOutVcs n) vc b
      times := update (s.niOutVcsEnqueueTime n) vc time } := by
  unfold injection
  rw [hcur, hout, hbuf, htime, setEntry_row, setEntry_row, setEntry_row]

theorem State.injection_of_ne (m : Nat) (hm : m ≠ n) (sent : List Flit) :
    s'.injection sent m = s.injection sent m := by
  have hlink : Link.extIn m ≠ .extIn n := fun h => hm (Link.extIn.inj h)
  unfold injection
  rw [hcur, hout, hbuf, htime, setEntry_row_of_ne _ hlink, setEntry_row_of_ne _ hm,
    setEntry_row_of_ne _ hm]

theorem Injects.step (hmove : ∀ sent, Injection.Move net (s.injection sent n)
    { s.injection sent n with
      outVcs := update (s.outvcState (.extIn n)) vc o
      buffers := update (s.niOutVcs n) vc b
      times := update (s.niOutVcsEnqueueTime n) vc time }) : Injects net n s s' := by
  refine ⟨fun sent => ?_, injection_of_ne hcur hout hbuf htime⟩
  rw [injection_self hcur hout hbuf htime]
  exact .single (hmove sent)

end Set

theorem Injects.of_eq (h : ∀ m sent, s'.injection sent m = s.injection sent m) :
    Injects net n s s' :=
  ⟨fun sent => h n sent ▸ .refl, fun m _ => h m⟩

theorem Injects.trans {s'' : State} (h : Injects net n s s') (h' : Injects net n s' s'') :
    Injects net n s s'' :=
  ⟨fun sent => (h.moves sent).trans (h'.moves sent),
    fun m hm sent => (h'.others m hm sent).trans (h.others m hm sent)⟩

theorem Injects.step_outVc {vc : Nat} {o : OutVcState} (hcur : s'.curCycle = s.curCycle)
    (hout : s'.outvcState = setEntry s.outvcState (.extIn n) vc o) (hbuf : s'.niOutVcs = s.niOutVcs)
    (htime : s'.niOutVcsEnqueueTime = s.niOutVcsEnqueueTime)
    (hmove : ∀ sent, Injection.Move net (s.injection sent n) { s.injection sent n with
      outVcs := update (s.outvcState (.extIn n)) vc o }) : Injects net n s s' := by
  refine .step hcur hout (hbuf.trans (setEntry_eq_self _ n vc).symm)
    (htime.trans (setEntry_eq_self _ n vc).symm) fun sent => ?_
  rw [update_eq_self, update_eq_self]
  exact hmove sent

section Create

def AllocatorOk (net : Net) (s : State) : Prop := ∀ n vnet, s.vcAllocator n vnet < net.vcsPerVnet

/-- `calculateVC` moves its own pointer and counter, and finds an idle VC or none. -/
structure Chosen (net : Net) (n vnet : Nat) (s : State) (t : Option Nat × State) : Prop where
  frame : t.2 = { s with vcAllocator := t.2.vcAllocator, vcBusyCounter := t.2.vcBusyCounter }
  allocator : AllocatorOk net t.2
  idle : ∀ vc, t.1 = some vc →
    vc / net.vcsPerVnet = vnet ∧ (s.outvcState (.extIn n) vc).vcState = .idle

section

variable (hs : AllocatorOk net s)
include hs

theorem calculateVCrr_chosen (k : Nat) :
    Chosen net n vnet s (calculateVCrr net n vnet k s) := by
  induction k generalizing s with
  | zero => exact ⟨rfl, hs, nofun⟩
  | succ k ih =>
    have hdelta := hs n vnet
    have hlt : (if s.vcAllocator n vnet + 1 = net.vcsPerVnet then 0
        else s.vcAllocator n vnet + 1) < net.vcsPerVnet := by
      split <;> omega
    unfold calculateVCrr
    dsimp only
    generalize (if s.vcAllocator n vnet + 1 = net.vcsPerVnet then 0
      else s.vcAllocator n vnet + 1) = next at hlt ⊢
    have hnext : AllocatorOk net { s with vcAllocator := setEntry s.vcAllocator n vnet next } :=
      forall_setEntry (P := fun _ _ (x : Nat) => x < net.vcsPerVnet) hs hlt
    split
    · next hidle =>
      refine ⟨rfl, hnext, fun vc hvc => ?_⟩
      cases hvc
      exact ⟨Net.vc_div hdelta, Core.idle_of_isVcIdle hidle⟩
    · have hrest := ih hnext
      exact ⟨hrest.frame, hrest.allocator, hrest.idle⟩

theorem calculateVC_chosen :
    Holds (s.calculateVC net n vnet) (Chosen net n vnet s) fun _ => True := by
  unfold calculateVC
  cases net.niInj with
  | rr =>
    have hrr : Chosen net n vnet s _ := calculateVCrr_chosen hs net.vcsPerVnet
    refine ⟨?_, hrr.allocator, hrr.idle⟩
    unfold countBusy
    dsimp only
    rw [hrr.frame]
  | fcfs =>
    refine ⟨rfl, hs, fun vc hvc => ?_⟩
    obtain ⟨⟨j, hj, rfl⟩, hidle⟩ := selectFreeVc_spec hvc
    exact ⟨Net.vc_div hj, Core.idle_of_isVcIdle hidle⟩
  | other => trivial

theorem flitisizeMessage_injects (dests : List Nat) :
    Holds (s.flitisizeMessage net n vnet dests)
      (fun t => Injects net n s t.2 ∧ AllocatorOk net t.2) fun _ => True := by
  induction dests generalizing s with
  | nil => exact ⟨.of_eq fun _ _ => rfl, hs⟩
  | cons dest dests ih =>
    unfold flitisizeMessage
    refine .require ⟨fun _ => ?_, fun _ => trivial⟩
    rw [holds_bind]
    refine (calculateVC_chosen hs).imp ?_
    rintro ⟨vc, s₁⟩ ⟨hframe, hs₁, hidle⟩
    have heq (m : Nat) (sent : List Flit) : s₁.injection sent m = s.injection sent m := by
      dsimp only at hframe
      rw [hframe]
      rfl
    cases vc with
    | none => exact ⟨.of_eq heq, hs₁⟩
    | some vc =>
      dsimp only
      obtain ⟨hvnet, hidle⟩ := hidle vc rfl
      refine (ih (s := { s₁.on (createFlit net n vnet dest vc) with
        niOutVcsEnqueueTime := setEntry s₁.niOutVcsEnqueueTime n vc s₁.curCycle }) hs₁).imp ?_
      rintro t ⟨hinjects, ht⟩
      refine ⟨((Injects.of_eq heq).trans ?_).trans hinjects, ht⟩
      have hidle₁ : (s₁.outvcState (.extIn n) vc).vcState = .idle :=
        (congrArg (fun s : State => (s.outvcState (.extIn n) vc).vcState) hframe).trans hidle
      refine .step rfl rfl rfl rfl fun sent => ?_
      exact .create (f := newFlit s₁.nextPtr 0 vc vnet (messageRoute net n vnet dest) 1
        s₁.curCycle) hidle₁ hvnet rfl

theorem injectVnet_injects :
    Holds (s.injectVnet net n vnet) (fun s' => Injects net n s s' ∧ AllocatorOk net s')
      fun _ => True := by
  unfold injectVnet
  cases s.inNode n vnet with
  | nil => exact ⟨.of_eq fun _ _ => rfl, hs⟩
  | cons m ms =>
    dsimp only
    rw [holds_ite]
    refine ⟨fun _ => ?_, fun _ => ⟨.of_eq fun _ _ => rfl, hs⟩⟩
    rw [holds_bind]
    exact (flitisizeMessage_injects hs m.dests).imp fun t ht =>
      ⟨ht.1.trans (.of_eq fun _ _ => rfl), ht.2⟩

theorem injectVnets_injects :
    Holds ((range net.virtualNetworks).foldlM (injectVnet net n) s)
      (fun s' => Injects net n s s') fun _ => True := by
  refine (holds_foldlM (fun t : State => Injects net n s t ∧ AllocatorOk net t) _
    ⟨.of_eq fun _ _ => rfl, hs⟩ fun vnet _ t ht => ?_).imp fun _ ht => ht.1
  exact (injectVnet_injects ht.2).imp fun _ ht' => ⟨ht.1.trans ht'.1, ht'.2⟩

end

end Create

section Send

/-- `scheduleOutputLink` sends nothing, or the first flit of a candidate. -/
inductive Departs (net : Net) (n : Nat) (s s' : State) : Prop
  | none : (∀ m sent, s'.injection sent m = s.injection sent m) → Departs net n s s'
  | flit {vc time : Nat} {f : Flit} {rest : List Flit} : vc < net.numVcs →
      s.niOutVcs n vc = f :: rest → (∀ sent, (s.injection sent n).Candidate net vc) →
      s'.curCycle = s.curCycle →
      s'.outvcState = setEntry s.outvcState (.extIn n) vc { s.outvcState (.extIn n) vc with
        creditCount := (s.outvcState (.extIn n) vc).creditCount - 1 } →
      s'.niOutVcs = setEntry s.niOutVcs n vc rest →
      s'.niOutVcsEnqueueTime = setEntry s.niOutVcsEnqueueTime n vc time → Departs net n s s'

theorem niGetVnet_spec (vc : Nat) : Holds (niGetVnet net vc)
    (fun vnet => vc < net.numVcs ∧ vc / net.vcsPerVnet = vnet) fun _ => True := by
  unfold niGetVnet
  cases hfind : (range net.virtualNetworks).find? fun i =>
    i * net.vcsPerVnet ≤ vc && vc < (i + 1) * net.vcsPerVnet with
  | none => trivial
  | some i =>
    have hi := mem_range.mp (mem_of_find?_eq_some hfind)
    have hrange := find?_some hfind
    simp only [Bool.and_eq_true, decide_eq_true_eq] at hrange
    refine ⟨hrange.2.trans_le (Nat.mul_le_mul_right _ hi), ?_⟩
    exact Nat.div_eq_of_lt_le hrange.1 hrange.2

theorem candidate_of_isCandidateVc {vc : Nat} (sent : List Flit)
    (h : isCandidateVc net n vc (vc / net.vcsPerVnet) s = true) :
    (s.injection sent n).Candidate net vc := by
  intro hord w hw hready
  have hsplit : vc / net.vcsPerVnet * net.vcsPerVnet + w % net.vcsPerVnet = w := by
    rw [← hw, mul_comm]
    exact Nat.div_add_mod w net.vcsPerVnet
  have hlt : w % net.vcsPerVnet < net.vcsPerVnet := Nat.mod_lt _ net.vcsPerVnet_pos
  unfold isCandidateVc at h
  simp only [hord, Bool.not_true, Bool.false_or, all_eq_true, mem_range] at h
  have hnot := h _ hlt
  rw [hsplit] at hnot
  change isReady (s.niOutVcs n w) s.curCycle = true at hready
  simp only [hready, Bool.true_and, Bool.not_eq_true', decide_eq_false_iff_not, not_lt] at hnot
  exact hnot

theorem sendFlit_sends {vc : Nat} (hvc : vc < net.numVcs)
    (hcand : ∀ sent, (s.injection sent n).Candidate net vc) :
    Holds (s.sendFlit n vc) (Departs net n s) fun _ => True := by
  unfold sendFlit OutVcState.decrementCredit
  rw [holds_bind]
  refine .require ⟨fun _ => ?_, fun _ => trivial⟩
  rw [holds_pure, holds_bind]
  cases hbuf : s.niOutVcs n vc with
  | nil => trivial
  | cons f rest =>
    simp only [getTopFlit, holds_ok]
    rw [holds_ite]
    refine ⟨fun _ => .flit hvc hbuf hcand rfl rfl rfl rfl, fun _ => ?_⟩
    exact .flit hvc hbuf hcand rfl rfl rfl (setEntry_eq_self _ _ _).symm

theorem scheduleOutputLink_sends :
    Holds (s.scheduleOutputLink net n) (Departs net n s) fun _ => True := by
  have hloop (t : State) (k vc : Nat) :
      Holds (t.sendFrom net n k vc) (Departs net n t) fun _ => True := by
    induction k generalizing vc with
    | zero => exact .none fun _ _ => rfl
    | succ k ih =>
      unfold sendFrom
      dsimp only
      rw [holds_ite]
      refine ⟨fun _ => ?_, fun _ => ih _⟩
      rw [holds_bind]
      refine (niGetVnet_spec _).imp ?_
      rintro vnet ⟨hvc, rfl⟩
      rw [holds_ite]
      exact ⟨fun hcand => sendFlit_sends hvc fun sent => candidate_of_isCandidateVc sent hcand,
        fun _ => ih _⟩
  refine (hloop _ _ _).imp fun s' h => ?_
  cases h with
  | none heq => exact .none heq
  | flit hvc hbuf hcand hcur hout hniOut htime => exact .flit hvc hbuf hcand hcur hout hniOut htime

end Send

section Credit

def State.receive (net : Net) (n : Nat) (slots : Nat → Bool) (s : State) : Except Failure State := do
  let (enqueued, s) := (s.checkReschedule net n).checkStallQueue n slots
  let s ← s.receiveFlit n slots enqueued
  s.receiveCredits n

theorem receiveFlit_injection {slots : Nat → Bool} {enqueued : Bool}
    {k : Nat → List Flit → Injection} (h : (fun m sent => s.injection sent m) = k) :
    Frames (s.receiveFlit n slots enqueued) (fun s' m sent => s'.injection sent m) k := by
  refine frames_ite (frames_bind fun top => frames_bind fun _ => ?_) h
  exact frames_ite h h

theorem receiveCredits_injects (net : Net) (n : Nat) (s : State) : Holds (s.receiveCredits n) (Injects net n s) fun _ => True := by
  have hcredit : Holds (s.receiveCredit (.extIn n)) (Injects net n s) fun _ => True := by
    unfold receiveCredit
    rw [holds_ite]
    refine ⟨fun _ => ?_, fun _ => .of_eq fun _ _ => rfl⟩
    rw [holds_bind]
    refine (holds_true _).imp ?_
    rintro ⟨x, rest⟩ _
    unfold OutVcState.incrementCredit
    rw [holds_bind]
    refine .require ⟨fun hcredit => ?_, fun _ => trivial⟩
    rw [holds_pure, holds_pure]
    exact .step_outVc rfl rfl rfl rfl fun sent => .credit x.isFreeSignal hcredit
  unfold receiveCredits
  rw [holds_bind]
  refine hcredit.imp fun s' hs' => ?_
  rw [holds_ite]
  exact ⟨fun _ => hs', fun _ => hs'.trans (.of_eq fun _ _ => rfl)⟩

theorem receive_injects (slots : Nat → Bool) :
    Holds (s.receive net n slots) (Injects net n s) fun _ => True := by
  have hstall : (fun m sent => ((s.checkReschedule net n).checkStallQueue n slots).2.injection sent m) =
      fun m sent => s.injection sent m := by
    unfold checkStallQueue checkReschedule
    split <;> split <;> rfl
  unfold receive
  rw [holds_bind]
  refine (receiveFlit_injection hstall).imp fun t ht =>
    (receiveCredits_injects net n t).imp fun t' ht' => ?_
  exact (Injects.of_eq fun m sent => congrFun₂ ht m sent).trans ht'

end Credit

end Wakeup

section Departures

variable {net : Net} {n : Nat} {s s' : State}

def departed (net : Net) (n : Nat) (s s' : State) : List Flit :=
  (range net.numVcs).flatMap fun vc => (s.niOutVcs n vc).filter fun f => f ∉ s'.niOutVcs n vc

theorem flatMap_range_single {α : Type*} {N i : Nat} {g : Nat → List α} (hi : i < N)
    (h : ∀ j ≠ i, g j = []) : (range N).flatMap g = g i := by
  induction N with
  | zero => omega
  | succ N ih =>
    rw [range_succ, flatMap_append, flatMap_singleton]
    rcases Nat.lt_succ_iff_lt_or_eq.mp hi with hlt | rfl
    · rw [ih hlt, h N (by omega), append_nil]
    · rw [flatMap_eq_nil_iff.mpr fun j hj => h j (mem_range.mp hj).ne, nil_append]

theorem Departs.moves (h : Departs net n s s') {sent : List Flit}
    (hk : (s.injection sent n).Ok net) : (departed net n s s').length ≤ 1 ∧
      Relation.ReflTransGen (Injection.Move net) (s.injection sent n)
        (s'.injection (sent ++ departed net n s s') n) ∧
      ∀ m ≠ n, ∀ sent, s'.injection sent m = s.injection sent m := by
  have hkept (l : List Flit) : (l.filter fun f => f ∉ l) = [] :=
    filter_eq_nil_iff.mpr fun f hf => by simpa using hf
  cases h with
  | none heq =>
    have hbuf : s'.niOutVcs n = s.niOutVcs n := congrArg Injection.buffers (heq n [])
    have hnone : departed net n s s' = [] := by
      refine flatMap_eq_nil_iff.mpr fun vc _ => ?_
      rw [hbuf]
      exact hkept _
    rw [hnone, append_nil, heq]
    exact ⟨Nat.zero_le _, .refl, fun m _ => heq m⟩
  | @flit vc time f rest hvc hbuf hcand hcur hout hniOut htime =>
    have hsingle : s.niOutVcs n vc = [f] := ((hk.vcs vc).mem (hbuf ▸ mem_cons_self :)).1
    obtain rfl : rest = [] := (cons.inj (hbuf.symm.trans hsingle)).2
    have hone : departed net n s s' = [f] := by
      refine (flatMap_range_single hvc fun w hw => ?_).trans ?_
      · rw [hniOut, setEntry_of_ne _ _ fun h => hw h.2]
        exact hkept _
      · rw [hniOut, setEntry_self, hsingle]
        simp
    rw [hone, injection_self hcur hout hniOut htime]
    exact ⟨le_rfl, .single (.send hbuf (hcand sent)), injection_of_ne hcur hout hniOut htime⟩

end Departures

/-- A run of the network with the flits that have left each interface, in order. -/
structure Sending where
  state : State
  sent : Nat → List Flit

namespace Sending

variable (net : Net)

def init (random : Nat → Nat) : Sending := ⟨State.init net random, fun _ => []⟩

def wakeup (n : Nat) (slots : Nat → Bool) (t : Sending) : Except Failure Sending := do
  let s ← (range net.virtualNetworks).foldlM (injectVnet net n) t.state
  let s' ← s.scheduleOutputLink net n
  let u ← s'.receive net n slots
  pure ⟨u, update t.sent n (t.sent n ++ departed net n s s')⟩

def perform (t : Sending) : Action → Except Failure Sending
  | .ni n slots => { t with state := t.state.on (popEvent (.ni n)) }.wakeup net n slots
  | a => do
    let s ← t.state.perform net a
    pure { t with state := s }

def FreeStep (t t' : Sending) : Prop := ∃ a, t.state.valid net a ∧ t.perform net a = .ok t'

def Step (t t' : Sending) : Prop :=
  ∃ a, t.state.valid net a ∧ t.state.scheduled net a ∧ t.perform net a = .ok t'

def FreeReachable (t : Sending) : Prop :=
  ∃ random, Relation.ReflTransGen (FreeStep net) (init net random) t

def Reachable (t : Sending) : Prop := ∃ random, Relation.ReflTransGen (Step net) (init net random) t

section Runs

variable {net} {t t' : Sending} {a : Action}

theorem wakeup_state (n : Nat) (slots : Nat → Bool) (t : Sending) :
    (t.wakeup net n slots).map state = t.state.niWakeup net n slots := by
  have hsplit : t.state.niWakeup net n slots =
      (range net.virtualNetworks).foldlM (injectVnet net n) t.state >>= fun s =>
        s.scheduleOutputLink net n >>= receive net n slots := rfl
  rw [hsplit]
  unfold wakeup
  cases (range net.virtualNetworks).foldlM (injectVnet net n) t.state with
  | error e => rfl
  | ok s =>
    simp only [ok_bind]
    cases s.scheduleOutputLink net n with
    | error e => rfl
    | ok s' =>
      simp only [ok_bind]
      cases s'.receive net n slots with
      | error e => rfl
      | ok u => rfl

theorem perform_state (t : Sending) (a : Action) :
    (t.perform net a).map state = t.state.perform net a := by
  have hkeep (x : Except Failure State) :
      (x >>= fun s => pure { t with state := s } : Except Failure Sending).map state = x := by
    cases x <;> rfl
  cases a with
  | ni n slots => exact wakeup_state n slots { t with state := t.state.on (popEvent (.ni n)) }
  | _ => exact hkeep _

theorem FreeReachable.network (h : t.FreeReachable net) : t.state.FreeReachable net := by
  obtain ⟨random, hrun⟩ := h
  refine ⟨random, hrun.lift state fun t t' ⟨a, hvalid, hstep⟩ => ⟨a, hvalid, ?_⟩⟩
  rw [← perform_state, hstep]
  rfl

def Ok (net : Net) (t : Sending) : Prop := ∀ n, (t.state.injection (t.sent n) n).Ok net

def Grows (t t' : Sending) : Prop := ∀ n, ∃ l : List Flit, l.length ≤ 1 ∧ t'.sent n = t.sent n ++ l

theorem Grows.of_eq (h : t'.sent = t.sent) : t.Grows t' :=
  fun n => ⟨[], Nat.zero_le _, by rw [h, append_nil]⟩

theorem wakeup_ok {n : Nat} {slots : Nat → Bool} (hs : AllocatorOk net t.state) (ht : t.Ok net)
    (h : t.wakeup net n slots = .ok t') : t'.Ok net ∧ t.Grows t' := by
  obtain ⟨s, hcreate, h⟩ := bind_eq_ok.mp h
  obtain ⟨s', hsend, h⟩ := bind_eq_ok.mp h
  obtain ⟨u, hreceive, h⟩ := bind_eq_ok.mp h
  cases h
  have hcreates := (injectVnets_injects hs).of_ok hcreate
  have hreceives := (receive_injects slots).of_ok hreceive
  have hk : (s.injection (t.sent n) n).Ok net := (ht n).moves (hcreates.moves _)
  obtain ⟨hlength, hmoves, hothers⟩ := (scheduleOutputLink_sends.of_ok hsend).moves hk
  constructor
  · intro m
    by_cases hm : m = n
    · subst hm
      simp only [update_self]
      exact (hk.moves hmoves).moves (hreceives.moves _)
    · simp only [update_of_ne hm]
      rw [hreceives.others m hm, hothers m hm, hcreates.others m hm]
      exact ht m
  · intro m
    by_cases hm : m = n
    · subst hm
      exact ⟨_, hlength, update_self _ _ _⟩
    · exact ⟨[], Nat.zero_le _, by simp [update_of_ne hm]⟩

theorem perform_ok (hs : t.state.FreeReachable net) (hvalid : t.state.valid net a) (ht : t.Ok net)
    (h : t.perform net a = .ok t') : t'.Ok net ∧ t.Grows t' := by
  by_cases ha : ∃ n slots, a = .ni n slots
  · obtain ⟨n, slots, rfl⟩ := ha
    have hs' : AllocatorOk net (t.state.on (popEvent (.ni n))) := hs.wf.1.allocator
    exact wakeup_ok (t := { t with state := t.state.on (popEvent (.ni n)) }) hs' ht h
  · have ha' : ∀ n slots, a ≠ .ni n slots := fun n slots h => ha ⟨n, slots, h⟩
    have hperform : ∃ s, t.state.perform net a = .ok s ∧ t' = { t with state := s } := by
      cases a with
      | ni n slots => exact absurd rfl (ha' n slots)
      | _ =>
        obtain ⟨s, hs, h⟩ := bind_eq_ok.mp h
        cases h
        exact ⟨s, hs, rfl⟩
    obtain ⟨s, hstep, rfl⟩ := hperform
    refine ⟨fun n => ?_, .of_eq rfl⟩
    obtain ⟨hfields, hbuffers, hvcs⟩ := perform_frame hs hvalid hstep ha'
    have hcur := perform_curCycle hs hvalid hstep
    have htimes : s.niOutVcsEnqueueTime = t.state.niOutVcsEnqueueTime :=
      congrArg NiFields.niOutVcsEnqueueTime hfields
    have hniOut : s.niOutVcs = t.state.niOutVcs := congrArg Prod.fst hbuffers
    have houtVcs : s.outvcState (.extIn n) = t.state.outvcState (.extIn n) := congrFun hvcs n
    rcases hcur with hcur | hcur
    · have heq : s.injection (t.sent n) n = t.state.injection (t.sent n) n := by
        unfold injection
        rw [htimes, hniOut, houtVcs, hcur]
      exact heq ▸ ht n
    · have heq : s.injection (t.sent n) n = { t.state.injection (t.sent n) n with
          curCycle := t.state.curCycle + 1 } := by
        unfold injection
        rw [htimes, hniOut, houtVcs, hcur]
      exact heq ▸ (ht n).move .tick

theorem init_ok (net : Net) (random : Nat → Nat) : (init net random).Ok net := by
  intro n
  refine ⟨fun vc => .free rfl rfl, fun f hf => ?_, fun f hf => ?_, .nil⟩
  · exact absurd hf not_mem_nil
  · exact absurd hf not_mem_nil

theorem FreeReachable.ok (h : t.FreeReachable net) : t.Ok net := by
  obtain ⟨random, hrun⟩ := h
  induction hrun with
  | refl => exact init_ok net random
  | tail hrun hstep ih =>
    obtain ⟨a, hvalid, hstep⟩ := hstep
    exact (perform_ok (FreeReachable.network ⟨random, hrun⟩) hvalid ih hstep).1

/-- The flits of a virtual network leave an interface in the order of their creation if the
virtual network whose VCs they use is ordered. A VC has at most one flit, with its creation as
the enqueue time of the VC, and one flit leaves at a time. -/
theorem departures_ordered (h : t.FreeReachable net) (n : Nat) :
    (∀ vnet, net.isVNetOrdered (net.injectionVnet vnet) = true →
      ((t.sent n).filter (·.vnet = vnet)).Pairwise fun f g => f.time ≤ g.time) ∧
    (∀ vc, t.state.niOutVcs n vc = [] ∨ ∃ f, t.state.niOutVcs n vc = [f] ∧
      t.state.niOutVcsEnqueueTime n vc = f.time ∧ f.time ≤ t.state.curCycle) ∧
    ∀ a t', t.state.valid net a → t.perform net a = .ok t' →
      ∃ l : List Flit, l.length ≤ 1 ∧ t'.sent n = t.sent n ++ l := by
  have hok := h.ok n
  refine ⟨fun vnet hord => ?_, fun vc => ?_, fun a t' hvalid hstep => ?_⟩
  · refine pairwise_filter.mpr (hok.sorted.imp_of_mem fun {f g} hf hg hle hfv hgv => ?_)
    have hfvc := (hok.past f hf).2
    have hgvc := (hok.past g hg).2
    simp only [decide_eq_true_eq] at hfv hgv
    rw [hfv] at hfvc
    rw [hgv] at hgvc
    exact hle (hfvc.trans hgvc.symm) (hfvc ▸ hord)
  · cases hbuf : t.state.niOutVcs n vc with
    | nil => exact .inl rfl
    | cons f rest =>
      obtain ⟨hsingle, htime, _, hpast, _⟩ := (hok.vcs vc).mem (hbuf ▸ mem_cons_self :)
      exact .inr ⟨f, hbuf.symm.trans hsingle, htime, hpast⟩
  · exact (perform_ok h.network hvalid h.ok hstep).2 n

def next (net : Net) (t : Sending) (a : Action) : Option Sending :=
  if t.state.valid net a ∧ t.state.scheduled net a then (t.perform net a).toOption else none

theorem Reachable.next (ht : t.Reachable net) (h : t.next net a = some t') : t'.Reachable net := by
  obtain ⟨random, hrun⟩ := ht
  unfold Sending.next at h
  split at h
  · next hok =>
    cases hstep : t.perform net a with
    | error e =>
      rw [hstep] at h
      cases h
    | ok t₁ =>
      rw [hstep] at h
      cases h
      exact ⟨random, hrun.tail ⟨a, hok.1, hok.2, hstep⟩⟩
  · cases h

theorem Reachable.run {actions : List Action} (ht : t.Reachable net)
    (h : actions.foldlM (Sending.next net) t = some t') : t'.Reachable net := by
  induction actions generalizing t with
  | nil =>
    cases h
    exact ht
  | cons a actions ih =>
    rw [foldlM_cons] at h
    obtain ⟨t₁, hnext, h⟩ := Option.bind_eq_some_iff.mp h
    exact ih (ht.next hnext) h

theorem exists_reachable {P : Sending → Prop} [DecidablePred P] (actions : List Action)
    (random : Nat → Nat)
    (h : ((actions.foldlM (Sending.next net) (init net random)).map fun t => decide (P t)) = some true) :
    ∃ t : Sending, t.Reachable net ∧ P t := by
  obtain ⟨t, ht, heq⟩ := Option.map_eq_some_iff.mp h
  exact ⟨t, Reachable.run ⟨random, .refl⟩ ht, of_decide_eq_true heq⟩

theorem Reachable.free (h : t.Reachable net) : t.FreeReachable net := by
  obtain ⟨random, hrun⟩ := h
  exact ⟨random, Relation.ReflTransGen.mono
    (fun _ _ ⟨a, hvalid, _, hstep⟩ => ⟨a, hvalid, hstep⟩) _ _ hrun⟩

end Runs

def threeVcNet (injSingleVnet : Int) : Net :=
  { pairNet 1 100 Nat.one_pos with
    vcsPerVnet := 3
    vcsPerVnet_pos := by decide
    isVNetOrdered := (· = 1)
    injSingleVnet := injSingleVnet }

/-- A message with two destinations becomes two flits in cycle 1, another one a flit in cycle 2. -/
def departureActions : List Action :=
  [.message 0 1 ⟨[0, 1], 1⟩, .message 0 1 ⟨[1], 2⟩, .tick, .ni 0 fun _ => true, .tick,
    .ni 0 fun _ => true, .link (.extIn 0), .tick, .ni 0 fun _ => true]

theorem departures_ordered_threeVcNet : ∃ t : Sending, t.FreeReachable (threeVcNet 0) ∧
    (t.sent 0).map (fun f => (f.vnet, f.time)) = [(1, 1), (1, 1), (1, 2)] ∧
    ((t.sent 0).filter (·.vnet = 1)).Pairwise fun f g => f.time ≤ g.time := by
  have hrun : ∃ t : Sending, t.Reachable (threeVcNet 0) ∧
      (t.sent 0).map (fun f => (f.vnet, f.time)) = [(1, 1), (1, 1), (1, 2)] :=
    exists_reachable departureActions (fun _ => 0) (by decide +kernel)
  obtain ⟨t, hreach, hsent⟩ := hrun
  exact ⟨t, hreach.free, hsent, (departures_ordered hreach.free 0).1 1 (by decide)⟩

/-- With one set of VCs for all, the order is that of virtual network 0: the flit of cycle 2
leaves before one of cycle 1. -/
theorem departures_unordered_threeVcNet : ∃ t : Sending, t.Reachable (threeVcNet 1) ∧
    (threeVcNet 1).isVNetOrdered 1 = true ∧
    ¬((t.sent 0).filter (·.vnet = 1)).Pairwise fun f g => f.time ≤ g.time :=
  exists_reachable departureActions (fun _ => 0) (by decide +kernel)

end Sending

end Drain
