import Drain.Conservation
import Drain.NetworkStats

/-! Marked flits in a run of the network. `flitisizeMessage` marks a flit as long as the quota of its
router lasts, and the simulation ends when all marked flits have been received. -/

namespace Drain

open Function List

/-- The network with its statistics. `marked` tells which flits are marked, by their pointers, and
`pending` has the deliveries of the last wakeup for which `incrementStats` is still to be called. -/
structure Marking where
  state : State
  stats : GarnetStats
  marked : Nat → Bool
  pending : List Delivery

/-- A wakeup, or a call of `incrementStats`. Of the flits of a wakeup `vnets` has the virtual networks,
and of a received flit `times` has the enqueue time, the dequeue time and the delay at the source. -/
inductive MarkingStep where
  | act (vnets : Nat → Nat) (a : Action)
  | record (times : Nat × Nat × Nat)

def Action.quotaRouter (net : Net) : Action → Nat
  | .ni n _ => net.extRouter n
  | _ => 0

def Delivery.receivedFlit (d : Delivery) (marked : Bool) (times : Nat × Nat × Nat) :
    ReceivedFlit where
  vnet := d.flit.vnet
  marked := marked
  type := d.flit.type
  enqueueTime := times.1
  dequeueTime := times.2.1
  srcDelay := times.2.2
  hopsTraversed := d.flit.route.hopsTraversed

namespace Marking

def injectFlits (curCycle router : Nat) (vnets : Nat → Nat) (ptrs : List Nat)
    (x : GarnetStats × (Nat → Bool)) : Except Failure (GarnetStats × (Nat → Bool)) :=
  ptrs.foldlM (fun x ptr => do
    let (marked, stats) ← x.1.injectFlit curCycle router (vnets ptr)
    pure (stats, update x.2 ptr marked)) x

def perform (net : Net) (m : Marking) : MarkingStep → Except Failure Marking
  | .act vnets a => do
    let s ← m.state.perform net a
    let ptrs := range' m.state.nextPtr (s.nextPtr - m.state.nextPtr)
    let (stats, marked) ←
      injectFlits m.state.curCycle (a.quotaRouter net) vnets ptrs (m.stats, m.marked)
    let new := s.delivered.take (s.delivered.length - m.state.delivered.length)
    pure ⟨s, stats, marked, new.reverse⟩
  | .record times =>
    match m.pending with
    | [] => pure m
    | d :: pending => do
      let f := d.receivedFlit (m.marked d.flit.ptr) times
      let stats ← m.stats.incrementStats m.state.curCycle f
      pure { m with stats, pending }

def enabled (net : Net) (m : Marking) : MarkingStep → Prop
  | .act _ a => m.pending = [] ∧ m.state.valid net a
  | .record _ => m.pending ≠ []

instance (net : Net) (m : Marking) (x : MarkingStep) : Decidable (m.enabled net x) :=
  match x with
  | .act _ a => inferInstanceAs (Decidable (m.pending = [] ∧ m.state.valid net a))
  | .record _ => inferInstanceAs (Decidable (m.pending ≠ []))

def init (net : Net) (random : Nat → Nat) (warmupCycles : Nat) (quotas : List Int) : Marking where
  state := .init net random
  stats := .init 2 warmupCycles quotas
  marked := fun _ => false
  pending := []

def Step (net : Net) (m m' : Marking) : Prop := ∃ x, m.enabled net x ∧ m.perform net x = .ok m'

def Reachable (net : Net) (warmupCycles : Nat) (quotas : List Int) (m : Marking) : Prop :=
  ∃ random, Relation.ReflTransGen (Step net) (init net random warmupCycles quotas) m

end Marking

section Delivered

variable {net : Net} {s s' : State} {a : Action}

theorem delivered_stepInv (net : Net) (ds : List Delivery) :
    StepInv net fun c => ∃ new, c.delivered = new ++ ds where
  data := by
    rintro c t ⟨new, h⟩ hsame
    exact ⟨new, (congrArg Core.delivered hsame :).trans h⟩
  move := by
    rintro op c t _ ⟨new, h⟩ hmove
    cases hmove with
    | receive => split <;> exact ⟨new, h⟩
    | deliver => exact ⟨_ :: new, congrArg (_ :: ·) h⟩
    | unstall => exact ⟨_ :: new, congrArg (_ :: ·) h⟩
    | _ => exact ⟨new, h⟩
  spin := by
    rintro vc c t _ _ ⟨new, h⟩ hspin
    exact ⟨new, (congrArg Core.delivered hspin.frame :).trans h⟩
  stamp := by
    rintro c _ ⟨new, h⟩
    exact ⟨new, (congrArg Core.delivered (flitTimesSet_stamped c).frame :).trans h⟩

theorem perform_delivered (hs : s.FreeReachable net) (ha : s.valid net a)
    (h : s.perform net a = .ok s') :
    (∃ new, s'.delivered = new ++ s.delivered) ∧ s.nextPtr ≤ s'.nextPtr := by
  have hperformed := (perform_spec hs.wf.1 hs.wf.2 ha).of_ok h
  obtain ⟨made, hmade⟩ := (conserves_stepInv s.toCore).performed hs.wf.1
    ⟨[], .of_eq rfl fun _ => rfl⟩ hperformed
  refine ⟨(delivered_stepInv net s.delivered).performed hs.wf.1 ⟨[], rfl⟩ hperformed, ?_⟩
  have hptr := hmade.nextPtr
  omega

theorem delivered_ptrs (h : s.FreeReachable net) :
    (s.delivered.map fun d => d.flit.ptr).Nodup ∧ ∀ d ∈ s.delivered, d.flit.ptr < s.nextPtr := by
  have hplace : ∀ x ∈ [Place.delivered], x ∈ net.places :=
    forall_mem_singleton.mpr Net.delivered_mem_places
  obtain ⟨hnodup, hlt⟩ := h.ptrs_nodup (nodup_singleton _) hplace
  rw [flatMap_singleton] at hnodup hlt
  change ((s.delivered.map Delivery.flit).map Flit.ptr).Nodup at hnodup
  rw [map_map] at hnodup
  exact ⟨hnodup, fun d hd => hlt d.flit (mem_map_of_mem hd)⟩

theorem countP_delivered_le (h : s.FreeReachable net) (marked : Nat → Bool) :
    s.delivered.countP (fun d => marked d.flit.ptr) ≤ (range s.nextPtr).countP marked := by
  obtain ⟨hnodup, hlt⟩ := delivered_ptrs h
  have hsub : (s.delivered.map fun d => d.flit.ptr).Subperm (range s.nextPtr) := by
    refine hnodup.subperm fun p hp => ?_
    obtain ⟨d, hd, rfl⟩ := mem_map.mp hp
    exact mem_range.mpr (hlt d hd)
  have hle := hsub.countP_le marked
  rwa [countP_map] at hle

end Delivered

section Injection

variable {s s' : GarnetStats} {x y : GarnetStats × (Nat → Bool)} {curCycle router vnet ptr n : Nat}
  {marked : Bool} {vnets : Nat → Nat}

theorem sum_modify_pred (l : List Int) {i : Nat} (hi : i < l.length) :
    (l.modify i (· - 1)).sum = l.sum - 1 := by
  induction l generalizing i with
  | nil => cases hi
  | cons q l ih =>
    cases i with
    | zero =>
      simp only [modify_zero_cons, sum_cons]
      omega
    | succ i =>
      simp only [modify_succ_cons, sum_cons]
      rw [ih (Nat.lt_of_succ_lt_succ hi)]
      omega

/-- The quotas that are left and the marked flits that have been made stay the same together. -/
structure Injected (s s' : GarnetStats) : Prop where
  quota : (s'.markedFltInjected : Int) + s'.mrkdFlt.sum = s.markedFltInjected + s.mrkdFlt.sum
  nonneg : (∀ q ∈ s.mrkdFlt, 0 ≤ q) → ∀ q ∈ s'.mrkdFlt, 0 ≤ q
  received : s'.markedFltReceived = s.markedFltReceived
  exits : s'.exits = s.exits

theorem marksNext_pos (h : s.marksNext curCycle router = .ok true) :
    ∃ q, s.mrkdFlt[router]? = some q ∧ 0 < q := by
  unfold GarnetStats.marksNext at h
  split at h
  · split at h
    · next q hq =>
      refine ⟨q, hq, ?_⟩
      simpa [pure, Except.pure] using h
    · cases h
  · cases h

theorem injectFlit_injected (h : s.injectFlit curCycle router vnet = .ok (marked, s')) :
    Injected s s' ∧ s'.markedFltInjected = s.markedFltInjected + marked.toNat := by
  obtain ⟨b, hb, h⟩ := bind_eq_ok.mp h
  cases h
  cases marked with
  | false => exact ⟨⟨rfl, fun hq => hq, rfl, rfl⟩, rfl⟩
  | true =>
    obtain ⟨q, hq, hpos⟩ := marksNext_pos hb
    obtain ⟨hi, hget⟩ := List.getElem?_eq_some_iff.mp hq
    refine ⟨⟨?_, fun hnonneg => ?_, rfl, rfl⟩, rfl⟩
    · change ((s.markedFltInjected + 1 : Nat) : Int) + (s.mrkdFlt.modify router (· - 1)).sum = _
      rw [sum_modify_pred _ hi]
      omega
    · change ∀ q ∈ s.mrkdFlt.modify router (· - 1), 0 ≤ q
      intro q' hq'
      obtain ⟨j, hj⟩ := mem_iff_getElem?.mp hq'
      rw [getElem?_modify] at hj
      obtain ⟨a, ha, rfl⟩ := Option.map_eq_some_iff.mp hj
      split
      · next heq =>
        cases hq.symm.trans (heq ▸ ha)
        omega
      · exact hnonneg a (mem_of_getElem? ha)

theorem injectFlits_injected
    (h : Marking.injectFlits curCycle router vnets (range' ptr n) x = .ok y)
    (hx : x.1.markedFltInjected = (range ptr).countP x.2) :
    Injected x.1 y.1 ∧ y.1.markedFltInjected = (range (ptr + n)).countP y.2 ∧
      ∀ i < ptr, y.2 i = x.2 i := by
  induction n generalizing ptr x with
  | zero =>
    cases h
    exact ⟨⟨rfl, fun hq => hq, rfl, rfl⟩, hx, fun _ _ => rfl⟩
  | succ n ih =>
    unfold Marking.injectFlits at h
    rw [range'_succ, foldlM_cons] at h
    obtain ⟨x₁, hx₁, h⟩ := bind_eq_ok.mp h
    obtain ⟨⟨b, s₁⟩, hinject, hx₁⟩ := bind_eq_ok.mp hx₁
    cases hx₁
    obtain ⟨hone, hcount⟩ := injectFlit_injected hinject
    have hbelow : ∀ i < ptr, update x.2 ptr b i = x.2 i := fun i hi =>
      update_of_ne hi.ne _ _
    have hx₁ : s₁.markedFltInjected = (range (ptr + 1)).countP (update x.2 ptr b) := by
      have hrange : (range ptr).countP (update x.2 ptr b) = (range ptr).countP x.2 :=
        countP_congr fun i hi => by rw [hbelow i (mem_range.mp hi)]
      rw [hcount, hx, range_succ, countP_append, countP_singleton, update_self,
        hrange]
      cases b <;> rfl
    obtain ⟨hrest, hcounts, hkept⟩ := @ih (s₁, update x.2 ptr b) (ptr + 1) h hx₁
    refine ⟨⟨?_, fun hq => hrest.nonneg (hone.nonneg hq), ?_, ?_⟩, ?_, fun i hi => ?_⟩
    · exact hrest.quota.trans hone.quota
    · exact hrest.received.trans hone.received
    · exact hrest.exits.trans hone.exits
    · rw [hcounts, add_right_comm, add_assoc]
    · exact (hkept i (by omega)).trans (hbelow i hi)

end Injection

namespace Marking

variable {net : Net} {warmupCycles : Nat} {quotas : List Int} {m m' : Marking}

/-- The marked flits of a run are counted when they are made and when they are received, and the
exit is called once, when all have been received. -/
structure Ok (net : Net) (quotas : List Int) (m : Marking) : Prop where
  state : m.state.FreeReachable net
  quota : (m.stats.markedFltInjected : Int) + m.stats.mrkdFlt.sum = quotas.sum
  nonneg : ∀ q ∈ m.stats.mrkdFlt, 0 ≤ q
  injected : m.stats.markedFltInjected = (range m.state.nextPtr).countP m.marked
  received : m.stats.markedFltReceived + m.pending.countP (fun d => m.marked d.flit.ptr) =
    m.state.delivered.countP fun d => m.marked d.flit.ptr
  exits : m.stats.exits.count .allMarkedReceived =
    if 0 < m.stats.markedFltReceived ∧ (m.stats.markedFltReceived : Int) = quotas.sum then 1 else 0

theorem Ok.received_le (h : m.Ok net quotas) : m.stats.markedFltReceived +
    m.pending.countP (fun d => m.marked d.flit.ptr) ≤ m.stats.markedFltInjected := by
  rw [h.received, h.injected]
  exact countP_delivered_le h.state m.marked

theorem Ok.act {vnets : Nat → Nat} {a : Action} (h : m.Ok net quotas)
    (henabled : m.enabled net (.act vnets a)) (hm : m.perform net (.act vnets a) = .ok m') :
    m'.Ok net quotas := by
  obtain ⟨hpending, hvalid⟩ := henabled
  obtain ⟨s, hs, hm⟩ := bind_eq_ok.mp hm
  obtain ⟨⟨stats, marked⟩, hinject, hm⟩ := bind_eq_ok.mp hm
  cases hm
  obtain ⟨⟨new, hnew⟩, hptr⟩ := perform_delivered h.state hvalid hs
  obtain ⟨hstats, hcount, hkept⟩ := injectFlits_injected hinject h.injected
  dsimp only at hstats hcount hkept
  rw [Nat.add_sub_cancel' hptr] at hcount
  obtain ⟨random, hrun⟩ := h.state
  refine ⟨⟨random, hrun.tail ⟨a, hvalid, hs⟩⟩, hstats.quota.trans h.quota, hstats.nonneg h.nonneg,
    hcount, ?_, ?_⟩
  · have hold : m.state.delivered.countP (fun d => marked d.flit.ptr) =
        m.state.delivered.countP fun d => m.marked d.flit.ptr :=
      countP_congr fun d hd => by rw [hkept _ ((delivered_ptrs h.state).2 d hd)]
    have hreceived := h.received
    rw [hpending, countP_nil, Nat.add_zero] at hreceived
    dsimp only
    rw [hnew, length_append, Nat.add_sub_cancel, take_left, countP_reverse,
      countP_append, hold, hstats.received, hreceived, Nat.add_comm]
  · dsimp only
    rw [hstats.exits, hstats.received]
    exact h.exits

theorem checkMrkdFlt_iff {s : GarnetStats}
    (hquota : (s.markedFltInjected : Int) + s.mrkdFlt.sum = quotas.sum)
    (hnonneg : ∀ q ∈ s.mrkdFlt, 0 ≤ q) (hle : s.markedFltReceived ≤ s.markedFltInjected) :
    s.checkMrkdFlt = true ↔ (s.markedFltReceived : Int) = quotas.sum := by
  have hsum := sum_nonneg hnonneg
  unfold GarnetStats.checkMrkdFlt
  rw [Bool.and_eq_true, all_eq_true, decide_eq_true_eq]
  constructor
  · rintro ⟨hall, hge⟩
    have hzero : s.mrkdFlt.sum = 0 := sum_eq_zero fun q hq =>
      le_antisymm (of_decide_eq_true (hall q hq)) (hnonneg q hq)
    omega
  · intro heq
    refine ⟨fun q hq => decide_eq_true ?_, by omega⟩
    have hq' := single_le_sum hnonneg q hq
    omega

theorem Ok.record {times : Nat × Nat × Nat} {d : Delivery} {ds : List Delivery}
    (h : m.Ok net quotas) (hpending : m.pending = d :: ds) {stats : GarnetStats}
    (hs : m.stats.incrementStats m.state.curCycle
      (d.receivedFlit (m.marked d.flit.ptr) times) = .ok stats) :
    Ok net quotas { m with stats, pending := ds } := by
  obtain ⟨hcounted, _⟩ := GarnetStats.incrementStats_counted hs
  have hquota : (stats.markedFltInjected : Int) + stats.mrkdFlt.sum = quotas.sum := by
    rw [hcounted.injected, hcounted.mrkdFlt, h.quota]
  have hnonneg : ∀ q ∈ stats.mrkdFlt, 0 ≤ q := hcounted.mrkdFlt ▸ h.nonneg
  have hcount : m.pending.countP (fun d => m.marked d.flit.ptr) =
      ds.countP (fun d => m.marked d.flit.ptr) + (m.marked d.flit.ptr).toNat := by
    rw [hpending, countP_cons]
    cases m.marked d.flit.ptr <;> rfl
  have hreceived : stats.markedFltReceived =
    m.stats.markedFltReceived + (m.marked d.flit.ptr).toNat := hcounted.received
  have hle : stats.markedFltReceived ≤ stats.markedFltInjected := by
    have hle := h.received_le
    rw [hcounted.injected]
    omega
  refine ⟨h.state, hquota, hnonneg, hcounted.injected.trans h.injected, ?_, ?_⟩
  · have hbefore := h.received
    dsimp only
    omega
  · have hexits := h.exits
    have hexit := hcounted.exit
    have hcheck := checkMrkdFlt_iff hquota hnonneg hle
    change if m.marked d.flit.ptr = true ∧ stats.checkMrkdFlt = true then _ else _ at hexit
    have hsum := sum_nonneg hnonneg
    dsimp only
    cases hb : m.marked d.flit.ptr with
    | false =>
      rw [hb, Bool.toNat_false, add_zero] at hreceived
      rw [hb, if_neg (by simp)] at hexit
      rw [hexit, hexits, hreceived]
    | true =>
      -- the exit has not been called before, because this flit was missing
      rw [hb, Bool.toNat_true] at hreceived
      rw [if_neg (by omega)] at hexits
      rw [hb] at hexit
      split at hexit
      · next hall => rw [hexit.1, hexits, if_pos ⟨by omega, hcheck.mp hall.2⟩]
      · next hall => rw [hexit, hexits, if_neg fun hdone => hall ⟨rfl, hcheck.mpr hdone.2⟩]

theorem Ok.step (h : m.Ok net quotas) (hstep : Step net m m') : m'.Ok net quotas := by
  obtain ⟨x, henabled, hm⟩ := hstep
  cases x with
  | act vnets a => exact h.act henabled hm
  | record times =>
    unfold perform at hm
    dsimp only at hm
    split at hm
    · cases hm
      exact h
    · next d ds hpending =>
      obtain ⟨stats, hs, hm⟩ := bind_eq_ok.mp hm
      cases hm
      exact h.record hpending hs

theorem Reachable.ok (hquotas : ∀ q ∈ quotas, 0 ≤ q) (h : m.Reachable net warmupCycles quotas) :
    m.Ok net quotas := by
  obtain ⟨random, hrun⟩ := h
  induction hrun with
  | refl => exact ⟨⟨random, .refl⟩, Int.zero_add _, hquotas, rfl, rfl, rfl⟩
  | tail _ hstep ih => exact ih.step hstep

theorem Ok.record_error (h : m.Ok net quotas) (times : Nat × Nat × Nat) :
    Holds (m.perform net (.record times)) (fun _ => True) fun e => e ≠ .markedCount := by
  unfold perform
  dsimp only
  split
  · trivial
  · next d ds hpending =>
    have hle := h.received_le
    rw [hpending, countP_cons] at hle
    rw [holds_bind]
    refine (GarnetStats.incrementStats_error fun hmarked => ?_).imp fun _ _ => trivial
    change m.marked d.flit.ptr = true at hmarked
    rw [if_pos hmarked] at hle
    omega

theorem Ok.all_received_iff (h : m.Ok net quotas) :
    (m.stats.markedFltReceived : Int) = quotas.sum ↔
      (∀ q ∈ m.stats.mrkdFlt, q = 0) ∧ m.stats.markedFltReceived = m.stats.markedFltInjected := by
  have hquota := h.quota
  have hle := h.received_le
  have hsum := sum_nonneg h.nonneg
  constructor
  · intro heq
    refine ⟨fun q hq => ?_, by omega⟩
    have hq' := single_le_sum h.nonneg q hq
    have hpos := h.nonneg q hq
    omega
  · rintro ⟨hzero, heq⟩
    have hnone : m.stats.mrkdFlt.sum = 0 := sum_eq_zero hzero
    omega

/-- Each quota is used up by marked flits, at most these are received, and the simulation exits for
them once, when the last one is received. -/
theorem marked_flits_received (hquotas : ∀ q ∈ quotas, 0 ≤ q)
    (h : m.Reachable net warmupCycles quotas) :
    (m.stats.markedFltInjected : Int) + m.stats.mrkdFlt.sum = quotas.sum ∧
    m.stats.markedFltReceived ≤ m.stats.markedFltInjected ∧
    m.stats.exits.count .allMarkedReceived =
      (if 0 < m.stats.markedFltReceived ∧ (m.stats.markedFltReceived : Int) = quotas.sum then 1
        else 0) ∧
    (∀ m', Step net m m' →
      (m.stats.exits.count .allMarkedReceived < m'.stats.exits.count .allMarkedReceived ↔
        m.stats.markedFltReceived < m'.stats.markedFltReceived ∧
        (∀ q ∈ m'.stats.mrkdFlt, q = 0) ∧
        m'.stats.markedFltReceived = m'.stats.markedFltInjected)) ∧
    ∀ times, m.perform net (.record times) ≠ .error .markedCount := by
  have hok := h.ok hquotas
  have hquota := hok.quota
  have hle := hok.received_le
  have hsum := sum_nonneg hok.nonneg
  refine ⟨hquota, by omega, hok.exits, fun m' hstep => ?_, fun times herror => ?_⟩
  · have hok' := hok.step hstep
    rw [← hok'.all_received_iff, hok.exits, hok'.exits]
    split <;> split <;> omega
  · exact (hok.record_error times).of_error herror rfl

def run (net : Net) : List MarkingStep → Marking → Option Marking
  | [], m => some m
  | x :: xs, m =>
    if m.enabled net x then
      match m.perform net x with
      | .ok m' => run net xs m'
      | .error _ => none
    else none

theorem Reachable.run {steps : List MarkingStep} (h : m.Reachable net warmupCycles quotas)
    (hrun : run net steps m = some m') : m'.Reachable net warmupCycles quotas := by
  induction steps generalizing m with
  | nil =>
    cases hrun
    exact h
  | cons x steps ih =>
    unfold Marking.run at hrun
    split at hrun
    · next henabled =>
      split at hrun
      · next m₁ hperform =>
        obtain ⟨random, hreach⟩ := h
        exact ih ⟨random, hreach.tail ⟨x, henabled, hperform⟩⟩ hrun
      · cases hrun
    · cases hrun

theorem exists_reachable {P : Marking → Prop} [DecidablePred P] (steps : List MarkingStep)
    (random : Nat → Nat)
    (h : ((run net steps (init net random warmupCycles quotas)).map fun m => decide (P m)) =
      some true) : ∃ m : Marking, m.Reachable net warmupCycles quotas ∧ P m := by
  obtain ⟨m, hm, heq⟩ := Option.map_eq_some_iff.mp h
  exact ⟨m, Reachable.run ⟨random, .refl⟩ hm, of_decide_eq_true heq⟩

theorem markedActions_run : ∃ m : Marking,
    m.Reachable (pairNet 1 8) 3 [1, 0] ∧
    m.stats.exits = [.allMarkedReceived] ∧ m.stats.markedFltReceived = 1 :=
  exists_reachable (drainedActions.map (.act fun _ => 0) ++ [.record (4, 17, 0)]) (fun _ => 0)
    (by decide +kernel)

theorem marked_flits_received_pairNet : ∃ m : Marking,
    m.Reachable (pairNet 1 8) 3 [1, 0] ∧
    m.stats.exits = [.allMarkedReceived] ∧ m.stats.markedFltReceived = 1 ∧
    (m.stats.markedFltInjected : Int) + m.stats.mrkdFlt.sum = 1 ∧
    m.stats.exits.count .allMarkedReceived = 1 := by
  obtain ⟨m, hreach, hexits, hreceived⟩ := markedActions_run
  obtain ⟨hquota, _, hcount, _⟩ := marked_flits_received (by decide) hreach
  refine ⟨m, hreach, hexits, hreceived, hquota, ?_⟩
  rw [hcount, hreceived]
  rfl

end Marking

end Drain
