import Drain.MessageBuffer
import Drain.WakeupFrame

/-! The network with the protocol buffers at its nodes: arriving messages are enqueued or stalled,
and the protocol dequeues. The model of the network alone leaves it open whether a buffer has room. -/

namespace Drain

open State

open Function (update)

/-- The records tell, for each node, the flits that have arrived, the messages enqueued, with the
cycle, and the credits sent, in order. -/
structure System where
  state : State
  outNode : Nat → Nat → MessageBuffer Flit
  arrived : Nat → List Flit := fun _ => []
  enqueued : Nat → List (Nat × Flit) := fun _ => []
  credits : Nat → List Credit := fun _ => []

namespace System

variable (net : Net)

def enqueue (n : Nat) (f : Flit) (curTime : Nat) (t : System) : System :=
  { t with
    state := t.state.on fun c => { c with delivered := ⟨n, f.vnet, f⟩ :: c.delivered }
    outNode := setEntry t.outNode n f.vnet ((t.outNode n f.vnet).enqueue f curTime 1)
    enqueued := update t.enqueued n (t.enqueued n ++ [(t.state.curCycle, f)]) }

def sendCredit (n : Nat) (f : Flit) (isFree : Bool) (t : System) : System :=
  { t with
    state := t.state.on (State.sendCredit n f isFree)
    credits := update t.credits n (t.credits n ++ [⟨f.vc, isFree, t.state.curCycle⟩]) }

def setStalled (n vnet : Nat) (queue : List Flit) (count : Int) (t : System) : System :=
  { t with state :=
    { t.state.on fun c => { c with stallQueue := update c.stallQueue n queue } with
      stallCount := setEntry t.state.stallCount n vnet count } }

def unstall (n : Nat) (f : Flit) (rest : List Flit) (curTime : Nat) (t : System) : System :=
  let t := (t.enqueue n f curTime).sendCredit n f true
  let t := t.setStalled n f.vnet rest (t.state.stallCount n f.vnet - 1)
  if t.state.stallCount n f.vnet = 0 then
    { t with outNode :=
        setEntry t.outNode n f.vnet (t.outNode n f.vnet).unregisterDequeueCallback }
  else t

def slots (n : Nat) (curTime : Nat) (t : System) (vnet : Nat) : Bool :=
  (t.outNode n vnet).areNSlotsAvailable 1 curTime

/-- The loop over the stall queue, of which `before` has been passed. -/
def checkStalled (n curTime : Nat) (before : List Flit) : List Flit → System → Bool × System
  | [], t => (false, t)
  | f :: rest, t =>
    if t.slots n curTime f.vnet then (true, t.unstall n f (before ++ rest) curTime)
    else checkStalled n curTime (before ++ [f]) rest t

def checkStallQueue (n curTime : Nat) (t : System) : Bool × System :=
  t.checkStalled n curTime [] (t.state.stallQueue n)

def stall (n : Nat) (f : Flit) (t : System) : System :=
  let t := t.setStalled n f.vnet (t.state.stallQueue n ++ [f]) (t.state.stallCount n f.vnet + 1)
  { t with outNode := setEntry t.outNode n f.vnet (t.outNode n f.vnet).registerDequeueCallback }

def receiveFlit (n curTime : Nat) (messageEnqueued : Bool) (t : System) : Except Failure System :=
  if isReady (t.state.linkBuffer (.extOut n)) t.state.curCycle then do
    let (f, rest) ← getTopFlit (t.state.linkBuffer (.extOut n))
    let t := { t with
      state := t.state.on fun c => { c with linkBuffer := update c.linkBuffer (.extOut n) rest }
      arrived := update t.arrived n (t.arrived n ++ [f]) }
    require (f.isTail = true) .flitType
    if !messageEnqueued && t.slots n curTime f.vnet then
      pure ((t.enqueue n f curTime).sendCredit n f true)
    else pure (t.stall n f)
  else pure t

def wakeup (n : Nat) (t : System) : Except Failure System := do
  let curTime := t.state.curCycle
  let s ← t.state.inject net n
  let (messageEnqueued, t) := { t with state := s }.checkStallQueue n curTime
  let t ← t.receiveFlit n curTime messageEnqueued
  let s ← t.state.receiveCredits n
  pure { t with state := s }

section Refinement

variable {net} {n curTime : Nat} {t : System}

theorem checkStalled_eq (before rest : List Flit) (t : System) :
    t.checkStalled n curTime before rest =
      match rest.find? fun f => t.slots n curTime f.vnet with
      | none => (false, t)
      | some f => (true, t.unstall n f
          (before ++ rest.eraseP fun f => t.slots n curTime f.vnet) curTime) := by
  induction rest generalizing before with
  | nil => rfl
  | cons f rest ih =>
    unfold checkStalled
    by_cases hslot : t.slots n curTime f.vnet = true
    · simp [hslot]
    · rw [if_neg hslot, ih]
      simp [hslot]

theorem unstall_state (f : Flit) (rest : List Flit) : (t.unstall n f rest curTime).state =
    { (t.state.on (State.deliver n f)).on fun c => { c with
        stallQueue := update c.stallQueue n rest } with
      stallCount := setEntry t.state.stallCount n f.vnet (t.state.stallCount n f.vnet - 1) } := by
  unfold unstall
  dsimp only
  split <;> rfl

theorem checkStallQueue_state (n curTime : Nat) (t : System) :
    ((t.checkStallQueue n curTime).1, (t.checkStallQueue n curTime).2.state) =
      t.state.checkStallQueue n (t.slots n curTime) := by
  unfold checkStallQueue State.checkStallQueue
  rw [checkStalled_eq]
  cases (t.state.stallQueue n).find? fun f => t.slots n curTime f.vnet with
  | none => rfl
  | some f =>
    dsimp only
    rw [unstall_state]
    rfl

theorem receiveFlit_state (messageEnqueued : Bool) (t : System) :
    (t.receiveFlit n curTime messageEnqueued).map System.state =
      t.state.receiveFlit n (t.slots n curTime) messageEnqueued := by
  unfold receiveFlit State.receiveFlit
  split
  · cases getTopFlit (t.state.linkBuffer (.extOut n)) with
    | error e => rfl
    | ok top =>
      obtain ⟨f, rest⟩ := top
      by_cases htail : f.isTail = true
      · simp only [ok_bind, require, if_pos htail]
        by_cases hroom : (!messageEnqueued && t.slots n curTime f.vnet) = true
        · exact (congrArg (Except.map state) (if_pos hroom)).trans (if_pos hroom).symm
        · exact (congrArg (Except.map state) (if_neg hroom)).trans (if_neg hroom).symm
      · simp only [ok_bind, require, if_neg htail]
        rfl
  · rfl

theorem checkStallQueue_none (n curTime : Nat) (t : System)
    (h : (t.checkStallQueue n curTime).1 = false) :
    (t.checkStallQueue n curTime).2 = t ∧
      ∀ f ∈ t.state.stallQueue n, t.slots n curTime f.vnet = false := by
  unfold checkStallQueue at h ⊢
  rw [checkStalled_eq] at h ⊢
  cases hfind : (t.state.stallQueue n).find? fun f => t.slots n curTime f.vnet with
  | none => exact ⟨rfl, by simpa using hfind⟩
  | some f => simp [hfind] at h

theorem receiveFlit_congr {s : State} {slots slots' : Nat → Bool} {messageEnqueued : Bool}
    (h : messageEnqueued = false → slots = slots') :
    s.receiveFlit n slots messageEnqueued = s.receiveFlit n slots' messageEnqueued := by
  cases messageEnqueued with
  | true => rfl
  | false => rw [h rfl]

theorem map_bind_state {x : Except Failure System} {s : Except Failure State}
    {f : State → Except Failure State} (h : x.map state = s) :
    (do
      let t ← x
      let s ← f t.state
      pure { t with state := s }).map state = s >>= f := by
  subst h
  cases x with
  | error e => rfl
  | ok t =>
    simp only [ok_bind]
    cases hf : f t.state with
    | error e => simp [Except.map, hf]
    | ok s => simp [Except.map, hf]

theorem wakeup_state (net : Net) (n : Nat) (t : System) : (t.wakeup net n).map System.state =
    t.state.niWakeup net n (t.slots n t.state.curCycle) := by
  rw [niWakeup_eq]
  unfold wakeup
  cases hinject : t.state.inject net n with
  | error e => rfl
  | ok s =>
    simp only [ok_bind]
    have hqueue := checkStallQueue_state n t.state.curCycle { t with state := s }
    have hnone := checkStallQueue_none n t.state.curCycle { t with state := s }
    generalize ({ t with state := s } : System).checkStallQueue n t.state.curCycle = a at hqueue hnone
    obtain ⟨messageEnqueued, u⟩ := a
    refine map_bind_state ((receiveFlit_state _ _).trans ?_)
    change _ = s.checkStallQueue n (t.slots n t.state.curCycle) at hqueue
    rw [← hqueue]
    refine receiveFlit_congr fun h => ?_
    rw [(hnone h).1]
    rfl

theorem wakeup_ejects {t' : System} (h : t.wakeup net n = .ok t') : ∃ s u s',
    s.ejecting = t.state.ejecting ∧
    ({ t with state := s }.checkStallQueue n t.state.curCycle).2.receiveFlit n t.state.curCycle
      ({ t with state := s }.checkStallQueue n t.state.curCycle).1 = .ok u ∧
    s'.ejecting = u.state.ejecting ∧ t' = { u with state := s' } := by
  obtain ⟨s, hs, h⟩ := bind_eq_ok.mp h
  obtain ⟨u, hu, h⟩ := bind_eq_ok.mp h
  obtain ⟨s', hs', h⟩ := bind_eq_ok.mp h
  cases h
  exact ⟨s, u, s', (inject_frame t.state).of_ok hs, hu,
    (receiveCredits_frame u.state).of_ok hs', rfl⟩

end Refinement

end System

/-- A step of the network alone, a wakeup of a network interface, or an operation of the protocol
on one of its buffers. -/
inductive SystemAction where
  | network (a : Action)
  | ni (n : Nat)
  | protocol (n vnet : Nat) (op : MessageBuffer.Op)

namespace System

variable (net : Net)

def init (sizes : Nat → Nat → Nat) (blockSizeBits : Nat) (random : Nat → Nat) : System where
  state := State.init net random
  outNode := fun n vnet => { maxSize := sizes n vnet, blockSizeBits := blockSizeBits }

def protocol (n vnet : Nat) (op : MessageBuffer.Op) (t : System) : Except Failure System := do
  let b ← (t.outNode n vnet).apply t.state.curCycle op
  let t := { t with outNode := setEntry t.outNode n vnet b }
  if op.pops && b.dequeueCallback then
    pure { t with state := t.state.on (·.scheduleEvent (.ni n) 1) }
  else pure t

def perform (t : System) : SystemAction → Except Failure System
  | .network a => do
    let s ← t.state.perform net a
    pure { t with state := s }
  | .ni n => { t with state := t.state.on (popEvent (.ni n)) }.wakeup net n
  | .protocol n vnet op => t.protocol n vnet op

/-- The interfaces wake up with their buffers, and only a dequeue calls back. -/
def valid (t : System) : SystemAction → Prop
  | .network (.ni _ _) => False
  | .network (.dequeueCallback _) => False
  | .network a => t.state.valid net a
  | .ni n => n < net.nodes
  | .protocol n vnet _ => n < net.nodes ∧ vnet < net.virtualNetworks

def scheduled (t : System) : SystemAction → Prop
  | .network a => t.state.scheduled net a
  | .ni n => t.state.curCycle ∈ t.state.events (.ni n)
  | .protocol _ _ _ => True

instance (t : System) (a : SystemAction) : Decidable (t.valid net a) := by
  unfold valid
  split <;> infer_instance

instance (t : System) (a : SystemAction) : Decidable (t.scheduled net a) := by
  unfold scheduled
  split <;> infer_instance

def FreeStep (t t' : System) : Prop := ∃ a, t.valid net a ∧ t.perform net a = .ok t'

def Step (t t' : System) : Prop :=
  ∃ a, t.valid net a ∧ t.scheduled net a ∧ t.perform net a = .ok t'

/-- Whatever wakes up when, and whatever the protocol does with its buffers of the given sizes. -/
def FreeReachable (sizes : Nat → Nat → Nat) (t : System) : Prop :=
  ∃ blockSizeBits random,
    Relation.ReflTransGen (FreeStep net) (init net sizes blockSizeBits random) t

def Reachable (sizes : Nat → Nat → Nat) (t : System) : Prop :=
  ∃ blockSizeBits random, Relation.ReflTransGen (Step net) (init net sizes blockSizeBits random) t

def runActions : List SystemAction → System → Option System
  | [], t => some t
  | a :: as, t =>
    if t.valid net a ∧ t.scheduled net a then
      match t.perform net a with
      | .ok t' => runActions as t'
      | .error _ => none
    else none

section Runs

variable {net} {sizes : Nat → Nat → Nat} {t t' : System} {a : SystemAction}

theorem perform_state (hvalid : t.valid net a) (h : t.perform net a = .ok t') :
    t'.state = t.state ∨ ∃ b, t.state.valid net b ∧ (t.scheduled net a → t.state.scheduled net b) ∧
      t.state.perform net b = .ok t'.state := by
  cases a with
  | network b =>
    obtain ⟨s, hs, ht'⟩ := bind_eq_ok.mp h
    cases ht'
    refine .inr ⟨b, ?_, id, hs⟩
    cases b <;> first | exact hvalid | exact hvalid.elim
  | ni n =>
    refine .inr ⟨.ni n (t.slots n t.state.curCycle), hvalid, id, ?_⟩
    have hstate := wakeup_state net n
      { t with state := t.state.on (popEvent (.ni n)) }
    change (t.perform net (.ni n)).map state = _ at hstate
    rw [h] at hstate
    exact hstate.symm
  | protocol n vnet op =>
    obtain ⟨b, _, ht'⟩ := bind_eq_ok.mp h
    dsimp only at ht'
    split at ht'
    · cases ht'
      exact .inr ⟨.dequeueCallback n, hvalid.1, fun _ => trivial, rfl⟩
    · cases ht'
      exact .inl rfl

theorem FreeReachable.network (h : t.FreeReachable net sizes) : t.state.FreeReachable net := by
  obtain ⟨bits, random, hrun⟩ := h
  refine ⟨random, ?_⟩
  induction hrun with
  | refl => exact .refl
  | tail _ hstep ih =>
    obtain ⟨a, hvalid, hperform⟩ := hstep
    rcases perform_state hvalid hperform with heq | ⟨b, hb, _, hstep⟩
    · rwa [heq]
    · exact ih.tail ⟨b, hb, hstep⟩

theorem Reachable.free (h : t.Reachable net sizes) : t.FreeReachable net sizes := by
  obtain ⟨bits, random, hrun⟩ := h
  exact ⟨bits, random, Relation.ReflTransGen.mono
    (fun _ _ ⟨a, hvalid, _, hstep⟩ => ⟨a, hvalid, hstep⟩) _ _ hrun⟩

theorem Reachable.run {actions : List SystemAction} (ht : t.Reachable net sizes)
    (h : t.runActions net actions = some t') : t'.Reachable net sizes := by
  induction actions generalizing t with
  | nil =>
    cases h
    exact ht
  | cons a actions ih =>
    unfold runActions at h
    split at h
    · next hok =>
      split at h
      · next t₁ hperform =>
        obtain ⟨bits, random, hrun⟩ := ht
        exact ih ⟨bits, random, hrun.tail ⟨a, hok.1, hok.2, hperform⟩⟩ h
      · cases h
    · cases h

theorem exists_reachable {P : System → Prop} [DecidablePred P] (actions : List SystemAction)
    (random : Nat → Nat)
    (h : ((runActions net actions (init net sizes 6 random)).map fun t => decide (P t)) = some true) :
    ∃ t : System, t.Reachable net sizes ∧ P t := by
  obtain ⟨t, ht, heq⟩ := Option.map_eq_some_iff.mp h
  exact ⟨t, Reachable.run ⟨6, random, .refl⟩ ht, of_decide_eq_true heq⟩

end Runs

end System

end Drain
