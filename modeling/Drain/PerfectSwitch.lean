import Drain.Lib.Calls
import Drain.Lib.GreedySplit
import Drain.Lib.Table
import Drain.BufferCalls

/-! `PerfectSwitch`: the switch of the simple network. A message goes to every output link that
leads to some of its destinations, or waits until all of them have room. -/

namespace Drain

open Function List Prod

open scoped BigOperators

variable {ν β : Type}

structure NetMessage (ν β : Type) where
  destination : Finset ν
  content : β

structure SwitchParams (ν : Type) where
  numIn : Nat
  numOut : Nat
  virtualNetworks : Nat
  routingTable : Nat → Finset ν
  adaptiveRouting : Bool := false
  isVnetOrdered : Nat → Bool := fun _ => false
  clockPeriod : Nat := 1
  -- the numbers that `random_mt` yields
  random : Nat → Nat := fun _ => 0
  -- `std::sort` by the values of the links; where they are equal the order is not specified
  sort : (Nat → Nat) → List Nat → List Nat
  sort_perm : ∀ value links, (sort value links).Perm links

structure PerfectSwitch (ν β : Type) where
  -- by port and virtual network, where there is a buffer
  input : Nat → Nat → Option (MessageBuffer (NetMessage ν β))
  output : Nat → Nat → MessageBuffer (NetMessage ν β)
  pendingMessageCount : Nat → Int := fun _ => 0
  roundRobinStart : Nat := 0
  wakeupsWoSwitch : Nat := 0
  -- when the size of an output buffer was last checked, and what it was
  sizeChecked : Nat → Nat → Nat × Nat := fun _ _ => (0, 0)
  drawn : Nat := 0
  scheduled : List Nat := []

namespace PerfectSwitch

variable (p : SwitchParams ν) (s : PerfectSwitch ν β)

/-- `MessageBuffer::getSize`, which looks at the queue once in a cycle. -/
def getSize (out vnet time : Nat) : Nat :=
  if (s.sizeChecked out vnet).1 ≠ time then (s.output out vnet).prioHeap.length
  else (s.sizeChecked out vnet).2

/-- How clogged a link is, with a random number in the low bits. -/
def linkValue (time out : Nat) : Nat :=
  let outQueueLength := ∑ v ∈ Finset.range p.virtualNetworks, s.getSize out v time
  outQueueLength <<< 8 ||| p.random (s.drawn + out) % 256

/-- The sizes of all output buffers are checked and a number is drawn for each link. -/
def looked (time : Nat) : PerfectSwitch ν β :=
  { s with
    sizeChecked := fun out v => if out < p.numOut ∧ v < p.virtualNetworks
      then (time, s.getSize out v time) else s.sizeChecked out v
    drawn := s.drawn + p.numOut }

def linkOrder (vnet time : Nat) : List Nat × PerfectSwitch ν β :=
  let links := range p.numOut
  if p.adaptiveRouting then
    if p.isVnetOrdered vnet then (links, s)
    else (p.sort (s.linkValue p time) links, s.looked p time)
  else (links, s)

def setOutput (link vnet : Nat) (buffer : MessageBuffer (NetMessage ν β)) : PerfectSwitch ν β :=
  { s with output := setEntry s.output link vnet buffer }

/-- A copy of the message for each link, with the destinations that the link is responsible for. -/
def sendCopies (vnet time : Nat) (msg : NetMessage ν β) (copies : List (Nat × Finset ν)) :
    PerfectSwitch ν β :=
  copies.foldl (fun s c => s.setOutput c.1 vnet
    ((s.output c.1 vnet).enqueue { msg with destination := c.2 } time p.clockPeriod)) s

def scheduleEvent (time : Nat) : PerfectSwitch ν β := { s with scheduled := s.scheduled ++ [time] }

def readyMessage (buffer : MessageBuffer (NetMessage ν β)) (time : Nat) :
    Option (NetMessage ν β) :=
  match buffer.prioHeap with
  | [] => none
  | m :: _ => if m.lastEnqueueTime ≤ time then some m.msg else none

section Operate

variable [DecidableEq ν]

/-- One round of the loop of `operateMessageBuffer`, and whether the loop goes on. -/
def operateMessage (buffer : MessageBuffer (NetMessage ν β)) (incoming vnet time : Nat)
    (msg : NetMessage ν β) : Except Failure (Bool × PerfectSwitch ν β) := do
  let (order, s) := s.linkOrder p vnet time
  let (copies, msgDsts) := greedySplit p.routingTable order msg.destination
  require (msgDsts.card = 0) .noRoute
  if copies.all fun c => (s.output c.1 vnet).areNSlotsAvailable 1 time then do
    let (_, buffer) ← buffer.dequeue time
    let s := { s with
      input := setEntry s.input incoming vnet (some buffer)
      pendingMessageCount :=
        update s.pendingMessageCount vnet (s.pendingMessageCount vnet - 1) }
    pure (true, s.sendCopies p vnet time msg copies)
  else pure (false, s.scheduleEvent (time + p.clockPeriod))

def operateLoop (incoming vnet time : Nat) :
    Nat → PerfectSwitch ν β → Except Failure (PerfectSwitch ν β)
  | 0, s => pure s
  | n + 1, s =>
    match s.input incoming vnet with
    | none => pure s
    | some buffer =>
      match readyMessage buffer time with
      | none => pure s
      | some msg => do
        let (moved, s) ← s.operateMessage p buffer incoming vnet time msg
        if moved then operateLoop incoming vnet time n s else pure s

/-- A round removes a message, so that there are at most as many rounds as messages. -/
def operateMessageBuffer (buffer : MessageBuffer (NetMessage ν β)) (incoming vnet time : Nat) :
    Except Failure (PerfectSwitch ν β) :=
  operateLoop p incoming vnet time buffer.prioHeap.length s

def operatePort (vnet time : Nat) (a : Nat × PerfectSwitch ν β) :
    Except Failure (Nat × PerfectSwitch ν β) :=
  let incoming := if p.numIn ≤ a.1 + 1 then 0 else a.1 + 1
  match a.2.input incoming vnet with
  | none => pure (incoming, a.2)
  | some buffer => do
    let s ← a.2.operateMessageBuffer p buffer incoming vnet time
    pure (incoming, s)

def operateVnet (time vnet : Nat) : Except Failure (PerfectSwitch ν β) := do
  let incoming := s.roundRobinStart
  let start := if p.numIn ≤ s.roundRobinStart + 1 then 0 else s.roundRobinStart + 1
  let s := { s with roundRobinStart := start }
  if 0 < s.pendingMessageCount vnet then
    let (_, s) ← (range p.numIn).foldlM (fun a _ => operatePort p vnet time a) (incoming, s)
    pure s
  else pure s

def prioritySwitchLimit : Nat := 128

def wakeup (time : Nat) : Except Failure (PerfectSwitch ν β) :=
  let vnets := range p.virtualNetworks
  -- the priorities are inverted from time to time, to avoid starvation
  if prioritySwitchLimit < s.wakeupsWoSwitch + 1 then
    vnets.foldlM (fun s v => s.operateVnet p time v) { s with wakeupsWoSwitch := 0 }
  else
    vnets.reverse.foldlM (fun s v => s.operateVnet p time v)
      { s with wakeupsWoSwitch := s.wakeupsWoSwitch + 1 }

end Operate

def storeEventInfo (info : Nat) : PerfectSwitch ν β :=
  { s with
    pendingMessageCount :=
      update s.pendingMessageCount info (s.pendingMessageCount info + 1) }

/-- Every node is reached over some link; the entries of the table may overlap. -/
def Covering (p : SwitchParams ν) : Prop := ∀ x, ∃ link < p.numOut, x ∈ p.routingTable link

def queued : Option (MessageBuffer (NetMessage ν β)) → Nat
  | none => 0
  | some buffer => buffer.prioHeap.length

def inputMessages (p : SwitchParams ν) (s : PerfectSwitch ν β) (vnet : Nat) : Nat :=
  ∑ port ∈ Finset.range p.numIn, queued (s.input port vnet)

def Counted (p : SwitchParams ν) (s : PerfectSwitch ν β) : Prop :=
  ∀ vnet, s.pendingMessageCount vnet = inputMessages p s vnet

structure Idle (s : PerfectSwitch ν β) : Prop where
  pending : ∀ vnet, s.pendingMessageCount vnet = 0
  empty : ∀ port vnet, queued (s.input port vnet) = 0

section Links

variable {p} {s} {t : PerfectSwitch ν β} {incoming vnet time : Nat} {msg : NetMessage ν β}
  {copies : List (Nat × Finset ν)}

structure SameBuffers (s t : PerfectSwitch ν β) : Prop where
  input : t.input = s.input
  output : t.output = s.output
  pending : t.pendingMessageCount = s.pendingMessageCount

theorem Idle.counted (h : Idle s) : Counted p s := by
  intro v
  rw [h.pending, inputMessages, Finset.sum_eq_zero fun port _ => h.empty port v]
  rfl

theorem SameBuffers.counted (h : SameBuffers s t) (hs : Counted p s) : Counted p t := by
  intro v
  rw [h.pending, hs v, inputMessages, inputMessages, h.input]

theorem Counted.setInput (hs : Counted p s) (hport : incoming < p.numIn)
    {b b' : MessageBuffer (NetMessage ν β)} (hb : s.input incoming vnet = some b)
    (hinput : t.input = setEntry s.input incoming vnet (some b')) {d : Int}
    (hlen : (b'.prioHeap.length : Int) = b.prioHeap.length + d) (hpending : t.pendingMessageCount =
      update s.pendingMessageCount vnet (s.pendingMessageCount vnet + d)) :
    Counted p t := by
  intro v
  have hmem : incoming ∈ Finset.range p.numIn := Finset.mem_range.mpr hport
  rw [hpending]
  by_cases hv : v = vnet
  · subst hv
    have hrest : ∀ port ∈ (Finset.range p.numIn).erase incoming, t.input port v = s.input port v :=
      fun port hp => by
        rw [hinput, setEntry_of_ne _ _ fun heq => (Finset.mem_erase.mp hp).1 heq.1]
    have hsum : ∑ port ∈ (Finset.range p.numIn).erase incoming, queued (t.input port v) =
        ∑ port ∈ (Finset.range p.numIn).erase incoming, queued (s.input port v) :=
      Finset.sum_congr rfl fun port hp => by rw [hrest port hp]
    have hown : t.input incoming v = some b' := by rw [hinput, setEntry_self]
    rw [update_self, hs v, inputMessages, inputMessages,
      ← Finset.add_sum_erase _ _ hmem, ← Finset.add_sum_erase _ _ hmem, hsum, hown, hb]
    simp only [queued]
    push_cast
    omega
  · rw [update_of_ne hv, hs v, inputMessages, inputMessages, hinput]
    congr 1
    refine Finset.sum_congr rfl fun port _ => ?_
    rw [setEntry_of_ne _ _ fun heq => hv heq.2]

theorem linkOrder_perm (s : PerfectSwitch ν β) (vnet time : Nat) :
    (s.linkOrder p vnet time).1.Perm (range p.numOut) := by
  unfold linkOrder
  dsimp only
  split
  · split
    · exact .refl _
    · exact p.sort_perm _ _
  · exact .refl _

theorem linkOrder_same (s : PerfectSwitch ν β) (vnet time : Nat) :
    SameBuffers s (s.linkOrder p vnet time).2 := by
  unfold linkOrder
  dsimp only
  split
  · split
    · exact ⟨rfl, rfl, rfl⟩
    · exact ⟨rfl, rfl, rfl⟩
  · exact ⟨rfl, rfl, rfl⟩

theorem setOutput_output_self {l v : Nat} {buffer : MessageBuffer (NetMessage ν β)} :
    (s.setOutput l v buffer).output l v = buffer := setEntry_self _ _ _ _

theorem setOutput_output_of_ne {l l' v v' : Nat} {buffer : MessageBuffer (NetMessage ν β)}
    (h : ¬(l' = l ∧ v' = v)) : (s.setOutput l v buffer).output l' v' = s.output l' v' :=
  setEntry_of_ne _ _ h

theorem sendCopies_same (vnet time : Nat) (msg : NetMessage ν β) (copies : List (Nat × Finset ν)) :
    (s.sendCopies p vnet time msg copies).input = s.input ∧
      (s.sendCopies p vnet time msg copies).pendingMessageCount = s.pendingMessageCount := by
  induction copies generalizing s with
  | nil => exact ⟨rfl, rfl⟩
  | cons c copies ih => exact ih

theorem sendCopies_others {l v : Nat} (h : v = vnet → l ∉ copies.map fst) :
    (s.sendCopies p vnet time msg copies).output l v = s.output l v := by
  induction copies generalizing s with
  | nil => rfl
  | cons c copies ih =>
    have hhead : ¬(l = c.1 ∧ v = vnet) := fun heq => h heq.2 (by simp [heq.1])
    have htail : v = vnet → l ∉ copies.map fst := fun hv hl =>
      h hv (mem_cons_of_mem _ hl)
    unfold sendCopies at ih ⊢
    rw [foldl_cons, ih htail, setOutput_output_of_ne hhead]

theorem sendCopies_sent (hnodup : (copies.map fst).Nodup) {c : Nat × Finset ν} (hc : c ∈ copies) :
    (s.sendCopies p vnet time msg copies).output c.1 vnet =
      (s.output c.1 vnet).enqueue { msg with destination := c.2 } time p.clockPeriod := by
  induction copies generalizing s with
  | nil => cases hc
  | cons c' copies ih =>
    rw [map_cons, nodup_cons] at hnodup
    have hstep : s.sendCopies p vnet time msg (c' :: copies) =
        (s.setOutput c'.1 vnet ((s.output c'.1 vnet).enqueue { msg with destination := c'.2 } time
          p.clockPeriod)).sendCopies p vnet time msg copies := rfl
    rw [hstep]
    rcases mem_cons.mp hc with rfl | htail
    · rw [sendCopies_others fun _ => hnodup.1, setOutput_output_self]
    · have hne : c.1 ≠ c'.1 := fun heq => hnodup.1 (heq ▸ mem_map_of_mem htail)
      rw [ih hnodup.2 htail, setOutput_output_of_ne fun heq => hne heq.1]

theorem readyMessage_eq_some {buffer : MessageBuffer (NetMessage ν β)}
    (h : readyMessage buffer time = some msg) :
    ∃ m rest, buffer.prioHeap = m :: rest ∧ m.msg = msg ∧ m.lastEnqueueTime ≤ time := by
  unfold readyMessage at h
  split at h
  · cases h
  · next m rest hheap =>
    split at h
    · next hle => exact ⟨m, rest, hheap, Option.some.inj h, hle⟩
    · cases h

theorem dequeue_ready {buffer : MessageBuffer (NetMessage ν β)} {m : Queued (NetMessage ν β)}
    {rest : List (Queued (NetMessage ν β))}
    (hheap : buffer.prioHeap = m :: rest) (hle : m.lastEnqueueTime ≤ time) :
    Holds (buffer.dequeue time) (fun a => a.2.prioHeap = rest) (fun _ => False) := by
  unfold MessageBuffer.dequeue MessageBuffer.front
  rw [hheap]
  simp only [if_pos hle, ok_bind]
  exact holds_pure.mpr rfl

end Links

section Steps

variable {p} {s} {t : PerfectSwitch ν β} {incoming vnet time : Nat}

structure CopiesOf (p : SwitchParams ν) (destination : Finset ν) (copies : List (Nat × Finset ν)) :
    Prop extends SplitInto p.routingTable destination copies where
  nodup : (copies.map fst).Nodup
  link_lt : ∀ c ∈ copies, c.1 < p.numOut

/-- The message in front of an input buffer has left for its copies in the output buffers. -/
structure Forwards (p : SwitchParams ν) (incoming vnet time : Nat) (s t : PerfectSwitch ν β)
    (msg : NetMessage ν β) (copies : List (Nat × Finset ν)) : Prop where
  copiesOf : CopiesOf p msg.destination copies
  room : ∀ c ∈ copies, (s.output c.1 vnet).areNSlotsAvailable 1 time = true
  taken : ∃ m b b', m.msg = msg ∧ m.lastEnqueueTime ≤ time ∧ s.input incoming vnet = some b ∧
    b.prioHeap = m :: b'.prioHeap ∧ t.input = setEntry s.input incoming vnet (some b')
  sent : ∀ c ∈ copies, t.output c.1 vnet =
    (s.output c.1 vnet).enqueue { msg with destination := c.2 } time p.clockPeriod
  others : ∀ l v, (v = vnet → l ∉ copies.map fst) → t.output l v = s.output l v
  pending : t.pendingMessageCount =
    update s.pendingMessageCount vnet (s.pendingMessageCount vnet - 1)

/-- One of the links that the message in front needs has no slot, and all is as it was. -/
structure Waits (p : SwitchParams ν) (incoming vnet time : Nat) (s t : PerfectSwitch ν β)
    (msg : NetMessage ν β) (copies : List (Nat × Finset ν)) : Prop where
  copiesOf : CopiesOf p msg.destination copies
  ready : ∃ b, s.input incoming vnet = some b ∧ readyMessage b time = some msg
  full : ∃ c ∈ copies, (s.output c.1 vnet).areNSlotsAvailable 1 time = false
  same : SameBuffers s t

def Moved (p : SwitchParams ν) (incoming vnet time : Nat) (s t : PerfectSwitch ν β) : Prop :=
  ∃ msg copies, Forwards p incoming vnet time s t msg copies

def Blocked (p : SwitchParams ν) (incoming vnet time : Nat) (s t : PerfectSwitch ν β) : Prop :=
  ∃ msg copies, Waits p incoming vnet time s t msg copies

/-- Messages leave an input buffer one after the other, until one is blocked or none is ready. -/
def Operated (p : SwitchParams ν) (incoming vnet time : Nat) (s t : PerfectSwitch ν β) : Prop :=
  ∃ u, Relation.ReflTransGen (Moved p incoming vnet time) s u ∧
    (Blocked p incoming vnet time u t ∨
      u = t ∧ ∀ b ∈ t.input incoming vnet, readyMessage b time = none)

theorem Moved.counted (h : Moved p incoming vnet time s t) (hport : incoming < p.numIn)
    (hs : Counted p s) : Counted p t := by
  obtain ⟨msg, copies, hforwards⟩ := h
  obtain ⟨m, b, b', -, -, hb, hheap, hinput⟩ := hforwards.taken
  refine hs.setInput hport hb hinput (d := -1) ?_ hforwards.pending
  rw [hheap, length_cons]
  push_cast
  ring

theorem Operated.counted (h : Operated p incoming vnet time s t) (hport : incoming < p.numIn)
    (hs : Counted p s) : Counted p t := by
  obtain ⟨u, hmoves, hend⟩ := h
  have hu : Counted p u := by
    clear hend
    induction hmoves with
    | refl => exact hs
    | tail _ hmove ih => exact hmove.counted hport ih
  rcases hend with ⟨_, _, hwaits⟩ | ⟨rfl, -⟩
  · exact hwaits.same.counted hu
  · exact hu

end Steps

variable [DecidableEq ν] {p} {s} {incoming vnet time : Nat}
  {buffer : MessageBuffer (NetMessage ν β)} {msg : NetMessage ν β}

section

variable (hcover : Covering p)
include hcover

theorem copiesOf_greedySplit
    {order : List Nat} (horder : order.Perm (range p.numOut)) (destination : Finset ν) :
    (greedySplit p.routingTable order destination).2 = ∅ ∧
      CopiesOf p destination (greedySplit p.routingTable order destination).1 := by
  have hleft : (greedySplit p.routingTable order destination).2 = ∅ := by
    refine Finset.eq_empty_of_forall_notMem fun x hx => ?_
    obtain ⟨-, hnot⟩ := (mem_left_greedySplit order destination).mp hx
    obtain ⟨link, hlt, hmem⟩ := hcover x
    exact hnot link (horder.mem_iff.mpr (mem_range.mpr hlt)) hmem
  have hkeys : ((greedySplit p.routingTable order destination).1.map fst).Sublist order :=
    keys_greedySplit order destination
  have hsplit : SplitInto p.routingTable (destination \ _) _ :=
    splitInto_greedySplit order destination
  rw [hleft, Finset.sdiff_empty] at hsplit
  refine ⟨hleft, hsplit, hkeys.nodup (horder.nodup_iff.mpr nodup_range), fun c hc => ?_⟩
  have hmem := hkeys.subset (mem_map_of_mem hc)
  exact mem_range.mp (horder.mem_iff.mp hmem)

theorem operateMessage_spec
    (hinput : s.input incoming vnet = some buffer) (hready : readyMessage buffer time = some msg) :
    Holds (s.operateMessage p buffer incoming vnet time msg) (fun a =>
      a.1 = true ∧ Moved p incoming vnet time s a.2 ∨
        a.1 = false ∧ Blocked p incoming vnet time s a.2) (fun _ => False) := by
  obtain ⟨m, rest, hheap, hmsg, hle⟩ := readyMessage_eq_some hready
  have hsame : SameBuffers s (s.linkOrder p vnet time).2 := linkOrder_same s vnet time
  have hperm : (s.linkOrder p vnet time).1.Perm _ := linkOrder_perm s vnet time
  obtain ⟨hleft, hcopies⟩ := copiesOf_greedySplit hcover hperm msg.destination
  unfold operateMessage
  generalize s.linkOrder p vnet time = looked at hsame hleft hcopies
  obtain ⟨order, s'⟩ := looked
  dsimp only at hsame hleft hcopies ⊢
  generalize greedySplit p.routingTable order msg.destination = split at hleft hcopies
  obtain ⟨copies, left⟩ := split
  dsimp only at hleft hcopies ⊢
  refine holds_require_bind (by rw [hleft, Finset.card_empty]) ?_
  refine holds_ite.mpr ⟨fun hroom => ?_, fun hfull => ?_⟩
  · refine holds_bind.mpr ((dequeue_ready hheap hle).imp fun a ha => ?_)
    have hsent := sendCopies_same (p := p) (s := { s' with
      input := setEntry s'.input incoming vnet (some a.2)
      pendingMessageCount :=
        update s'.pendingMessageCount vnet (s'.pendingMessageCount vnet - 1) })
      vnet time msg copies
    refine holds_pure.mpr (.inl ⟨rfl, msg, copies, hcopies, fun c hc => ?_, ?_, fun c hc => ?_,
      fun l v hl => ?_, ?_⟩)
    · rw [← hsame.output]
      exact all_eq_true.mp hroom c hc
    · exact ⟨m, buffer, a.2, hmsg, hle, hinput, by rw [hheap, ha], by rw [hsent.1, hsame.input]⟩
    · rw [sendCopies_sent hcopies.nodup hc, hsame.output]
    · rw [sendCopies_others hl, hsame.output]
    · rw [hsent.2, hsame.pending]
  · rw [Bool.not_eq_true, all_eq_false] at hfull
    obtain ⟨c, hc, hslot⟩ := hfull
    rw [hsame.output, Bool.not_eq_true] at hslot
    exact holds_pure.mpr (.inr ⟨rfl, msg, copies, hcopies, ⟨buffer, hinput, hready⟩,
      ⟨c, hc, hslot⟩, hsame.input, hsame.output, hsame.pending⟩)

theorem operateLoop_spec (n : Nat) (hn : ∀ b ∈ s.input incoming vnet, b.prioHeap.length ≤ n) :
    Holds (operateLoop p incoming vnet time n s) (Operated p incoming vnet time s)
      (fun _ => False) := by
  induction n generalizing s with
  | zero =>
    refine holds_pure.mpr ⟨s, .refl, .inr ⟨rfl, fun b hb => ?_⟩⟩
    have hempty : b.prioHeap = [] := eq_nil_of_length_eq_zero (Nat.le_zero.mp (hn b hb))
    rw [readyMessage, hempty]
  | succ n ih =>
    unfold operateLoop
    cases hinput : s.input incoming vnet with
    | none => exact holds_pure.mpr ⟨s, .refl, .inr ⟨rfl, fun b hb => by simp [hinput] at hb⟩⟩
    | some buffer =>
      dsimp only
      cases hready : readyMessage buffer time with
      | none =>
        refine holds_pure.mpr ⟨s, .refl, .inr ⟨rfl, fun b hb => ?_⟩⟩
        rw [hinput] at hb
        rwa [← Option.some.inj hb]
      | some msg =>
        refine holds_bind.mpr ((operateMessage_spec hcover hinput hready).imp fun a ha => ?_)
        obtain ⟨moved, u⟩ := a
        rcases ha with ⟨rfl, hmoved⟩ | ⟨rfl, hblocked⟩
        · have hbound : ∀ b ∈ u.input incoming vnet, b.prioHeap.length ≤ n := by
            obtain ⟨_, _, hforwards⟩ := id hmoved
            obtain ⟨m, b, b', -, -, hb, hheap, hu⟩ := hforwards.taken
            intro b'' hb''
            have hlen := hn b (Option.mem_def.mpr hb)
            rw [hu, setEntry_self] at hb''
            rw [← Option.some.inj hb'']
            simpa [hheap] using hlen
          refine (ih hbound).imp fun t ht => ?_
          obtain ⟨v, hv, hend⟩ := ht
          exact ⟨v, .head hmoved hv, hend⟩
        · exact holds_pure.mpr ⟨s, .refl, .inl hblocked⟩

theorem operateMessageBuffer_spec (hinput : s.input incoming vnet = some buffer) :
    Holds (s.operateMessageBuffer p buffer incoming vnet time) (Operated p incoming vnet time s)
      (fun _ => False) := by
  refine operateLoop_spec hcover _ fun b hb => ?_
  rw [hinput] at hb
  rw [← Option.some.inj hb]

theorem operatePort_counted
    (hports : 0 < p.numIn) {a : Nat × PerfectSwitch ν β} (ha : Counted p a.2) :
    Holds (operatePort p vnet time a) (fun a' => Counted p a'.2) (fun _ => False) := by
  unfold operatePort
  dsimp only
  generalize hincoming : (if p.numIn ≤ a.1 + 1 then 0 else a.1 + 1) = incoming
  have hlt : incoming < p.numIn := by split at hincoming <;> omega
  cases hinput : a.2.input incoming vnet with
  | none => exact ha
  | some buffer =>
    exact holds_bind.mpr
      ((operateMessageBuffer_spec hcover hinput).imp fun t ht => ht.counted hlt ha)

theorem operateVnet_counted (hs : Counted p s) (vnet : Nat) :
    Holds (s.operateVnet p time vnet) (Counted p) (fun _ => False) := by
  unfold operateVnet
  refine holds_ite.mpr ⟨fun _ => ?_, fun _ => hs⟩
  refine holds_bind.mpr (Holds.imp (holds_foldlM (fun a => Counted p a.2) _ hs
    fun i hi a ha => ?_) fun a ha => holds_pure.mpr ha)
  have hi' := mem_range.mp hi
  exact operatePort_counted hcover (by omega) ha

theorem wakeup_counted
    (hs : Counted p s) : Holds (s.wakeup p time) (Counted p) (fun _ => False) := by
  have hvnet : ∀ (v : Nat) (t : PerfectSwitch ν β), Counted p t →
      Holds (t.operateVnet p time v) (Counted p) (fun _ => False) :=
    fun v _ ht => operateVnet_counted hcover ht v
  unfold wakeup
  dsimp only
  split
  · exact holds_foldlM (Counted p) _ hs fun v _ => hvnet v
  · exact holds_foldlM (Counted p) _ hs fun v _ => hvnet v

end

end PerfectSwitch

/-- What happens at a switch: a message arrives in an input buffer, the switch wakes up, a message
leaves an output buffer. -/
inductive SwitchCall (ν β : Type) where
  | receive (port vnet : Nat) (msg : NetMessage ν β) (time delta : Nat)
  | wakeup (time : Nat)
  | deliver (link vnet time : Nat)

namespace PerfectSwitch

section Calls

variable [DecidableEq ν] (p : SwitchParams ν)

def call (s : PerfectSwitch ν β) : SwitchCall ν β → Except Failure (PerfectSwitch ν β)
  | .receive port vnet msg time delta =>
    match s.input port vnet with
    | none => pure s
    | some buffer =>
      let s := { s with input := setEntry s.input port vnet (some (buffer.enqueue msg time delta)) }
      -- `enqueue` notifies its consumer
      pure ((s.scheduleEvent (time + delta)).storeEventInfo vnet)
  | .wakeup time => s.wakeup p time
  | .deliver link vnet time => do
    let (_, buffer) ← (s.output link vnet).dequeue time
    pure (s.setOutput link vnet buffer)

def valid : SwitchCall ν β → Prop
  | .receive port vnet _ _ _ => port < p.numIn ∧ vnet < p.virtualNetworks
  | .wakeup _ | .deliver _ _ _ => True

def calls : Calls (PerfectSwitch ν β) (SwitchCall ν β) Failure where
  valid _ c := valid p c
  call := call p

variable {p} {s t : PerfectSwitch ν β} {c : SwitchCall ν β}

theorem Counted.call (hcover : Covering p) (hs : Counted p s) (hvalid : (calls p).valid s c)
    (hcall : (calls p).call s c = .ok t) : Counted p t := by
  cases c with
  | receive port vnet msg time delta =>
    cases hinput : s.input port vnet with
    | none =>
      simp only [calls, PerfectSwitch.call, hinput] at hcall
      cases hcall
      exact hs
    | some buffer =>
      simp only [calls, PerfectSwitch.call, hinput] at hcall
      cases hcall
      exact hs.setInput hvalid.1 hinput rfl (d := 1) (by simp) rfl
  | wakeup time => exact (wakeup_counted hcover hs).of_ok hcall
  | deliver link vnet time =>
    obtain ⟨a, -, ha⟩ := bind_eq_ok.mp hcall
    cases ha
    exact hs

end Calls

variable [DecidableEq ν] {p : SwitchParams ν}

/-- For a routing table that covers all nodes. What is done with an input buffer succeeds: message
after message leaves it for copies whose destinations split those of the message, until the message
in front lacks a slot, and then all is left as it is, or none is ready. The count of pending
messages is right in every run. -/
theorem perfectSwitch_forwards (hcover : Covering p) :
    (∀ (s : PerfectSwitch ν β) (incoming vnet time : Nat) (buffer : _),
      s.input incoming vnet = some buffer →
      ∃ t, s.operateMessageBuffer p buffer incoming vnet time = .ok t ∧
        Operated p incoming vnet time s t) ∧
      ∀ s t : PerfectSwitch ν β, Idle s → (calls p).Runs s t → ∀ vnet,
        t.pendingMessageCount vnet = inputMessages p t vnet := by
  refine ⟨fun s incoming vnet time buffer hinput => ?_, fun s t hidle hruns => ?_⟩
  · exact (operateMessageBuffer_spec hcover hinput).exists_ok
  · exact hruns.keeps (fun _ _ _ hs hvalid hcall => hs.call hcover hvalid hcall) hidle.counted

def overlapping : SwitchParams (Fin 3) where
  numIn := 1
  numOut := 2
  virtualNetworks := 1
  routingTable link := if link = 0 then {0, 1} else {1, 2}
  sort _ links := links
  sort_perm _ _ := .refl _

instance (s : PerfectSwitch ν β) (c : SwitchCall ν β) : Decidable ((calls p).valid s c) :=
  match c with
  | .receive _ _ _ _ _ => inferInstanceAs (Decidable (_ ∧ _))
  | .wakeup _ | .deliver _ _ _ => inferInstanceAs (Decidable True)

theorem perfectSwitch_forwards_overlapping :
    let buffer : MessageBuffer (NetMessage (Fin 3) Unit) := { maxSize := 1 }
    let waiting := buffer.enqueue ⟨{0, 1, 2}, ()⟩ 0 1
    let s : PerfectSwitch (Fin 3) Unit :=
      { input := fun _ _ => some buffer, output := fun _ _ => buffer }
    let full : PerfectSwitch (Fin 3) Unit :=
      { input := fun _ _ => some waiting, output := fun _ _ => waiting }
    (∃ t, full.operateMessageBuffer overlapping waiting 0 0 1 = .ok t ∧
        Operated overlapping 0 0 1 full t) ∧
      ∃ t, (calls overlapping).Runs s t ∧
        (t.output 0 0).prioHeap.map (·.msg.destination) = [{0, 1}] ∧
        (t.output 1 0).prioHeap.map (·.msg.destination) = [{2}] ∧
        t.pendingMessageCount 0 = inputMessages overlapping t 0 := by
  intro buffer waiting s full
  have hcover : Covering overlapping := by
    have h : ∀ x, ∃ link < 2, x ∈ overlapping.routingTable link := by decide
    exact h
  obtain ⟨hoperate, hcount⟩ := perfectSwitch_forwards (β := Unit) hcover
  refine ⟨hoperate full 0 0 1 waiting rfl, ?_⟩
  obtain ⟨t, hruns, hcopies⟩ := Calls.exists_run (m := calls overlapping) (s := s)
    (Q := fun t => (t.output 0 0).prioHeap.map (·.msg.destination) = [{0, 1}] ∧
      (t.output 1 0).prioHeap.map (·.msg.destination) = [{2}])
    [.receive 0 0 ⟨{0, 1, 2}, ()⟩ 0 1, .wakeup 1] (by decide +kernel)
  exact ⟨t, hruns, hcopies.1, hcopies.2, hcount s t ⟨fun _ => rfl, fun _ _ => rfl⟩ hruns 0⟩

end PerfectSwitch

end Drain
