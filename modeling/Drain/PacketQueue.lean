import Drain.Lib.Holds

/-! The queue from which a port sends its packets at their ticks
(`mem/packet_queue.cc`), with the event that wakes it and the peer that takes,
refuses or, while it takes one, asks for more packets. -/

namespace Drain

open List

-- `id` and `forced` say when and how the packet was inserted; the queue never reads them.
structure QueuedPacket where
  id : Nat
  addr : Nat
  forced : Bool
deriving DecidableEq, Repr

structure DeferredPacket where
  tick : Nat
  pkt : QueuedPacket
deriving DecidableEq, Repr

structure PacketQueue where
  transmitList : List DeferredPacket
  waitingOnRetry : Bool
  sendEvent : Option Nat
deriving DecidableEq, Repr

inductive PacketQueueFailure where
  | late
  | grown
  | scheduledWhileWaiting
  | waiting
  | notReady
  | notWaiting
deriving DecidableEq, Repr

namespace PacketQueue

def maxTick : Nat := 2 ^ 64 - 1

/-- The scan of `schedSendTiming`, over the list from its end. It stops at the
first element of the list without comparing it. -/
def emplaceFromEnd (dp : DeferredPacket) (forceOrder : Bool) :
    List DeferredPacket → List DeferredPacket
  | [] => [dp]
  | [front] => [dp, front]
  | i :: j :: rest =>
    if dp.tick < i.tick ∧ ¬(forceOrder = true ∧ i.pkt.addr = dp.pkt.addr) then
      i :: emplaceFromEnd dp forceOrder (j :: rest)
    else dp :: i :: j :: rest

def deferredPacketReadyTime (q : PacketQueue) : Nat :=
  match q.transmitList with
  | [] => maxTick
  | dp :: _ => dp.tick

def schedSendEvent (q : PacketQueue) (curTick tick : Nat) : Except PacketQueueFailure PacketQueue :=
  if q.waitingOnRetry then do
    require (q.sendEvent = none) .scheduledWhileWaiting
    pure q
  else if tick = maxTick then pure q
  else
    let tick := max tick (curTick + 1)
    match q.sendEvent with
    | none => pure { q with sendEvent := some tick }
    | some w => pure (if tick < w then { q with sendEvent := some tick } else q)

def schedSendTiming (disableSanityCheck : Bool) (q : PacketQueue) (curTick : Nat)
    (pkt : QueuedPacket) (tick : Nat) (forceOrder : Bool) :
    Except PacketQueueFailure PacketQueue := do
  require (curTick ≤ tick) .late
  require (disableSanityCheck = true ∨ q.transmitList.length ≤ 100) .grown
  if q.transmitList = [] then
    schedSendEvent { q with transmitList := [⟨tick, pkt⟩] } curTick tick
  else
    pure { q with
      transmitList := (emplaceFromEnd ⟨tick, pkt⟩ forceOrder q.transmitList.reverse).reverse }

structure Call where
  addr : Nat
  tick : Nat
  forceOrder : Bool
deriving DecidableEq, Repr

/-- What the peer does with an offered packet: the calls are those it makes
from within `sendTiming`. -/
inductive Answer where
  | refuse
  | accept (calls : List Call)
deriving DecidableEq, Repr

inductive Action where
  | advance (t : Nat)
  | call (c : Call)
  | sendEvent (answer : Answer)
  | retry (answer : Answer)
deriving DecidableEq, Repr

/-- The queue between the event queue and its peer, with a record of what was
offered, what was accepted, how many packets were inserted, and whether one was
inserted with a tick before that of the packet at the front. -/
structure Sim where
  curTick : Nat
  queue : PacketQueue
  owesRetry : Bool
  offers : List (DeferredPacket × Nat)
  sent : List DeferredPacket
  next : Nat
  early : Bool
deriving DecidableEq, Repr

namespace Sim

def init : Sim := ⟨0, ⟨[], false, none⟩, false, [], [], 0, false⟩

def call (disableSanityCheck : Bool) (s : Sim) (c : Call) : Except PacketQueueFailure Sim :=
  if s.curTick ≤ c.tick ∧ c.tick < maxTick then do
    let queue ← schedSendTiming disableSanityCheck s.queue s.curTick
      ⟨s.next, c.addr, c.forceOrder⟩ c.tick c.forceOrder
    pure { s with
      queue, next := s.next + 1
      early := s.early || s.queue.transmitList.head?.any (c.tick < ·.tick) }
  else pure s

def sendDeferredPacket (disableSanityCheck : Bool) (s : Sim) (answer : Answer) :
    Except PacketQueueFailure Sim := do
  require (s.queue.waitingOnRetry = false) .waiting
  match s.queue.transmitList with
  | [] => throw .notReady
  | dp :: rest =>
    require (dp.tick ≤ s.curTick) .notReady
    match answer with
    | .refuse =>
      pure { s with
        queue := { s.queue with waitingOnRetry := true, transmitList := dp :: rest }
        owesRetry := true, offers := s.offers ++ [(dp, s.curTick)] }
    | .accept calls =>
      let s ← calls.foldlM (call disableSanityCheck) { s with
        queue := { s.queue with transmitList := rest }
        offers := s.offers ++ [(dp, s.curTick)], sent := s.sent ++ [dp] }
      let queue ← schedSendEvent { s.queue with waitingOnRetry := false } s.curTick
        s.queue.deferredPacketReadyTime
      pure { s with queue }

/-- One step. Time never passes the send event, the event runs at its tick, and
the peer sends a retry only when it owes one. -/
def step (disableSanityCheck : Bool) (s : Sim) : Action → Except PacketQueueFailure Sim
  | .advance t =>
    pure (if s.curTick ≤ t ∧ ∀ w ∈ s.queue.sendEvent, t ≤ w then { s with curTick := t } else s)
  | .call c => s.call disableSanityCheck c
  | .sendEvent answer =>
    if s.queue.sendEvent = some s.curTick then do
      require (s.queue.waitingOnRetry = false) .waiting
      sendDeferredPacket disableSanityCheck
        { s with queue := { s.queue with sendEvent := none } } answer
    else pure s
  | .retry answer =>
    if s.owesRetry then do
      require (s.queue.waitingOnRetry = true) .notWaiting
      sendDeferredPacket disableSanityCheck
        { s with queue := { s.queue with waitingOnRetry := false }, owesRetry := false } answer
    else pure s

def run (disableSanityCheck : Bool) (actions : List Action) : Except PacketQueueFailure Sim :=
  actions.foldlM (step disableSanityCheck) init

end Sim

/-! ### Where a packet is inserted -/

/-- `l'` is `l` with `dp` inserted behind at least its first packet, in front
of later packets only, and of none that a forced order holds it behind. -/
structure Placed (dp : DeferredPacket) (forceOrder : Bool) (l l' : List DeferredPacket) where
  ahead : List DeferredPacket
  behind : List DeferredPacket
  split : l = ahead ++ behind
  placed : l' = ahead ++ dp :: behind
  front : l ≠ [] → ahead ≠ []
  later : ∀ i ∈ behind, dp.tick < i.tick ∧ ¬(forceOrder = true ∧ i.pkt.addr = dp.pkt.addr)
  stopped : ∀ front init i, ahead = front :: init ++ [i] →
    dp.tick < i.tick → forceOrder = true ∧ i.pkt.addr = dp.pkt.addr

variable {dp : DeferredPacket} {forceOrder : Bool} {l l' : List DeferredPacket}

theorem placed_emplace (dp : DeferredPacket) (forceOrder : Bool) (l : List DeferredPacket) :
    Nonempty (Placed dp forceOrder l (emplaceFromEnd dp forceOrder l.reverse).reverse) := by
  generalize hr : l.reverse = r
  obtain rfl : l = r.reverse := by simp [← hr]
  clear hr
  induction r with
  | nil => exact ⟨[], [], rfl, by simp [emplaceFromEnd], by simp, by simp, by simp⟩
  | cons i rest ih =>
    cases rest with
    | nil =>
      refine ⟨[i], [], by simp, by simp [emplaceFromEnd], by simp, by simp, ?_⟩
      intro front init j h
      simp at h
    | cons j rest =>
      by_cases hpass : dp.tick < i.tick ∧ ¬(forceOrder = true ∧ i.pkt.addr = dp.pkt.addr)
      · -- the scan goes on past `i`, which ends up behind the packet
        obtain ⟨ahead, behind, hsplit, hplaced, hfront, hlater, hstop⟩ := ih
        refine ⟨ahead, behind ++ [i], ?_, ?_, ?_, ?_, hstop⟩
        · rw [reverse_cons, hsplit, append_assoc]
        · rw [emplaceFromEnd, if_pos hpass, reverse_cons, hplaced]
          simp
        · exact fun _ => hfront (by simp)
        · intro k hk
          rcases mem_append.mp hk with hk | hk
          · exact hlater k hk
          · rwa [mem_singleton.mp hk]
      · refine ⟨(i :: j :: rest).reverse, [], by simp, ?_, by simp, by simp, ?_⟩
        · rw [emplaceFromEnd, if_neg hpass]
          simp
        · intro front init k hk hlt
          have hlast := congrArg getLast? hk
          simp only [reverse_cons, getLast?_append, getLast?_singleton] at hlast
          obtain rfl : i = k := by simpa using hlast
          by_contra hnot
          exact hpass ⟨hlt, hnot⟩

theorem Placed.head (h : Placed dp forceOrder l l') (hl : l ≠ []) : l'.head? = l.head? := by
  obtain ⟨ahead, behind, rfl, rfl, hfront, _, _⟩ := h
  simp [head?_append_of_ne_nil _ (hfront hl)]

theorem Placed.perm (h : Placed dp forceOrder l l') : l'.Perm (dp :: l) := by
  obtain ⟨ahead, behind, rfl, rfl, _, _, _⟩ := h
  exact perm_middle

def Sooner (a b : DeferredPacket) : Prop :=
  a.tick < b.tick ∨ a.tick = b.tick ∧ a.pkt.id < b.pkt.id

theorem Placed.sorted (h : Placed dp false l l') (hl : l.Pairwise Sooner)
    (hnew : ∀ i ∈ l, i.pkt.id < dp.pkt.id) (hfront : ∀ i ∈ l.head?, i.tick ≤ dp.tick) : l'.Pairwise Sooner := by
  have hsplit := h.split
  rw [hsplit, pairwise_append] at hl
  -- the packet where the scan stopped is no later, so no packet ahead is
  have hahead : ∀ i ∈ h.ahead, i.tick ≤ dp.tick := by
    rcases eq_nil_or_concat h.ahead with hnil | ⟨init, last, hconcat⟩
    · simp [hnil]
    have hlast : last.tick ≤ dp.tick := by
      cases init with
      | nil =>
        apply hfront
        simp [hsplit, hconcat]
      | cons front init =>
        by_contra hlt
        have := h.stopped front init last (by simpa using hconcat) (by omega)
        simp at this
    intro i hi
    have hpair := hl.1
    rw [hconcat, concat_eq_append, pairwise_append] at hpair
    rw [hconcat, concat_eq_append, mem_append, mem_singleton] at hi
    rcases hi with hi | rfl
    · have := hpair.2.2 i hi last (by simp)
      unfold Sooner at this
      omega
    · exact hlast
  rw [h.placed, pairwise_append, pairwise_cons]
  refine ⟨hl.1, ⟨fun i hi => Or.inl (h.later i hi).1, hl.2.1⟩, ?_⟩
  intro i hi j hj
  rcases mem_cons.mp hj with rfl | hj
  · have hid := hnew i (by rw [hsplit]; exact mem_append_left _ hi)
    have := hahead i hi
    unfold Sooner
    omega
  · exact hl.2.2 i hi j hj

/-! ### What the functions do to the queue -/

theorem schedSendEvent_list (q : PacketQueue) (curTick tick : Nat) :
    Holds (q.schedSendEvent curTick tick) (fun q' => q'.transmitList = q.transmitList)
      fun _ => True := by
  unfold schedSendEvent
  split
  · simp only [holds_bind, holds_require, holds_pure, implies_true, and_true]
  · split
    · rfl
    · split
      · rfl
      · rw [holds_pure]
        split <;> rfl

theorem schedSendTiming_list (d : Bool) (q : PacketQueue) (curTick : Nat) (pkt : QueuedPacket)
    (tick : Nat) (forceOrder : Bool) :
    Holds (schedSendTiming d q curTick pkt tick forceOrder)
      (fun q' => Nonempty (Placed ⟨tick, pkt⟩ forceOrder q.transmitList q'.transmitList))
      fun _ => True := by
  simp only [schedSendTiming, holds_bind, holds_require, holds_ite, holds_pure, implies_true,
    and_true]
  intro _ _
  constructor
  · intro hnil
    refine (schedSendEvent_list _ curTick tick).imp fun q' hq' => ?_
    rw [hq', hnil]
    exact ⟨[], [], rfl, rfl, by simp, by simp, by simp⟩
  · exact fun _ => placed_emplace _ _ _

theorem schedSendEvent_idle {q : PacketQueue} (hw : q.waitingOnRetry = false) (curTick : Nat)
    {tick : Nat} (ht : tick < maxTick) : ∃ w, q.schedSendEvent curTick tick = .ok { q with sendEvent := some w } ∧
      (w = max tick (curTick + 1) ∨ q.sendEvent = some w) := by
  rw [schedSendEvent, if_neg (by simp [hw]), if_neg (Nat.ne_of_lt ht)]
  cases he : q.sendEvent with
  | none => exact ⟨_, rfl, Or.inl rfl⟩
  | some w =>
    by_cases hlt : max tick (curTick + 1) < w
    · exact ⟨_, by simp [hlt, pure, Except.pure], Or.inl rfl⟩
    · refine ⟨w, ?_, Or.inr rfl⟩
      simp only [hlt, if_false, ← he]
      rfl

/-! ### Order by tick -/

def Action.calls : Action → List Call
  | .advance _ => []
  | .call c => [c]
  | .sendEvent .refuse => []
  | .sendEvent (.accept calls) => calls
  | .retry .refuse => []
  | .retry (.accept calls) => calls

namespace Sim

/-- The order by tick, as long as no packet came in before the front. -/
structure Sorted (s : Sim) : Prop where
  ids : ∀ dp ∈ s.queue.transmitList, dp.pkt.id < s.next
  sorted : s.early = false → s.queue.transmitList.Pairwise Sooner

variable {s : Sim}

theorem Sorted.call (hs : s.Sorted) (d : Bool) {c : Call}
    (hc : c.forceOrder = false) : Holds (s.call d c) Sorted fun _ => True := by
  unfold Sim.call
  split
  · rw [holds_bind]
    refine (schedSendTiming_list _ _ _ _ _ _).imp fun q' ⟨hq'⟩ => ?_
    constructor
    · intro dp hdp
      rcases mem_cons.mp (hq'.perm.mem_iff.mp hdp) with rfl | hdp
      · exact Nat.lt_succ_self _
      · exact Nat.lt_succ_of_lt (hs.ids dp hdp)
    · intro hearly
      rw [Bool.or_eq_false_iff] at hearly
      rw [hc] at hq'
      apply hq'.sorted (hs.sorted hearly.1) hs.ids
      intro i hi
      have := hearly.2
      rw [Option.mem_def.mp hi] at this
      simpa using this
  · exact hs

theorem Sorted.sendDeferredPacket (hs : s.Sorted) (d : Bool)
    (answer : Answer) (hc : ∀ calls, answer = .accept calls → ∀ c ∈ calls, c.forceOrder = false) :
    Holds (s.sendDeferredPacket d answer) Sorted fun _ => True := by
  unfold Sim.sendDeferredPacket
  simp only [holds_bind, holds_require, implies_true, and_true]
  intro _
  split
  · trivial
  next dp rest hlist =>
    simp only [holds_bind, holds_require, implies_true, and_true]
    intro _
    cases answer with
    | refuse =>
      rw [← hlist]
      exact ⟨hs.ids, hs.sorted⟩
    | accept calls =>
      simp only [holds_bind]
      have hrest : Sorted { s with
          queue := { s.queue with transmitList := rest }
          offers := s.offers ++ [(dp, s.curTick)], sent := s.sent ++ [dp] } := by
        constructor
        · exact fun i hi => hs.ids i (by rw [hlist]; exact mem_cons_of_mem _ hi)
        · intro hearly
          have := hs.sorted hearly
          rw [hlist] at this
          exact this.of_cons
      refine (holds_foldlM Sorted calls hrest fun c hmem t ht =>
        ht.call _ (hc calls rfl c hmem)).imp fun t ht => ?_
      refine (schedSendEvent_list _ _ _).imp fun q' hq' => ?_
      constructor
      · rw [hq']
        exact ht.ids
      · rw [hq']
        exact ht.sorted

theorem Sorted.step (hs : s.Sorted) (d : Bool) {a : Action}
    (ha : ∀ c ∈ a.calls, c.forceOrder = false) :
    Holds (s.step d a) Sorted fun _ => True := by
  cases a with
  | advance t =>
    simp only [Sim.step, holds_pure]
    split
    · exact ⟨hs.ids, hs.sorted⟩
    · exact hs
  | call c => exact hs.call _ (ha c (by simp [Action.calls]))
  | sendEvent answer =>
    simp only [Sim.step, holds_ite, holds_bind, holds_require, holds_pure, implies_true, and_true]
    refine ⟨fun _ _ => ?_, fun _ => hs⟩
    refine Sorted.sendDeferredPacket (s := { s with queue := { s.queue with sendEvent := none } })
      ⟨hs.ids, hs.sorted⟩ _ answer ?_
    rintro calls rfl
    exact ha
  | retry answer =>
    simp only [Sim.step, holds_ite, holds_bind, holds_require, holds_pure, implies_true, and_true]
    refine ⟨fun _ _ => ?_, fun _ => hs⟩
    refine Sorted.sendDeferredPacket (s := { s with
      queue := { s.queue with waitingOnRetry := false }, owesRetry := false })
      ⟨hs.ids, hs.sorted⟩ _ answer ?_
    rintro calls rfl
    exact ha

/-- As long as no packet is inserted with a tick before that of the packet at
the front, the list is sorted by ready tick with equal ticks in insertion order,
and no ready packet waits behind one that is not. -/
theorem run_sorted (d : Bool) (actions : List Action) (s : Sim)
    (hcalls : ∀ a ∈ actions, ∀ c ∈ a.calls, c.forceOrder = false)
    (hrun : run d actions = .ok s) (hearly : s.early = false) :
    s.queue.transmitList.Pairwise fun a b =>
      (a.tick < b.tick ∨ a.tick = b.tick ∧ a.pkt.id < b.pkt.id) ∧
        (b.tick ≤ s.curTick → a.tick ≤ s.curTick) := by
  have hinit : Sorted init := ⟨by simp [init], by simp [init]⟩
  have hs : s.Sorted := (holds_foldlM Sorted actions hinit fun a ha t ht =>
    ht.step d (hcalls a ha)).of_ok hrun
  refine (hs.sorted hearly).imp fun {a b} hab => ⟨hab, fun hb => ?_⟩
  unfold Sooner at hab
  omega

theorem run_sorted_three : ([⟨3, ⟨0, 1, false⟩⟩, ⟨7, ⟨2, 1, false⟩⟩, ⟨9, ⟨1, 2, false⟩⟩] :
    List DeferredPacket).Pairwise fun a b =>
      (a.tick < b.tick ∨ a.tick = b.tick ∧ a.pkt.id < b.pkt.id) ∧ (b.tick ≤ 0 → a.tick ≤ 0) :=
  run_sorted true [.call ⟨1, 3, false⟩, .call ⟨2, 9, false⟩, .call ⟨1, 7, false⟩]
    ⟨0, ⟨[⟨3, ⟨0, 1, false⟩⟩, ⟨7, ⟨2, 1, false⟩⟩, ⟨9, ⟨1, 2, false⟩⟩], false, some 3⟩, false, [], [],
      3, false⟩ (by decide) rfl rfl

/-- A packet for tick 5 is inserted behind the only packet of the list, which
is for tick 10, and is still behind it when it is ready. -/
theorem run_unsorted : ∃ s, run true [.call ⟨1, 10, false⟩, .call ⟨2, 5, false⟩, .advance 5] = .ok s ∧
    s.curTick = 5 ∧ s.queue.transmitList.map (·.tick) = [10, 5] :=
  ⟨_, rfl, rfl, rfl⟩

/-! ### Sending -/

/-- A packet inserted with `force_order` is behind the packets of its address
that were inserted before it. -/
def InOrder (a b : DeferredPacket) : Prop :=
  a.pkt.forced = true → a.pkt.addr = b.pkt.addr → a.pkt.id < b.pkt.id

/-- The scheduling of the queue. While a packet is being offered no event need
be scheduled yet. -/
structure Scheduled (s : Sim) (offering : Bool) : Prop where
  idle : s.queue.transmitList = [] → s.queue.waitingOnRetry = false ∧ s.queue.sendEvent = none
  busy : s.queue.transmitList ≠ [] → offering = false →
    (s.queue.waitingOnRetry = true ↔ s.queue.sendEvent = none)
  offered : offering = true → s.queue.waitingOnRetry = false
  due : ∀ dp ∈ s.queue.transmitList.head?, (∀ w ∈ s.queue.sendEvent, dp.tick ≤ w) ∧
    (s.queue.waitingOnRetry = true → dp.tick ≤ s.curTick)
  future : ∀ w ∈ s.queue.sendEvent, s.curTick ≤ w
  owes : s.owesRetry = s.queue.waitingOnRetry
  ticks : ∀ dp ∈ s.queue.transmitList, dp.tick < maxTick

/-- What was inserted is what was sent and what is on the list, in the order
that was forced. -/
structure Kept (s : Sim) : Prop where
  ids : ((s.sent ++ s.queue.transmitList).map (·.pkt.id)).Perm (range s.next)
  ordered : (s.sent ++ s.queue.transmitList).Pairwise InOrder
  offers : ∀ o ∈ s.offers, o.1.tick ≤ o.2

structure Inv (s : Sim) (offering : Bool) : Prop extends s.Scheduled offering, s.Kept

theorem Kept.insert (hs : s.Kept) {addr tick : Nat} {forceOrder early : Bool}
    {q : PacketQueue} (hq : Placed ⟨tick, ⟨s.next, addr, forceOrder⟩⟩ forceOrder
      s.queue.transmitList q.transmitList) :
    Kept { s with queue := q, next := s.next + 1, early := early } := by
  have hmem : ∀ i ∈ s.sent ++ s.queue.transmitList, i.pkt.id < s.next := by
    intro i hi
    exact mem_range.mp (hs.ids.mem_iff.mp (mem_map_of_mem hi))
  constructor
  · rw [range_succ]
    refine List.Perm.trans ?_ ((hs.ids.append_right [s.next]))
    have hperm := (hq.perm.append_left s.sent).trans perm_middle
    exact (hperm.map (·.pkt.id)).trans (perm_append_singleton _ _).symm
  · have hold := hs.ordered
    rw [hq.split, ← append_assoc, pairwise_append] at hold
    rw [hq.placed, ← append_assoc, pairwise_append, pairwise_cons]
    refine ⟨hold.1, ⟨?_, hold.2.1⟩, ?_⟩
    · intro i hi hforced haddr
      exact absurd ⟨hforced, haddr.symm⟩ (hq.later i hi).2
    · intro i hi j hj
      rcases mem_cons.mp hj with rfl | hj
      · intro _ _
        apply hmem
        rw [hq.split, ← append_assoc]
        exact mem_append_left _ hi
      · exact hold.2.2 i hi j hj
  · exact hs.offers

theorem Inv.call {offering : Bool} (hs : s.Inv offering) (c : Call) :
    Holds (s.call true c) (·.Inv offering) fun _ => False := by
  unfold Sim.call
  split
  next hc =>
    have hplaced := schedSendTiming_list true s.queue s.curTick ⟨s.next, c.addr, c.forceOrder⟩ c.tick
      c.forceOrder
    by_cases hnil : s.queue.transmitList = []
    · obtain ⟨hw, he⟩ := hs.idle hnil
      obtain ⟨w, hrun, hwhen⟩ := schedSendEvent_idle (q := { s.queue with
        transmitList := [⟨c.tick, ⟨s.next, c.addr, c.forceOrder⟩⟩] }) hw s.curTick hc.2
      have hok : schedSendTiming true s.queue s.curTick ⟨s.next, c.addr, c.forceOrder⟩ c.tick
          c.forceOrder = .ok { s.queue with
            transmitList := [⟨c.tick, ⟨s.next, c.addr, c.forceOrder⟩⟩], sendEvent := some w } := by
        simp [schedSendTiming, require, hc.1, hnil, hrun]
      obtain ⟨hq⟩ := hplaced.of_ok hok
      have hwhen : w = max c.tick (s.curTick + 1) := by simpa [he] using hwhen
      refine holds_bind_of_ok hok ⟨⟨by simp, ?_, hs.offered, ?_, ?_, hs.owes, ?_⟩, hs.toKept.insert hq⟩
      · simp [hw]
      · simp [hw, hwhen]
      · simp only [Option.mem_some_iff, forall_eq']
        omega
      · simp [hc.2]
    · have hok : schedSendTiming true s.queue s.curTick ⟨s.next, c.addr, c.forceOrder⟩ c.tick
          c.forceOrder = .ok { s.queue with
            transmitList := (emplaceFromEnd ⟨c.tick, ⟨s.next, c.addr, c.forceOrder⟩⟩ c.forceOrder
              s.queue.transmitList.reverse).reverse } := by
        simp [schedSendTiming, require, hc.1, hnil, pure, Except.pure]
      obtain ⟨hq⟩ := hplaced.of_ok hok
      refine holds_bind_of_ok hok ⟨⟨?_, ?_, hs.offered, ?_, hs.future, hs.owes, ?_⟩,
        hs.toKept.insert hq⟩
      · intro h
        exact absurd (hq.perm.symm.trans (List.Perm.of_eq h)) (by simp)
      · exact fun _ => hs.busy hnil
      · rw [hq.head hnil]
        exact hs.due
      · intro dp hdp
        rcases mem_cons.mp (hq.perm.mem_iff.mp hdp) with rfl | hdp
        · exact hc.2
        · exact hs.ticks dp hdp
  · exact hs

/-- After an accepted packet the event is scheduled for the next one. -/
theorem Inv.scheduled (hs : s.Inv true) :
    Holds (schedSendEvent { s.queue with waitingOnRetry := false } s.curTick
      s.queue.deferredPacketReadyTime) (fun q => Inv { s with queue := q } false)
      fun _ => False := by
  have hw : { s.queue with waitingOnRetry := false } = s.queue := by rw [← hs.offered rfl]
  rw [hw]
  cases hlist : s.queue.transmitList with
  | nil =>
    have hsame : s.queue.schedSendEvent s.curTick s.queue.deferredPacketReadyTime = .ok s.queue := by
      simp [schedSendEvent, hs.offered rfl, deferredPacketReadyTime, hlist, pure, Except.pure]
    rw [hsame]
    exact ⟨⟨hs.idle, fun h => absurd hlist h, nofun, hs.due, hs.future, hs.owes, hs.ticks⟩, hs.toKept⟩
  | cons dp rest =>
    have hready : s.queue.deferredPacketReadyTime = dp.tick := by
      simp [deferredPacketReadyTime, hlist]
    have hdue := hs.due dp (by simp [hlist])
    obtain ⟨w, hrun, hwhen⟩ := schedSendEvent_idle (hs.offered rfl) s.curTick
      (hs.ticks dp (by simp [hlist]))
    have hle : dp.tick ≤ w ∧ s.curTick ≤ w := by
      rcases hwhen with rfl | he
      · omega
      · exact ⟨hdue.1 w he, hs.future w he⟩
    rw [hready, hrun]
    refine ⟨⟨?_, ?_, nofun, ?_, ?_, hs.owes, hs.ticks⟩, ⟨hs.ids, hs.ordered, hs.offers⟩⟩
    · exact fun h => absurd (hlist.symm.trans h) (by simp)
    · simp [hs.offered rfl]
    · simp [hlist, hs.offered rfl, hle.1]
    · simp [hle.2]

/-- A packet is offered when the queue does not wait and the packet at the
front is ready. -/
theorem Inv.sendDeferredPacket (hs : s.Kept) (hw : s.queue.waitingOnRetry = false)
    (ho : s.owesRetry = false) (he : s.queue.sendEvent = none) {dp : DeferredPacket}
    {rest : List DeferredPacket} (hlist : s.queue.transmitList = dp :: rest)
    (hready : dp.tick ≤ s.curTick) (hticks : ∀ dp ∈ s.queue.transmitList, dp.tick < maxTick)
    (answer : Answer) :
    Holds (s.sendDeferredPacket true answer) (·.Inv false) fun _ => False := by
  have hoffers : ∀ o ∈ s.offers ++ [(dp, s.curTick)], o.1.tick ≤ o.2 := by
    intro o hmem
    rcases mem_append.mp hmem with hmem | hmem
    · exact hs.offers o hmem
    · rwa [mem_singleton.mp hmem]
  unfold Sim.sendDeferredPacket
  refine holds_require_bind hw ?_
  rw [hlist]
  refine holds_require_bind hready ?_
  cases answer with
  | refuse =>
    rw [← hlist]
    refine ⟨⟨?_, ?_, nofun, ?_, ?_, rfl, hticks⟩, ⟨hs.ids, hs.ordered, hoffers⟩⟩
    · simp [hlist]
    · simp [he]
    · simp [hlist, he, hready]
    · simp [he]
  | accept calls =>
    have hids := hs.ids
    have hordered := hs.ordered
    rw [hlist, append_cons] at hids hordered
    have hmid : Inv { s with
        queue := { s.queue with transmitList := rest }
        offers := s.offers ++ [(dp, s.curTick)], sent := s.sent ++ [dp] } true := by
      refine ⟨⟨fun _ => ⟨hw, he⟩, nofun, fun _ => hw, ?_, ?_, ho.trans hw.symm, ?_⟩,
        ⟨hids, hordered, hoffers⟩⟩
      · simp [he, hw]
      · simp [he]
      · exact fun i hi => hticks i (by rw [hlist]; exact mem_cons_of_mem _ hi)
    simp only [holds_bind]
    refine (holds_foldlM (·.Inv true) calls hmid fun c _ t ht => ht.call c).imp fun t ht => ?_
    exact ht.scheduled.imp fun _ hq => hq

theorem Inv.step (hs : s.Inv false) (a : Action) :
    Holds (s.step true a) (·.Inv false) fun _ => False := by
  cases a with
  | advance t =>
    simp only [Sim.step, holds_pure]
    split
    next ht =>
      refine ⟨⟨hs.idle, hs.busy, hs.offered, ?_, ht.2, hs.owes, hs.ticks⟩, ⟨hs.ids, hs.ordered, hs.offers⟩⟩
      exact fun dp hdp => ⟨(hs.due dp hdp).1, fun hw => ((hs.due dp hdp).2 hw).trans ht.1⟩
    · exact hs
  | call c => exact hs.call c
  | sendEvent answer =>
    simp only [Sim.step]
    split
    next hnow =>
      -- the event is scheduled, so the list has a front and the queue does not wait
      have hne : s.queue.transmitList ≠ [] := fun h => by simp [(hs.idle h).2] at hnow
      have hw : s.queue.waitingOnRetry = false := by
        rw [Bool.eq_false_iff, ne_eq, hs.busy hne rfl, hnow]
        simp
      obtain ⟨dp, rest, hlist⟩ := exists_cons_of_ne_nil hne
      refine holds_require_bind hw ?_
      exact Inv.sendDeferredPacket (s := { s with queue := { s.queue with sendEvent := none } })
        ⟨hs.ids, hs.ordered, hs.offers⟩ hw (hs.owes.trans hw) rfl hlist
        ((hs.due dp (by simp [hlist])).1 _ hnow) hs.ticks answer
    · exact hs
  | retry answer =>
    simp only [Sim.step]
    split
    next howes =>
      have hw : s.queue.waitingOnRetry = true := hs.owes.symm.trans howes
      have hne : s.queue.transmitList ≠ [] := fun h => by simp [(hs.idle h).1] at hw
      obtain ⟨dp, rest, hlist⟩ := exists_cons_of_ne_nil hne
      refine holds_require_bind hw ?_
      exact Inv.sendDeferredPacket (s := { s with
        queue := { s.queue with waitingOnRetry := false }, owesRetry := false })
        ⟨hs.ids, hs.ordered, hs.offers⟩ rfl rfl ((hs.busy hne rfl).mp hw) hlist
        ((hs.due dp (by simp [hlist])).2 hw) hs.ticks answer
    · exact hs

/-- No assertion fails; a queue that holds packets waits for a retry or for its
event, not both; packets are offered no earlier than their tick, each one that
was inserted is sent once or still queued, and a packet with a forced order
leaves after those of its address that were inserted before it. -/
theorem run_sends (actions : List Action) : ∃ s, run true actions = .ok s ∧
    (s.queue.transmitList ≠ [] →
      Xor (s.queue.waitingOnRetry = true) (s.queue.sendEvent.isSome = true)) ∧
    (∀ o ∈ s.offers, o.1.tick ≤ o.2) ∧
    ((s.sent ++ s.queue.transmitList).map (·.pkt.id)).Perm (range s.next) ∧
    (s.sent ++ s.queue.transmitList).Pairwise InOrder := by
  have hinit : Inv init false := by
    refine ⟨⟨?_, ?_, ?_, ?_, ?_, rfl, ?_⟩, ⟨?_, ?_, ?_⟩⟩ <;> simp [init]
  obtain ⟨s, hrun, hs⟩ := (holds_foldlM (Inv · false) actions hinit fun a _ t ht =>
    ht.step a).exists_ok
  refine ⟨s, hrun, fun hne => ?_, hs.offers, hs.ids, hs.ordered⟩
  have hbusy := hs.busy hne rfl
  cases he : s.queue.sendEvent <;> simp_all [Xor]

end Sim

end PacketQueue

end Drain
