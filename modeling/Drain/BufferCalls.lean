import Drain.MessageBuffer

/-! The calls that a `MessageBuffer` answers, with the two counters that it keeps beside its heap
and its stall map: the statistic of the messages it holds and the size of the stall map. -/

namespace Drain

open List MessageBuffer Queued

variable {α : Type}

namespace MessageBuffer

/-- The stalled messages in the order of the map: by address, for one address oldest first. -/
def stallMapOrder (b : MessageBuffer α) : List (Nat × α) :=
  b.stallMsgMap.insertionSort fun x y => x.1 ≤ y.1

def reanalyzeAllMessages (b : MessageBuffer α) (currentTime : Nat) : MessageBuffer α :=
  { b with stallMsgMap := [] }.reanalyzeList currentTime (b.stallMapOrder.map Prod.snd)

/-- The message in front is popped by hand and enqueued again. -/
def delayHead (b : MessageBuffer α) (currentTime delta : Nat) : Except Failure (MessageBuffer α) := do
  let (m, rest) ← b.front currentTime
  pure ({ b with prioHeap := rest }.enqueue m.msg currentTime delta)

end MessageBuffer

structure CountedBuffer (α : Type) extends MessageBuffer α where
  stallMapSize : Int := 0
  bufMsgs : Int := 0

inductive BufferCall (α : Type) where
  | enqueue (message : α) (delta : Nat)
  | dequeue
  | delayHead (delta : Nat)
  | recycle (latency : Nat)
  | stallMessage (addr : Nat)
  | reanalyzeMessages (addr : Nat)
  | reanalyzeAllMessages

namespace CountedBuffer

variable (b : CountedBuffer α) (currentTime : Nat)

def init (α : Type) (maxSize blockSizeBits : Nat) : CountedBuffer α where
  maxSize := maxSize
  blockSizeBits := blockSizeBits

def areNSlotsAvailable (n : Nat) : Bool :=
  if b.maxSize = 0 then true
  else b.currentSize currentTime + b.stallMapSize + n ≤ b.maxSize

def enqueue (message : α) (delta : Nat) : Except Failure (CountedBuffer α) := do
  require (0 < delta) .delayNotPositive
  pure { b with
    toMessageBuffer := b.toMessageBuffer.enqueue message currentTime delta
    bufMsgs := b.bufMsgs + 1 }

def dequeue (decrementMessages : Bool) : Except Failure (α × CountedBuffer α) := do
  let (m, rest) ← b.toMessageBuffer.dequeue currentTime
  pure (m, { b with
    toMessageBuffer := rest
    bufMsgs := if decrementMessages then b.bufMsgs - 1 else b.bufMsgs })

/-- The count of the message that is popped by hand is not taken back. -/
def delayHead (delta : Nat) : Except Failure (CountedBuffer α) := do
  require (0 < delta) .delayNotPositive
  let delayed ← b.toMessageBuffer.delayHead currentTime delta
  pure { b with toMessageBuffer := delayed, bufMsgs := b.bufMsgs + 1 }

def recycle (latency : Nat) : Except Failure (CountedBuffer α) := do
  let recycled ← b.toMessageBuffer.recycle currentTime latency
  pure { b with toMessageBuffer := recycled }

def stallMessage (addr : Nat) : Except Failure (CountedBuffer α) := do
  let _ ← b.front currentTime
  require (b.getOffset addr = 0) .addressOffset
  let (m, b) ← b.dequeue currentTime false
  pure { b with
    stallMsgMap := b.stallMsgMap ++ [(addr, m)]
    stallMapSize := b.stallMapSize + 1 }

def reanalyzeMessages (addr : Nat) : Except Failure (CountedBuffer α) := do
  let size := b.stallMapSize - (b.stallMsgMap.countP (·.1 = addr) : Int)
  require (0 ≤ size) .stallMapNegative
  let reanalyzed ← b.toMessageBuffer.reanalyzeMessages addr currentTime
  pure { b with toMessageBuffer := reanalyzed, stallMapSize := size }

-- the size falls with each address, so that the last of the assertions is the strongest
def reanalyzeAllMessages : Except Failure (CountedBuffer α) := do
  let size := b.stallMapSize - (b.stallMsgMap.length : Int)
  require (0 ≤ size) .stallMapNegative
  pure { b with
    toMessageBuffer := b.toMessageBuffer.reanalyzeAllMessages currentTime
    stallMapSize := size }

def call : BufferCall α → Except Failure (CountedBuffer α)
  | .enqueue message delta => b.enqueue currentTime message delta
  | .dequeue => do
    let (_, rest) ← b.dequeue currentTime true
    pure rest
  | .delayHead delta => b.delayHead currentTime delta
  | .recycle latency => b.recycle currentTime latency
  | .stallMessage addr => b.stallMessage currentTime addr
  | .reanalyzeMessages addr => b.reanalyzeMessages currentTime addr
  | .reanalyzeAllMessages => b.reanalyzeAllMessages currentTime

def run (calls : List (Nat × BufferCall α)) : Except Failure (CountedBuffer α) :=
  calls.foldlM (fun b x => b.call x.1 x.2) b

end CountedBuffer

section Heap

variable {b : MessageBuffer α} {t : Nat}

theorem pushHeap_perm (m : Queued α) (ms : List (Queued α)) : (pushHeap m ms).Perm (m :: ms) := by
  induction ms with
  | nil => exact .refl _
  | cons m' ms ih =>
    unfold pushHeap
    split
    · exact .refl _
    · exact (ih.cons m').trans (.swap m m' ms)

@[simp] theorem length_pushHeap (m : Queued α) (ms : List (Queued α)) :
    (pushHeap m ms).length = ms.length + 1 := (pushHeap_perm m ms).length_eq

namespace MessageBuffer

@[simp] theorem enqueue_prioHeap (m : α) (d : Nat) :
    (b.enqueue m t d).prioHeap = pushHeap ⟨t + d, b.msgCounter + 1, m⟩ b.prioHeap := by
  unfold enqueue
  dsimp only
  split <;> rfl

@[simp] theorem enqueue_stallMsgMap (m : α) (d : Nat) :
    (b.enqueue m t d).stallMsgMap = b.stallMsgMap := by
  unfold enqueue
  dsimp only
  split <;> rfl

@[simp] theorem enqueue_msgCounter (m : α) (d : Nat) :
    (b.enqueue m t d).msgCounter = b.msgCounter + 1 := by
  unfold enqueue
  dsimp only
  split <;> rfl

theorem enqueue_maxSize (m : α) (d : Nat) : (b.enqueue m t d).maxSize = b.maxSize := by
  unfold enqueue
  dsimp only
  split <;> rfl

def recordPop (b : MessageBuffer α) (currentTime : Nat) : MessageBuffer α :=
  if b.timeLastTimePop < currentTime then
    { b with sizeAtCycleStart := b.prioHeap.length, timeLastTimePop := currentTime }
  else b

@[simp] theorem recordPop_stallMsgMap : (b.recordPop t).stallMsgMap = b.stallMsgMap := by
  unfold recordPop
  split <;> rfl

@[simp] theorem recordPop_msgCounter : (b.recordPop t).msgCounter = b.msgCounter := by
  unfold recordPop
  split <;> rfl

theorem recordPop_maxSize : (b.recordPop t).maxSize = b.maxSize := by
  unfold recordPop
  split <;> rfl

theorem front_eq_ok {x : Queued α × List (Queued α)} :
    b.front t = .ok x ↔ b.prioHeap = x.1 :: x.2 ∧ x.1.lastEnqueueTime ≤ t := by
  unfold front
  cases b.prioHeap with
  | nil => simp
  | cons m ms =>
    dsimp only
    split
    · next hready =>
      rw [Except.ok.injEq]
      constructor
      · rintro rfl
        exact ⟨rfl, hready⟩
      · rintro ⟨hcons, _⟩
        rw [(cons.inj hcons).1, (cons.inj hcons).2]
    · next hready =>
      refine ⟨nofun, fun h => absurd h.2 ?_⟩
      rwa [← (cons.inj h.1).1]

def restamp (t : Nat) : Nat → List α → List (Queued α)
  | _, [] => []
  | c, m :: lt => ⟨t, c + 1, m⟩ :: restamp t (c + 1) lt

@[simp] theorem restamp_msg (c : Nat) (lt : List α) : (restamp t c lt).map msg = lt := by
  induction lt generalizing c with
  | nil => rfl
  | cons m lt ih => exact congrArg (m :: ·) (ih (c + 1))

theorem reanalyzeList_eq (lt : List α) : b.reanalyzeList t lt = { b with
    msgCounter := b.msgCounter + lt.length
    prioHeap := (restamp t b.msgCounter lt).foldl (fun h m => pushHeap m h) b.prioHeap } := by
  induction lt generalizing b with
  | nil => rfl
  | cons m lt ih =>
    refine (ih (b := { b with
      msgCounter := b.msgCounter + 1
      prioHeap := pushHeap ⟨t, b.msgCounter + 1, m⟩ b.prioHeap })).trans ?_
    simp only [restamp, foldl_cons, length_cons, Nat.add_assoc, Nat.add_comm 1]

theorem foldl_pushHeap_perm (ms heap : List (Queued α)) :
    (ms.foldl (fun h m => pushHeap m h) heap).Perm (heap ++ ms) := by
  induction ms generalizing heap with
  | nil => rw [append_nil]; rfl
  | cons m ms ih =>
    refine (ih (pushHeap m heap)).trans (((pushHeap_perm m heap).append_right ms).trans ?_)
    exact perm_middle.symm

theorem reanalyzeList_prioHeap_perm (lt : List α) :
    (b.reanalyzeList t lt).prioHeap.Perm (b.prioHeap ++ restamp t b.msgCounter lt) := by
  rw [reanalyzeList_eq]
  exact foldl_pushHeap_perm _ _

theorem stallMapOrder_perm (b : MessageBuffer α) : b.stallMapOrder.Perm b.stallMsgMap :=
  perm_insertionSort _ _

end MessageBuffer

end Heap

/-- The calls that return, with what they find and what they leave. -/
inductive Called (b : CountedBuffer α) (t : Nat) : BufferCall α → CountedBuffer α → Prop
  | enqueue {m : α} {delta : Nat} (hdelta : 0 < delta) : Called b t (.enqueue m delta) { b with
      toMessageBuffer := b.toMessageBuffer.enqueue m t delta
      bufMsgs := b.bufMsgs + 1 }
  | dequeue {m : Queued α} {rest : List (Queued α)} (hheap : b.prioHeap = m :: rest)
      (hready : m.lastEnqueueTime ≤ t) : Called b t .dequeue { b with
      toMessageBuffer := { b.recordPop t with prioHeap := rest }
      bufMsgs := b.bufMsgs - 1 }
  | delayHead {m : Queued α} {rest : List (Queued α)} {delta : Nat} (hdelta : 0 < delta)
      (hheap : b.prioHeap = m :: rest) (hready : m.lastEnqueueTime ≤ t) :
      Called b t (.delayHead delta) { b with
        toMessageBuffer :=
          { b.toMessageBuffer with prioHeap := rest }.enqueue m.msg t delta
        bufMsgs := b.bufMsgs + 1 }
  | recycle {m : Queued α} {rest : List (Queued α)} {latency : Nat} (hheap : b.prioHeap = m :: rest)
      (hready : m.lastEnqueueTime ≤ t) : Called b t (.recycle latency) { b with
      prioHeap := pushHeap { m with lastEnqueueTime := t + latency } rest }
  | stallMessage {m : Queued α} {rest : List (Queued α)} {addr : Nat}
      (hheap : b.prioHeap = m :: rest) (hready : m.lastEnqueueTime ≤ t) :
      Called b t (.stallMessage addr) { b with
        toMessageBuffer := { b.recordPop t with
          prioHeap := rest
          stallMsgMap := b.stallMsgMap ++ [(addr, m.msg)] }
        stallMapSize := b.stallMapSize + 1 }
  | reanalyzeMessages {addr : Nat} (hstalled : b.stallMsgMap.filter (·.1 = addr) ≠ []) :
      Called b t (.reanalyzeMessages addr) { b with
        toMessageBuffer := reanalyzeList
          { b.toMessageBuffer with stallMsgMap := b.stallMsgMap.filter (¬·.1 = addr) } t
          ((b.stallMsgMap.filter (·.1 = addr)).map Prod.snd)
        stallMapSize := b.stallMapSize - (b.stallMsgMap.countP (·.1 = addr) : Int) }
  | reanalyzeAllMessages : Called b t .reanalyzeAllMessages { b with
      toMessageBuffer := b.toMessageBuffer.reanalyzeAllMessages t
      stallMapSize := b.stallMapSize - (b.stallMsgMap.length : Int) }

namespace CountedBuffer

section Calls

variable {b b' : CountedBuffer α} {t : Nat} {c : BufferCall α}

theorem dequeue_eq_ok {decrement : Bool} {x : α × CountedBuffer α}
    (h : b.dequeue t decrement = .ok x) : ∃ m rest, b.prioHeap = m :: rest ∧
      m.lastEnqueueTime ≤ t ∧ x = (m.msg, { b with
        toMessageBuffer := { b.recordPop t with prioHeap := rest }
        bufMsgs := if decrement then b.bufMsgs - 1 else b.bufMsgs }) := by
  obtain ⟨⟨m, rest⟩, hpop, hx⟩ := bind_eq_ok.mp h
  obtain ⟨⟨front, heap⟩, hfront, hpop⟩ := bind_eq_ok.mp hpop
  obtain ⟨hheap, hready⟩ := front_eq_ok.mp hfront
  cases hpop
  cases hx
  exact ⟨front, heap, hheap, hready, rfl⟩

theorem call_called (h : b.call t c = .ok b') : Called b t c b' := by
  cases c with
  | enqueue m delta =>
    obtain ⟨_, hdelta, h⟩ := bind_eq_ok.mp h
    cases h
    exact .enqueue (require_eq_ok.mp hdelta)
  | dequeue =>
    obtain ⟨x, hx, h⟩ := bind_eq_ok.mp h
    obtain ⟨m, rest, hheap, hready, rfl⟩ := dequeue_eq_ok hx
    cases h
    exact .dequeue hheap hready
  | delayHead delta =>
    obtain ⟨_, hdelta, h⟩ := bind_eq_ok.mp h
    obtain ⟨delayed, hdelayed, h⟩ := bind_eq_ok.mp h
    obtain ⟨x, hfront, hdelayed⟩ := bind_eq_ok.mp hdelayed
    obtain ⟨hheap, hready⟩ := front_eq_ok.mp hfront
    cases hdelayed
    cases h
    exact .delayHead (require_eq_ok.mp hdelta) hheap hready
  | recycle latency =>
    obtain ⟨recycled, hrecycled, h⟩ := bind_eq_ok.mp h
    obtain ⟨x, hfront, hrecycled⟩ := bind_eq_ok.mp hrecycled
    obtain ⟨hheap, hready⟩ := front_eq_ok.mp hfront
    cases hrecycled
    cases h
    exact .recycle hheap hready
  | stallMessage addr =>
    obtain ⟨_, _, h⟩ := bind_eq_ok.mp h
    obtain ⟨_, _, h⟩ := bind_eq_ok.mp h
    obtain ⟨x, hx, h⟩ := bind_eq_ok.mp h
    obtain ⟨m, rest, hheap, hready, rfl⟩ := dequeue_eq_ok hx
    cases h
    have hmap : (b.recordPop t).stallMsgMap = b.stallMsgMap := recordPop_stallMsgMap
    dsimp only
    rw [hmap]
    exact .stallMessage hheap hready
  | reanalyzeMessages addr =>
    obtain ⟨_, _, h⟩ := bind_eq_ok.mp h
    obtain ⟨reanalyzed, hreanalyzed, h⟩ := bind_eq_ok.mp h
    unfold MessageBuffer.reanalyzeMessages at hreanalyzed
    rw [partition_eq_filter_filter] at hreanalyzed
    obtain ⟨_, hstalled, hreanalyzed⟩ := bind_eq_ok.mp hreanalyzed
    cases hreanalyzed
    cases h
    have hothers : b.stallMsgMap.filter (fun x => ¬x.1 = addr) =
        b.stallMsgMap.filter (not ∘ fun x => decide (x.1 = addr)) := by
      refine filter_congr fun x _ => ?_
      simp
    rw [← hothers]
    exact .reanalyzeMessages (require_eq_ok.mp hstalled)
  | reanalyzeAllMessages =>
    obtain ⟨_, _, h⟩ := bind_eq_ok.mp h
    cases h
    exact .reanalyzeAllMessages

end Calls

end CountedBuffer

section Counts

variable {b b' : CountedBuffer α} {t : Nat} {c : BufferCall α} {calls : List (Nat × BufferCall α)}

def MessageBuffer.contents (b : MessageBuffer α) : List α :=
  b.prioHeap.map msg ++ b.stallMsgMap.map Prod.snd

def BufferCall.isDelayHead : BufferCall α → Bool
  | .delayHead _ => true
  | _ => false

def BufferCall.takes : BufferCall α → Bool
  | .dequeue | .delayHead _ | .recycle _ | .stallMessage _ => true
  | .enqueue _ _ | .reanalyzeMessages _ | .reanalyzeAllMessages => false

def BufferCall.inserted : BufferCall α → List α
  | .enqueue m _ => [m]
  | _ => []

def BufferCall.removed (b : MessageBuffer α) : BufferCall α → List α
  | .dequeue => (b.prioHeap.head?.map msg).toList
  | _ => []

namespace MessageBuffer

variable {b : MessageBuffer α}

theorem length_contents (b : MessageBuffer α) :
    b.contents.length = b.prioHeap.length + b.stallMsgMap.length := by
  simp [contents]

@[simp] theorem reanalyzeList_stallMsgMap (lt : List α) :
    (b.reanalyzeList t lt).stallMsgMap = b.stallMsgMap := by
  rw [reanalyzeList_eq]

theorem enqueue_contents (m : α) (d : Nat) : (b.enqueue m t d).contents.Perm (m :: b.contents) := by
  unfold contents
  rw [enqueue_prioHeap, enqueue_stallMsgMap]
  exact ((pushHeap_perm _ _).map msg).append_right _

theorem reanalyzeList_contents {moved others : List (Nat × α)}
    (h : (moved ++ others).Perm b.stallMsgMap) :
    ({ b with stallMsgMap := others }.reanalyzeList t (moved.map Prod.snd)).contents.Perm
      b.contents := by
  unfold contents
  rw [reanalyzeList_stallMsgMap]
  refine (((reanalyzeList_prioHeap_perm _).map msg).append_right _).trans ?_
  rw [map_append, restamp_msg, append_assoc, ← map_append]
  exact (h.map Prod.snd).append_left _

theorem stalled_perm (addr : Nat) :
    (b.stallMsgMap.filter (·.1 = addr) ++ b.stallMsgMap.filter (¬·.1 = addr)).Perm b.stallMsgMap := by
  simpa using filter_append_perm (fun x => decide (x.1 = addr)) b.stallMsgMap

end MessageBuffer

theorem Called.contents (h : Called b t c b') :
    (c.inserted ++ b.contents).Perm (c.removed b.toMessageBuffer ++ b'.contents) := by
  cases h with
  | enqueue _ => exact (enqueue_contents _ _).symm
  | dequeue hheap _ =>
    simp [BufferCall.inserted, BufferCall.removed, hheap, contents]
  | delayHead _ hheap _ =>
    refine .trans ?_ (enqueue_contents _ _).symm
    simp [BufferCall.inserted, contents, hheap]
  | recycle hheap _ =>
    refine .trans ?_ (((pushHeap_perm _ _).map msg).append_right _).symm
    simp [BufferCall.inserted, contents, hheap]
  | stallMessage hheap _ =>
    simp only [BufferCall.inserted, BufferCall.removed, contents, hheap,
      nil_append, map_append, map_cons, map_nil, cons_append,
      ← append_assoc]
    exact (perm_append_singleton _ _).symm
  | reanalyzeMessages _ =>
    exact (reanalyzeList_contents (stalled_perm _)).symm
  | reanalyzeAllMessages =>
    refine (reanalyzeList_contents ?_).symm
    rw [append_nil]
    exact b.stallMapOrder_perm

theorem Called.stallMapSize (h : Called b t c b') :
    b'.stallMapSize - b'.stallMsgMap.length = b.stallMapSize - b.stallMsgMap.length := by
  cases h with
  | enqueue _ | delayHead _ _ _ => rw [MessageBuffer.enqueue_stallMsgMap]
  | dequeue _ _ => rw [MessageBuffer.recordPop_stallMsgMap]
  | recycle _ _ => rfl
  | stallMessage _ _ =>
    simp only [length_append, length_singleton]
    omega
  | @reanalyzeMessages addr _ =>
    have hsplit := (b.toMessageBuffer.stalled_perm addr).length_eq
    rw [length_append, ← countP_eq_length_filter] at hsplit
    simp only [MessageBuffer.reanalyzeList_stallMsgMap]
    omega
  | reanalyzeAllMessages =>
    simp only [MessageBuffer.reanalyzeAllMessages, MessageBuffer.reanalyzeList_stallMsgMap,
      length_nil]
    omega

section StallMap

variable {addr : Nat}

theorem Called.reanalyzed (h : Called b t (.reanalyzeMessages addr) b') :
    b'.stallMsgMap = b.stallMsgMap.filter (¬·.1 = addr) := by
  cases h
  rw [reanalyzeList_stallMsgMap]

theorem Called.allReanalyzed (h : Called b t .reanalyzeAllMessages b') : b'.stallMsgMap = [] := by
  cases h
  exact reanalyzeList_stallMsgMap _

theorem Called.stalled (h : Called b t (.stallMessage addr) b') :
    ∃ m, b.prioHeap.head? = some m ∧ b'.stallMsgMap = b.stallMsgMap ++ [(addr, m.msg)] := by
  cases h with
  | @stallMessage m rest _ hheap _ => exact ⟨m, by rw [hheap]; rfl, rfl⟩

theorem Called.stallMsgMap_eq (h : Called b t c b')
    (hc : c.inserted ≠ [] ∨ c.takes = true ∧ ∀ addr, c ≠ .stallMessage addr) :
    b'.stallMsgMap = b.stallMsgMap := by
  cases h with
  | enqueue _ | delayHead _ _ _ => exact enqueue_stallMsgMap _ _
  | dequeue _ _ => exact recordPop_stallMsgMap
  | recycle _ _ => rfl
  | stallMessage _ _ => simp [BufferCall.inserted] at hc
  | reanalyzeMessages _ | reanalyzeAllMessages => simp [BufferCall.inserted, BufferCall.takes] at hc

end StallMap

theorem Called.bufMsgs (h : Called b t c b') : b'.bufMsgs - b'.contents.length =
    b.bufMsgs - b.contents.length + (if c.isDelayHead then 1 else 0) := by
  have hlength := h.contents.length_eq
  rw [length_append, length_append] at hlength
  cases h with
  | dequeue hheap _ =>
    simp [BufferCall.inserted, BufferCall.removed, BufferCall.isDelayHead, hheap] at hlength ⊢
    omega
  | _ =>
    simp [BufferCall.inserted, BufferCall.removed, BufferCall.isDelayHead] at hlength ⊢
    omega

namespace CountedBuffer

theorem run_counts (h : b.run calls = .ok b') :
    b'.stallMapSize - b'.stallMsgMap.length = b.stallMapSize - b.stallMsgMap.length ∧
    b'.bufMsgs - b'.contents.length =
      b.bufMsgs - b.contents.length + calls.countP (·.2.isDelayHead) := by
  induction calls generalizing b with
  | nil =>
    cases h
    simp
  | cons x calls ih =>
    obtain ⟨b₁, hcall, h⟩ := bind_eq_ok.mp h
    have hcalled := call_called hcall
    obtain ⟨hmap, hmsgs⟩ := ih h
    refine ⟨hmap.trans hcalled.stallMapSize, ?_⟩
    rw [hmsgs, hcalled.bufMsgs, countP_cons]
    split <;> push_cast <;> omega

theorem counters_exact {maxSize blockSizeBits : Nat}
    (h : (init α maxSize blockSizeBits).run calls = .ok b)
    (hdelay : ∀ x ∈ calls, x.2.isDelayHead = false) :
    b.bufMsgs = b.prioHeap.length + b.stallMsgMap.length ∧
      b.stallMapSize = b.stallMsgMap.length := by
  obtain ⟨hmap, hmsgs⟩ := run_counts h
  have hnone : calls.countP (·.2.isDelayHead) = 0 :=
    countP_eq_zero.mpr fun x hx => by rw [hdelay x hx]; exact Bool.false_ne_true
  rw [hnone, length_contents] at hmsgs
  simp only [init, contents, map_nil, append_nil, length_nil] at hmap hmsgs
  omega

/-- A message is stalled, a second one recycled, and the first one returns. -/
theorem counters_exact_three : ∃ b, (init Nat 3 6).run
    [(1, .enqueue 7 1), (1, .enqueue 8 1), (2, .stallMessage 320), (2, .recycle 4),
      (3, .reanalyzeMessages 320)] = .ok b ∧ b.bufMsgs = 2 ∧
    b.bufMsgs = b.prioHeap.length + b.stallMsgMap.length := by
  obtain ⟨b, hrun, hmsgs⟩ : ∃ b, (init Nat 3 6).run
      [(1, .enqueue 7 1), (1, .enqueue 8 1), (2, .stallMessage 320), (2, .recycle 4),
        (3, .reanalyzeMessages 320)] = .ok b ∧ b.bufMsgs = 2 := ⟨_, rfl, rfl⟩
  exact ⟨b, hrun, hmsgs, (counters_exact hrun (by simp [BufferCall.isDelayHead])).1⟩

theorem bufMsgs_exceeds_delayHead : ∃ b,
    (init Nat 3 6).run [(1, .enqueue 7 1), (2, .delayHead 1)] = .ok b ∧
      b.bufMsgs = 2 ∧ b.prioHeap.length + b.stallMsgMap.length = 1 :=
  ⟨_, rfl, rfl, rfl⟩

end CountedBuffer

end Counts

end Drain
