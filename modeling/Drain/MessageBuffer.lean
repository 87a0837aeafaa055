import Drain.Lib.Frame
import Drain.Flit

/-! `MessageBuffer`: the protocol's queue behind a network interface. Its visible size counts
enqueues at once and pops only from the next cycle on. -/

namespace Drain

variable {α : Type}

structure Queued (α : Type) where
  lastEnqueueTime : Nat
  msgCounter : Nat
  msg : α
  deriving DecidableEq

/-- The heap's order on messages, `operator>`. -/
def Queued.later (l r : Queued α) : Bool :=
  if l.lastEnqueueTime = r.lastEnqueueTime then r.msgCounter < l.msgCounter
  else r.lastEnqueueTime < l.lastEnqueueTime

/-- `push_heap`, on the list of the messages in the order in which they leave. -/
def pushHeap (m : Queued α) : List (Queued α) → List (Queued α)
  | [] => [m]
  | m' :: ms => if m'.later m then m :: m' :: ms else m' :: pushHeap m ms

structure MessageBuffer (α : Type) where
  maxSize : Nat
  -- of the cache lines, kept by `RubySystem`
  blockSizeBits : Nat := 6
  prioHeap : List (Queued α) := []
  -- the address for which a message was stalled, and the message, oldest first
  stallMsgMap : List (Nat × α) := []
  msgCounter : Nat := 0
  timeLastTimeEnqueue : Nat := 0
  timeLastTimePop : Nat := 0
  sizeAtCycleStart : Nat := 0
  msgsThisCycle : Nat := 0
  dequeueCallback : Bool := false

namespace MessageBuffer

def currentSize (b : MessageBuffer α) (currentTime : Nat) : Nat :=
  if b.timeLastTimePop < currentTime then b.prioHeap.length
  else if b.timeLastTimeEnqueue < currentTime then b.sizeAtCycleStart
  else b.sizeAtCycleStart + b.msgsThisCycle

def areNSlotsAvailable (b : MessageBuffer α) (n currentTime : Nat) : Bool :=
  if b.maxSize = 0 then true
  else b.currentSize currentTime + b.stallMsgMap.length + n ≤ b.maxSize

def enqueue (b : MessageBuffer α) (message : α) (currentTime delta : Nat) : MessageBuffer α :=
  let b := if b.timeLastTimeEnqueue < currentTime then
    { b with msgsThisCycle := 0, timeLastTimeEnqueue := currentTime } else b
  let b := { b with msgCounter := b.msgCounter + 1, msgsThisCycle := b.msgsThisCycle + 1 }
  { b with prioHeap := pushHeap ⟨currentTime + delta, b.msgCounter, message⟩ b.prioHeap }

def registerDequeueCallback (b : MessageBuffer α) : MessageBuffer α :=
  { b with dequeueCallback := true }

def unregisterDequeueCallback (b : MessageBuffer α) : MessageBuffer α :=
  { b with dequeueCallback := false }

/-- The message in front and the rest; `isReady` is asserted before. -/
def front (b : MessageBuffer α) (currentTime : Nat) : Except Failure (Queued α × List (Queued α)) :=
  match b.prioHeap with
  | [] => .error .emptyBuffer
  | m :: ms => if m.lastEnqueueTime ≤ currentTime then .ok (m, ms) else .error .emptyBuffer

def dequeue (b : MessageBuffer α) (currentTime : Nat) : Except Failure (α × MessageBuffer α) := do
  let (m, rest) ← b.front currentTime
  let b := if b.timeLastTimePop < currentTime then
    { b with sizeAtCycleStart := b.prioHeap.length, timeLastTimePop := currentTime } else b
  pure (m.msg, { b with prioHeap := rest })

def recycle (b : MessageBuffer α) (currentTime recycleLatency : Nat) :
    Except Failure (MessageBuffer α) := do
  let (m, rest) ← b.front currentTime
  pure { b with
    prioHeap := pushHeap { m with lastEnqueueTime := currentTime + recycleLatency } rest }

/-- The position of the address in its line. -/
def getOffset (b : MessageBuffer α) (addr : Nat) : Nat := addr % 2 ^ b.blockSizeBits

def stallMessage (b : MessageBuffer α) (addr currentTime : Nat) :
    Except Failure (MessageBuffer α) := do
  let _ ← b.front currentTime
  require (b.getOffset addr = 0) .addressOffset
  let (m, b) ← b.dequeue currentTime
  pure { b with stallMsgMap := b.stallMsgMap ++ [(addr, m)] }

/-- `reanalyzeList`: the stalled messages return to the heap, in their order. -/
def reanalyzeList (b : MessageBuffer α) (schdTick : Nat) (lt : List α) : MessageBuffer α :=
  lt.foldl (fun b m => { b with
    msgCounter := b.msgCounter + 1
    prioHeap := pushHeap ⟨schdTick, b.msgCounter + 1, m⟩ b.prioHeap }) b

def reanalyzeMessages (b : MessageBuffer α) (addr currentTime : Nat) :
    Except Failure (MessageBuffer α) := do
  let (stalled, others) := b.stallMsgMap.partition (·.1 = addr)
  require (stalled ≠ []) .emptyBuffer
  pure ({ b with stallMsgMap := others }.reanalyzeList currentTime (stalled.map Prod.snd))

inductive Op where
  | dequeue
  | recycle (latency : Nat)
  | stallMessage (addr : Nat)
  | reanalyzeMessages (addr : Nat)

def Op.pops : Op → Bool
  | .dequeue | .stallMessage _ => true
  | .recycle _ | .reanalyzeMessages _ => false

def apply (b : MessageBuffer α) (currentTime : Nat) : Op → Except Failure (MessageBuffer α)
  | .dequeue => do
    let (_, b) ← b.dequeue currentTime
    pure b
  | .recycle latency => b.recycle currentTime latency
  | .stallMessage addr => b.stallMessage addr currentTime
  | .reanalyzeMessages addr => b.reanalyzeMessages addr currentTime

def isEmpty (b : MessageBuffer α) : Bool := b.prioHeap.isEmpty && b.stallMsgMap.isEmpty

section Lemmas

variable {b : MessageBuffer α} {t n : Nat}

@[simp] theorem enqueue_dequeueCallback (b : MessageBuffer α) (m : α) (t d : Nat) :
    (b.enqueue m t d).dequeueCallback = b.dequeueCallback := by
  unfold enqueue
  dsimp only
  split <;> rfl

theorem dequeue_callback (b : MessageBuffer α) (t : Nat) :
    Frames (b.dequeue t) (·.2.dequeueCallback) b.dequeueCallback := by
  refine frames_bind fun x => ?_
  dsimp only
  split <;> rfl

theorem reanalyzeList_callback (b : MessageBuffer α) (t : Nat) (l : List α) :
    (b.reanalyzeList t l).dequeueCallback = b.dequeueCallback := by
  unfold reanalyzeList
  induction l generalizing b with
  | nil => rfl
  | cons m l ih => exact ih _

theorem apply_callback (b : MessageBuffer α) (t : Nat) (op : Op) :
    Frames (b.apply t op) dequeueCallback b.dequeueCallback := by
  cases op with
  | dequeue => exact (dequeue_callback b t).bind fun x hx => hx
  | recycle latency => exact frames_bind fun x => rfl
  | stallMessage addr =>
    exact frames_bind fun _ => frames_bind fun _ => (dequeue_callback b t).bind fun x hx => hx
  | reanalyzeMessages addr => exact frames_bind fun _ => reanalyzeList_callback _ _ _

theorem pushHeap_ne_nil (m : Queued α) (ms : List (Queued α)) : pushHeap m ms ≠ [] := by
  cases ms with
  | nil => exact List.cons_ne_nil _ _
  | cons m' ms =>
    unfold pushHeap
    split <;> exact List.cons_ne_nil _ _

theorem enqueue_isEmpty (b : MessageBuffer α) (m : α) (t d : Nat) :
    (b.enqueue m t d).isEmpty = false := by
  simp [isEmpty, enqueue, pushHeap_ne_nil]

theorem isEmpty_of_full (hfull : b.areNSlotsAvailable 1 t = false) (hpop : b.timeLastTimePop < t) :
    b.isEmpty = false := by
  unfold areNSlotsAvailable currentSize at hfull
  by_cases hmax : b.maxSize = 0
  · simp [hmax] at hfull
  · simp only [hmax, if_false, hpop, if_true, decide_eq_false_iff_not] at hfull
    by_contra hempty
    simp only [isEmpty, Bool.not_eq_false, Bool.and_eq_true, List.isEmpty_iff] at hempty
    simp only [hempty.1, hempty.2, List.length_nil] at hfull
    omega

end Lemmas

end MessageBuffer

end Drain
