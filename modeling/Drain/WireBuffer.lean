import Drain.Lib.BinaryHeap
import Drain.Lib.Calls
import Drain.MessageBuffer

/-! `WireBuffer`: a queue between two controllers. Messages leave it through a heap, but a message
is appended to the array without being sifted into the heap, and its counter is not set. -/

namespace Drain

open Function Queued Multiset Heap

inductive WireFailure where
  | arrivalTime
  | noConsumer
  | notReady
  deriving DecidableEq

/-- A message is named by its number in the order of the calls of `enqueue`. -/
structure WireBuffer where
  messageQueue : Nat → Queued Nat := fun _ => ⟨0, 0, 0⟩
  size : Nat := 0
  msgCounter : Nat := 0
  -- the times for which the consumer was scheduled, where there is one
  consumer : Option (List Nat) := some []
  -- the time of the last call
  now : Nat := 0

inductive WireCall where
  -- `counter` is what the message has as its own counter
  | enqueue (counter delta : Nat)
  | dequeue
  | recycle (latency : Nat)

namespace WireBuffer

variable (b : WireBuffer) (currentTime : Nat)

def isReady : Bool := 0 < b.size && (b.messageQueue 0).lastEnqueueTime ≤ currentTime

def schedule (time : Nat) : Except WireFailure WireBuffer :=
  match b.consumer with
  | none => throw .noConsumer
  | some wakeups => pure { b with consumer := some (wakeups ++ [time]) }

def enqueue (counter delta : Nat) : Except WireFailure WireBuffer := do
  let b := { b with msgCounter := b.msgCounter + 1 }
  let arrivalTime := currentTime + delta
  require (currentTime < arrivalTime) .arrivalTime
  let b := { b with
    messageQueue := update b.messageQueue b.size ⟨arrivalTime, counter, b.msgCounter⟩
    size := b.size + 1 }
  b.schedule arrivalTime

def dequeue : Except WireFailure WireBuffer := do
  require (b.isReady currentTime = true) .notReady
  pure { b with
    messageQueue := popHeap later b.size b.messageQueue
    size := b.size - 1 }

def recycle (recycleLatency : Nat) : Except WireFailure WireBuffer := do
  require (b.isReady currentTime = true) .notReady
  let node := b.messageQueue 0
  let queue := popHeap later b.size b.messageQueue
  let futureTime := currentTime + recycleLatency
  let queue := update queue (b.size - 1) { node with lastEnqueueTime := futureTime }
  let b := { b with messageQueue := Heap.pushHeap later b.size queue }
  b.schedule futureTime

def call : WireCall → Except WireFailure WireBuffer
  | .enqueue counter delta => b.enqueue currentTime counter delta
  | .dequeue => b.dequeue currentTime
  | .recycle latency => b.recycle currentTime latency

/-- Calls with times that do not decrease and positive delays; messages are enqueued as `may`
allows. -/
def calls (may : WireBuffer → Nat → Nat → Prop) : Calls WireBuffer (Nat × WireCall) WireFailure where
  valid b
    | (t, .enqueue counter delta) => b.now ≤ t ∧ 0 < delta ∧ may b counter (t + delta)
    | (t, .dequeue) => b.now ≤ t ∧ b.isReady t = true
    | (t, .recycle _) => b.now ≤ t ∧ b.isReady t = true
  call b x := do
    let b' ← b.call x.1 x.2
    pure { b' with now := x.1 }

/-- A message that arrives after those in the queue, or with some of them, but has no smaller
counter than these. -/
def Last (counter arrivalTime : Nat) : Prop :=
  ∀ i < b.size, (b.messageQueue i).lastEnqueueTime < arrivalTime ∨
    ((b.messageQueue i).lastEnqueueTime = arrivalTime ∧ (b.messageQueue i).msgCounter ≤ counter)

/-- A counter greater than those of the messages in the queue. -/
def Fresh (counter : Nat) : Prop := ∀ i < b.size, (b.messageQueue i).msgCounter < counter

instance (counter arrivalTime : Nat) : Decidable (b.Last counter arrivalTime) :=
  inferInstanceAs (Decidable (∀ i < b.size, _ ∨ _))

instance (counter : Nat) : Decidable (b.Fresh counter) :=
  inferInstanceAs (Decidable (∀ i < b.size, _))

instance (may : WireBuffer → Nat → Nat → Prop) [∀ b c t, Decidable (may b c t)] (b : WireBuffer)
    (x : Nat × WireCall) : Decidable ((calls may).valid b x) :=
  match x with
  | (t, .enqueue counter delta) =>
    inferInstanceAs (Decidable (b.now ≤ t ∧ 0 < delta ∧ may b counter (t + delta)))
  | (t, .dequeue) | (t, .recycle _) => inferInstanceAs (Decidable (b.now ≤ t ∧ b.isReady t = true))

def queued : Multiset (Queued Nat) := contents b.size b.messageQueue

def key (m : Queued Nat) : Nat ×ₗ Nat := toLex (m.lastEnqueueTime, m.msgCounter)

theorem later_iff (l r : Queued Nat) : l.later r = true ↔ key r < key l := by
  unfold later key
  rw [Prod.Lex.toLex_lt_toLex]
  split <;> simp <;> omega

variable {b} {b' : WireBuffer} {t : Nat} {m m' : Queued Nat} {fresh : Prop}
  {may : WireBuffer → Nat → Nat → Prop}

theorem mem_queued : m ∈ b.queued ↔ ∃ i < b.size, b.messageQueue i = m := mem_contents

/-- The array is a heap, and the counters of the messages agree with the order of the calls where
each was `fresh`. -/
structure Ok (fresh : Prop) (b : WireBuffer) : Prop where
  heap : Heap.IsHeap key b.size b.messageQueue
  numbered : ∀ m ∈ b.queued, m.msg ≤ b.msgCounter
  agree : fresh → ∀ m ∈ b.queued, ∀ m' ∈ b.queued, m.msgCounter ≤ m'.msgCounter → m.msg ≤ m'.msg
  consumer : b.consumer ≠ none

theorem isReady_pos (h : b.isReady t = true) : 0 < b.size := by
  simp [isReady] at h
  exact h.1

theorem Ok.schedule (h : b.Ok fresh) (time : Nat) :
    Holds (b.schedule time) (Ok fresh) fun _ => False := by
  unfold WireBuffer.schedule
  split
  · next hnone => exact absurd hnone h.consumer
  · exact ⟨h.heap, h.numbered, h.agree, nofun⟩

theorem Ok.enqueue {counter delta : Nat} (h : b.Ok fresh) (hdelta : 0 < delta)
    (hlast : b.Last counter (t + delta)) (hfresh : fresh → b.Fresh counter) :
    Holds (b.enqueue t counter delta) (Ok fresh) fun _ => False := by
  refine holds_require_bind (Nat.lt_add_of_pos_right hdelta) ?_
  dsimp only
  apply Ok.schedule
  refine ⟨?_, fun m hm => ?_, fun hf m hm m' hm' hle => ?_, h.consumer⟩
  · exact h.heap.append fun i hi => Prod.Lex.toLex_le_toLex.mpr (hlast i hi)
  · unfold queued at hm
    rw [contents_append, mem_cons] at hm
    rcases hm with rfl | hm
    · exact le_rfl
    · exact (h.numbered m hm).trans (Nat.le_succ _)
  · unfold queued at hm hm'
    rw [contents_append, mem_cons] at hm hm'
    rcases hm with rfl | hm
    · rcases hm' with rfl | hm'
      · exact le_rfl
      · -- the new message has the greatest counter
        obtain ⟨i, hi, rfl⟩ := mem_queued.mp hm'
        exact absurd (hfresh hf i hi) (not_lt.mpr hle)
    · rcases hm' with rfl | hm'
      · exact (h.numbered m hm).trans (Nat.le_succ _)
      · exact h.agree hf m hm m' hm' hle

theorem Ok.dequeue (h : b.Ok fresh) (hready : b.isReady t = true) :
    Holds (b.dequeue t) (fun b' => b'.Ok fresh ∧ b.queued = b.messageQueue 0 ::ₘ b'.queued)
      fun _ => False := by
  refine holds_require_bind hready ?_
  obtain ⟨hheap, hcontents⟩ := popHeap_spec later_iff h.heap (isReady_pos hready)
  have hsub : ∀ m ∈ contents (b.size - 1) (popHeap later b.size b.messageQueue),
      m ∈ b.queued := fun m hm => by
    unfold queued
    rw [← hcontents]
    exact mem_cons_of_mem hm
  refine ⟨⟨hheap, fun m hm => h.numbered m (hsub m hm),
    fun hf m hm m' hm' => h.agree hf m (hsub m hm) m' (hsub m' hm'), h.consumer⟩, hcontents.symm⟩

theorem Ok.recycle {latency : Nat} (h : b.Ok fresh) (hready : b.isReady t = true) :
    Holds (b.recycle t latency) (Ok fresh) fun _ => False := by
  refine holds_require_bind hready ?_
  have hpos := isReady_pos hready
  obtain ⟨hheap, hcontents⟩ := Heap.popHeap_spec later_iff h.heap hpos
  dsimp only
  apply Ok.schedule
  -- every message in the queue has the counter and the number of one that was there before
  have hold : ∀ m ∈ Heap.contents b.size (Heap.pushHeap later b.size
      (update (Heap.popHeap later b.size b.messageQueue) (b.size - 1)
        { b.messageQueue 0 with lastEnqueueTime := t + latency })),
      ∃ m' ∈ b.queued, m'.msgCounter = m.msgCounter ∧ m'.msg = m.msg := by
    intro m hm
    rw [Heap.pushHeap_contents hpos, Heap.contents_set_last hpos, mem_cons] at hm
    unfold queued
    rw [← hcontents]
    rcases hm with rfl | hm
    · exact ⟨_, mem_cons_self _ _, rfl, rfl⟩
    · exact ⟨m, mem_cons_of_mem hm, rfl, rfl⟩
  refine ⟨Heap.pushHeap_isHeap later_iff (fun i hi hn => ?_) hpos, fun m hm => ?_,
    fun hf m hm m' hm' hle => ?_, h.consumer⟩
  · have hlt := Heap.parent_lt hi
    have hlast : i < b.size - 1 := hn
    rw [update_of_ne (hlt.trans hlast).ne, update_of_ne hlast.ne]
    exact hheap i hi hlast
  · obtain ⟨m', hm', _, hnumber⟩ := hold m hm
    exact hnumber ▸ h.numbered m' hm'
  · obtain ⟨k, hk, hkcounter, hknumber⟩ := hold m hm
    obtain ⟨k', hk', hkcounter', hknumber'⟩ := hold m' hm'
    rw [← hknumber, ← hknumber']
    exact h.agree hf k hk k' hk' (by rwa [hkcounter, hkcounter'])

theorem Ok.call {x : Nat × WireCall} (hmay : ∀ b c t, may b c t → b.Last c t)
    (hfresh : fresh → ∀ b c t, may b c t → b.Fresh c) (h : b.Ok fresh)
    (hvalid : (calls may).valid b x) (hcall : (calls may).call b x = .ok b') : b'.Ok fresh := by
  obtain ⟨u, hu, hcall⟩ := bind_eq_ok.mp hcall
  cases hcall
  have hok : u.Ok fresh := by
    obtain ⟨t, c⟩ := x
    cases c with
    | enqueue counter delta =>
      obtain ⟨-, hdelta, hx⟩ := hvalid
      exact (h.enqueue hdelta (hmay b _ _ hx) fun hf => hfresh hf b _ _ hx).of_ok hu
    | dequeue => exact ((h.dequeue hvalid.2).of_ok hu).1
    | recycle latency => exact (h.recycle hvalid.2).of_ok hu
  exact ⟨hok.heap, hok.numbered, hok.agree, hok.consumer⟩

theorem ok_init : Ok fresh {} :=
  ⟨fun i _ hi => absurd hi (Nat.not_lt_zero i), by simp [queued, contents],
    by simp [queued, contents], nofun⟩

/-- While no message is enqueued to arrive before those in the queue, nor with one of a greater
counter, the buffer is ready when some message has arrived, and the earliest message leaves first. Of
several with one arrival time it is the one that was enqueued first if each message had a counter
greater than those in the queue. -/
theorem wireBuffer_order (hmay : ∀ b c t, may b c t → b.Last c t) (h : (calls may).Runs {} b)
    (t : Nat) :
    (b.isReady t = true ↔ ∃ m ∈ b.queued, m.lastEnqueueTime ≤ t) ∧
      (b.isReady t = true → ∃ b' m, b.dequeue t = .ok b' ∧ b.queued = m ::ₘ b'.queued ∧
        (∀ m' ∈ b.queued, m.lastEnqueueTime ≤ m'.lastEnqueueTime) ∧
        ((∀ b c t, may b c t → b.Fresh c) →
          ∀ m' ∈ b.queued, m.lastEnqueueTime = m'.lastEnqueueTime → m.msg ≤ m'.msg)) := by
  have hok := h.keeps (fun _ _ _ hs hvalid hcall => Ok.call hmay id hs hvalid hcall) ok_init
  have hkey : ∀ m ∈ b.queued, (b.messageQueue 0).lastEnqueueTime < m.lastEnqueueTime ∨
      ((b.messageQueue 0).lastEnqueueTime = m.lastEnqueueTime ∧
        (b.messageQueue 0).msgCounter ≤ m.msgCounter) := by
    intro m hm
    obtain ⟨i, hi, rfl⟩ := mem_queued.mp hm
    exact Prod.Lex.toLex_le_toLex.mp (hok.heap.root_le hi)
  refine ⟨⟨fun hready => ?_, fun ⟨m, hm, hle⟩ => ?_⟩, fun hready => ?_⟩
  · simp only [isReady, Bool.and_eq_true, decide_eq_true_eq] at hready
    exact ⟨_, mem_queued.mpr ⟨0, hready.1, rfl⟩, hready.2⟩
  · obtain ⟨i, hi, _⟩ := mem_queued.mp hm
    have htime := hkey m hm
    simp only [isReady, Bool.and_eq_true, decide_eq_true_eq]
    omega
  · obtain ⟨b', hb', _, hqueued⟩ := (hok.dequeue hready).exists_ok
    have hself : b.messageQueue 0 ∈ b.queued := mem_queued.mpr ⟨0, isReady_pos hready, rfl⟩
    refine ⟨b', _, hb', hqueued, fun m hm => ?_, fun hfresh m hm htie => ?_⟩
    · have htime := hkey m hm
      omega
    · have htime := hkey m hm
      exact hok.agree hfresh _ hself m hm (by omega)

/-- Three messages, of which two arrive at one time; the first one is recycled to that time. -/
theorem wireBuffer_order_three : ∃ b : WireBuffer, b.size = 3 ∧ b.isReady 5 = true ∧
    (∃ m ∈ b.queued, m.lastEnqueueTime ≤ 5) ∧ ∃ b' m, b.dequeue 5 = .ok b' ∧
      b.queued = m ::ₘ b'.queued ∧ ∀ m' ∈ b.queued, m.lastEnqueueTime = m'.lastEnqueueTime →
        m.msg ≤ m'.msg := by
  obtain ⟨b, hrun, hsize, hready⟩ := Calls.exists_run
    (m := calls fun b c t => b.Last c t ∧ b.Fresh c) (s := ({} : WireBuffer))
    (Q := fun b => b.size = 3 ∧ b.isReady 5 = true)
    [(0, .enqueue 1 2), (0, .enqueue 4 5), (0, .enqueue 7 5), (3, .recycle 2)] (by decide +kernel)
  obtain ⟨hiff, hleaves⟩ := wireBuffer_order (fun _ _ _ h => h.1) hrun 5
  obtain ⟨b', m, hb', hqueued, _, hfifo⟩ := hleaves hready
  exact ⟨b, hsize, hready, hiff.mp hready, b', m, hb', hqueued, hfifo fun _ _ _ h => h.2⟩

/-- A message with a delay of 10 and then one with a delay of 1: the second one has arrived at time
1, but the buffer is not ready. -/
theorem not_ready_short_delay : ∃ b, (calls fun _ _ _ => True).Runs {} b ∧
    b.isReady 1 = false ∧ ∃ i < b.size, (b.messageQueue i).lastEnqueueTime ≤ 1 :=
  Calls.exists_run (m := calls fun _ _ _ => True) (s := ({} : WireBuffer))
    (Q := fun b => b.isReady 1 = false ∧ ∃ i < b.size, (b.messageQueue i).lastEnqueueTime ≤ 1)
    [(0, .enqueue 0 10), (0, .enqueue 0 1)] (by decide +kernel)

end WireBuffer

end Drain
