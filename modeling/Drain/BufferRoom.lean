import Drain.BufferCalls

/-! Room in a finite buffer. A client asks for a slot before each enqueue; the answer is computed
from the size at the first pop of the cycle, to which a reanalysis does not add. -/

namespace Drain

open List MessageBuffer

variable {α : Type}

/-- A buffer with the time of its last call and, for that time, the messages popped and the
messages that a reanalysis returned after a pop. -/
structure Usage (α : Type) where
  buf : CountedBuffer α
  now : Nat := 0
  popped : Nat := 0
  returned : Nat := 0

namespace Usage

variable (u : Usage α)

def init (α : Type) (maxSize blockSizeBits : Nat) : Usage α where
  buf := .init α maxSize blockSizeBits

def advance (t : Nat) : Usage α :=
  if u.now < t then { u with now := t, popped := 0, returned := 0 } else u

def record (c : BufferCall α) (b : CountedBuffer α) : Usage α :=
  match c with
  | .dequeue | .stallMessage _ => { u with buf := b, popped := u.popped + 1 }
  | .reanalyzeMessages _ | .reanalyzeAllMessages =>
    { u with
      buf := b
      returned := if u.buf.timeLastTimePop = u.now then
          u.returned + (b.prioHeap.length - u.buf.prioHeap.length)
        else u.returned }
  | .enqueue _ _ | .delayHead _ | .recycle _ => { u with buf := b }

/-- What the client may call: nothing but an enqueue for which there is room, a pop, a stall or a
reanalysis. -/
def valid (t : Nat) : BufferCall α → Prop
  | .enqueue _ _ => u.buf.areNSlotsAvailable t 1 = true
  | .dequeue | .stallMessage _ | .reanalyzeMessages _ | .reanalyzeAllMessages => True
  | .delayHead _ | .recycle _ => False

instance (t : Nat) (c : BufferCall α) : Decidable (u.valid t c) :=
  match c with
  | .enqueue _ _ => inferInstanceAs (Decidable (_ = true))
  | .dequeue | .stallMessage _ | .reanalyzeMessages _ | .reanalyzeAllMessages =>
    inferInstanceAs (Decidable True)
  | .delayHead _ | .recycle _ => inferInstanceAs (Decidable False)

def perform (t : Nat) (c : BufferCall α) : Except Failure (Usage α) := do
  let b ← u.buf.call t c
  pure ((u.advance t).record c b)

def Balanced : Prop := u.returned ≤ u.popped

instance : Decidable u.Balanced := inferInstanceAs (Decidable (_ ≤ _))

def Step (P : Usage α → Prop) (u u' : Usage α) : Prop :=
  ∃ t c, u.now ≤ t ∧ u.valid t c ∧ (∀ m d, c = .enqueue m d → P (u.advance t)) ∧
    u.perform t c = .ok u'

def Reachable (P : Usage α → Prop) (maxSize : Nat) (u : Usage α) : Prop :=
  ∃ blockSizeBits, Relation.ReflTransGen (Step P) (init α maxSize blockSizeBits) u

def runCalls (P : Usage α → Prop) [DecidablePred P] :
    List (Nat × BufferCall α) → Usage α → Option (Usage α)
  | [], u => some u
  | (t, c) :: calls, u =>
    if u.now ≤ t ∧ u.valid t c ∧ P (u.advance t) then
      match u.perform t c with
      | .ok u' => runCalls P calls u'
      | .error _ => none
    else none

theorem reachable_of_runCalls {P : Usage α → Prop} [DecidablePred P] {maxSize : Nat}
    {calls : List (Nat × BufferCall α)} {u u' : Usage α} (h : u.Reachable P maxSize)
    (hrun : runCalls P calls u = some u') : u'.Reachable P maxSize := by
  induction calls generalizing u with
  | nil =>
    cases hrun
    exact h
  | cons x calls ih =>
    unfold runCalls at hrun
    split at hrun
    · next hok =>
      split at hrun
      · next hperform =>
        obtain ⟨bits, h⟩ := h
        exact ih ⟨bits, h.tail ⟨x.1, x.2, hok.1, hok.2.1, fun _ _ _ => hok.2.2, hperform⟩⟩ hrun
      · cases hrun
    · cases hrun

theorem exists_reachable {P Q : Usage α → Prop} [DecidablePred P] [DecidablePred Q] {maxSize : Nat}
    (calls : List (Nat × BufferCall α))
    (h : (runCalls P calls (init α maxSize 6)).any (fun u => decide (Q u)) = true) :
    ∃ u : Usage α, u.Reachable P maxSize ∧ Q u := by
  cases hrun : runCalls P calls (init α maxSize 6) with
  | none => simp [hrun] at h
  | some u =>
    rw [hrun] at h
    exact ⟨u, reachable_of_runCalls ⟨6, .refl⟩ hrun, of_decide_eq_true h⟩

section Room

variable {u u' : Usage α} {b : CountedBuffer α} {t : Nat} {c : BufferCall α}

/-- What a buffer has recorded about the present time. While pops count, the size at the first of
them and the messages enqueued bound the heap, but for the messages returned since. -/
structure Recorded (b : MessageBuffer α) (now popped returned : Nat) : Prop where
  lastPop : b.timeLastTimePop ≤ now
  lastEnqueue : b.timeLastTimeEnqueue ≤ now
  unpopped : b.timeLastTimePop < now → popped = 0
  snapshot : b.timeLastTimePop = now → b.prioHeap.length + popped ≤
    b.sizeAtCycleStart + (if b.timeLastTimeEnqueue = now then b.msgsThisCycle else 0) + returned

structure Ok (u : Usage α) : Prop where
  fits : u.buf.maxSize ≠ 0 → u.buf.contents.length ≤ u.buf.maxSize
  stallMap : u.buf.stallMapSize = u.buf.stallMsgMap.length
  recorded : Recorded u.buf.toMessageBuffer u.now u.popped u.returned

@[simp] theorem advance_buf : (u.advance t).buf = u.buf := by
  unfold advance
  split <;> rfl

theorem advance_now (ht : u.now ≤ t) : (u.advance t).now = t := by
  unfold advance
  split
  · rfl
  · omega

theorem Ok.advance (h : u.Ok) (ht : u.now ≤ t) : (u.advance t).Ok := by
  unfold Usage.advance
  split
  · next hlt =>
    obtain ⟨hpop, henqueue, _, _⟩ := h.recorded
    exact ⟨h.fits, h.stallMap, hpop.trans ht, henqueue.trans ht, fun _ => rfl,
      fun heq => absurd (hpop.trans_lt hlt) heq.not_lt⟩
  · exact h

theorem Ok.room (h : u.Ok) (hbalanced : u.Balanced) (hmax : u.buf.maxSize ≠ 0)
    (hroom : u.buf.areNSlotsAvailable u.now 1 = true) :
    u.buf.contents.length + 1 ≤ u.buf.maxSize := by
  have hmap := h.stallMap
  obtain ⟨hpop, henqueue, _, hsnapshot⟩ := h.recorded
  unfold Balanced at hbalanced
  unfold CountedBuffer.areNSlotsAvailable currentSize at hroom
  rw [if_neg hmax, decide_eq_true_eq] at hroom
  rw [length_contents]
  split at hroom
  · omega
  · split at hroom
    · rw [if_neg (by omega)] at hsnapshot
      omega
    · rw [if_pos (by omega)] at hsnapshot
      omega

/-- The part of a buffer from which the visible size is computed, apart from the heap. -/
def sizes (b : MessageBuffer α) : Nat × Nat × Nat × Nat × Nat :=
  (b.maxSize, b.timeLastTimeEnqueue, b.timeLastTimePop, b.sizeAtCycleStart, b.msgsThisCycle)

theorem enqueue_sizes {b : MessageBuffer α} (m : α) (d : Nat) (h : b.timeLastTimeEnqueue ≤ t) :
    sizes (b.enqueue m t d) = (b.maxSize, t, b.timeLastTimePop, b.sizeAtCycleStart,
      (if b.timeLastTimeEnqueue = t then b.msgsThisCycle else 0) + 1) := by
  unfold enqueue sizes
  dsimp only
  split
  · next hlt => rw [if_neg hlt.ne]
  · next hle =>
    have heq : b.timeLastTimeEnqueue = t := by omega
    rw [if_pos heq, heq]

theorem recordPop_sizes {b : MessageBuffer α} (h : b.timeLastTimePop ≤ t) :
    sizes (b.recordPop t) = (b.maxSize, b.timeLastTimeEnqueue, t,
      (if b.timeLastTimePop = t then b.sizeAtCycleStart else b.prioHeap.length),
      b.msgsThisCycle) := by
  unfold recordPop sizes
  split
  · next hlt => rw [if_neg hlt.ne]
  · next hle =>
    have heq : b.timeLastTimePop = t := by omega
    rw [if_pos heq, heq]

theorem reanalyzeList_sizes {b : MessageBuffer α} (lt : List α) :
    sizes (b.reanalyzeList t lt) = sizes b := by
  rw [reanalyzeList_eq]
  rfl

section Records

variable {b b' : MessageBuffer α} {now popped returned : Nat}

section

variable (h : Recorded b now popped returned)
include h

theorem Recorded.enqueue (m : α) (d : Nat) :
    Recorded (b.enqueue m now d) now popped returned := by
  have hsizes := enqueue_sizes m d h.lastEnqueue
  simp only [sizes, Prod.mk.injEq] at hsizes
  obtain ⟨_, henqueue, hpop, hstart, hmsgs⟩ := hsizes
  constructor
  · rw [hpop]
    exact h.lastPop
  · rw [henqueue]
  · rw [hpop]
    exact h.unpopped
  · rw [hpop, hstart, henqueue, hmsgs, if_pos rfl, enqueue_prioHeap, length_pushHeap]
    intro heq
    have hsnapshot := h.snapshot heq
    omega

theorem Recorded.pop {m : Queued α} {rest : List (Queued α)} (hheap : b.prioHeap = m :: rest) :
    Recorded { b.recordPop now with prioHeap := rest } now (popped + 1) returned := by
  have hsizes := recordPop_sizes h.lastPop
  simp only [sizes, Prod.mk.injEq] at hsizes
  obtain ⟨_, henqueue, hpop, hstart, hmsgs⟩ := hsizes
  constructor
  · exact hpop.le
  · exact henqueue.trans_le h.lastEnqueue
  · exact fun hlt => absurd hpop hlt.ne
  · dsimp only
    intro _
    rw [hstart, henqueue, hmsgs]
    have hlength : b.prioHeap.length = rest.length + 1 := by rw [hheap, length_cons]
    by_cases heq : b.timeLastTimePop = now
    · have hsnapshot := h.snapshot heq
      rw [if_pos heq]
      omega
    · -- the first pop at this time takes the size from the heap
      have hfirst := h.unpopped (lt_of_le_of_ne h.lastPop heq)
      rw [if_neg heq]
      omega

theorem Recorded.reanalyze (hsizes : sizes b' = sizes b) :
    Recorded b' now popped
      (if b.timeLastTimePop = now then returned + (b'.prioHeap.length - b.prioHeap.length)
        else returned) := by
  simp only [sizes, Prod.mk.injEq] at hsizes
  obtain ⟨_, henqueue, hpop, hstart, hmsgs⟩ := hsizes
  constructor
  · exact hpop.trans_le h.lastPop
  · exact henqueue.trans_le h.lastEnqueue
  · rw [hpop]
    exact h.unpopped
  · rw [hpop, hstart, henqueue, hmsgs]
    intro heq
    have hsnapshot := h.snapshot heq
    rw [if_pos heq]
    omega

end

end Records

theorem maxSize_eq (h : Called u.buf t c b) : b.maxSize = u.buf.maxSize := by
  cases h with
  | enqueue _ => exact enqueue_maxSize _ _
  | dequeue _ _ => exact recordPop_maxSize
  | delayHead _ _ _ => exact enqueue_maxSize _ _
  | recycle _ _ => rfl
  | stallMessage _ _ => exact recordPop_maxSize
  | reanalyzeMessages _ => exact congrArg Prod.fst (reanalyzeList_sizes _)
  | reanalyzeAllMessages => exact congrArg Prod.fst (reanalyzeList_sizes _)

theorem Ok.inserted_le (h : u.Ok) (hvalid : u.valid u.now c) (hmax : u.buf.maxSize ≠ 0)
    (hbalanced : ∀ m d, c = .enqueue m d → u.Balanced) :
    c.inserted.length + u.buf.contents.length ≤ u.buf.maxSize := by
  unfold BufferCall.inserted
  split
  · next m d =>
    have hroom := h.room (hbalanced m d rfl) hmax hvalid
    rw [length_singleton]
    omega
  · rw [length_nil, Nat.zero_add]
    exact h.fits hmax

@[simp] theorem record_buf : (u.record c b).buf = b := by
  cases c <;> rfl

theorem Ok.record (h : u.Ok) (hcalled : Called u.buf u.now c b) (hvalid : u.valid u.now c)
    (hbalanced : ∀ m d, c = .enqueue m d → u.Balanced) : (u.record c b).Ok := by
  have hmax := maxSize_eq hcalled
  refine ⟨fun hne => ?_, ?_, ?_⟩
  · rw [record_buf, hmax] at hne ⊢
    have hinserted := h.inserted_le hvalid hne hbalanced
    have hlength := hcalled.contents.length_eq
    rw [length_append, length_append] at hlength
    omega
  · have hcounts := hcalled.stallMapSize
    have hstall := h.stallMap
    rw [record_buf]
    omega
  · cases hcalled with
    | enqueue _ => exact h.recorded.enqueue _ _
    | dequeue hheap _ => exact h.recorded.pop hheap
    | delayHead _ _ _ => exact hvalid.elim
    | recycle _ _ => exact hvalid.elim
    | stallMessage hheap _ =>
      obtain ⟨hpop, henqueue, hunpopped, hsnapshot⟩ := h.recorded.pop hheap
      exact ⟨hpop, henqueue, hunpopped, hsnapshot⟩
    | reanalyzeMessages _ => exact h.recorded.reanalyze (reanalyzeList_sizes _)
    | reanalyzeAllMessages => exact h.recorded.reanalyze (reanalyzeList_sizes _)

theorem Step.ok (h : Step Balanced u u') (hok : u.Ok) :
    u'.Ok ∧ u'.buf.maxSize = u.buf.maxSize := by
  obtain ⟨t, c, ht, hvalid, hbalanced, hperform⟩ := h
  obtain ⟨b, hcall, hperform⟩ := bind_eq_ok.mp hperform
  cases hperform
  have hcalled := CountedBuffer.call_called hcall
  refine ⟨(hok.advance ht).record ?_ ?_ hbalanced, ?_⟩
  · rwa [advance_buf, advance_now ht]
  · rw [advance_now ht]
    unfold valid at hvalid ⊢
    rwa [advance_buf]
  · rw [record_buf]
    exact maxSize_eq hcalled

theorem Reachable.ok {maxSize : Nat} (h : u.Reachable Balanced maxSize) :
    u.Ok ∧ u.buf.maxSize = maxSize := by
  obtain ⟨bits, h⟩ := h
  induction h with
  | refl =>
    exact ⟨⟨fun _ => Nat.zero_le _, rfl, le_rfl, le_rfl, fun _ => rfl, fun _ => Nat.zero_le _⟩, rfl⟩
  | tail _ hstep ih =>
    obtain ⟨hok, hmax⟩ := hstep.ok ih.1
    exact ⟨hok, hmax.trans ih.2⟩

/-- A client that never gets back more messages than it popped at that time when it enqueues one
does not overfill the buffer. -/
theorem reachable_fits {maxSize : Nat} (hmax : 1 ≤ maxSize) (h : u.Reachable Balanced maxSize) :
    u.buf.prioHeap.length + u.buf.stallMsgMap.length ≤ maxSize := by
  obtain ⟨hok, hsize⟩ := h.ok
  have hfits := hok.fits
  rw [hsize, length_contents] at hfits
  exact hfits (by omega)

/-- One message is popped, one returns, and there is room for one more. -/
theorem reachable_fits_two : ∃ u : Usage Nat, u.Reachable Balanced 2 ∧
    u.buf.msgsThisCycle = 1 ∧ u.buf.prioHeap.length = 2 ∧
    u.buf.prioHeap.length + u.buf.stallMsgMap.length ≤ 2 := by
  obtain ⟨u, hreach, hmsgs, hheap⟩ : ∃ u : Usage Nat, u.Reachable Balanced 2 ∧
      u.buf.msgsThisCycle = 1 ∧ u.buf.prioHeap.length = 2 :=
    exists_reachable
      [(1, .enqueue 7 1), (1, .enqueue 8 1), (2, .stallMessage 320), (3, .dequeue),
        (3, .reanalyzeMessages 320), (3, .enqueue 9 1)]
      (by decide)
  exact ⟨u, hreach, hmsgs, hheap, reachable_fits (by decide) hreach⟩

end Room

/-- Every enqueue was granted, yet the buffer is fuller than it may be. The two messages stalled at
time 2 return at time 3 after a pop, and the size at the start of the cycle does not count them. -/
theorem overfull_three : ∃ u : Usage Nat, u.Reachable (fun _ => True) 3 ∧
    u.buf.prioHeap.length + u.buf.stallMsgMap.length = 4 ∧ u.buf.maxSize = 3 :=
  exists_reachable
    [(1, .enqueue 7 1), (1, .enqueue 8 1), (1, .enqueue 9 1), (2, .stallMessage 320),
      (2, .stallMessage 320), (3, .dequeue), (3, .reanalyzeMessages 320), (3, .enqueue 10 1),
      (3, .enqueue 11 1)]
    (by decide)

end Usage

end Drain
