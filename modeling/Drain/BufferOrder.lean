import Drain.BufferCalls

/-! The order in which messages leave a buffer. Time and counter of a message are its key in the
heap; a reanalysis gives new keys, in front of all that is enqueued from then on. -/

namespace Drain

open List MessageBuffer Queued

variable {α : Type}

section Keys

variable {l m r : Queued α} {heap : List (Queued α)} {c c' : Nat}

theorem Queued.later_iff : l.later r = true ↔ r.lastEnqueueTime < l.lastEnqueueTime ∨
    r.lastEnqueueTime = l.lastEnqueueTime ∧ r.msgCounter < l.msgCounter := by
  unfold later
  split
  · next heq => simp [heq]
  · next hne =>
    rw [decide_eq_true_eq]
    omega

theorem Queued.later_trans (h : l.later m = true) (h' : m.later r = true) : l.later r = true := by
  rw [later_iff] at *
  omega

theorem Queued.later_asymm (h : l.later r = true) : ¬r.later l = true := by
  rw [later_iff] at *
  omega

theorem Queued.later_of_ne (h : l.msgCounter ≠ r.msgCounter) (hlater : ¬l.later r = true) :
    r.later l = true := by
  rw [later_iff] at *
  omega

/-- A heap in the order in which its messages leave, with a counter of its own for each of them. -/
structure HeapOk (heap : List (Queued α)) (c : Nat) : Prop where
  sorted : heap.Pairwise fun a b => b.later a = true
  distinct : (heap.map Queued.msgCounter).Nodup
  below : ∀ m ∈ heap, m.msgCounter ≤ c

theorem pushHeap_sorted (h : heap.Pairwise fun a b => b.later a = true)
    (hm : m.msgCounter ∉ heap.map Queued.msgCounter) :
    (pushHeap m heap).Pairwise fun a b => b.later a = true := by
  induction heap with
  | nil => exact pairwise_singleton _ _
  | cons m' ms ih =>
    obtain ⟨hfirst, hrest⟩ := pairwise_cons.mp h
    rw [map_cons, mem_cons, not_or] at hm
    unfold pushHeap
    split
    · next hlater =>
      refine pairwise_cons.mpr ⟨fun x hx => ?_, h⟩
      rcases mem_cons.mp hx with rfl | hx
      · exact hlater
      · exact later_trans (hfirst x hx) hlater
    · next hlater =>
      refine pairwise_cons.mpr ⟨fun x hx => ?_, ih hrest hm.2⟩
      rcases mem_cons.mp ((pushHeap_perm m ms).mem_iff.mp hx) with rfl | hx
      · exact later_of_ne (Ne.symm hm.1) hlater
      · exact hfirst x hx

theorem HeapOk.push (h : HeapOk heap c) (hm : m.msgCounter ∉ heap.map Queued.msgCounter)
    (hc : c ≤ c') (hbelow : m.msgCounter ≤ c') : HeapOk (pushHeap m heap) c' := by
  refine ⟨pushHeap_sorted h.sorted hm, ?_, fun x hx => ?_⟩
  · rw [((pushHeap_perm m heap).map Queued.msgCounter).nodup_iff, map_cons]
    exact nodup_cons.mpr ⟨hm, h.distinct⟩
  · rcases mem_cons.mp ((pushHeap_perm m heap).mem_iff.mp hx) with rfl | hx
    · exact hbelow
    · exact (h.below x hx).trans hc

theorem HeapOk.fresh (h : HeapOk heap c) (hc : c < c') : c' ∉ heap.map Queued.msgCounter := by
  intro hmem
  obtain ⟨m, hm, rfl⟩ := mem_map.mp hmem
  exact absurd (h.below m hm) (not_le.mpr hc)

theorem HeapOk.tail (h : HeapOk (m :: heap) c) : HeapOk heap c :=
  ⟨(pairwise_cons.mp h.sorted).2, (nodup_cons.mp h.distinct).2,
    fun x hx => h.below x (mem_cons_of_mem m hx)⟩

theorem HeapOk.reanalyzeList {b : MessageBuffer α} (h : HeapOk b.prioHeap b.msgCounter) (t : Nat)
    (lt : List α) : HeapOk (b.reanalyzeList t lt).prioHeap (b.reanalyzeList t lt).msgCounter := by
  induction lt generalizing b with
  | nil => exact h
  | cons m lt ih =>
    exact ih (b := { b with
      msgCounter := b.msgCounter + 1
      prioHeap := pushHeap ⟨t, b.msgCounter + 1, m⟩ b.prioHeap })
      (h.push (h.fresh (Nat.lt_succ_self _)) (Nat.le_succ _) le_rfl)

theorem Called.heapOk {b b' : CountedBuffer α} {t : Nat} {x : BufferCall α} (hcalled : Called b t x b')
    (h : HeapOk b.prioHeap b.msgCounter) : HeapOk b'.prioHeap b'.msgCounter := by
  have hpop {m : Queued α} {rest : List (Queued α)} (hheap : b.prioHeap = m :: rest) :
      HeapOk (m :: rest) b.msgCounter := by
    rwa [hheap] at h
  cases hcalled with
  | enqueue _ =>
    rw [enqueue_prioHeap, enqueue_msgCounter]
    exact h.push (h.fresh (Nat.lt_succ_self _)) (Nat.le_succ _) le_rfl
  | dequeue hheap _ | stallMessage hheap _ =>
    dsimp only
    rw [recordPop_msgCounter]
    exact (hpop hheap).tail
  | delayHead _ hheap _ =>
    have hrest := (hpop hheap).tail
    rw [enqueue_prioHeap, enqueue_msgCounter]
    exact hrest.push (hrest.fresh (Nat.lt_succ_self _)) (Nat.le_succ _) le_rfl
  | recycle hheap _ =>
    have hfirst := hpop hheap
    have hbelow := hfirst.below _ mem_cons_self
    exact hfirst.tail.push (nodup_cons.mp hfirst.distinct).1 le_rfl hbelow
  | reanalyzeMessages _ | reanalyzeAllMessages => exact HeapOk.reanalyzeList (by exact h) t _

theorem mem_restamp {t : Nat} {lt : List α} {q : Queued α}
    (h : q ∈ restamp t c lt) : q.lastEnqueueTime = t ∧ c < q.msgCounter := by
  induction lt generalizing c with
  | nil => cases h
  | cons m lt ih =>
    rcases mem_cons.mp h with rfl | h
    · exact ⟨rfl, Nat.lt_succ_self c⟩
    · exact ⟨(ih h).1, (Nat.lt_succ_self c).trans (ih h).2⟩

theorem restamp_pairwise (t c : Nat) (lt : List α) :
    (restamp t c lt).Pairwise fun a b => b.later a = true := by
  induction lt generalizing c with
  | nil => exact List.Pairwise.nil
  | cons m lt ih =>
    refine pairwise_cons.mpr ⟨fun q hq => ?_, ih (c + 1)⟩
    obtain ⟨htime, hcounter⟩ := mem_restamp hq
    exact later_iff.mpr (.inr ⟨htime.symm, hcounter⟩)

/-- An entry that is not taken stays, and what a call adds to the heap comes after it. Only a
recycled message can come before it, and that has been there already. -/
theorem Called.stays {b b' : CountedBuffer α} {t : Nat} {x : BufferCall α} {e : Queued α}
    (hcalled : Called b t x b') (h : HeapOk b.prioHeap b.msgCounter) (he : e ∈ b.prioHeap)
    (ht : e.lastEnqueueTime ≤ t) (hfront : x.takes = true → b.prioHeap.head? ≠ some e) :
    e ∈ b'.prioHeap ∧ ∀ q ∈ b'.prioHeap, q.later e = true ∨
      ∃ m ∈ b.prioHeap, m.msg = q.msg ∧ (m.later e = true → q.later e = true) := by
  have hbelow := h.below e he
  have hrest {m : Queued α} {rest : List (Queued α)} (hheap : b.prioHeap = m :: rest)
      (htakes : x.takes = true) : e ∈ rest ∧ ∀ q ∈ rest, q ∈ b.prioHeap := by
    have hne := hfront htakes
    rw [hheap] at he hne ⊢
    refine ⟨(mem_cons.mp he).resolve_left fun heq => hne ?_,
      fun q hq => mem_cons_of_mem m hq⟩
    rw [heq, head?_cons]
  have hreanalyzed {heap : List (Queued α)} {lt : List α}
      (hperm : heap.Perm (b.prioHeap ++ restamp t b.msgCounter lt)) :
      e ∈ heap ∧ ∀ q ∈ heap, q.later e = true ∨
        ∃ m ∈ b.prioHeap, m.msg = q.msg ∧ (m.later e = true → q.later e = true) := by
    refine ⟨hperm.mem_iff.mpr (mem_append_left _ he), fun q hq => ?_⟩
    rcases mem_append.mp (hperm.mem_iff.mp hq) with hq | hq
    · exact .inr ⟨q, hq, rfl, id⟩
    · obtain ⟨htime, hcounter⟩ := mem_restamp hq
      refine .inl (Queued.later_iff.mpr ?_)
      omega
  cases hcalled with
  | @enqueue m d hd =>
    rw [enqueue_prioHeap]
    refine ⟨(pushHeap_perm _ _).mem_iff.mpr (mem_cons_of_mem _ he), fun q hq => ?_⟩
    rcases mem_cons.mp ((pushHeap_perm _ _).mem_iff.mp hq) with rfl | hq
    · exact .inl (Queued.later_iff.mpr (.inl (by dsimp only; omega)))
    · exact .inr ⟨q, hq, rfl, id⟩
  | dequeue hheap _ | stallMessage hheap _ =>
    obtain ⟨hmem, hkept⟩ := hrest hheap rfl
    exact ⟨hmem, fun q hq => .inr ⟨q, hkept q hq, rfl, id⟩⟩
  | @delayHead m rest d hd hheap _ =>
    obtain ⟨hmem, hkept⟩ := hrest hheap rfl
    rw [enqueue_prioHeap]
    refine ⟨(pushHeap_perm _ _).mem_iff.mpr (mem_cons_of_mem _ hmem), fun q hq => ?_⟩
    rcases mem_cons.mp ((pushHeap_perm _ _).mem_iff.mp hq) with rfl | hq
    · exact .inl (Queued.later_iff.mpr (.inl (by dsimp only; omega)))
    · exact .inr ⟨q, hkept q hq, rfl, id⟩
  | @recycle m rest latency hheap _ =>
    obtain ⟨hmem, hkept⟩ := hrest hheap rfl
    refine ⟨(pushHeap_perm _ _).mem_iff.mpr (mem_cons_of_mem _ hmem), fun q hq => ?_⟩
    rcases mem_cons.mp ((pushHeap_perm _ _).mem_iff.mp hq) with rfl | hq
    · have hsorted := h.sorted
      rw [hheap] at hsorted ⊢
      have hlater := (pairwise_cons.mp hsorted).1 e hmem
      exact .inr ⟨m, mem_cons_self, rfl, fun hm => absurd hm (Queued.later_asymm hlater)⟩
    · exact .inr ⟨q, hkept q hq, rfl, id⟩
  | reanalyzeMessages _ | reanalyzeAllMessages =>
    exact hreanalyzed (reanalyzeList_prioHeap_perm _)

end Keys

structure Tagged where
  id : Nat
  enqueuedAt : Nat
  deriving DecidableEq

/-- A buffer with the time of its last call, the number of messages enqueued and the messages
dequeued, stalled and recycled, in the order of the calls. -/
structure History where
  buf : CountedBuffer Tagged
  now : Nat := 0
  count : Nat := 0
  dequeued : List Tagged := []
  stalled : List Tagged := []
  recycled : List Tagged := []

namespace History

def init (maxSize blockSizeBits : Nat) : History where
  buf := .init Tagged maxSize blockSizeBits

variable (h : History)

def tag (t : Nat) : BufferCall Unit → BufferCall Tagged
  | .enqueue _ delta => .enqueue ⟨h.count, t⟩ delta
  | .dequeue => .dequeue
  | .delayHead delta => .delayHead delta
  | .recycle latency => .recycle latency
  | .stallMessage addr => .stallMessage addr
  | .reanalyzeMessages addr => .reanalyzeMessages addr
  | .reanalyzeAllMessages => .reanalyzeAllMessages

def front : List Tagged := (h.buf.prioHeap.head?.map msg).toList

def record (t : Nat) (c : BufferCall Unit) (b : CountedBuffer Tagged) : History :=
  match c with
  | .enqueue _ _ => { h with buf := b, now := t, count := h.count + 1 }
  | .dequeue => { h with buf := b, now := t, dequeued := h.dequeued ++ h.front }
  | .stallMessage _ => { h with buf := b, now := t, stalled := h.stalled ++ h.front }
  | .recycle _ => { h with buf := b, now := t, recycled := h.recycled ++ h.front }
  | .delayHead _ | .reanalyzeMessages _ | .reanalyzeAllMessages => { h with buf := b, now := t }

def perform (t : Nat) (c : BufferCall Unit) : Except Failure History := do
  let b ← h.buf.call t (h.tag t c)
  pure (h.record t c b)

def Step (h h' : History) : Prop :=
  ∃ t c, h.now ≤ t ∧ c.isDelayHead = false ∧ h.perform t c = .ok h'

def Reachable (maxSize : Nat) (h : History) : Prop :=
  ∃ blockSizeBits, Relation.ReflTransGen Step (init maxSize blockSizeBits) h

def stalledOn (addr : Nat) : List Tagged := (h.buf.stallMsgMap.filter (·.1 = addr)).map Prod.snd

section Invariant

variable {h h' : History} {b b' : CountedBuffer Tagged} {t now : Nat} {x : BufferCall Tagged}
  {c : BufferCall Unit}

/-- A message is in the heap with a time after its enqueue, and stalled only from that time on. -/
structure Arrives (b : MessageBuffer Tagged) (now : Nat) : Prop where
  heap : ∀ q ∈ b.prioHeap, q.msg.enqueuedAt < q.lastEnqueueTime
  stalled : ∀ m ∈ b.stallMsgMap.map Prod.snd, m.enqueuedAt < now

theorem Arrives.reanalyzeList {b : MessageBuffer Tagged} {moved others : List (Nat × Tagged)}
    (h : Arrives b now) (ht : now ≤ t) (hmoved : moved ⊆ b.stallMsgMap)
    (hothers : others ⊆ b.stallMsgMap) :
    Arrives ({ b with stallMsgMap := others }.reanalyzeList t (moved.map Prod.snd)) t := by
  refine ⟨fun q hq => ?_, fun m hm => ?_⟩
  · rcases mem_append.mp
      ((reanalyzeList_prioHeap_perm _).mem_iff.mp hq) with hq | hq
    · exact h.heap q hq
    · have hmsg := mem_map_of_mem (f := msg) hq
      rw [restamp_msg] at hmsg
      have hlt := h.stalled q.msg (map_subset Prod.snd hmoved hmsg)
      rw [(mem_restamp hq).1]
      omega
  · rw [reanalyzeList_stallMsgMap] at hm
    exact (h.stalled m (map_subset Prod.snd hothers hm)).trans_le ht

theorem Arrives.called (h : Arrives b.toMessageBuffer now) (hcalled : Called b t x b')
    (ht : now ≤ t) (hinserted : ∀ m ∈ x.inserted, m.enqueuedAt ≤ t) :
    Arrives b'.toMessageBuffer t ∧ ∀ m ∈ x.removed b.toMessageBuffer, m.enqueuedAt < t := by
  have hstalled : ∀ m ∈ b.stallMsgMap.map Prod.snd, m.enqueuedAt < t :=
    fun m hm => (h.stalled m hm).trans_le ht
  have hfront {m : Queued Tagged} {rest : List (Queued Tagged)} (hheap : b.prioHeap = m :: rest)
      (hready : m.lastEnqueueTime ≤ t) : m.msg.enqueuedAt < t ∧
        ∀ q ∈ rest, q.msg.enqueuedAt < q.lastEnqueueTime := by
    have hmem := h.heap
    rw [hheap] at hmem
    exact ⟨(hmem m mem_cons_self).trans_le hready,
      fun q hq => hmem q (mem_cons_of_mem m hq)⟩
  cases hcalled with
  | @enqueue m d hd =>
    refine ⟨⟨fun q hq => ?_, ?_⟩, forall_mem_nil _⟩
    · rw [enqueue_prioHeap] at hq
      rcases mem_cons.mp ((pushHeap_perm _ _).mem_iff.mp hq) with rfl | hq
      · have hle := hinserted m mem_cons_self
        dsimp only
        omega
      · exact h.heap q hq
    · rw [enqueue_stallMsgMap]
      exact hstalled
  | dequeue hheap hready =>
    obtain ⟨hlt, hrest⟩ := hfront hheap hready
    refine ⟨⟨hrest, ?_⟩, fun m hm => ?_⟩
    · dsimp only
      rw [recordPop_stallMsgMap]
      exact hstalled
    · simp only [BufferCall.removed, hheap, head?_cons, Option.map_some, Option.toList_some,
        mem_singleton] at hm
      rwa [hm]
  | @delayHead m rest d hd hheap hready =>
    obtain ⟨hlt, hrest⟩ := hfront hheap hready
    refine ⟨⟨fun q hq => ?_, ?_⟩, forall_mem_nil _⟩
    · rw [enqueue_prioHeap] at hq
      rcases mem_cons.mp ((pushHeap_perm _ _).mem_iff.mp hq) with rfl | hq
      · dsimp only
        omega
      · exact hrest q hq
    · rw [enqueue_stallMsgMap]
      exact hstalled
  | @recycle m rest latency hheap hready =>
    obtain ⟨hlt, hrest⟩ := hfront hheap hready
    refine ⟨⟨fun q hq => ?_, hstalled⟩, forall_mem_nil _⟩
    rcases mem_cons.mp ((pushHeap_perm _ _).mem_iff.mp hq) with rfl | hq
    · dsimp only
      omega
    · exact hrest q hq
  | @stallMessage m rest addr hheap hready =>
    obtain ⟨hlt, hrest⟩ := hfront hheap hready
    refine ⟨⟨hrest, fun m' hm => ?_⟩, forall_mem_nil _⟩
    rw [map_append, mem_append] at hm
    rcases hm with hm | hm
    · exact hstalled m' hm
    · rw [mem_singleton.mp hm]
      exact hlt
  | reanalyzeMessages _ =>
    exact ⟨h.reanalyzeList ht (filter_subset_self _) (filter_subset_self _), forall_mem_nil _⟩
  | reanalyzeAllMessages =>
    exact ⟨h.reanalyzeList ht b.stallMapOrder_perm.subset (nil_subset _), forall_mem_nil _⟩

theorem append_sublist_dedup {l s : List Tagged} {m : Tagged} (hl : l.Sublist s.dedup) (hm : m ∉ l) :
    (l ++ [m]).Sublist (s ++ [m]).dedup := by
  induction s generalizing l with
  | nil =>
    rw [dedup_nil, sublist_nil] at hl
    rw [hl]
    exact List.Sublist.refl _
  | cons a s ih =>
    by_cases ha : a ∈ s
    · rw [dedup_cons_of_mem ha] at hl
      rw [cons_append, dedup_cons_of_mem (mem_append_left _ ha)]
      exact ih hl hm
    · rw [dedup_cons_of_notMem ha] at hl
      rw [cons_append]
      by_cases heq : a = m
      · subst heq
        rw [dedup_cons_of_mem (by simp)]
        refine ih ?_ hm
        rcases sublist_cons_iff.mp hl with hl | ⟨r, rfl, _⟩
        · exact hl
        · exact absurd mem_cons_self hm
      · rw [dedup_cons_of_notMem (by simp [ha, heq])]
        rcases sublist_cons_iff.mp hl with hl | ⟨r, rfl, hsub⟩
        · exact (ih hl hm).cons a
        · exact (ih hsub fun hmem => hm (mem_cons_of_mem a hmem)).cons_cons a

structure Ok (h : History) : Prop where
  heap : HeapOk h.buf.prioHeap h.buf.msgCounter
  ids : ((h.buf.contents ++ h.dequeued).map Tagged.id).Perm (range h.count)
  arrives : Arrives h.buf.toMessageBuffer h.now
  arrived : ∀ m ∈ h.dequeued, m.enqueuedAt < h.now
  stallOrder : (h.buf.stallMsgMap.map Prod.snd).Sublist h.stalled.dedup

theorem Ok.nodup (hok : h.Ok) : (h.buf.contents ++ h.dequeued).Nodup :=
  List.Nodup.of_map _ (hok.ids.nodup_iff.mpr nodup_range)

@[simp] theorem record_buf : (h.record t c b).buf = b := by
  cases c <;> rfl

@[simp] theorem record_now : (h.record t c b).now = t := by
  cases c <;> rfl

theorem record_dequeued : (h.record t c b).dequeued =
    h.dequeued ++ (h.tag t c).removed h.buf.toMessageBuffer := by
  cases c with
  | dequeue => rfl
  | _ => exact (append_nil _).symm

theorem inserted_ids : ((h.tag t c).inserted.map Tagged.id ++ range h.count).Perm
    (range (h.record t c b).count) := by
  cases c with
  | enqueue _ d =>
    change (h.count :: range h.count).Perm (range (h.count + 1))
    rw [range_succ]
    exact (perm_append_singleton _ _).symm
  | _ => exact .refl _

theorem stallOrder_record (hok : h.Ok) (hcalled : Called h.buf t (h.tag t c) b) :
    (b.stallMsgMap.map Prod.snd).Sublist (h.record t c b).stalled.dedup := by
  have horder := hok.stallOrder
  cases c with
  | enqueue _ _ =>
    rw [hcalled.stallMsgMap_eq (.inl (cons_ne_nil _ _))]
    exact horder
  | dequeue | delayHead _ | recycle _ =>
    rw [hcalled.stallMsgMap_eq (.inr ⟨rfl, nofun⟩)]
    exact horder
  | stallMessage addr =>
    obtain ⟨m, hhead, hmap⟩ := Called.stalled hcalled
    have hm : m.msg ∉ h.buf.stallMsgMap.map Prod.snd := by
      obtain ⟨rest, hheap⟩ := head?_eq_some_iff.mp hhead
      have hnodup := (nodup_append.mp hok.nodup).1
      rw [contents, hheap] at hnodup
      exact fun hmem => (nodup_cons.mp hnodup).1 (mem_append_right _ hmem)
    have hfront : h.front = [m.msg] := by rw [front, hhead]; rfl
    change (b.stallMsgMap.map Prod.snd).Sublist (h.stalled ++ h.front).dedup
    rw [hfront, hmap, map_append]
    exact append_sublist_dedup horder hm
  | reanalyzeMessages addr =>
    rw [Called.reanalyzed hcalled]
    exact (filter_sublist.map Prod.snd).trans horder
  | reanalyzeAllMessages =>
    rw [Called.allReanalyzed hcalled]
    exact nil_sublist _

theorem Ok.record (hok : h.Ok) (hcalled : Called h.buf t (h.tag t c) b) (ht : h.now ≤ t) :
    (h.record t c b).Ok := by
  have hinserted : ∀ m ∈ (h.tag t c).inserted, m.enqueuedAt ≤ t := by
    intro m hm
    cases c with
    | enqueue _ d => rw [mem_singleton.mp hm]
    | _ => cases hm
  obtain ⟨harrives, hremoved⟩ := hok.arrives.called hcalled ht hinserted
  constructor
  · rw [record_buf]
    exact hcalled.heapOk hok.heap
  · rw [record_buf, record_dequeued]
    refine .trans ?_ (inserted_ids (b := b))
    refine .trans ?_ (hok.ids.append_left _)
    rw [← map_append]
    refine List.Perm.map _ ?_
    rw [← append_assoc, ← append_assoc]
    refine .trans ?_ (hcalled.contents.symm.append_right _)
    rw [append_assoc (BufferCall.removed _ _)]
    exact perm_append_comm
  · rw [record_buf, record_now]
    exact harrives
  · rw [record_dequeued, record_now]
    intro m hm
    rcases mem_append.mp hm with hm | hm
    · exact (hok.arrived m hm).trans_le ht
    · exact hremoved m hm
  · rw [record_buf]
    exact stallOrder_record hok hcalled

theorem perform_called (hperform : h.perform t c = .ok h') :
    ∃ b, Called h.buf t (h.tag t c) b ∧ h' = h.record t c b := by
  obtain ⟨b, hcall, hrecord⟩ := bind_eq_ok.mp hperform
  cases hrecord
  exact ⟨b, CountedBuffer.call_called hcall, rfl⟩

theorem Step.ok (hstep : h.Step h') (hok : h.Ok) : h'.Ok := by
  obtain ⟨t, c, ht, _, hperform⟩ := hstep
  obtain ⟨b, hcalled, rfl⟩ := perform_called hperform
  exact hok.record hcalled ht

theorem init_ok (maxSize blockSizeBits : Nat) : (init maxSize blockSizeBits).Ok :=
  ⟨⟨List.Pairwise.nil, nodup_nil, nofun⟩, .refl _, ⟨nofun, nofun⟩, nofun, nil_sublist _⟩

theorem Reachable.ok {maxSize : Nat} (hreach : h.Reachable maxSize) : h.Ok := by
  obtain ⟨bits, hreach⟩ := hreach
  induction hreach with
  | refl => exact init_ok maxSize bits
  | tail _ hstep ih => exact hstep.ok ih

end Invariant

section Returned

variable {h h' h₁ h₂ : History} {b : CountedBuffer Tagged} {t : Nat} {c : BufferCall Unit}
  {e : Queued Tagged} {X : Tagged → Prop}

/-- An entry is in the heap and all messages of a class will leave after it. -/
structure Leads (e : Queued Tagged) (X : Tagged → Prop) (h : History) : Prop where
  waiting : e ∈ h.buf.prioHeap
  time : e.lastEnqueueTime ≤ h.now
  behind : ∀ q ∈ h.buf.prioHeap, X q.msg → q.later e = true
  left : ∀ x ∈ h.dequeued, ¬X x

/-- A message was dequeued, before all of a class that were. -/
def Passed (m : Tagged) (X : Tagged → Prop) (h : History) : Prop :=
  m ∈ h.dequeued ∧ ∀ x ∈ h.dequeued, X x → [m, x].Sublist h.dequeued

theorem Passed.record {m : Tagged} (hpassed : Passed m X h) : Passed m X (h.record t c b) := by
  unfold Passed
  rw [record_dequeued]
  refine ⟨mem_append_left _ hpassed.1, fun x hx hX => ?_⟩
  rcases mem_append.mp hx with hx | hx
  · exact (hpassed.2 x hx hX).trans (sublist_append_left _ _)
  · exact (singleton_sublist.mpr hpassed.1).append (singleton_sublist.mpr hx)

theorem Leads.not_self (hleads : Leads e X h) : ¬X e.msg := by
  intro hX
  have hlater := hleads.behind e hleads.waiting hX
  exact later_asymm hlater hlater

theorem Leads.dequeued (hleads : Leads e X h) (hfront : h.buf.prioHeap.head? = some e) :
    Passed e.msg X (h.record t .dequeue b) := by
  have hremoved : h.front = [e.msg] := by rw [front, hfront]; rfl
  change e.msg ∈ h.dequeued ++ h.front ∧ ∀ x ∈ h.dequeued ++ h.front, X x →
    [e.msg, x].Sublist (h.dequeued ++ h.front)
  rw [hremoved]
  refine ⟨mem_append_right _ mem_cons_self, fun x hx hX => ?_⟩
  rcases mem_append.mp hx with hx | hx
  · exact absurd hX (hleads.left x hx)
  · rw [mem_singleton.mp hx] at hX
    exact absurd hX hleads.not_self

theorem Leads.record (hleads : Leads e X h) (hok : h.Ok) (hcalled : Called h.buf t (h.tag t c) b)
    (ht : h.now ≤ t) (hfront : (h.tag t c).takes = true → h.buf.prioHeap.head? ≠ some e) :
    Leads e X (h.record t c b) := by
  obtain ⟨hmem, hbehind⟩ := hcalled.stays hok.heap hleads.waiting (hleads.time.trans ht) hfront
  constructor
  · rwa [record_buf]
  · rw [record_now]
    exact hleads.time.trans ht
  · rw [record_buf]
    intro q hq hX
    rcases hbehind q hq with hlater | ⟨m, hm, hmsg, hlater⟩
    · exact hlater
    · exact hlater (hleads.behind m hm (hmsg ▸ hX))
  · rw [record_dequeued]
    intro x hx hX
    rcases mem_append.mp hx with hx | hx
    · exact hleads.left x hx hX
    · cases c with
      | dequeue =>
        -- the message in front is before the entry, so it is not of the class
        obtain ⟨m, hm, rfl⟩ : ∃ m, h.buf.prioHeap.head? = some m ∧ m.msg = x := by
          simpa [tag, BufferCall.removed] using hx
        obtain ⟨rest, hheap⟩ : ∃ rest, h.buf.prioHeap = m :: rest :=
          head?_eq_some_iff.mp hm
        have hsorted := hok.heap.sorted
        have hwaiting := hleads.waiting
        rw [hheap] at hsorted hwaiting
        have hne : e ≠ m := fun heq => hfront rfl (heq ▸ hm)
        have hlater := (pairwise_cons.mp hsorted).1 e
          ((mem_cons.mp hwaiting).resolve_left hne)
        refine Queued.later_asymm hlater (hleads.behind m ?_ hX)
        rw [hheap]
        exact mem_cons_self
      | _ => cases hx

theorem Step.logs (hstep : h.Step h') :
    h.stalled <+: h'.stalled ∧ h.recycled <+: h'.recycled := by
  obtain ⟨t, c, _, _, hperform⟩ := hstep
  obtain ⟨b, _, rfl⟩ := perform_called hperform
  cases c with
  | stallMessage addr => exact ⟨prefix_append _ _, prefix_rfl⟩
  | recycle latency => exact ⟨prefix_rfl, prefix_append _ _⟩
  | _ => exact ⟨prefix_rfl, prefix_rfl⟩

theorem Leads.step (hleads : Leads e X h) (hok : h.Ok) (hstep : h.Step h')
    (hstalled : h'.stalled.count e.msg ≤ h.stalled.count e.msg)
    (hrecycled : h'.recycled.count e.msg ≤ h.recycled.count e.msg) :
    Leads e X h' ∨ Passed e.msg X h' := by
  obtain ⟨t, c, ht, hdelay, hperform⟩ := hstep
  obtain ⟨b, hcalled, rfl⟩ := perform_called hperform
  by_cases hfront : h.buf.prioHeap.head? = some e
  · have hremoved : h.front = [e.msg] := by rw [front, hfront]; rfl
    cases c with
    | dequeue => exact .inr (hleads.dequeued hfront)
    | delayHead d => cases hdelay
    | recycle latency =>
      change (h.recycled ++ h.front).count e.msg ≤ _ at hrecycled
      rw [hremoved, count_append, count_singleton_self] at hrecycled
      omega
    | stallMessage addr =>
      change (h.stalled ++ h.front).count e.msg ≤ _ at hstalled
      rw [hremoved, count_append, count_singleton_self] at hstalled
      omega
    | enqueue _ _ | reanalyzeMessages _ | reanalyzeAllMessages =>
      exact .inl (hleads.record hok hcalled ht nofun)
  · exact .inl (hleads.record hok hcalled ht fun _ => hfront)

theorem run_logs (hrun : Relation.ReflTransGen Step h₁ h₂) :
    h₁.stalled <+: h₂.stalled ∧ h₁.recycled <+: h₂.recycled := by
  induction hrun with
  | refl => exact ⟨prefix_rfl, prefix_rfl⟩
  | tail _ hstep ih => exact ⟨ih.1.trans hstep.logs.1, ih.2.trans hstep.logs.2⟩

theorem Leads.run (hleads : Leads e X h₁) (hok : h₁.Ok) (hrun : Relation.ReflTransGen Step h₁ h₂)
    (hstalled : h₂.stalled.count e.msg = h₁.stalled.count e.msg)
    (hrecycled : h₂.recycled.count e.msg = h₁.recycled.count e.msg) :
    h₂.Ok ∧ (Leads e X h₂ ∨ Passed e.msg X h₂) := by
  induction hrun with
  | refl => exact ⟨hok, .inl hleads⟩
  | @tail h h' hrun hstep ih =>
    have hlogs := hstep.logs
    have hstart := run_logs hrun
    have hs := hlogs.1.sublist.count_le e.msg
    have hr := hlogs.2.sublist.count_le e.msg
    have hs₁ := hstart.1.sublist.count_le e.msg
    have hr₁ := hstart.2.sublist.count_le e.msg
    obtain ⟨hok', hcase⟩ := ih (by omega) (by omega)
    refine ⟨hstep.ok hok', ?_⟩
    rcases hcase with hleads | hpassed
    · exact hleads.step hok' hstep (by omega) (by omega)
    · obtain ⟨t, c, _, _, hperform⟩ := hstep
      obtain ⟨b, _, rfl⟩ := perform_called hperform
      exact .inr hpassed.record

def Reanalyzes (addr : Nat) (c : BufferCall Unit) : Prop :=
  c = .reanalyzeMessages addr ∨ c = .reanalyzeAllMessages

theorem Reanalyzes.perm {addr : Nat} (hc : Reanalyzes addr c)
    (hcalled : Called h.buf t (h.tag t c) b) : ∃ lt, (h.stalledOn addr).Sublist lt ∧
      b.prioHeap.Perm (h.buf.prioHeap ++ restamp t h.buf.msgCounter lt) := by
  rcases hc with rfl | rfl
  · cases hcalled
    exact ⟨_, List.Sublist.refl _, reanalyzeList_prioHeap_perm _⟩
  · cases hcalled
    refine ⟨_, ?_, reanalyzeList_prioHeap_perm _⟩
    refine List.Sublist.map _ (sublist_insertionSort ?_ filter_sublist)
    refine pairwise_of_forall_mem_list fun x hx y hy => ?_
    rw [of_decide_eq_true (mem_filter.mp hx).2, of_decide_eq_true (mem_filter.mp hy).2]

theorem Ok.heap_inj (hok : h.Ok) {q q' : Queued Tagged} (hq : q ∈ h.buf.prioHeap)
    (hq' : q' ∈ h.buf.prioHeap) (hmsg : q.msg = q'.msg) : q = q' := by
  have hnodup := (nodup_append.mp (nodup_append.mp hok.nodup).1).1
  exact inj_on_of_nodup_map hnodup hq hq' hmsg

theorem Leads.returned {addr : Nat} {m : Tagged} (hok : h.Ok) (ht : h.now ≤ t)
    (hc : Reanalyzes addr c) (hcalled : Called h.buf t (h.tag t c) b) (hm : m ∈ h.stalledOn addr) :
    ∃ e : Queued Tagged, e.msg = m ∧
      Leads e (fun x => t ≤ x.enqueuedAt ∨ [m, x].Sublist (h.stalledOn addr)) (h.record t c b) := by
  have hok' := hok.record hcalled ht
  have hinj {q q' : Queued Tagged} (hq : q ∈ b.prioHeap) (hq' : q' ∈ b.prioHeap)
      (hmsg : q.msg = q'.msg) : q = q' := hok'.heap_inj (by rwa [record_buf]) (by rwa [record_buf]) hmsg
  have harrives := hok'.arrives.heap
  rw [record_buf] at harrives
  obtain ⟨lt, hsub, hperm⟩ := hc.perm hcalled
  have hmem {q : Queued Tagged} (hq : q ∈ restamp t h.buf.msgCounter lt) :
      q ∈ b.prioHeap := hperm.mem_iff.mpr (mem_append_right _ hq)
  obtain ⟨e, he, rfl⟩ : ∃ e ∈ restamp t h.buf.msgCounter lt, e.msg = m := by
    rw [← mem_map, restamp_msg]
    exact hsub.subset hm
  have htime := (mem_restamp he).1
  have hstalled {x : Tagged} (hx : [e.msg, x].Sublist (h.stalledOn addr)) :
      ∃ e' ∈ b.prioHeap, e'.msg = x ∧ e'.later e = true := by
    have hx := hx.trans hsub
    rw [← restamp_msg (t := t) h.buf.msgCounter lt] at hx
    obtain ⟨es, hes, hmap⟩ := sublist_map_iff.mp hx
    obtain ⟨e₁, es, rfl, hmsg₁, hrest⟩ := map_eq_cons_iff.mp hmap.symm
    obtain ⟨e₂, rfl, hmsg₂⟩ := map_eq_singleton_iff.mp hrest
    have hlater := rel_of_pairwise_cons ((restamp_pairwise t _ lt).sublist hes) mem_cons_self
    have heq : e₁ = e := hinj (hmem (hes.subset (by simp))) (hmem he) hmsg₁
    exact ⟨e₂, hmem (hes.subset (by simp)), hmsg₂, heq ▸ hlater⟩
  refine ⟨e, rfl, ?_, ?_, ?_, ?_⟩
  · rw [record_buf]
    exact hmem he
  · rw [record_now]
    exact htime.le
  · rw [record_buf]
    rintro q hq (henqueued | hx)
    · have harrives := harrives q hq
      exact Queued.later_iff.mpr (.inl (by omega))
    · obtain ⟨e', he', hmsg, hlater⟩ := hstalled hx
      rwa [hinj hq he' hmsg.symm]
  · rintro x hx (henqueued | hsubx)
    · have hdequeued : (h.record t c b).dequeued = h.dequeued := by
        rcases hc with rfl | rfl <;> rfl
      rw [hdequeued] at hx
      have harrived := hok.arrived x hx
      omega
    · obtain ⟨e', he', rfl, _⟩ := hstalled hsubx
      refine (nodup_append.mp hok'.nodup).2.2 e'.msg ?_ e'.msg hx rfl
      rw [record_buf]
      exact mem_append_left _ (mem_map_of_mem he')

/-- Messages leave a buffer by their keys, none is lost or duplicated, and messages that return
from the stall map leave in the order of their stalls and before all enqueued from then on. -/
theorem messages_leave_in_order {maxSize : Nat} (hreach : h.Reachable maxSize) :
    (∀ t h', h.now ≤ t → h.perform t .dequeue = .ok h' → ∃ q ∈ h.buf.prioHeap,
      h'.dequeued = h.dequeued ++ [q.msg] ∧ h.buf.prioHeap.Perm (q :: h'.buf.prioHeap) ∧
      ∀ q' ∈ h'.buf.prioHeap, q.lastEnqueueTime < q'.lastEnqueueTime ∨
        q.lastEnqueueTime = q'.lastEnqueueTime ∧ q.msgCounter < q'.msgCounter) ∧
    ((h.buf.prioHeap.map (·.msg.id) ++ h.buf.stallMsgMap.map (·.2.id) ++ h.dequeued.map (·.id)).Perm
      (range h.count)) ∧
    ∀ addr, (h.stalledOn addr).Sublist h.stalled.dedup ∧
      ∀ t c h₁ h₂, Reanalyzes addr c → h.now ≤ t → h.perform t c = .ok h₁ →
        Relation.ReflTransGen Step h₁ h₂ → ∀ m ∈ h.stalledOn addr,
          h₂.stalled.count m = h₁.stalled.count m → h₂.recycled.count m = h₁.recycled.count m →
          (∀ m' ∈ h₂.dequeued, [m, m'].Sublist (h.stalledOn addr) → [m, m'].Sublist h₂.dequeued) ∧
          ∀ x ∈ h₂.dequeued, t ≤ x.enqueuedAt → [m, x].Sublist h₂.dequeued := by
  have hok := hreach.ok
  refine ⟨fun t h' _ hperform => ?_, ?_, fun addr => ⟨?_, ?_⟩⟩
  · obtain ⟨b, hcalled, rfl⟩ := perform_called hperform
    cases hcalled with
    | @dequeue m rest hheap hready =>
      have hsorted := hok.heap.sorted
      rw [hheap] at hsorted ⊢
      refine ⟨m, mem_cons_self, ?_, .refl _, fun q hq => ?_⟩
      · rw [record_dequeued]
        simp [tag, BufferCall.removed, hheap]
      · exact Queued.later_iff.mp ((pairwise_cons.mp hsorted).1 q hq)
  · have hids := hok.ids
    simp only [contents, map_append, map_map] at hids
    exact hids
  · exact (filter_sublist.map Prod.snd).trans hok.stallOrder
  · intro t c h₁ h₂ hc ht hperform hrun m hm hstalled hrecycled
    obtain ⟨b, hcalled, rfl⟩ := perform_called hperform
    obtain ⟨e, rfl, hleads⟩ := Leads.returned hok ht hc hcalled hm
    obtain ⟨_, hcase⟩ := hleads.run (hok.record hcalled ht) hrun hstalled hrecycled
    have hpassed {x : Tagged} (hx : x ∈ h₂.dequeued)
        (hX : t ≤ x.enqueuedAt ∨ [e.msg, x].Sublist (h.stalledOn addr)) :
        [e.msg, x].Sublist h₂.dequeued := by
      rcases hcase with hleads | hpassed
      · exact absurd hX (hleads.left x hx)
      · exact hpassed.2 x hx hX
    exact ⟨fun x hx hsub => hpassed hx (.inr hsub), fun x hx htime => hpassed hx (.inl htime)⟩

def runCalls : List (Nat × BufferCall Unit) → History → Option History
  | [], h => some h
  | (t, c) :: calls, h =>
    if h.now ≤ t ∧ c.isDelayHead = false then
      match h.perform t c with
      | .ok h' => runCalls calls h'
      | .error _ => none
    else none

theorem run_of_runCalls {calls : List (Nat × BufferCall Unit)} (hrun : runCalls calls h = some h') :
    Relation.ReflTransGen Step h h' := by
  induction calls generalizing h with
  | nil =>
    cases hrun
    exact .refl
  | cons x calls ih =>
    unfold runCalls at hrun
    split at hrun
    · next hok =>
      split at hrun
      · next hperform => exact (ih hrun).head ⟨x.1, x.2, hok.1, hok.2, hperform⟩
      · cases hrun
    · cases hrun

/-- Two messages are stalled and return in the cycle in which a third one is enqueued. -/
theorem messages_leave_in_order_three : ∃ h h₁ h₂ : History, h.Reachable 4 ∧
    h.stalledOn 320 = [⟨0, 1⟩, ⟨1, 1⟩] ∧ h.perform 3 (.reanalyzeMessages 320) = .ok h₁ ∧
    Relation.ReflTransGen Step h₁ h₂ ∧ h₂.dequeued = [⟨0, 1⟩, ⟨1, 1⟩, ⟨2, 3⟩] ∧
    [⟨0, 1⟩, ⟨1, 1⟩].Sublist h₂.dequeued ∧ [⟨0, 1⟩, ⟨2, 3⟩].Sublist h₂.dequeued := by
  obtain ⟨h, hinit, hnow, hon, h₁, hperform, h₂, hrun, hdequeued, hstalled, hrecycled⟩ :
      ∃ h : History, runCalls [(1, .enqueue () 1), (1, .enqueue () 1), (2, .stallMessage 320),
          (2, .stallMessage 320)] (init 4 6) = some h ∧
        h.now = 2 ∧ h.stalledOn 320 = [⟨0, 1⟩, ⟨1, 1⟩] ∧
        ∃ h₁, h.perform 3 (.reanalyzeMessages 320) = .ok h₁ ∧ ∃ h₂, runCalls
          [(3, .enqueue () 1), (3, .dequeue), (3, .dequeue), (4, .dequeue)] h₁ = some h₂ ∧
          h₂.dequeued = [⟨0, 1⟩, ⟨1, 1⟩, ⟨2, 3⟩] ∧ h₂.stalled = h₁.stalled ∧
          h₂.recycled = h₁.recycled := by
    refine ⟨_, rfl, rfl, rfl, _, rfl, _, rfl, ?_, ?_, ?_⟩ <;> rfl
  have hreach : h.Reachable 4 := ⟨6, run_of_runCalls hinit⟩
  have hrun := run_of_runCalls hrun
  obtain ⟨hstall, henqueue⟩ := ((messages_leave_in_order hreach).2.2 320).2 3 _ h₁ h₂ (.inl rfl)
    (by omega) hperform hrun ⟨0, 1⟩ (by rw [hon]; exact mem_cons_self) (by rw [hstalled])
    (by rw [hrecycled])
  refine ⟨h, h₁, h₂, hreach, hon, hperform, hrun, hdequeued, hstall ⟨1, 1⟩ ?_ ?_,
    henqueue ⟨2, 3⟩ ?_ le_rfl⟩
  · simp [hdequeued]
  · rw [hon]
  · simp [hdequeued]

end Returned

end History

end Drain
