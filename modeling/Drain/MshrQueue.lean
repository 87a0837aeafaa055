import Drain.Lib.Holds

/-! The queue of miss registers of a cache (`mem/cache/mshr_queue.cc`, `mem/cache/queue.hh`) with
its three lists of entries: free, allocated, and ready, the last in the order of their times. -/

namespace Drain

open Function List

/-- The entries are numbered; of each the queue reads two fields. -/
structure MshrQueue (numEntries : Nat) where
  readyTime : Fin numEntries → Nat
  inService : Fin numEntries → Bool
  allocatedList : List (Fin numEntries)
  readyList : List (Fin numEntries)
  freeList : List (Fin numEntries)
  numInService : Int
  allocated : Int

/-- The assertions, and `notListed` for an iterator of an entry that is not on the list. -/
inductive MshrQueueFailure where
  | full
  | inService
  | notInService
  | notReady
  | notListed
deriving DecidableEq, Repr

namespace MshrQueue

variable {n : Nat}

def maxTick : Nat := 2 ^ 64 - 1

def init (n : Nat) : MshrQueue n :=
  ⟨fun _ => 0, fun _ => false, [], [], finRange n, 0, 0⟩

def addToReadyList (q : MshrQueue n) (entry : Fin n) : MshrQueue n :=
  let early (i : Fin n) : Bool := q.readyTime i ≤ q.readyTime entry
  if q.readyList.getLast?.all early then { q with readyList := q.readyList ++ [entry] }
  else { q with
    readyList := q.readyList.takeWhile early ++ entry :: q.readyList.dropWhile early }

def allocate (q : MshrQueue n) (whenReady : Nat) : Except MshrQueueFailure (MshrQueue n) :=
  match q.freeList with
  | [] => throw .full
  | mshr :: freeList =>
    let q := { q with
      freeList, readyTime := update q.readyTime mshr whenReady
      inService := update q.inService mshr false
      allocatedList := q.allocatedList ++ [mshr], allocated := q.allocated + 1 }
    pure (q.addToReadyList mshr)

/-- `std::list::splice` of one element to the place before `it`, the end if there is none. -/
def splice (l : List (Fin n)) (it : Option (Fin n)) (mshr : Fin n) : List (Fin n) :=
  match it with
  | none => l.erase mshr ++ [mshr]
  | some i =>
    if i = mshr then l
    else (l.erase mshr).takeWhile (· ≠ i) ++ mshr :: (l.erase mshr).dropWhile (· ≠ i)

def delay (q : MshrQueue n) (curTick : Nat) (mshr : Fin n) (delayTicks : Nat) :
    Except MshrQueueFailure (MshrQueue n) := do
  require (q.readyTime mshr ≤ curTick) .notReady
  require (mshr ∈ q.readyList) .notListed
  let q := { q with readyTime := update q.readyTime mshr (curTick + delayTicks) }
  -- The search starts at the entry itself.
  let it := (q.readyList.dropWhile (· ≠ mshr)).find? fun m => q.readyTime mshr ≥ q.readyTime m
  pure { q with readyList := splice q.readyList it mshr }

def markInService (q : MshrQueue n) (mshr : Fin n) : Except MshrQueueFailure (MshrQueue n) := do
  require (q.inService mshr = false) .inService
  require (mshr ∈ q.readyList) .notListed
  pure { q with
    inService := update q.inService mshr true, readyList := q.readyList.erase mshr
    numInService := q.numInService + 1 }

def markPending (q : MshrQueue n) (mshr : Fin n) : Except MshrQueueFailure (MshrQueue n) := do
  require (q.inService mshr = true) .notInService
  let q := { q with
    inService := update q.inService mshr false, numInService := q.numInService - 1 }
  pure (q.addToReadyList mshr)

def deallocate (q : MshrQueue n) (entry : Fin n) : Except MshrQueueFailure (MshrQueue n) := do
  require (entry ∈ q.allocatedList) .notListed
  require (q.inService entry = true ∨ entry ∈ q.readyList) .notListed
  let q := { q with
    allocatedList := q.allocatedList.erase entry, freeList := entry :: q.freeList
    allocated := q.allocated - 1 }
  let q := if q.inService entry then { q with numInService := q.numInService - 1 }
    else { q with readyList := q.readyList.erase entry }
  pure { q with inService := update q.inService entry false }

def getNext (q : MshrQueue n) (curTick : Nat) : Option (Fin n) :=
  match q.readyList with
  | [] => none
  | e :: _ => if q.readyTime e > curTick then none else some e

def nextReadyTime (q : MshrQueue n) : Nat :=
  match q.readyList with
  | [] => maxTick
  | e :: _ => q.readyTime e

inductive Call (n : Nat) where
  | allocate (whenReady : Nat)
  | markInService (mshr : Fin n)
  | markPending (mshr : Fin n)
  | delay (curTick : Nat) (mshr : Fin n) (delayTicks : Nat)
  | deallocate (mshr : Fin n)

def call (q : MshrQueue n) : Call n → Except MshrQueueFailure (MshrQueue n)
  | .allocate whenReady => q.allocate whenReady
  | .markInService mshr => q.markInService mshr
  | .markPending mshr => q.markPending mshr
  | .delay curTick mshr delayTicks => q.delay curTick mshr delayTicks
  | .deallocate mshr => q.deallocate mshr

/-- A delay after which an entry further back on the list has the earlier time. -/
def overtakes (q : MshrQueue n) : Call n → Bool
  | .delay curTick mshr delayTicks => (q.readyList.dropWhile (· ≠ mshr)).tail.any
      fun e => q.readyTime e < curTick + delayTicks
  | _ => false

def run (calls : List (Call n)) : Except MshrQueueFailure (MshrQueue n × Bool) :=
  calls.foldlM (fun s c => do
    let q ← s.1.call c
    pure (q, s.2 || s.1.overtakes c)) (init n, false)

/-- The free and the allocated entries part all entries, and the ready ones are the allocated
ones that are not in service. -/
structure Lists (free alloc ready : List (Fin n)) (inService : Fin n → Bool)
    (numInService allocated : Int) : Prop where
  free_nodup : free.Nodup
  alloc_nodup : alloc.Nodup
  ready_nodup : ready.Nodup
  mem_free : ∀ e, e ∈ free ↔ e ∉ alloc
  mem_ready : ∀ e, e ∈ ready ↔ e ∈ alloc ∧ inService e = false
  inService_mem : ∀ e, inService e = true → e ∈ alloc
  allocated_eq : allocated = alloc.length
  numInService_eq : numInService = alloc.countP inService

def Consistent (q : MshrQueue n) : Prop :=
  Lists q.freeList q.allocatedList q.readyList q.inService q.numInService q.allocated

def InOrder (time : Fin n → Nat) (l : List (Fin n)) : Prop :=
  l.Pairwise fun a b => time a ≤ time b

def Sorted (q : MshrQueue n) : Prop := InOrder q.readyTime q.readyList

section Lists

variable {free alloc ready ready' : List (Fin n)} {serv : Fin n → Bool} {j k m : Int} {e : Fin n}
  {b : Bool}

theorem countP_update_of_notMem {l : List (Fin n)} (he : e ∉ l) :
    l.countP (update serv e b) = l.countP serv :=
  countP_congr fun i hi => by rw [update_of_ne (ne_of_mem_of_not_mem hi he)]

theorem Lists.countP_erase (h : Lists free alloc ready serv k m) (he : e ∈ alloc)
    (p : Fin n → Bool) :
    alloc.countP p = (alloc.erase e).countP p + (p e).toNat ∧ e ∉ alloc.erase e := by
  refine ⟨?_, fun hmem => (h.alloc_nodup.mem_erase_iff.mp hmem).1 rfl⟩
  rw [(perm_cons_erase he).countP_eq, countP_cons]
  cases p e <;> rfl

theorem Lists.serve (h : Lists free alloc ready serv k m) (he : e ∈ alloc) (hready : ready'.Nodup)
    (hmem : ∀ i, i ∈ ready' ↔ if i = e then b = false else i ∈ ready)
    (hk : j + (serv e).toNat = k + b.toNat) :
    Lists free alloc ready' (update serv e b) j m :=
  { h with
    ready_nodup := hready
    mem_ready := fun i => by
      rw [hmem, h.mem_ready, update_apply]
      split <;> simp_all
    inService_mem := fun i hi => by
      by_cases hie : i = e
      · exact hie ▸ he
      · exact h.inService_mem i (by rwa [update_of_ne hie] at hi)
    numInService_eq := by
      obtain ⟨hcount, hnot⟩ := h.countP_erase he (update serv e b)
      have hserv := (h.countP_erase he serv).1
      have hnum := h.numInService_eq
      rw [hcount, countP_update_of_notMem hnot, update_self]
      omega }

theorem Lists.allocate (h : Lists (e :: free) alloc ready serv k m)
    (hready : ready'.Perm (e :: ready)) :
    Lists free (alloc ++ [e]) ready' (update serv e false) k (m + 1) := by
  have he : e ∉ alloc := (h.mem_free e).mp mem_cons_self
  have hserv : update serv e false = serv :=
    update_eq_self_iff.mpr (Bool.eq_false_iff.mpr (mt (h.inService_mem e) he)).symm
  have hidle : serv e = false := congrFun hserv e ▸ update_self ..
  have hnodup := nodup_cons.mp h.free_nodup
  rw [hserv]
  exact
    { free_nodup := hnodup.2
      alloc_nodup := (perm_append_singleton e alloc).nodup_iff.mpr (h.alloc_nodup.cons he)
      ready_nodup := hready.nodup_iff.mpr
        (h.ready_nodup.cons fun hr => he ((h.mem_ready e).mp hr).1)
      mem_free := fun i => by
        have := h.mem_free i
        grind
      mem_ready := fun i => by
        have := h.mem_ready i
        have := hready.mem_iff (a := i)
        grind
      inService_mem := fun i hi => mem_append_left _ (h.inService_mem i hi)
      allocated_eq := by simp [h.allocated_eq]
      numInService_eq := by simp [h.numInService_eq, hidle] }

theorem Lists.deallocate (h : Lists free alloc ready serv k m) (he : e ∈ alloc)
    (hk : j + (serv e).toNat = k) :
    Lists (e :: free) (alloc.erase e) (ready.erase e) (update serv e false) j (m - 1) := by
  have hfree : e ∉ free := fun hmem => (h.mem_free e).mp hmem he
  obtain ⟨hcount, hnot⟩ := h.countP_erase he serv
  have hmem i := h.alloc_nodup.mem_erase_iff (a := i) (b := e)
  have hmem' i := h.ready_nodup.mem_erase_iff (a := i) (b := e)
  exact
    { free_nodup := h.free_nodup.cons hfree
      alloc_nodup := h.alloc_nodup.erase e
      ready_nodup := h.ready_nodup.erase e
      mem_free := fun i => by
        have := h.mem_free i
        grind
      mem_ready := fun i => by
        rw [hmem', hmem, h.mem_ready, update_apply]
        split <;> simp_all
      inService_mem := fun i hi => by
        rw [update_apply] at hi
        split at hi
        next => exact nomatch hi
        next hie => exact (hmem i).mpr ⟨hie, h.inService_mem i hi⟩
      allocated_eq := by
        rw [h.allocated_eq, length_erase_of_mem he]
        have := length_pos_of_mem he
        omega
      numInService_eq := by
        have hnum := h.numInService_eq
        rw [countP_update_of_notMem hnot]
        omega }

end Lists

section Steps

variable {q q' : MshrQueue n} {e : Fin n} {time : Fin n → Nat} {l r : List (Fin n)}

theorem InOrder.update {t : Nat} (hl : InOrder time l) (he : e ∉ l) :
    InOrder (update time e t) l :=
  hl.imp_of_mem fun ha hb hab => by
    rwa [update_of_ne (ne_of_mem_of_not_mem ha he), update_of_ne (ne_of_mem_of_not_mem hb he)]

theorem InOrder.insert (h : InOrder time (l ++ r)) (hl : ∀ a ∈ l, time a ≤ time e)
    (hr : ∀ b ∈ r, time e ≤ time b) : InOrder time (l ++ e :: r) := by
  obtain ⟨hpl, hpr, hlr⟩ := pairwise_append.mp h
  refine pairwise_append.mpr ⟨hpl, hpr.cons hr, fun a ha b hb => ?_⟩
  rcases mem_cons.mp hb with rfl | hb
  · exact hl a ha
  · exact hlr a ha b hb

/-- The entry comes to stand behind every entry that is not later. -/
theorem addToReadyList_eq (q : MshrQueue n) (e : Fin n) :
    ∃ l, q.addToReadyList e = { q with readyList := l } ∧ l.Perm (e :: q.readyList) ∧
      (q.Sorted → InOrder q.readyTime l) := by
  unfold addToReadyList
  dsimp only
  split
  next hlast =>
    refine ⟨_, rfl, perm_append_singleton e _, fun hs => ?_⟩
    refine InOrder.insert (by rwa [append_nil]) (fun a ha => ?_) nofun
    rcases eq_nil_or_concat q.readyList with hnil | ⟨l, last, hl⟩
    · exact nomatch hnil ▸ ha
    · rw [Sorted, InOrder, hl, concat_eq_append, pairwise_append] at hs
      have hlast' : q.readyTime last ≤ q.readyTime e := by simpa [hl] using hlast
      rw [hl, concat_eq_append, mem_append, mem_singleton] at ha
      rcases ha with ha | rfl
      · exact (hs.2.2 a ha last mem_cons_self).trans hlast'
      · exact hlast'
  next hlast =>
    set early := fun i => decide (q.readyTime i ≤ q.readyTime e)
    have hsplit : q.readyList.takeWhile early ++ q.readyList.dropWhile early = q.readyList :=
      takeWhile_append_dropWhile
    refine ⟨_, rfl, perm_middle.trans (by rw [hsplit]), fun hs => ?_⟩
    refine InOrder.insert (hsplit.symm ▸ hs)
      (fun a ha => of_decide_eq_true (mem_takeWhile_imp (p := early) ha)) fun b hb => ?_
    -- The first entry that is dropped is later, and the others are behind it.
    cases hdrop : q.readyList.dropWhile early with
    | nil => exact nomatch hdrop ▸ hb
    | cons c r =>
      have hc : q.readyTime e < q.readyTime c := by
        have := head?_dropWhile_not early q.readyList
        simpa [hdrop, early] using this
      rw [hdrop] at hb
      rw [Sorted, InOrder, ← hsplit, hdrop] at hs
      rcases mem_cons.mp hb with rfl | hb
      · exact hc.le
      · exact hc.le.trans (rel_of_pairwise_cons (pairwise_append.mp hs).2.1 hb)

theorem dropWhile_ne (he : e ∈ l) : ∃ r, l.dropWhile (· ≠ e) = e :: r := by
  cases hl : l.dropWhile (· ≠ e) with
  | nil => simpa using dropWhile_eq_nil_iff.mp hl e he
  | cons c r =>
    have hc := head?_dropWhile_not (· ≠ e) l
    rw [hl] at hc
    obtain rfl : c = e := by simpa using hc
    exact ⟨r, rfl⟩

/-- The entry is no later than itself, so that the search for its place ends where it starts. -/
theorem delay_eq {curTick delayTicks : Nat} (h : q.delay curTick e delayTicks = .ok q') :
    q.readyTime e ≤ curTick ∧ e ∈ q.readyList ∧
      q' = { q with readyTime := update q.readyTime e (curTick + delayTicks) } := by
  obtain ⟨_, htick, h⟩ := bind_eq_ok.mp h
  obtain ⟨_, hmem, h⟩ := bind_eq_ok.mp h
  have hmem := require_eq_ok.mp hmem
  obtain ⟨r, hr⟩ := dropWhile_ne hmem
  refine ⟨require_eq_ok.mp htick, hmem, (Except.ok.inj h).symm.trans ?_⟩
  rw [hr]
  simp [splice]

theorem Consistent.call (hq : q.Consistent) {c : Call n} (h : q.call c = .ok q') :
    q'.Consistent ∧ (q.Sorted → q.overtakes c = false → q'.Sorted) := by
  cases c with
  | allocate whenReady =>
    change q.allocate whenReady = _ at h
    unfold MshrQueue.allocate at h
    split at h
    next => exact nomatch h
    next e free hfree =>
      rw [Consistent, hfree] at hq
      have he : e ∉ q.readyList := fun hr =>
        (hq.mem_free e).mp mem_cons_self ((hq.mem_ready e).mp hr).1
      obtain ⟨l, hl, hperm, hsort⟩ := addToReadyList_eq _ e
      obtain rfl := (Except.ok.inj h).symm.trans hl
      exact ⟨hq.allocate hperm, fun hs _ => hsort (InOrder.update hs he)⟩
  | markInService e =>
    obtain ⟨_, hidle, h⟩ := bind_eq_ok.mp h
    obtain ⟨_, hmem, h⟩ := bind_eq_ok.mp h
    have hidle := require_eq_ok.mp hidle
    have he := (hq.mem_ready e).mp (require_eq_ok.mp hmem)
    obtain rfl := Except.ok.inj h
    refine ⟨hq.serve he.1 (hq.ready_nodup.erase e) (fun i => ?_) (by simp [hidle]),
      fun hs _ => hs.sublist erase_sublist⟩
    rw [hq.ready_nodup.mem_erase_iff]
    split <;> simp_all
  | markPending e =>
    obtain ⟨_, hserv, h⟩ := bind_eq_ok.mp h
    have hserv := require_eq_ok.mp hserv
    have he : e ∉ q.readyList := fun hr => by simpa [hserv] using (hq.mem_ready e).mp hr
    obtain ⟨l, hl, hperm, hsort⟩ := addToReadyList_eq _ e
    obtain rfl := (Except.ok.inj h).symm.trans hl
    refine ⟨hq.serve (hq.inService_mem e hserv) (hperm.nodup_iff.mpr (hq.ready_nodup.cons he))
      (fun i => ?_) (by simp [hserv]), fun hs _ => hsort hs⟩
    rw [hperm.mem_iff, mem_cons]
    split <;> simp_all
  | delay curTick e delayTicks =>
    obtain ⟨htick, hmem, rfl⟩ := delay_eq h
    refine ⟨hq, fun hs hover => ?_⟩
    obtain ⟨r, hr⟩ := dropWhile_ne hmem
    have hsplit : q.readyList.takeWhile (· ≠ e) ++ e :: r = q.readyList :=
      hr ▸ takeWhile_append_dropWhile
    set l := q.readyList.takeWhile (· ≠ e)
    have he : e ∉ l ++ r :=
      (nodup_cons.mp (perm_middle.nodup_iff.mp (hsplit ▸ hq.ready_nodup))).1
    have hr : ∀ b ∈ r, curTick + delayTicks ≤ q.readyTime b := by
      rw [overtakes, hr] at hover
      simpa using hover
    rw [Sorted, ← hsplit] at hs
    have hrest : InOrder q.readyTime (l ++ r) :=
      hs.sublist ((sublist_cons_self e r).append_left l)
    change InOrder (update q.readyTime e _) q.readyList
    rw [← hsplit]
    refine (hrest.update he).insert (fun a ha => ?_) fun b hb => ?_
    · rw [update_of_ne (ne_of_mem_of_not_mem (mem_append_left r ha) he), update_self]
      exact ((pairwise_append.mp hs).2.2 a ha e mem_cons_self).trans (by omega)
    · rw [update_of_ne (ne_of_mem_of_not_mem (mem_append_right l hb) he), update_self]
      exact hr b hb
  | deallocate e =>
    obtain ⟨_, hmem, h⟩ := bind_eq_ok.mp h
    obtain ⟨_, -, h⟩ := bind_eq_ok.mp h
    have hmem := require_eq_ok.mp hmem
    obtain rfl := Except.ok.inj h
    cases hserv : q.inService e with
    | true =>
      have he : e ∉ q.readyList := fun hr => by simpa [hserv] using (hq.mem_ready e).mp hr
      have hlists := hq.deallocate (j := q.numInService - 1) hmem (by simp [hserv])
      rw [erase_of_not_mem he] at hlists
      exact ⟨hlists, fun hs _ => hs⟩
    | false =>
      exact ⟨hq.deallocate hmem (by simp [hserv]), fun hs _ => hs.sublist erase_sublist⟩

end Steps

theorem Sorted.front {q : MshrQueue n} (hs : q.Sorted) (hne : q.readyList ≠ []) :
    ∃ e ∈ q.readyList, (∀ i ∈ q.readyList, q.readyTime e ≤ q.readyTime i) ∧
      q.nextReadyTime = q.readyTime e ∧ ∀ t, q.readyTime e ≤ t → q.getNext t = some e := by
  unfold nextReadyTime getNext
  cases hl : q.readyList with
  | nil => exact absurd hl hne
  | cons e l =>
    rw [Sorted, InOrder, hl, pairwise_cons] at hs
    exact ⟨e, mem_cons_self, forall_mem_cons.mpr ⟨le_rfl, hs.1⟩, rfl,
      fun t ht => if_neg ht.not_gt⟩

theorem Consistent.init (n : Nat) : (init n).Consistent where
  free_nodup := nodup_finRange n
  alloc_nodup := nodup_nil
  ready_nodup := nodup_nil
  mem_free e := by simp [MshrQueue.init]
  mem_ready e := by simp [MshrQueue.init]
  inService_mem _ h := nomatch h
  allocated_eq := rfl
  numInService_eq := rfl

/-- The ready list, the counts and the free list are right after every run. Without a delay that
overtakes, the ready entries also stand in the order of their times, so that the queue offers an
entry as soon as one is ready. -/
theorem run_ready {calls : List (Call n)} {q : MshrQueue n} {overtaken : Bool}
    (h : run calls = .ok (q, overtaken)) : q.Consistent ∧ (overtaken = false → q.Sorted ∧
      (∀ curTick, (∃ e ∈ q.readyList, q.readyTime e ≤ curTick) →
        ∃ e ∈ q.readyList, q.getNext curTick = some e ∧ q.readyTime e ≤ curTick) ∧
      (q.readyList ≠ [] → IsLeast {t | ∃ e ∈ q.readyList, q.readyTime e = t} q.nextReadyTime)) := by
  have hinit : InOrder (MshrQueue.init n).readyTime [] := List.Pairwise.nil
  obtain ⟨hq, hsort⟩ := (holds_foldlM (E := fun _ => True)
    (fun s : MshrQueue n × Bool => s.1.Consistent ∧ (s.2 = false → s.1.Sorted)) calls
    (s := (MshrQueue.init n, false)) ⟨Consistent.init n, fun _ => hinit⟩ fun c _ s hs => by
      cases hc : s.1.call c with
      | error => trivial
      | ok q =>
        have hcall := hs.1.call hc
        refine ⟨hcall.1, fun hover => ?_⟩
        obtain ⟨h₁, h₂⟩ := Bool.or_eq_false_iff.mp hover
        exact hcall.2 (hs.2 h₁) h₂).of_ok h
  refine ⟨hq, fun hover => ⟨hsort hover, fun curTick hready => ?_, fun hne => ?_⟩⟩
  · obtain ⟨i, hi, htick⟩ := hready
    obtain ⟨e, he, hle, -, hnext⟩ := (hsort hover).front (ne_nil_of_mem hi)
    exact ⟨e, he, hnext curTick ((hle i hi).trans htick), (hle i hi).trans htick⟩
  · obtain ⟨e, he, hle, hnext, -⟩ := (hsort hover).front hne
    exact hnext ▸ ⟨⟨e, he, rfl⟩, fun t ⟨i, hi, ht⟩ => ht ▸ hle i hi⟩

theorem run_ready_pending : ∃ q : MshrQueue 2, run [.allocate 3, .allocate 1, .markInService 1,
    .delay 3 0 4, .markPending 1] = .ok (q, false) ∧ q.readyList = [1, 0] ∧ q.Sorted := by
  have h : run (n := 2) [.allocate 3, .allocate 1, .markInService 1, .delay 3 0 4,
    .markPending 1] = .ok (_, false) := rfl
  exact ⟨_, h, by decide, ((run_ready h).2 rfl).1⟩

/-- The first of two entries is delayed past the second and keeps its place, so that the second
is not offered at its time. -/
theorem run_overtaken : ∃ q : MshrQueue 2,
    run [.allocate 0, .allocate 5, .delay 0 0 10] = .ok (q, true) ∧ 1 ∈ q.readyList ∧
      q.readyTime 1 = 5 ∧ q.getNext 5 = none ∧ q.nextReadyTime = 10 := by
  refine ⟨_, rfl, ?_⟩
  decide

end MshrQueue

end Drain
