import Drain.Mesh
import Drain.Run

/-! Messages with several destinations. `flitisizeMessage` makes one packet for each node of the
destination set, takes the node out of the queued message, and may stop at any node for want of a
VC; the next call goes on with what is left. -/

namespace Drain

open List State Bool

structure Machines where
  num : Nat
  baseCount : Nat → Nat

namespace Machines

variable (m : Machines)

def baseNumber (type : Nat) : Nat := ((range type).map m.baseCount).sum

variable {m} {i i' j j' : Nat}

theorem baseNumber_succ (i : Nat) : m.baseNumber (i + 1) = m.baseNumber i + m.baseCount i := by
  simp [baseNumber, range_succ]

theorem baseNumber_mono (h : i ≤ i') : m.baseNumber i ≤ m.baseNumber i' := by
  induction h with
  | refl => exact le_rfl
  | step _ ih =>
    rw [baseNumber_succ]
    omega

theorem nodeId_lt (h : i < i') (hj : j < m.baseCount i) (j' : Nat) :
    m.baseNumber i + j < m.baseNumber i' + j' := by
  have := baseNumber_mono (m := m) (Nat.succ_le_of_lt h)
  rw [baseNumber_succ] at this
  omega

theorem nodeId_inj (hj : j < m.baseCount i) (hj' : j' < m.baseCount i') :
    m.baseNumber i + j = m.baseNumber i' + j' ↔ i = i' ∧ j = j' := by
  constructor
  · intro h
    rcases Nat.lt_trichotomy i i' with hlt | rfl | hlt
    · have := nodeId_lt hlt hj j'
      omega
    · exact ⟨rfl, by omega⟩
    · have := nodeId_lt hlt hj' j
      omega
  · rintro ⟨rfl, rfl⟩
    rfl

end Machines

structure DestBits (m : Machines) where
  isElement : Nat → Nat → Bool
  valid : ∀ {i j}, isElement i j = true → i < m.num ∧ j < m.baseCount i

namespace DestBits

variable {m : Machines}

def single (i j : Nat) (h : i < m.num ∧ j < m.baseCount i) : DestBits m where
  isElement := fun i' j' => i' = i ∧ j' = j
  valid := by
    intro i' j' h'
    obtain ⟨rfl, rfl⟩ := of_decide_eq_true h'
    exact h

def removeNetDest (b b' : DestBits m) : DestBits m where
  isElement := fun i j => b.isElement i j && !b'.isElement i j
  valid := fun h => b.valid (and_eq_true_iff.mp h).1

def getAllDest (b : DestBits m) : List Nat :=
  (range m.num).flatMap fun i =>
    ((range (m.baseCount i)).filter (b.isElement i)).map (m.baseNumber i + ·)

/-- The loop over the machine types that finds the controller of a node. -/
def personalDest (m : Machines) (destID : Nat) : Option (DestBits m) :=
  (finRange m.num).findSome? fun i : Fin m.num =>
    if h : m.baseNumber i.1 ≤ destID ∧ destID < m.baseNumber (i.1 + 1) then
      some (single i.1 (destID - m.baseNumber i.1) ⟨i.2, by
        rw [Machines.baseNumber_succ] at h
        omega⟩)
    else none

variable {b : DestBits m} {i j d : Nat} {ds : List Nat}

theorem mem_getAllDest : d ∈ b.getAllDest ↔ ∃ i j, b.isElement i j = true ∧ d = m.baseNumber i + j := by
  simp only [getAllDest, mem_flatMap, mem_map, mem_filter, mem_range]
  constructor
  · rintro ⟨i, _, j, ⟨_, hb⟩, rfl⟩
    exact ⟨i, j, hb, rfl⟩
  · rintro ⟨i, j, hb, rfl⟩
    exact ⟨i, (b.valid hb).1, j, ⟨(b.valid hb).2, hb⟩, rfl⟩

theorem nodup_getAllDest (b : DestBits m) : b.getAllDest.Nodup := by
  unfold getAllDest
  rw [nodup_flatMap]
  constructor
  · intro i _
    refine (nodup_range.filter _).map fun j j' h => ?_
    omega
  · refine (nodup_range (n := m.num)).imp fun {i i'} hne => ?_
    intro d hd hd'
    simp only [mem_map, mem_filter, mem_range] at hd hd'
    obtain ⟨j, ⟨hj, _⟩, rfl⟩ := hd
    obtain ⟨j', ⟨hj', _⟩, heq⟩ := hd'
    exact hne ((Machines.nodeId_inj hj' hj).mp heq).1.symm

theorem getAllDest_single (h : i < m.num ∧ j < m.baseCount i) :
    (single i j h).getAllDest = [m.baseNumber i + j] := by
  have hmem : ∀ d, d ∈ (single i j h).getAllDest ↔ d ∈ [m.baseNumber i + j] := by
    intro d
    simp [mem_getAllDest, single]
  exact perm_singleton.mp ((perm_ext_iff_of_nodup (nodup_getAllDest _) (by simp)).mpr hmem)

theorem getAllDest_remove_single (h : i < m.num ∧ j < m.baseCount i) :
    (b.removeNetDest (single i j h)).getAllDest =
      b.getAllDest.filter (· ≠ m.baseNumber i + j) := by
  unfold getAllDest
  rw [filter_flatMap]
  refine flatMap_congr fun i' hi' => ?_
  rw [filter_map, filter_filter]
  congr 1
  refine filter_congr fun j' hj' => ?_
  simp [removeNetDest, single, Machines.nodeId_inj (mem_range.mp hj') h.2, Bool.and_comm]

theorem personalDest_spec (h : d ∈ b.getAllDest) : ∃ p, personalDest m d = some p ∧
    p.getAllDest = [d] ∧ ∀ b' : DestBits m,
      (b'.removeNetDest p).getAllDest = b'.getAllDest.filter (· ≠ d) := by
  cases hfound : personalDest m d with
  | none =>
    obtain ⟨i, j, hb, rfl⟩ := mem_getAllDest.mp h
    obtain ⟨hi, hj⟩ := b.valid hb
    have hnone := findSome?_eq_none_iff.mp hfound ⟨i, hi⟩ (mem_finRange _)
    have hrange : m.baseNumber i + j < m.baseNumber (i + 1) := by
      rw [Machines.baseNumber_succ]
      omega
    simp [hrange] at hnone
  | some p =>
    obtain ⟨i, _, hi⟩ := exists_of_findSome?_eq_some hfound
    split at hi
    · next hrange =>
      cases hi
      have hd : m.baseNumber i.1 + (d - m.baseNumber i.1) = d := by omega
      refine ⟨_, rfl, ?_, fun b' => ?_⟩
      · rw [getAllDest_single, hd]
      · rw [getAllDest_remove_single, hd]
    · cases hi

end DestBits

structure Packet (m : Machines) where
  flit : Flit
  netDest : DestBits m

def Packet.destID {m : Machines} (p : Packet m) : Nat := p.flit.route.destNi

/-- A packet of one flit whose message and route name no node but the one it goes to. -/
structure Packet.Personal {m : Machines} (p : Packet m) : Prop where
  size : p.flit.type = .headTail
  message : p.netDest.getAllDest = [p.destID]
  route : p.flit.route.netDest = [p.destID]

/-- The state during a call, the destination of the queued message, and the packets made so far. -/
structure Flitisizing (m : Machines) where
  state : State
  queued : DestBits m
  packets : List (Packet m)

namespace Flitisizing

variable (net : Net) {m : Machines}

def packetFlit (n vnet vc destID : Nat) (netDest : NetDest) (s : Core) : Flit :=
  newFlit s.nextPtr 0 vc vnet { messageRoute net n vnet destID with netDest := netDest } 1 s.curCycle

def insertPacket (n vc : Nat) (f : Flit) (s : Core) : Core :=
  { s.setOutVc (.extIn n) vc ((s.outvcState (.extIn n) vc).setState .active s.curCycle) with
    niOutVcs := setEntry s.niOutVcs n vc (bufferInsert f (s.niOutVcs n vc))
    nextPtr := s.nextPtr + 1 }

/-- The message of the packet and what is left in the queue. A message with one destination is
cloned as it is. -/
def split (several : Bool) (destID : Nat) (queued : DestBits m) : DestBits m × DestBits m :=
  if several then
    match DestBits.personalDest m destID with
    | some p => (p, queued.removeNetDest p)
    | none => (queued, queued)
  else (queued, queued)

def loop (n vnet : Nat) (several : Bool) :
    List Nat → Flitisizing m → Except Failure (Bool × Flitisizing m)
  | [], t => pure (true, t)
  | destID :: dests, t => do
    require (net.injSingleVnet = 0 ∨ net.injSingleVnet = 1) .badOption
    let (vc, s) ← t.state.calculateVC net n (if net.injSingleVnet = 0 then vnet else 0)
    match vc with
    | none => pure (false, { t with state := s })
    | some vc =>
      let (netDest, queued) := split several destID t.queued
      let f := packetFlit net n vnet vc destID netDest.getAllDest s.toCore
      let s := s.on (insertPacket n vc f)
      let s := { s with niOutVcsEnqueueTime := setEntry s.niOutVcsEnqueueTime n vc s.curCycle }
      loop n vnet several dests
        { state := s, queued := queued, packets := t.packets ++ [⟨f, netDest⟩] }

def flitisizeMessage (n vnet : Nat) (s : State) (queued : DestBits m) :
    Except Failure (Bool × Flitisizing m) :=
  let destNodes := queued.getAllDest
  loop net n vnet (1 < destNodes.length) destNodes ⟨s, queued, []⟩

end Flitisizing

/-- What a call has done for the nodes `ds`: packets for the first of them, and the rest in
the queue. -/
structure Flitisized {m : Machines} (net : Net) (n vnet : Nat) (ds : List Nat) (t : Flitisizing m)
    (x : Bool × Flitisizing m) (left : List Nat) : Prop where
  packets : ∃ ps, x.2.packets = t.packets ++ ps ∧ ds = ps.map Packet.destID ++ left ∧
    ∀ p ∈ ps, p.Personal
  done : x.1 = true ↔ left = []
  queued : left ≠ [] → x.2.queued.getAllDest = left
  state : flitisizeMessage net n vnet ds t.state = .ok (left, x.2.state)

section Loop

open Flitisizing

variable {net : Net} {m : Machines} {n vnet : Nat} {several : Bool} {d : Nat} {ds : List Nat}
  {t : Flitisizing m}

theorem split_spec (hq : t.queued.getAllDest = d :: ds) (hseveral : several = false → ds = []) :
    (split several d t.queued).1.getAllDest = [d] ∧
      (ds ≠ [] → (split several d t.queued).2.getAllDest = ds) := by
  cases several with
  | false =>
    rw [hseveral rfl] at hq ⊢
    exact ⟨hq, fun h => absurd rfl h⟩
  | true =>
    obtain ⟨p, hp, hsingle, hremove⟩ := DestBits.personalDest_spec (b := t.queued) (d := d) (by simp [hq])
    simp only [split, hp, if_true]
    refine ⟨hsingle, fun _ => ?_⟩
    have hnodup := DestBits.nodup_getAllDest t.queued
    rw [hq, nodup_cons] at hnodup
    rw [hremove, hq]
    simp only [ne_eq, not_true_eq_false, decide_false, false_eq_true, not_false_eq_true,
      filter_cons_of_neg]
    refine filter_eq_self.mpr fun d' hd' => ?_
    have hne : d' ≠ d := fun h => hnodup.1 (h ▸ hd')
    simp [hne]

theorem loop_spec (hq : ds ≠ [] → t.queued.getAllDest = ds)
    (hseveral : several = false → ds.length ≤ 1) :
    Holds (loop net n vnet several ds t) (fun x => ∃ left, Flitisized net n vnet ds t x left)
      fun e => flitisizeMessage net n vnet ds t.state = .error e := by
  induction ds generalizing t with
  | nil => exact ⟨[], ⟨[], by simp, rfl, by simp⟩, by simp, nofun, rfl⟩
  | cons d ds ih =>
    have hq := hq (by simp)
    have hrest : several = false → ds = [] := fun h => by simpa using hseveral h
    obtain ⟨hclone, hleft⟩ := split_spec hq hrest
    have hcall (x : Option Nat × State)
        (hvc : t.state.calculateVC net n (if net.injSingleVnet = 0 then vnet else 0) = .ok x)
        (hinj : net.injSingleVnet = 0 ∨ net.injSingleVnet = 1) :
        flitisizeMessage net n vnet (d :: ds) t.state = match x.1 with
          | none => .ok (d :: ds, x.2)
          | some vc => flitisizeMessage net n vnet ds { x.2.on (createFlit net n vnet d vc) with
              niOutVcsEnqueueTime := setEntry x.2.niOutVcsEnqueueTime n vc x.2.curCycle } := by
      rw [State.flitisizeMessage, require, if_pos hinj, ok_bind, hvc, ok_bind]
      obtain ⟨vc, s⟩ := x
      cases vc <;> rfl
    rw [loop]
    refine .require ⟨fun hinj => ?_, fun hinj => ?_⟩
    · cases hvc : t.state.calculateVC net n (if net.injSingleVnet = 0 then vnet else 0) with
      | error e =>
        change _ = _
        rw [State.flitisizeMessage, require, if_pos hinj, ok_bind, hvc]
        rfl
      | ok x =>
        obtain ⟨vc, s⟩ := x
        have hcall := hcall _ hvc hinj
        cases vc with
        | none => exact ⟨d :: ds, ⟨[], by simp, rfl, by simp⟩, by simp, fun _ => hq, hcall⟩
        | some vc =>
          simp only [ok_bind, hclone]
          refine (ih ?_ ?_).mono ?_ ?_
          · exact hleft
          · exact fun h => by simp [hrest h]
          · rintro x _ ⟨left, ⟨ps, hps, hds, hpersonal⟩, hdone, hqueued, hstate⟩
            let p : Packet m :=
              ⟨packetFlit net n vnet vc d [d] s.toCore, (split several d t.queued).1⟩
            have hp : p.Personal := ⟨rfl, hclone, rfl⟩
            refine ⟨left, ⟨p :: ps, ?_, ?_, ?_⟩, hdone, hqueued, hcall.trans hstate⟩
            · simp [hps, p]
            · simp [hds, p, Packet.destID, packetFlit, newFlit, messageRoute]
            · exact forall_mem_cons.mpr ⟨hp, hpersonal⟩
          · exact fun e _ he => hcall.trans he
    · rw [State.flitisizeMessage, require, if_neg hinj]
      rfl

/-- A call refines the call with the list of the nodes: it fails where that one fails, and leaves
the nodes for which no packet was made. -/
theorem flitisizeMessage_spec (s : State) (b : DestBits m) :
    Holds (flitisizeMessage net n vnet s b)
      (fun x => ∃ left, Flitisized net n vnet b.getAllDest ⟨s, b, []⟩ x left)
      fun e => flitisizeMessage net n vnet b.getAllDest s = .error e := by
  refine loop_spec (fun _ => rfl) fun h => ?_
  simpa using h

end Loop

/-- The calls for one message of destination `b`, each in whatever state the interface then is:
the packets made so far, and the queued message until it is dequeued. -/
inductive Attempts {m : Machines} (net : Net) (n vnet : Nat) (b : DestBits m) :
    List (Packet m) → Option (DestBits m) → Prop
  | start : Attempts net n vnet b [] (some b)
  | again {ps : List (Packet m)} {queued : DestBits m} {s : State} {t : Flitisizing m} :
    Attempts net n vnet b ps (some queued) →
    Flitisizing.flitisizeMessage net n vnet s queued = .ok (false, t) →
    Attempts net n vnet b (ps ++ t.packets) (some t.queued)
  | dequeued {ps : List (Packet m)} {queued : DestBits m} {s : State} {t : Flitisizing m} :
    Attempts net n vnet b ps (some queued) →
    Flitisizing.flitisizeMessage net n vnet s queued = .ok (true, t) →
    Attempts net n vnet b (ps ++ t.packets) none

section Attempts

variable {net : Net} {m : Machines} {n vnet : Nat} {b : DestBits m} {ps : List (Packet m)}
  {queued : Option (DestBits m)}

theorem Attempts.nodes (h : Attempts net n vnet b ps queued) :
    b.getAllDest = ps.map Packet.destID ++ (queued.map DestBits.getAllDest).getD [] ∧
      ∀ p ∈ ps, p.Personal := by
  induction h with
  | start => simp
  | @again ps d s t _ hcall ih =>
    obtain ⟨left, ⟨qs, hqs, hds, hpersonal⟩, hdone, hqueued, _⟩ :=
      (flitisizeMessage_spec s d).of_ok hcall
    have hleft : left ≠ [] := fun h => by simpa using hdone.mpr h
    obtain rfl : qs = t.packets := by simpa using hqs.symm
    refine ⟨?_, forall_mem_append.mpr ⟨ih.2, hpersonal⟩⟩
    simp [ih.1, hds, hqueued hleft]
  | @dequeued ps d s t _ hcall ih =>
    obtain ⟨left, ⟨qs, hqs, hds, hpersonal⟩, hdone, _, _⟩ :=
      (flitisizeMessage_spec s d).of_ok hcall
    have hleft : left = [] := hdone.mp rfl
    obtain rfl : qs = t.packets := by simpa using hqs.symm
    refine ⟨?_, forall_mem_append.mpr ⟨ih.2, hpersonal⟩⟩
    simp [ih.1, hds, hleft]

end Attempts

end Drain
