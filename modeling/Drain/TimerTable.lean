import Drain.Lib.Calls
import Drain.RubyTypes

/-! `TimerTable`: lines with the times at which they become ready. The earliest entry is cached and
searched again only after the cache was invalidated. -/

namespace Drain

open List

def byAddress (x y : Addr × Nat) : Prop := x.1.toNat ≤ y.1.toNat

instance : DecidableRel byAddress := fun x y => inferInstanceAs (Decidable (x.1.toNat ≤ y.1.toNat))

instance : Std.Total byAddress := ⟨fun x y => le_total x.1.toNat y.1.toNat⟩

instance : IsTrans (Addr × Nat) byAddress := ⟨fun _ _ _ => le_trans⟩

/-- A `std::map` from addresses to times, listed in the order of its iteration. -/
structure AddressMap where
  entries : List (Addr × Nat) := []
  sorted : entries.Pairwise (fun x y => x.1.toNat < y.1.toNat) := by simp

namespace AddressMap

variable (m : AddressMap) (a : Addr) (time : Nat)

def count : Prop := ∃ x ∈ m.entries, x.1 = a

instance : Decidable (m.count a) := inferInstanceAs (Decidable (∃ x ∈ m.entries, x.1 = a))

def erase : AddressMap where
  entries := m.entries.filter (·.1 ≠ a)
  sorted := m.sorted.filter _

def insert : AddressMap where
  entries := (m.erase a).entries.orderedInsert byAddress (a, time)
  sorted := by
    have hle : ((m.erase a).entries.orderedInsert byAddress (a, time)).Pairwise byAddress :=
      List.Pairwise.orderedInsert _ _ ((m.erase a).sorted.imp le_of_lt)
    have hperm := perm_orderedInsert byAddress (a, time) (m.erase a).entries
    have hne : ((a, time) :: (m.erase a).entries).Pairwise (fun x y => x.1.toNat ≠ y.1.toNat) := by
      refine pairwise_cons.mpr ⟨fun x hx hax => ?_, (m.erase a).sorted.imp ne_of_lt⟩
      have hxa : x.1 ≠ a := by simpa [erase] using (mem_filter.mp hx).2
      exact hxa (BitVec.eq_of_toNat_eq hax.symm)
    have hne' := (hperm.pairwise_iff fun h => h.symm).mpr hne
    exact (hle.and hne').imp fun h => lt_of_le_of_ne h.1 h.2

variable {m a time}

theorem mem_erase {x : Addr × Nat} : x ∈ (m.erase a).entries ↔ x ∈ m.entries ∧ x.1 ≠ a := by
  simp [erase]

end AddressMap

inductive TimerFailure where
  | notLineAddress
  | alreadySet
  | notSet
  | noConsumer
  | emptyButValid
  | nextNotValid
  deriving DecidableEq

structure TimerTable where
  map : AddressMap := {}
  nextValid : Bool := false
  nextTime : Nat := 0
  nextAddr : Addr := 0
  -- the times for which the consumer was scheduled, where there is one
  consumer : Option (List Nat) := none

inductive TimerCall where
  | isReady (curTime : Nat)
  | nextAddress
  | set (address : Addr) (readyTime : Nat)
  | unset (address : Addr)

namespace TimerTable

variable (bits : Nat) (t : TimerTable)

def init : TimerTable where
  consumer := some []

/-- The earlier of the entry found so far and the next one; the first of the earliest stays. -/
def earlier (next i : Addr × Nat) : Addr × Nat := if i.2 < next.2 then i else next

def updateNext : Except TimerFailure TimerTable :=
  match t.map.entries with
  | [] => do
    require (t.nextValid = false) .emptyButValid
    pure t
  | first :: rest =>
    let next := rest.foldl earlier first
    pure { t with nextAddr := next.1, nextTime := next.2, nextValid := true }

/-- What `isReady` and `nextAddress` do first. -/
def refresh : Except TimerFailure TimerTable := do
  let t ← if t.nextValid = false then t.updateNext else pure t
  require (t.nextValid = true) .nextNotValid
  pure t

def isReady (curTime : Nat) : Except TimerFailure (Bool × TimerTable) :=
  if t.map.entries = [] then pure (false, t)
  else do
    let t ← t.refresh
    pure (decide (t.nextTime ≤ curTime), t)

def nextAddress : Except TimerFailure (Addr × TimerTable) := do
  let t ← t.refresh
  pure (t.nextAddr, t)

def set (address : Addr) (readyTime : Nat) : Except TimerFailure TimerTable := do
  require (address = makeLineAddress bits address) .notLineAddress
  require (¬t.map.count address) .alreadySet
  match t.consumer with
  | none => throw .noConsumer
  | some wakeups =>
    let t := { t with
      map := t.map.insert address readyTime
      consumer := some (wakeups ++ [readyTime])
      nextValid := false }
    pure (if readyTime ≤ t.nextTime then { t with nextValid := false } else t)

def unset (address : Addr) : Except TimerFailure TimerTable := do
  require (address = makeLineAddress bits address) .notLineAddress
  require (t.map.count address) .notSet
  let t := { t with map := t.map.erase address }
  pure (if address = t.nextAddr then { t with nextValid := false } else t)

def call : TimerCall → Except TimerFailure TimerTable
  | .isReady curTime => Prod.snd <$> t.isReady curTime
  | .nextAddress => Prod.snd <$> t.nextAddress
  | .set address readyTime => t.set bits address readyTime
  | .unset address => t.unset bits address

def valid : TimerCall → Prop
  | .isReady _ => True
  | .nextAddress => t.map.entries ≠ []
  | .set address _ => address = makeLineAddress bits address ∧ ¬t.map.count address
  | .unset address => address = makeLineAddress bits address ∧ t.map.count address

instance (c : TimerCall) : Decidable (t.valid bits c) :=
  match c with
  | .isReady _ => inferInstanceAs (Decidable True)
  | .nextAddress => inferInstanceAs (Decidable (t.map.entries ≠ []))
  | .set _ _ | .unset _ => inferInstanceAs (Decidable (_ ∧ _))

def calls : Calls TimerTable TimerCall TimerFailure where
  valid t := t.valid bits
  call t := t.call bits

instance (t : TimerTable) (c : TimerCall) : Decidable ((calls bits).valid t c) :=
  inferInstanceAs (Decidable (t.valid bits c))

variable {bits} {t} {t' : TimerTable} {c : TimerCall}

def Earliest (t : TimerTable) (x : Addr × Nat) : Prop :=
  x ∈ t.map.entries ∧ ∀ y ∈ t.map.entries, x.2 ≤ y.2

theorem foldl_earlier (first : Addr × Nat) (rest : List (Addr × Nat)) :
    some (rest.foldl earlier first) = (first :: rest).argmin Prod.snd := by
  unfold argmin
  rw [foldl_cons]
  change _ = rest.foldl _ (some first)
  induction rest generalizing first with
  | nil => rfl
  | cons i rest ih =>
    rw [foldl_cons, foldl_cons, ih]
    congr 1
    unfold earlier
    simp only [argAux]
    split <;> rfl

structure Ok (t : TimerTable) : Prop where
  consumer : t.consumer ≠ none
  cached : t.nextValid = true → t.Earliest (t.nextAddr, t.nextTime)

theorem ok_init : init.Ok := ⟨nofun, nofun⟩

theorem updateNext_eq (hne : t.map.entries ≠ []) : ∃ x, t.Earliest x ∧
    t.updateNext = .ok { t with nextAddr := x.1, nextTime := x.2, nextValid := true } := by
  unfold updateNext
  split
  · next h => exact absurd h hne
  · next first rest h =>
    have hmin : rest.foldl earlier first ∈ (first :: rest).argmin Prod.snd :=
      (foldl_earlier first rest).symm
    refine ⟨rest.foldl earlier first, ⟨?_, fun y hy => ?_⟩, rfl⟩
    · rw [h]
      exact argmin_mem hmin
    · rw [h] at hy
      exact le_of_mem_argmin hy hmin

section

variable (h : t.Ok)
include h

theorem Ok.refresh (hne : t.map.entries ≠ []) : ∃ x, t.Earliest x ∧
    t.refresh = .ok { t with nextAddr := x.1, nextTime := x.2, nextValid := true } := by
  by_cases hvalid : t.nextValid = true
  · refine ⟨_, h.cached hvalid, ?_⟩
    unfold TimerTable.refresh require
    obtain ⟨map, nextValid, nextTime, nextAddr, consumer⟩ := t
    cases hvalid
    rfl
  · obtain ⟨x, hx, heq⟩ := updateNext_eq hne
    refine ⟨x, hx, ?_⟩
    unfold TimerTable.refresh
    rw [if_pos (by simpa using hvalid), heq]
    rfl

theorem Ok.cache {x : Addr × Nat} (hx : t.Earliest x) :
    Ok { t with nextAddr := x.1, nextTime := x.2, nextValid := true } :=
  ⟨h.consumer, fun _ => hx⟩

theorem Ok.isReady (curTime : Nat) : ∃ t', t'.Ok ∧
    t.isReady curTime = .ok (decide (∃ x ∈ t.map.entries, x.2 ≤ curTime), t') := by
  unfold TimerTable.isReady
  split
  · next hnil =>
    refine ⟨t, h, ?_⟩
    simp [hnil]
    rfl
  · next hne =>
    obtain ⟨x, hx, heq⟩ := h.refresh hne
    refine ⟨_, h.cache hx, ?_⟩
    rw [heq]
    have hiff : x.2 ≤ curTime ↔ ∃ y ∈ t.map.entries, y.2 ≤ curTime :=
      ⟨fun hle => ⟨x, hx.1, hle⟩, fun ⟨y, hy, hle⟩ => (hx.2 y hy).trans hle⟩
    simp only [ok_bind, hiff]
    rfl

theorem Ok.nextAddress (hne : t.map.entries ≠ []) : ∃ x t', t'.Ok ∧
    t.Earliest x ∧ t.nextAddress = .ok (x.1, t') := by
  obtain ⟨x, hx, heq⟩ := h.refresh hne
  refine ⟨x, _, h.cache hx, hx, ?_⟩
  unfold TimerTable.nextAddress
  rw [heq]
  rfl

theorem Ok.set {address : Addr} {readyTime : Nat}
    (hline : address = makeLineAddress bits address) (hfree : ¬t.map.count address) :
    Holds (t.set bits address readyTime) Ok fun _ => False := by
  refine holds_require_bind hline ?_
  refine holds_require_bind hfree ?_
  split
  · next hnone => exact absurd hnone h.consumer
  · dsimp only
    split <;> exact ⟨nofun, nofun⟩

theorem Ok.unset {address : Addr} (hline : address = makeLineAddress bits address)
    (hset : t.map.count address) : Holds (t.unset bits address) Ok fun _ => False := by
  refine holds_require_bind hline ?_
  refine holds_require_bind hset ?_
  dsimp only
  split
  · exact ⟨h.consumer, nofun⟩
  · next hother =>
    refine ⟨h.consumer, fun hvalid => ?_⟩
    have hcached := h.cached hvalid
    exact ⟨AddressMap.mem_erase.mpr ⟨hcached.1, Ne.symm hother⟩,
      fun y hy => hcached.2 y (AddressMap.mem_erase.mp hy).1⟩

theorem Ok.call (hvalid : t.valid bits c) : Holds (t.call bits c) Ok fun _ => False := by
  cases c with
  | isReady curTime =>
    obtain ⟨t', ht', heq⟩ := h.isReady curTime
    exact holds_of_eq_ok (by rw [TimerTable.call, heq]; rfl) ht'
  | nextAddress =>
    obtain ⟨x, t', ht', _, heq⟩ := h.nextAddress hvalid
    exact holds_of_eq_ok (by rw [TimerTable.call, heq]; rfl) ht'
  | set address readyTime => exact h.set hvalid.1 hvalid.2
  | unset address => exact h.unset hvalid.1 hvalid.2

end

theorem Ok.of_runs (h : (calls bits).Runs init t) : t.Ok :=
  h.keeps (fun _ _ _ hs hvalid hcall => (hs.call hvalid).of_ok hcall) ok_init

/-- The cache is never seen to be stale: whatever calls were made before, the table answers from
its entries, and no call that its caller may make fails an assertion. -/
theorem timerTable_answers (h : (calls bits).Runs init t) :
    (∀ curTime, ∃ t', t.isReady curTime = .ok (decide (∃ x ∈ t.map.entries, x.2 ≤ curTime), t')) ∧
      (t.map.entries ≠ [] → ∃ x t', t.Earliest x ∧ t.nextAddress = .ok (x.1, t')) ∧
      ∀ c, t.valid bits c → ∃ t', t.call bits c = .ok t' := by
  have hok := Ok.of_runs h
  refine ⟨fun curTime => ?_, fun hne => ?_, fun c hvalid => ?_⟩
  · obtain ⟨t', _, heq⟩ := hok.isReady curTime
    exact ⟨t', heq⟩
  · obtain ⟨x, t', _, hx, heq⟩ := hok.nextAddress hne
    exact ⟨x, t', hx, heq⟩
  · obtain ⟨t', heq, _⟩ := (hok.call hvalid).exists_ok
    exact ⟨t', heq⟩

/-- Two lines of 64 bytes; the cached one is removed and the other one is then found. -/
theorem timerTable_answers_two_lines : ∃ t, (calls 6).Runs init t ∧
    t.map.entries = [(0x80#64, 7)] ∧ ∃ t', t.isReady 7 = .ok (true, t') := by
  obtain ⟨t, hrun, hentries⟩ := Calls.exists_run (m := calls 6) (s := init)
    (Q := fun t => t.map.entries = [(0x80#64, 7)])
    [.set 0x80 7, .set 0x40 3, .isReady 2, .nextAddress, .unset 0x40] (by decide)
  obtain ⟨t', ht'⟩ := (timerTable_answers hrun).1 7
  refine ⟨t, hrun, hentries, t', ?_⟩
  rw [ht', hentries]
  rfl

end TimerTable

end Drain
