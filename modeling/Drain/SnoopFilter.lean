import Drain.Bitfield
import Drain.Lib.Holds

/-! The snoop filter of a crossbar (`mem/snoop_filter`): which of the ports above it may have a
line, and the undoing of a request that is sent again. -/

namespace Drain

open Function List

abbrev SnoopMask := BitVec 64

structure SnoopItem where
  requested : SnoopMask
  holder : SnoopMask
  deriving DecidableEq, Repr

structure SnoopPacket where
  addr : Addr
  isSecure : Bool
  isUncacheable : Bool
  fromCache : Bool
  needsResponse : Bool
  cacheResponding : Bool
  isEviction : Bool
  isBlockCached : Bool

inductive SnoopFailure where
  | doubleRequest
  | needToHold
  | notEviction
  | notHolder
  | otherLine
  deriving DecidableEq, Repr

/-- Snooping ports are named by their place in `slavePorts`; an iterator by the line address. -/
structure SnoopFilter where
  linesize : Addr
  numSlavePorts : Nat
  numSlavePorts_le : numSlavePorts ≤ 64
  cachedLocations : Addr → Option SnoopItem
  reqLookupResult : Option Addr
  retryItem : SnoopItem

namespace SnoopFilter

def lineAddr (sf : SnoopFilter) (addr : Addr) (isSecure : Bool) : Addr :=
  let line := addr &&& ~~~(sf.linesize - 1)
  if isSecure then line ||| 1 else line

/-- A port that is not snooping is `none`. -/
def portToMask : Option Nat → SnoopMask
  | none => 0
  | some id => 1#64 <<< id

def maskToPortList (sf : SnoopFilter) (portMask : SnoopMask) : List Nat :=
  (range sf.numSlavePorts).filter fun p => portToMask (some p) &&& portMask ≠ 0

def updateItem (item : SnoopItem) (cpkt : SnoopPacket) (reqPort : SnoopMask) :
    Except SnoopFailure SnoopItem :=
  if cpkt.needsResponse then
    if ¬cpkt.cacheResponding then do
      require (item.requested &&& reqPort = 0) .doubleRequest
      pure { item with requested := item.requested ||| reqPort }
    else do
      require (item.holder &&& reqPort ≠ 0) .needToHold
      pure item
  else do
    require (cpkt.isEviction = true) .notEviction
    require (item.holder &&& reqPort ≠ 0) .notHolder
    pure (if cpkt.isBlockCached then item else { item with holder := item.holder &&& ~~~reqPort })

def lookupRequest (sf : SnoopFilter) (cpkt : SnoopPacket) (slavePort : Option Nat) :
    Except SnoopFailure (List Nat × SnoopFilter) :=
  let allocate := !cpkt.isUncacheable && slavePort.isSome && cpkt.fromCache
  let line := sf.lineAddr cpkt.addr cpkt.isSecure
  let reqPort := portToMask slavePort
  let ports (item : SnoopItem) := sf.maskToPortList ((item.holder ||| item.requested) &&& ~~~reqPort)
  match sf.cachedLocations line, allocate with
  | none, false => pure ([], { sf with reqLookupResult := none })
  | some item, false => pure (ports item, { sf with reqLookupResult := some line, retryItem := item })
  | found, true => do
    let item := found.getD ⟨0, 0⟩
    let item' ← updateItem item cpkt reqPort
    pure (ports item, { sf with
      cachedLocations := update sf.cachedLocations line (some item')
      reqLookupResult := some line
      retryItem := item })

def eraseIfNullEntry (sf : SnoopFilter) (line : Addr) (item : SnoopItem) : SnoopFilter :=
  { sf with
    cachedLocations := update sf.cachedLocations line
      (if item.requested ||| item.holder = 0 then none else some item) }

def finishRequest (sf : SnoopFilter) (willRetry : Bool) (addr : Addr) (isSecure : Bool) :
    Except SnoopFailure SnoopFilter :=
  match sf.reqLookupResult with
  | none => pure sf
  | some line => do
    require (line = sf.lineAddr addr isSecure) .otherLine
    let item := if willRetry then sf.retryItem else (sf.cachedLocations line).getD ⟨0, 0⟩
    pure (sf.eraseIfNullEntry line item)

def NonEmpty (sf : SnoopFilter) : Prop :=
  ∀ line item, sf.cachedLocations line = some item → item.requested ||| item.holder ≠ 0

variable {sf sf' : SnoopFilter} {cpkt : SnoopPacket} {slavePort : Option Nat} {ports : List Nat}

theorem mem_maskToPortList {p : Nat} {mask : SnoopMask} :
    p ∈ sf.maskToPortList mask ↔ p < sf.numSlavePorts ∧ mask.getLsbD p = true := by
  rw [maskToPortList, mem_filter, mem_range]
  refine and_congr_right fun hp => ?_
  rw [decide_eq_true_eq]
  exact Bitfield.shift_and_ne_zero (hp.trans_le sf.numSlavePorts_le)

theorem getLsbD_portToMask (hport : ∀ id, slavePort = some id → id < 64) (p : Nat) :
    (portToMask slavePort).getLsbD p = decide (slavePort = some p) := by
  cases slavePort with
  | none => simp [portToMask]
  | some id =>
    rw [portToMask, Bitfield.getLsbD_one_shift (hport id rfl)]
    simp

/-- What a lookup leaves: the entry as it was, to be restored, and the entry that it changed. -/
structure LookedUp (sf : SnoopFilter) (line : Addr) (sf' : SnoopFilter) : Prop where
  same : ∀ l ≠ line, sf'.cachedLocations l = sf.cachedLocations l
  linesize : sf'.linesize = sf.linesize
  result : sf'.reqLookupResult = some line ∧
      sf'.retryItem = (sf.cachedLocations line).getD ⟨0, 0⟩ ∨
    sf'.reqLookupResult = none ∧ sf.cachedLocations line = none ∧ sf'.cachedLocations line = none

theorem lookupRequest_spec (h : sf.lookupRequest cpkt slavePort = .ok (ports, sf')) :
    ports = sf.maskToPortList
        ((((sf.cachedLocations (sf.lineAddr cpkt.addr cpkt.isSecure)).getD ⟨0, 0⟩).holder |||
          ((sf.cachedLocations (sf.lineAddr cpkt.addr cpkt.isSecure)).getD ⟨0, 0⟩).requested) &&&
            ~~~portToMask slavePort) ∧
      LookedUp sf (sf.lineAddr cpkt.addr cpkt.isSecure) sf' := by
  unfold lookupRequest at h
  dsimp only at h
  split at h
  next hnone _ =>
    cases h
    rw [hnone]
    refine ⟨?_, fun _ _ => rfl, rfl, .inr ⟨rfl, hnone, hnone⟩⟩
    symm
    rw [eq_nil_iff_forall_not_mem]
    intro p hp
    simpa using (mem_maskToPortList.mp hp).2
  next item hsome _ =>
    cases h
    rw [hsome]
    exact ⟨rfl, fun _ _ => rfl, rfl, .inl ⟨rfl, by rw [hsome]; rfl⟩⟩
  next found _ _ =>
    obtain ⟨item', _, h⟩ := bind_eq_ok.mp h
    cases h
    exact ⟨rfl, fun l hl => update_of_ne hl _ _, rfl, .inl ⟨rfl, rfl⟩⟩

theorem LookedUp.finish {addr : Addr} {isSecure : Bool}
    (h : LookedUp sf (sf.lineAddr addr isSecure) sf') (hsf : sf.NonEmpty) (willRetry : Bool) :
    ∃ sf'', sf'.finishRequest willRetry addr isSecure = .ok sf'' ∧ sf''.NonEmpty ∧
      (willRetry = true → sf''.cachedLocations = sf.cachedLocations) := by
  have hline : sf'.lineAddr addr isSecure = sf.lineAddr addr isSecure := by
    simp [lineAddr, h.linesize]
  generalize sf.lineAddr addr isSecure = line at h hline
  unfold finishRequest
  rcases h.result with ⟨hres, hitem⟩ | ⟨hres, hnone, hnone'⟩
  · simp only [hres, hline]
    refine ⟨_, rfl, fun l item hl => ?_, fun hretry => funext fun l => ?_⟩
    · by_cases hll : l = line
      · subst hll
        simp only [eraseIfNullEntry, update_self] at hl
        obtain ⟨hne, hitem⟩ := Option.ite_none_left_eq_some.mp hl
        exact Option.some.inj hitem ▸ hne
      · simp only [eraseIfNullEntry, update_of_ne hll, h.same l hll] at hl
        exact hsf l item hl
    · by_cases hll : l = line
      · subst hll
        simp only [eraseIfNullEntry, update_self, hretry, if_true, hitem]
        cases hold : sf.cachedLocations l with
        | none => simp
        | some item => exact if_neg (hsf l item hold)
      · simp only [eraseIfNullEntry, update_of_ne hll, h.same l hll]
  · have hsame : sf'.cachedLocations = sf.cachedLocations := by
      funext l
      by_cases hll : l = line
      · rw [hll, hnone, hnone']
      · exact h.same l hll
    simp only [hres]
    exact ⟨sf', rfl, fun l item hl => hsf l item (hsame ▸ hl), fun _ => hsame⟩

/-- The ports returned are those in either mask of the line but for the requester. Finishing the
request leaves no empty entry, and with a retry leaves the entries as they were. -/
theorem lookupRequest_finishRequest (sf sf' : SnoopFilter) (hsf : sf.NonEmpty)
    (cpkt : SnoopPacket) (slavePort : Option Nat)
    (hport : ∀ id, slavePort = some id → id < sf.numSlavePorts) (ports : List Nat)
    (h : sf.lookupRequest cpkt slavePort = .ok (ports, sf')) :
    (∀ p, p ∈ ports ↔ p < sf.numSlavePorts ∧ slavePort ≠ some p ∧
      ∃ item, sf.cachedLocations (sf.lineAddr cpkt.addr cpkt.isSecure) = some item ∧
        (item.holder.getLsbD p = true ∨ item.requested.getLsbD p = true)) ∧
    (∃ sf'', sf'.finishRequest true cpkt.addr cpkt.isSecure = .ok sf'' ∧
      sf''.cachedLocations = sf.cachedLocations) ∧
    ∃ sf'', sf'.finishRequest false cpkt.addr cpkt.isSecure = .ok sf'' ∧ sf''.NonEmpty := by
  obtain ⟨hports, hlooked⟩ := lookupRequest_spec h
  obtain ⟨retried, hretried, -, hsame⟩ := hlooked.finish hsf true
  obtain ⟨done, hdone, hnonempty, -⟩ := hlooked.finish hsf false
  refine ⟨fun p => ?_, ⟨retried, hretried, hsame rfl⟩, done, hdone, hnonempty⟩
  rw [hports, mem_maskToPortList]
  refine and_congr_right fun hp => ?_
  have hp64 := hp.trans_le sf.numSlavePorts_le
  cases sf.cachedLocations (sf.lineAddr cpkt.addr cpkt.isSecure) with
  | none => simp
  | some item =>
    rw [Option.getD_some, BitVec.getLsbD_and, BitVec.getLsbD_or, BitVec.getLsbD_not,
      getLsbD_portToMask fun id h => (hport id h).trans_le sf.numSlavePorts_le,
      decide_eq_true hp64]
    simp [and_comm]

theorem lookupRequest_finishRequest_shared :
    ∃ ports sf', lookupRequest ⟨64, 2, by decide, fun _ => some ⟨0, 3⟩, none, ⟨0, 0⟩⟩
        ⟨128, false, false, true, true, false, false, false⟩ (some 0) = .ok (ports, sf') ∧
      (1 ∈ ports ∧ 0 ∉ ports) ∧
      ∃ sf'', sf'.finishRequest true 128 false = .ok sf'' ∧
        sf''.cachedLocations = fun _ => some ⟨0, 3⟩ := by
  have hsf : NonEmpty ⟨64, 2, by decide, fun _ => some ⟨0, 3⟩, none, ⟨0, 0⟩⟩ := by
    rintro _ _ ⟨⟩
    decide
  obtain ⟨hports, hretry, -⟩ := lookupRequest_finishRequest
    ⟨64, 2, by decide, fun _ => some ⟨0, 3⟩, none, ⟨0, 0⟩⟩ _ hsf
    ⟨128, false, false, true, true, false, false, false⟩ (some 0) (by simp) _ rfl
  refine ⟨_, _, rfl, ⟨(hports 1).mpr ⟨by decide, by decide, _, rfl, .inl rfl⟩, fun h => ?_⟩, hretry⟩
  exact ((hports 0).mp h).2.1 rfl

end SnoopFilter

end Drain
