import Drain.Lib.Calls
import Drain.Lib.Table
import Drain.RubyTypes

/-! `CacheMemory`: the sets and ways of a cache and the index from addresses to ways through which
lines are looked up. Allocation takes the first way that is free or whose entry is not present. -/

namespace Drain

open Function List Option

inductive AccessPermission where
  | Read_Only
  | Read_Write
  | Maybe_Stale
  | Backing_Store
  | Invalid
  | NotPresent
  | Busy
  deriving DecidableEq

structure CacheEntry where
  address : Addr := 0
  permission : AccessPermission := .NotPresent
  locked : Int := -1
  setIndex : Nat := 0
  wayIndex : Nat := 0
  deriving DecidableEq

structure CacheParams where
  cacheSize : Nat
  cacheAssoc : Nat
  blockSize : Nat := 64
  blockSizeBits : Nat := 6
  startIndexBit : Nat := 6
  numSets_gt_one : 1 < cacheSize / cacheAssoc / blockSize := by decide

inductive CacheFailure where
  | notLineAddress
  | nullEntry
  | tagPresent
  | tagNotPresent
  | cacheNotAvail
  | noAvailableEntry
  deriving DecidableEq

/-- Entries are objects on the heap; a way holds a pointer to one or none. -/
structure CacheMemory where
  heap : Nat → CacheEntry := fun _ => {}
  cache : Nat → Nat → Option Nat := fun _ _ => none
  tagIndex : Addr → Option Nat := fun _ => none

inductive CacheCall where
  | allocate (address : Addr) (entry : Nat)
  | deallocate (address : Addr)
  -- by the controller, of an entry in the cache
  | changePermission (entry : Nat) (permission : AccessPermission)

namespace CacheParams

variable (p : CacheParams)

def cacheNumSets : Nat := p.cacheSize / p.cacheAssoc / p.blockSize

def cacheNumSetBits : Nat := p.cacheNumSets.log2

def addressToCacheSet (address : Addr) : Nat :=
  (bitSelect address p.startIndexBit (p.startIndexBit + p.cacheNumSetBits - 1)).toNat

def isLine (address : Addr) : Prop := address = makeLineAddress p.blockSizeBits address

instance (address : Addr) : Decidable (p.isLine address) := inferInstanceAs (Decidable (_ = _))

theorem addressToCacheSet_lt (address : Addr) : p.addressToCacheSet address < p.cacheNumSets := by
  have hne : p.cacheNumSets ≠ 0 := Nat.ne_of_gt (Nat.zero_lt_of_lt p.numSets_gt_one)
  have hbits : 0 < p.cacheNumSetBits := by
    unfold cacheNumSetBits
    exact (Nat.le_log2 hne).mpr p.numSets_gt_one
  exact (bitSelect_lt address p.startIndexBit hbits).trans_le (Nat.log2_self_le hne)

end CacheParams

namespace CacheMemory

variable (p : CacheParams) (c : CacheMemory) (address : Addr)

def findTagInSet (cacheSet : Nat) (tag : Addr) : Except CacheFailure (Option Nat) := do
  require (p.isLine tag) .notLineAddress
  match c.tagIndex tag with
  | none => pure none
  | some way =>
    match c.cache cacheSet way with
    | none => throw .nullEntry
    | some entry => pure (if (c.heap entry).permission ≠ .NotPresent then some way else none)

def lookup : Except CacheFailure (Option Nat) := do
  require (p.isLine address) .notLineAddress
  let cacheSet := p.addressToCacheSet address
  match ← c.findTagInSet p cacheSet address with
  | none => pure none
  | some loc => pure (c.cache cacheSet loc)

def isTagPresent : Except CacheFailure Bool := do
  require (p.isLine address) .notLineAddress
  let loc ← c.findTagInSet p (p.addressToCacheSet address) address
  pure loc.isSome

def cacheAvail : Bool :=
  (range p.cacheAssoc).any fun i =>
    match c.cache (p.addressToCacheSet address) i with
    | none => true
    | some entry =>
      (c.heap entry).address = address || (c.heap entry).permission = .NotPresent

def openWay (cacheSet : Nat) : Option Nat :=
  (range p.cacheAssoc).find? fun i =>
    match c.cache cacheSet i with
    | none => true
    | some entry => (c.heap entry).permission = .NotPresent

def place (entry cacheSet way : Nat) : CacheMemory where
  heap := update c.heap entry ⟨address, .Invalid, -1, cacheSet, way⟩
  cache := setEntry c.cache cacheSet way (some entry)
  tagIndex := update c.tagIndex address (some way)

def clear (cacheSet way : Nat) : CacheMemory :=
  { c with
    cache := setEntry c.cache cacheSet way none
    tagIndex := update c.tagIndex address none }

def allocate (entry : Nat) : Except CacheFailure CacheMemory := do
  require (p.isLine address) .notLineAddress
  let present ← c.isTagPresent p address
  require (present = false) .tagPresent
  require (c.cacheAvail p address = true) .cacheNotAvail
  let cacheSet := p.addressToCacheSet address
  match c.openWay p cacheSet with
  | none => throw .noAvailableEntry
  | some i => pure (c.place address entry cacheSet i)

def deallocate : Except CacheFailure CacheMemory := do
  require (p.isLine address) .notLineAddress
  let present ← c.isTagPresent p address
  require (present = true) .tagNotPresent
  let cacheSet := p.addressToCacheSet address
  match ← c.findTagInSet p cacheSet address with
  | none => pure c
  | some loc => pure (c.clear address cacheSet loc)

def changePermission (entry : Nat) (permission : AccessPermission) : CacheMemory :=
  let e := c.heap entry
  let locked := if permission = .Invalid ∨ permission = .NotPresent then -1 else e.locked
  { c with heap := update c.heap entry { e with permission, locked } }

def call : CacheCall → Except CacheFailure CacheMemory
  | .allocate address entry => c.allocate p address entry
  | .deallocate address => c.deallocate p address
  | .changePermission entry permission => pure (c.changePermission entry permission)

/-- The way taken for a line holds the entry of that line, if the set has one, and else none; the
new entry is in no other way. -/
def Clean (entry : Nat) : Prop :=
  ∀ way ∈ c.openWay p (p.addressToCacheSet address),
    (∀ w < p.cacheAssoc, ∀ e ∈ c.cache (p.addressToCacheSet address) w,
      (w = way ↔ (c.heap e).address = address)) ∧
    ∀ set < p.cacheNumSets, ∀ w < p.cacheAssoc, c.cache set w = some entry →
      set = p.addressToCacheSet address ∧ w = way

instance (entry : Nat) : Decidable (c.Clean p address entry) :=
  inferInstanceAs (Decidable (∀ way ∈ c.openWay p (p.addressToCacheSet address), _ ∧ _))

/-- The calls of a cache whose assertions hold, with allocations as `may` allows. -/
def calls (may : CacheMemory → Addr → Nat → Prop) : Calls CacheMemory CacheCall CacheFailure where
  valid c
    | .allocate address entry => p.isLine address ∧ c.isTagPresent p address = .ok false ∧
        c.cacheAvail p address = true ∧ may c address entry
    | .deallocate address => p.isLine address ∧ c.isTagPresent p address = .ok true
    | .changePermission entry _ =>
        ∃ set < p.cacheNumSets, ∃ w < p.cacheAssoc, c.cache set w = some entry
  call c := c.call p

instance (may : CacheMemory → Addr → Nat → Prop) [∀ c a e, Decidable (may c a e)]
    (c : CacheMemory) (call : CacheCall) : Decidable ((calls p may).valid c call) :=
  match call with
  | .allocate address entry => inferInstanceAs (Decidable (p.isLine address ∧
      c.isTagPresent p address = .ok false ∧ c.cacheAvail p address = true ∧ may c address entry))
  | .deallocate address =>
    inferInstanceAs (Decidable (p.isLine address ∧ c.isTagPresent p address = .ok true))
  | .changePermission entry _ => inferInstanceAs (Decidable
      (∃ set < p.cacheNumSets, ∃ w < p.cacheAssoc, c.cache set w = some entry))

variable {p} {c} {c' : CacheMemory} {address} {a : Addr} {set way entry : Nat}

/-- The entry in a way is that of an address and not marked as absent. -/
def Holding (c : CacheMemory) (set way : Nat) (a : Addr) : Prop :=
  ∃ entry, c.cache set way = some entry ∧ (c.heap entry).address = a ∧
    (c.heap entry).permission ≠ .NotPresent

/-- The ways and the index agree. -/
structure Ok (p : CacheParams) (c : CacheMemory) : Prop where
  home : ∀ set way entry, c.cache set way = some entry → way < p.cacheAssoc ∧
    set = p.addressToCacheSet (c.heap entry).address ∧ c.tagIndex (c.heap entry).address = some way
  index : ∀ a way, c.tagIndex a = some way →
    ∃ entry, c.cache (p.addressToCacheSet a) way = some entry ∧ (c.heap entry).address = a

theorem Ok.findTagInSet (h : c.Ok p) (hline : p.isLine a) :
    Holds (c.findTagInSet p (p.addressToCacheSet a) a)
      (fun loc => ∀ way, loc = some way ↔ c.Holding (p.addressToCacheSet a) way a)
      fun _ => False := by
  refine holds_require_bind hline ?_
  cases hindex : c.tagIndex a with
  | none =>
    refine fun way => ⟨nofun, ?_⟩
    rintro ⟨entry, hentry, rfl, _⟩
    rw [(h.home _ _ _ hentry).2.2] at hindex
    cases hindex
  | some loc =>
    obtain ⟨entry, hentry, haddress⟩ := h.index a loc hindex
    dsimp only
    rw [hentry]
    have hway : ∀ way, c.Holding (p.addressToCacheSet a) way a → way = loc := by
      rintro way ⟨other, hother, rfl, _⟩
      rw [(h.home _ _ _ hother).2.2] at hindex
      exact some_inj.mp hindex
    intro way
    split
    · next hpresent =>
      refine ⟨?_, fun hholding => congrArg some (hway way hholding).symm⟩
      rintro ⟨⟩
      exact ⟨entry, hentry, haddress, hpresent⟩
    · next hpresent =>
      refine ⟨nofun, fun hholding => ?_⟩
      obtain rfl := hway way hholding
      obtain ⟨other, hother, _, hne⟩ := hholding
      obtain rfl := some_inj.mp (hentry.symm.trans hother)
      exact absurd hne hpresent

theorem Ok.isTagPresent (h : c.Ok p) (hline : p.isLine a) :
    Holds (c.isTagPresent p a)
      (fun b => b = true ↔ ∃ way, c.Holding (p.addressToCacheSet a) way a) fun _ => False := by
  refine holds_require_bind hline ?_
  refine holds_bind.mpr ((h.findTagInSet hline).imp fun loc hloc => ?_)
  rw [holds_pure, isSome_iff_exists]
  exact exists_congr hloc

theorem Ok.lookup (h : c.Ok p) (hline : p.isLine a) :
    Holds (c.lookup p a) (fun found => ∀ entry ∈ found, (c.heap entry).address = a)
      fun _ => False := by
  refine holds_require_bind hline ?_
  refine holds_bind.mpr ((h.findTagInSet hline).imp fun loc hloc => ?_)
  cases loc with
  | none => exact nofun
  | some way =>
    obtain ⟨entry, hentry, haddress, _⟩ := (hloc way).mp rfl
    intro other hother
    obtain rfl := some_inj.mp (hentry.symm.trans hother)
    exact haddress

theorem Ok.way_eq {e₁ e₂ way₁ way₂ : Nat} (h : c.Ok p) (h₁ : c.cache set way₁ = some e₁)
    (h₂ : c.cache set way₂ = some e₂) (heq : (c.heap e₁).address = (c.heap e₂).address) :
    way₁ = way₂ := by
  have htag := (h.home _ _ _ h₁).2.2
  rw [heq, (h.home _ _ _ h₂).2.2] at htag
  exact (some_inj.mp htag).symm

theorem openWay_lt (hway : way ∈ c.openWay p set) : way < p.cacheAssoc :=
  mem_range.mp (mem_of_find?_eq_some hway)

section

variable (h : c.Ok p)
include h

theorem Ok.place (hway : way < p.cacheAssoc)
    (htaken : ∀ w < p.cacheAssoc, ∀ e ∈ c.cache (p.addressToCacheSet a) w,
      (w = way ↔ (c.heap e).address = a))
    (hfresh : ∀ set < p.cacheNumSets, ∀ w < p.cacheAssoc, c.cache set w = some entry →
      set = p.addressToCacheSet a ∧ w = way) :
    (c.place a entry (p.addressToCacheSet a) way).Ok p := by
  -- an entry in another way is another object and has another address
  have hother : ∀ set w e, c.cache set w = some e → ¬(set = p.addressToCacheSet a ∧ w = way) →
      e ≠ entry ∧ (c.heap e).address ≠ a := by
    intro set w e he hne
    obtain ⟨hlt, hset, _⟩ := h.home _ _ _ he
    refine ⟨?_, fun haddress => ?_⟩
    · rintro rfl
      exact hne (hfresh set (hset ▸ p.addressToCacheSet_lt _) w hlt he)
    · rw [haddress] at hset
      subst hset
      exact hne ⟨rfl, (htaken w hlt e he).mpr haddress⟩
  unfold CacheMemory.place
  refine ⟨fun set w e he => ?_, fun b w hb => ?_⟩ <;> dsimp only at *
  · by_cases hslot : set = p.addressToCacheSet a ∧ w = way
    · obtain ⟨rfl, rfl⟩ := hslot
      rw [setEntry_self] at he
      cases he
      simp [hway]
    · rw [setEntry_of_ne _ _ hslot] at he
      obtain ⟨hentry, haddress⟩ := hother set w e he hslot
      rw [update_of_ne hentry, update_of_ne haddress]
      exact h.home set w e he
  · by_cases hba : b = a
    · subst hba
      rw [update_self] at hb
      cases hb
      exact ⟨entry, setEntry_self .., by rw [update_self]⟩
    · rw [update_of_ne hba] at hb
      obtain ⟨e, he, haddress⟩ := h.index b w hb
      have hslot : ¬(p.addressToCacheSet b = p.addressToCacheSet a ∧ w = way) := by
        rintro ⟨hset, rfl⟩
        rw [hset] at he
        exact hba (haddress.symm.trans ((htaken w hway e he).mp rfl))
      refine ⟨e, (setEntry_of_ne _ _ hslot).trans he, ?_⟩
      rw [update_of_ne (hother _ _ _ he hslot).1]
      exact haddress

theorem Ok.allocate (hclean : c.Clean p a entry)
    (hcall : c.allocate p a entry = .ok c') : c'.Ok p := by
  obtain ⟨_, _, hcall⟩ := bind_eq_ok.mp hcall
  obtain ⟨_, _, hcall⟩ := bind_eq_ok.mp hcall
  obtain ⟨_, _, hcall⟩ := bind_eq_ok.mp hcall
  obtain ⟨_, _, hcall⟩ := bind_eq_ok.mp hcall
  dsimp only at hcall
  split at hcall
  · cases hcall
  · next way hway =>
    cases hcall
    obtain ⟨htaken, hfresh⟩ := hclean way hway
    exact h.place (openWay_lt hway) htaken hfresh

theorem Ok.clear (hentry : c.cache (p.addressToCacheSet a) way = some entry)
    (haddress : (c.heap entry).address = a) : (c.clear a (p.addressToCacheSet a) way).Ok p := by
  unfold CacheMemory.clear
  refine ⟨fun set w e he => ?_, fun b w hb => ?_⟩ <;> dsimp only at *
  · by_cases hslot : set = p.addressToCacheSet a ∧ w = way
    · obtain ⟨rfl, rfl⟩ := hslot
      rw [setEntry_self] at he
      cases he
    · rw [setEntry_of_ne _ _ hslot] at he
      have hne : (c.heap e).address ≠ a := by
        intro heq
        have hset := (h.home _ _ _ he).2.1
        rw [heq] at hset
        subst hset
        exact hslot ⟨rfl, h.way_eq he hentry (heq.trans haddress.symm)⟩
      rw [update_of_ne hne]
      exact h.home set w e he
  · have hba : b ≠ a := by
      rintro rfl
      rw [update_self] at hb
      cases hb
    rw [update_of_ne hba] at hb
    obtain ⟨e, he, hb'⟩ := h.index b w hb
    refine ⟨e, (setEntry_of_ne _ _ ?_).trans he, hb'⟩
    rintro ⟨hset, rfl⟩
    rw [hset, hentry] at he
    cases he
    exact hba (hb'.symm.trans haddress)

theorem Ok.deallocate (hcall : c.deallocate p a = .ok c') : c'.Ok p := by
  obtain ⟨_, hline, hcall⟩ := bind_eq_ok.mp hcall
  obtain ⟨_, _, hcall⟩ := bind_eq_ok.mp hcall
  obtain ⟨_, _, hcall⟩ := bind_eq_ok.mp hcall
  obtain ⟨loc, hloc, hcall⟩ := bind_eq_ok.mp hcall
  cases loc with
  | none =>
    cases hcall
    exact h
  | some way =>
    cases hcall
    obtain ⟨entry, hentry, haddress, _⟩ :=
      ((h.findTagInSet (require_eq_ok.mp hline)).of_ok hloc way).mp rfl
    exact h.clear hentry haddress

theorem Ok.changePermission (permission : AccessPermission) :
    (c.changePermission entry permission).Ok p := by
  have haddress : ∀ e, ((c.changePermission entry permission).heap e).address =
      (c.heap e).address := by
    intro e
    unfold CacheMemory.changePermission
    by_cases he : e = entry
    · subst he
      simp
    · simp [update_of_ne he]
  refine ⟨fun set way e he => ?_, fun a way ha => ?_⟩
  · rw [haddress]
    exact h.home set way e he
  · obtain ⟨e, he, heq⟩ := h.index a way ha
    exact ⟨e, he, (haddress e).trans heq⟩

theorem Ok.call {call : CacheCall} (hvalid : (calls p (Clean p)).valid c call)
    (hcall : (calls p (Clean p)).call c call = .ok c') : c'.Ok p := by
  cases call with
  | allocate address entry => exact h.allocate hvalid.2.2.2 hcall
  | deallocate address => exact h.deallocate hcall
  | changePermission entry permission =>
    cases hcall
    exact h.changePermission permission

end

theorem ok_init : Ok p {} := ⟨nofun, nofun⟩

/-- While no allocation overwrites the entry of another line or leaves a second entry of its own
line behind, lookups through the index are right and no line is present twice. -/
theorem cacheMemory_lookup (h : (calls p (Clean p)).Runs {} c) :
    (∀ a, p.isLine a → ∃ found, c.lookup p a = .ok found ∧
        ∀ entry ∈ found, (c.heap entry).address = a) ∧
      (∀ a, p.isLine a → ∃ present, c.isTagPresent p a = .ok present ∧
        (present = true ↔ ∃ way, c.Holding (p.addressToCacheSet a) way a)) ∧
      ∀ set a way₁ way₂, c.Holding set way₁ a → c.Holding set way₂ a → way₁ = way₂ := by
  have hok := h.keeps (fun _ _ _ hs hvalid hcall => Ok.call hs hvalid hcall) ok_init
  refine ⟨fun a hline => (hok.lookup hline).exists_ok,
    fun a hline => (hok.isTagPresent hline).exists_ok, fun set a way₁ way₂ h₁ h₂ => ?_⟩
  obtain ⟨e₁, he₁, ha₁, _⟩ := h₁
  obtain ⟨e₂, he₂, ha₂, _⟩ := h₂
  exact hok.way_eq he₁ he₂ (ha₁.trans ha₂.symm)

def twoWay : CacheParams where
  cacheSize := 256
  cacheAssoc := 2

/-- A line whose entry is marked as absent is allocated again in its way. -/
theorem cacheMemory_lookup_reallocated : ∃ c, (calls twoWay (Clean twoWay)).Runs {} c ∧
    c.lookup twoWay 0x40 = .ok (some 2) ∧ (c.heap 2).address = 0x40 := by
  obtain ⟨c, hrun, hlookup⟩ := Calls.exists_run (m := calls twoWay (Clean twoWay))
    (s := ({} : CacheMemory)) (Q := fun c => c.lookup twoWay 0x40 = .ok (some 2))
    [.allocate 0x40 0, .allocate 0xc0 1, .changePermission 0 .NotPresent, .allocate 0x40 2]
    (by decide)
  obtain ⟨found, hfound, haddress⟩ := (cacheMemory_lookup hrun).1 0x40 (by decide)
  rw [hlookup] at hfound
  cases hfound
  exact ⟨c, hrun, hlookup, haddress 2 rfl⟩

/-- The entry of line 0x40 is marked as absent and its way goes to line 0xc0: the index still
leads line 0x40 to that way. -/
theorem lookup_other_line_twoWay : ∃ c, (calls twoWay fun _ _ _ => True).Runs {} c ∧
    c.lookup twoWay 0x40 = .ok (some 1) ∧ (c.heap 1).address = 0xc0 ∧
      c.isTagPresent twoWay 0x40 = .ok true ∧
      ∀ way < twoWay.cacheAssoc, ∀ entry ∈ c.cache (twoWay.addressToCacheSet 0x40) way,
        (c.heap entry).address ≠ 0x40 :=
  Calls.exists_run (m := calls twoWay fun _ _ _ => True) (s := ({} : CacheMemory))
    (Q := fun c => c.lookup twoWay 0x40 = .ok (some 1) ∧ (c.heap 1).address = 0xc0 ∧
      c.isTagPresent twoWay 0x40 = .ok true ∧
      ∀ way < twoWay.cacheAssoc, ∀ entry ∈ c.cache (twoWay.addressToCacheSet 0x40) way,
        (c.heap entry).address ≠ 0x40)
    [.allocate 0x40 0, .changePermission 0 .NotPresent, .allocate 0xc0 1] (by decide)

end CacheMemory

end Drain
