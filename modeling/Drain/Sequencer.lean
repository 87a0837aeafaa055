import Drain.Lib.AssocList
import Drain.Lib.Calls
import Drain.RubyTypes

/-! `Sequencer`: the requests of a processor that wait for its cache, with the check that panics
when one of them has waited too long. Time is counted in cycles of the sequencer's clock. -/

namespace Drain

open AList Bool

structure RubyPacket where
  addr : Addr
  isLLSC : Bool := false
  isWrite : Bool := false
  isRead : Bool := false
  isLockedRMW : Bool := false
  isInstFetch : Bool := false
  storeCheck : Bool := false
  isFlush : Bool := false
  deriving DecidableEq

structure SequencerRequest where
  pkt : RubyPacket
  type : RubyRequestType
  issueTime : Nat
  deriving DecidableEq

structure SequencerParams where
  blockSizeBits : Nat := 6
  maxOutstandingRequests : Nat := 16
  deadlockThreshold : Nat
  dataCacheHitLatency : Nat := 1
  instCacheHitLatency : Nat := 1
  maxOutstandingRequests_pos : 0 < maxOutstandingRequests := by decide
  deadlockThreshold_pos : 0 < deadlockThreshold := by decide

inductive SequencerFailure where
  | outstandingCount
  | notLineAddress
  | notOutstanding
  | requestType
  | issuedLater
  | notRead
  | unsupportedPacket
  | deadlock
  deriving DecidableEq

structure IssuedRequest where
  pkt : RubyPacket
  type : RubyRequestType
  arrival : Nat

abbrev RequestTable := AList fun _ : Addr => SequencerRequest

structure Sequencer where
  readRequestTable : RequestTable := ∅
  writeRequestTable : RequestTable := ∅
  outstandingCount : Int := 0
  -- the cycle for which the check is scheduled
  deadlockCheckEvent : Option Nat := none
  mandatoryQueue : List IssuedRequest := []
  -- the lines that the controller blocks
  blockMap : List Addr := []
  curCycle : Nat := 0

inductive SequencerCall where
  | makeRequest (pkt : RubyPacket)
  | writeCallback (address : Addr)
  | readCallback (address : Addr)
  | wakeup
  | tick
  | blockOnQueue (address : Addr)
  | unblock (address : Addr)

def RubyRequestType.isStore : RubyRequestType → Bool
  | .ST | .RMW_Read | .RMW_Write | .Load_Linked | .Store_Conditional | .Locked_RMW_Read
  | .Locked_RMW_Write | .FLUSH => true
  | .LD | .ATOMIC | .IFETCH => false

namespace Sequencer

variable (p : SequencerParams) (s : Sequencer)

def table : Bool → RequestTable
  | true => s.writeRequestTable
  | false => s.readRequestTable

def withTable (store : Bool) (t : RequestTable) (count : Int) : Sequencer :=
  match store with
  | true => { s with writeRequestTable := t, outstandingCount := count }
  | false => { s with readRequestTable := t, outstandingCount := count }

def counted : Prop :=
  s.outstandingCount = s.writeRequestTable.entries.length + s.readRequestTable.entries.length

instance : Decidable s.counted := inferInstanceAs (Decidable (_ = _))

def requestTypes (pkt : RubyPacket) : Except SequencerFailure (RubyRequestType × RubyRequestType) :=
  if pkt.isLLSC then
    if pkt.isWrite then pure (.Store_Conditional, .ATOMIC)
    else do
      require (pkt.isRead = true) .notRead
      pure (.Load_Linked, .ATOMIC)
  else if pkt.isLockedRMW then
    if pkt.isWrite then pure (.Locked_RMW_Write, .ST)
    else do
      require (pkt.isRead = true) .notRead
      pure (.Locked_RMW_Read, .ST)
  else if pkt.isWrite then pure (.ST, .ST)
  else if pkt.isRead then
    if pkt.isInstFetch then pure (.IFETCH, .IFETCH)
    else if pkt.storeCheck then pure (.RMW_Read, .ST)
    else pure (.LD, .LD)
  else if pkt.isFlush then pure (.FLUSH, .FLUSH)
  else throw .unsupportedPacket

/-- A check is scheduled unless there is one. -/
def armed : Sequencer :=
  if s.deadlockCheckEvent = none then
    { s with deadlockCheckEvent := some (s.curCycle + p.deadlockThreshold) }
  else s

/-- A store looks for an outstanding load of its line and is then entered in the write table; a
load looks for an outstanding store and is entered in the read table. -/
def enter (store : Bool) (line : Addr) (request : SequencerRequest) :
    Except SequencerFailure (RequestStatus × Sequencer) :=
  if line ∈ s.table !store then pure (.Aliased, s)
  else if line ∈ s.table store then pure (.Aliased, s)
  else do
    let s := s.withTable store ((s.table store).insert line request) (s.outstandingCount + 1)
    require s.counted .outstandingCount
    pure (.Ready, s)

def insertRequest (pkt : RubyPacket) (requestType : RubyRequestType) :
    Except SequencerFailure (RequestStatus × Sequencer) := do
  require s.counted .outstandingCount
  let s := s.armed p
  let line := makeLineAddress p.blockSizeBits pkt.addr
  if line ∈ s.blockMap ∧ requestType ≠ .Locked_RMW_Write then pure (.Aliased, s)
  else s.enter requestType.isStore line ⟨pkt, requestType, s.curCycle⟩

def issueRequest (pkt : RubyPacket) (secondaryType : RubyRequestType) : Sequencer :=
  let latency := if secondaryType = .IFETCH then p.instCacheHitLatency else p.dataCacheHitLatency
  { s with mandatoryQueue := s.mandatoryQueue ++ [⟨pkt, secondaryType, s.curCycle + latency⟩] }

def makeRequest (pkt : RubyPacket) : Except SequencerFailure (RequestStatus × Sequencer) :=
  if p.maxOutstandingRequests ≤ s.outstandingCount then pure (.BufferFull, s)
  else do
    let (primaryType, secondaryType) ← requestTypes pkt
    let (status, s) ← s.insertRequest p pkt primaryType
    if status ≠ .Ready then pure (status, s)
    else pure (.Issued, s.issueRequest p pkt secondaryType)

/-- What both callbacks do first: the request leaves its table. -/
def takeRequest (store : Bool) (address : Addr) :
    Except SequencerFailure (SequencerRequest × Sequencer) := do
  require (address = makeLineAddress p.blockSizeBits address) .notLineAddress
  match (s.table store).lookup address with
  | none => throw .notOutstanding
  | some request =>
    let s := s.withTable store ((s.table store).erase address) (s.outstandingCount - 1)
    require s.counted .outstandingCount
    pure (request, s)

/-- `hitCallback`, of which only its assertion matters here. -/
def hitCallback (request : SequencerRequest) : Except SequencerFailure Sequencer := do
  require (request.issueTime ≤ s.curCycle) .issuedLater
  pure s

def blockOnQueue (address : Addr) : Sequencer := { s with blockMap := address :: s.blockMap }

def unblock (address : Addr) : Sequencer :=
  { s with blockMap := s.blockMap.filter (· ≠ address) }

def writeCallback (address : Addr) : Except SequencerFailure Sequencer := do
  let (request, s) ← s.takeRequest p true address
  require (request.type.isStore = true ∨ request.type = .ATOMIC) .requestType
  let s := if request.type = .Locked_RMW_Read then s.blockOnQueue address
    else if request.type = .Locked_RMW_Write then s.unblock address
    else s
  s.hitCallback request

def readCallback (address : Addr) : Except SequencerFailure Sequencer := do
  let (request, s) ← s.takeRequest p false address
  require (request.type = .LD ∨ request.type = .IFETCH) .requestType
  s.hitCallback request

def checkTable (t : RequestTable) : Except SequencerFailure PUnit :=
  require (∀ x ∈ t.entries, s.curCycle - x.2.issueTime < p.deadlockThreshold) .deadlock

/-- The scheduled check, which is scheduled again while requests are outstanding. -/
def wakeup : Except SequencerFailure Sequencer := do
  let s := { s with deadlockCheckEvent := none }
  s.checkTable p s.readRequestTable
  s.checkTable p s.writeRequestTable
  require s.counted .outstandingCount
  if 0 < s.outstandingCount then
    pure { s with deadlockCheckEvent := some (s.curCycle + p.deadlockThreshold) }
  else pure s

def call : SequencerCall → Except SequencerFailure Sequencer
  | .makeRequest pkt => do
    let (_, s) ← s.makeRequest p pkt
    pure s
  | .writeCallback address => s.writeCallback p address
  | .readCallback address => s.readCallback p address
  | .wakeup => s.wakeup p
  | .tick => pure { s with curCycle := s.curCycle + 1 }
  | .blockOnQueue address => pure (s.blockOnQueue address)
  | .unblock address => pure (s.unblock address)

/-- Callbacks are for outstanding lines, and the check is made in its cycle, which does not end
before. -/
def valid : SequencerCall → Prop
  | .makeRequest _ | .blockOnQueue _ | .unblock _ => True
  | .writeCallback address => address ∈ s.writeRequestTable
  | .readCallback address => address ∈ s.readRequestTable
  | .wakeup => s.deadlockCheckEvent = some s.curCycle
  | .tick => s.deadlockCheckEvent ≠ some s.curCycle

instance (c : SequencerCall) : Decidable (s.valid c) :=
  match c with
  | .makeRequest _ | .blockOnQueue _ | .unblock _ => inferInstanceAs (Decidable True)
  | .writeCallback _ | .readCallback _ => inferInstanceAs (Decidable (_ ∈ _))
  | .wakeup => inferInstanceAs (Decidable (_ = _))
  | .tick => inferInstanceAs (Decidable (_ ≠ _))

def calls : Calls Sequencer SequencerCall SequencerFailure where
  valid := valid
  call s := s.call p

instance (s : Sequencer) (c : SequencerCall) : Decidable ((calls p).valid s c) :=
  inferInstanceAs (Decidable (s.valid c))

variable {p} {s} {t : Sequencer} {store : Bool} {address : Addr} {c : SequencerCall}

def Outstanding (s : Sequencer) (r : SequencerRequest) : Prop :=
  ∃ store a, r ∈ (s.table store).lookup a

section Tables

variable (table : RequestTable) (count : Int)

theorem table_withTable (store' : Bool) : (s.withTable store table count).table store' =
    if store' = store then table else s.table store' := by
  cases store <;> cases store' <;> rfl

@[simp] theorem withTable_curCycle : (s.withTable store table count).curCycle = s.curCycle := by
  cases store <;> rfl

@[simp] theorem withTable_event :
    (s.withTable store table count).deadlockCheckEvent = s.deadlockCheckEvent := by
  cases store <;> rfl

theorem counted_iff (store : Bool) : s.counted ↔
    s.outstandingCount = (s.table store).entries.length + (s.table !store).entries.length := by
  unfold counted
  cases store with
  | true => rfl
  | false =>
    rw [add_comm]
    rfl

theorem counted_withTable : (s.withTable store table count).counted ↔
    count = table.entries.length + (s.table !store).entries.length := by
  rw [counted_iff store, table_withTable, table_withTable, if_pos rfl,
    if_neg (not_ne_self store)]
  cases store <;> rfl

end Tables

/-- What the deadlock check relies on: it is scheduled while a request waits, at most the threshold
ahead, and soon enough for every request. -/
structure Watched (p : SequencerParams) (s : Sequencer) : Prop where
  scheduled : ∀ r, s.Outstanding r → ∃ e, s.deadlockCheckEvent = some e ∧
    e < r.issueTime + 2 * p.deadlockThreshold
  event : ∀ e, s.deadlockCheckEvent = some e →
    s.curCycle ≤ e ∧ e ≤ s.curCycle + p.deadlockThreshold
  issued : ∀ r, s.Outstanding r → r.issueTime ≤ s.curCycle

structure Ok (p : SequencerParams) (s : Sequencer) : Prop where
  count : s.counted
  disjoint : ∀ store a, a ∈ s.table store → a ∉ s.table !store
  lines : ∀ store a, a ∈ s.table store → a = makeLineAddress p.blockSizeBits a
  types : ∀ store a, ∀ r ∈ (s.table store).lookup a,
    r.type.isStore = store ∧ (store = false → r.type = .LD ∨ r.type = .IFETCH)
  watched : s.Watched p

section

variable (h : s.Ok p)
include h

theorem Ok.congr (hread : t.readRequestTable = s.readRequestTable)
    (hwrite : t.writeRequestTable = s.writeRequestTable)
    (hcount : t.outstandingCount = s.outstandingCount)
    (hevent : t.deadlockCheckEvent = s.deadlockCheckEvent) (hcycle : t.curCycle = s.curCycle) :
    t.Ok p := by
  have htable : t.table = s.table := by
    funext store
    cases store with
    | true => exact hwrite
    | false => exact hread
  have houtstanding : t.Outstanding = s.Outstanding := by
    unfold Outstanding
    rw [htable]
  refine ⟨?_, ?_, ?_, ?_, ?_, ?_, ?_⟩
  · unfold counted
    rw [hcount, hread, hwrite]
    exact h.count
  · rw [htable]
    exact h.disjoint
  · rw [htable]
    exact h.lines
  · rw [htable]
    exact h.types
  · rw [houtstanding, hevent]
    exact h.watched.scheduled
  · rw [hevent, hcycle]
    exact h.watched.event
  · rw [houtstanding, hcycle]
    exact h.watched.issued

theorem Ok.blockOnQueue (address : Addr) : (s.blockOnQueue address).Ok p :=
  h.congr rfl rfl rfl rfl rfl

theorem Ok.unblock (address : Addr) : (s.unblock address).Ok p :=
  h.congr rfl rfl rfl rfl rfl

theorem Ok.armed : (s.armed p).Ok p ∧ (s.armed p).deadlockCheckEvent ≠ none := by
  unfold Sequencer.armed
  split
  · next hnone =>
    refine ⟨⟨h.count, h.disjoint, h.lines, h.types, fun r hr => ?_, fun e he => ?_,
      h.watched.issued⟩, nofun⟩
    · obtain ⟨e, he, _⟩ := h.watched.scheduled r hr
      rw [hnone] at he
      cases he
    · cases he
      exact ⟨Nat.le_add_right _ _, le_rfl⟩
  · next hsome => exact ⟨h, hsome⟩

theorem Ok.withTable {table : RequestTable} {count : Int}
    (hcount : count = table.entries.length + (s.table !store).entries.length)
    (hkeys : ∀ a ∈ table, a ∈ s.table store ∨
      (a ∉ (s.table !store) ∧ a = makeLineAddress p.blockSizeBits a))
    (hrequests : ∀ a, ∀ r ∈ table.lookup a, r ∈ (s.table store).lookup a ∨
      ((r.type.isStore = store ∧ (store = false → r.type = .LD ∨ r.type = .IFETCH)) ∧
        r.issueTime = s.curCycle ∧ s.deadlockCheckEvent ≠ none)) :
    (s.withTable store table count).Ok p := by
  have hpos := p.deadlockThreshold_pos
  have houtstanding : ∀ r, (s.withTable store table count).Outstanding r → s.Outstanding r ∨
      (r.issueTime = s.curCycle ∧ s.deadlockCheckEvent ≠ none) := by
    rintro r ⟨store', a, hr⟩
    rw [table_withTable] at hr
    split at hr
    · rcases hrequests a r hr with hold | hnew
      · exact .inl ⟨store, a, hold⟩
      · exact .inr hnew.2
    · exact .inl ⟨store', a, hr⟩
  refine ⟨(counted_withTable _ _).mpr hcount, fun store' a ha => ?_, fun store' a ha => ?_,
    fun store' a r hr => ?_, fun r hr => ?_, fun e he => ?_, fun r hr => ?_⟩
  · have hapart : ∀ a ∈ table, a ∉ s.table !store := fun a ha => by
      rcases hkeys a ha with hold | hnew
      · exact h.disjoint store a hold
      · exact hnew.1
    by_cases heq : store' = store
    · subst heq
      rw [table_withTable, if_pos rfl] at ha
      rw [table_withTable, if_neg (not_ne_self store')]
      exact hapart a ha
    · obtain rfl : store' = !store := eq_not.mpr heq
      rw [table_withTable, if_neg heq] at ha
      rw [Bool.not_not, table_withTable, if_pos rfl]
      exact fun hnew => hapart a hnew ha
  · rw [table_withTable] at ha
    split at ha
    · rcases hkeys a ha with hold | hnew
      · exact h.lines store a hold
      · exact hnew.2
    · exact h.lines store' a ha
  · rw [table_withTable] at hr
    split at hr
    · next heq =>
      rw [heq]
      rcases hrequests a r hr with hold | hnew
      · exact h.types store a r hold
      · exact hnew.1
    · exact h.types store' a r hr
  · rw [withTable_event]
    rcases houtstanding r hr with hold | ⟨htime, hsome⟩
    · exact h.watched.scheduled r hold
    · obtain ⟨e, he⟩ := Option.ne_none_iff_exists'.mp hsome
      have hle := (h.watched.event e he).2
      exact ⟨e, he, by omega⟩
  · rw [withTable_event] at he
    rw [withTable_curCycle]
    exact h.watched.event e he
  · rw [withTable_curCycle]
    rcases houtstanding r hr with hold | ⟨htime, _⟩
    · exact h.watched.issued r hold
    · exact htime.le

theorem Ok.enter {line : Addr} {request : SequencerRequest}
    (harmed : s.deadlockCheckEvent ≠ none) (hline : line = makeLineAddress p.blockSizeBits line)
    (htype : request.type.isStore = store ∧
      (store = false → request.type = .LD ∨ request.type = .IFETCH))
    (htime : request.issueTime = s.curCycle) :
    Holds (s.enter store line request)
      (fun x => x.2.Ok p ∧ (x.1 = .Aliased → x.2.table = s.table)) fun _ => False := by
  unfold Sequencer.enter
  split
  · exact ⟨h, fun _ => rfl⟩
  split
  · exact ⟨h, fun _ => rfl⟩
  next hother hself =>
  have hcount := (counted_iff store).mp h.count
  have hok : (s.withTable store ((s.table store).insert line request)
      (s.outstandingCount + 1)).Ok p := by
    refine h.withTable ?_ (fun a ha => ?_) fun a r hr => ?_
    · rw [length_entries_insert hself, hcount]
      push_cast
      omega
    · rcases mem_insert _ |>.mp ha with rfl | hold
      · exact .inr ⟨hother, hline⟩
      · exact .inl hold
    · rw [mem_lookup_insert] at hr
      split at hr
      · subst hr
        exact .inr ⟨htype, htime, harmed⟩
      · exact .inl hr
  exact holds_require_bind hok.count ⟨hok, nofun⟩

end

theorem requestTypes_ok (pkt : RubyPacket) :
    Holds (requestTypes pkt)
      (fun x => x.1.isStore = false → x.1 = .LD ∨ x.1 = .IFETCH)
      fun e => e = .notRead ∨ e = .unsupportedPacket := by
  unfold requestTypes
  repeat' split
  all_goals simp [RubyRequestType.isStore, -bind_pure_comp]

section

variable (h : s.Ok p)
include h

theorem Ok.insertRequest {pkt : RubyPacket} {type : RubyRequestType}
    (htype : type.isStore = false → type = .LD ∨ type = .IFETCH) :
    Holds (s.insertRequest p pkt type)
      (fun x => x.2.Ok p ∧ (x.1 = .Aliased → x.2.table = s.table)) fun _ => False := by
  have harmed := h.armed
  have htable : (s.armed p).table = s.table := by
    unfold Sequencer.armed
    split <;> rfl
  refine holds_require_bind h.count ?_
  dsimp only
  split
  · exact ⟨harmed.1, fun _ => htable⟩
  · have henter : Holds ((s.armed p).enter type.isStore (makeLineAddress p.blockSizeBits pkt.addr)
        ⟨pkt, type, (s.armed p).curCycle⟩)
        (fun x => x.2.Ok p ∧ (x.1 = .Aliased → x.2.table = (s.armed p).table)) fun _ => False :=
      harmed.1.enter harmed.2 (makeLineAddress_idem _ _).symm ⟨rfl, htype⟩ rfl
    exact henter.imp fun x hx => ⟨hx.1, fun haliased => (hx.2 haliased).trans htable⟩

theorem Ok.makeRequest (pkt : RubyPacket) :
    Holds (s.makeRequest p pkt)
      (fun x => x.2.Ok p ∧ (x.1 = .Aliased → x.2.table = s.table))
      fun e => e = .notRead ∨ e = .unsupportedPacket := by
  unfold Sequencer.makeRequest
  split
  · exact ⟨h, nofun⟩
  refine holds_bind.mpr ((requestTypes_ok pkt).imp fun types htypes => ?_)
  refine holds_bind.mpr ((h.insertRequest htypes).mono (fun x _ hx => ?_) fun _ _ => False.elim)
  dsimp only
  split
  · exact hx
  · exact ⟨hx.1.congr rfl rfl rfl rfl rfl, nofun⟩

theorem Ok.takeRequest (hmem : address ∈ s.table store) :
    Holds (s.takeRequest p store address)
      (fun x => x.2.Ok p ∧ x.1 ∈ (s.table store).lookup address ∧ x.2.curCycle = s.curCycle)
      fun _ => False := by
  refine holds_require_bind (h.lines store address hmem) ?_
  obtain ⟨request, hrequest⟩ := Option.isSome_iff_exists.mp (lookup_isSome.mpr hmem)
  rw [hrequest]
  have hcount := (counted_iff store).mp h.count
  have hok : (s.withTable store ((s.table store).erase address) (s.outstandingCount - 1)).Ok p := by
    refine h.withTable ?_ (fun a ha => .inl (mem_erase.mp ha).2)
      fun a r hr => .inl (mem_lookup_of_erase hr)
    have hpos := length_entries_pos hmem
    rw [length_entries_erase hmem, hcount]
    omega
  refine holds_require_bind hok.count ?_
  exact ⟨hok, rfl, withTable_curCycle _ _⟩

theorem Ok.hitCallback {r : SequencerRequest} (htime : r.issueTime ≤ s.curCycle) :
    Holds (s.hitCallback r) (Ok p) fun _ => False :=
  holds_require_bind htime h

theorem Ok.writeCallback (hmem : address ∈ s.writeRequestTable) :
    Holds (s.writeCallback p address) (Ok p) fun _ => False := by
  have htake : Holds (s.takeRequest p true address) _ _ := h.takeRequest hmem
  refine holds_bind.mpr (htake.imp fun x hx => ?_)
  obtain ⟨hok, hrequest, hcycle⟩ := hx
  have htype := (h.types true address x.1 hrequest).1
  refine holds_require_bind (.inl htype) ?_
  have htime : x.1.issueTime ≤ x.2.curCycle :=
    hcycle ▸ h.watched.issued x.1 ⟨true, address, hrequest⟩
  dsimp only
  split
  · exact (hok.blockOnQueue address).hitCallback htime
  · split
    · exact (hok.unblock address).hitCallback htime
    · exact hok.hitCallback htime

theorem Ok.readCallback (hmem : address ∈ s.readRequestTable) :
    Holds (s.readCallback p address) (Ok p) fun _ => False := by
  have htake : Holds (s.takeRequest p false address) _ _ := h.takeRequest hmem
  refine holds_bind.mpr (htake.imp fun x hx => ?_)
  obtain ⟨hok, hrequest, hcycle⟩ := hx
  have htype := (h.types false address x.1 hrequest).2 rfl
  refine holds_require_bind htype ?_
  exact hok.hitCallback (hcycle ▸ h.watched.issued x.1 ⟨false, address, hrequest⟩)

end

def Overdue (p : SequencerParams) (s : Sequencer) : Prop :=
  ∃ r, s.Outstanding r ∧ r.issueTime + p.deadlockThreshold ≤ s.curCycle

theorem checkTable_ok (store : Bool) :
    Holds (s.checkTable p (s.table store))
      (fun _ => ∀ a, ∀ r ∈ (s.table store).lookup a,
        s.curCycle - r.issueTime < p.deadlockThreshold)
      fun e => e = .deadlock ∧ s.Overdue p := by
  refine holds_require.mpr ⟨fun hyoung a r hr => ?_, fun hold => ⟨rfl, ?_⟩⟩
  · exact hyoung ⟨a, r⟩ (mem_lookup_iff.mp hr)
  · push Not at hold
    obtain ⟨x, hx, hold⟩ := hold
    have hpos := p.deadlockThreshold_pos
    exact ⟨x.2, ⟨store, x.1, mem_lookup_iff.mpr hx⟩, by omega⟩

theorem Ok.not_outstanding (h : s.Ok p) (hzero : ¬0 < s.outstandingCount) (r : SequencerRequest) :
    ¬s.Outstanding r := by
  rintro ⟨store, a, hr⟩
  have hpos : 0 < (s.table store).entries.length :=
    List.length_pos_of_mem (mem_lookup_iff.mp hr)
  have hcount := (counted_iff store).mp h.count
  omega

theorem Ok.wakeup (h : s.Ok p) :
    Holds (s.wakeup p) (fun t => t.Ok p ∧ ¬s.Overdue p) fun e => e = .deadlock ∧ s.Overdue p := by
  have hcheck : ∀ store, Holds ({ s with deadlockCheckEvent := none }.checkTable p (s.table store))
      _ _ := fun store => checkTable_ok (s := { s with deadlockCheckEvent := none }) store
  refine holds_bind.mpr ((hcheck false).imp fun _ hreads => ?_)
  refine holds_bind.mpr ((hcheck true).imp fun _ hwrites => ?_)
  refine holds_require_bind h.count ?_
  have hyoung : ∀ r, s.Outstanding r → s.curCycle - r.issueTime < p.deadlockThreshold := by
    rintro r ⟨store, a, hr⟩
    cases store with
    | true => exact hwrites a r hr
    | false => exact hreads a r hr
  have hnot : ¬s.Overdue p := by
    rintro ⟨r, hr, hold⟩
    have hlt := hyoung r hr
    omega
  dsimp only
  split
  · refine ⟨⟨h.count, h.disjoint, h.lines, h.types, fun r hr => ⟨_, rfl, ?_⟩, fun e he => ?_,
      h.watched.issued⟩, hnot⟩
    · have hlt := hyoung r hr
      have hle := h.watched.issued r hr
      omega
    · cases he
      exact ⟨Nat.le_add_right _ _, le_rfl⟩
  · next hzero =>
    refine ⟨⟨h.count, h.disjoint, h.lines, h.types, fun r hr => ?_, nofun, h.watched.issued⟩, hnot⟩
    exact absurd hr (h.not_outstanding hzero r)

def Explained (c : SequencerCall) (e : SequencerFailure) : Prop :=
  (e = .deadlock ∧ c = .wakeup) ∨
    ((e = .notRead ∨ e = .unsupportedPacket) ∧ ∃ pkt, c = .makeRequest pkt)

theorem Ok.call (h : s.Ok p) (hvalid : s.valid c) : Holds (s.call p c) (Ok p) (Explained c) := by
  cases c with
  | makeRequest pkt =>
    exact holds_bind.mpr ((h.makeRequest pkt).mono (fun _ _ => And.left)
      fun _ _ he => .inr ⟨he, pkt, rfl⟩)
  | writeCallback address => exact (h.writeCallback hvalid).mono (fun _ _ => id) fun _ _ => False.elim
  | readCallback address => exact (h.readCallback hvalid).mono (fun _ _ => id) fun _ _ => False.elim
  | wakeup => exact h.wakeup.mono (fun _ _ => And.left) fun _ _ he => .inl ⟨he.1, rfl⟩
  | tick =>
    refine ⟨h.count, h.disjoint, h.lines, h.types, h.watched.scheduled, fun e he => ?_, fun r hr => ?_⟩
    · have hevent := h.watched.event e he
      have hne : e ≠ s.curCycle := fun heq => hvalid (heq ▸ he)
      dsimp only
      omega
    · exact (h.watched.issued r hr).trans (Nat.le_succ _)
  | blockOnQueue address => exact h.blockOnQueue address
  | unblock address => exact h.unblock address

theorem ok_init : Ok p {} := by
  have hnone : ∀ r, ¬Outstanding {} r := by
    rintro r ⟨store, a, hr⟩
    cases store <;> exact absurd hr (by simp [table])
  refine ⟨rfl, fun store a ha => ?_, fun store a ha => ?_, fun store a r hr => ?_,
    fun r hr => absurd hr (hnone r), nofun, fun r hr => absurd hr (hnone r)⟩
  · cases store <;> simp [table] at ha
  · cases store <;> simp [table] at ha
  · exact absurd ⟨store, a, hr⟩ (hnone r)

/-- In every run, with any requests and with callbacks for outstanding lines, the count is that of
the two tables, which share no line; an aliased request changes neither; the check is scheduled
while a request waits; it panics if and only if a request has waited for the threshold, and no
request waits for twice the threshold without a panic. -/
theorem sequencer_watched (h : (calls p).Runs {} s) :
    s.outstandingCount = s.writeRequestTable.entries.length + s.readRequestTable.entries.length ∧
      (∀ a, ¬(a ∈ s.readRequestTable ∧ a ∈ s.writeRequestTable)) ∧
      (∀ pkt t, s.makeRequest p pkt = .ok (.Aliased, t) →
        t.readRequestTable = s.readRequestTable ∧ t.writeRequestTable = s.writeRequestTable) ∧
      (∀ r, s.Outstanding r → ∃ e, s.deadlockCheckEvent = some e ∧ s.curCycle ≤ e ∧
        e ≤ s.curCycle + p.deadlockThreshold) ∧
      (∀ r, s.Outstanding r → s.curCycle < r.issueTime + 2 * p.deadlockThreshold) ∧
      (s.wakeup p = .error .deadlock ↔
        ∃ r, s.Outstanding r ∧ r.issueTime + p.deadlockThreshold ≤ s.curCycle) ∧
      ∀ c e, s.valid c → s.call p c = .error e →
        (e = .deadlock ∧ c = .wakeup) ∨ ∃ pkt, c = .makeRequest pkt := by
  have hok : s.Ok p := h.keeps (fun _ _ _ hs hvalid hcall => (hs.call hvalid).of_ok hcall) ok_init
  refine ⟨hok.count, fun a ha => hok.disjoint false a ha.1 ha.2, fun pkt t hmake => ?_,
    fun r hr => ?_, fun r hr => ?_, ?_, fun c e hvalid hcall => ?_⟩
  · have htable := ((hok.makeRequest pkt).of_ok hmake).2 rfl
    exact ⟨congrFun htable false, congrFun htable true⟩
  · obtain ⟨e, he, _⟩ := hok.watched.scheduled r hr
    exact ⟨e, he, hok.watched.event e he⟩
  · obtain ⟨e, he, hlt⟩ := hok.watched.scheduled r hr
    exact (hok.watched.event e he).1.trans_lt hlt
  · have hwakeup := hok.wakeup
    refine ⟨fun herror => (hwakeup.of_error herror).2, fun hoverdue => ?_⟩
    cases hresult : s.wakeup p with
    | ok t => exact absurd hoverdue (hwakeup.of_ok hresult).2
    | error e => rw [(hwakeup.of_error hresult).1]
  · exact ((hok.call hvalid).of_error hcall).imp id And.right

/-- A threshold of 3: a load of line 0x40 and, two cycles later, a store of line 0x80, which
survives the first check. -/
theorem sequencer_watched_two_requests :
    ∃ s, (calls { deadlockThreshold := 3 }).Runs {} s ∧ s.curCycle = 3 ∧
      s.outstandingCount = 1 ∧ s.deadlockCheckEvent = some 6 ∧ 0x80#64 ∈ s.writeRequestTable ∧
      0x80#64 ∉ s.readRequestTable := by
  obtain ⟨s, hrun, hcycle, hevent, hcount, hmem⟩ :=
    Calls.exists_run (m := calls { deadlockThreshold := 3 }) (s := ({} : Sequencer))
      (Q := fun s => s.curCycle = 3 ∧ s.deadlockCheckEvent = some 6 ∧ s.outstandingCount = 1 ∧
        0x80#64 ∈ s.writeRequestTable)
      [.makeRequest { addr := 0x48, isRead := true }, .tick, .tick,
        .makeRequest { addr := 0x84, isWrite := true }, .readCallback 0x40, .tick, .wakeup]
      (by decide)
  have hwatched := sequencer_watched hrun
  exact ⟨s, hrun, hcycle, hcount, hevent, hmem, fun hread => hwatched.2.1 _ ⟨hread, hmem⟩⟩

end Sequencer

end Drain
