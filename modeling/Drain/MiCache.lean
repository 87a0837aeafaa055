import Drain.Lib.Holds

/-! The caches of the MI example protocol (`MI_example-cache.sm`) with what they use of the
sequencer, the cache memory and the TBE table, and the state of the whole system. A virtual
network is the list of the messages it carries; any of them may arrive next. -/

namespace Drain.Mi

open Function (update)

/-- `null` is the identifier that has not been set. -/
inductive MachineID (κ δ : Type) where
  | null
  | l1Cache (c : κ)
  | directory
  | dma (d : δ)
  deriving DecidableEq, Repr, Inhabited

inductive AccessPermission where
  | Read_Only
  | Read_Write
  | Busy
  | Invalid
  | NotPresent
  deriving DecidableEq, Repr

def AccessPermission.accessible : AccessPermission → Bool
  | .Read_Only | .Read_Write => true
  | .Busy | .Invalid | .NotPresent => false

inductive CoherenceRequestType where
  | GETX
  | GETS
  | PUTX
  | WB_ACK
  | WB_NACK
  | INV
  deriving DecidableEq, Repr

inductive CoherenceResponseType where
  | ACK
  | DATA
  | DATA_EXCLUSIVE_CLEAN
  | DATA_EXCLUSIVE_DIRTY
  | UNBLOCK
  | UNBLOCK_EXCLUSIVE
  | WRITEBACK_CLEAN
  | WRITEBACK_DIRTY
  | WRITEBACK
  deriving DecidableEq, Repr

structure RequestMsg (α κ δ V : Type) where
  addr : α
  type : CoherenceRequestType
  requestor : MachineID κ δ
  destination : MachineID κ δ
  dataBlk : V
  deriving DecidableEq, Repr

structure ResponseMsg (α κ δ V : Type) where
  addr : α
  type : CoherenceResponseType
  destination : MachineID κ δ
  dataBlk : V
  deriving DecidableEq, Repr

inductive DMARequestType where
  | READ
  | WRITE
  | NULL
  deriving DecidableEq, Repr

inductive DMAResponseType where
  | DATA
  | ACK
  | NULL
  deriving DecidableEq, Repr

/-- The physical address is the line address plus `offset`. -/
structure DMARequestMsg (α κ δ V : Type) where
  type : DMARequestType
  lineAddress : α
  offset : Nat
  requestor : MachineID κ δ
  dataBlk : V
  len : Nat
  deriving DecidableEq, Repr

structure DMAResponseMsg (α κ δ V : Type) where
  type : DMAResponseType
  lineAddress : α
  destination : MachineID κ δ
  dataBlk : V
  deriving DecidableEq, Repr

inductive MemoryCommand (V : Type) where
  | read
  | write (block : V)
  | writePartial (block : V) (size : Nat)
  deriving DecidableEq, Repr

structure MemoryPacket (α κ δ V : Type) where
  id : MachineID κ δ
  addr : α
  command : MemoryCommand V
  deriving DecidableEq, Repr

inductive MemoryRequestType where
  | MEMORY_READ
  | MEMORY_WB
  deriving DecidableEq, Repr

structure MemoryMsg (α κ δ V : Type) where
  addr : α
  type : MemoryRequestType
  originalRequestorMachId : MachineID κ δ
  dataBlk : V
  deriving DecidableEq, Repr

inductive CacheState where
  | I
  | II
  | M
  | MI
  | MII
  | IS
  | IM
  deriving DecidableEq, Repr

def CacheState.permission : CacheState → AccessPermission
  | .I => .Invalid
  | .M => .Read_Write
  | .II | .MI | .MII | .IS | .IM => .Busy

inductive CacheEvent where
  | Load
  | Ifetch
  | Store
  | Data
  | Fwd_GETX
  | Inv
  | Replacement
  | Writeback_Ack
  | Writeback_Nack
  deriving DecidableEq, Repr

structure CacheEntry (V : Type) where
  cacheState : CacheState
  dataBlk : V
  deriving DecidableEq, Repr

structure CacheTBE (V : Type) where
  tbeState : CacheState
  dataBlk : V
  deriving DecidableEq, Repr

inductive DirState where
  | I
  | M
  | M_DRD
  | M_DWR
  | M_DWRI
  | M_DRDI
  | IM
  | MI
  | ID
  | ID_W
  deriving DecidableEq, Repr

def DirState.permission : DirState → AccessPermission
  | .I => .Read_Write
  | .M => .Invalid
  | .M_DRD | .M_DWR | .M_DWRI | .M_DRDI | .IM | .MI | .ID | .ID_W => .Busy

inductive DirEvent where
  | GETX
  | GETS
  | PUTX
  | PUTX_NotOwner
  | DMA_READ
  | DMA_WRITE
  | Memory_Data
  | Memory_Ack
  deriving DecidableEq, Repr

structure DirEntry (κ δ : Type) where
  directoryState : DirState
  sharers : List (MachineID κ δ)
  owner : List (MachineID κ δ)
  deriving DecidableEq, Repr

structure DirTBE (κ δ V : Type) where
  tbeState : DirState
  dataBlk : V
  len : Nat
  dmaRequestor : MachineID κ δ
  deriving DecidableEq, Repr

inductive RubyRequestType where
  | LD
  | IFETCH
  | ST
  | ATOMIC
  | FLUSH
  deriving DecidableEq, Repr

structure RubyRequest (α : Type) where
  lineAddress : α
  type : RubyRequestType
  deriving DecidableEq, Repr

inductive PacketKind where
  | read
  | instFetch
  | write
  deriving DecidableEq, Repr

/-- A request of the processor; `data` is a block whose bytes from `offset` on are stored. -/
structure Packet (α V : Type) where
  lineAddress : α
  kind : PacketKind
  data : V
  offset : Nat
  size : Nat
  deriving DecidableEq, Repr

structure SequencerRequest (α V : Type) where
  pkt : Packet α V
  type : RubyRequestType
  deriving DecidableEq, Repr

structure L1Cache (α V : Type) where
  cacheMemory : AList fun _ : α => CacheEntry V
  tbes : AList fun _ : α => CacheTBE V
  mandatoryQueue : List (RubyRequest α)
  readRequestTable : AList fun _ : α => SequencerRequest α V
  writeRequestTable : AList fun _ : α => SequencerRequest α V
  outstandingCount : Nat

/-- An access of a processor that has been answered, with the line that was read. -/
inductive Access (α κ V : Type) where
  | load (c : κ) (addr : α) (data : V)
  | store (c : κ) (addr : α) (data : V) (offset size : Nat)
  deriving DecidableEq, Repr

inductive ProtocolFailure where
  | invalidTransition
  | unexpectedMessage
  | invalidRubyRequestType
  | queueEmpty
  | tbePresent
  | tbesFull
  | tbeMissing
  | tagPresent
  | cacheNotAvail
  | tagMissing
  | cacheEntryInvalid
  | tbeInvalid
  | ownerCount
  | sharersCount
  | noOutstandingRequest
  | wrongRequestType
  | outstandingCountWrong
  deriving DecidableEq, Repr

/-- The parameters of the controllers. `setData old new offset len` is the block `old` with
`len` bytes from `offset` on taken from `new`. -/
structure Config (α V : Type) where
  numberOfTBEs : Nat
  cacheAssoc : Nat
  addressToCacheSet : α → Nat
  maxOutstandingRequests : Nat
  setData : V → V → Nat → Nat → V

/-- The whole system. `completed` lists the answered accesses, the last one first. -/
structure System (α κ δ V : Type) where
  l1 : κ → L1Cache α V
  directory : α → DirEntry κ δ
  dirTBEs : AList fun _ : α => DirTBE κ δ V
  requestToDir : List (RequestMsg α κ δ V)
  forwardToCache : List (RequestMsg α κ δ V)
  responseToCache : List (ResponseMsg α κ δ V)
  dmaRequestToDir : List (DMARequestMsg α κ δ V)
  dmaResponseFromDir : List (DMAResponseMsg α κ δ V)
  memoryRequests : List (MemoryPacket α κ δ V)
  responseFromMemory : List (MemoryMsg α κ δ V)
  memory : α → V
  completed : List (Access α κ V)

section Tables

variable {α β : Type} [DecidableEq α]

/-- `TBETable::allocate`, followed by what the action stores in the new TBE. -/
def allocate (numberOfTBEs : Nat) (a : α) (tbe : β) (t : AList fun _ : α => β) :
    Except ProtocolFailure (AList fun _ : α => β) := do
  require (a ∉ t) .tbePresent
  require (t.entries.length < numberOfTBEs) .tbesFull
  pure (t.insert a tbe)

def deallocate (a : α) (t : AList fun _ : α => β) :
    Except ProtocolFailure (AList fun _ : α => β) := do
  require (a ∈ t) .tbeMissing
  pure (t.erase a)

end Tables

namespace L1Cache

variable {α V : Type} [DecidableEq α] (cfg : Config α V) (l : L1Cache α V) (a : α)

def ways : List α :=
  l.cacheMemory.keys.filter fun b => cfg.addressToCacheSet b = cfg.addressToCacheSet a

def cacheAvail : Bool := a ∈ l.cacheMemory || (l.ways cfg a).length < cfg.cacheAssoc

def getState : CacheState :=
  match l.tbes.lookup a with
  | some tbe => tbe.tbeState
  | none =>
    match l.cacheMemory.lookup a with
    | some entry => entry.cacheState
    | none => .I

def setState (state : CacheState) : L1Cache α V :=
  { l with
    tbes := match l.tbes.lookup a with
      | some tbe => l.tbes.insert a { tbe with tbeState := state }
      | none => l.tbes
    cacheMemory := match l.cacheMemory.lookup a with
      | some entry => l.cacheMemory.insert a { entry with cacheState := state }
      | none => l.cacheMemory }

def getAccessPermission : AccessPermission :=
  match l.tbes.lookup a with
  | some tbe => tbe.tbeState.permission
  | none =>
    match l.cacheMemory.lookup a with
    | some entry => entry.cacheState.permission
    | none => .NotPresent

def cacheEntry : Except ProtocolFailure (CacheEntry V) :=
  match l.cacheMemory.lookup a with
  | some entry => pure entry
  | none => throw .cacheEntryInvalid

def tbe : Except ProtocolFailure (CacheTBE V) :=
  match l.tbes.lookup a with
  | some tbe => pure tbe
  | none => throw .tbeInvalid

def iAllocateL1CacheBlock [Inhabited V] : Except ProtocolFailure (L1Cache α V) :=
  match l.cacheMemory.lookup a with
  | some _ => pure l
  | none => do
    require (a ∉ l.cacheMemory) .tagPresent
    require (l.cacheAvail cfg a = true) .cacheNotAvail
    pure { l with cacheMemory := l.cacheMemory.insert a { cacheState := .I, dataBlk := default } }

def hDeallocateL1CacheBlock : Except ProtocolFailure (L1Cache α V) :=
  match l.cacheMemory.lookup a with
  | some _ => do
    require (a ∈ l.cacheMemory) .tagMissing
    pure { l with cacheMemory := l.cacheMemory.erase a }
  | none => pure l

def mPopMandatoryQueue : L1Cache α V := { l with mandatoryQueue := l.mandatoryQueue.tail }

def vAllocateTBE [Inhabited V] : Except ProtocolFailure (L1Cache α V) := do
  let tbes ← allocate cfg.numberOfTBEs a { tbeState := .I, dataBlk := default } l.tbes
  pure { l with tbes }

def wDeallocateTBE : Except ProtocolFailure (L1Cache α V) := do
  let tbes ← deallocate a l.tbes
  pure { l with tbes }

def xCopyDataFromCacheToTBE : Except ProtocolFailure (L1Cache α V) := do
  let entry ← l.cacheEntry a
  let tbe ← l.tbe a
  pure { l with tbes := l.tbes.insert a { tbe with dataBlk := entry.dataBlk } }

def uWriteDataToCache (dataBlk : V) : Except ProtocolFailure (L1Cache α V) := do
  let entry ← l.cacheEntry a
  pure { l with cacheMemory := l.cacheMemory.insert a { entry with dataBlk } }

def requestType : PacketKind → RubyRequestType
  | .read => .LD
  | .instFetch => .IFETCH
  | .write => .ST

/-- `insertRequest`; nothing is inserted for a line that has an outstanding request. -/
def insertRequest (pkt : Packet α V) : Except ProtocolFailure (Option (L1Cache α V)) :=
  let type := requestType pkt.kind
  let line := pkt.lineAddress
  let request : SequencerRequest α V := { pkt, type }
  if type = .ST ∨ type = .FLUSH then
    if line ∈ l.readRequestTable then pure none
    else if line ∈ l.writeRequestTable then pure none
    else do
      let l := { l with
        writeRequestTable := l.writeRequestTable.insert line request
        outstandingCount := l.outstandingCount + 1 }
      require (l.outstandingCount =
        l.writeRequestTable.entries.length + l.readRequestTable.entries.length)
        .outstandingCountWrong
      pure (some l)
  else
    if line ∈ l.writeRequestTable then pure none
    else if line ∈ l.readRequestTable then pure none
    else do
      let l := { l with
        readRequestTable := l.readRequestTable.insert line request
        outstandingCount := l.outstandingCount + 1 }
      require (l.outstandingCount =
        l.writeRequestTable.entries.length + l.readRequestTable.entries.length)
        .outstandingCountWrong
      pure (some l)

/-- `Sequencer::makeRequest` for reads, fetches and writes. A packet that is refused changes
nothing. -/
def makeRequest (pkt : Packet α V) : Except ProtocolFailure (L1Cache α V) :=
  if cfg.maxOutstandingRequests ≤ l.outstandingCount then pure l
  else do
    match ← l.insertRequest pkt with
    | none => pure l
    | some l => pure { l with
        mandatoryQueue := l.mandatoryQueue ++
          [{ lineAddress := pkt.lineAddress, type := requestType pkt.kind }] }

def markRemoved : Except ProtocolFailure (L1Cache α V) := do
  let l := { l with outstandingCount := l.outstandingCount - 1 }
  require (l.outstandingCount =
    l.writeRequestTable.entries.length + l.readRequestTable.entries.length)
    .outstandingCountWrong
  pure l

/-- `readCallback` up to `hitCallback`, which copies the line to the packet. -/
def readCallback : Except ProtocolFailure (L1Cache α V) :=
  match l.readRequestTable.lookup a with
  | none => throw .noOutstandingRequest
  | some request => do
    let l ← { l with readRequestTable := l.readRequestTable.erase a }.markRemoved
    require (request.type = .LD ∨ request.type = .IFETCH) .wrongRequestType
    pure l

/-- `writeCallback` with `hitCallback`: the packet's bytes go to the cache entry. -/
def writeCallback (dataBlk : V) : Except ProtocolFailure (V × SequencerRequest α V × L1Cache α V) :=
  match l.writeRequestTable.lookup a with
  | none => throw .noOutstandingRequest
  | some request => do
    let l ← { l with writeRequestTable := l.writeRequestTable.erase a }.markRemoved
    require (request.type = .ST ∨ request.type = .ATOMIC ∨ request.type = .FLUSH) .wrongRequestType
    pure (cfg.setData dataBlk request.pkt.data request.pkt.offset request.pkt.size, request, l)

end L1Cache

def mandatoryRequestTypeToEvent : RubyRequestType → Except ProtocolFailure CacheEvent
  | .LD => pure .Load
  | .IFETCH => pure .Ifetch
  | .ST | .ATOMIC => pure .Store
  | .FLUSH => throw .invalidRubyRequestType

namespace System

variable {α κ δ V : Type} [DecidableEq α] [DecidableEq κ] [DecidableEq δ] [DecidableEq V]
  [Inhabited V] (cfg : Config α V)

def setL1 (s : System α κ δ V) (c : κ) (l : L1Cache α V) : System α κ δ V :=
  { s with l1 := update s.l1 c l }

def peek {M : Type} : Option M → Except ProtocolFailure M
  | some m => pure m
  | none => throw .queueEmpty

section Cache

/-! The actions of the cache `c` for the line `a`. -/

variable (s : System α κ δ V) (c : κ) (a : α)

def onL1 (f : L1Cache α V → Except ProtocolFailure (L1Cache α V)) :
    Except ProtocolFailure (System α κ δ V) := do
  let l ← f (s.l1 c)
  pure (s.setL1 c l)

def aIssueRequest : System α κ δ V :=
  { s with requestToDir := s.requestToDir ++ [{
      addr := a
      type := .GETX
      requestor := .l1Cache c
      destination := .directory
      dataBlk := default }] }

def bIssuePUT : Except ProtocolFailure (System α κ δ V) := do
  let entry ← (s.l1 c).cacheEntry a
  pure { s with requestToDir := s.requestToDir ++ [{
      addr := a
      type := .PUTX
      requestor := .l1Cache c
      destination := .directory
      dataBlk := entry.dataBlk }] }

def eSendData (inMsg : RequestMsg α κ δ V) : Except ProtocolFailure (System α κ δ V) := do
  let entry ← (s.l1 c).cacheEntry a
  pure { s with responseToCache := s.responseToCache ++ [{
      addr := a
      type := .DATA
      destination := inMsg.requestor
      dataBlk := entry.dataBlk }] }

def eeSendDataFromTBE (inMsg : RequestMsg α κ δ V) : Except ProtocolFailure (System α κ δ V) := do
  let tbe ← (s.l1 c).tbe a
  pure { s with responseToCache := s.responseToCache ++ [{
      addr := a
      type := .DATA
      destination := inMsg.requestor
      dataBlk := tbe.dataBlk }] }

def nPopResponseQueue (inMsg : ResponseMsg α κ δ V) : System α κ δ V :=
  { s with responseToCache := s.responseToCache.erase inMsg }

def oPopForwardedRequestQueue (inMsg : RequestMsg α κ δ V) : System α κ δ V :=
  { s with forwardToCache := s.forwardToCache.erase inMsg }

/-- `r_load_hit` and `rx_load_hit`. -/
def loadHit : Except ProtocolFailure (System α κ δ V) := do
  let entry ← (s.l1 c).cacheEntry a
  let l ← (s.l1 c).readCallback a
  pure { s.setL1 c l with completed := .load c a entry.dataBlk :: s.completed }

/-- `s_store_hit` and `sx_store_hit`. -/
def storeHit : Except ProtocolFailure (System α κ δ V) := do
  let entry ← (s.l1 c).cacheEntry a
  let (dataBlk, request, l) ← (s.l1 c).writeCallback cfg a entry.dataBlk
  let l := { l with cacheMemory := l.cacheMemory.insert a { entry with dataBlk } }
  pure { s.setL1 c l with
    completed :=
      .store c a request.pkt.data request.pkt.offset request.pkt.size :: s.completed }

/-- The transitions; `none` is a protocol stall, which leaves everything as it is. -/
def l1Transition (fwd : Option (RequestMsg α κ δ V)) (resp : Option (ResponseMsg α κ δ V)) :
    CacheState → CacheEvent → Except ProtocolFailure (Option (CacheState × System α κ δ V))
  | .IS, .Load | .IS, .Ifetch | .IS, .Store | .IS, .Replacement
  | .IM, .Load | .IM, .Ifetch | .IM, .Store | .IM, .Replacement
  | .MI, .Load | .MI, .Ifetch | .MI, .Store | .MI, .Replacement
  | .II, .Load | .II, .Ifetch | .II, .Store | .II, .Replacement
  | .MII, .Load | .MII, .Ifetch | .MII, .Store | .MII, .Replacement
  | .IS, .Fwd_GETX | .IS, .Inv | .IM, .Fwd_GETX | .IM, .Inv => pure none
  | .MI, .Inv => do
    let inMsg ← peek fwd
    pure (some (.MI, s.oPopForwardedRequestQueue inMsg))
  | .M, .Store => do
    let s ← s.storeHit cfg c a
    pure (some (.M, s.setL1 c (s.l1 c).mPopMandatoryQueue))
  | .M, .Load | .M, .Ifetch => do
    let s ← s.loadHit c a
    pure (some (.M, s.setL1 c (s.l1 c).mPopMandatoryQueue))
  | .I, .Inv => do
    let inMsg ← peek fwd
    pure (some (.I, s.oPopForwardedRequestQueue inMsg))
  | .I, .Store => do
    let s ← s.onL1 c (·.vAllocateTBE cfg a)
    let s ← s.onL1 c (·.iAllocateL1CacheBlock cfg a)
    let s := s.aIssueRequest c a
    pure (some (.IM, s.setL1 c (s.l1 c).mPopMandatoryQueue))
  | .I, .Load | .I, .Ifetch => do
    let s ← s.onL1 c (·.vAllocateTBE cfg a)
    let s ← s.onL1 c (·.iAllocateL1CacheBlock cfg a)
    let s := s.aIssueRequest c a
    pure (some (.IS, s.setL1 c (s.l1 c).mPopMandatoryQueue))
  | .IS, .Data => do
    let inMsg ← peek resp
    let s ← s.onL1 c (·.uWriteDataToCache a inMsg.dataBlk)
    let s ← s.loadHit c a
    let s ← s.onL1 c (·.wDeallocateTBE a)
    pure (some (.M, s.nPopResponseQueue inMsg))
  | .IM, .Data => do
    let inMsg ← peek resp
    let s ← s.onL1 c (·.uWriteDataToCache a inMsg.dataBlk)
    let s ← s.storeHit cfg c a
    let s ← s.onL1 c (·.wDeallocateTBE a)
    pure (some (.M, s.nPopResponseQueue inMsg))
  | .M, .Fwd_GETX => do
    let inMsg ← peek fwd
    let s ← s.eSendData c a inMsg
    pure (some (.I, s.oPopForwardedRequestQueue inMsg))
  | .I, .Replacement => do
    let s ← s.onL1 c (·.hDeallocateL1CacheBlock a)
    pure (some (.I, s))
  | .M, .Replacement | .M, .Inv => do
    let s ← s.onL1 c (·.vAllocateTBE cfg a)
    let s ← s.bIssuePUT c a
    let s ← s.onL1 c (·.xCopyDataFromCacheToTBE a)
    let s ← s.onL1 c (·.hDeallocateL1CacheBlock a)
    pure (some (.MI, s))
  | .MI, .Writeback_Ack => do
    let inMsg ← peek fwd
    let s ← s.onL1 c (·.wDeallocateTBE a)
    pure (some (.I, s.oPopForwardedRequestQueue inMsg))
  | .MI, .Fwd_GETX => do
    let inMsg ← peek fwd
    let s ← s.eeSendDataFromTBE c a inMsg
    pure (some (.II, s.oPopForwardedRequestQueue inMsg))
  | .MI, .Writeback_Nack => do
    let inMsg ← peek fwd
    pure (some (.MII, s.oPopForwardedRequestQueue inMsg))
  | .MII, .Fwd_GETX => do
    let inMsg ← peek fwd
    let s ← s.eeSendDataFromTBE c a inMsg
    let s ← s.onL1 c (·.wDeallocateTBE a)
    pure (some (.I, s.oPopForwardedRequestQueue inMsg))
  | .II, .Writeback_Nack => do
    let inMsg ← peek fwd
    let s ← s.onL1 c (·.wDeallocateTBE a)
    pure (some (.I, s.oPopForwardedRequestQueue inMsg))
  | _, _ => throw .invalidTransition

/-- `trigger`: the transition of the current state, and the new state after its actions. -/
def l1Trigger (fwd : Option (RequestMsg α κ δ V)) (resp : Option (ResponseMsg α κ δ V))
    (event : CacheEvent) : Except ProtocolFailure (System α κ δ V) := do
  match ← s.l1Transition cfg c a fwd resp ((s.l1 c).getState a) event with
  | none => pure s
  | some (state, s) => pure (s.setL1 c ((s.l1 c).setState a state))

end Cache

section Ports

variable (s : System α κ δ V) (c : κ)

def forwardRequestNetworkIn (inMsg : RequestMsg α κ δ V) :
    Except ProtocolFailure (System α κ δ V) :=
  match inMsg.type with
  | .GETX => s.l1Trigger cfg c inMsg.addr (some inMsg) none .Fwd_GETX
  | .WB_ACK => s.l1Trigger cfg c inMsg.addr (some inMsg) none .Writeback_Ack
  | .WB_NACK => s.l1Trigger cfg c inMsg.addr (some inMsg) none .Writeback_Nack
  | .INV => s.l1Trigger cfg c inMsg.addr (some inMsg) none .Inv
  | .GETS | .PUTX => throw .unexpectedMessage

def responseNetworkIn (inMsg : ResponseMsg α κ δ V) : Except ProtocolFailure (System α κ δ V) :=
  if inMsg.type = .DATA then s.l1Trigger cfg c inMsg.addr none (some inMsg) .Data
  else throw .unexpectedMessage

/-- The first request of the mandatory queue; `way` is the victim that the replacement
policy chooses in a full set. -/
def mandatoryQueueIn (way : Nat) : Except ProtocolFailure (System α κ δ V) :=
  match (s.l1 c).mandatoryQueue with
  | [] => pure s
  | inMsg :: _ =>
    let l := s.l1 c
    if inMsg.lineAddress ∉ l.cacheMemory ∧ l.cacheAvail cfg inMsg.lineAddress = false then
      match (l.ways cfg inMsg.lineAddress)[way]? with
      | none => pure s
      | some victim => s.l1Trigger cfg c victim none none .Replacement
    else do
      let event ← mandatoryRequestTypeToEvent inMsg.type
      s.l1Trigger cfg c inMsg.lineAddress none none event

end Ports

end System

end Drain.Mi
