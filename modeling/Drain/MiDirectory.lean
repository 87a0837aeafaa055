import Drain.MiCache

/-! The directory of the MI example protocol (`MI_example-dir.sm`), the memory behind it and
the steps of the whole system. -/

namespace Drain.Mi

open Function (update)

namespace System

variable {α κ δ V : Type} [DecidableEq α] [DecidableEq κ] [DecidableEq δ] [DecidableEq V]
  [Inhabited V] (cfg : Config α V)

section Directory

variable (s : System α κ δ V) (a : α)

def dirState : DirState :=
  match s.dirTBEs.lookup a with
  | some tbe => tbe.tbeState
  | none => (s.directory a).directoryState

def dirAccessPermission : AccessPermission := (s.dirState a).permission

def setDirState (state : DirState) : Except ProtocolFailure (System α κ δ V) := do
  let s := { s with dirTBEs := match s.dirTBEs.lookup a with
    | some tbe => s.dirTBEs.insert a { tbe with tbeState := state }
    | none => s.dirTBEs }
  require (state = .M → (s.directory a).owner.length = 1) .ownerCount
  require (state = .M → (s.directory a).sharers.length = 0) .sharersCount
  let s := { s with
    directory := update s.directory a { s.directory a with directoryState := state } }
  require (state = .I → (s.directory a).owner.length = 0) .ownerCount
  require (state = .I → (s.directory a).sharers.length = 0) .sharersCount
  pure s

def dirTBE : Except ProtocolFailure (DirTBE κ δ V) :=
  match s.dirTBEs.lookup a with
  | some tbe => pure tbe
  | none => throw .tbeInvalid

/-- Messages of the directory on the forward network, one for each destination. -/
def sendForward (type : CoherenceRequestType) (requestor : MachineID κ δ)
    (destination : List (MachineID κ δ)) : System α κ δ V :=
  { s with forwardToCache := s.forwardToCache ++ destination.map fun d => {
      addr := a
      type := type
      requestor := requestor
      destination := d
      dataBlk := default } }

def lSendWriteBackAck (inMsg : MemoryMsg α κ δ V) : System α κ δ V :=
  s.sendForward a .WB_ACK inMsg.originalRequestorMachId [inMsg.originalRequestorMachId]

def bSendWriteBackNack (inMsg : RequestMsg α κ δ V) : System α κ δ V :=
  s.sendForward a .WB_NACK inMsg.requestor [inMsg.requestor]

def fForwardRequest (inMsg : RequestMsg α κ δ V) : System α κ δ V :=
  s.sendForward a inMsg.type inMsg.requestor (s.directory inMsg.addr).owner

def invSendCacheInvalidate (inMsg : DMARequestMsg α κ δ V) : System α κ δ V :=
  s.sendForward a .INV .directory (s.directory inMsg.lineAddress).owner

def setOwner (owner : List (MachineID κ δ)) : System α κ δ V :=
  { s with directory := update s.directory a { s.directory a with owner } }

def cClearOwner : System α κ δ V := s.setOwner a []

def eOwnerIsRequestor (inMsg : RequestMsg α κ δ V) : System α κ δ V :=
  s.setOwner a [inMsg.requestor]

def dSendData (inMsg : MemoryMsg α κ δ V) : System α κ δ V :=
  { s with responseToCache := s.responseToCache ++ [{
      addr := a
      type := .DATA
      destination := inMsg.originalRequestorMachId
      dataBlk := inMsg.dataBlk }] }

def sendDMA (type : DMAResponseType) (dataBlk : V) : Except ProtocolFailure (System α κ δ V) := do
  let tbe ← s.dirTBE a
  pure { s with dmaResponseFromDir := s.dmaResponseFromDir ++ [{
      type
      lineAddress := a
      destination := tbe.dmaRequestor
      dataBlk }] }

def drSendDMAData (inMsg : MemoryMsg α κ δ V) := s.sendDMA a .DATA inMsg.dataBlk

def drpSendDMAData (inMsg : RequestMsg α κ δ V) := s.sendDMA a .DATA inMsg.dataBlk

def daSendDMAAck := s.sendDMA a .ACK default

def iPopIncomingRequestQueue (inMsg : RequestMsg α κ δ V) : System α κ δ V :=
  { s with requestToDir := s.requestToDir.erase inMsg }

def pPopIncomingDMARequestQueue (inMsg : DMARequestMsg α κ δ V) : System α κ δ V :=
  { s with dmaRequestToDir := s.dmaRequestToDir.erase inMsg }

def lPopMemQueue (inMsg : MemoryMsg α κ δ V) : System α κ δ V :=
  { s with responseFromMemory := s.responseFromMemory.erase inMsg }

/-- The allocating actions differ in what they store in the new TBE. -/
def allocateDirTBE (tbe : DirTBE κ δ V) : Except ProtocolFailure (System α κ δ V) := do
  let dirTBEs ← allocate cfg.numberOfTBEs a tbe s.dirTBEs
  pure { s with dirTBEs }

def vAllocateTBE (inMsg : DMARequestMsg α κ δ V) :=
  s.allocateDirTBE cfg a {
    tbeState := .I
    dataBlk := inMsg.dataBlk
    len := inMsg.len
    dmaRequestor := inMsg.requestor }

def rAllocateTbeForDmaRead (inMsg : DMARequestMsg α κ δ V) :=
  s.allocateDirTBE cfg a {
    tbeState := .I
    dataBlk := default
    len := 0
    dmaRequestor := inMsg.requestor }

def vAllocateTBEFromRequestNet (inMsg : RequestMsg α κ δ V) :=
  s.allocateDirTBE cfg a {
    tbeState := .I
    dataBlk := inMsg.dataBlk
    len := 0
    dmaRequestor := default }

def wDeallocateTBE : Except ProtocolFailure (System α κ δ V) := do
  let dirTBEs ← deallocate a s.dirTBEs
  pure { s with dirTBEs }

def zRecycleRequestQueue (inMsg : RequestMsg α κ δ V) : System α κ δ V :=
  { s with requestToDir := s.requestToDir.erase inMsg ++ [inMsg] }

def yRecycleDMARequestQueue (inMsg : DMARequestMsg α κ δ V) : System α κ δ V :=
  { s with dmaRequestToDir := s.dmaRequestToDir.erase inMsg ++ [inMsg] }

def queueMemory (id : MachineID κ δ) (command : MemoryCommand V) : System α κ δ V :=
  { s with memoryRequests := s.memoryRequests ++ [{ id, addr := a, command }] }

def qfQueueMemoryFetchRequest (inMsg : RequestMsg α κ δ V) : System α κ δ V :=
  s.queueMemory a inMsg.requestor .read

def qfQueueMemoryFetchRequestDMA (inMsg : DMARequestMsg α κ δ V) : System α κ δ V :=
  s.queueMemory a inMsg.requestor .read

def qwQueueMemoryWBRequestPartial (inMsg : DMARequestMsg α κ δ V) : System α κ δ V :=
  s.queueMemory a inMsg.requestor (.writePartial inMsg.dataBlk inMsg.len)

def qwQueueMemoryWBRequestPartialTBE (inMsg : RequestMsg α κ δ V) :
    Except ProtocolFailure (System α κ δ V) := do
  let tbe ← s.dirTBE a
  pure (s.queueMemory a inMsg.requestor (.writePartial tbe.dataBlk tbe.len))

def lQueueMemoryWBRequest (inMsg : RequestMsg α κ δ V) : System α κ δ V :=
  s.queueMemory a inMsg.requestor (.write inMsg.dataBlk)

/-- The transitions. The arguments are the messages at the heads of the queues that the
triggering port read. -/
def dirTransition (req : Option (RequestMsg α κ δ V)) (dma : Option (DMARequestMsg α κ δ V))
    (mem : Option (MemoryMsg α κ δ V)) :
    DirState → DirEvent → Except ProtocolFailure (DirState × System α κ δ V)
  | .M_DRD, .GETX => do
    let inMsg ← peek req
    pure (.M_DRD, s.zRecycleRequestQueue inMsg)
  | .M_DWR, .GETX => do
    let inMsg ← peek req
    pure (.M_DWR, s.zRecycleRequestQueue inMsg)
  | .M_DWRI, .GETX => do
    let inMsg ← peek req
    pure (.M_DWRI, s.zRecycleRequestQueue inMsg)
  | .M_DRDI, .GETX => do
    let inMsg ← peek req
    pure (.M_DRDI, s.zRecycleRequestQueue inMsg)
  | .IM, .GETX | .IM, .GETS | .IM, .PUTX | .IM, .PUTX_NotOwner => do
    let inMsg ← peek req
    pure (.IM, s.zRecycleRequestQueue inMsg)
  | .MI, .GETX | .MI, .GETS | .MI, .PUTX | .MI, .PUTX_NotOwner => do
    let inMsg ← peek req
    pure (.MI, s.zRecycleRequestQueue inMsg)
  | .ID, .GETX | .ID, .GETS | .ID, .PUTX | .ID, .PUTX_NotOwner => do
    let inMsg ← peek req
    pure (.ID, s.zRecycleRequestQueue inMsg)
  | .ID_W, .GETX | .ID_W, .GETS | .ID_W, .PUTX | .ID_W, .PUTX_NotOwner => do
    let inMsg ← peek req
    pure (.ID_W, s.zRecycleRequestQueue inMsg)
  | .IM, .DMA_READ | .IM, .DMA_WRITE => do
    let inMsg ← peek dma
    pure (.IM, s.yRecycleDMARequestQueue inMsg)
  | .MI, .DMA_READ | .MI, .DMA_WRITE => do
    let inMsg ← peek dma
    pure (.MI, s.yRecycleDMARequestQueue inMsg)
  | .ID, .DMA_READ | .ID, .DMA_WRITE => do
    let inMsg ← peek dma
    pure (.ID, s.yRecycleDMARequestQueue inMsg)
  | .ID_W, .DMA_READ | .ID_W, .DMA_WRITE => do
    let inMsg ← peek dma
    pure (.ID_W, s.yRecycleDMARequestQueue inMsg)
  | .I, .GETX => do
    let inMsg ← peek req
    let s := s.qfQueueMemoryFetchRequest a inMsg
    let s := s.eOwnerIsRequestor a inMsg
    pure (.IM, s.iPopIncomingRequestQueue inMsg)
  | .IM, .Memory_Data => do
    let inMsg ← peek mem
    let s := s.dSendData a inMsg
    pure (.M, s.lPopMemQueue inMsg)
  | .I, .DMA_READ => do
    let inMsg ← peek dma
    let s ← s.rAllocateTbeForDmaRead cfg a inMsg
    let s := s.qfQueueMemoryFetchRequestDMA a inMsg
    pure (.ID, s.pPopIncomingDMARequestQueue inMsg)
  | .ID, .Memory_Data => do
    let inMsg ← peek mem
    let s ← s.drSendDMAData a inMsg
    let s ← s.wDeallocateTBE a
    pure (.I, s.lPopMemQueue inMsg)
  | .I, .DMA_WRITE => do
    let inMsg ← peek dma
    let s ← s.vAllocateTBE cfg a inMsg
    let s := s.qwQueueMemoryWBRequestPartial a inMsg
    pure (.ID_W, s.pPopIncomingDMARequestQueue inMsg)
  | .ID_W, .Memory_Ack => do
    let inMsg ← peek mem
    let s ← s.daSendDMAAck a
    let s ← s.wDeallocateTBE a
    pure (.I, s.lPopMemQueue inMsg)
  | .M, .DMA_READ => do
    let inMsg ← peek dma
    let s ← s.vAllocateTBE cfg a inMsg
    let s := s.invSendCacheInvalidate a inMsg
    pure (.M_DRD, s.pPopIncomingDMARequestQueue inMsg)
  | .M_DRD, .PUTX => do
    let inMsg ← peek req
    let s ← s.drpSendDMAData a inMsg
    let s := s.cClearOwner a
    let s := s.lQueueMemoryWBRequest a inMsg
    pure (.M_DRDI, s.iPopIncomingRequestQueue inMsg)
  | .M_DRDI, .Memory_Ack => do
    let inMsg ← peek mem
    let s := s.lSendWriteBackAck a inMsg
    let s ← s.wDeallocateTBE a
    pure (.I, s.lPopMemQueue inMsg)
  | .M, .DMA_WRITE => do
    let inMsg ← peek dma
    let s ← s.vAllocateTBE cfg a inMsg
    let s := s.invSendCacheInvalidate a inMsg
    pure (.M_DWR, s.pPopIncomingDMARequestQueue inMsg)
  | .M_DWR, .PUTX => do
    let inMsg ← peek req
    let s ← s.qwQueueMemoryWBRequestPartialTBE a inMsg
    let s := s.cClearOwner a
    pure (.M_DWRI, s.iPopIncomingRequestQueue inMsg)
  | .M_DWRI, .Memory_Ack => do
    let inMsg ← peek mem
    let s := s.lSendWriteBackAck a inMsg
    let s ← s.daSendDMAAck a
    let s ← s.wDeallocateTBE a
    pure (.I, s.lPopMemQueue inMsg)
  | .M, .GETX => do
    let inMsg ← peek req
    let s := s.fForwardRequest a inMsg
    let s := s.eOwnerIsRequestor a inMsg
    pure (.M, s.iPopIncomingRequestQueue inMsg)
  | .M, .PUTX => do
    let inMsg ← peek req
    let s := s.cClearOwner a
    let s ← s.vAllocateTBEFromRequestNet cfg a inMsg
    let s := s.lQueueMemoryWBRequest a inMsg
    pure (.MI, s.iPopIncomingRequestQueue inMsg)
  | .MI, .Memory_Ack => do
    let inMsg ← peek mem
    let s := s.lSendWriteBackAck a inMsg
    let s ← s.wDeallocateTBE a
    pure (.I, s.lPopMemQueue inMsg)
  | .M, .PUTX_NotOwner => do
    let inMsg ← peek req
    let s := s.bSendWriteBackNack a inMsg
    pure (.M, s.iPopIncomingRequestQueue inMsg)
  | .I, .PUTX_NotOwner => do
    let inMsg ← peek req
    let s := s.bSendWriteBackNack a inMsg
    pure (.I, s.iPopIncomingRequestQueue inMsg)
  | _, _ => throw .invalidTransition

def dirTrigger (req : Option (RequestMsg α κ δ V)) (dma : Option (DMARequestMsg α κ δ V))
    (mem : Option (MemoryMsg α κ δ V)) (event : DirEvent) :
    Except ProtocolFailure (System α κ δ V) := do
  let (state, s) ← s.dirTransition cfg a req dma mem (s.dirState a) event
  s.setDirState a state

end Directory

section Ports

variable (s : System α κ δ V)

def requestQueueIn (inMsg : RequestMsg α κ δ V) : Except ProtocolFailure (System α κ δ V) :=
  match inMsg.type with
  | .GETS => s.dirTrigger cfg inMsg.addr (some inMsg) none none .GETS
  | .GETX => s.dirTrigger cfg inMsg.addr (some inMsg) none none .GETX
  | .PUTX =>
    if inMsg.requestor ∈ (s.directory inMsg.addr).owner then
      s.dirTrigger cfg inMsg.addr (some inMsg) none none .PUTX
    else s.dirTrigger cfg inMsg.addr (some inMsg) none none .PUTX_NotOwner
  | .WB_ACK | .WB_NACK | .INV => throw .unexpectedMessage

def dmaRequestQueueIn (inMsg : DMARequestMsg α κ δ V) : Except ProtocolFailure (System α κ δ V) :=
  match inMsg.type with
  | .READ => s.dirTrigger cfg inMsg.lineAddress none (some inMsg) none .DMA_READ
  | .WRITE => s.dirTrigger cfg inMsg.lineAddress none (some inMsg) none .DMA_WRITE
  | .NULL => throw .unexpectedMessage

def memQueueIn (inMsg : MemoryMsg α κ δ V) : Except ProtocolFailure (System α κ δ V) :=
  match inMsg.type with
  | .MEMORY_READ => s.dirTrigger cfg inMsg.addr none none (some inMsg) .Memory_Data
  | .MEMORY_WB => s.dirTrigger cfg inMsg.addr none none (some inMsg) .Memory_Ack

/-- The memory controller executes a packet, and `recvTimingResp` queues the answer. -/
def serveMemory (pkt : MemoryPacket α κ δ V) : System α κ δ V :=
  let answer (type : MemoryRequestType) (dataBlk : V) : MemoryMsg α κ δ V :=
    { addr := pkt.addr, type, originalRequestorMachId := pkt.id, dataBlk }
  let s := { s with memoryRequests := s.memoryRequests.erase pkt }
  match pkt.command with
  | .read =>
    { s with
      responseFromMemory := s.responseFromMemory ++ [answer .MEMORY_READ (s.memory pkt.addr)] }
  | .write block =>
    { s with
      memory := update s.memory pkt.addr block
      responseFromMemory := s.responseFromMemory ++ [answer .MEMORY_WB default] }
  | .writePartial block size =>
    { s with
      memory := update s.memory pkt.addr (cfg.setData (s.memory pkt.addr) block 0 size)
      responseFromMemory := s.responseFromMemory ++ [answer .MEMORY_WB default] }

end Ports

end System

/-- A step of the system: a processor makes a request, or one of the queues is read. A
message names the one that arrives; of a network only the messages it carries can. -/
inductive Action (α κ δ V : Type) where
  | makeRequest (c : κ) (pkt : Packet α V)
  | mandatory (c : κ) (way : Nat)
  | forward (c : κ) (inMsg : RequestMsg α κ δ V)
  | response (c : κ) (inMsg : ResponseMsg α κ δ V)
  | request (inMsg : RequestMsg α κ δ V)
  | dmaRequest (inMsg : DMARequestMsg α κ δ V)
  | serveMemory (pkt : MemoryPacket α κ δ V)
  | memQueue (inMsg : MemoryMsg α κ δ V)

namespace System

variable {α κ δ V : Type} [DecidableEq α] [DecidableEq κ] [DecidableEq δ] [DecidableEq V]
  [Inhabited V] (cfg : Config α V)

def step (s : System α κ δ V) : Action α κ δ V → Except ProtocolFailure (System α κ δ V)
  | .makeRequest c pkt => s.onL1 c (·.makeRequest cfg pkt)
  | .mandatory c way => s.mandatoryQueueIn cfg c way
  | .forward c inMsg =>
    if inMsg ∈ s.forwardToCache ∧ inMsg.destination = .l1Cache c then
      s.forwardRequestNetworkIn cfg c inMsg
    else pure s
  | .response c inMsg =>
    if inMsg ∈ s.responseToCache ∧ inMsg.destination = .l1Cache c then
      s.responseNetworkIn cfg c inMsg
    else pure s
  | .request inMsg => if inMsg ∈ s.requestToDir then s.requestQueueIn cfg inMsg else pure s
  | .dmaRequest inMsg =>
    if inMsg ∈ s.dmaRequestToDir then s.dmaRequestQueueIn cfg inMsg else pure s
  | .serveMemory pkt => pure (if pkt ∈ s.memoryRequests then s.serveMemory cfg pkt else s)
  | .memQueue inMsg => if inMsg ∈ s.responseFromMemory then s.memQueueIn cfg inMsg else pure s

def run (actions : List (Action α κ δ V)) (s : System α κ δ V) :
    Except ProtocolFailure (System α κ δ V) :=
  actions.foldlM (step cfg) s

def init (memory : α → V) : System α κ δ V where
  l1 := fun _ => {
    cacheMemory := ∅
    tbes := ∅
    mandatoryQueue := []
    readRequestTable := ∅
    writeRequestTable := ∅
    outstandingCount := 0 }
  directory := fun _ => { directoryState := .I, sharers := [], owner := [] }
  dirTBEs := ∅
  requestToDir := []
  forwardToCache := []
  responseToCache := []
  dmaRequestToDir := []
  dmaResponseFromDir := []
  memoryRequests := []
  responseFromMemory := []
  memory := memory
  completed := []

end System

end Drain.Mi
