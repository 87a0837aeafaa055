import Drain.Lib.AssocList
import Drain.Lib.Calls
import Drain.Lib.Tiles
import Drain.RubyTypes

/-! `DMASequencer`: requests of any length, issued to memory one block at a time. A request is found
by the line of its first byte. -/

namespace Drain

open Function List Nat AList Option

abbrev Bytes := Nat → BitVec 8

structure DmaPacket where
  id : Nat
  addr : Addr
  size : Nat
  isWrite : Bool
  -- what the pointer of the packet points to, if it is not null
  data : Option Bytes

/-- What of a packet no answer changes. -/
def DmaPacket.header (pkt : DmaPacket) : Nat × Addr × Nat × Bool :=
  (pkt.id, pkt.addr, pkt.size, pkt.isWrite)

inductive SequencerRequestType where
  | LD | ST
  deriving DecidableEq

structure SequencerMsg where
  physicalAddress : Addr
  lineAddress : Addr
  type : SequencerRequestType
  len : Nat
  dataBlk : Bytes

structure DMARequest where
  startPaddr : Addr
  len : Nat
  write : Bool
  bytesCompleted : Nat
  bytesIssued : Nat
  data : Option Bytes
  pkt : DmaPacket

structure DmaParams where
  blockSizeBits : Nat := 6
  maxOutstandingRequests : Nat := 64
  blockSizeBits_lt : blockSizeBits < 32 := by decide

inductive DmaFailure where
  | outstandingCount
  | noRequest
  | misaligned
  | dataForWrite
  | blockOverrun
  -- a null pointer is read
  | nullData
  deriving DecidableEq

structure DMASequencer where
  requestTable : AList (fun _ : Addr => DMARequest) := ∅
  outstandingCount : Nat := 0
  mandatoryQueue : List SequencerMsg := []
  -- the packets of `ruby_hit_callback`
  hits : List DmaPacket := []

def memcpy (dst : Bytes) (pos : Nat) (src : Bytes) (len : Nat) : Bytes := fun i =>
  if pos ≤ i ∧ i < pos + len then src (i - pos) else dst i

theorem memcpy_at {dst src : Bytes} {pos len j : Nat} (hj : j < len) :
    memcpy dst pos src len (pos + j) = src j := by
  rw [memcpy, if_pos ⟨by omega, by omega⟩, Nat.add_sub_cancel_left]

theorem memcpy_before {dst src : Bytes} {pos len i : Nat} (hi : i < pos) :
    memcpy dst pos src len i = dst i := by
  rw [memcpy, if_neg (by omega)]

namespace DMASequencer

variable (p : DmaParams) (s : DMASequencer)

def getBlockSizeBytes : Nat := 2 ^ p.blockSizeBits

def dataBlockMask : Addr := (1#64 <<< p.blockSizeBits) - 1#64

def blockOffset (addr : Addr) : Nat := (addr &&& dataBlockMask p).toNat

def setData (dataBlk data : Bytes) (offset len : Nat) : Except DmaFailure Bytes := do
  require (offset + len ≤ getBlockSizeBytes p) .blockOverrun
  pure (memcpy dataBlk offset data len)

def getData (dataBlk : Bytes) (offset len : Nat) : Except DmaFailure Bytes := do
  require (offset + len ≤ getBlockSizeBytes p) .blockOverrun
  pure fun i => dataBlk (offset + i)

def enqueueMandatory (msg : SequencerMsg) : DMASequencer :=
  { s with mandatoryQueue := s.mandatoryQueue ++ [msg] }

def messageType (write : Bool) : SequencerRequestType := if write then .ST else .LD

/-- The block that goes with the first message of a request, empty where there is no data. -/
def firstDataBlk (pkt : DmaPacket) (offset len : Nat) : Except DmaFailure Bytes :=
  match pkt.isWrite, pkt.data with
  | true, some data => setData p (fun _ => 0) data offset len
  | _, _ => pure fun _ => 0

def firstMessage (pkt : DmaPacket) : Except DmaFailure SequencerMsg := do
  let offset := blockOffset p pkt.addr
  let len := if offset + pkt.size ≤ getBlockSizeBytes p then pkt.size
    else getBlockSizeBytes p - offset
  let dataBlk ← firstDataBlk p pkt offset len
  pure ⟨pkt.addr, makeLineAddress p.blockSizeBits pkt.addr, messageType pkt.isWrite, len, dataBlk⟩

def makeRequest (pkt : DmaPacket) : Except DmaFailure (RequestStatus × DMASequencer) :=
  if s.outstandingCount = p.maxOutstandingRequests then pure (.BufferFull, s)
  else do
    require (s.outstandingCount < p.maxOutstandingRequests) .outstandingCount
    let line := makeLineAddress p.blockSizeBits pkt.addr
    if line ∈ s.requestTable then pure (.Aliased, s)
    else do
      let msg ← firstMessage p pkt
      let request := ⟨pkt.addr, pkt.size, pkt.isWrite, 0, msg.len, pkt.data, pkt⟩
      let s := { s with
        requestTable := s.requestTable.insert line request
        outstandingCount := s.outstandingCount + 1 }
      pure (.Issued, s.enqueueMandatory msg)

/-- The block that goes with a later message; the pointer of the request is not checked here. -/
def nextDataBlk (request : DMARequest) (len : Nat) : Except DmaFailure Bytes :=
  if request.write then
    match request.data with
    | some data => setData p (fun _ => 0) (fun i => data (request.bytesCompleted + i)) 0 len
    | none => throw .nullData
  else pure fun _ => 0

def nextMessage (request : DMARequest) : Except DmaFailure SequencerMsg := do
  let physicalAddress := request.startPaddr + BitVec.ofNat 64 request.bytesCompleted
  require (blockOffset p physicalAddress = 0) .misaligned
  let len := if request.len - request.bytesCompleted < getBlockSizeBytes p
    then request.len - request.bytesCompleted else getBlockSizeBytes p
  let dataBlk ← nextDataBlk p request len
  pure ⟨physicalAddress, makeLineAddress p.blockSizeBits physicalAddress,
    messageType request.write, len, dataBlk⟩

/-- `issueNext`, for the request it finds. -/
def advance (address : Addr) (request : DMARequest) : Except DmaFailure DMASequencer := do
  require (s.outstandingCount ≤ p.maxOutstandingRequests) .outstandingCount
  let request := { request with bytesCompleted := request.bytesIssued }
  if request.len = request.bytesCompleted then
    pure { s with
      outstandingCount := s.outstandingCount - 1
      requestTable := s.requestTable.erase address
      hits := s.hits ++ [{ request.pkt with data := request.data }] }
  else do
    let msg ← nextMessage p request
    let request := { request with bytesIssued := request.bytesIssued + msg.len }
    pure ({ s with requestTable := s.requestTable.insert address request }.enqueueMandatory msg)

def issueNext (address : Addr) : Except DmaFailure DMASequencer :=
  match s.requestTable.lookup address with
  | none => throw .noRequest
  | some request => s.advance p address request

def receive (request : DMARequest) (dblk : Bytes) : Except DmaFailure DMARequest := do
  let len := request.bytesIssued - request.bytesCompleted
  let offset := if request.bytesCompleted = 0 then blockOffset p request.startPaddr else 0
  require (request.write = false) .dataForWrite
  match request.data with
  | some data => do
    let src ← getData p dblk offset len
    pure { request with data := some (memcpy data request.bytesCompleted src len) }
  | none => pure request

def dataCallback (dblk : Bytes) (address : Addr) : Except DmaFailure DMASequencer :=
  match s.requestTable.lookup address with
  | none => throw .noRequest
  | some request => do
    let request ← receive p request dblk
    issueNext p { s with requestTable := s.requestTable.insert address request } address

def ackCallback (address : Addr) : Except DmaFailure DMASequencer := do
  require (address ∈ s.requestTable) .noRequest
  s.issueNext p address

section Offsets

variable {p}

theorem getBlockSizeBytes_pos : 0 < getBlockSizeBytes p := Nat.two_pow_pos _

theorem blockOffset_eq (addr : Addr) : blockOffset p addr = addr.toNat % getBlockSizeBytes p := by
  have hbits := p.blockSizeBits_lt
  have hlt : 2 ^ p.blockSizeBits < 2 ^ 64 := Nat.pow_lt_pow_right (by decide) (by omega)
  have hone : (1#64 <<< p.blockSizeBits).toNat = 2 ^ p.blockSizeBits := by
    rw [BitVec.toNat_shiftLeft, shiftLeft_eq]
    simpa using hlt
  have hmask : (dataBlockMask p).toNat = 2 ^ p.blockSizeBits - 1 := by
    have hle : 1#64 ≤ 1#64 <<< p.blockSizeBits := by
      rw [BitVec.le_def, hone]
      exact Nat.one_le_two_pow
    rw [dataBlockMask, BitVec.toNat_sub_of_le hle, hone]
    rfl
  rw [blockOffset, BitVec.toNat_and, hmask, and_two_pow_sub_one_eq_mod, getBlockSizeBytes]

theorem blockOffset_lt (addr : Addr) : blockOffset p addr < getBlockSizeBytes p := by
  rw [blockOffset_eq]
  exact mod_lt _ getBlockSizeBytes_pos

theorem blockOffset_add (addr : Addr) (n : Nat) :
    blockOffset p (addr + BitVec.ofNat 64 n) = (blockOffset p addr + n) % getBlockSizeBytes p := by
  have hbits := p.blockSizeBits_lt
  have hdvd : getBlockSizeBytes p ∣ 2 ^ 64 := pow_dvd_pow 2 (by omega)
  rw [blockOffset_eq, blockOffset_eq, BitVec.toNat_add, BitVec.toNat_ofNat,
    mod_mod_of_dvd _ hdvd, mod_add_mod, add_mod, mod_mod_of_dvd _ hdvd,
    ← add_mod]

end Offsets

/-- A message for the bytes of a request from position `n` on. -/
structure Chunk (start : Addr) (write : Bool) (data : Option Bytes) (n : Nat) (m : SequencerMsg) :
    Prop where
  physicalAddress : m.physicalAddress = start + BitVec.ofNat 64 n
  lineAddress : m.lineAddress = makeLineAddress p.blockSizeBits m.physicalAddress
  type : m.type = messageType write
  len_pos : 0 < m.len
  inside : blockOffset p m.physicalAddress + m.len ≤ getBlockSizeBytes p
  aligned : 0 < n → blockOffset p m.physicalAddress = 0
  written : write = true → ∀ bytes, data = some bytes →
    ∀ j < m.len, m.dataBlk (blockOffset p m.physicalAddress + j) = bytes (n + j)

structure Answered (start : Addr) (write : Bool) (data : Option Bytes) (n : Nat)
    (a : SequencerMsg × Bytes) : Prop extends Chunk p start write data n a.1 where
  landed : write = false → ∀ bytes, data = some bytes →
    ∀ j < a.1.len, bytes (n + j) = a.2 (blockOffset p a.1.physicalAddress + j)

def Served (start : Addr) (write : Bool) (data : Option Bytes) (n : Nat)
    (answered : List (SequencerMsg × Bytes)) : Prop :=
  Tiles (fun a => a.1.len) (Answered p start write data) n answered

structure RequestOk (request : DMARequest) : Prop where
  start : request.startPaddr = request.pkt.addr
  len : request.len = request.pkt.size
  write : request.write = request.pkt.isWrite
  -- only the first message may do without data
  source : request.write = true → request.data.isSome = true ∨
    blockOffset p request.startPaddr + request.len ≤ getBlockSizeBytes p
  issued_pos : 0 < request.bytesIssued
  issued_le : request.bytesIssued ≤ request.len
  rest : request.bytesIssued = request.len ∨
    blockOffset p (request.startPaddr + BitVec.ofNat 64 request.bytesIssued) = 0

section Messages

variable {p} {pkt : DmaPacket} {request : DMARequest}

theorem holds_setData {dataBlk data : Bytes} {offset len : Nat}
    (h : offset + len ≤ getBlockSizeBytes p) :
    Holds (setData p dataBlk data offset len)
      (fun blk => ∀ j < len, blk (offset + j) = data j) (fun _ => False) := by
  unfold setData
  exact holds_require_bind h fun j hj => memcpy_at hj

theorem holds_getData {dataBlk : Bytes} {offset len : Nat}
    (h : offset + len ≤ getBlockSizeBytes p) :
    Holds (getData p dataBlk offset len) (fun src => ∀ j, src j = dataBlk (offset + j))
      (fun _ => False) := by
  unfold getData
  exact holds_require_bind h fun _ => rfl

theorem firstDataBlk_spec {offset len : Nat} (hin : offset + len ≤ getBlockSizeBytes p) :
    Holds (firstDataBlk p pkt offset len) (fun blk => pkt.isWrite = true →
      ∀ bytes, pkt.data = some bytes → ∀ j < len, blk (offset + j) = bytes j) (fun _ => False) := by
  unfold firstDataBlk
  split
  · next bytes _ hbytes =>
    refine (holds_setData hin).imp fun blk hblk _ bytes' hbytes' => ?_
    rwa [← some.inj (hbytes.symm.trans hbytes')]
  · next hnone => exact fun hw bytes hbytes => absurd hbytes (hnone bytes hw)

theorem nextDataBlk_spec {len : Nat} (hin : len ≤ getBlockSizeBytes p)
    (hsource : request.write = true → request.data.isSome = true) :
    Holds (nextDataBlk p request len) (fun blk => request.write = true →
      ∀ bytes, request.data = some bytes →
        ∀ j < len, blk (0 + j) = bytes (request.bytesCompleted + j)) (fun _ => False) := by
  unfold nextDataBlk
  refine holds_ite.mpr ⟨fun hw => ?_, fun hw h => absurd h hw⟩
  obtain ⟨bytes, hbytes⟩ := isSome_iff_exists.mp (hsource hw)
  rw [hbytes]
  refine (holds_setData (by omega)).imp fun blk hblk _ bytes' hbytes' => ?_
  rwa [← some.inj hbytes']

theorem blockOffset_next {start : Addr} {n len : Nat}
    (h : blockOffset p (start + BitVec.ofNat 64 n) + len = getBlockSizeBytes p) :
    blockOffset p (start + BitVec.ofNat 64 (n + len)) = 0 := by
  rw [blockOffset_add] at h ⊢
  rw [← add_assoc, ← mod_add_mod, h, mod_self]

theorem firstMessage_spec (hsize : 0 < pkt.size) :
    Holds (firstMessage p pkt) (fun m => Chunk p pkt.addr pkt.isWrite pkt.data 0 m ∧
      m.len ≤ pkt.size ∧
      (m.len = pkt.size ∨ blockOffset p (pkt.addr + BitVec.ofNat 64 m.len) = 0))
      (fun _ => False) := by
  have hoffset := blockOffset_lt (p := p) pkt.addr
  have hstart : pkt.addr = pkt.addr + BitVec.ofNat 64 0 := by simp
  unfold firstMessage
  dsimp only
  generalize hlen : (if blockOffset p pkt.addr + pkt.size ≤ getBlockSizeBytes p then pkt.size
    else getBlockSizeBytes p - blockOffset p pkt.addr) = len
  have hfits : 0 < len ∧ len ≤ pkt.size ∧ blockOffset p pkt.addr + len ≤ getBlockSizeBytes p ∧
      (len = pkt.size ∨ blockOffset p pkt.addr + len = getBlockSizeBytes p) := by
    split at hlen <;> omega
  obtain ⟨hpos, hle, hin, hend⟩ := hfits
  refine holds_bind.mpr ((firstDataBlk_spec hin).imp fun blk hblk => ?_)
  refine holds_pure.mpr ⟨?_, hle, hend.imp id fun h => ?_⟩
  · exact ⟨hstart, rfl, rfl, hpos, hin, fun h => absurd h (by decide),
      fun hw bytes hb j hj => (hblk hw bytes hb j hj).trans (by rw [zero_add])⟩
  · rw [hstart] at h
    simpa using blockOffset_next h

theorem nextMessage_spec
    (haligned : blockOffset p (request.startPaddr + BitVec.ofNat 64 request.bytesCompleted) = 0)
    (hlt : request.bytesCompleted < request.len)
    (hsource : request.write = true → request.data.isSome = true) :
    Holds (nextMessage p request) (fun m =>
      Chunk p request.startPaddr request.write request.data request.bytesCompleted m ∧
      request.bytesCompleted + m.len ≤ request.len ∧
      (request.bytesCompleted + m.len = request.len ∨ blockOffset p (request.startPaddr +
        BitVec.ofNat 64 (request.bytesCompleted + m.len)) = 0)) (fun _ => False) := by
  have hsize := getBlockSizeBytes_pos (p := p)
  unfold nextMessage
  refine holds_require_bind haligned ?_
  generalize hlen : (if request.len - request.bytesCompleted < getBlockSizeBytes p
    then request.len - request.bytesCompleted else getBlockSizeBytes p) = len
  have hfits : 0 < len ∧ request.bytesCompleted + len ≤ request.len ∧ len ≤ getBlockSizeBytes p ∧
      (request.bytesCompleted + len = request.len ∨ len = getBlockSizeBytes p) := by
    split at hlen <;> omega
  obtain ⟨hpos, hle, hin, hend⟩ := hfits
  refine holds_bind.mpr ((nextDataBlk_spec hin hsource).imp fun blk hblk => ?_)
  refine holds_pure.mpr ⟨?_, hle, hend.imp id fun h => ?_⟩
  · exact ⟨rfl, rfl, rfl, hpos, by rw [haligned, zero_add]; exact hin, fun _ => haligned,
      fun hw bytes hb j hj => by rw [haligned]; exact hblk hw bytes hb j hj⟩
  · exact blockOffset_next (by rw [haligned, zero_add]; exact h)

end Messages

/-- What has become of a request: the messages that were answered, and the one that was not yet. -/
structure Service where
  answered : List (SequencerMsg × Bytes) := []
  waiting : Option SequencerMsg := none

/-- A request in the table has one message that waits for its answer. -/
structure Serving (request : DMARequest) (service : Service) : Prop where
  ok : RequestOk p request
  served : Served p request.startPaddr request.write request.data request.bytesCompleted
    service.answered
  waiting : ∃ m, service.waiting = some m ∧
    Chunk p request.startPaddr request.write request.data request.bytesCompleted m ∧
    request.bytesIssued = request.bytesCompleted + m.len

section Answers

variable {p} {s} {address : Addr} {request : DMARequest} {answered : List (SequencerMsg × Bytes)}
  {m : SequencerMsg}

def finish (s : DMASequencer) (address : Addr) (request : DMARequest) : DMASequencer :=
  { s with
    outstandingCount := s.outstandingCount - 1
    requestTable := s.requestTable.erase address
    hits := s.hits ++ [{ request.pkt with data := request.data }] }

def proceed (s : DMASequencer) (address : Addr) (request : DMARequest) (m : SequencerMsg) :
    DMASequencer :=
  { s with
    requestTable := s.requestTable.insert address request
    mandatoryQueue := s.mandatoryQueue ++ [m] }

theorem RequestOk.data_isSome (h : RequestOk p request) (hlt : request.bytesIssued < request.len)
    (hw : request.write = true) : request.data.isSome = true := by
  refine (h.source hw).resolve_right fun hone => ?_
  have hpos := h.issued_pos
  have hrest := h.rest.resolve_left hlt.ne
  rw [blockOffset_add, mod_eq_of_lt (by omega)] at hrest
  omega

theorem advance_spec (hok : RequestOk p request)
    (hserved : Served p request.startPaddr request.write request.data request.bytesIssued answered)
    (hcount : s.outstandingCount ≤ p.maxOutstandingRequests) :
    Holds (s.advance p address request) (fun t =>
      request.len = request.bytesIssued ∧ t = s.finish address request ∨
      ∃ next m, t = s.proceed address next m ∧ Serving p next ⟨answered, some m⟩ ∧
        next.pkt = request.pkt) (fun _ => False) := by
  unfold advance
  refine holds_require_bind hcount ?_
  refine holds_ite.mpr ⟨fun hend => holds_pure.mpr (.inl ⟨hend, rfl⟩), fun hmore => ?_⟩
  have hlt : request.bytesIssued < request.len := lt_of_le_of_ne hok.issued_le (Ne.symm hmore)
  have hnext : Holds (nextMessage p { request with bytesCompleted := request.bytesIssued }) _ _ :=
    nextMessage_spec (hok.rest.resolve_left hlt.ne) hlt (hok.data_isSome hlt)
  refine holds_bind.mpr (hnext.imp fun m hm => holds_pure.mpr (.inr ⟨_, m, rfl, ?_, rfl⟩))
  obtain ⟨hchunk, hle, hrest⟩ := hm
  have hpos := hok.issued_pos
  exact ⟨⟨hok.start, hok.len, hok.write, hok.source, by dsimp only; omega, hle, hrest⟩, hserved,
    m, rfl, hchunk, rfl⟩

theorem Chunk.of_read {start : Addr} {write : Bool} {data : Option Bytes} {n : Nat}
    (h : Chunk p start write data n m) (hread : write = false) (data' : Option Bytes) :
    Chunk p start write data' n m :=
  { h with written := fun hw => by simp [hread] at hw }

theorem receive_spec {dblk : Bytes} (h : Serving p request ⟨answered, some m⟩)
    (hread : request.write = false) :
    Holds (receive p request dblk) (fun received => RequestOk p received ∧
      Served p received.startPaddr received.write received.data received.bytesIssued
        (answered ++ [(m, dblk)]) ∧ received.pkt = request.pkt) (fun _ => False) := by
  obtain ⟨hok, hserved, m', hm', hchunk, hissued⟩ := h
  obtain rfl := some.inj hm'
  have hlen : request.bytesIssued - request.bytesCompleted = m.len := by omega
  have hoffset : (if request.bytesCompleted = 0 then blockOffset p request.startPaddr else 0) =
      blockOffset p m.physicalAddress := by
    split
    · next hzero => rw [hchunk.physicalAddress, hzero, BitVec.add_zero]
    · next hne => rw [hchunk.aligned (Nat.pos_of_ne_zero hne)]
  unfold receive
  refine holds_require_bind hread ?_
  rw [hlen, hoffset]
  cases hdata : request.data with
  | none =>
    refine holds_pure.mpr ⟨hok, ?_, rfl⟩
    rw [hissued]
    exact Tiles.snoc (a := (m, dblk)) hserved
      ⟨hchunk, fun _ bytes hbytes => by simp [hdata] at hbytes⟩
  | some data =>
    refine holds_bind.mpr ((holds_getData hchunk.inside).imp fun src hsrc => holds_pure.mpr ?_)
    refine ⟨⟨hok.start, hok.len, hok.write, fun _ => .inl rfl, hok.issued_pos, hok.issued_le,
      hok.rest⟩, ?_, rfl⟩
    dsimp only
    rw [hissued]
    refine Tiles.snoc (a := (m, dblk)) (hserved.imp fun n a hle ha => ?_)
      ⟨hchunk.of_read hread _, fun _ bytes hbytes j hj => ?_⟩
    · refine ⟨ha.toChunk.of_read hread _, fun _ bytes hbytes j hj => ?_⟩
      rw [← some.inj hbytes, memcpy_before (by omega)]
      exact ha.landed hread data hdata j hj
    · rw [← some.inj hbytes, memcpy_at hj]
      exact hsrc j

theorem ack_spec (h : Serving p request ⟨answered, some m⟩) (hwrite : request.write = true)
    (dblk : Bytes) :
    Served p request.startPaddr request.write request.data request.bytesIssued
      (answered ++ [(m, dblk)]) := by
  obtain ⟨hok, hserved, m', hm', hchunk, hissued⟩ := h
  obtain rfl := some.inj hm'
  rw [hissued]
  exact Tiles.snoc (a := (m, dblk)) hserved ⟨hchunk, fun hread => by simp [hwrite] at hread⟩

end Answers

def callback (type : SequencerRequestType) (dblk : Bytes) (address : Addr) :
    Except DmaFailure DMASequencer :=
  match type with
  | .LD => s.dataCallback p dblk address
  | .ST => s.ackCallback p address

variable {p} {s}

theorem callback_spec {address : Addr} {request : DMARequest} {m : SequencerMsg}
    {answered : List (SequencerMsg × Bytes)} {dblk : Bytes}
    (hlookup : request ∈ s.requestTable.lookup address) (h : Serving p request ⟨answered, some m⟩)
    (hcount : s.outstandingCount ≤ p.maxOutstandingRequests) :
    Holds (s.callback p m.type dblk address) (fun t =>
      (∃ last, t = s.finish address last ∧ RequestOk p last ∧ last.pkt = request.pkt ∧
        Served p last.startPaddr last.write last.data last.len (answered ++ [(m, dblk)])) ∨
      ∃ next m', t = s.proceed address next m' ∧
        Serving p next ⟨answered ++ [(m, dblk)], some m'⟩ ∧ next.pkt = request.pkt)
      (fun _ => False) := by
  obtain ⟨-, -, m', hm', hchunk, -⟩ := id h
  obtain rfl := some.inj hm'
  cases hw : request.write with
  | false =>
    have htype : m.type = .LD := by rw [hchunk.type, hw]; rfl
    rw [htype, callback, dataCallback, mem_def.mp hlookup]
    refine holds_bind.mpr ((receive_spec h hw).imp fun received hr => ?_)
    obtain ⟨hok, hserved, hpkt⟩ := hr
    rw [issueNext, lookup_insert]
    refine Holds.imp (advance_spec (s := { s with
      requestTable := s.requestTable.insert address received }) hok hserved hcount) fun t ht => ?_
    rcases ht with ⟨hlen, rfl⟩ | ⟨next, m', rfl, hnext, hpkt'⟩
    · exact .inl ⟨received, by simp [finish, erase_insert_self], hok, hpkt, hlen ▸ hserved⟩
    · exact .inr ⟨next, m', by simp [proceed, insert_insert], hnext, hpkt'.trans hpkt⟩
  | true =>
    have htype : m.type = .ST := by rw [hchunk.type, hw]; rfl
    have hmem : address ∈ s.requestTable := lookup_isSome.mp (isSome_of_mem hlookup)
    rw [htype, callback, ackCallback]
    refine holds_require_bind hmem ?_
    rw [issueNext, mem_def.mp hlookup]
    refine (advance_spec h.ok (ack_spec h hw dblk) hcount).imp fun t ht => ?_
    rcases ht with ⟨hlen, rfl⟩ | ⟨next, m', rfl, hnext, hpkt⟩
    · exact .inl ⟨request, rfl, h.ok, rfl, hlen ▸ ack_spec h hw dblk⟩
    · exact .inr ⟨next, m', rfl, hnext, hpkt⟩

def Sound (p : DmaParams) (pkt : DmaPacket) : Prop :=
  0 < pkt.size ∧ (pkt.isWrite = true → pkt.data.isSome = true ∨
    blockOffset p pkt.addr + pkt.size ≤ getBlockSizeBytes p)

theorem makeRequest_spec {pkt : DmaPacket} (hpkt : Sound p pkt)
    (hcount : s.outstandingCount ≤ p.maxOutstandingRequests) :
    Holds (s.makeRequest p pkt) (fun r =>
      r.1 ≠ .Issued ∧ r.2 = s ∨
      r.1 = .Issued ∧ s.outstandingCount < p.maxOutstandingRequests ∧
        makeLineAddress p.blockSizeBits pkt.addr ∉ s.requestTable ∧
        ∃ request m, Serving p request ⟨[], some m⟩ ∧ request.pkt = pkt ∧
          r.2 = { s with
            requestTable := s.requestTable.insert (makeLineAddress p.blockSizeBits pkt.addr) request
            outstandingCount := s.outstandingCount + 1
            mandatoryQueue := s.mandatoryQueue ++ [m] }) (fun _ => False) := by
  unfold makeRequest
  refine holds_ite.mpr ⟨fun _ => .inl ⟨nofun, rfl⟩, fun hne => ?_⟩
  have hlt : s.outstandingCount < p.maxOutstandingRequests := lt_of_le_of_ne hcount hne
  refine holds_require_bind hlt ?_
  refine holds_ite.mpr ⟨fun _ => .inl ⟨nofun, rfl⟩, fun hfresh => ?_⟩
  refine holds_bind.mpr ((firstMessage_spec hpkt.1).imp fun m hm => holds_pure.mpr ?_)
  obtain ⟨hchunk, hle, hrest⟩ := hm
  refine .inr ⟨rfl, hlt, hfresh, ⟨pkt.addr, pkt.size, pkt.isWrite, 0, m.len, pkt.data, pkt⟩, m, ?_,
    rfl, rfl⟩
  exact ⟨⟨rfl, rfl, rfl, hpkt.2, hchunk.len_pos, hle, hrest⟩, .nil, m, rfl, hchunk,
    (zero_add _).symm⟩

end DMASequencer

/-- A sequencer whose messages are answered: the service of each request that is under way by its
line, the packets that were accepted, and those handed back with the service they had. -/
structure DmaRun where
  seq : DMASequencer := {}
  service : Addr → DMASequencer.Service := fun _ => {}
  accepted : List DmaPacket := []
  finished : List (DmaPacket × DMASequencer.Service) := []

/-- An answer is a callback with the line of the request, for its message that waits. -/
inductive DmaCall where
  | makeRequest (pkt : DmaPacket)
  | answer (line : Addr) (dblk : Bytes)

namespace DmaRun

open DMASequencer

variable (p : DmaParams)

def withSeq (r : DmaRun) (seq : DMASequencer) : DmaRun :=
  { r with seq := { seq with mandatoryQueue := [], hits := [] } }

def call (r : DmaRun) : DmaCall → Except DmaFailure DmaRun
  | .makeRequest pkt => do
    let (status, seq) ← r.seq.makeRequest p pkt
    if status = .Issued then
      let line := makeLineAddress p.blockSizeBits pkt.addr
      pure { r.withSeq seq with
        service := update r.service line ⟨[], seq.mandatoryQueue.head?⟩
        accepted := r.accepted ++ [pkt] }
    else pure (r.withSeq seq)
  | .answer line dblk =>
    match (r.service line).waiting with
    | none => pure r
    | some m => do
      let seq ← r.seq.callback p m.type dblk line
      let service := ⟨(r.service line).answered ++ [(m, dblk)], seq.mandatoryQueue.head?⟩
      pure { r.withSeq seq with
        service := update r.service line service
        finished := r.finished ++ seq.hits.map (·, service) }

def valid (r : DmaRun) : DmaCall → Prop
  | .makeRequest pkt => Sound p pkt
  | .answer line _ => (r.service line).waiting.isSome = true

def calls : Calls DmaRun DmaCall DmaFailure where
  valid := valid p
  call := call p

def outstanding (r : DmaRun) : List DmaPacket := r.seq.requestTable.entries.map (·.2.pkt)

structure Ok (r : DmaRun) : Prop where
  serving : ∀ line, ∀ request ∈ r.seq.requestTable.lookup line,
    line = makeLineAddress p.blockSizeBits request.startPaddr ∧
      Serving p request (r.service line)
  waiting : ∀ line, (r.service line).waiting.isSome = true → line ∈ r.seq.requestTable
  count : r.seq.outstandingCount = r.seq.requestTable.entries.length
  count_le : r.seq.outstandingCount ≤ p.maxOutstandingRequests
  queue : r.seq.mandatoryQueue = []
  hits : r.seq.hits = []
  finished : ∀ f ∈ r.finished, f.2.waiting = none ∧
    Served p f.1.addr f.1.isWrite f.1.data f.1.size f.2.answered
  packets : (r.accepted.map DmaPacket.header).Perm
    (r.finished.map (·.1.header) ++ r.outstanding.map DmaPacket.header)

variable {p} {r : DmaRun}

theorem ok_init : Ok p {} where
  serving := by simp
  waiting := by simp
  count := rfl
  count_le := zero_le _
  queue := rfl
  hits := rfl
  finished := by simp
  packets := .refl _

section

variable (h : Ok p r)
include h

theorem Ok.withSeq_self : r.withSeq r.seq = r := by
  have hseq : { r.seq with mandatoryQueue := [], hits := [] } = r.seq := by
    rw [← h.queue, ← h.hits]
  rw [withSeq, hseq]

theorem Ok.serving_insert {line : Addr} {request : DMARequest} {service : Service}
    (hline : line = makeLineAddress p.blockSizeBits request.startPaddr)
    (hserving : Serving p request service) (line' : Addr) (request' : DMARequest)
    (hmem : request' ∈ (r.seq.requestTable.insert line request).lookup line') :
    line' = makeLineAddress p.blockSizeBits request'.startPaddr ∧
      Serving p request' (update r.service line service line') := by
  rw [mem_lookup_insert] at hmem
  split at hmem
  · next heq =>
    subst heq hmem
    rw [update_self]
    exact ⟨hline, hserving⟩
  · next hne =>
    rw [update_of_ne hne]
    exact h.serving line' request' hmem

theorem Ok.waiting_insert {line line' : Addr} {request : DMARequest} {service : Service}
    (hw : (update r.service line service line').waiting.isSome = true) :
    line' ∈ r.seq.requestTable.insert line request := by
  rw [mem_insert]
  by_cases heq : line' = line
  · exact .inl heq
  · rw [update_of_ne heq] at hw
    exact .inr (h.waiting line' hw)

theorem Ok.makeRequest {pkt : DmaPacket} (hpkt : Sound p pkt) :
    Holds (r.call p (.makeRequest pkt)) (Ok p) (fun _ => False) := by
  unfold call
  refine holds_bind.mpr ((makeRequest_spec hpkt h.count_le).imp fun a ha => ?_)
  obtain ⟨status, seq⟩ := a
  rcases ha with ⟨hstatus, rfl⟩ | ⟨rfl, hlt, hfresh, request, m, hserving, rfl, rfl⟩
  · simp only [if_neg hstatus, h.withSeq_self]
    exact h
  · simp only [if_true, h.queue, nil_append, head?_cons]
    refine holds_pure.mpr ⟨h.serving_insert (by rw [hserving.ok.start]) hserving,
      fun _ hw => h.waiting_insert hw, ?_, hlt, rfl, rfl, h.finished, ?_⟩
    · simp only [withSeq, length_entries_insert hfresh, h.count]
    · simp only [withSeq, outstanding, entries_insert_of_notMem hfresh, map_append,
        map_cons, map_nil]
      exact (h.packets.append_right _).trans (by
        rw [append_assoc]
        exact (perm_append_comm).append_left _)

theorem Ok.answer {line : Addr} {dblk : Bytes} (hwaiting : (r.service line).waiting.isSome = true) :
    Holds (r.call p (.answer line dblk)) (Ok p) (fun _ => False) := by
  obtain ⟨m, hm⟩ := isSome_iff_exists.mp hwaiting
  have hmem := h.waiting line hwaiting
  obtain ⟨request, hrequest⟩ := isSome_iff_exists.mp (lookup_isSome.mpr hmem)
  obtain ⟨hline, hserving⟩ := h.serving line request hrequest
  have hservice : r.service line = ⟨(r.service line).answered, some m⟩ := by rw [← hm]
  rw [hservice] at hserving
  have hperm := entries_perm (mem_def.mpr hrequest)
  -- the packets, with the one of this request in front of the others in the table
  have hback := h.packets.trans (((hperm.map (·.2.pkt)).map DmaPacket.header).append_left _)
  simp only [call, hm]
  refine holds_bind.mpr ((callback_spec hrequest hserving h.count_le).imp fun seq hseq => ?_)
  refine holds_pure.mpr ?_
  rcases hseq with ⟨last, rfl, hok, hpkt, hserved⟩ | ⟨next, m', rfl, hnext, hpkt⟩
  · simp only [finish, h.queue, h.hits, head?_nil, nil_append, map_cons,
      map_nil]
    refine ⟨fun line' request' hmem' => ?_, fun line' hw => ?_, ?_,
      (sub_le _ _).trans h.count_le, rfl, rfl, ?_, ?_⟩
    · have hne : line' ≠ line := by
        rintro rfl
        simp [withSeq] at hmem'
      simp only [update_of_ne hne]
      exact h.serving line' request' (mem_lookup_of_erase hmem')
    · have hne : line' ≠ line := by
        rintro rfl
        simp at hw
      simp only [update_of_ne hne] at hw
      exact mem_erase.mpr ⟨hne, h.waiting line' hw⟩
    · simp only [withSeq, length_entries_erase hmem, h.count]
    · intro f hf
      rcases mem_append.mp hf with hold | hnew
      · exact h.finished f hold
      · obtain rfl := mem_singleton.mp hnew
        refine ⟨rfl, ?_⟩
        dsimp only
        rwa [← hok.start, ← hok.write, ← hok.len]
    · simp only [withSeq, outstanding, map_append, map_cons, map_nil,
        append_assoc, singleton_append] at hback ⊢
      rwa [← hpkt] at hback
  · simp only [proceed, h.queue, h.hits, nil_append, head?_cons, map_nil,
      append_nil]
    refine ⟨h.serving_insert ?_ hnext, fun _ hw => h.waiting_insert hw, ?_, h.count_le, rfl, rfl,
      h.finished, ?_⟩
    · rw [hline, hnext.ok.start, hpkt, hserving.ok.start]
    · simp only [withSeq, entries_insert, h.count]
      exact hperm.length_eq
    · simp only [withSeq, outstanding, entries_insert, map_cons] at hback ⊢
      rwa [hpkt]

theorem Ok.step {c : DmaCall} (hvalid : (calls p).valid r c) :
    Holds ((calls p).call r c) (Ok p) (fun _ => False) := by
  cases c with
  | makeRequest pkt => exact h.makeRequest hvalid
  | answer line dblk => exact h.answer hvalid

end

instance (pkt : DmaPacket) : Decidable (Sound p pkt) :=
  inferInstanceAs (Decidable (_ ∧ _))

instance (r : DmaRun) (c : DmaCall) : Decidable ((calls p).valid r c) :=
  match c with
  | .makeRequest pkt => inferInstanceAs (Decidable (Sound p pkt))
  | .answer line _ => inferInstanceAs (Decidable ((r.service line).waiting.isSome = true))

end DmaRun

end Drain
