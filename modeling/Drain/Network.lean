import Drain.Lib.Holds
import Drain.Topology

/-! The configuration of a mesh network and its state: virtual channels, credit
counters, buffers, links and the pending wakeups of every consumer. -/

namespace Drain

open Function (update)

def infiniteTime : Nat := 10000

inductive RoutingAlgorithm where
  | table | xy | random | adaptRand | westFirst | adaptWestFirst | custom | other
  deriving DecidableEq, Repr

inductive NiInj where
  | rr | fcfs | other
  deriving DecidableEq, Repr

structure SpinStruct where
  routerId : Nat
  inportDir : PortDirection
  deriving DecidableEq, Repr

def gridStep (numCols a : Nat) : PortDirection → Nat → Prop
  | .East, b => b = a + 1 ∧ a % numCols + 1 < numCols
  | .West, b => a = b + 1 ∧ b % numCols + 1 < numCols
  | .North, b => b = a + numCols
  | .South, b => a = b + numCols
  | .Local, _ => False
  | .Unknown, _ => False

instance (numCols a : Nat) (d : PortDirection) (b : Nat) : Decidable (gridStep numCols a d b) :=
  match d with
  | .East => inferInstanceAs (Decidable (b = a + 1 ∧ a % numCols + 1 < numCols))
  | .West => inferInstanceAs (Decidable (a = b + 1 ∧ b % numCols + 1 < numCols))
  | .North => inferInstanceAs (Decidable (b = a + numCols))
  | .South => inferInstanceAs (Decidable (a = b + numCols))
  | .Local => inferInstanceAs (Decidable False)
  | .Unknown => inferInstanceAs (Decidable False)

def PortDirection.opposite : PortDirection → PortDirection
  | .East => .West
  | .West => .East
  | .North => .South
  | .South => .North
  | .Local => .Local
  | .Unknown => .Unknown

/-- A mesh network: every internal link joins two neighbours of a grid and is
labelled by its direction. Links may be missing, and several nodes may share a
router. The ports are those that `createLinks` makes. -/
structure Net where
  topology : Topology
  numRows : Nat
  numCols : Nat
  inports : Nat → List InPort
  outports : Nat → List OutPort
  virtualNetworks : Nat
  vcsPerVnet : Nat
  buffersPerDataVc : Nat
  buffersPerCtrlVc : Nat
  isDataVnet : Nat → Bool
  isVNetOrdered : Nat → Bool
  routingAlgorithm : RoutingAlgorithm
  routerLatency : Nat
  linkLatency : Nat
  spin : Bool
  spinThrshld : Nat
  spinMult : Nat
  drainAllVc : Nat
  uTurnCrossbar : Int
  injSingleVnet : Int
  niInj : NiInj
  spinRing : List SpinStruct
  rows_mul_cols : numRows * numCols = topology.numRouters
  numRouters_pos : 0 < topology.numRouters
  grid : ∀ {a b e}, topology.intLink a b = some e →
    gridStep numCols a e.srcOutport b ∧ e.dstInport = e.srcOutport.opposite
  inports_eq : ∀ r < topology.numRouters, inports r = topology.inports r
  outports_eq : ∀ r < topology.numRouters, outports r = topology.outports r
  vcsPerVnet_pos : 0 < vcsPerVnet
  buffers_pos : 0 < buffersPerDataVc ∧ 0 < buffersPerCtrlVc
  routerLatency_pos : 0 < routerLatency
  linkLatency_pos : 0 < linkLatency
  spinThrshld_pos : 0 < spinThrshld

namespace Net

variable (net : Net)

def numRouters : Nat := net.topology.numRouters

def nodes : Nat := net.topology.nodes

def extRouter : Nat → Nat := net.topology.extRouter

def numVcs : Nat := net.virtualNetworks * net.vcsPerVnet

def inportAt (r i : Nat) : Except Failure InPort :=
  match (net.inports r)[i]? with
  | some p => .ok p
  | none => .error .portRange

def outportAt (r o : Nat) : Except Failure OutPort :=
  match (net.outports r)[o]? with
  | some p => .ok p
  | none => .error .portRange

-- a later port of the same direction overwrites the entry of an earlier one
def inportsDirn2idx (r : Nat) (d : PortDirection) : Nat :=
  (((net.inports r).zipIdx.filter fun p => p.1.dirn == d).getLast?.map Prod.snd).getD 0

def outportsDirn2idx (r : Nat) (d : PortDirection) : Option Nat :=
  ((net.outports r).zipIdx.filter fun p => p.1.dirn == d).getLast?.map Prod.snd

def networkInports : List SpinStruct :=
  (List.range net.numRouters).flatMap fun r =>
    ((net.inports r).filter fun p => p.dirn ≠ .Local).map fun p => ⟨r, p.dirn⟩

/-- The ring is closed and lists every such port once. -/
structure RingOk : Prop where
  closed : net.spinRing ≠ [] ∧ net.spinRing.getLast? = net.spinRing.head?
  ports : net.spinRing.dropLast.Perm net.networkInports

def maxCreditCount (vc : Nat) : Nat :=
  if net.isDataVnet (vc / net.vcsPerVnet) then net.buffersPerDataVc else net.buffersPerCtrlVc

theorem maxCreditCount_pos (vc : Nat) : 0 < net.maxCreditCount vc := by
  unfold maxCreditCount
  split
  · exact net.buffers_pos.1
  · exact net.buffers_pos.2

end Net

structure VirtualChannel where
  inputBuffer : List Flit
  vcState : VcState
  stateTime : Nat
  outputPort : Option Nat
  enqueueTime : Nat
  outputVc : Option Nat
  deriving DecidableEq, Repr

namespace VirtualChannel

def new : VirtualChannel := ⟨[], .idle, 0, none, infiniteTime, none⟩

def setIdle (v : VirtualChannel) (curTime : Nat) : VirtualChannel :=
  { v with vcState := .idle, stateTime := curTime, enqueueTime := infiniteTime
           outputPort := none, outputVc := none }

def setActive (v : VirtualChannel) (curTime : Nat) : VirtualChannel :=
  { v with vcState := .active, stateTime := curTime, enqueueTime := curTime }

def insertFlit (v : VirtualChannel) (f : Flit) : VirtualChannel :=
  { v with inputBuffer := bufferInsert f v.inputBuffer }

def mapTop (v : VirtualChannel) (g : Flit → Flit) : VirtualChannel :=
  { v with inputBuffer := v.inputBuffer.modifyHead g }

def needStage (v : VirtualChannel) (stage : FlitStage) (time : Nat) : Except Failure Bool :=
  if isReady v.inputBuffer time then do
    require (v.vcState = .active ∧ v.stateTime ≤ time) .stageOfIdleVc
    let f ← peekTopFlit v.inputBuffer
    pure (f.isStage stage time)
  else pure false

end VirtualChannel

structure OutVcState where
  time : Nat
  vcState : VcState
  creditCount : Int
  maxCreditCount : Int
  deriving DecidableEq, Repr

namespace OutVcState

def new (maxCredits : Nat) : OutVcState := ⟨0, .idle, maxCredits, maxCredits⟩

def isInState (o : OutVcState) (state : VcState) (requestTime : Nat) : Bool :=
  o.vcState == state && o.time ≤ requestTime

def setState (o : OutVcState) (state : VcState) (time : Nat) : OutVcState :=
  { o with vcState := state, time := time }

def hasCredit (o : OutVcState) : Bool := 0 < o.creditCount

def incrementCredit (o : OutVcState) : Except Failure OutVcState := do
  require (o.creditCount + 1 ≤ o.maxCreditCount) .creditAboveMax
  pure { o with creditCount := o.creditCount + 1 }

def decrementCredit (o : OutVcState) : Except Failure OutVcState := do
  require (0 ≤ o.creditCount - 1) .creditBelowZero
  pure { o with creditCount := o.creditCount - 1 }

end OutVcState

inductive Consumer where
  | router (r : Nat)
  | ni (n : Nat)
  | link (l : Link)
  | creditLink (l : Link)
  deriving DecidableEq, Repr

/-- The wakeups of one consumer: those still to come, and the set of ticks by
which `Consumer` recognises a redundant request. -/
structure Agenda where
  events : List Nat
  scheduledWakeups : List Nat
  deriving DecidableEq, Repr

namespace Agenda

-- a request for a tick that is already in the set is dropped
def schedule (curCycle t : Nat) (a : Agenda) : Agenda where
  events := if t ∈ a.scheduledWakeups then a.events else t :: a.events
  scheduledWakeups :=
    (if t ∈ a.scheduledWakeups then a.scheduledWakeups else t :: a.scheduledWakeups).filter
      (curCycle ≤ ·)

def pop (curCycle : Nat) (a : Agenda) : Agenda :=
  { a with events := a.events.erase curCycle }

end Agenda

structure Message where
  dests : List Nat
  arrival : Nat
  deriving DecidableEq, Repr

structure Delivery where
  node : Nat
  vnet : Nat
  flit : Flit
  deriving DecidableEq, Repr

/-- Everything that flits, credits, halting and wakeups depend on. What the code
keeps in the two units at the ends of a link is indexed by that link: `vcs` and
`creditQueue` are the receiver's, `outvcState` and `outBuffer` the sender's. For
an `extIn` link the sender is the network interface (`m_out_vc_state`,
`outFlitQueue`); for an `extOut` link `creditQueue` is its `outCreditQueue`.
`haltLog` and `drainLog` record when the network was halted and drained. -/
structure Core where
  curCycle : Nat
  lock : Option Nat
  halt : Nat → Bool
  vcs : Link → Nat → VirtualChannel
  creditQueue : Link → List Credit
  outvcState : Link → Nat → OutVcState
  outBuffer : Link → List Flit
  linkBuffer : Link → List Flit
  creditLinkBuffer : Link → List Credit
  switchBuffer : Nat → Nat → List Flit
  inNode : Nat → Nat → List Message
  vcAllocator : Nat → Nat → Nat
  niOutVcs : Nat → Nat → List Flit
  stallQueue : Nat → List Flit
  outportsDirn2idx : Nat → PortDirection → Option Nat
  agenda : Consumer → Agenda
  nextPtr : Nat
  delivered : List Delivery
  haltLog : List Nat
  drainLog : List Nat

structure Stats where
  totalSpins : Nat := 0
  bubble : Nat := 0
  fwdProgress : Nat := 0
  misroute : Nat := 0
  totalMisroute : Int := 0
  numDrain : Nat := 0
  totalUturnRequest : Nat := 0
  successUturn : Nat := 0

structure State extends Core where
  spinFlit : Nat → Option Flit
  random : Nat → Nat
  roundRobinInvc : Nat → Nat → Nat
  roundRobinInport : Nat → Nat → Nat
  vcBusyCounter : Nat → Nat → Nat
  vcRoundRobin : Nat → Nat
  niOutVcsEnqueueTime : Nat → Nat → Nat
  stallCount : Nat → Nat → Int
  stats : Stats

def State.init (net : Net) (random : Nat → Nat) : State where
  curCycle := 0
  lock := none
  halt := fun _ => false
  vcs := fun _ _ => .new
  creditQueue := fun _ => []
  outvcState := fun _ vc => .new (net.maxCreditCount vc)
  outBuffer := fun _ => []
  linkBuffer := fun _ => []
  creditLinkBuffer := fun _ => []
  switchBuffer := fun _ _ => []
  inNode := fun _ _ => []
  vcAllocator := fun _ _ => 0
  niOutVcs := fun _ _ => []
  stallQueue := fun _ => []
  outportsDirn2idx := net.outportsDirn2idx
  agenda := fun _ => ⟨[], []⟩
  nextPtr := 0
  delivered := []
  haltLog := []
  drainLog := []
  spinFlit := fun _ => none
  random := random
  roundRobinInvc := fun _ _ => 0
  roundRobinInport := fun _ _ => 0
  vcBusyCounter := fun _ _ => 0
  vcRoundRobin := fun _ => 0
  niOutVcsEnqueueTime := fun _ _ => infiniteTime
  stallCount := fun _ _ => 0
  stats := {}

namespace Core

def events (s : Core) (c : Consumer) : List Nat := (s.agenda c).events

def scheduleEventAbsolute (s : Core) (c : Consumer) (t : Nat) : Core :=
  { s with agenda := update s.agenda c ((s.agenda c).schedule s.curCycle t) }

def scheduleEvent (s : Core) (c : Consumer) (delta : Nat) : Core :=
  s.scheduleEventAbsolute c (s.curCycle + delta)

def scheduleAllWakeup (net : Net) (k : Nat) (s : Core) : Core :=
  { s with agenda := fun c =>
      match c with
      | .router r =>
        if r < net.numRouters then (s.agenda c).schedule s.curCycle (s.curCycle + k)
        else s.agenda c
      | _ => s.agenda c }

def setHalt (net : Net) (val : Bool) (s : Core) : Core :=
  { s with halt := fun r => if r < net.numRouters then val else s.halt r }

def setVc (s : Core) (l : Link) (vc : Nat) (v : VirtualChannel) : Core :=
  { s with vcs := setEntry s.vcs l vc v }

def setOutVc (s : Core) (l : Link) (vc : Nat) (o : OutVcState) : Core :=
  { s with outvcState := setEntry s.outvcState l vc o }

end Core

def State.on (s : State) (g : Core → Core) : State := { s with toCore := g s.toCore }

end Drain
