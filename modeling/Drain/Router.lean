import Drain.Spin

/-! `Router::wakeup`: input and output units, the spin branches, the two stages
of switch allocation and the crossbar. -/

namespace Drain

open List

open Function (update)

namespace State

variable (net : Net)

def openPacket (r : Nat) (p : InPort) (f : Flit) (s : State) : Except Failure (Flit × State) := do
  require ((s.vcs p.link f.vc).vcState = .idle) .headAtBusyVc
  let s := s.on fun c => c.setVc p.link f.vc ((c.vcs p.link f.vc).setActive c.curCycle)
  let (outport, s) ← s.outportCompute net r f.route
  let op ← net.outportAt r outport
  pure ({ f with outport := outport, outportDir := op.dirn }, s)

def inputUnitWakeup (r : Nat) (s : State) (p : InPort) : Except Failure State :=
  if isReady (s.linkBuffer p.link) s.curCycle then do
    let (f, rest) ← getTopFlit (s.linkBuffer p.link)
    let s := s.on fun c => { c with linkBuffer := update c.linkBuffer p.link rest }
    let f := f.incrementHops
    let (f, s) ←
      if f.isHead then s.openPacket net r p f
      else do
        require ((s.vcs p.link f.vc).vcState = .active) .bodyAtIdleVc
        pure (f, s)
    let f := { f with stage := (.SA, s.curCycle + (net.routerLatency - 1)) }
    let s := s.on fun c => c.setVc p.link f.vc ((c.vcs p.link f.vc).insertFlit f)
    if net.routerLatency = 1 then pure s
    else pure (s.on (·.scheduleEvent (.router r) (net.routerLatency - 1)))
  else pure s

def receiveCredit (l : Link) (s : State) : Except Failure State :=
  if isReady (s.creditLinkBuffer l) s.curCycle then do
    let (t, rest) ← getTopFlit (s.creditLinkBuffer l)
    let s := s.on fun c => { c with creditLinkBuffer := update c.creditLinkBuffer l rest }
    let o ← (s.outvcState l t.vc).incrementCredit
    let o := if t.isFreeSignal then o.setState .idle s.curCycle else o
    pure (s.on (·.setOutVc l t.vc o))
  else pure s

def outputUnitWakeup (s : State) (p : OutPort) : Except Failure State := s.receiveCredit p.link

def readPorts (r : Nat) (s : State) : Except Failure State := do
  let s ← (net.inports r).foldlM (inputUnitWakeup net r) s
  (net.outports r).foldlM outputUnitWakeup s

end State

/-- The requests that SA-I makes and SA-II serves, `[outport][inport]`. They are
cleared at the end of every wakeup. -/
structure Requests where
  portRequests : Nat → Nat → Bool
  vcWinners : Nat → Nat → Nat

def Requests.none : Requests := ⟨fun _ _ => false, fun _ _ => 0⟩

def Requests.add (q : Requests) (outport inport invc : Nat) : Requests :=
  ⟨setEntry q.portRequests outport inport true, setEntry q.vcWinners outport inport invc⟩

def Requests.remove (q : Requests) (outport inport : Nat) : Requests :=
  { q with portRequests := setEntry q.portRequests outport inport false }

namespace State

variable (net : Net)

/-- The port to which `disallow_uturn` deflects a flit from direction `dirn`. -/
def disallowUturn (s : Core) (r : Nat) (dirn : PortDirection) :
    Except Failure (Nat × PortDirection) :=
  let deflect (first second : PortDirection) : Except Failure (Nat × PortDirection) :=
    match s.outportsDirn2idx r first with
    | some o => pure (o, first)
    | none => match s.outportsDirn2idx r second with
      | some o => pure (o, second)
      | none => throw .uturnStuck
  match dirn with
  | .East | .West => deflect .North .South
  | .North | .South => deflect .East .West
  | .Local | .Unknown => throw .uturnStuck

/-- SA-I marks a flit that asks to leave by the port it came from, and deflects
it when the crossbar has no u-turns. -/
def markUturn (r : Nat) (p : InPort) (invc : Nat) (s : State) : Except Failure State := do
  let f ← peekTopFlit (s.vcs p.link invc).inputBuffer
  if f.outportDir = p.dirn ∧ p.dirn ≠ .Local then
    let s := s.on fun c =>
      c.setVc p.link invc ((c.vcs p.link invc).mapTop ({ · with requestUturn := true }))
    let s := { s with stats := { s.stats with
      totalUturnRequest := s.stats.totalUturnRequest + 1 } }
    if net.uTurnCrossbar = 0 then
      let (o, d) ← disallowUturn s.toCore r p.dirn
      let s := { s with stats := { s.stats with totalMisroute := s.stats.totalMisroute + 1 } }
      pure (s.on fun c => c.setVc p.link invc
        ((c.vcs p.link invc).mapTop ({ · with outport := o, outportDir := d })))
    else pure s
  else pure (s.on fun c =>
    c.setVc p.link invc ((c.vcs p.link invc).mapTop ({ · with requestUturn := false })))

def getVnet (invc : Nat) : Except Failure Nat := do
  require (invc / net.vcsPerVnet < net.virtualNetworks) .vnetRange
  pure (invc / net.vcsPerVnet)

def hasFreeVc (s : Core) (l : Link) (vnet : Nat) : Bool :=
  (range net.vcsPerVnet).any fun i => s.isVcIdle l (vnet * net.vcsPerVnet + i)

/-- An earlier flit of the VC's virtual network asks for the same output port. -/
def enqueuedEarlier (s : Core) (p : InPort) (invc outport vnet : Nat) : Except Failure Bool :=
  (range net.vcsPerVnet).anyM fun i => do
    let v := s.vcs p.link (vnet * net.vcsPerVnet + i)
    let ready ← v.needStage .SA s.curCycle
    pure (ready && v.outputPort == some outport &&
      v.enqueueTime < (s.vcs p.link invc).enqueueTime)

-- called with `outvc = -1` only, so the branch for a packet that has its VC is never taken
def sendAllowed (s : Core) (p : InPort) (invc : Nat) (op : OutPort) (outport : Nat) :
    Except Failure Bool := do
  let vnet ← getVnet net invc
  if hasFreeVc net s op.link vnet then
    if net.isVNetOrdered vnet then
      let earlier ← enqueuedEarlier net s p invc outport vnet
      pure (!earlier)
    else pure true
  else pure false

def nextIndex (i bound : Nat) : Nat := if bound ≤ i + 1 then 0 else i + 1

/-- SA-I at one input port: the first VC from `invc` on that may send makes a request. -/
def arbitrateInport (r : Nat) (p : InPort) (inport : Nat) :
    Nat → Nat → State × Requests → Except Failure (State × Requests)
  | 0, _, t => pure t
  | n + 1, invc, (s, q) => do
    if ← (s.vcs p.link invc).needStage .SA s.curCycle then
      let s ← s.markUturn net r p invc
      let f ← peekTopFlit (s.vcs p.link invc).inputBuffer
      let op ← net.outportAt r f.outport
      if ← sendAllowed net s.toCore p invc op f.outport then
        pure (s, q.add f.outport inport invc)
      else arbitrateInport r p inport n (nextIndex invc net.numVcs) (s, q)
    else arbitrateInport r p inport n (nextIndex invc net.numVcs) (s, q)

def arbitrateInports (r : Nat) (s : State) : Except Failure (State × Requests) :=
  if s.halt r then pure (s, .none)
  else (net.inports r).zipIdx.foldlM (fun t p =>
    arbitrateInport net r p.1 p.2 net.numVcs (t.1.roundRobinInvc r p.2) t) (s, .none)

/-- `vc_allocate`: the first idle VC of the virtual network. -/
def selectFreeVc (s : Core) (l : Link) (vnet : Nat) : Option Nat :=
  (((range net.vcsPerVnet).map (vnet * net.vcsPerVnet + ·)).find? fun vc => s.isVcIdle l vc)

def vcAllocate (p : InPort) (invc : Nat) (op : OutPort) (s : State) :
    Except Failure (Nat × State) := do
  let vnet ← getVnet net invc
  match selectFreeVc net s.toCore op.link vnet with
  | none => throw .noFreeVc
  | some vc =>
    let s := s.on fun c => c.setOutVc op.link vc ((c.outvcState op.link vc).setState .active c.curCycle)
    pure (vc, s.on fun c => c.setVc p.link invc { c.vcs p.link invc with outputVc := some vc })

def incrementCredit (l : Link) (invc : Nat) (freeSignal : Bool) (s : Core) : Core :=
  { s with creditQueue :=
      update s.creditQueue l (bufferInsert ⟨invc, freeSignal, s.curCycle⟩ (s.creditQueue l)) }
    |>.scheduleEvent (.creditLink l) 1

def countUturn (p : InPort) (f : Flit) (s : State) : Except Failure State :=
  if f.outportDir = p.dirn ∧ p.dirn ≠ .Local then do
    require (f.requestUturn = true) .uturnNotRequested
    pure { s with stats := { s.stats with successUturn := s.stats.successUturn + 1 } }
  else pure s

/-- SA-II grants `outport` to the VC `invc` of `inport`. -/
def grantOutport (r : Nat) (op : OutPort) (outport : Nat) (p : InPort) (inport invc : Nat)
    (s : State) : Except Failure State := do
  let s := { s with
    roundRobinInvc :=
      setEntry s.roundRobinInvc r inport (nextIndex (s.roundRobinInvc r inport) net.numVcs) }
  let (outvc, s) ←
    match (s.vcs p.link invc).outputVc with
    | some vc => pure (vc, s)
    | none => s.vcAllocate net p invc op
  let (f, rest) ← getTopFlit (s.vcs p.link invc).inputBuffer
  let s ← s.countUturn p f
  let f := { f with
    requestUturn := if f.outportDir = p.dirn ∧ p.dirn ≠ .Local then false else f.requestUturn,
    outport := outport, outportDir := op.dirn, vc := outvc, stage := (.ST, s.curCycle) }
  let o ← (s.outvcState op.link outvc).decrementCredit
  let s := s.on fun c => { c.setOutVc op.link outvc o with
    switchBuffer :=
      setEntry c.switchBuffer r inport (bufferInsert f (c.switchBuffer r inport)) }
  let s := s.on fun c => c.setVc p.link invc { c.vcs p.link invc with inputBuffer := rest }
  let s ←
    if f.isTail then do
      require (¬isReady rest s.curCycle) .vcNotEmpty
      let s := s.on fun c => c.setVc p.link invc ((c.vcs p.link invc).setIdle c.curCycle)
      pure (s.on (incrementCredit p.link invc true))
    else pure (s.on (incrementCredit p.link invc false))
  pure { s with
    roundRobinInport := setEntry s.roundRobinInport r outport
      (nextIndex (s.roundRobinInport r outport) (net.inports r).length) }

/-- SA-II at one output port: the first request from `inport` on is granted. -/
def arbitrateOutport (r : Nat) (op : OutPort) (outport : Nat) :
    Nat → Nat → State × Requests → Except Failure (State × Requests)
  | 0, _, t => pure t
  | n + 1, inport, (s, q) =>
    if q.portRequests outport inport then do
      let p ← net.inportAt r inport
      let s ← s.grantOutport net r op outport p inport (q.vcWinners outport inport)
      pure (s, q.remove outport inport)
    else arbitrateOutport r op outport n (nextIndex inport (net.inports r).length) (s, q)

def arbitrateOutports (r : Nat) (t : State × Requests) : Except Failure State := do
  if t.1.halt r then pure t.1
  else
    let t ← (net.outports r).zipIdx.foldlM (fun t op =>
      arbitrateOutport net r op.1 op.2 (net.inports r).length
        (t.1.roundRobinInport r op.2) t) t
    pure t.1

def checkForWakeup (r : Nat) (s : State) : Except Failure State := do
  let ready ← (net.inports r).anyM fun p =>
    (range net.numVcs).anyM fun vc => (s.vcs p.link vc).needStage .SA (s.curCycle + 1)
  if ready then pure (s.on (·.scheduleEvent (.router r) 1)) else pure s

def switchAllocatorWakeup (r : Nat) (s : State) : Except Failure State := do
  let t ← s.arbitrateInports net r
  let s ← arbitrateOutports net r t
  s.checkForWakeup net r

def insertFlit (l : Link) (f : Flit) (s : Core) : Core :=
  { s with outBuffer := update s.outBuffer l (bufferInsert f (s.outBuffer l)) }
    |>.scheduleEvent (.link l) 1

def crossbarInport (r : Nat) (s : State) (inport : Nat) : Except Failure State :=
  if isReady (s.switchBuffer r inport) s.curCycle then do
    let (f, rest) ← getTopFlit (s.switchBuffer r inport)
    if f.isStage .ST s.curCycle then
      let op ← net.outportAt r f.outport
      let s := s.on fun c => { c with switchBuffer := setEntry c.switchBuffer r inport rest }
      pure (s.on (insertFlit op.link
        { f with stage := (.LT, s.curCycle + 1), time := s.curCycle + 1 }))
    else pure s
  else pure s

def crossbarWakeup (r : Nat) (s : State) : Except Failure State :=
  (range (net.inports r).length).foldlM (crossbarInport net r) s

def routerWakeup (asserts : Bool) (r : Nat) (s : State) : Except Failure State := do
  let s ← s.readPorts net r
  let s ← if net.spin then s.spinStage net asserts r else pure s
  let s ← s.switchAllocatorWakeup net r
  s.crossbarWakeup net r

end State

end Drain
