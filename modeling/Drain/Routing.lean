import Drain.Network

/-! Route computation (`RoutingUnit.cc`) and the mesh arithmetic of
`GarnetNetwork::get_upstream*`. -/

namespace Drain

section Table

def matchesEntry (msgDestination : NetDest) (p : OutPort) : Bool :=
  intersectionIsNotEmpty msgDestination p.routingTableEntry

def minWeight (ports : List OutPort) (msgDestination : NetDest) : Nat :=
  ports.foldl (fun m p => if matchesEntry msgDestination p && p.weight ≤ m then p.weight else m)
    infiniteTime

def outputLinkCandidates (ports : List OutPort) (msgDestination : NetDest) : List Nat :=
  (ports.zipIdx.filter fun p =>
    matchesEntry msgDestination p.1 && p.1.weight == minWeight ports msgDestination).map Prod.snd

def lookupRoutingTablePrefOutport (ports : List OutPort) (msgDestination : NetDest) :
    Except Failure (List Nat) := do
  require (outputLinkCandidates ports msgDestination ≠ []) .noRoute
  pure (outputLinkCandidates ports msgDestination)

def mostFree (numFreeVCs : Nat → Nat) (candidate : Nat) : List Nat → Nat
  | [] => candidate
  | c :: cs => mostFree numFreeVCs (if numFreeVCs candidate < numFreeVCs c then c else candidate) cs

def lookupRoutingTable (ports : List OutPort) (numFreeVCs : Nat → Nat) (msgDestination : NetDest) :
    Except Failure Nat := do
  match ← lookupRoutingTablePrefOutport ports msgDestination with
  | [] => throw .noRoute
  | c :: cs => pure (mostFree numFreeVCs c cs)

end Table

namespace Net

variable (net : Net)

def getUpstreamId (inportDir : PortDirection) (myId : Nat) : Except Failure Int :=
  match inportDir with
  | .East => pure (myId + 1)
  | .West => pure (myId - 1)
  | .North => pure (myId + net.numCols)
  | .South => pure (myId - net.numCols)
  | .Local => pure myId
  | .Unknown => throw .unknownDirection

def getUpstreamrouter (inportDir : PortDirection) (id : Nat) : Except Failure (Option Nat) := do
  let routerId ← net.getUpstreamId inportDir id
  if routerId < 0 ∨ (net.numRouters : Int) ≤ routerId then pure none
  else pure (some routerId.toNat)

def getUpstreamOutportDirn (inportDir : PortDirection) : Except Failure PortDirection :=
  match inportDir with
  | .Local => throw .spinLocal
  | d => pure d.opposite

def computeHopsRemaining (r destRouter : Nat) : Int :=
  ((destRouter % net.numCols : Nat) - (r % net.numCols : Nat) : Int).natAbs +
    ((destRouter / net.numCols : Nat) - (r / net.numCols : Nat) : Int).natAbs

end Net

namespace Core

variable (s : Core) (net : Net)

def isVcIdle (l : Link) (vc : Nat) : Bool := (s.outvcState l vc).isInState .idle s.curCycle

def getNumFreeVCs (l : Link) (vnet : Nat) : Nat :=
  (List.range net.vcsPerVnet).countP fun i => s.isVcIdle l (vnet * net.vcsPerVnet + i)

def lookupTable (r : Nat) (route : RouteInfo) : Except Failure Nat :=
  lookupRoutingTable (net.outports r)
    (fun o => ((net.outports r)[o]?.map fun p => s.getNumFreeVCs net p.link route.vnet).getD 0)
    route.netDest

/-- `Router::get_numFreeVC` looks at the first `m_vc_per_vnet` VCs only. -/
def getNumFreeVC (r : Nat) (dirn : PortDirection) : Except Failure Nat := do
  let p ← net.inportAt r (net.inportsDirn2idx r dirn)
  require (dirn = p.dirn) .wrongDirection
  pure ((List.range net.vcsPerVnet).countP fun vc => (s.vcs p.link vc).inputBuffer.isEmpty)

def numFreeVCOf (r : Nat) (dirn : PortDirection) : Except Failure Nat := do
  match ← net.getUpstreamrouter dirn r with
  | none => throw .nullRouter
  | some r' => s.getNumFreeVC net r' dirn.opposite

/-- The direction with more free VCs; `rand` decides a tie. -/
def freerDirection (r : Nat) (dx dy : PortDirection) (rand : Bool) :
    Except Failure PortDirection := do
  let freeX ← s.numFreeVCOf net r dx
  let freeY ← s.numFreeVCOf net r dy
  pure (if freeY < freeX then dx else if freeX < freeY then dy else if rand then dx else dy)

end Core

section Directions

variable (numCols myId destId : Nat)

def xDirn : PortDirection := if myId % numCols ≤ destId % numCols then .East else .West

def yDirn : PortDirection := if myId / numCols ≤ destId / numCols then .North else .South

def noXHops : Prop := destId % numCols = myId % numCols

def noYHops : Prop := destId / numCols = myId / numCols

instance : Decidable (noXHops numCols myId destId) := inferInstanceAs (Decidable (_ = _))

instance : Decidable (noYHops numCols myId destId) := inferInstanceAs (Decidable (_ = _))

end Directions

namespace Core

variable (s : Core) (net : Net) (r destRouter : Nat)

def directionXY : Except Failure PortDirection := do
  require (¬(noXHops net.numCols r destRouter ∧ noYHops net.numCols r destRouter)) .noHops
  if ¬noXHops net.numCols r destRouter then pure (xDirn net.numCols r destRouter)
  else pure (yDirn net.numCols r destRouter)

/-- The part that all the other algorithms share: a straight way is taken. -/
def directionOr (choice : Except Failure PortDirection) : Except Failure PortDirection := do
  require (¬(noXHops net.numCols r destRouter ∧ noYHops net.numCols r destRouter)) .noHops
  if noXHops net.numCols r destRouter then pure (yDirn net.numCols r destRouter)
  else if noYHops net.numCols r destRouter then pure (xDirn net.numCols r destRouter)
  else choice

def directionRandom (rand : Bool) : Except Failure PortDirection :=
  directionOr net r destRouter
    (pure (if rand then xDirn net.numCols r destRouter else yDirn net.numCols r destRouter))

def directionAdaptRand (rand : Bool) : Except Failure PortDirection :=
  directionOr net r destRouter
    (s.freerDirection net r (xDirn net.numCols r destRouter) (yDirn net.numCols r destRouter) rand)

def directionWestFirst (rand : Bool) : Except Failure PortDirection :=
  directionOr net r destRouter
    (if xDirn net.numCols r destRouter = .West then pure .West
    else pure (if rand then .East else yDirn net.numCols r destRouter))

def directionAdaptWestFirst (rand : Bool) : Except Failure PortDirection :=
  directionOr net r destRouter
    (if xDirn net.numCols r destRouter = .West then pure .West
    else s.freerDirection net r .East (yDirn net.numCols r destRouter) rand)

end Core

namespace State

def rand (s : State) : Bool := s.random 0 % 2 = 1

def skipRandom (s : State) : State := { s with random := fun i => s.random (i + 1) }

-- `operator[]` on a direction without a port inserts index 0
def outportIdx (s : State) (r : Nat) (d : PortDirection) : Nat × State :=
  match s.outportsDirn2idx r d with
  | some o => (o, s)
  | none => (0, s.on fun c =>
      { c with outportsDirn2idx := setEntry c.outportsDirn2idx r d (some 0) })

def outportComputeXY (net : Net) (r : Nat) (route : RouteInfo) (s : State) :
    Except Failure (Nat × State) := do
  pure (s.outportIdx r (← Core.directionXY net r route.destRouter))

-- the random number is only drawn where both directions are productive
def outportComputeRandom (net : Net) (r : Nat) (route : RouteInfo) (s : State) :
    Except Failure (Nat × State) := do
  let d ← Core.directionRandom net r route.destRouter s.rand
  if noXHops net.numCols r route.destRouter ∨ noYHops net.numCols r route.destRouter then
    pure (s.outportIdx r d)
  else pure (s.skipRandom.outportIdx r d)

def outportComputeAdaptRand (net : Net) (r : Nat) (route : RouteInfo) (s : State) :
    Except Failure (Nat × State) := do
  let d ← s.directionAdaptRand net r route.destRouter s.rand
  if noXHops net.numCols r route.destRouter ∨ noYHops net.numCols r route.destRouter then
    pure (s.outportIdx r d)
  else pure (s.skipRandom.outportIdx r d)

def outportComputeWestFirst (net : Net) (r : Nat) (route : RouteInfo) (s : State) :
    Except Failure (Nat × State) := do
  pure (s.skipRandom.outportIdx r (← Core.directionWestFirst net r route.destRouter s.rand))

def outportComputeAdaptWestFirst (net : Net) (r : Nat) (route : RouteInfo) (s : State) :
    Except Failure (Nat × State) := do
  pure (s.skipRandom.outportIdx r (← s.directionAdaptWestFirst net r route.destRouter s.rand))

def outportComputeTable (net : Net) (r : Nat) (route : RouteInfo) (s : State) :
    Except Failure (Nat × State) := do
  pure (← s.lookupTable net r route, s)

def outportCompute (net : Net) (r : Nat) (route : RouteInfo) (s : State) :
    Except Failure (Nat × State) :=
  if route.destRouter = r then s.outportComputeTable net r route
  else match net.routingAlgorithm with
    | .table => s.outportComputeTable net r route
    | .xy => s.outportComputeXY net r route
    | .random => s.outportComputeRandom net r route
    | .adaptRand => s.outportComputeAdaptRand net r route
    | .westFirst => s.outportComputeWestFirst net r route
    | .adaptWestFirst => s.outportComputeAdaptWestFirst net r route
    | .custom => throw .customRouting
    | .other => s.outportComputeTable net r route

end State

end Drain
