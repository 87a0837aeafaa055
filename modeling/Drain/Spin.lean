import Drain.Routing

/-! The drain: `GarnetNetwork::doSpin` rotates the flits of one VC index along
the spin ring, and the spin branches of `Router::wakeup` decide when to halt the
network, when to drain it and when to release it. -/

namespace Drain

open List Core

open Function (update)

namespace Net

variable (net : Net)

def ringAt (idx : Nat) : Except Failure SpinStruct :=
  match net.spinRing[idx]? with
  | some e => .ok e
  | none => .error .portRange

def ringPort (e : SpinStruct) : Except Failure InPort := do
  require (e.routerId < net.numRouters) .portRange
  net.inportAt e.routerId (net.inportsDirn2idx e.routerId e.inportDir)

/-- The loop of stage 1 over the preferred output ports: does one of them lead
to the router of the next ring position? -/
def leadsTo (r target : Nat) : List Nat → Except Failure Bool
  | [] => pure false
  | o :: os => do
    let p ← net.outportAt r o
    let prefRouterId ← net.getUpstreamId p.dirn r
    require (prefRouterId ≠ -1) .spinPrefRouter
    if prefRouterId = target then pure true else leadsTo r target os

end Net

namespace State

/-- The link of the output unit that feeds the input port `e`, found by
direction arithmetic. -/
def upstreamLink (net : Net) (e : SpinStruct) (s : State) : Except Failure (Link × State) := do
  match ← net.getUpstreamrouter e.inportDir e.routerId with
  | none => throw .spinUpstream
  | some u =>
    let outportDirn ← Net.getUpstreamOutportDirn e.inportDir
    let (outport, s) := s.outportIdx u outportDirn
    let p ← net.outportAt u outport
    pure (p.link, s)

def countFlit (forward : Bool) (s : State) : State :=
  if forward then { s with stats := { s.stats with fwdProgress := s.stats.fwdProgress + 1 } }
  else { s with stats := { s.stats with misroute := s.stats.misroute + 1 } }

/-- Stage 1 of `doSpin` at one ring position: the flit, if any, moves to the
next slot of the ring and its upstream credit is returned. -/
def removeFlit (net : Net) (vc : Nat) (t : State × Int) (idx : Nat) :
    Except Failure (State × Int) := do
  let (s, numPkts) := t
  let e ← net.ringAt idx
  let p ← net.ringPort e
  if (s.vcs p.link vc).inputBuffer.isEmpty then
    pure ({ s with
      spinFlit := update s.spinFlit (idx + 1) none
      stats := { s.stats with bubble := s.stats.bubble + 1 } }, numPkts)
  else
    let next ← net.ringAt (idx + 1)
    let (f, rest) ← getTopFlit (s.vcs p.link vc).inputBuffer
    let prefOutport ← lookupRoutingTablePrefOutport (net.outports e.routerId) f.route.netDest
    let s := s.countFlit (← net.leadsTo e.routerId next.routerId prefOutport)
    require (f.hopsNeededBeforeSpin = -1) .spinHops
    let f := { f with
      hopsNeededBeforeSpin := net.computeHopsRemaining e.routerId f.route.destRouter }
    let s := { s with spinFlit := update s.spinFlit (idx + 1) (some f) }
    let s := s.on fun c => c.setVc p.link vc
      ({ c.vcs p.link vc with inputBuffer := rest }.setIdle c.curCycle)
    let (l, s) ← s.upstreamLink net e
    let o ← (s.outvcState l vc).incrementCredit
    pure (s.on fun c => c.setOutVc l vc (o.setState .idle c.curCycle), numPkts + 1)

def countMisroute (net : Net) (r : Nat) (f : Flit) (s : State) : State :=
  let after := net.computeHopsRemaining r f.route.destRouter
  if f.hopsNeededBeforeSpin < after then
    { s with stats := { s.stats with
        totalMisroute := s.stats.totalMisroute + (after - f.hopsNeededBeforeSpin) } }
  else s

/-- Stage 2 of `doSpin` at one ring position: the flit in the slot, if any, is
routed and put into the VC, and an upstream credit is taken. -/
def insertSpun (net : Net) (vc : Nat) (t : State × Int) (idx : Nat) :
    Except Failure (State × Int) := do
  let (s, numPkts) := t
  match s.spinFlit idx with
  | none => pure (s, numPkts)
  | some f =>
    let e ← net.ringAt idx
    let p ← net.ringPort e
    let (outport, s) ← s.outportCompute net e.routerId f.route
    let op ← net.outportAt e.routerId outport
    let f := { f with outport := outport, outportDir := op.dirn }.incrementHops
    require (f.hopsNeededAfterSpin = -1) .spinHops
    let s := s.countMisroute net e.routerId f
    let f := { f with hopsNeededBeforeSpin := -1, hopsNeededAfterSpin := -1 }
    require ((s.vcs p.link vc).vcState = .idle) .spinBusyVc
    let s := s.on fun c => c.setVc p.link vc
      (((c.vcs p.link vc).insertFlit f).setActive c.curCycle)
    let (l, s) ← s.upstreamLink net e
    let o ← (s.outvcState l vc).decrementCredit
    pure (s.on fun c => c.setOutVc l vc (o.setState .active c.curCycle), numPkts - 1)

def spunPktNum (net : Net) (vc : Nat) (s : State) : Nat :=
  ((range net.numRouters).map fun r =>
    (net.inports r).countP fun p =>
      p.dirn != .Local && !(s.vcs p.link vc).inputBuffer.isEmpty).sum

-- the final loop of the source assigns to copies of the ring's entries and has no effect
def doSpin (net : Net) (vc : Nat) (s : State) : Except Failure State := do
  let spunPktNum := s.spunPktNum net vc
  let s := { s with stats := { s.stats with totalSpins := s.stats.totalSpins + 1 } }
  let (s, numPkts) ← (range (net.spinRing.length - 1)).foldlM (removeFlit net vc) (s, 0)
  require ((spunPktNum : Int) = numPkts) .spinCount
  let (s, numPkts) ←
    (range' 1 (net.spinRing.length - 1)).foldlM (insertSpun net vc) (s, numPkts)
  require (numPkts = 0) .spinCount
  pure s

end State

namespace Core

variable (net : Net)

def spinDelay : Nat := 2 * net.spinMult % 2 ^ 32

/-- `set_flit_time`: the flits that a drain can have moved are ready for the
switch allocator after the delay. -/
def setFlitTime (s : Core) (vc : Nat) : Core :=
  (range net.numRouters).foldl (fun s r =>
    (net.inports r).foldl (fun s p =>
      if p.dirn = .North ∨ p.dirn = .South ∨ p.dirn = .East ∨ p.dirn = .West then
        s.setVc p.link vc ((s.vcs p.link vc).mapTop fun f =>
          { f with stage := (.SA, s.curCycle + spinDelay net) })
      else s) s) s

/-- `chck_link_state`: no flit is on a link that leaves a router. -/
def chckLinkState (s : Core) : Bool :=
  (range net.numRouters).all fun r =>
    (net.outports r).all fun p => (s.linkBuffer p.link).isEmpty

end Core

def Net.baseVcs (net : Net) : List Nat :=
  (range net.virtualNetworks).map (· * net.vcsPerVnet)

def Net.drainVcs (net : Net) : List Nat :=
  if net.drainAllVc = 1 then range net.numVcs else net.baseVcs

namespace State

variable (net : Net)

def spinOnce (s : State) (vc : Nat) : Except Failure State :=
  { s with stats := { s.stats with numDrain := s.stats.numDrain + 1 } }.doSpin net vc

/-- The VC indices of all the `doSpin` calls of one drain, in order. -/
def spinCalls (s : State) : List Nat :=
  if net.spinMult = 0 then (replicate (s.random 0 % 10) net.baseVcs).flatten
  else (replicate net.spinMult net.drainVcs).flatten

def drain (s : State) : Except Failure State := do
  let s := s.on (·.setHalt net false)
  require (s.chckLinkState net) .linkBusy
  let s := s.on fun c => { c with drainLog := c.curCycle :: c.drainLog }
  let calls := s.spinCalls net
  let s := if net.spinMult = 0 then s.skipRandom else s
  let s ← calls.foldlM (spinOnce net) s
  pure (s.on fun c => net.drainVcs.foldl (setFlitTime net) c)

/-- The branch of `Router::wakeup` at the start of an epoch. -/
def startHalt (r : Nat) (s : State) : Except Failure State := do
  let s ←
    if s.halt r = false then do
      let s := s.on fun c =>
        { c.setHalt net true with haltLog := c.curCycle :: c.haltLog }
      require (s.lock = none) .lockHeld
      pure (s.on (scheduleAllWakeup net 3))
    else pure s
  if s.lock = none then pure (s.on fun c => { c with lock := some r }) else pure s

/-- The branch that drains and releases the network. `asserts` tells whether
`assert(halt_ = true)`, an assignment, is compiled in. -/
def release (asserts : Bool) (r : Nat) (s : State) : Except Failure State := do
  let s := if asserts then s.on fun c => { c with halt := update c.halt r true } else s
  let s ← if s.halt r = true then s.drain net else pure s
  pure (s.on fun c => scheduleAllWakeup net (spinDelay net) { c with lock := none })

def epochStart (s : Core) : Prop := 0 < s.curCycle ∧ s.curCycle % net.spinThrshld = 0

def releaseTime (s : Core) : Prop :=
  net.spinThrshld < s.curCycle ∧ 2 < s.curCycle % net.spinThrshld ∧ s.lock ≠ none

instance (s : Core) : Decidable (epochStart net s) := inferInstanceAs (Decidable (_ ∧ _))

instance (s : Core) : Decidable (releaseTime net s) := inferInstanceAs (Decidable (_ ∧ _ ∧ _))

def spinStage (asserts : Bool) (r : Nat) (s : State) : Except Failure State :=
  if epochStart net s.toCore then s.startHalt net r
  else if releaseTime net s.toCore then s.release net asserts r
  else do
    require (s.curCycle % net.spinThrshld = 2 ∧ s.lock = some r → s.chckLinkState net) .linkBusy
    pure s

end State

end Drain
