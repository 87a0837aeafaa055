import Drain.Lib.Table
import Drain.Flit

/-! The link map of a network, the all-pairs shortest paths over it and the
router ports that `Topology::createLinks` derives from them (`Topology.cc`). -/

namespace Drain

open List

def infiniteLatency : Nat := 10000

/-- The links of a network: from node to router, from router to node, and
between two routers. -/
inductive Link where
  | extIn (node : Nat)
  | extOut (node : Nat)
  | int (src dst : Nat)
  deriving DecidableEq, Repr

structure IntLink where
  weight : Nat
  srcOutport : PortDirection
  dstInport : PortDirection
  deriving DecidableEq, Repr

/-- One external link for each node and at most one internal link for each
ordered pair of routers, as in the link map; all weights are positive. -/
structure Topology where
  numRouters : Nat
  nodes : Nat
  extRouter : Nat → Nat
  extWeight : Nat → Nat
  intLink : Nat → Nat → Option IntLink
  extRouter_lt : ∀ n < nodes, extRouter n < numRouters
  extWeight_pos : ∀ n < nodes, 0 < extWeight n
  intLink_lt : ∀ {a b e}, intLink a b = some e → a < numRouters ∧ b < numRouters
  intLink_pos : ∀ {a b e}, intLink a b = some e → 0 < e.weight

structure LinkEntry where
  link : Link
  weight : Nat
  srcOutportDirn : PortDirection
  dstInportDirn : PortDirection
  deriving DecidableEq, Repr

abbrev Matrix := Nat → Nat → Nat

structure OutPort where
  link : Link
  dirn : PortDirection
  routingTableEntry : NetDest
  weight : Nat
  deriving DecidableEq, Repr

structure InPort where
  link : Link
  dirn : PortDirection
  deriving DecidableEq, Repr

/-- `extend_shortest_path` works on three matrices in place. -/
structure PathMatrices where
  dist : Matrix
  latencies : Nat → Nat → Int
  interSwitches : Matrix

structure RelaxState where
  minimum : Nat
  previousMinimum : Nat
  intermediateSwitch : Option Nat
  interSwitches : Matrix

def relaxStep (dist : Matrix) (i j : Nat) (t : RelaxState) (k : Nat) : RelaxState :=
  let minimum := min t.minimum (dist i k + dist k j)
  if t.previousMinimum ≠ minimum then
    { minimum := minimum
      previousMinimum := minimum
      intermediateSwitch := some k
      interSwitches :=
        setEntry t.interSwitches i j (t.interSwitches i k + t.interSwitches k j + 1) }
  else { t with minimum := minimum, previousMinimum := minimum }

def relaxPair (nodes : Nat) (i j : Nat) (m : PathMatrices) : RelaxState :=
  (range nodes).foldl (relaxStep m.dist i j)
    { minimum := m.dist i j
      previousMinimum := m.dist i j
      intermediateSwitch := none
      interSwitches := m.interSwitches }

/-- One pass of the loops over `i` and `j`; the flag is `change`. -/
def sweepPair (nodes : Nat) (t : PathMatrices × Bool) (ij : Nat × Nat) : PathMatrices × Bool :=
  let (m, change) := t
  let (i, j) := ij
  let r := relaxPair nodes i j m
  if m.dist i j ≠ r.minimum then
    let k := r.intermediateSwitch.getD 0
    ({ dist := setEntry m.dist i j r.minimum
       latencies := setEntry m.latencies i j (m.latencies i k + m.latencies k j)
       interSwitches := r.interSwitches }, true)
  else ({ m with interSwitches := r.interSwitches }, change)

def indexPairs (nodes : Nat) : List (Nat × Nat) :=
  (range nodes).flatMap fun i => (range nodes).map fun j => (i, j)

def sweep (nodes : Nat) (m : PathMatrices) : PathMatrices × Bool :=
  (indexPairs nodes).foldl (sweepPair nodes) (m, false)

/-- `while (change)`: `none` stands for a run that needs more than `fuel` passes. -/
def extendShortestPath (nodes : Nat) : Nat → PathMatrices → Option PathMatrices
  | 0, _ => none
  | fuel + 1, m =>
    let (m', change) := sweep nodes m
    if change then extendShortestPath nodes fuel m' else some m'

def totalDist (nodes : Nat) (d : Matrix) : Nat :=
  ((indexPairs nodes).map fun ij => d ij.1 ij.2).sum

def shortestPath (nodes : Nat) (weights : Matrix) (latencies : Nat → Nat → Int)
    (interSwitches : Matrix) : Option PathMatrices :=
  extendShortestPath nodes (totalDist nodes weights + 1) ⟨weights, latencies, interSwitches⟩

namespace Topology

variable (t : Topology)

/-- Switch ids: the nodes' inputs, the nodes' outputs, then the routers. -/
def numSwitches : Nat := 2 * t.nodes + t.numRouters

def routerSwitch (r : Nat) : Nat := r + 2 * t.nodes

def linkMap (src dst : Nat) : Option LinkEntry :=
  if src < t.nodes then
    if dst = t.routerSwitch (t.extRouter src) then
      some ⟨.extIn src, t.extWeight src, .Unknown, .Local⟩
    else none
  else if src < 2 * t.nodes then none
  else if dst < t.nodes then none
  else if dst < 2 * t.nodes then
    if src = t.routerSwitch (t.extRouter (dst - t.nodes)) then
      some ⟨.extOut (dst - t.nodes), t.extWeight (dst - t.nodes), .Local, .Unknown⟩
    else none
  else
    (t.intLink (src - 2 * t.nodes) (dst - 2 * t.nodes)).map fun e =>
      ⟨.int (src - 2 * t.nodes) (dst - 2 * t.nodes), e.weight, e.srcOutport, e.dstInport⟩

def topologyWeights : Matrix := fun i j =>
  match t.linkMap i j with
  | some e => e.weight
  | none => if i = j then 0 else infiniteLatency

/-- The result of `shortest_path`; latencies play no role in routing. -/
def dist : Matrix :=
  match shortestPath t.numSwitches t.topologyWeights (fun _ _ => -1) (fun _ _ => 0) with
  | some m => m.dist
  | none => t.topologyWeights

def linkIsShortestPathToNode (src next final : Nat) : Bool :=
  t.topologyWeights src next + t.dist next final == t.dist src final

def shortestPathToNode (src next : Nat) : NetDest :=
  (range t.nodes).filter fun d => t.linkIsShortestPathToNode src next (d + t.nodes)

/-- `createLinks` connects a pair of switches when its weight is that of a link. -/
def connected (src dst : Nat) : Option LinkEntry :=
  (t.linkMap src dst).filter fun e => 0 < e.weight && e.weight != infiniteLatency

/-- The output ports of router `r` in the order in which `createLinks` adds them. -/
def outports (r : Nat) : List OutPort :=
  (range t.numSwitches).filterMap fun j =>
    (t.connected (t.routerSwitch r) j).map fun e =>
      ⟨e.link, e.srcOutportDirn, t.shortestPathToNode (t.routerSwitch r) j, e.weight⟩

/-- The input ports of router `r` in the order in which `createLinks` adds them. -/
def inports (r : Nat) : List InPort :=
  (range t.numSwitches).filterMap fun i =>
    (t.connected i (t.routerSwitch r)).map fun e => ⟨e.link, e.dstInportDirn⟩

end Topology

end Drain
