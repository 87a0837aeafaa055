import Drain.Router

/-! `NetworkInterface::wakeup`: messages become flits, flits leave for the
router, arriving flits are handed to the protocol or stalled. Also the wakeups
of the links (`NetworkLink.cc`). -/

namespace Drain

open List

open Function (update)

namespace State

variable (net : Net)

def calculateVCrr (n vnet : Nat) : Nat → State → Option Nat × State
  | 0, s => (none, s)
  | k + 1, s =>
    let delta := s.vcAllocator n vnet
    let next := if delta + 1 = net.vcsPerVnet then 0 else delta + 1
    let s := { s with vcAllocator := setEntry s.vcAllocator n vnet next }
    if s.isVcIdle (.extIn n) (vnet * net.vcsPerVnet + delta) then
      (some (vnet * net.vcsPerVnet + delta), s)
    else calculateVCrr n vnet k s

def countBusy (n vnet : Nat) (t : Option Nat × State) : Option Nat × State :=
  let counter := if t.1.isSome then 0 else t.2.vcBusyCounter n vnet + 1
  (t.1, { t.2 with vcBusyCounter := setEntry t.2.vcBusyCounter n vnet counter })

def calculateVC (n vnet : Nat) (s : State) : Except Failure (Option Nat × State) :=
  match net.niInj with
  | .rr => pure (countBusy n vnet (calculateVCrr net n vnet net.vcsPerVnet s))
  | .fcfs => pure (countBusy n vnet (selectFreeVc net s.toCore (.extIn n) vnet, s))
  | .other => throw .badOption

def messageRoute (n vnet dest : Nat) : RouteInfo where
  vnet := vnet
  netDest := [dest]
  srcNi := n
  srcRouter := net.extRouter n
  destNi := dest
  destRouter := net.extRouter dest
  hopsTraversed := -1

def createFlit (n vnet dest vc : Nat) (s : Core) : Core :=
  let f := newFlit s.nextPtr 0 vc vnet (messageRoute net n vnet dest) 1 s.curCycle
  { s.setOutVc (.extIn n) vc ((s.outvcState (.extIn n) vc).setState .active s.curCycle) with
    niOutVcs := setEntry s.niOutVcs n vc (bufferInsert f (s.niOutVcs n vc))
    nextPtr := s.nextPtr + 1 }

/-- The destinations that are left when no VC is free; a destination that was
served is removed from the message. -/
def flitisizeMessage (n vnet : Nat) : List Nat → State → Except Failure (List Nat × State)
  | [], s => pure ([], s)
  | dest :: dests, s => do
    require (net.injSingleVnet = 0 ∨ net.injSingleVnet = 1) .badOption
    let (vc, s) ← s.calculateVC net n (if net.injSingleVnet = 0 then vnet else 0)
    match vc with
    | none => pure (dest :: dests, s)
    | some vc =>
      let s := s.on (createFlit net n vnet dest vc)
      let s := { s with niOutVcsEnqueueTime := setEntry s.niOutVcsEnqueueTime n vc s.curCycle }
      flitisizeMessage n vnet dests s

def messageReady (s : State) (n vnet : Nat) : Bool :=
  match s.inNode n vnet with
  | [] => false
  | m :: _ => m.arrival ≤ s.curCycle

def injectVnet (n : Nat) (s : State) (vnet : Nat) : Except Failure State :=
  match s.inNode n vnet with
  | [] => pure s
  | m :: ms =>
    if m.arrival ≤ s.curCycle ∧ s.lock = none then do
      let (left, s) ← s.flitisizeMessage net n vnet m.dests
      let queue := if left = [] then ms else { m with dests := left } :: ms
      pure { s with inNode := setEntry s.inNode n vnet queue }
    else pure s

def niGetVnet (vc : Nat) : Except Failure Nat :=
  match (range net.virtualNetworks).find? fun i =>
    i * net.vcsPerVnet ≤ vc && vc < (i + 1) * net.vcsPerVnet with
  | some i => .ok i
  | none => .error .vnetRange

def isCandidateVc (n vc vnet : Nat) (s : State) : Bool :=
  !net.isVNetOrdered vnet || (range net.vcsPerVnet).all fun i =>
    let vc' := vnet * net.vcsPerVnet + i
    !(isReady (s.niOutVcs n vc') s.curCycle &&
      s.niOutVcsEnqueueTime n vc' < s.niOutVcsEnqueueTime n vc)

def sendFlit (n vc : Nat) (s : State) : Except Failure State := do
  let o ← (s.outvcState (.extIn n) vc).decrementCredit
  let (f, rest) ← getTopFlit (s.niOutVcs n vc)
  let s := s.on fun c => { c.setOutVc (.extIn n) vc o with
    niOutVcs := setEntry c.niOutVcs n vc rest }
  let s := s.on (insertFlit (.extIn n) { f with time := s.curCycle + 1 })
  if f.isTail then
    pure { s with niOutVcsEnqueueTime := setEntry s.niOutVcsEnqueueTime n vc infiniteTime }
  else pure s

/-- The loop of `scheduleOutputLink`, which sends at most one flit. -/
def sendFrom (n : Nat) : Nat → Nat → State → Except Failure State
  | 0, _, s => pure s
  | k + 1, vc, s =>
    let vc := if vc + 1 = net.numVcs then 0 else vc + 1
    if isReady (s.niOutVcs n vc) s.curCycle && (s.outvcState (.extIn n) vc).hasCredit then do
      let vnet ← niGetVnet net vc
      if isCandidateVc net n vc vnet s then s.sendFlit n vc
      else sendFrom n k vc s
    else sendFrom n k vc s

def scheduleOutputLink (n : Nat) (s : State) : Except Failure State :=
  let vc := s.vcRoundRobin n
  let next := if vc + 1 = net.numVcs then 0 else vc + 1
  sendFrom net n net.numVcs vc { s with vcRoundRobin := update s.vcRoundRobin n next }

def checkReschedule (n : Nat) (s : State) : State :=
  if (range net.virtualNetworks).any (s.messageReady n) ||
      (range net.numVcs).any (fun vc => isReady (s.niOutVcs n vc) (s.curCycle + 1)) then
    s.on (·.scheduleEvent (.ni n) 1)
  else s

def sendCredit (n : Nat) (f : Flit) (isFree : Bool) (s : Core) : Core :=
  { s with
    creditQueue := update s.creditQueue (.extOut n)
      (bufferInsert ⟨f.vc, isFree, s.curCycle⟩ (s.creditQueue (.extOut n))) }

/-- The message of a flit goes to the protocol buffer and its VC is free again. -/
def deliver (n : Nat) (f : Flit) (s : Core) : Core :=
  sendCredit n f true { s with delivered := ⟨n, f.vnet, f⟩ :: s.delivered }

/-- `slots vnet` tells whether the protocol buffer has room for a message. -/
def checkStallQueue (n : Nat) (slots : Nat → Bool) (s : State) : Bool × State :=
  match (s.stallQueue n).find? fun f => slots f.vnet with
  | none => (false, s)
  | some f =>
    let s := s.on (deliver n f)
    let s := s.on fun c => { c with
      stallQueue := update c.stallQueue n ((c.stallQueue n).eraseP fun f => slots f.vnet) }
    (true, { s with stallCount := setEntry s.stallCount n f.vnet (s.stallCount n f.vnet - 1) })

def receiveFlit (n : Nat) (slots : Nat → Bool) (enqueued : Bool) (s : State) :
    Except Failure State :=
  if isReady (s.linkBuffer (.extOut n)) s.curCycle then do
    let (f, rest) ← getTopFlit (s.linkBuffer (.extOut n))
    let s := s.on fun c => { c with linkBuffer := update c.linkBuffer (.extOut n) rest }
    require (f.isTail = true) .flitType
    if !enqueued && slots f.vnet then pure (s.on (deliver n f))
    else
      let s := s.on fun c => { c with stallQueue := update c.stallQueue n (c.stallQueue n ++ [f]) }
      pure { s with stallCount := setEntry s.stallCount n f.vnet (s.stallCount n f.vnet + 1) }
  else pure s

def niWakeup (n : Nat) (slots : Nat → Bool) (s : State) : Except Failure State := do
  let s ← (range net.virtualNetworks).foldlM (injectVnet net n) s
  let s ← s.scheduleOutputLink net n
  let s := s.checkReschedule net n
  let (enqueued, s) := s.checkStallQueue n slots
  let s ← s.receiveFlit n slots enqueued
  let s ← s.receiveCredit (.extIn n)
  if (s.creditQueue (.extOut n)).isEmpty then pure s
  else pure (s.on (·.scheduleEvent (.creditLink (.extOut n)) 1))

def linkConsumer : Link → Consumer
  | .extIn n => .router (net.extRouter n)
  | .extOut n => .ni n
  | .int _ b => .router b

def creditLinkConsumer : Link → Consumer
  | .extIn n => .ni n
  | .extOut n => .router (net.extRouter n)
  | .int a _ => .router a

def linkWakeup (l : Link) (s : Core) : Core :=
  match s.outBuffer l with
  | [] => s
  | f :: rest =>
    if f.time ≤ s.curCycle then
      { s with
        outBuffer := update s.outBuffer l rest
        linkBuffer := update s.linkBuffer l
          (bufferInsert { f with time := s.curCycle + net.linkLatency } (s.linkBuffer l)) }
        |>.scheduleEvent (linkConsumer net l) net.linkLatency
    else s

def creditLinkWakeup (l : Link) (s : Core) : Core :=
  match s.creditQueue l with
  | [] => s
  | t :: rest =>
    if t.time ≤ s.curCycle then
      { s with
        creditQueue := update s.creditQueue l rest
        creditLinkBuffer := update s.creditLinkBuffer l
          (bufferInsert { t with time := s.curCycle + net.linkLatency } (s.creditLinkBuffer l)) }
        |>.scheduleEvent (creditLinkConsumer net l) net.linkLatency
    else s

end State

end Drain
