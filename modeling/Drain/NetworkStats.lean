import Drain.Flit
import Drain.Lib.Holds

/-! The statistics of received flits (`GarnetNetwork.hh`) and `NetworkInterface::incrementStats`,
which keeps them. -/

namespace Drain

open Function List

inductive Latency where
  | flit | flitNetwork | flitQueueing
  deriving DecidableEq

structure ReceivedFlit where
  vnet : Nat
  marked : Bool
  type : FlitType
  enqueueTime : Nat
  dequeueTime : Nat
  srcDelay : Nat
  hopsTraversed : Int
  deriving DecidableEq

inductive Exit where
  | allMarkedReceived
  | latencyThreshold
  | cycleQuota
  deriving DecidableEq

structure Extrema where
  maxFlit : Latency → Nat
  minFlit : Latency → Nat
  markedFlit : Latency → Nat

/-- The members of the network that receptions and injections use. `running` has the extrema so far
and `reported` those of the statistics; `mrkdFlt` has the quotas that the routers have left. -/
structure GarnetStats where
  simType : Int
  warmupCycles : Nat
  mrkdFlt : List Int
  markedFltInjected : Nat := 0
  markedFltReceived : Nat := 0
  totalMarkedFlitReceived : Nat := 0
  totalMarkedFlitLatency : Nat := 0
  running : Extrema := ⟨fun _ => 0, fun _ => 999999, fun _ => 0⟩
  reported : Extrema := ⟨fun _ => 0, fun _ => 0, fun _ => 0⟩
  fltLatencyHist : Latency → List Nat := fun _ => []
  markedFltLatencyHist : Latency → List Nat := fun _ => []
  networkLatencyHistogram : Nat → Nat := fun _ => 0
  flitsInjected : Nat → Nat := fun _ => 0
  flitsReceived : Nat → Nat := fun _ => 0
  packetsInjected : Nat → Nat := fun _ => 0
  packetsReceived : Nat → Nat := fun _ => 0
  markedFlitsInjected : Nat → Nat := fun _ => 0
  markedFlitsReceived : Nat → Nat := fun _ => 0
  markedPktInjected : Nat → Nat := fun _ => 0
  markedPktReceived : Nat → Nat := fun _ => 0
  fltDist : Nat → Nat := fun _ => 0
  markedFltDist : Nat → Nat := fun _ => 0
  flitNetworkLatency : Nat → Nat := fun _ => 0
  flitQueueingLatency : Nat → Nat := fun _ => 0
  packetNetworkLatency : Nat → Nat := fun _ => 0
  packetQueueingLatency : Nat → Nat := fun _ => 0
  markedFltNetworkLatency : Nat → Nat := fun _ => 0
  markedFltQueueingLatency : Nat → Nat := fun _ => 0
  markedPktNetworkLatency : Nat → Nat := fun _ => 0
  markedPktQueueingLatency : Nat → Nat := fun _ => 0
  totalHops : Int := 0
  markedTotalHops : Int := 0
  preMatureExit : Nat := 0
  exits : List Exit := []

/-- The difference of two `Cycles`, which must not be negative. -/
def cyclesSub (a b : Nat) : Except Failure Nat := do
  require (b ≤ a) .cyclesNegative
  pure (a - b)

def addTo (v : Nat → Nat) (i x : Nat) : Nat → Nat := update v i (v i + x)

def addToIf (marked : Bool) (v : Nat → Nat) (i x : Nat) : Nat → Nat :=
  if marked then addTo v i x else v

namespace Extrema

variable (e : Extrema) (k : Latency) (latency : Nat)

def mark : Extrema :=
  if e.markedFlit k < latency then { e with markedFlit := update e.markedFlit k latency } else e

def raise : Extrema :=
  if e.maxFlit k < latency then { e with maxFlit := update e.maxFlit k latency } else e

def lower : Extrema :=
  if latency < e.minFlit k then { e with minFlit := update e.minFlit k latency } else e

end Extrema

namespace GarnetStats

section Updates

variable (s : GarnetStats) (latency vnet : Nat) (marked : Bool)

def updateHistogram (k : Latency) : GarnetStats :=
  if marked then
    { s with
      markedFltLatencyHist := update s.markedFltLatencyHist k (latency :: s.markedFltLatencyHist k)
      running := s.running.mark k latency }
  else
    { s with
      fltLatencyHist := update s.fltLatencyHist k (latency :: s.fltLatencyHist k)
      running := (s.running.raise k latency).lower k latency }

def updateFlitLatencyHistogram : GarnetStats := s.updateHistogram latency marked .flit

def updateFlitNetworkLatencyHistogram : GarnetStats := s.updateHistogram latency marked .flitNetwork

def updateFlitQueueingLatencyHistogram : GarnetStats := s.updateHistogram latency marked .flitQueueing

def updateNetworkLatencyHistogram : GarnetStats :=
  { s with
    networkLatencyHistogram :=
      addTo s.networkLatencyHistogram (if latency / 5 < 20 then latency / 5 else 20) 1 }

def incrementInjectedPackets : GarnetStats :=
  { s with
    markedPktInjected := addToIf marked s.markedPktInjected vnet 1
    packetsInjected := addTo s.packetsInjected vnet 1 }

def incrementReceivedPackets : GarnetStats :=
  { s with
    markedPktReceived := addToIf marked s.markedPktReceived vnet 1
    packetsReceived := addTo s.packetsReceived vnet 1 }

def incrementPacketNetworkLatency : GarnetStats :=
  { s with
    packetNetworkLatency := addTo s.packetNetworkLatency vnet latency
    markedPktNetworkLatency := addToIf marked s.markedPktNetworkLatency vnet latency }

def incrementPacketQueueingLatency : GarnetStats :=
  { s with
    packetQueueingLatency := addTo s.packetQueueingLatency vnet latency
    markedPktQueueingLatency := addToIf marked s.markedPktQueueingLatency vnet latency }

def incrementInjectedFlits (router : Nat) : GarnetStats :=
  { s with
    flitsInjected := addTo s.flitsInjected vnet 1
    fltDist := addTo s.fltDist router 1
    markedFlitsInjected := addToIf marked s.markedFlitsInjected vnet 1
    markedFltDist := addToIf marked s.markedFltDist router 1
    markedFltInjected := s.markedFltInjected + marked.toNat }

def checkMrkdFlt : Bool :=
  s.mrkdFlt.all (· ≤ 0) && s.markedFltInjected ≤ s.markedFltReceived

def countMarked : GarnetStats :=
  { s with
    markedFlitsReceived := addTo s.markedFlitsReceived vnet 1
    markedFltReceived := s.markedFltReceived + 1
    totalMarkedFlitReceived := s.totalMarkedFlitReceived + 1 }

def exitIfAllReceived : Except Failure GarnetStats :=
  if s.checkMrkdFlt then do
    require (s.markedFltInjected = s.markedFltReceived) .markedCount
    pure { s with
      reported := { s.reported with markedFlit := s.running.markedFlit }
      exits := s.exits ++ [.allMarkedReceived] }
  else pure s

def reportExtrema : GarnetStats :=
  { s with
    flitsReceived := addTo s.flitsReceived vnet 1
    reported := { s.running with markedFlit := s.reported.markedFlit } }

def incrementReceivedFlits : Except Failure GarnetStats :=
  if marked then ((s.reportExtrema vnet).countMarked vnet).exitIfAllReceived
  else pure (s.reportExtrema vnet)

def incrementFlitNetworkLatency : GarnetStats :=
  { s with
    flitNetworkLatency := addTo s.flitNetworkLatency vnet latency
    markedFltNetworkLatency := addToIf marked s.markedFltNetworkLatency vnet latency
    totalMarkedFlitLatency := s.totalMarkedFlitLatency + if marked then latency else 0 }

def incrementFlitQueueingLatency : GarnetStats :=
  { s with
    flitQueueingLatency := addTo s.flitQueueingLatency vnet latency
    markedFltQueueingLatency := addToIf marked s.markedFltQueueingLatency vnet latency
    totalMarkedFlitLatency := s.totalMarkedFlitLatency + if marked then latency else 0 }

def incrementTotalHops (hops : Int) : GarnetStats :=
  { s with
    totalHops := s.totalHops + hops
    markedTotalHops := s.markedTotalHops + if marked then hops else 0 }

/-- The average latency is over 1000, or the simulation takes too long. -/
def checkNetworkSaturation (curCycle : Nat) : GarnetStats :=
  { s with
    preMatureExit := s.preMatureExit + if 1000000 < curCycle then 1 else 0
    exits := s.exits ++
      (if 1000 * s.totalMarkedFlitReceived < s.totalMarkedFlitLatency then [.latencyThreshold]
        else []) ++
      if 1000000 < curCycle then [.cycleQuota] else [] }

end Updates

section Calls

variable (s : GarnetStats) (curCycle : Nat)

def recordLatencies (networkDelay queueingDelay : Nat) (f : ReceivedFlit) : GarnetStats :=
  s.incrementFlitNetworkLatency networkDelay f.vnet f.marked
    |>.incrementFlitQueueingLatency queueingDelay f.vnet f.marked
    |>.updateFlitLatencyHistogram (queueingDelay + networkDelay) f.marked
    |>.updateFlitNetworkLatencyHistogram networkDelay f.marked
    |>.updateFlitQueueingLatencyHistogram queueingDelay f.marked
    |>.updateNetworkLatencyHistogram networkDelay

def recordPacket (networkDelay queueingDelay : Nat) (f : ReceivedFlit) : GarnetStats :=
  let s :=
    if f.type = .tail ∨ f.type = .headTail then
      s.incrementReceivedPackets f.vnet f.marked
        |>.incrementPacketNetworkLatency networkDelay f.vnet f.marked
        |>.incrementPacketQueueingLatency queueingDelay f.vnet f.marked
    else s
  s.incrementTotalHops f.marked f.hopsTraversed

def incrementStats (f : ReceivedFlit) : Except Failure GarnetStats := do
  require (s.simType = 2 ∨ s.simType = 1) .badOption
  let s ← s.incrementReceivedFlits f.vnet f.marked
  let networkDelay ← cyclesSub (← cyclesSub f.dequeueTime f.enqueueTime) 1
  let destQueueingDelay ← cyclesSub curCycle f.dequeueTime
  let queueingDelay := f.srcDelay + destQueueingDelay
  let s := s.recordLatencies networkDelay queueingDelay f
  let s :=
    if s.simType = 2 ∧ s.warmupCycles < curCycle then s.checkNetworkSaturation curCycle else s
  pure (s.recordPacket networkDelay queueingDelay f)

def marksNext (router : Nat) : Except Failure Bool :=
  if s.simType = 2 ∧ s.warmupCycles < curCycle then
    match s.mrkdFlt[router]? with
    | some quota => pure (0 < quota)
    | none => throw .portRange
  else pure false

/-- What `flitisizeMessage` does to the statistics for a flit, the only one of its packet, and
whether it is marked. -/
def injectFlit (router vnet : Nat) : Except Failure (Bool × GarnetStats) := do
  let marked ← s.marksNext curCycle router
  let s := if marked then { s with mrkdFlt := s.mrkdFlt.modify router (· - 1) } else s
  let s := s.incrementInjectedFlits vnet marked router
  pure (marked, s.incrementInjectedPackets vnet marked)

end Calls

end GarnetStats

inductive StatsCall where
  | inject (router vnet : Nat)
  | receive (f : ReceivedFlit)

namespace GarnetStats

def call (s : GarnetStats) (curCycle : Nat) : StatsCall → Except Failure GarnetStats
  | .inject router vnet => do
    let (_, s) ← s.injectFlit curCycle router vnet
    pure s
  | .receive f => s.incrementStats curCycle f

def run (s : GarnetStats) (calls : List (Nat × StatsCall)) : Except Failure GarnetStats :=
  calls.foldlM (fun s x => s.call x.1 x.2) s

def init (simType : Int) (warmupCycles : Nat) (mrkdFlt : List Int) : GarnetStats where
  simType := simType
  warmupCycles := warmupCycles
  mrkdFlt := mrkdFlt

end GarnetStats

def ReceivedFlit.delay (f : ReceivedFlit) (curCycle : Nat) : Latency → Nat
  | .flit => f.srcDelay + (curCycle - f.dequeueTime) + (f.dequeueTime - f.enqueueTime - 1)
  | .flitNetwork => f.dequeueTime - f.enqueueTime - 1
  | .flitQueueing => f.srcDelay + (curCycle - f.dequeueTime)

namespace Extrema

variable (e : Extrema) (k : Latency) (latency : Nat)

def recorded (marked : Bool) (d : Latency → Nat) : Extrema :=
  if marked then { e with markedFlit := fun k => max (e.markedFlit k) (d k) }
  else { e with
    maxFlit := fun k => max (e.maxFlit k) (d k)
    minFlit := fun k => min (e.minFlit k) (d k) }

theorem mark_eq : e.mark k latency =
    { e with markedFlit := update e.markedFlit k (max (e.markedFlit k) latency) } := by
  unfold mark
  split
  · next hlt => rw [max_eq_right hlt.le]
  · next hlt => rw [max_eq_left (not_lt.mp hlt), update_eq_self]

theorem raise_eq : e.raise k latency =
    { e with maxFlit := update e.maxFlit k (max (e.maxFlit k) latency) } := by
  unfold raise
  split
  · next hlt => rw [max_eq_right hlt.le]
  · next hlt => rw [max_eq_left (not_lt.mp hlt), update_eq_self]

theorem lower_eq : e.lower k latency =
    { e with minFlit := update e.minFlit k (min (e.minFlit k) latency) } := by
  unfold lower
  split
  · next hlt => rw [min_eq_right hlt.le]
  · next hlt => rw [min_eq_left (not_lt.mp hlt), update_eq_self]

end Extrema

namespace GarnetStats

/-- What is reported, the counts of marked flits and the exits for them are the same. -/
structure SameCounts (s s' : GarnetStats) : Prop where
  simType : s'.simType = s.simType
  warmupCycles : s'.warmupCycles = s.warmupCycles
  mrkdFlt : s'.mrkdFlt = s.mrkdFlt
  injected : s'.markedFltInjected = s.markedFltInjected
  received : s'.markedFltReceived = s.markedFltReceived
  reported : s'.reported = s.reported
  exits : s'.exits.count .allMarkedReceived = s.exits.count .allMarkedReceived

section Received

variable {s s' s'' : GarnetStats} {curCycle networkDelay queueingDelay vnet : Nat} {marked : Bool}
  {f : ReceivedFlit}

theorem SameCounts.trans (h : SameCounts s s') (h' : SameCounts s' s'') : SameCounts s s'' :=
  ⟨h'.simType.trans h.simType, h'.warmupCycles.trans h.warmupCycles, h'.mrkdFlt.trans h.mrkdFlt,
    h'.injected.trans h.injected, h'.received.trans h.received, h'.reported.trans h.reported,
    h'.exits.trans h.exits⟩

theorem updateHistogram_sameCounts (s : GarnetStats) (latency : Nat) (marked : Bool) (k : Latency) :
    SameCounts s (s.updateHistogram latency marked k) := by
  unfold updateHistogram
  split <;> exact ⟨rfl, rfl, rfl, rfl, rfl, rfl, rfl⟩

theorem updateHistogram_running (s : GarnetStats) (latency : Nat) (marked : Bool) (k : Latency) :
    (s.updateHistogram latency marked k).running =
      if marked then s.running.mark k latency else (s.running.raise k latency).lower k latency := by
  unfold updateHistogram
  split <;> rfl

theorem recordLatencies_sameCounts :
    SameCounts s (s.recordLatencies networkDelay queueingDelay f) := by
  have hsums : SameCounts s ((s.incrementFlitNetworkLatency networkDelay f.vnet
      f.marked).incrementFlitQueueingLatency queueingDelay f.vnet f.marked) :=
    ⟨rfl, rfl, rfl, rfl, rfl, rfl, rfl⟩
  have hupdates := ((hsums.trans
    (updateHistogram_sameCounts _ (queueingDelay + networkDelay) f.marked .flit)).trans
      (updateHistogram_sameCounts _ networkDelay f.marked .flitNetwork)).trans
        (updateHistogram_sameCounts _ queueingDelay f.marked .flitQueueing)
  exact hupdates.trans ⟨rfl, rfl, rfl, rfl, rfl, rfl, rfl⟩

theorem recordLatencies_running {d : Latency → Nat} (hd : d .flit = d .flitQueueing + d .flitNetwork) :
    (s.recordLatencies (d .flitNetwork) (d .flitQueueing) f).running =
      s.running.recorded f.marked d := by
  have hupdates (s : GarnetStats) : (((s.updateHistogram (d .flit) f.marked .flit).updateHistogram
      (d .flitNetwork) f.marked .flitNetwork).updateHistogram (d .flitQueueing) f.marked
        .flitQueueing).running = s.running.recorded f.marked d := by
    simp only [updateHistogram_running]
    cases f.marked with
    | true =>
      simp only [if_true, Extrema.mark_eq, Extrema.recorded]
      congr 1
      funext k
      cases k <;> simp
    | false =>
      simp only [Bool.false_eq_true, if_false, Extrema.raise_eq, Extrema.lower_eq, Extrema.recorded]
      congr 1 <;> funext k <;> cases k <;> simp
  have hrunning := hupdates ((s.incrementFlitNetworkLatency (d .flitNetwork) f.vnet
    f.marked).incrementFlitQueueingLatency (d .flitQueueing) f.vnet f.marked)
  rw [hd] at hrunning
  exact hrunning

theorem checkNetworkSaturation_sameCounts : SameCounts s (s.checkNetworkSaturation curCycle) := by
  refine ⟨rfl, rfl, rfl, rfl, rfl, rfl, ?_⟩
  unfold checkNetworkSaturation
  dsimp only
  rw [count_append, count_append]
  split <;> split <;> rfl

theorem recordPacket_sameCounts : SameCounts s (s.recordPacket networkDelay queueingDelay f) := by
  have hpacket : SameCounts s (if f.type = .tail ∨ f.type = .headTail then
      s.incrementReceivedPackets f.vnet f.marked
        |>.incrementPacketNetworkLatency networkDelay f.vnet f.marked
        |>.incrementPacketQueueingLatency queueingDelay f.vnet f.marked
      else s) := by
    split <;> exact ⟨rfl, rfl, rfl, rfl, rfl, rfl, rfl⟩
  exact hpacket.trans ⟨rfl, rfl, rfl, rfl, rfl, rfl, rfl⟩

theorem recordPacket_running :
    (s.recordPacket networkDelay queueingDelay f).running = s.running := by
  unfold recordPacket
  dsimp only [incrementTotalHops]
  split <;> rfl

theorem cyclesSub_eq_ok {a b d : Nat} (h : cyclesSub a b = .ok d) : d = a - b := by
  obtain ⟨_, _, h⟩ := bind_eq_ok.mp h
  cases h
  rfl

theorem incrementStats_ok (h : s.incrementStats curCycle f = .ok s') :
    ∃ s₁, s.incrementReceivedFlits f.vnet f.marked = .ok s₁ ∧ SameCounts s₁ s' ∧
      s'.running = s₁.running.recorded f.marked (f.delay curCycle) := by
  obtain ⟨_, _, h⟩ := bind_eq_ok.mp h
  obtain ⟨s₁, hs₁, h⟩ := bind_eq_ok.mp h
  obtain ⟨_, hnet, h⟩ := bind_eq_ok.mp h
  obtain ⟨_, hnet', h⟩ := bind_eq_ok.mp h
  obtain ⟨_, hdest, h⟩ := bind_eq_ok.mp h
  cases cyclesSub_eq_ok hnet
  cases cyclesSub_eq_ok hnet'
  cases cyclesSub_eq_ok hdest
  have hrunning : (s₁.recordLatencies (f.dequeueTime - f.enqueueTime - 1)
      (f.srcDelay + (curCycle - f.dequeueTime)) f).running =
        s₁.running.recorded f.marked (f.delay curCycle) :=
    recordLatencies_running (d := f.delay curCycle) rfl
  have hcounts : SameCounts s₁ (s₁.recordLatencies (f.dequeueTime - f.enqueueTime - 1)
    (f.srcDelay + (curCycle - f.dequeueTime)) f) := recordLatencies_sameCounts
  cases h
  generalize s₁.recordLatencies _ _ f = s₂ at hrunning hcounts ⊢
  refine ⟨s₁, hs₁, (hcounts.trans ?_).trans recordPacket_sameCounts, ?_⟩
  · split
    · exact checkNetworkSaturation_sameCounts
    · exact ⟨rfl, rfl, rfl, rfl, rfl, rfl, rfl⟩
  · rw [recordPacket_running, ← hrunning]
    split <;> rfl

/-- A flit is received. All marked flits are back when no quota is left and this was the last. -/
structure Counted (marked : Bool) (s s' : GarnetStats) : Prop where
  simType : s'.simType = s.simType
  warmupCycles : s'.warmupCycles = s.warmupCycles
  mrkdFlt : s'.mrkdFlt = s.mrkdFlt
  injected : s'.markedFltInjected = s.markedFltInjected
  received : s'.markedFltReceived = s.markedFltReceived + marked.toNat
  maxFlit : s'.reported.maxFlit = s.running.maxFlit
  minFlit : s'.reported.minFlit = s.running.minFlit
  exit : if marked = true ∧ s'.checkMrkdFlt = true then
      s'.exits.count .allMarkedReceived = s.exits.count .allMarkedReceived + 1 ∧
        s'.markedFltInjected = s'.markedFltReceived ∧
        s'.reported.markedFlit = s.running.markedFlit
    else s'.exits.count .allMarkedReceived = s.exits.count .allMarkedReceived

theorem exitIfAllReceived_ok (h : s.exitIfAllReceived = .ok s') :
    if s.checkMrkdFlt = true then s.markedFltInjected = s.markedFltReceived ∧ s' = { s with
      reported := { s.reported with markedFlit := s.running.markedFlit }
      exits := s.exits ++ [.allMarkedReceived] }
    else s' = s := by
  unfold exitIfAllReceived at h
  split at h
  · next hall =>
    obtain ⟨_, hcount, h⟩ := bind_eq_ok.mp h
    cases h
    rw [if_pos hall]
    exact ⟨require_eq_ok.mp hcount, rfl⟩
  · next hall =>
    cases h
    rw [if_neg hall]

theorem incrementReceivedFlits_ok (h : s.incrementReceivedFlits vnet marked = .ok s') :
    Counted marked s s' ∧ s'.running = s.running := by
  cases marked with
  | false =>
    cases h
    refine ⟨⟨rfl, rfl, rfl, rfl, rfl, rfl, rfl, ?_⟩, rfl⟩
    rw [if_neg (by simp)]
    rfl
  | true =>
    have hexit := exitIfAllReceived_ok h
    split at hexit
    · next hall =>
      obtain ⟨hcount, rfl⟩ := hexit
      refine ⟨⟨rfl, rfl, rfl, rfl, rfl, rfl, rfl, ?_⟩, rfl⟩
      rw [if_pos ⟨rfl, hall⟩]
      exact ⟨count_append.trans rfl, hcount, rfl⟩
    · next hall =>
      subst hexit
      refine ⟨⟨rfl, rfl, rfl, rfl, rfl, rfl, rfl, ?_⟩, rfl⟩
      rw [if_neg fun h => hall h.2]
      rfl

theorem incrementStats_counted (h : s.incrementStats curCycle f = .ok s') :
    Counted f.marked s s' ∧ s'.running = s.running.recorded f.marked (f.delay curCycle) := by
  obtain ⟨s₁, hs₁, hsame, hrunning⟩ := incrementStats_ok h
  obtain ⟨hcounted, hkept⟩ := incrementReceivedFlits_ok hs₁
  have hcheck : s'.checkMrkdFlt = s₁.checkMrkdFlt := by
    unfold checkMrkdFlt
    rw [hsame.mrkdFlt, hsame.injected, hsame.received]
  rw [hkept] at hrunning
  refine ⟨⟨hsame.simType.trans hcounted.simType, hsame.warmupCycles.trans hcounted.warmupCycles,
    hsame.mrkdFlt.trans hcounted.mrkdFlt, hsame.injected.trans hcounted.injected,
    hsame.received.trans hcounted.received, ?_, ?_, ?_⟩, hrunning⟩
  · rw [hsame.reported, hcounted.maxFlit]
  · rw [hsame.reported, hcounted.minFlit]
  · rw [hcheck, hsame.exits, hsame.injected, hsame.received, hsame.reported]
    exact hcounted.exit

theorem cyclesSub_error {a b : Nat} :
    Holds (cyclesSub a b) (fun _ => True) fun e => e ≠ .markedCount := by
  unfold cyclesSub
  exact .require ⟨fun _ => trivial, fun _ => nofun⟩

theorem incrementStats_error (hle : f.marked = true → s.markedFltReceived < s.markedFltInjected) :
    Holds (s.incrementStats curCycle f) (fun _ => True) fun e => e ≠ .markedCount := by
  have hreceived : Holds (s.incrementReceivedFlits f.vnet f.marked) (fun _ => True)
      fun e => e ≠ .markedCount := by
    unfold incrementReceivedFlits
    rw [holds_ite]
    refine ⟨fun hmarked => ?_, fun _ => trivial⟩
    unfold exitIfAllReceived
    rw [holds_ite]
    refine ⟨fun hall => ?_, fun _ => trivial⟩
    have hge : s.markedFltInjected ≤ s.markedFltReceived + 1 :=
      of_decide_eq_true ((Bool.and_eq_true _ _).mp hall).2
    have hlt := hle hmarked
    refine holds_require_bind ?_ trivial
    change s.markedFltInjected = s.markedFltReceived + 1
    omega
  unfold incrementStats
  refine .require ⟨fun _ => ?_, fun _ => nofun⟩
  rw [holds_bind]
  refine hreceived.imp fun _ _ => ?_
  rw [holds_bind]
  refine cyclesSub_error.imp fun _ _ => ?_
  rw [holds_bind]
  refine cyclesSub_error.imp fun _ _ => ?_
  rw [holds_bind]
  exact cyclesSub_error.imp fun _ _ => trivial

theorem injectFlit_running {router : Nat} {x : Bool × GarnetStats}
    (h : s.injectFlit curCycle router vnet = .ok x) : x.2.running = s.running := by
  obtain ⟨marked, _, h⟩ := bind_eq_ok.mp h
  cases h
  cases marked <;> rfl

end Received

def delays (calls : List (Nat × StatsCall)) (marked : Bool) (k : Latency) : Set Nat :=
  {d | ∃ curCycle f, (curCycle, .receive f) ∈ calls ∧ f.marked = marked ∧ f.delay curCycle k = d}

section Extrema

variable {s s' : GarnetStats} {calls : List (Nat × StatsCall)} {curCycle router vnet : Nat}
  {marked : Bool} {k : Latency} {f : ReceivedFlit}

theorem delays_inject :
    delays (calls ++ [(curCycle, .inject router vnet)]) marked k = delays calls marked k := by
  unfold delays
  simp

theorem delays_receive : delays (calls ++ [(curCycle, .receive f)]) marked k =
    if f.marked = marked then insert (f.delay curCycle k) (delays calls marked k)
    else delays calls marked k := by
  ext d
  unfold delays
  split
  · next hmarked =>
    simp only [mem_append, mem_singleton, Prod.mk.injEq, StatsCall.receive.injEq,
      Set.mem_insert_iff, Set.mem_ofPred_eq]
    constructor
    · rintro ⟨t, g, hmem | ⟨rfl, rfl⟩, hg, hd⟩
      · exact .inr ⟨t, g, hmem, hg, hd⟩
      · exact .inl hd.symm
    · rintro (rfl | ⟨t, g, hmem, hg, hd⟩)
      · exact ⟨curCycle, f, .inr ⟨rfl, rfl⟩, hmarked, rfl⟩
      · exact ⟨t, g, .inl hmem, hg, hd⟩
  · next hmarked =>
    simp only [mem_append, mem_singleton, Prod.mk.injEq, StatsCall.receive.injEq,
      Set.mem_ofPred_eq]
    constructor
    · rintro ⟨t, g, hmem | ⟨rfl, rfl⟩, hg, hd⟩
      · exact ⟨t, g, hmem, hg, hd⟩
      · exact absurd hg hmarked
    · rintro ⟨t, g, hmem, hg, hd⟩
      exact ⟨t, g, .inl hmem, hg, hd⟩

/-- The running extrema are those of the flits received so far and of the initial values. -/
structure Tracks (calls : List (Nat × StatsCall)) (s : GarnetStats) : Prop where
  maxFlit : ∀ k, IsGreatest (insert 0 (delays calls false k)) (s.running.maxFlit k)
  minFlit : ∀ k, IsLeast (insert 999999 (delays calls false k)) (s.running.minFlit k)
  markedFlit : ∀ k, IsGreatest (insert 0 (delays calls true k)) (s.running.markedFlit k)

theorem tracks_init (simType : Int) (warmupCycles : Nat) (mrkdFlt : List Int) :
    Tracks [] (init simType warmupCycles mrkdFlt) := by
  have hnone (marked : Bool) (k : Latency) : delays [] marked k = ∅ := by
    unfold delays
    simp
  refine ⟨fun k => ?_, fun k => ?_, fun k => ?_⟩
  · rw [hnone, insert_empty_eq]
    exact isGreatest_singleton
  · rw [hnone, insert_empty_eq]
    exact isLeast_singleton
  · rw [hnone, insert_empty_eq]
    exact isGreatest_singleton

theorem Tracks.receive (h : Tracks calls s) (hs : s.incrementStats curCycle f = .ok s') :
    Tracks (calls ++ [(curCycle, .receive f)]) s' := by
  obtain ⟨_, hrunning⟩ := incrementStats_counted hs
  have hgreatest {D : Set Nat} {m d : Nat} (hm : IsGreatest (insert 0 D) m) :
      IsGreatest (insert 0 (insert d D)) (max m d) := by
    rw [Set.insert_comm, max_comm]
    exact hm.insert d
  have hleast {D : Set Nat} {m d : Nat} (hm : IsLeast (insert 999999 D) m) :
      IsLeast (insert 999999 (insert d D)) (min m d) := by
    rw [Set.insert_comm, min_comm]
    exact hm.insert d
  rw [Extrema.recorded] at hrunning
  cases hmarked : f.marked with
  | true =>
    rw [hmarked, if_pos rfl] at hrunning
    refine ⟨fun k => ?_, fun k => ?_, fun k => ?_⟩
    · rw [hrunning, delays_receive, if_neg (by simp [hmarked])]
      exact h.maxFlit k
    · rw [hrunning, delays_receive, if_neg (by simp [hmarked])]
      exact h.minFlit k
    · rw [hrunning, delays_receive, if_pos hmarked]
      exact hgreatest (h.markedFlit k)
  | false =>
    rw [hmarked, if_neg (by simp)] at hrunning
    refine ⟨fun k => ?_, fun k => ?_, fun k => ?_⟩
    · rw [hrunning, delays_receive, if_pos hmarked]
      exact hgreatest (h.maxFlit k)
    · rw [hrunning, delays_receive, if_pos hmarked]
      exact hleast (h.minFlit k)
    · rw [hrunning, delays_receive, if_neg (by simp [hmarked])]
      exact h.markedFlit k

theorem Tracks.call {c : StatsCall} (h : Tracks calls s) (hs : s.call curCycle c = .ok s') :
    Tracks (calls ++ [(curCycle, c)]) s' := by
  cases c with
  | inject router vnet =>
    obtain ⟨x, hx, hs⟩ := bind_eq_ok.mp hs
    cases hs
    have hrunning := injectFlit_running hx
    refine ⟨fun k => ?_, fun k => ?_, fun k => ?_⟩
    · rw [delays_inject, hrunning]
      exact h.maxFlit k
    · rw [delays_inject, hrunning]
      exact h.minFlit k
    · rw [delays_inject, hrunning]
      exact h.markedFlit k
  | receive f => exact h.receive hs

theorem run_tracks {done : List (Nat × StatsCall)} (h : Tracks done s) (hs : s.run calls = .ok s') :
    Tracks (done ++ calls) s' := by
  induction calls generalizing done s with
  | nil =>
    cases hs
    rwa [append_nil]
  | cons x calls ih =>
    obtain ⟨s₁, hcall, hs⟩ := bind_eq_ok.mp hs
    have hrest := ih (h.call hcall) hs
    rwa [append_assoc] at hrest

/-- The greatest of an initial value `b` and the values `D` is the greatest of more values `D'` if
and only if nothing in `D'` exceeds it and it is not just the initial value. -/
theorem isGreatest_iff_of_insert {α : Type} [LinearOrder α] {D D' : Set α} {b m : α}
    (hm : IsGreatest (insert b D) m) (hD : D ⊆ D') :
    IsGreatest D' m ↔ (∃ d ∈ D', b ≤ d) ∧ ∀ x ∈ D', ∃ d ∈ insert b D, x ≤ d := by
  constructor
  · intro h
    exact ⟨⟨m, h.1, hm.2 (Set.mem_insert b D)⟩, fun x hx => ⟨m, hm.1, h.2 hx⟩⟩
  · rintro ⟨⟨d, hd, hbd⟩, hle⟩
    have hupper : m ∈ upperBounds D' := fun x hx => by
      obtain ⟨y, hy, hxy⟩ := hle x hx
      exact hxy.trans (hm.2 hy)
    refine ⟨?_, hupper⟩
    rcases hm.1 with rfl | hmem
    · rwa [hbd.antisymm (hupper hd)]
    · exact hD hmem

theorem isLeast_iff_of_insert {α : Type} [LinearOrder α] {D D' : Set α} {b m : α}
    (hm : IsLeast (insert b D) m) (hD : D ⊆ D') :
    IsLeast D' m ↔ (∃ d ∈ D', d ≤ b) ∧ ∀ x ∈ D', ∃ d ∈ insert b D, d ≤ x :=
  isGreatest_iff_of_insert (α := αᵒᵈ) hm hD

theorem delays_mono : delays calls marked k ⊆ delays (calls ++ [(curCycle, .receive f)]) marked k := by
  rw [delays_receive]
  split
  · exact Set.subset_insert _ _
  · exact Set.Subset.rfl

theorem forall_delays_receive {P : Nat → Prop} (hP : ∀ d ∈ delays calls marked k, P d) :
    (∀ d ∈ delays (calls ++ [(curCycle, .receive f)]) marked k, P d) ↔
      (f.marked = marked → P (f.delay curCycle k)) := by
  rw [delays_receive]
  split
  · next hmarked =>
    rw [Set.forall_mem_insert]
    exact ⟨fun h _ => h.1, fun h => ⟨h hmarked, hP⟩⟩
  · next hmarked => exact ⟨fun _ h => absurd h hmarked, fun _ => hP⟩

/-- Each call reports the extrema from before the call. So they are those of all flits received if
and only if the last flit is not an extreme one (or has the value of the initial extremum). -/
theorem reported_extrema {simType : Int} {warmupCycles : Nat} {mrkdFlt : List Int}
    (hrun : (init simType warmupCycles mrkdFlt).run calls = .ok s)
    (hs : s.incrementStats curCycle f = .ok s') (k : Latency) :
    (IsGreatest (delays (calls ++ [(curCycle, .receive f)]) false k) (s'.reported.maxFlit k) ↔
      (delays (calls ++ [(curCycle, .receive f)]) false k).Nonempty ∧
        (f.marked = false → ∃ d ∈ insert 0 (delays calls false k), f.delay curCycle k ≤ d)) ∧
    (IsLeast (delays (calls ++ [(curCycle, .receive f)]) false k) (s'.reported.minFlit k) ↔
      (∃ d ∈ delays (calls ++ [(curCycle, .receive f)]) false k, d ≤ 999999) ∧
        (f.marked = false → ∃ d ∈ insert 999999 (delays calls false k), d ≤ f.delay curCycle k)) ∧
    (s.exits.count .allMarkedReceived < s'.exits.count .allMarkedReceived →
      (IsGreatest (delays (calls ++ [(curCycle, .receive f)]) true k) (s'.reported.markedFlit k) ↔
        ∃ d ∈ insert 0 (delays calls true k), f.delay curCycle k ≤ d)) := by
  have htracks : Tracks calls s := run_tracks (tracks_init simType warmupCycles mrkdFlt) hrun
  obtain ⟨hcounted, _⟩ := incrementStats_counted hs
  refine ⟨?_, ?_, fun hexit => ?_⟩
  · rw [hcounted.maxFlit, isGreatest_iff_of_insert (htracks.maxFlit k) delays_mono,
      forall_delays_receive fun d hd => ⟨d, .inr hd, le_rfl⟩]
    simp only [Nat.zero_le, and_true, Set.Nonempty]
  · rw [hcounted.minFlit, isLeast_iff_of_insert (htracks.minFlit k) delays_mono,
      forall_delays_receive fun d hd => ⟨d, .inr hd, le_rfl⟩]
  · have hreport := hcounted.exit
    split at hreport
    · next hall =>
      rw [hreport.2.2, isGreatest_iff_of_insert (htracks.markedFlit k) delays_mono,
        forall_delays_receive fun d hd => ⟨d, .inr hd, le_rfl⟩]
      have hlast : f.delay curCycle k ∈ delays (calls ++ [(curCycle, .receive f)]) true k := by
        rw [delays_receive, if_pos hall.1]
        exact Set.mem_insert _ _
      simp only [hall.1, true_imp_iff, and_iff_right_iff_imp]
      exact fun _ => ⟨_, hlast, Nat.zero_le _⟩
    · omega

def sampleFlit (marked : Bool) : ReceivedFlit where
  vnet := 0
  marked := marked
  type := .headTail
  enqueueTime := 2
  dequeueTime := 8
  srcDelay := 1
  hopsTraversed := 1

def sampleCalls : List (Nat × StatsCall) :=
  [(1, .inject 0 0), (1, .inject 0 0), (10, .receive (sampleFlit false)),
    (10, .receive (sampleFlit true))]

/-- The second of two marked flits with the same delays. -/
theorem reported_extrema_sampleCalls : ∃ s s' : GarnetStats,
    (init 2 0 [2]).run sampleCalls = .ok s ∧ s.incrementStats 10 (sampleFlit true) = .ok s' ∧
    s'.exits = [.allMarkedReceived] ∧ ∀ k,
      IsGreatest (delays (sampleCalls ++ [(10, .receive (sampleFlit true))]) false k)
        (s'.reported.maxFlit k) ∧
      IsLeast (delays (sampleCalls ++ [(10, .receive (sampleFlit true))]) false k)
        (s'.reported.minFlit k) ∧
      IsGreatest (delays (sampleCalls ++ [(10, .receive (sampleFlit true))]) true k)
        (s'.reported.markedFlit k) := by
  obtain ⟨s, s', hrun, hs, hexits, hexits'⟩ : ∃ s s' : GarnetStats,
      (init 2 0 [2]).run sampleCalls = .ok s ∧ s.incrementStats 10 (sampleFlit true) = .ok s' ∧
      s.exits = [] ∧ s'.exits = [.allMarkedReceived] := ⟨_, _, rfl, rfl, rfl, rfl⟩
  refine ⟨s, s', hrun, hs, hexits', fun k => ?_⟩
  have hmem (marked : Bool) : (sampleFlit marked).delay 10 k ∈ delays sampleCalls marked k :=
    ⟨10, sampleFlit marked, by cases marked <;> simp [sampleCalls], rfl, rfl⟩
  obtain ⟨hmax, hmin, hmarked⟩ := reported_extrema hrun hs k
  refine ⟨hmax.mpr ⟨⟨_, delays_mono (hmem false)⟩, nofun⟩,
    hmin.mpr ⟨⟨_, delays_mono (hmem false), by cases k <;> decide⟩, nofun⟩,
    (hmarked (by rw [hexits, hexits']; decide)).mpr ⟨_, .inr (hmem true), le_rfl⟩⟩

end Extrema

/-- After its only flit the network reports the initial values, and so it does at the exit for its
only marked flit. -/
theorem reported_extrema_first :
    (∃ s : GarnetStats, (init 1 0 []).incrementStats 10 (sampleFlit false) = .ok s ∧ ∀ k,
      ¬IsGreatest (delays [(10, .receive (sampleFlit false))] false k) (s.reported.maxFlit k) ∧
      ¬IsLeast (delays [(10, .receive (sampleFlit false))] false k) (s.reported.minFlit k)) ∧
    ∃ s s' : GarnetStats, (init 2 0 [1]).run [(1, .inject 0 0)] = .ok s ∧
      s.incrementStats 10 (sampleFlit true) = .ok s' ∧ s'.exits = [.allMarkedReceived] ∧ ∀ k,
      ¬IsGreatest (delays [(1, .inject 0 0), (10, .receive (sampleFlit true))] true k)
        (s'.reported.markedFlit k) := by
  have hdelay (marked : Bool) (k : Latency) : 0 < (sampleFlit marked).delay 10 k ∧
      (sampleFlit marked).delay 10 k < 999999 := by
    cases marked <;> cases k <;> decide
  refine ⟨⟨_, rfl, fun k => ⟨fun h => ?_, fun h => ?_⟩⟩, ⟨_, _, rfl, rfl, rfl, fun k h => ?_⟩⟩
  · have hle := h.2 ⟨10, sampleFlit false, mem_singleton_self _, rfl, rfl⟩
    exact absurd hle (not_le.mpr (hdelay false k).1)
  · have hle := h.2 ⟨10, sampleFlit false, mem_singleton_self _, rfl, rfl⟩
    exact absurd hle (not_le.mpr (hdelay false k).2)
  · have hle := h.2 ⟨10, sampleFlit true, mem_of_mem_tail (mem_singleton_self _), rfl, rfl⟩
    exact absurd hle (not_le.mpr (hdelay true k).1)

end GarnetStats

end Drain
