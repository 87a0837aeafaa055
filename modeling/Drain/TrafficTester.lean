import Drain.Lib.Calls
import Drain.SyntheticTraffic

/-! The tester of the synthetic traffic: it generates packets at a given rate whether or not an
earlier packet still waits for the port to call back. -/

namespace Drain

open List

structure TesterParams extends GarnetSyntheticTraffic where
  -- negative if there is no bound
  numPacketsMax : Int := -1
  singleSender : Int := -1
  injRate : Rat
  precision : Nat := 3
  simType : Nat := 1
  simCycles : Nat := 1000

inductive TesterFailure where
  | unknownSimType
  | retryWithoutPacket
  deriving DecidableEq

/-- The tester and what the port has taken from it. A packet is named by its number in the order
of generation. -/
structure Tester where
  generated : List SyntheticPacket := []
  retryPkt : Option Nat := none
  numPacketsSent : Nat := 0
  noResponseCycles : Nat := 0
  exited : Bool := false
  accepted : List Nat := []
  -- the port has refused a packet and has not called back since
  refused : Bool := false

/-- The random numbers of a tick and the port's answer to the packet that it may send. -/
structure TickDraw where
  curTick : Nat
  trySending : Nat
  destDraw : Nat
  vnetDraw : Nat
  accept : Bool

inductive TesterCall where
  | tick (draw : TickDraw)
  | recvReqRetry (accept : Bool)
  | completeRequest

namespace Tester

variable (p : TesterParams) (t : Tester)

def sendPkt (pkt : Nat) (accept : Bool) : Tester :=
  let t := if accept then { t with accepted := t.accepted ++ [pkt] }
    else { t with retryPkt := some pkt, refused := true }
  { t with numPacketsSent := t.numPacketsSent + 1 }

def generatePkt (draw : TickDraw) : Tester :=
  { t with generated := t.generated ++ [p.generatePkt draw.destDraw draw.vnetDraw] }.sendPkt
    t.generated.length draw.accept

def sendAllowedThisCycle (draw : TickDraw) : Bool :=
  (draw.trySending : Rat) < p.injRate * 10 ^ p.precision

def senderEnable : Bool :=
  !(0 ≤ p.numPacketsMax && p.numPacketsMax ≤ t.numPacketsSent) &&
    !(0 ≤ p.singleSender && p.singleSender ≠ (p.id : Int))

/-- The last part of a tick: the next one is scheduled unless the simulation ends. -/
def scheduleWakeup (curTick : Nat) : Except TesterFailure Tester :=
  match p.simType with
  | 1 => pure (if p.simCycles ≤ curTick then { t with exited := true } else t)
  | 2 => pure t
  | _ => throw .unknownSimType

def generates (draw : TickDraw) : Bool := sendAllowedThisCycle p draw && t.senderEnable p

def tick (draw : TickDraw) : Except TesterFailure Tester :=
  let t := { t with noResponseCycles := t.noResponseCycles + 1 }
  let t := if t.generates p draw then t.generatePkt p draw else t
  t.scheduleWakeup p draw.curTick

def doRetry (accept : Bool) : Except TesterFailure Tester :=
  match t.retryPkt with
  | none => throw .retryWithoutPacket
  | some pkt =>
    pure (if accept then { t with accepted := t.accepted ++ [pkt], retryPkt := none, refused := false }
      else { t with refused := true })

def completeRequest : Tester := { t with noResponseCycles := 0 }

def call : TesterCall → Except TesterFailure Tester
  | .tick draw => t.tick p draw
  | .recvReqRetry accept => t.doRetry accept
  | .completeRequest => pure t.completeRequest

/-- The calls of a tester whose port calls back only after a refusal and refuses a new packet
only as `may` allows. -/
def calls (may : Tester → Prop) : Calls Tester TesterCall TesterFailure where
  valid t
    | .tick draw => t.generates p draw = true → draw.accept = false → may t
    | .recvReqRetry _ => t.refused = true
    | .completeRequest => True
  call t := t.call p

instance (may : Tester → Prop) [DecidablePred may] (t : Tester) (c : TesterCall) :
    Decidable ((calls p may).valid t c) :=
  match c with
  | .tick draw =>
    inferInstanceAs (Decidable (t.generates p draw = true → draw.accept = false → may t))
  | .recvReqRetry _ => inferInstanceAs (Decidable (t.refused = true))
  | .completeRequest => inferInstanceAs (Decidable True)

def idle : Prop := t.retryPkt = none

instance : DecidablePred idle := fun t => inferInstanceAs (Decidable (t.retryPkt = none))

variable {p t} {t' : Tester} {c : TesterCall}

/-- The packets that the port has taken and the one that waits are the generated ones. -/
structure Accounted (t : Tester) : Prop where
  placed : (t.accepted ++ t.retryPkt.toList).Perm (range t.generated.length)
  sent : t.numPacketsSent = t.generated.length
  waits : t.refused = true → t.retryPkt ≠ none

theorem Accounted.generatePkt {draw : TickDraw} (h : t.Accounted)
    (hroom : draw.accept = false → t.idle) : (t.generatePkt p draw).Accounted := by
  have hsent := h.sent
  unfold Tester.generatePkt sendPkt
  cases haccept : draw.accept with
  | true =>
    refine ⟨?_, by simpa using hsent, h.waits⟩
    have hswap : (t.accepted ++ [t.generated.length] ++ t.retryPkt.toList).Perm
        (t.accepted ++ t.retryPkt.toList ++ [t.generated.length]) := by
      rw [append_assoc, append_assoc]
      exact perm_append_comm.append_left _
    simpa [range_succ] using hswap.trans (h.placed.append_right [t.generated.length])
  | false =>
    have hidle : t.retryPkt = none := hroom haccept
    refine ⟨?_, by simpa using hsent, nofun⟩
    have hplaced := h.placed
    rw [hidle] at hplaced
    simpa [range_succ] using hplaced.append_right [t.generated.length]

theorem Accounted.tick {draw : TickDraw} (h : t.Accounted)
    (hroom : t.generates p draw = true → draw.accept = false → t.idle)
    (htick : t.tick p draw = .ok t') : t'.Accounted := by
  have hmade : (if t.generates p draw = true then
      { t with noResponseCycles := t.noResponseCycles + 1 }.generatePkt p draw
      else { t with noResponseCycles := t.noResponseCycles + 1 }).Accounted := by
    split
    · next hgen =>
      exact Accounted.generatePkt (t := { t with noResponseCycles := t.noResponseCycles + 1 })
        ⟨h.placed, h.sent, h.waits⟩ (hroom hgen)
    · exact ⟨h.placed, h.sent, h.waits⟩
  unfold Tester.tick scheduleWakeup at htick
  dsimp only at htick
  split at htick
  · cases htick
    split
    · exact ⟨hmade.placed, hmade.sent, hmade.waits⟩
    · exact hmade
  · cases htick
    exact hmade
  · cases htick

theorem Accounted.doRetry {accept : Bool} (h : t.Accounted) (hretry : t.doRetry accept = .ok t') :
    t'.Accounted := by
  unfold Tester.doRetry at hretry
  split at hretry
  · cases hretry
  · next pkt hpkt =>
    have hplaced := h.placed
    rw [hpkt] at hplaced
    cases hretry
    cases accept with
    | true => exact ⟨by simpa using hplaced, h.sent, nofun⟩
    | false => exact ⟨h.placed, h.sent, fun _ => by simp [hpkt]⟩

theorem Accounted.call (h : t.Accounted) (hvalid : (calls p idle).valid t c)
    (hcall : (calls p idle).call t c = .ok t') : t'.Accounted := by
  cases c with
  | tick draw => exact h.tick hvalid hcall
  | recvReqRetry accept => exact h.doRetry hcall
  | completeRequest =>
    cases hcall
    exact ⟨h.placed, h.sent, h.waits⟩

theorem accounted_init : Accounted {} := ⟨.nil, rfl, nofun⟩

/-- While the port refuses no packet before an earlier one has been sent again, every packet is
accepted once or waits, and the tester has counted each. -/
theorem packets_accounted (h : (calls p idle).Runs {} t) :
    (∀ pkt < t.generated.length, (t.accepted.count pkt = 1 ∧ t.retryPkt ≠ some pkt) ∨
        (t.accepted.count pkt = 0 ∧ t.retryPkt = some pkt)) ∧
      (∀ pkt ∈ t.accepted, pkt < t.generated.length) ∧
      t.numPacketsSent = t.accepted.length + (if t.retryPkt = none then 0 else 1) ∧
      ∀ accept, t.refused = true → ∃ t', t.doRetry accept = .ok t' := by
  have hok := h.keeps (fun _ _ _ hs hvalid hcall => Accounted.call hs hvalid hcall) accounted_init
  refine ⟨fun pkt hpkt => ?_, fun pkt hpkt => ?_, ?_, fun accept hrefused => ?_⟩
  · have hcount : (t.accepted ++ t.retryPkt.toList).count pkt = 1 := by
      rw [hok.placed.count_eq, count_eq_one_of_mem nodup_range (mem_range.mpr hpkt)]
    rw [count_append] at hcount
    cases hretry : t.retryPkt with
    | none => simp_all
    | some other =>
      by_cases heq : other = pkt
      · simp_all
      · rw [hretry, Option.toList_some, count_singleton, if_neg (by simpa using heq)] at hcount
        exact .inl ⟨hcount, by simpa using heq⟩
  · exact mem_range.mp (hok.placed.subset (mem_append_left _ hpkt))
  · have hlen := hok.placed.length_eq
    rw [length_append, length_range] at hlen
    rw [hok.sent, ← hlen]
    cases t.retryPkt <;> rfl
  · unfold Tester.doRetry
    split
    · next hnone => exact absurd hnone (hok.waits hrefused)
    · exact ⟨_, rfl⟩

def fullRate : TesterParams where
  id := 0
  numDestinations := 4
  traffic := .neighbor
  injRate := 1

/-- The first packet is refused and sent again after the second one was accepted. -/
theorem packets_accounted_retried : ∃ t, (calls fullRate idle).Runs {} t ∧
    t.numPacketsSent = 2 ∧ t.accepted = [1, 0] ∧ t.accepted.count 0 = 1 := by
  obtain ⟨t, hrun, hgenerated, hretry, haccepted⟩ :=
    Calls.exists_run (m := calls fullRate idle) (s := ({} : Tester))
      (Q := fun t => t.generated.length = 2 ∧ t.retryPkt = none ∧ t.accepted = [1, 0])
      [.tick ⟨0, 0, 0, 0, false⟩, .tick ⟨1, 0, 0, 0, true⟩, .recvReqRetry true] (by decide +kernel)
  have hacc := packets_accounted hrun
  refine ⟨t, hrun, by simpa [hretry, haccepted] using hacc.2.2.1, haccepted, ?_⟩
  rcases hacc.1 0 (by omega) with h | h
  · exact h.1
  · simp [hretry] at h

/-- Two packets are refused before the port calls back: the first one is lost. -/
theorem packet_dropped_second_refusal : ∃ t, (calls fullRate fun _ => True).Runs {} t ∧
    t.generated.length = 2 ∧ t.accepted = [] ∧ t.retryPkt = some 1 ∧ t.numPacketsSent = 2 :=
  Calls.exists_run (m := calls fullRate fun _ => True) (s := ({} : Tester))
    (Q := fun t => t.generated.length = 2 ∧ t.accepted = [] ∧ t.retryPkt = some 1 ∧
      t.numPacketsSent = 2)
    [.tick ⟨0, 0, 0, 0, false⟩, .tick ⟨1, 0, 0, 0, false⟩] (by decide +kernel)

end Tester

end Drain
