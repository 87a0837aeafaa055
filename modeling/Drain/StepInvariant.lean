import Drain.Control

/-! Invariants of the data in the network. A step of a run is made of moves, calls of `doSpin`, the
stamping of the drained flits, and changes of the clock, the lock, the halts and the pending
wakeups; what all of them keep holds in every run. -/

namespace Drain

variable {net : Net} {I : Core → Prop} {c t u : Core} {s : State} {r : Nat} {a : Action} {ops : List Op}

/-- The cores differ in the clock, the control and the pending wakeups only. -/
def SameData (c t : Core) : Prop :=
  t = { c with
    curCycle := t.curCycle
    lock := t.lock
    halt := t.halt
    agenda := t.agenda
    haltLog := t.haltLog
    drainLog := t.drainLog }

theorem SameData.flitsAt (h : SameData c t) : t.flitsAt = c.flitsAt := by
  rw [h]
  funext x
  cases x <;> rfl

theorem Performed.keeps (hstep : Performed net c a t) (hc : Wf net c) (h : I c)
    (hdata : ∀ {c t}, I c → SameData c t → I t)
    (hmove : ∀ {op c t}, Wf net c → I c → Move net op c t → I t)
    (hspin : ∀ {r m₁ m₂}, ReadPhase net r (State.popEvent (.router r) c) m₁ → Wf net m₁ → I m₁ →
      SpinPhase net r m₁ m₂ → I m₂) : I t := by
  have hpop (k : Consumer) : I (State.popEvent k c) := hdata h rfl
  have htrace {ops : List Op} {u v : Core} (hu : Wf net u) (h : I u) (htrace : Trace (Move net) ops u v) :
      I v :=
    (htrace.keeps (I := fun c => Wf net c ∧ I c)
      (fun _ _ _ _ hstep ⟨hc, h⟩ => ⟨hc.move hstep, hmove hc h hstep⟩) ⟨hu, h⟩).2
  cases hstep with
  | router hread hphase halloc =>
    obtain ⟨_, htrace₁, _⟩ := hread.trace
    obtain ⟨_, htrace₂, _⟩ := halloc.trace
    have hwf := hread.wf (hc.popEvent _)
    have hm := htrace (hc.popEvent _) (hpop _) htrace₁
    exact htrace (hphase.wf hwf) (hspin hread hwf hm hphase) htrace₂
  | ni hmoves _ => exact htrace (hc.popEvent _) (hpop _) hmoves
  | link hmove' => exact hmove (hc.popEvent _) (hpop _) hmove'
  | linkIdle _ => exact hpop _
  | creditLink hmove' => exact hmove (hc.popEvent _) (hpop _) hmove'
  | creditLinkIdle _ => exact hpop _
  | message hmoves _ => exact htrace hc h hmoves
  | dequeueCallback hmoves _ => exact htrace hc h hmoves
  | tick => exact hdata h rfl

structure StepInv (net : Net) (I : Core → Prop) : Prop where
  data : ∀ {c t}, I c → SameData c t → I t
  move : ∀ {op c t}, Wf net c → I c → Move net op c t → I t
  spin : ∀ {vc c t}, Wf net c → vc < net.numVcs → I c → SpinMove net vc c t → I t
  stamp : ∀ {c}, Wf net c → I c → I (c.flitTimesSet net)

namespace StepInv

variable (hI : StepInv net I)

include hI

theorem spins (hc : Wf net c) (h : I c) (hspins : Spins net c t) : I t := by
  obtain ⟨calls, hcalls, htrace⟩ := hspins
  refine (htrace.keeps (I := fun c => Wf net c ∧ I c) (fun vc hvc _ _ hmove ⟨hc, h⟩ => ?_) ⟨hc, h⟩).2
  exact ⟨hmove.wf, hI.spin hc (Net.lt_numVcs_of_mem_drainVcs (hcalls vc hvc)) h hmove⟩

theorem spinPhase (hc : Wf net c) (h : I c) (hspin : SpinPhase net r c t) : I t := by
  cases hspin with
  | skip => exact h
  | halt => exact hI.data h rfl
  | drain _ _ _ hspins =>
    have hstart : I (c.drainStart net) := hI.data h rfl
    have hstamped := hI.stamp (hc.drainStart.spins hspins) (hI.spins hc.drainStart hstart hspins)
    exact hI.data hstamped rfl

theorem performed (hc : Wf net c) (h : I c) (hstep : Performed net c a t) : I t :=
  hstep.keeps hc h hI.data hI.move fun _ hwf hm hphase => hI.spinPhase hwf hm hphase

theorem reachable (h : s.FreeReachable net) (hinit : ∀ random, I (State.init net random).toCore) :
    I s.toCore :=
  h.induct hinit fun _ _ _ hreach _ hstep hI' => hI.performed hreach.wf.1 hI' hstep

theorem runs {s' : State} (hs : s.FreeReachable net) (h : I s.toCore)
    (hrun : Relation.ReflTransGen (State.FreeStep net) s s') : I s'.toCore := by
  obtain ⟨random, hinit⟩ := hs
  induction hrun with
  | refl => exact h
  | @tail u v hrun hstep ih =>
    have hu : u.FreeReachable net := ⟨random, hinit.trans hrun⟩
    obtain ⟨a, hvalid, hperform⟩ := hstep
    exact hI.performed hu.wf.1 ih ((perform_spec hu.wf.1 hu.wf.2 hvalid).of_ok hperform)

end StepInv

end Drain
