import Drain.Control

/-! The order check of `send_allowed`. It compares the requested output port with a
field of the virtual channel that nothing ever sets. -/

namespace Drain

open List State

def orderedNet : Net :=
  { pairNet 1 8 Nat.one_pos eight_pos with
    vcsPerVnet := 2
    isVNetOrdered := fun _ => true
    vcsPerVnet_pos := Nat.two_pos }

/-- Node 0 sends a message in virtual network 1 and then two in virtual network 0. The
last two reach router 0 while the network is halted, in the cycles 8 and 9. -/
def reorderActions : List Action :=
  [.message 0 1 ⟨[1], 1⟩, .message 0 0 ⟨[1], 6⟩, .message 0 0 ⟨[1], 7⟩, .tick,
    .ni 0 fun _ => true, .tick, .link (.extIn 0), .tick, .router 0, .tick, .link (.int 0 1),
    .creditLink (.extIn 0), .tick, .router 1, .ni 0 fun _ => true, .tick, .ni 0 fun _ => true,
    .link (.extOut 1), .creditLink (.int 0 1), .tick, .router 0, .ni 0 fun _ => true,
    .ni 1 fun _ => true, .link (.extIn 0), .tick, .router 0, .link (.extIn 0),
    .creditLink (.extOut 1), .tick, .router 0, .router 1, .tick, .router 0, .tick]

section Reachable

variable {net : Net} {s : State} {p : InPort} {op : OutPort} {invc outport : Nat}

theorem VirtualChannel.Wf.needStage_ok {v : VirtualChannel} {curCycle time : Nat}
    (h : v.Wf curCycle) (stage : FlitStage) (htime : curCycle ≤ time) :
    ∃ b, v.needStage stage time = .ok b := by
  unfold VirtualChannel.needStage
  rcases h.1 with ⟨hempty, _⟩ | ⟨f, hbuf, hactive⟩
  · exact ⟨false, by simp [hempty, isReady]; rfl⟩
  · by_cases hready : isReady v.inputBuffer time
    · rw [if_pos hready]
      simp [hactive, h.2.1.trans htime, require, hbuf, peekTopFlit]
    · rw [if_neg hready]
      exact ⟨false, rfl⟩

theorem Wf.sendAllowed_eq {c : Core} (hwf : Wf net c)
    (hvnet : invc / net.vcsPerVnet < net.virtualNetworks) :
    sendAllowed net c p invc op outport =
      .ok (hasFreeVc net c op.link (invc / net.vcsPerVnet)) := by
  have hearlier : enqueuedEarlier net c p invc outport (invc / net.vcsPerVnet) =
      .ok false := by
    refine anyM_eq_false fun i _ => ?_
    have hvc := hwf.vcs p.link (invc / net.vcsPerVnet * net.vcsPerVnet + i)
    obtain ⟨b, hb⟩ := hvc.needStage_ok .SA le_rfl
    dsimp only
    rw [hb, hvc.2.2.2]
    cases b <;> rfl
  have hget : getVnet net invc = .ok (invc / net.vcsPerVnet) := by
    unfold getVnet require
    rw [if_pos hvnet]
    rfl
  rw [sendAllowed, hget, ok_bind, hearlier]
  cases hasFreeVc net c op.link (invc / net.vcsPerVnet) with
  | true => cases net.isVNetOrdered (invc / net.vcsPerVnet) <;> rfl
  | false => rfl

/-- In no reachable state, with or without drains, does a VC have an output port in its
field, so the order is never checked: a free output VC is all that a flit needs. -/
theorem sendAllowed_eq_hasFreeVc (hs : s.FreeReachable net)
    (hvnet : invc / net.vcsPerVnet < net.virtualNetworks) :
    sendAllowed net s.toCore p invc op outport =
      .ok (hasFreeVc net s.toCore op.link (invc / net.vcsPerVnet)) :=
  hs.wf.1.sendAllowed_eq hvnet

theorem sendAllowed_eq_hasFreeVc_orderedNet : ∃ s : State, s.FreeReachable orderedNet ∧
    orderedNet.isVNetOrdered 0 = true ∧ (s.vcs (.extIn 0) 0).inputBuffer.length = 1 ∧
    (s.vcs (.extIn 0) 1).inputBuffer.length = 1 ∧
    sendAllowed orderedNet s.toCore ⟨.extIn 0, .Local⟩ 1 ⟨.int 0 1, .East, [1], 1⟩ 1 = .ok true := by
  obtain ⟨s, hs, hzero, hone, hfree⟩ : ∃ s : State, s.Reachable orderedNet ∧
      (s.vcs (.extIn 0) 0).inputBuffer.length = 1 ∧ (s.vcs (.extIn 0) 1).inputBuffer.length = 1 ∧
      hasFreeVc orderedNet s.toCore (.int 0 1) 0 = true :=
    exists_reachable reorderActions (fun _ => 0) (by decide +kernel)
  refine ⟨s, hs.free, rfl, hzero, hone, ?_⟩
  rw [sendAllowed_eq_hasFreeVc hs.free (by decide)]
  exact congrArg Except.ok hfree

end Reachable

end Drain
