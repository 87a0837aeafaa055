import Drain.WakeupFrame

/-! The pointers from which the output ports start to look for a request. The moves do
not mention them; only a grant changes one, and it stays within the input ports. -/

namespace Drain

open State Prod

def State.Pointed (net : Net) (s : State) : Prop :=
  ∀ r o, 0 < (net.inports r).length → s.roundRobinInport r o < (net.inports r).length

section Runs

variable {net : Net} {r i o v : Nat} {p : InPort} {op : OutPort} {s : State}

theorem Frames.pointed {α : Type} {g : α → State} {x : Except Failure α}
    (h : Frames x (fun a => (g a).roundRobinInport) s.roundRobinInport) (hs : s.Pointed net) :
    Holds x (fun a => (g a).Pointed net) fun _ => True := by
  refine h.imp fun a ha => ?_
  change (g a).roundRobinInport = _ at ha
  unfold State.Pointed
  rwa [ha]

theorem nextIndex_lt (i : Nat) {bound : Nat} (h : 0 < bound) : nextIndex i bound < bound := by
  unfold nextIndex
  split <;> omega

theorem grantOutport_pointers (s : State) :
    Frames (s.grantOutport net r op o p i v) roundRobinInport
      (setEntry s.roundRobinInport r o
        (nextIndex (s.roundRobinInport r o) (net.inports r).length)) :=
  (grantOutport_frame op o p i v rfl).map fst

theorem arbitrateOutports_pointed (t : State × Requests) (ht : t.1.Pointed net) :
    Holds (arbitrateOutports net r t) (State.Pointed net) fun _ => True := by
  have hport (op : OutPort) (o n inport : Nat) (t : State × Requests) (ht : t.1.Pointed net) :
      Holds (arbitrateOutport net r op o n inport t) (fun t => t.1.Pointed net)
        fun _ => True := by
    induction n generalizing inport with
    | zero => exact ht
    | succ n ih =>
      unfold arbitrateOutport
      rw [holds_ite, holds_bind]
      refine ⟨fun _ => (holds_true _).imp fun p _ => ?_, fun _ => ih _⟩
      rw [holds_bind]
      refine (grantOutport_pointers t.1).imp fun u hu => ?_
      rw [holds_pure, State.Pointed, hu]
      exact forall_setEntry (P := fun r _ k => 0 < (net.inports r).length → k < (net.inports r).length)
        ht (nextIndex_lt _)
  unfold arbitrateOutports
  rw [holds_ite, holds_bind]
  refine ⟨fun _ => ht, fun _ => Holds.imp (holds_foldlM (fun t : State × Requests =>
    t.1.Pointed net) _ ht fun op _ t ht => hport _ _ _ _ t ht) fun _ h => h⟩

theorem niWakeup_pointers (n : Nat) (slots : Nat → Bool) (s : State) :
    Frames (s.niWakeup net n slots) roundRobinInport s.roundRobinInport := by
  have hstall (t : State) : (t.checkStallQueue n slots).2.roundRobinInport = t.roundRobinInport := by
    unfold checkStallQueue
    split <;> rfl
  have hreceive (enqueued : Bool) (t : State) :
      Frames (t.receiveFlit n slots enqueued) roundRobinInport t.roundRobinInport :=
    frames_ite (frames_bind fun _ => frames_bind fun _ => frames_ite rfl rfl) rfl
  rw [niWakeup_eq]
  refine ((inject_frame s).map EjectFields.pointers).bind fun t ht => ?_
  refine (hreceive _ _).bind fun u hu => ?_
  refine ((receiveCredits_frame u).map EjectFields.pointers).imp fun v hv => ?_
  exact hv.trans (hu.trans ((hstall t).trans ht))

theorem State.FreeReachable.pointed (h : s.FreeReachable net) : s.Pointed net := by
  obtain ⟨random, hrun⟩ := h
  induction hrun with
  | refl => exact fun _ _ h => h
  | @tail s₁ s₂ _ hstep ih =>
    obtain ⟨a, _, hperform⟩ := hstep
    refine Holds.of_ok (E := fun _ => True) ?_ hperform
    cases a with
    | router r =>
      change Holds ((s₁.on (popEvent (.router r))).routerWakeup net true r) _ _
      have hpop : (s₁.on (popEvent (.router r))).Pointed net := ih
      rw [routerWakeup_eq, holds_bind]
      refine (((readPorts_frame rfl).map fst).pointed hpop).imp fun t ht => ?_
      have hspin : Frames (if net.spin then t.spinStage net true r else pure t) kept t.kept :=
        frames_ite ((spinStage_frame true rfl).map fst) rfl
      rw [holds_bind]
      refine ((hspin.map fst).pointed ht).imp fun t ht => ?_
      unfold switchAllocatorWakeup
      rw [bind_assoc, holds_bind]
      refine (((arbitrateInports_frame rfl).map fst).pointed ht).imp fun t ht => ?_
      rw [bind_assoc, holds_bind]
      refine (arbitrateOutports_pointed t ht).imp fun t ht => ?_
      have hcheck : Frames (t.checkForWakeup net r) kept t.kept :=
        frames_bind fun _ => frames_ite rfl rfl
      rw [holds_bind]
      refine ((hcheck.map fst).pointed ht).imp fun t ht => ?_
      exact ((crossbarWakeup_frame rfl).map fst).pointed ht
    | ni n slots => exact (niWakeup_pointers n slots (s₁.on (popEvent (.ni n)))).pointed ih
    | _ => exact ih

end Runs

end Drain
