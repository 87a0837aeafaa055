import Drain.StepInvariant

/-! Invariants of single flits: what a flit's way from buffer to buffer and the drains keep, and what
holds of a new flit, holds of every flit in every run. -/

namespace Drain

variable {net : Net} {P : Place → Flit → Prop}

def Core.AllFlits (c : Core) (P : Place → Flit → Prop) : Prop :=
  ∀ x, ∀ f ∈ c.flitsAt x, P x f

theorem Core.AllFlits.congr {c t : Core} (h : c.AllFlits P) (heq : t.flitsAt = c.flitsAt) :
    t.AllFlits P := by
  unfold Core.AllFlits
  rwa [heq]

/-- What holds of new flits, and what the drains keep. -/
structure FlitSource (net : Net) (P : Place → Flit → Prop) : Prop where
  made : ∀ {n v vnet dest : Nat} (ptr curCycle : Nat), n < net.nodes → v < net.numVcs →
    dest < net.nodes → v / net.vcsPerVnet = (if net.injSingleVnet = 0 then vnet else 0) →
    P (.niVc n v) (newFlit ptr 0 v vnet (State.messageRoute net n vnet dest) 1 curCycle)
  spun : ∀ {vc c t}, Wf net c → SpinMove net vc c t → c.AllFlits P →
    ∀ l v, ∀ f ∈ (t.vcs l v).inputBuffer, P (.vc l v) f
  delayed : ∀ {l v f} (curCycle : Nat), P (.vc l v) f → P (.vc l v) (f.delayed net curCycle)

structure FlitInv (net : Net) (P : Place → Flit → Prop) : Prop extends FlitSource net P where
  carried : ∀ {c x y f f'}, Wf net c → f ∈ c.flitsAt x → Carried net c x y f f' → P x f → P y f'

/-- The same where the direction maps have a property that every step keeps. -/
structure FlitInvOn (net : Net) (D : (Nat → PortDirection → Option Nat) → Prop)
    (P : Place → Flit → Prop) : Prop extends FlitSource net P where
  dirns_move : ∀ {op c t}, Move net op c t → D c.outportsDirn2idx → D t.outportsDirn2idx
  dirns_spin : ∀ {vc c t}, SpinMove net vc c t → D c.outportsDirn2idx → D t.outportsDirn2idx
  carried : ∀ {c x y f f'}, Wf net c → D c.outportsDirn2idx → f ∈ c.flitsAt x →
    Carried net c x y f f' → P x f → P y f'

theorem FlitInv.on (hP : FlitInv net P) : FlitInvOn net (fun _ => True) P where
  toFlitSource := hP.toFlitSource
  dirns_move := fun _ _ => trivial
  dirns_spin := fun _ _ => trivial
  carried := fun hc _ => hP.carried hc

theorem FlitInvOn.stepInv {D : (Nat → PortDirection → Option Nat) → Prop} (hP : FlitInvOn net D P) :
    StepInv net fun c => D c.outportsDirn2idx ∧ c.AllFlits P where
  data := by
    rintro c t ⟨hD, hall⟩ hsame
    refine ⟨?_, hall.congr hsame.flitsAt⟩
    rw [hsame]
    exact hD
  move := by
    rintro op c t hc ⟨hD, hall⟩ hmove
    refine ⟨hP.dirns_move hmove hD, ?_⟩
    cases hmove.flow with
    | still heq => exact hall.congr heq
    | carry hmoved hcarried =>
      obtain ⟨_, hx, hy⟩ := hmoved
      exact hx.forall_moved hy hall (hP.carried hc hD hx.mem hcarried)
    | make hn hv hdest hvnet hmade =>
      intro x f hf
      rcases hmade.eq_or_mem hf with ⟨rfl, rfl⟩ | hf
      · exact hP.made _ _ hn hv hdest hvnet
      · exact hall x f hf
  spin := by
    rintro vc c t hc _ ⟨hD, hall⟩ hspin
    refine ⟨hP.dirns_spin hspin hD, fun x f hf => ?_⟩
    cases x with
    | vc l v => exact hP.spun hc hspin hall l v f hf
    | _ =>
      rw [hspin.frame] at hf
      exact hall _ f hf
  stamp := by
    rintro c hc ⟨hD, hall⟩
    refine ⟨?_, fun x f hf => ?_⟩
    · rw [(flitTimesSet_stamped c).frame]
      exact hD
    · obtain ⟨f₀, hf₀, rfl | ⟨rfl, l, v, rfl⟩⟩ := (flitTimesSet_stamped c).flits hc hf
      · exact hall x f hf₀
      · exact hP.delayed _ (hall _ f₀ hf₀)

theorem FlitInvOn.reachable {D : (Nat → PortDirection → Option Nat) → Prop} {s : State}
    (hP : FlitInvOn net D P) (hD : D net.outportsDirn2idx) (h : s.FreeReachable net) :
    s.toCore.AllFlits P :=
  (hP.stepInv.reachable h fun _ => ⟨hD, fun x f hf => by cases x <;> cases hf⟩).2

theorem FlitInv.reachable {s : State} (hP : FlitInv net P) (h : s.FreeReachable net) :
    s.toCore.AllFlits P :=
  hP.on.reachable trivial h

end Drain
