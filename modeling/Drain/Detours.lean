import Drain.Awake
import Drain.Conservation

/-! The hops that a flit counts. Every hop leads to a neighbour in the grid, so a flit has counted
its distance from the source and two hops for each detour, whether routing, a deflection or a drain
has sent it there. -/

namespace Drain

open List Net

/-- A drain takes every flit over a link of the router where it is. -/
def Net.RingWalk (net : Net) : Prop :=
  ∀ i < net.ringSize, ∀ a b, net.ringLink (i + 1) = .int a b → a = net.dstRouter (net.ringLink i)

def Detours (net : Net) (r : Nat) (f : Flit) : Prop :=
  ∃ k : Nat, f.route.hopsTraversed = net.computeHopsRemaining f.route.srcRouter r + 2 * k

-- a flit counts its first hop when it enters the router of its source
def HopsAt (net : Net) : Place → Flit → Prop
  | .niVc n _, f | .out (.extIn n), f | .link (.extIn n), f =>
    f.route.srcRouter = net.extRouter n ∧ f.route.hopsTraversed = -1
  | .out (.int a _), f | .link (.int a _), f => Detours net a f
  | .out (.extOut n), f | .link (.extOut n), f | .stall n, f => Detours net (net.extRouter n) f
  | .vc l _, f => Detours net (net.dstRouter l) f
  | .switch r _, f => Detours net r f
  | .delivered, _ => True

section Hops

variable {net : Net} {a b r : Nat} {d : PortDirection} {f f' : Flit}

theorem computeHopsRemaining_next (h : net.HasLink a b d) (src : Nat) :
    net.computeHopsRemaining src b = net.computeHopsRemaining src a + 1 ∨
      net.computeHopsRemaining src b + 1 = net.computeHopsRemaining src a := by
  have hstep := gridStep_coordStep net.numCols_pos h.gridStep
  unfold computeHopsRemaining
  cases d <;> simp only [coordStep] at hstep <;> omega

theorem Respun.detours (h : Respun net r f f') (hd : net.HasLink a b d) (hf : Detours net a f) :
    Detours net b f' := by
  obtain ⟨k, hk⟩ := hf
  unfold Detours
  rw [h.eq]
  rcases computeHopsRemaining_next hd f.route.srcRouter with hnext | hnext
  · exact ⟨k, by dsimp only; omega⟩
  · exact ⟨k + 1, by dsimp only; omega⟩

theorem hops_flitInv (hring : net.RingOk) (hwalk : net.RingWalk) : FlitInv net (HopsAt net) where
  carried := by
    intro c x y f f' _ _ hcarried hx
    cases hcarried with
    | receive hr hp _ harr =>
      obtain ⟨g, hg, rfl⟩ := harr
      rcases inport_cases hr hp with ⟨n, _, _, rfl⟩ | ⟨a, d, hd, rfl⟩
      · refine ⟨0, ?_⟩
        rw [hg.eq]
        simp [computeHopsRemaining, hx.1, hx.2, dstRouter]
      · exact hg.detours hd hx
    | mark _ _ hmark => cases hmark <;> exact hx
    | grant _ hr hp =>
      change Detours net _ f at hx
      rwa [(inport_mem_links hr (mem_of_getElem? hp)).2.1] at hx
    | cross hr hop =>
      rcases outport_cases hr (mem_of_getElem? hop) with ⟨n, _, rfl, hl, _⟩ | ⟨b, _, hl⟩
      · rw [hl]
        exact hx
      · rw [hl]
        exact hx
    | @link l => cases l <;> exact hx
    | deliver | unstall => trivial
    | _ => exact hx
  made := fun _ _ _ _ _ _ => ⟨rfl, rfl⟩
  spun := by
    refine fun hc hspin hall => (hspin.spun hring).forall_flits hc hall fun i hi f hf f' hrespun => ?_
    obtain ⟨_, a, b, d, _, hentry, hl⟩ := hring.entry_succ hi
    have hx : Detours net _ f := hall (.vc (net.ringLink i) _) f hf
    rw [← hwalk i hi a b hl] at hx
    show Detours net _ f'
    rw [hl]
    exact hrespun.detours hentry.hasLink hx
  delayed := fun _ h => h

/-- With any routing algorithm, deflections and drains, a flit in an input VC has counted the
distance of the router from its source and an even number of hops more, and so has a flit that its
node has still to take. -/
theorem hops_count_detours {s : State} (hring : net.RingOk) (hwalk : net.RingWalk)
    (h : s.FreeReachable net) :
    (∀ l v, ∀ f ∈ (s.vcs l v).inputBuffer, ∃ k : Nat, f.route.hopsTraversed =
      net.computeHopsRemaining f.route.srcRouter (net.dstRouter l) + 2 * k) ∧
    ∀ n, ∀ f ∈ s.linkBuffer (.extOut n) ++ s.stallQueue n, ∃ k : Nat, f.route.hopsTraversed =
      net.computeHopsRemaining f.route.srcRouter (net.extRouter n) + 2 * k := by
  have hall := (hops_flitInv hring hwalk).reachable h
  refine ⟨fun l v => hall (.vc l v), fun n => forall_mem_append.mpr ⟨?_, hall (.stall n)⟩⟩
  exact hall (.link (.extOut n))

end Hops

theorem hops_count_detours_pairNet : ∃ s : State,
    s.FreeReachable (pairNet 1 8) ∧ ∃ f ∈ (s.vcs (.int 0 1) 0).inputBuffer,
      ∃ k : Nat, f.route.hopsTraversed =
        (pairNet 1 8).computeHopsRemaining f.route.srcRouter 1 + 2 * k := by
  obtain ⟨s, hreach, _, _, hne⟩ := waitingActions_run
  obtain ⟨f, hf⟩ := exists_mem_of_ne_nil _ hne
  refine ⟨s, hreach.free, f, hf, (hops_count_detours pairNet_ringOk ?_ hreach.free).1 _ 0 f hf⟩
  intro i hi a b hl
  have hi : i < 2 := hi
  interval_cases i <;> cases hl <;> rfl

end Drain
