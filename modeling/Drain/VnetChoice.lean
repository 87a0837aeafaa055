import Drain.FlitInvariant
import Drain.MeshNet

/-! The virtual network of a flit's VC. A flit stays in the virtual network in which its NI has put
it, through switch allocation and drains; table routing counts the free VCs of the virtual network
in its route. -/

namespace Drain

open List State

section Choice

variable {net : Net} {c : Core} {r : Nat} {route : RouteInfo}

theorem le_mostFree (free : Nat → Nat) {o c : Nat} {cs : List Nat} (ho : o ∈ c :: cs) :
    free o ≤ free (mostFree free c cs) := by
  induction cs generalizing c o with
  | nil => simp_all [mostFree]
  | cons d cs ih =>
    rw [mostFree]
    have hbest : free c ≤ free (if free c < free d then d else c) ∧
        free d ≤ free (if free c < free d then d else c) := by
      split <;> omega
    generalize (if free c < free d then d else c) = best at hbest ⊢
    have hkeep : free best ≤ free (mostFree free best cs) := ih mem_cons_self
    simp only [mem_cons] at ho
    rcases ho with rfl | rfl | ho
    · exact hbest.1.trans hkeep
    · exact hbest.2.trans hkeep
    · exact ih (mem_cons_of_mem _ ho)

def freeVCsAt (net : Net) (c : Core) (r vnet o : Nat) : Nat :=
  ((net.outports r)[o]?.map fun p => c.getNumFreeVCs net p.link vnet).getD 0

theorem lookupTable_max (h : outputLinkCandidates (net.outports r) route.netDest ≠ []) :
    ∃ o, c.lookupTable net r route = .ok o ∧
      o ∈ outputLinkCandidates (net.outports r) route.netDest ∧
      ∀ o' ∈ outputLinkCandidates (net.outports r) route.netDest,
        freeVCsAt net c r route.vnet o' ≤ freeVCsAt net c r route.vnet o := by
  unfold Core.lookupTable lookupRoutingTable lookupRoutingTablePrefOutport
  rw [require, if_pos h]
  cases hcands : outputLinkCandidates (net.outports r) route.netDest with
  | nil => exact absurd hcands h
  | cons o os => exact ⟨_, rfl, mostFree_mem _ _ _, fun o' => le_mostFree _⟩

end Choice

def Place.vcOf : Place → Flit → Nat
  | .niVc _ v, _ => v
  | .vc _ v, _ => v
  | _, f => f.vc

/-- The flit is in a VC of the virtual network that its NI has chosen. -/
def InVnet (net : Net) (x : Place) (f : Flit) : Prop :=
  x.vcOf f / net.vcsPerVnet = if net.injSingleVnet = 0 then f.route.vnet else 0

theorem inVnet_flitInv (net : Net) : FlitInv net (InVnet net) where
  carried := by
    intro c x y f f' hc hf hcarried hx
    cases hcarried with
    | receive _ _ _ harr =>
      obtain ⟨g, hg, rfl⟩ := harr
      have hvnet : g.route.vnet = f.route.vnet := by rw [hg.eq]
      simp only [InVnet, hvnet]
      exact hx
    | mark _ _ hmark => cases hmark <;> exact hx
    | grant _ _ _ _ _ _ hvnet => exact hvnet.trans hx
    | @send n v _ _ =>
      have hvc : f.vc = v := (hc.flits _ f hf).2.2.1
      change f.vc / _ = _
      rw [hvc]
      exact hx
    | _ => exact hx
  made := fun _ _ _ _ _ hvnet => hvnet
  spun := by
    intro vc c t _ hspin hall l v f hf
    -- a drain keeps the index of the VC
    obtain ⟨l₀, f₀, hf₀, hroute⟩ := hspin.origin l v f hf
    have hvnet : f.route.vnet = f₀.route.vnet := by rw [hroute]
    have h₀ := hall (.vc l₀ v) f₀ hf₀
    simp only [InVnet, hvnet]
    exact h₀
  delayed := fun _ h => h

/-- With one set of VCs for each virtual network, or for a flit of virtual network 0, table
routing picks a port with the most idle VCs among those that switch allocation will choose from. -/
theorem lookupTable_allocates {net : Net} {s : State} {l : Link} {v : Nat} {f : Flit} (r : Nat)
    (hs : s.FreeReachable net) (hf : f ∈ (s.vcs l v).inputBuffer)
    (hinj : net.injSingleVnet = 0 ∨ f.route.vnet = 0) :
    ∃ vnet, getVnet net v = .ok vnet ∧ ∀ c : Core,
      outputLinkCandidates (net.outports r) f.route.netDest ≠ [] →
      ∃ o, c.lookupTable net r f.route = .ok o ∧
        o ∈ outputLinkCandidates (net.outports r) f.route.netDest ∧
        ∀ o' ∈ outputLinkCandidates (net.outports r) f.route.netDest,
          freeVCsAt net c r vnet o' ≤ freeVCsAt net c r vnet o := by
  have hvnet : v / net.vcsPerVnet = f.route.vnet := by
    refine ((inVnet_flitInv net).reachable hs (.vc l v) f hf).trans ?_
    split
    · rfl
    · next hne => exact (hinj.resolve_left hne).symm
  have hlt : v / net.vcsPerVnet < net.virtualNetworks := by
    have hplace := (hs.wf.1.flits (.vc l v) f hf).1
    refine Nat.div_lt_of_lt_mul ?_
    rw [Nat.mul_comm]
    exact (Net.vc_mem_places.mp hplace).2
  refine ⟨f.route.vnet, ?_, fun c hcands => lookupTable_max hcands⟩
  unfold getVnet
  rw [require, if_pos hlt, hvnet]
  rfl

def injectNet (injSingleVnet : Int) : Net :=
  { squareNet with
    virtualNetworks := 2
    vcsPerVnet := 2
    vcsPerVnet_pos := Nat.two_pos
    injSingleVnet := injSingleVnet
    spin := true
    spinThrshld := 8
    spinThrshld_pos := eight_pos }

/-- The second of two messages of virtual network 1 waits at router 0; the first one has a
VC at router 1. -/
def injectActions : List Action :=
  [.message 0 1 ⟨[1], 4⟩, .message 0 1 ⟨[1], 6⟩, .tick, .tick, .tick, .tick, .ni 0 fun _ => true,
    .tick, .link (.extIn 0), .tick, .router 0, .ni 0 fun _ => true, .tick, .link (.extIn 0),
    .link (.int 0 1), .creditLink (.extIn 0), .tick, .router 0]

theorem lookupTable_allocates_injectNet : ∃ (s : State) (f : Flit) (o : Nat),
    s.Reachable (injectNet 0) ∧ f ∈ (s.vcs (.extIn 0) 3).inputBuffer ∧
    s.lookupTable (injectNet 0) 0 f.route = .ok o ∧
    ∀ o' ∈ [1, 2], freeVCsAt (injectNet 0) s.toCore 0 1 o' ≤ freeVCsAt (injectNet 0) s.toCore 0 1 o := by
  have hrun : ∃ s : State, s.Reachable (injectNet 0) ∧
      (s.vcs (.extIn 0) 3).inputBuffer.map (fun f => f.route.netDest) = [[1]] :=
    exists_reachable injectActions (fun _ => 0) (by decide +kernel)
  obtain ⟨s, hs, hbuf⟩ := hrun
  obtain ⟨f, hf, hdest⟩ := map_eq_singleton_iff.mp hbuf
  have hcands : outputLinkCandidates ((injectNet 0).outports 0) f.route.netDest = [1, 2] := by
    rw [hdest]
    decide
  have hmem : f ∈ (s.vcs (.extIn 0) 3).inputBuffer := by simp [hf]
  obtain ⟨vnet, hvnet, hchoice⟩ := lookupTable_allocates 0 hs.free hmem (.inl rfl)
  obtain rfl : 1 = vnet := Except.ok.inj hvnet
  obtain ⟨o, ho, _, hmax⟩ := hchoice s.toCore (by simp [hcands])
  rw [hcands] at hmax
  exact ⟨s, f, o, hs, hmem, ho, hmax⟩

/-- With one set of VCs for all, the VCs of virtual network 1 are counted and those of
virtual network 0 are allocated: the flit goes east, where one is idle, and not north, where
two are. -/
theorem lookupTable_misled_injectNet : ∃ s : State, s.Reachable (injectNet 1) ∧
    (s.vcs (.extIn 0) 1).inputBuffer.map (fun f => (f.outport, s.lookupTable (injectNet 1) 0 f.route,
      outputLinkCandidates ((injectNet 1).outports 0) f.route.netDest)) = [(1, .ok 1, [1, 2])] ∧
    getVnet (injectNet 1) 1 = .ok 0 ∧
    freeVCsAt (injectNet 1) s.toCore 0 0 1 < freeVCsAt (injectNet 1) s.toCore 0 0 2 :=
  exists_reachable injectActions (fun _ => 0) (by decide +kernel)

/-- Virtual networks do not share VCs: through switch allocation and drains, every flit is in, or has
been allocated, a VC of its own virtual network, or of the first where that serves all messages. -/
theorem vnets_apart {net : Net} {s : State} (h : s.FreeReachable net) (x : Place) :
    ∀ f ∈ s.flitsAt x, x.vcOf f / net.vcsPerVnet =
      if net.injSingleVnet = 0 then f.route.vnet else 0 :=
  (inVnet_flitInv net).reachable h x

theorem vnets_apart_pairNet : ∃ s : State,
    s.FreeReachable (pairNet 1 4) ∧ s.lock = some 0 ∧
    ∀ f ∈ (s.vcs (.extIn 0) 0).inputBuffer, 0 = f.route.vnet := by
  obtain ⟨s, hreach, hlock, _⟩ := haltActions_run
  refine ⟨s, hreach.free, hlock, fun f hf => ?_⟩
  simpa [Place.vcOf, pairNet] using vnets_apart hreach.free (.vc (.extIn 0) 0) f hf

end Drain
