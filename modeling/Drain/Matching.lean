import Drain.RoundRobin
import Drain.SendOrder

/-! One round of switch allocation. The grants of SA-II match the requests of SA-I, and
nothing fails unless a flit that may not turn back has nowhere else to go. -/

namespace Drain

open List State Net Prod

def Net.CanDeflect (net : Net) (r : Nat) (p : InPort) : Prop :=
  ∃ q ∈ net.outports r, q.dirn ∈ p.dirn.perpendicular

section Requests

variable {net : Net} {s : State} {r i v : Nat} {p : InPort} {f : Flit} {q : Requests}

theorem disallowUturn_ok {c : Core} (hd : DirnOk net c.outportsDirn2idx)
    (h : net.CanDeflect r p) : ∃ t, disallowUturn c r p.dirn = .ok t := by
  obtain ⟨q, hq, hdirn⟩ := h
  obtain ⟨o, ho⟩ := exists_outportsDirn2idx hq
  rw [disallowUturn_eq]
  cases hfound : p.dirn.perpendicular.findSome? fun d => (c.outportsDirn2idx r d).map (·, d) with
  | some t => exact ⟨t, rfl⟩
  | none =>
    have := findSome?_eq_none_iff.mp hfound _ hdirn
    simp [hd.port ho] at this

theorem markUturn_ok (hd : DirnOk net s.outportsDirn2idx)
    (hbuf : (s.vcs p.link v).inputBuffer = [f])
    (hturn : net.uTurnCrossbar = 0 → p.dirn ≠ .Local → net.CanDeflect r p) :
    ∃ s', s.markUturn net r p v = .ok s' := by
  unfold markUturn
  simp only [hbuf, peekTopFlit, ok_bind]
  split
  · next huturn =>
    split
    · next hcross =>
      exact ⟨_, bind_eq_ok.mpr ⟨_, (disallowUturn_ok hd (hturn hcross huturn.2)).choose_spec, rfl⟩⟩
    · exact ⟨_, rfl⟩
  · exact ⟨_, rfl⟩

theorem Wf.vnet_lt {c : Core} {l : Link} (hs : Wf net c) (hbuf : (c.vcs l v).inputBuffer = [f]) :
    v / net.vcsPerVnet < net.virtualNetworks := by
  obtain ⟨hplace, _⟩ := hs.flits (.vc l v) f (by simp [Core.flitsAt, hbuf])
  have hlt : v < net.virtualNetworks * net.vcsPerVnet := (vc_mem_places.mp hplace).2
  exact Nat.div_lt_of_lt_mul (Nat.mul_comm _ _ ▸ hlt)

theorem arbitrateInport_ok (hr : r < net.numRouters) (hp : p ∈ net.inports r)
    (hturn : net.uTurnCrossbar = 0 → p.dirn ≠ .Local → net.CanDeflect r p) (n invc : Nat)
    (hs : Wf net s.toCore) :
    Holds (arbitrateInport net r p i n invc (s, q)) (fun t => Wf net t.1.toCore)
      fun _ => False := by
  induction n generalizing s invc with
  | zero => exact hs
  | succ n ih =>
    unfold arbitrateInport
    obtain ⟨ready, hready⟩ := (hs.vcs p.link invc).needStage_ok .SA le_rfl
    rw [hready, ok_bind]
    cases ready with
    | false => exact ih _ hs
    | true =>
      obtain ⟨f, rest, hbuf⟩ := needStage_spec.of_ok hready rfl
      have hsingle : (s.vcs p.link invc).inputBuffer = [f] :=
        (hs.vcs p.link invc).eq_singleton (by simp [hbuf])
      obtain ⟨s₁, hmark⟩ := markUturn_ok hs.dirns hsingle hturn
      obtain ⟨ops, htrace, _, f₁, hvc, _⟩ := Holds.of_ok (markUturn_does hr hp hsingle) hmark
      have hs₁ : Wf net s₁.toCore := hs.trace htrace
      have hbuf₁ : (s₁.vcs p.link invc).inputBuffer = [f₁] := by rw [hvc]
      obtain ⟨_, _, _, _, op, hop⟩ := hs₁.flits (.vc p.link invc) f₁ (by simp [Core.flitsAt, hbuf₁])
      rw [(inport_mem_links hr hp).2.1] at hop
      have hport : net.outportAt r f₁.outport = .ok op := by
        unfold outportAt
        rw [hop]
      simp only [if_true, hmark, ok_bind, hbuf₁, peekTopFlit, hport,
        hs₁.sendAllowed_eq (hs₁.vnet_lt hbuf₁)]
      split
      · exact hs₁
      · exact ih _ hs₁

theorem arbitrateInports_ok (hr : r < net.numRouters)
    (hturn : net.uTurnCrossbar = 0 → ∀ p ∈ net.inports r, p.dirn ≠ .Local → net.CanDeflect r p)
    (hs : Wf net s.toCore) :
    Holds (s.arbitrateInports net r) (fun t => Wf net t.1.toCore) fun _ => False := by
  unfold arbitrateInports
  rw [holds_ite]
  refine ⟨fun _ => hs, fun _ => holds_foldlM (fun t : State × Requests => Wf net t.1.toCore) _ hs ?_⟩
  intro x hx t ht
  have hp : x.1 ∈ net.inports r := mem_of_getElem? (mem_zipIdx_iff_getElem?.mp hx)
  exact arbitrateInport_ok hr hp (fun hcross => hturn hcross x.1 hp) _ _ ht

end Requests

section Scan

variable {s : State} {r o i b : Nat} {q : Requests}

theorem iterate_nextIndex (hi : i < b) (k : Nat) : (nextIndex · b)^[k] i = (i + k) % b := by
  induction k with
  | zero => exact (Nat.mod_eq_of_lt hi).symm
  | succ k ih =>
    have hlt : (i + k) % b < b := Nat.mod_lt _ (by omega)
    have hmod : (i + (k + 1)) % b = ((i + k) % b + 1) % b := (Nat.mod_add_mod (i + k) b 1).symm
    rw [Function.iterate_succ_apply', ih, hmod]
    unfold nextIndex
    split
    · rw [show (i + k) % b + 1 = b by omega, Nat.mod_self]
    · exact (Nat.mod_eq_of_lt (by omega)).symm

theorem exists_iterate_nextIndex {j : Nat} (hi : i < b) (hj : j < b) :
    ∃ k < b, (nextIndex · b)^[k] i = j := by
  by_cases hij : i ≤ j
  · refine ⟨j - i, by omega, ?_⟩
    rw [iterate_nextIndex hi, Nat.add_sub_cancel' hij, Nat.mod_eq_of_lt hj]
  · refine ⟨j + b - i, by omega, ?_⟩
    rw [iterate_nextIndex hi, show i + (j + b - i) = j + b by omega, Nat.add_mod_right,
      Nat.mod_eq_of_lt hj]

theorem arbitrateOutport_cases (net : Net) (op : OutPort) (n inport : Nat) :
    (∃ i, q.portRequests o i = true ∧ arbitrateOutport net r op o n inport (s, q) =
      (do
        let p ← net.inportAt r i
        let s ← s.grantOutport net r op o p i (q.vcWinners o i)
        pure (s, q.remove o i))) ∨
    arbitrateOutport net r op o n inport (s, q) = .ok (s, q) ∧ ∀ k < n,
      q.portRequests o ((nextIndex · (net.inports r).length)^[k] inport) = false := by
  induction n generalizing inport with
  | zero => exact .inr ⟨rfl, fun k hk => absurd hk (Nat.not_lt_zero k)⟩
  | succ n ih =>
    unfold arbitrateOutport
    by_cases hreq : q.portRequests o inport = true
    · exact .inl ⟨inport, hreq, if_pos hreq⟩
    · rw [if_neg hreq]
      refine (ih _).imp_right fun h => ⟨h.1, fun k hk => ?_⟩
      cases k with
      | zero => exact Bool.eq_false_iff.mpr hreq
      | succ k => exact h.2 k (by omega)

end Scan

structure Grant where
  inport : Nat
  invc : Nat
  outport : Nat
  outvc : Nat

def State.serve (net : Net) (r : Nat) (s : State) (g : Grant) : Except Failure State := do
  let op ← net.outportAt r g.outport
  let p ← net.inportAt r g.inport
  s.grantOutport net r op g.outport p g.inport g.invc

/-- No port is granted twice, only requests are granted, and no output port that is
requested goes without. -/
structure Matching (q : Requests) (gs : List Grant) : Prop where
  inports : (gs.map Grant.inport).Nodup
  outports : (gs.map Grant.outport).Nodup
  requested : ∀ g ∈ gs, q.portRequests g.outport g.inport = true ∧
    q.vcWinners g.outport g.inport = g.invc
  served : ∀ o i, q.portRequests o i = true → o ∈ gs.map Grant.outport

/-- What a grant finds in the state `c` between SA-I and SA-II, and leaves in `c'`: a flit
that is ready and asks for that port, and an idle VC of its virtual network with a credit. -/
def Grant.Ok (net : Net) (r : Nat) (c c' : Core) (g : Grant) : Prop :=
  ∃ p op f, (net.inports r)[g.inport]? = some p ∧ (net.outports r)[g.outport]? = some op ∧
    (c.vcs p.link g.invc).inputBuffer = [f] ∧ f.outport = g.outport ∧
    (c.vcs p.link g.invc).needStage .SA c.curCycle = .ok true ∧
    selectFreeVc net c op.link (g.invc / net.vcsPerVnet) = some g.outvc ∧
    c'.outvcState op.link g.outvc = (c.outvcState op.link g.outvc).taken c.curCycle ∧
    0 ≤ (c'.outvcState op.link g.outvc).creditCount

section Grants

variable {net : Net} {t u : State} {r o i w : Nat} {p : InPort} {op : OutPort} {q q' : Requests}
  {rest : List (OutPort × Nat)} {gs : List Grant}

structure Serving (net : Net) (r : Nat) (t : State) (q : Requests) (rest : List (OutPort × Nat))
    (gs : List Grant) (u : State) (q' : Requests) : Prop where
  run : gs.foldlM (serve net r) t = .ok u
  wf : Wf net u.toCore
  curCycle : u.curCycle = t.curCycle
  halt : u.halt r = false
  pointed : u.Pointed net
  winners : q'.vcWinners = q.vcWinners
  todo : ∀ x ∈ rest, q'.portRequests x.2 = q.portRequests x.2 ∧
    u.outvcState x.1.link = t.outvcState x.1.link ∧ x.2 ∉ gs.map Grant.outport
  vcs : ∀ i p, (net.inports r)[i]? = some p → i ∉ gs.map Grant.inport → u.vcs p.link = t.vcs p.link
  inports : (gs.map Grant.inport).Nodup
  outports : (gs.map Grant.outport).Nodup
  requested : ∀ g ∈ gs, q.portRequests g.outport g.inport = true ∧
    q.vcWinners g.outport g.inport = g.invc
  served : ∀ o i, q.portRequests o i = true → o ∈ gs.map Grant.outport ∨ o ∈ rest.map snd
  grants : ∀ g ∈ gs, g.Ok net r t.toCore u.toCore

theorem selectFreeVc_of_hasFreeVc {c : Core} {l : Link} {vnet : Nat}
    (h : hasFreeVc net c l vnet = true) : ∃ w, selectFreeVc net c l vnet = some w := by
  obtain ⟨k, hk, hidle⟩ := any_eq_true.mp h
  refine Option.isSome_iff_exists.mp (find?_isSome.mpr ⟨_, ?_, hidle⟩)
  exact mem_map.mpr ⟨k, hk, rfl⟩

theorem Serving.grantOutport (h : Serving net r t q ((op, o) :: rest) gs u q')
    (hr : r < net.numRouters) (ho : (net.outports r)[o]? = some op)
    (hi : (net.inports r)[i]? = some p) (hfresh : i ∉ gs.map Grant.inport)
    (hready : Ready net r t.toCore p o w) :
    ∃ u', u.grantOutport net r op o p i w = .ok u' ∧
      Move net (.grant r p.link op.link) u.toCore u'.toCore ∧ ∃ x,
        selectFreeVc net t.toCore op.link (w / net.vcsPerVnet) = some x ∧
        u'.outvcState = setEntry u.outvcState op.link x
          ((t.outvcState op.link x).taken t.curCycle) := by
  obtain ⟨f, op', hbuf, hf, hop', _, hfree, huturn⟩ := hready
  obtain rfl : op = op' := Option.some.inj (ho.symm.trans hop')
  obtain ⟨_, hout, _⟩ := h.todo (op, o) mem_cons_self
  have hbuf' : (u.vcs p.link w).inputBuffer = [f] := by rw [h.vcs i p hi hfresh, hbuf]
  have hsel : selectFreeVc net u.toCore op.link (w / net.vcsPerVnet) =
      selectFreeVc net t.toCore op.link (w / net.vcsPerVnet) := by
    unfold selectFreeVc Core.isVcIdle
    rw [hout, h.curCycle]
  have hnone {e : Failure} (he : GrantFails net u.toCore p w op f e) : False := by
    cases he with
    | vnet hvnet => exact hvnet (h.wf.vnet_lt hbuf')
    | noFreeVc hnone =>
      obtain ⟨x, hx⟩ := selectFreeVc_of_hasFreeVc hfree
      rw [hsel, hx] at hnone
      cases hnone
    | uturn hdir hlocal hnot => exact hnot (huturn hdir hlocal)
    | @credit x hidle hcredit =>
      have hlink := outport_ne_extIn hr (mem_of_getElem? ho)
      have hpos := ((h.wf.outvc op.link x).credit hlink).2 hidle
      exact hcredit (by omega)
  have hspec := grantOutport_spec h.wf hr hi ho h.halt hbuf' hf
  obtain ⟨u', hu', hmove, x, hx, hstate⟩ := (hspec.mono (fun _ _ => id) fun _ _ => hnone).exists_ok
  refine ⟨u', hu', hmove, x, hsel ▸ hx, ?_⟩
  rw [hstate, hout, h.curCycle]

theorem Serving.grant (h : Serving net r t q ((op, o) :: rest) gs u q') (hr : r < net.numRouters)
    (hq : q.Ok net r (Ready net r t.toCore)) (ho : (net.outports r)[o]? = some op)
    (hrest : ∀ x ∈ rest, x.2 ≠ o ∧ x.1.link ≠ op.link) (hreq : q.portRequests o i = true) :
    Holds (do
        let p ← net.inportAt r i
        let u' ← u.grantOutport net r op o p i (q.vcWinners o i)
        pure (u', q'.remove o i))
      (fun t' => ∃ gs', Serving net r t q rest gs' t'.1 t'.2) fun _ => False := by
  obtain ⟨p, hi, hready⟩ := hq.valid o i hreq
  obtain ⟨_, _, hnew⟩ := h.todo (op, o) mem_cons_self
  have hfresh : i ∉ gs.map Grant.inport := by
    intro hmem
    obtain ⟨g, hg, rfl⟩ := mem_map.mp hmem
    have heq : g.outport = o := hq.unique _ _ _ (h.requested g hg).1 hreq
    exact hnew (mem_map.mpr ⟨g, hg, heq⟩)
  obtain ⟨u', hu', hmove, x, hx, hstate⟩ := h.grantOutport hr ho hi hfresh hready
  have hport : net.inportAt r i = .ok p := by
    unfold inportAt
    rw [hi]
  have hout : net.outportAt r o = .ok op := by
    unfold outportAt
    rw [ho]
  have hpoint := (grantOutport_pointers u).of_ok hu'
  have hcontrol := hmove.control
  obtain ⟨f, op', hbuf, hf, hop', hstage, hfree, _⟩ := hready
  obtain rfl : op = op' := Option.some.inj (ho.symm.trans hop')
  have hwf := h.wf.move hmove
  have hcount := ((hwf.outvc op.link x).credit
    (outport_ne_extIn hr (mem_of_getElem? ho))).1
  have hother {l : Link} (hl : l ≠ op.link) : u'.outvcState l = u.outvcState l := by
    rw [hstate]
    exact funext fun v => setEntry_of_ne _ _ fun h => hl h.1
  rw [hport, ok_bind, hu', ok_bind, holds_pure]
  refine ⟨gs ++ [⟨i, q.vcWinners o i, o, x⟩], ⟨?_, hwf, ?_, ?_, ?_, h.winners, ?_, ?_, ?_, ?_, ?_,
    ?_, ?_⟩⟩
  · rw [foldlM_append, h.run, ok_bind]
    simp only [foldlM_cons, foldlM_nil, serve, hout, hport, ok_bind, hu']
    rfl
  · exact hcontrol.curCycle.trans h.curCycle
  · exact (congrFun hcontrol.halt r).trans h.halt
  · rw [State.Pointed, hpoint]
    exact forall_setEntry (P := fun r _ k => 0 < (net.inports r).length → k < (net.inports r).length)
      h.pointed (nextIndex_lt _)
  · intro y hy
    obtain ⟨hreqs, hstates, hgs⟩ := h.todo y (mem_cons_of_mem _ hy)
    obtain ⟨hne, hlink⟩ := hrest y hy
    refine ⟨?_, (hother hlink).trans hstates, ?_⟩
    · rw [← hreqs]
      exact funext fun j => setEntry_of_ne _ _ fun h => hne h.1
    · rw [map_append, mem_append, not_or]
      exact ⟨hgs, by simpa using hne⟩
  · intro j p' hj hnot
    have hne : j ≠ i := by
      rintro rfl
      exact hnot (by simp)
    have hlink : p'.link ≠ p.link := fun heq => hne (inport_index_unique hr hj hi heq)
    rw [hmove.vcs_of_grant hlink]
    exact h.vcs j p' hj fun hmem => hnot (by rw [map_append]; exact mem_append_left _ hmem)
  · rw [map_append]
    exact nodup_append'.mpr ⟨h.inports, by simp, by simpa using hfresh⟩
  · rw [map_append]
    exact nodup_append'.mpr ⟨h.outports, by simp, by simpa using hnew⟩
  · refine forall_mem_append.mpr ⟨h.requested, ?_⟩
    simpa using hreq
  · intro o' j hreq'
    rw [map_append]
    rcases h.served o' j hreq' with hmem | hmem
    · exact .inl (mem_append_left _ hmem)
    · rcases mem_cons.mp hmem with rfl | hmem
      · exact .inl (mem_append_right _ (by simp))
      · exact .inr hmem
  · refine forall_mem_append.mpr ⟨fun g hg => ?_, ?_⟩
    · obtain ⟨p', op', f', hin, hout', hbuf', hf', hstage', hsel', hstate', hcount'⟩ := h.grants g hg
      have hlink : op'.link ≠ op.link := by
        intro heq
        refine hnew (mem_map.mpr ⟨g, hg, ?_⟩)
        exact outport_index_unique hr hout' ho heq
      refine ⟨p', op', f', hin, hout', hbuf', hf', hstage', hsel', ?_, ?_⟩
      · rw [hother hlink]
        exact hstate'
      · rw [hother hlink]
        exact hcount'
    · refine forall_mem_singleton.mpr ⟨p, op, f, hi, ho, hbuf, hf, hstage, hx, ?_, hcount⟩
      rw [hstate, setEntry_self]

theorem arbitrateOutports_serves (hr : r < net.numRouters) (ht : Wf net t.toCore)
    (hhalt : t.halt r = false) (hpointed : t.Pointed net) (hq : q.Ok net r (Ready net r t.toCore)) :
    ∃ u gs, arbitrateOutports net r (t, q) = .ok u ∧ Wf net u.toCore ∧
      gs.foldlM (serve net r) t = .ok u ∧ Matching q gs ∧
      ∀ g ∈ gs, g.Ok net r t.toCore u.toCore := by
  have hfold := holds_foldlM_rest (E := fun _ : Failure => False)
    (f := fun (t : State × Requests) (op : OutPort × Nat) =>
      arbitrateOutport net r op.1 op.2 (net.inports r).length (t.1.roundRobinInport r op.2) t)
    (fun rest (t' : State × Requests) => ∃ gs, Serving net r t q rest gs t'.1 t'.2)
    (l := (net.outports r).zipIdx) (s := (t, q)) ?_ ?_
  · obtain ⟨⟨u, q'⟩, hu, gs, hgs⟩ := hfold.exists_ok
    refine ⟨u, gs, ?_, hgs.wf, hgs.run, ⟨hgs.inports, hgs.outports, hgs.requested, ?_⟩, hgs.grants⟩
    · unfold arbitrateOutports
      dsimp only
      rw [if_neg (by simp [hhalt]), hu]
      rfl
    · intro o i hreq
      exact (hgs.served o i hreq).resolve_right (by simp)
  · refine ⟨[], rfl, ht, rfl, hhalt, hpointed, rfl, fun x _ => ⟨rfl, rfl, by simp⟩,
      fun _ _ _ _ => rfl, by simp, by simp, by simp, fun o i hreq => .inr ?_, by simp⟩
    obtain ⟨_, _, _, op, _, _, hop, _⟩ := hq.valid o i hreq
    exact mem_map.mpr ⟨(op, o), mem_zipIdx_iff_getElem?.mpr hop, rfl⟩
  · rintro ⟨op, o⟩ rest ⟨u, q'⟩ hsuffix ⟨gs, h⟩
    have ho : (net.outports r)[o]? = some op :=
      mem_zipIdx_iff_getElem?.mp (hsuffix.subset mem_cons_self)
    have hrest : ∀ x ∈ rest, x.2 ≠ o ∧ x.1.link ≠ op.link := by
      intro x hx
      have hnodup := (nodup_snd_zipIdx (net.outports r)).sublist (hsuffix.sublist.map snd)
      rw [map_cons, nodup_cons] at hnodup
      have hne : x.2 ≠ o := fun heq => hnodup.1 (mem_map.mpr ⟨x, hx, heq⟩)
      have hx' : (net.outports r)[x.2]? = some x.1 :=
        mem_zipIdx_iff_getElem?.mp (hsuffix.subset (mem_cons_of_mem _ hx))
      exact ⟨hne, fun heq => hne (outport_index_unique hr hx' ho heq)⟩
    obtain ⟨hreqs, _, _⟩ := h.todo (op, o) mem_cons_self
    dsimp only at hreqs ⊢
    have hcases := arbitrateOutport_cases (s := u) (r := r) (o := o) (q := q') net op
      (net.inports r).length (u.roundRobinInport r o)
    rcases hcases with ⟨i, hreq, heq⟩ | ⟨heq, hnone⟩
    · rw [heq, h.winners]
      exact h.grant hr hq ho hrest (hreqs ▸ hreq)
    · rw [heq]
      refine ⟨gs, { h with
        todo := fun x hx => h.todo x (mem_cons_of_mem _ hx)
        served := fun o' i hreq => ?_ }⟩
      rcases h.served o' i hreq with hmem | hmem
      · exact .inl hmem
      · rcases mem_cons.mp hmem with rfl | hmem
        · obtain ⟨p, hi, _⟩ := hq.valid _ i hreq
          have hlt : i < (net.inports r).length := (List.getElem?_eq_some_iff.mp hi).1
          obtain ⟨k, hk, hik⟩ := exists_iterate_nextIndex (h.pointed r o' (by omega)) hlt
          have hfalse := hnone k hk
          rw [hik, hreqs, hreq] at hfalse
          cases hfalse
        · exact .inr hmem

end Grants

section Allocation

variable {net : Net} {s s₁ m : State} {r : Nat}

/-- In every wakeup of a router that is not halted, in any reachable state, the grants are
a matching of the requests, every grant finds its flit and an idle output VC with a credit,
and no assertion of the allocator fails. -/
theorem allocation_matching (hs : s.FreeReachable net) (hr : r < net.numRouters)
    (hread : (s.on (popEvent (.router r))).readPorts net r = .ok s₁)
    (hspin : (if net.spin then s₁.spinStage net true r else pure s₁) = .ok m)
    (hhalt : m.halt r = false)
    (hturn : net.uTurnCrossbar = 0 → ∀ p ∈ net.inports r, p.dirn ≠ .Local → net.CanDeflect r p) :
    ∃ t q u gs, m.arbitrateInports net r = .ok (t, q) ∧
      arbitrateOutports net r (t, q) = .ok u ∧ gs.foldlM (serve net r) t = .ok u ∧
      Matching q gs ∧ (∀ g ∈ gs, g.Ok net r t.toCore u.toCore) ∧
      ∃ u', m.switchAllocatorWakeup net r = .ok u' := by
  obtain ⟨hwf, hc⟩ := hs.wf
  have hphase := (readPorts_phase (s := s.on (popEvent (.router r))) (hwf.popEvent _) hr).of_ok
    hread
  have hwf₁ := hphase.wf (hwf.popEvent _)
  have hc₁ : Control net s₁.toCore := hc.congr ((popEvent_control _ _).trans hphase.control)
  have hwfm := ((spinStage_spec hwf₁ hc₁ hr true).of_ok hspin).wf hwf₁
  have hpointed : m.Pointed net := by
    have hpop : (s.on (popEvent (.router r))).Pointed net := hs.pointed
    have h₁ := (((readPorts_frame rfl).map fst).pointed hpop).of_ok hread
    have hframe : Frames (if net.spin then s₁.spinStage net true r else pure s₁) kept s₁.kept :=
      frames_ite ((spinStage_frame true rfl).map fst) rfl
    exact ((hframe.map fst).pointed h₁).of_ok hspin
  obtain ⟨⟨t, q⟩, ht, hwft⟩ := (arbitrateInports_ok hr hturn hwfm).exists_ok
  obtain ⟨ops, htrace, _, hq, _⟩ := Holds.of_ok (arbitrateInports_does hr hwfm) ht
  have hhalt' : t.halt r = false := (congrFun htrace.control.halt r).trans hhalt
  have hpointed' : t.Pointed net := (((arbitrateInports_frame rfl).map fst).pointed hpointed).of_ok ht
  obtain ⟨u, gs, hu, hwfu, hrun, hmatching, hgrants⟩ :=
    arbitrateOutports_serves hr hwft hhalt' hpointed' hq
  refine ⟨t, q, u, gs, ht, hu, hrun, hmatching, hgrants, ?_⟩
  have hcheck : Holds (u.checkForWakeup net r) (fun _ => True) fun _ => False := by
    unfold checkForWakeup
    rw [holds_bind]
    refine Holds.imp (holds_anyM _ fun p _ => ?_) fun ready _ => ?_
    · refine Holds.imp (holds_anyM _ fun v _ => ?_) fun _ _ => trivial
      obtain ⟨b, hb⟩ := (hwfu.vcs p.link v).needStage_ok .SA (Nat.le_succ _)
      rw [hb]
      trivial
    · cases ready with
      | true => trivial
      | false => trivial
  obtain ⟨u', hu', _⟩ := hcheck.exists_ok
  refine ⟨u', ?_⟩
  unfold switchAllocatorWakeup
  rw [ht, ok_bind, hu, ok_bind, hu']

end Allocation

def requestActions : List Action :=
  [.message 0 0 ⟨[1], 2⟩, .tick, .tick, .ni 0 fun _ => true, .tick, .link (.extIn 0), .tick]

theorem allocation_matching_orderedNet : ∃ (s t : State) (q : Requests) (u : State)
    (gs : List Grant), s.FreeReachable orderedNet ∧ q.portRequests 1 0 = true ∧
      arbitrateOutports orderedNet 0 (t, q) = .ok u ∧ Matching q gs ∧ gs ≠ [] := by
  have hrun : ∃ s : State, s.Reachable orderedNet ∧
      ((s.on (popEvent (.router 0))).readPorts orderedNet 0).map (fun s₁ =>
        (if orderedNet.spin then s₁.spinStage orderedNet true 0 else pure s₁).map fun m =>
          (m.halt 0, (m.arbitrateInports orderedNet 0).map fun t => t.2.portRequests 1 0)) =
        .ok (.ok (false, .ok true)) :=
    exists_reachable requestActions (fun _ => 0) (by decide +kernel)
  obtain ⟨s, hs, heq⟩ := hrun
  cases hread : (s.on (popEvent (.router 0))).readPorts orderedNet 0 with
  | error e => rw [hread] at heq; cases heq
  | ok s₁ =>
    rw [hread] at heq
    replace heq := Except.ok.inj heq
    dsimp only at heq
    cases hspin : (if orderedNet.spin then s₁.spinStage orderedNet true 0 else pure s₁) with
    | error e => rw [hspin] at heq; cases heq
    | ok m =>
      rw [hspin] at heq
      obtain ⟨hhalt, hreq⟩ := mk.inj (Except.ok.inj heq)
      obtain ⟨t, q, u, gs, ht, hu, _, hmatching, _⟩ :=
        allocation_matching hs.free (by decide) hread hspin hhalt nofun
      rw [ht] at hreq
      have hreq : q.portRequests 1 0 = true := Except.ok.inj hreq
      refine ⟨s, t, q, u, gs, hs.free, hreq, hu, hmatching, ?_⟩
      rintro rfl
      exact absurd (hmatching.served 1 0 hreq) (by simp)

def straightNet : Net := { pairNet 1 8 Nat.one_pos eight_pos with uTurnCrossbar := 0 }

/-- A flit for node 1 waits at router 1 when the network is halted, and the drain moves it
back to router 0. -/
def turnBackActions : List Action :=
  [.message 0 0 ⟨[1], 4⟩, .tick, .tick, .tick, .tick, .ni 0 fun _ => true, .tick,
    .link (.extIn 0), .tick, .router 0, .tick, .link (.int 0 1), .creditLink (.extIn 0), .tick,
    .router 1, .ni 0 fun _ => true, .tick, .router 1, .tick, .router 1, .tick, .router 0,
    .router 1, .tick, .tick]

/-- There it asks for the port that it came from, and the assertion in `disallow_uturn`
fails. -/
theorem allocation_stuck_straightNet : ∃ s : State, s.Reachable straightNet ∧
    s.curCycle ∈ s.events (.router 0) ∧
    (s.vcs (.int 1 0) 0).inputBuffer.map (fun f => (f.route.destNi, f.outportDir)) = [(1, .East)] ∧
    s.halt 0 = false ∧ (s.perform straightNet (.router 0)).map (fun _ => ()) = .error .uturnStuck := by
  exact exists_reachable turnBackActions (fun _ => 0) (by decide +kernel)

end Drain
