import Drain.Matching
import Drain.MeshNet

/-! Deflection at a crossbar without u-turns. A router with a port across the direction that a flit
came from sends it there; a router in a corridor has only the port straight ahead, which is
never tried. -/

namespace Drain

open List State

section Deflect

variable {s : State} {net : Net} {r v : Nat} {p : InPort} {f : Flit} {fs : List Flit}

theorem markUturn_eq (hcross : net.uTurnCrossbar = 0)
    (hbuf : (s.vcs p.link v).inputBuffer = f :: fs) (huturn : f.outportDir = p.dirn)
    (hlocal : p.dirn ≠ .Local) :
    match p.dirn.perpendicular.findSome? fun d => (s.outportsDirn2idx r d).map (·, d) with
    | some (o, d) => ∃ s', s.markUturn net r p v = .ok s' ∧ (s'.vcs p.link v).inputBuffer =
        { f with requestUturn := true, outport := o, outportDir := d } :: fs
    | none => s.markUturn net r p v = .error .uturnStuck := by
  have hdeflect := disallowUturn_eq (r := r)
    (c := s.setVc p.link v ((s.vcs p.link v).mapTop ({ · with requestUturn := true }))) p.dirn
  unfold markUturn
  simp only [hbuf, peekTopFlit, ok_bind]
  rw [if_pos ⟨huturn, hlocal⟩, if_pos hcross]
  cases hfound : p.dirn.perpendicular.findSome? fun d => (s.outportsDirn2idx r d).map (·, d) with
  | none => exact congrArg (· >>= _) (hdeflect.trans (congrArg (Option.elim · _ _) hfound))
  | some t =>
    have hok := hdeflect.trans (congrArg (Option.elim · _ _) hfound)
    refine ⟨_, bind_eq_ok.mpr ⟨t, hok, rfl⟩, ?_⟩
    simp [on, Core.setVc, VirtualChannel.mapTop, hbuf]

/-- A flit that wants to go back leaves by another port if and only if the first entry of the
direction map for a direction across its way is a port in that direction. -/
theorem markUturn_deflects (hcross : net.uTurnCrossbar = 0)
    (hbuf : (s.vcs p.link v).inputBuffer = f :: fs) (huturn : f.outportDir = p.dirn)
    (hlocal : p.dirn ≠ .Local) :
    (∃ s' o q, s.markUturn net r p v = .ok s' ∧ (net.outports r)[o]? = some q ∧
      q.dirn ≠ .Local ∧ q.dirn ≠ p.dirn ∧ (s'.vcs p.link v).inputBuffer =
        { f with requestUturn := true, outport := o, outportDir := q.dirn } :: fs) ↔
    ∃ o q, (p.dirn.perpendicular.findSome? fun d => (s.outportsDirn2idx r d).map (·, d)) =
      some (o, q.dirn) ∧ (net.outports r)[o]? = some q := by
  have hmark := markUturn_eq (r := r) hcross hbuf huturn hlocal
  cases hfound : p.dirn.perpendicular.findSome? fun d => (s.outportsDirn2idx r d).map (·, d) with
  | none =>
    rw [hfound] at hmark
    simp [hmark]
  | some t =>
    obtain ⟨d, hd, ht⟩ := exists_of_findSome?_eq_some hfound
    obtain ⟨o, -, rfl⟩ := Option.map_eq_some_iff.mp ht
    rw [hfound] at hmark
    obtain ⟨s', heq, hbuf'⟩ := hmark
    constructor
    · rintro ⟨s'', o', q, heq', hq, -, -, hbuf''⟩
      cases heq.symm.trans heq'
      cases hbuf'.symm.trans hbuf''
      exact ⟨o, q, rfl, hq⟩
    · rintro ⟨o', q, h, hq⟩
      cases h
      exact ⟨s', o, q, heq, hq, (perpendicular_ne hd).1, (perpendicular_ne hd).2.2, hbuf'⟩

end Deflect

def turnNet : Net :=
  { squareNet with
    spin := true
    spinThrshld := 8
    spinThrshld_pos := eight_pos
    uTurnCrossbar := 0 }

/-- A flit for node 0 waits at router 0 when the drain moves it on to router 1. -/
def deflectActions : List Action :=
  [.message 1 0 ⟨[0], 2⟩, .tick, .tick, .ni 1 fun _ => true, .tick, .link (.extIn 1), .tick,
    .router 3, .tick, .link (.int 3 1), .creditLink (.extIn 1), .tick, .router 1,
    .ni 1 fun _ => true, .tick, .link (.int 1 0), .creditLink (.int 3 1), .tick, .router 0,
    .router 3, .tick, .router 0, .tick, .router 0, .tick, .router 0, .router 1, .router 2,
    .router 3, .tick, .tick]

theorem markUturn_deflects_turnNet : ∃ s s' : State, s.Reachable turnNet ∧
    s.markUturn turnNet 1 ⟨.int 0 1, .West⟩ 0 = .ok s' ∧
    ((s'.vcs (.int 0 1) 0).inputBuffer.map fun f => f.outportDir) ≠ [.West] := by
  obtain ⟨s, hs, hbuf, hfound⟩ : ∃ s : State, s.Reachable turnNet ∧
      (s.vcs (.int 0 1) 0).inputBuffer.map (fun f => f.outportDir) = [.West] ∧
      (PortDirection.West.perpendicular.findSome? fun d => (s.outportsDirn2idx 1 d).map (·, d)) =
        some (1, .North) :=
    exists_reachable deflectActions (fun _ => 0) (by decide +kernel)
  obtain ⟨f, hf, hdir⟩ := map_eq_singleton_iff.mp hbuf
  have hcross : turnNet.uTurnCrossbar = 0 := rfl
  obtain ⟨s', o, q, hmark, _, _, hne, hbuf'⟩ :=
    (markUturn_deflects (p := ⟨.int 0 1, .West⟩) (r := 1) hcross hf hdir (by decide)).mpr
      ⟨1, ⟨.int 1 3, .North, [1], 1⟩, hfound, by decide +kernel⟩
  refine ⟨s, s', hs, hmark, ?_⟩
  rw [hbuf']
  simpa using hne

/-- Three routers in a row, with nodes at the first two. -/
def corridorNet : Net :=
  { meshNet 1 3 [0, 1] Nat.one_pos three_pos with
    inports := fun r =>
      if r = 0 then [⟨.extIn 0, .Local⟩, ⟨.int 1 0, .East⟩]
      else if r = 1 then [⟨.extIn 1, .Local⟩, ⟨.int 0 1, .West⟩, ⟨.int 2 1, .East⟩]
      else [⟨.int 1 2, .West⟩]
    outports := fun r =>
      if r = 0 then [⟨.extOut 0, .Local, [0], 1⟩, ⟨.int 0 1, .East, [1], 1⟩]
      else if r = 1 then
        [⟨.extOut 1, .Local, [1], 1⟩, ⟨.int 1 0, .West, [0], 1⟩, ⟨.int 1 2, .East, [], 1⟩]
      else [⟨.int 2 1, .West, [0, 1], 1⟩]
    inports_eq := by decide +kernel
    outports_eq := by decide +kernel
    spin := true
    spinThrshld := 8
    spinThrshld_pos := eight_pos
    uTurnCrossbar := 0
    spinRing := [⟨0, .East⟩, ⟨1, .West⟩, ⟨2, .West⟩, ⟨1, .East⟩, ⟨0, .East⟩] }

def corridorActions : List Action :=
  [.message 1 0 ⟨[0], 4⟩, .tick, .tick, .tick, .tick, .ni 1 fun _ => true, .tick, .link (.extIn 1),
    .tick, .router 1, .tick, .link (.int 1 0), .creditLink (.extIn 1), .tick, .router 0,
    .ni 1 fun _ => true, .tick, .router 0, .tick, .router 0, .tick, .router 0, .router 1, .router 2,
    .tick, .tick]

/-- The drain brings a flit for node 0 to router 1, which has a port to the east; only the
ports to the north and to the south are tried. -/
theorem markUturn_stuck_corridorNet : ∃ s : State, s.Reachable corridorNet ∧
    s.curCycle ∈ s.events (.router 1) ∧
    (s.vcs (.int 0 1) 0).inputBuffer.map (fun f => (f.route.destNi, f.outportDir)) = [(0, .West)] ∧
    (corridorNet.outports 1).map OutPort.dirn = [.Local, .West, .East] ∧
    disallowUturn s.toCore 1 .West = .error .uturnStuck ∧
    (s.perform corridorNet (.router 1)).map (fun _ => ()) = .error .uturnStuck :=
  exists_reachable corridorActions (fun _ => 0) (by decide +kernel)

end Drain
