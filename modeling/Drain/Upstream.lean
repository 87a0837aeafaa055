import Drain.Control
import Drain.RouteChoice

/-! The drain finds the router above an input port by arithmetic on router ids and its output
unit by the name of a direction. On every irregular mesh this is the link into the port. -/

namespace Drain

open List Net

namespace Net

variable {net : Net} {r i o : Nat}

theorem inportsDirn2idx_eq {p : InPort} (hr : r < net.numRouters)
    (hp : (net.inports r)[i]? = some p) (hl : p.dirn ≠ .Local) :
    net.inportsDirn2idx r p.dirn = i := by
  have hfound := getElem?_inportsDirn2idx hr (mem_of_getElem? hp) hl
  exact inport_index_unique hr hfound hp rfl

theorem outportsDirn2idx_eq {p : OutPort} (hr : r < net.numRouters)
    (hp : (net.outports r)[o]? = some p) (hl : p.dirn ≠ .Local) :
    net.outportsDirn2idx r p.dirn = some o := by
  rcases outport_cases hr (mem_of_getElem? hp) with ⟨_, _, _, _, hloc⟩ | ⟨b, hlink, hpl⟩
  · exact absurd hloc hl
  · obtain ⟨o', q, ho', hq, hql, _⟩ := hlink.outportsDirn2idx
    rw [ho', outport_index_unique hr hq hp (hql.trans hpl.symm)]

theorem upstreamLink_inport {s : State} {p : InPort} (hs : s.FreeReachable net)
    (hr : r < net.numRouters) (hp : p ∈ net.inports r) (hl : p.dirn ≠ .Local) :
    s.upstreamLink net ⟨r, p.dirn⟩ = .ok (p.link, s) := by
  rcases inport_cases hr hp with ⟨_, _, _, rfl⟩ | ⟨a, d, hlink, rfl⟩
  · exact absurd rfl hl
  · exact upstreamLink_eq hs.wf.1.dirns hlink

end Net

theorem gridStep_reverse {numCols a b : Nat} {d : PortDirection} (h : gridStep numCols a d b) :
    gridStep numCols b d.opposite a := by
  cases d <;> exact h

theorem getUpstreamOutportDirn_eq {d : PortDirection} (h : d ≠ .Local) :
    getUpstreamOutportDirn d = .ok d.opposite := by
  cases d with
  | Local => exact absurd rfl h
  | _ => rfl

namespace IrregularMeshXY

variable {numCpus meshRows : Nat} {nodes : List Controller} {conf : ConfFile} {m : MadeLinks}

theorem extLinks_lt (hn : 0 < numCpus) {l : ExtLinkParams} (hl : l ∈ extLinks numCpus nodes) :
    l.intNode < numCpus := by
  simp only [extLinks, mem_append, mem_map] at hl
  rcases hl with ⟨n, _, rfl⟩ | ⟨n, _, rfl⟩
  · exact Nat.mod_lt _ hn
  · exact hn

theorem makeTopology_spec (h : makeTopology numCpus meshRows nodes conf = .ok m) :
    m.Ok ∧ m.numRouters = numCpus ∧ meshRows * (numCpus / meshRows) = numCpus := by
  have hgrid := fun l hl => intLinks_grid (l := l) h hl
  simp only [makeTopology, bind_eq_ok] at h
  obtain ⟨cols, hcols, _, _, _, _, _, _, ints, _, hm⟩ := h
  cases hm
  obtain ⟨rfl, hpos, hmul⟩ := numColumns_spec.of_ok hcols
  have hn : 0 < numCpus := by
    rcases Nat.eq_zero_or_pos numCpus with h | h
    · simp [h] at hpos
    · exact h
  refine ⟨⟨hn, fun l => extLinks_lt hn, fun l hl => ?_⟩, rfl, hmul⟩
  obtain ⟨_, _, hsrc, hdst, hweight⟩ := hgrid l hl
  exact ⟨hsrc, hdst, hweight ▸ Nat.one_pos⟩

theorem exists_net {t : Topology} (h : makeTopology numCpus meshRows nodes conf = .ok m)
    (ht : m.topology = some t) : ∃ net : Net, net.topology = t ∧ net.numRows = meshRows := by
  obtain ⟨hok, hn, hmul⟩ := makeTopology_spec h
  obtain ⟨ht', _⟩ := MadeLinks.topology_spec ht
  exact ⟨gridNet .table (by rw [hmul, ht', hn]) (ht' ▸ hok.1) (topology_grid h ht), rfl, rfl⟩

/-- The directions of the links and the arithmetic on router ids agree, and a direction names
at most one port. -/
theorem irregularMesh_upstream (h : makeTopology numCpus meshRows nodes conf = .ok m) :
    ∃ t, m.topology = some t ∧ (∃ net : Net, net.topology = t ∧ net.numRows = meshRows) ∧
      ∀ net : Net, net.topology = t → net.numRows = meshRows →
        (∀ l ∈ m.intLinks, net.getUpstreamId l.link.dstInport l.dstNode = .ok (l.srcNode : Int) ∧
          getUpstreamOutportDirn l.link.dstInport = .ok l.link.srcOutport ∧
          net.getUpstreamId l.link.srcOutport l.srcNode = .ok (l.dstNode : Int)) ∧
        ∀ r < net.numRouters,
          (∀ i p, (net.inports r)[i]? = some p → p.dirn ≠ .Local →
            net.inportsDirn2idx r p.dirn = i) ∧
          (∀ o p, (net.outports r)[o]? = some p → p.dirn ≠ .Local →
            net.outportsDirn2idx r p.dirn = some o) ∧
          ∀ s : State, s.FreeReachable net → ∀ p ∈ net.inports r, p.dirn ≠ .Local →
            s.upstreamLink net ⟨r, p.dirn⟩ = .ok (p.link, s) := by
  obtain ⟨hok, hn, hmul⟩ := makeTopology_spec h
  obtain ⟨t, ht⟩ : ∃ t, m.topology = some t := ⟨_, dif_pos hok⟩
  refine ⟨t, ht, exists_net h ht, fun net hnet hrows => ⟨fun l hl => ?_, fun r hr => ?_⟩⟩
  · obtain ⟨hstep, hopp, _⟩ := intLinks_grid h hl
    have hcols : net.numCols = numCpus / meshRows := by
      refine net.numCols_eq ?_
      obtain ⟨ht', _⟩ := MadeLinks.topology_spec ht
      rw [hrows, hmul, ← hn, ← ht', ← hnet]
      rfl
    rw [← hcols] at hstep
    have hback := gridStep_reverse hstep
    rw [← hopp] at hback
    refine ⟨getUpstreamId_of_gridStep hback, ?_, getUpstreamId_of_gridStep hstep⟩
    rw [getUpstreamOutportDirn_eq (gridStep_ne_local hback), hopp, PortDirection.opposite_opposite]
  · exact ⟨fun i p => inportsDirn2idx_eq hr, fun o p => outportsDirn2idx_eq hr,
      fun s hs p => upstreamLink_inport hs hr⟩

theorem irregularMesh_upstream_skewConf :
    ∃ m, makeTopology 6 2 ((range 6).map fun n => ⟨n, false⟩) skewConf = .ok m ∧
      m.intLinks.map (fun l => (l.srcNode, l.dstNode)) = [(4, 5)] ∧
      ∃ net : Net, net.numRows = 2 ∧ ∀ l ∈ m.intLinks,
        net.getUpstreamId l.link.dstInport l.dstNode = .ok (l.srcNode : Int) := by
  obtain ⟨m, hm, hlinks⟩ : ∃ m,
      makeTopology 6 2 ((range 6).map fun n => ⟨n, false⟩) skewConf = .ok m ∧
        m.intLinks.map (fun l => (l.srcNode, l.dstNode)) = [(4, 5)] := ⟨_, rfl, by decide⟩
  obtain ⟨t, _, ⟨net, hnet, hrows⟩, hall⟩ := irregularMesh_upstream hm
  exact ⟨m, hm, hlinks, net, hrows, fun l hl => ((hall net hnet hrows).1 l hl).1⟩

end IrregularMeshXY

end Drain
