import Drain.MeshLinks

/-! Full meshes of any size, with one node at each router. -/

namespace Drain

open List Topology

variable {numRows numCols a b : Nat} {d : PortDirection}

def meshDirn (numCols a b : Nat) : Option PortDirection :=
  [.East, .West, .North, .South].find? fun d => gridStep numCols a d b

theorem meshDirn_eq_some (hc : 0 < numCols) :
    meshDirn numCols a b = some d ↔ gridStep numCols a d b := by
  constructor
  · intro h
    simpa using find?_some h
  · intro h
    cases hfound : meshDirn numCols a b with
    | none =>
      have hnone := find?_eq_none.mp hfound d
      cases d <;> simp_all [gridStep]
    | some d' =>
      have hd' : gridStep numCols a d' b := by simpa using find?_some hfound
      rw [gridStep_dirn_unique hc h hd']

def Topology.mesh (numRows numCols : Nat) (routers : List (Fin (numRows * numCols))) : Topology where
  numRouters := numRows * numCols
  nodes := routers.length
  extRouter := fun n => (routers[n]?.map Fin.val).getD 0
  extWeight := fun _ => 1
  intLink := fun a b =>
    if a < numRows * numCols ∧ b < numRows * numCols then
      (meshDirn numCols a b).map fun d => ⟨1, d, d.opposite⟩
    else none
  extRouter_lt := fun n h => by simp [getElem?_eq_getElem h]
  extWeight_pos := fun _ _ => Nat.one_pos
  intLink_lt := by
    intro a b e h
    split at h
    · assumption
    · cases h
  intLink_pos := by
    intro a b e h
    split at h
    · obtain ⟨d, _, rfl⟩ := Option.map_eq_some_iff.mp h
      exact Nat.one_pos
    · cases h

section Mesh

variable {routers : List (Fin (numRows * numCols))}

theorem mesh_intLink (hc : 0 < numCols) (ha : a < numRows * numCols) (hb : b < numRows * numCols)
    (h : gridStep numCols a d b) :
    (mesh numRows numCols routers).intLink a b = some ⟨1, d, d.opposite⟩ := by
  simp [mesh, ha, hb, (meshDirn_eq_some hc).mpr h]

theorem mesh_grid (hc : 0 < numCols) {e : IntLink}
    (h : (mesh numRows numCols routers).intLink a b = some e) :
    gridStep numCols a e.srcOutport b ∧ e.dstInport = e.srcOutport.opposite := by
  simp only [mesh] at h
  split at h
  · obtain ⟨d, hd, rfl⟩ := Option.map_eq_some_iff.mp h
    exact ⟨(meshDirn_eq_some hc).mp hd, rfl⟩
  · cases h

end Mesh

def meshNet (numRows numCols : Nat) (routers : List (Fin (numRows * numCols))) (hr : 0 < numRows)
    (hc : 0 < numCols) : Net :=
  gridNet (t := .mesh numRows numCols routers) .table rfl (Nat.mul_pos hr hc) (mesh_grid hc)

theorem fullMesh_of_topology {net : Net} {routers : List (Fin (numRows * numCols))}
    (h : net.topology = .mesh numRows numCols routers) (hc : net.numCols = numCols) :
    net.FullMesh := by
  intro a b d ha hb hstep
  have hpos := net.numCols_pos
  rw [hc] at hstep hpos
  unfold Net.numRouters at ha hb
  rw [h] at ha hb
  refine ⟨⟨1, d, d.opposite⟩, ?_, show 1 ≠ infiniteLatency by decide, rfl⟩
  rw [h]
  exact mesh_intLink hpos ha hb hstep

def squareNet : Net :=
  { meshNet 2 2 [0, 3] (by decide) (by decide) with
    inports := fun r =>
      if r = 0 then [⟨.extIn 0, .Local⟩, ⟨.int 1 0, .East⟩, ⟨.int 2 0, .North⟩]
      else if r = 1 then [⟨.int 0 1, .West⟩, ⟨.int 3 1, .North⟩]
      else if r = 2 then [⟨.int 0 2, .South⟩, ⟨.int 3 2, .East⟩]
      else [⟨.extIn 1, .Local⟩, ⟨.int 1 3, .South⟩, ⟨.int 2 3, .West⟩]
    outports := fun r =>
      if r = 0 then [⟨.extOut 0, .Local, [0], 1⟩, ⟨.int 0 1, .East, [1], 1⟩, ⟨.int 0 2, .North, [1], 1⟩]
      else if r = 1 then [⟨.int 1 0, .West, [0], 1⟩, ⟨.int 1 3, .North, [1], 1⟩]
      else if r = 2 then [⟨.int 2 0, .South, [0], 1⟩, ⟨.int 2 3, .East, [1], 1⟩]
      else [⟨.extOut 1, .Local, [1], 1⟩, ⟨.int 3 1, .South, [0], 1⟩, ⟨.int 3 2, .West, [0], 1⟩]
    inports_eq := by decide +kernel
    outports_eq := by decide +kernel
    spinRing := [⟨0, .East⟩, ⟨1, .West⟩, ⟨3, .South⟩, ⟨2, .East⟩, ⟨0, .North⟩, ⟨2, .South⟩,
      ⟨3, .West⟩, ⟨1, .North⟩, ⟨0, .East⟩] }

theorem squareNet_fullMesh : squareNet.FullMesh := fullMesh_of_topology rfl rfl

end Drain
