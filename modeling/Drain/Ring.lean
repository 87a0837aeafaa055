import Drain.RouteCompute

/-! The spin ring as a sequence of links: position `i` of the ring stands for one
link between two routers, each link occurs once, and the last position is the first. -/

namespace Drain

open List

namespace Net

variable {net : Net} {a b i j : Nat} {d : PortDirection} {e : SpinStruct}

def ringSize (net : Net) : Nat := net.spinRing.length - 1

def entryLink (net : Net) (e : SpinStruct) : Link :=
  match net.ringPort e with
  | .ok p => p.link
  | .error _ => .extIn 0

def ringLink (net : Net) (i : Nat) : Link :=
  (net.spinRing[i]?.map net.entryLink).getD (.extIn 0)

structure IsEntry (net : Net) (e : SpinStruct) (a b : Nat) (d : PortDirection) : Prop where
  hasLink : net.HasLink a b d
  eq : e = ⟨b, d.opposite⟩

theorem IsEntry.ringPort (h : net.IsEntry e a b d) : net.ringPort e = .ok ⟨.int a b, d.opposite⟩ := by
  rw [h.eq]
  exact ringPort_eq (p := ⟨.int a b, d.opposite⟩) h.hasLink.lt.2 h.hasLink.inport
    (gridStep_opposite_ne_local h.hasLink.gridStep)

theorem IsEntry.entryLink (h : net.IsEntry e a b d) : net.entryLink e = .int a b := by
  unfold Net.entryLink
  rw [h.ringPort]

theorem ringLink_of_getElem? (h : net.spinRing[i]? = some e) : net.ringLink i = net.entryLink e := by
  unfold ringLink
  rw [h]
  rfl

theorem mem_networkInports : e ∈ net.networkInports ↔ ∃ a b d, net.IsEntry e a b d := by
  unfold networkInports
  simp only [mem_flatMap, mem_range, mem_map, mem_filter]
  constructor
  · rintro ⟨r, hr, p, ⟨hp, hl⟩, rfl⟩
    rcases inport_cases hr hp with ⟨n, _, _, rfl⟩ | ⟨a, d, hd, rfl⟩
    · simp at hl
    · exact ⟨a, r, d, hd, rfl⟩
  · rintro ⟨a, b, d, hd, rfl⟩
    refine ⟨b, hd.lt.2, _, ⟨hd.inport, ?_⟩, rfl⟩
    simpa using gridStep_opposite_ne_local hd.gridStep

theorem networkInports_nodup (net : Net) : net.networkInports.Nodup := by
  unfold networkInports
  rw [nodup_flatMap]
  constructor
  · intro r hr
    rw [mem_range] at hr
    refine List.Nodup.map_on ?_ ((inports_nodup hr).filter _)
    intro p hp q hq hpq
    rw [mem_filter] at hp hq
    have hd : p.dirn = q.dirn := congrArg SpinStruct.inportDir hpq
    exact inport_unique hr hq.1 hp.1 hd (by simpa using hq.2)
  · refine nodup_range.imp fun {r r'} hne => ?_
    intro e he he'
    simp only [mem_map] at he he'
    obtain ⟨_, _, rfl⟩ := he
    obtain ⟨_, _, h⟩ := he'
    exact hne (congrArg SpinStruct.routerId h).symm

variable (hring : net.RingOk)

include hring

theorem RingOk.entry (hi : i < net.ringSize) :
    ∃ e a b d, net.spinRing[i]? = some e ∧ net.IsEntry e a b d ∧ net.ringLink i = .int a b := by
  have hlen : i < net.spinRing.dropLast.length := by
    rw [length_dropLast]
    exact hi
  have hget : net.spinRing[i]? = some net.spinRing.dropLast[i] := by
    rw [getElem_dropLast, getElem?_eq_getElem]
  have hmem : net.spinRing.dropLast[i] ∈ net.networkInports :=
    hring.ports.mem_iff.mp (getElem_mem hlen)
  obtain ⟨a, b, d, he⟩ := mem_networkInports.mp hmem
  exact ⟨_, a, b, d, hget, he, (ringLink_of_getElem? hget).trans he.entryLink⟩

theorem RingOk.getElem?_last : net.spinRing[net.ringSize]? = net.spinRing[0]? := by
  have h := hring.closed.2
  rwa [getLast?_eq_getElem?, head?_eq_getElem?] at h

theorem RingOk.ringLink_last : net.ringLink net.ringSize = net.ringLink 0 := by
  unfold ringLink
  rw [hring.getElem?_last]

theorem RingOk.entry_succ (hi : i < net.ringSize) :
    ∃ e a b d, net.spinRing[i + 1]? = some e ∧ net.IsEntry e a b d ∧
      net.ringLink (i + 1) = .int a b := by
  by_cases h : i + 1 < net.ringSize
  · exact hring.entry h
  · have hlast : i + 1 = net.ringSize := by omega
    rw [hlast, hring.getElem?_last, hring.ringLink_last]
    exact hring.entry (by omega)

theorem RingOk.ringLink_inj (hi : i < net.ringSize) (hj : j < net.ringSize)
    (h : net.ringLink i = net.ringLink j) : i = j := by
  obtain ⟨e, a, b, d, hei, he, hl⟩ := hring.entry hi
  obtain ⟨e', a', b', d', hej, he', hl'⟩ := hring.entry hj
  rw [hl, hl'] at h
  obtain ⟨rfl, rfl⟩ := Link.int.inj h
  have hd : d = d' := by
    obtain ⟨x, hx, _, rfl⟩ := he.hasLink
    obtain ⟨x', hx', _, rfl⟩ := he'.hasLink
    rw [hx] at hx'
    rw [Option.some.inj hx']
  subst hd
  have hee : e = e' := he.eq.trans he'.eq.symm
  have hnd : net.spinRing.dropLast.Nodup := hring.ports.nodup_iff.mpr net.networkInports_nodup
  have hget {k : Nat} (hk : k < net.spinRing.dropLast.length) :
      net.spinRing[k]? = some net.spinRing.dropLast[k] := by
    rw [getElem_dropLast, getElem?_eq_getElem]
  have hi' : i < net.spinRing.dropLast.length := by
    rwa [length_dropLast]
  have hj' : j < net.spinRing.dropLast.length := by
    rwa [length_dropLast]
  rw [hget hi'] at hei
  rw [hget hj'] at hej
  refine hnd.getElem_inj_iff.mp (?_ : net.spinRing.dropLast[i] = net.spinRing.dropLast[j])
  rw [Option.some.inj hei, Option.some.inj hej, hee]

theorem RingOk.exists_ringLink (h : net.HasLink a b d) :
    ∃ i < net.ringSize, net.ringLink i = .int a b := by
  have hmem := hring.ports.mem_iff.mpr
    (mem_networkInports.mpr ⟨a, b, d, ⟨h, rfl⟩⟩ : (⟨b, d.opposite⟩ : SpinStruct) ∈ _)
  obtain ⟨i, hi, hget⟩ := getElem_of_mem hmem
  have hi' : i < net.ringSize := by
    rwa [length_dropLast] at hi
  have hentry : net.IsEntry ⟨b, d.opposite⟩ a b d := ⟨h, rfl⟩
  refine ⟨i, hi', ?_⟩
  rw [ringLink_of_getElem? (e := net.spinRing.dropLast[i]), hget, hentry.entryLink]
  rw [getElem_dropLast, getElem?_eq_getElem]

theorem RingOk.ringLink_mod (hi : i ≤ net.ringSize) :
    net.ringLink i = net.ringLink (i % net.ringSize) := by
  rcases lt_or_eq_of_le hi with h | h
  · rw [Nat.mod_eq_of_lt h]
  · rw [h, Nat.mod_self, hring.ringLink_last]

theorem RingOk.ringLink_succ_inj (hi : i < net.ringSize) (hj : j < net.ringSize)
    (h : net.ringLink (i + 1) = net.ringLink (j + 1)) : i = j := by
  rw [hring.ringLink_mod hi, hring.ringLink_mod hj] at h
  have hpos : 0 < net.ringSize := by omega
  have hmod := hring.ringLink_inj (Nat.mod_lt _ hpos) (Nat.mod_lt _ hpos) h
  have hij : i ≡ j [MOD net.ringSize] := Nat.ModEq.add_right_cancel' 1 hmod
  exact hij.eq_of_lt_of_lt hi hj

theorem RingOk.exists_pred (hi : i < net.ringSize) :
    ∃ j < net.ringSize, net.ringLink (j + 1) = net.ringLink i := by
  cases i with
  | zero =>
    refine ⟨net.ringSize - 1, by omega, ?_⟩
    rw [show net.ringSize - 1 + 1 = net.ringSize by omega, hring.ringLink_last]
  | succ j => exact ⟨j, by omega, rfl⟩

theorem RingOk.map_ringLink :
    ((range net.ringSize).map net.ringLink).Perm
      ((range net.numRouters).flatMap fun r =>
        ((net.inports r).filter fun p => p.dirn ≠ .Local).map InPort.link) := by
  have hdrop : (range net.ringSize).map net.ringLink = net.spinRing.dropLast.map net.entryLink := by
    refine ext_getElem ?_ fun i hi hi' => ?_
    · simp [ringSize]
    · rw [length_map] at hi'
      rw [getElem_map, getElem_map, getElem_range]
      refine ringLink_of_getElem? ?_
      rw [getElem_dropLast, getElem?_eq_getElem]
  have hports : net.networkInports.map net.entryLink = (range net.numRouters).flatMap fun r =>
      ((net.inports r).filter fun p => p.dirn ≠ .Local).map InPort.link := by
    unfold networkInports
    rw [map_flatMap]
    refine flatMap_congr fun r hr => ?_
    rw [map_map]
    refine map_congr_left fun p hp => ?_
    rw [mem_range] at hr
    rw [mem_filter] at hp
    unfold Net.entryLink
    simp only [Function.comp_apply]
    rw [ringPort_eq hr hp.1 (by simpa using hp.2)]
  rw [hdrop, ← hports]
  exact hring.ports.map _

end Net

theorem pairNet_ringOk {linkLatency spinThrshld : Nat} {hl : 0 < linkLatency}
    {ht : 0 < spinThrshld} : (pairNet linkLatency spinThrshld hl ht).RingOk :=
  ⟨⟨cons_ne_nil _ _, rfl⟩, List.Perm.refl _⟩

end Drain
