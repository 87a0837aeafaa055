import Drain.MakeTopology
import Drain.Mesh

/-! The links made by the topology scripts: for each direction those pairs of
neighbours that pass the script's test. -/

namespace Drain

open List Nat IntLinkParams

section Cells

variable {numRows numCols stride row col a b : Nat} {d d' : PortDirection}

theorem mem_linkCells :
    (row, col) ∈ linkCells numRows numCols d ↔ row < numRows ∧ col < numCols ∧
      ((d = .East ∨ d = .West) ∧ col + 1 < numCols ∨
        (d = .North ∨ d = .South) ∧ row + 1 < numRows) := by
  cases d <;> simp [linkCells] <;> omega

theorem nodup_linkCells (numRows numCols : Nat) (d : PortDirection) :
    (linkCells numRows numCols d).Nodup := by
  have hrow : ((range numRows).flatMap fun row =>
      (range numCols).map fun col => (row, col)).Nodup :=
    nodup_range.product nodup_range
  have hcol : ((range numCols).flatMap fun col =>
      (range numRows).map fun row => (row, col)).Nodup := by
    have hprod := (nodup_range (n := numCols)).product (nodup_range (n := numRows))
    have hswap := hprod.map Prod.swap_injective
    simpa [product, SProd.sprod, map_flatMap, Function.comp_def] using hswap
  cases d <;> simp only [linkCells]
  · exact nodup_nil
  · exact hcol.filter _
  · exact hrow.filter _
  · exact hcol.filter _
  · exact hrow.filter _
  · exact nodup_nil

theorem cell_mod (hcol : col < numCols) : cell numCols row col % numCols = col := by
  simp [cell, mod_eq_of_lt hcol]

theorem cell_div (hcol : col < numCols) : cell numCols row col / numCols = row := by
  unfold cell
  rw [add_mul_div_right _ _ (by omega), div_eq_of_lt hcol, zero_add]

theorem cell_inj {row' col' : Nat} (hcol : col < numCols) (hcol' : col' < numCols)
    (h : cell numCols row col = cell numCols row' col') : (row, col) = (row', col') := by
  have hdiv := congrArg (· / numCols) h
  have hmod := congrArg (· % numCols) h
  simp only [cell_div hcol, cell_div hcol'] at hdiv
  simp only [cell_mod hcol, cell_mod hcol'] at hmod
  rw [hdiv, hmod]

theorem linkEnds_inj {c c' : Nat × Nat} (h : c ∈ linkCells numRows numCols d)
    (h' : c' ∈ linkCells numRows numCols d)
    (he : linkEnds numCols d c.1 c.2 = linkEnds numCols d c'.1 c'.2) : c = c' := by
  obtain ⟨_, hcol, hd⟩ := mem_linkCells.mp h
  obtain ⟨_, hcol', _⟩ := mem_linkCells.mp h'
  rcases hd with ⟨rfl | rfl, _⟩ | ⟨rfl | rfl, _⟩
  · exact cell_inj hcol hcol' (congrArg Prod.fst he)
  · exact cell_inj hcol hcol' (congrArg Prod.snd he)
  · exact cell_inj hcol hcol' (congrArg Prod.fst he)
  · exact cell_inj hcol hcol' (congrArg Prod.snd he)

theorem cell_lt (hrow : row < numRows) (hcol : col < numCols) :
    cell numCols row col < numRows * numCols := by
  have h := mul_le_mul_right numCols (succ_le_of_lt hrow)
  rw [succ_mul] at h
  unfold cell
  omega

theorem gridStep_linkEnds (h : (row, col) ∈ linkCells numRows numCols d) :
    gridStep numCols (linkEnds numCols d row col).1 d (linkEnds numCols d row col).2 ∧
      (linkEnds numCols d row col).1 < numRows * numCols ∧
      (linkEnds numCols d row col).2 < numRows * numCols := by
  obtain ⟨hrow, hcol, hd⟩ := mem_linkCells.mp h
  have hlt := cell_lt hrow hcol
  have hmod : cell numCols row col % numCols = col := cell_mod hcol
  have hcol' : cell numCols row (col + 1) = cell numCols row col + 1 := by unfold cell; omega
  have hrow' : cell numCols (row + 1) col = cell numCols row col + numCols := by
    unfold cell
    rw [succ_mul]
    omega
  rcases hd with ⟨rfl | rfl, hnext⟩ | ⟨rfl | rfl, hnext⟩
  · exact ⟨⟨hcol', by rw [linkEnds, hmod]; exact hnext⟩, hlt, cell_lt hrow hnext⟩
  · exact ⟨⟨hcol', by rw [linkEnds, hmod]; exact hnext⟩, cell_lt hrow hnext, hlt⟩
  · exact ⟨hrow', hlt, cell_lt hnext hcol⟩
  · exact ⟨hrow', cell_lt hnext hcol, hlt⟩

theorem cell_div_mod (numCols a : Nat) : cell numCols (a / numCols) (a % numCols) = a := by
  unfold cell
  rw [mul_comm]
  exact mod_add_div a numCols

theorem exists_linkCells (hc : 0 < numCols) (h : gridStep numCols a d b)
    (ha : a < numRows * numCols) (hb : b < numRows * numCols) :
    ∃ row col, (row, col) ∈ linkCells numRows numCols d ∧ linkEnds numCols d row col = (a, b) := by
  have hstep := gridStep_coordStep hc h
  have hda : a / numCols < numRows := Nat.div_lt_of_lt_mul (by rwa [Nat.mul_comm])
  have hdb : b / numCols < numRows := Nat.div_lt_of_lt_mul (by rwa [Nat.mul_comm])
  have hma := mod_lt a hc
  have hmb := mod_lt b hc
  cases d with
  | East =>
    obtain ⟨hx, hy⟩ := hstep
    refine ⟨a / numCols, a % numCols, mem_linkCells.mpr ⟨hda, hma, .inl ⟨.inl rfl, by omega⟩⟩, ?_⟩
    rw [linkEnds, ← hx, ← hy, cell_div_mod, hy, cell_div_mod]
  | West =>
    obtain ⟨hx, hy⟩ := hstep
    refine ⟨b / numCols, b % numCols, mem_linkCells.mpr ⟨hdb, hmb, .inl ⟨.inr rfl, by omega⟩⟩, ?_⟩
    rw [linkEnds, ← hx, cell_div_mod, hy, cell_div_mod]
  | North =>
    obtain ⟨hx, hy⟩ := hstep
    refine ⟨a / numCols, a % numCols, mem_linkCells.mpr ⟨hda, hma, .inr ⟨.inl rfl, by omega⟩⟩, ?_⟩
    rw [linkEnds, ← hy, ← hx, cell_div_mod, hx, cell_div_mod]
  | South =>
    obtain ⟨hx, hy⟩ := hstep
    refine ⟨b / numCols, b % numCols, mem_linkCells.mpr ⟨hdb, hmb, .inr ⟨.inr rfl, by omega⟩⟩, ?_⟩
    rw [linkEnds, ← hy, cell_div_mod, hx, cell_div_mod]
  | Local => exact h.elim
  | Unknown => exact h.elim

theorem gridStep_dirn_unique (hc : 0 < numCols) (h : gridStep numCols a d b)
    (h' : gridStep numCols a d' b) : d = d' := by
  cases d <;> cases d' <;> simp only [gridStep] at h h' <;> first | rfl | omega

end Cells

section Passes

variable {numRows numCols : Nat} {present : PortDirection → Nat → Nat → Except ScriptError Bool}
  {link : PortDirection → IntLink}

def IntLinkParams.entry (l : IntLinkParams) : (Nat × Nat) × IntLink := ((l.srcNode, l.dstNode), l.link)

def presentCells (numRows numCols : Nat) (present : PortDirection → Nat → Nat → Except ScriptError Bool)
    (d : PortDirection) : List (Nat × Nat) :=
  (linkCells numRows numCols d).filter fun c => (present d c.1 c.2).toOption.getD false

def passEntries (numRows numCols : Nat) (present : PortDirection → Nat → Nat → Except ScriptError Bool)
    (link : PortDirection → IntLink) (d : PortDirection) : List ((Nat × Nat) × IntLink) :=
  (presentCells numRows numCols present d).map fun c => (linkEnds numCols d c.1 c.2, link d)

theorem linkPass_entries {E : ScriptError → Prop} {d : PortDirection}
    (hp : ∀ c ∈ linkCells numRows numCols d, Holds (present d c.1 c.2) (fun _ => True) E)
    (made : List IntLinkParams × Nat) :
    Holds (linkPass numRows numCols present link made d)
      (fun made' => made'.1.map entry =
        made.1.map entry ++ passEntries numRows numCols present link d) E := by
  unfold linkPass passEntries presentCells
  generalize linkCells numRows numCols d = cells at hp
  induction cells generalizing made with
  | nil => simp
  | cons c cells ih =>
    have hc := hp c mem_cons_self
    have hcs := fun made => ih made fun x hx => hp x (mem_cons_of_mem c hx)
    rw [foldlM_cons, bind_assoc]
    cases hpc : present d c.1 c.2 with
    | error e =>
      rw [hpc] at hc
      exact hc
    | ok found =>
      rw [ok_bind, holds_bind]
      cases found with
      | true =>
        simp only [if_true, holds_pure]
        refine (hcs _).imp fun made' h => ?_
        rw [h]
        simp [hpc, entry, Except.toOption]
      | false =>
        simp only [Bool.false_eq_true, if_false, holds_pure]
        refine (hcs _).imp fun made' h => ?_
        rw [h]
        simp [hpc, Except.toOption]

def meshEntries (numRows numCols : Nat) (present : PortDirection → Nat → Nat → Except ScriptError Bool)
    (link : PortDirection → IntLink) : List ((Nat × Nat) × IntLink) :=
  linkPasses.flatMap (passEntries numRows numCols present link)

theorem intLinks_entries {E : ScriptError → Prop} (linkCount : Nat)
    (hp : ∀ d, ∀ c ∈ linkCells numRows numCols d, Holds (present d c.1 c.2) (fun _ => True) E) :
    Holds (intLinks numRows numCols linkCount present link)
      (fun ints => ints.map entry = meshEntries numRows numCols present link) E := by
  have hpasses : ∀ (ds : List PortDirection) (made : List IntLinkParams × Nat),
      Holds (ds.foldlM (linkPass numRows numCols present link) made)
        (fun made' => made'.1.map entry = made.1.map entry ++
          ds.flatMap (passEntries numRows numCols present link)) E := by
    intro ds
    induction ds with
    | nil => simp
    | cons d ds ih =>
      intro made
      rw [foldlM_cons, holds_bind]
      refine (linkPass_entries (hp d) made).imp fun made' h => (ih made').imp fun made'' h' => ?_
      rw [h', h, flatMap_cons, append_assoc]
  unfold intLinks
  rw [holds_bind]
  exact (hpasses linkPasses ([], linkCount)).imp fun made h => h

theorem entries_of_intLinks {linkCount : Nat} {ints : List IntLinkParams}
    (h : intLinks numRows numCols linkCount present link = .ok ints) :
    ints.map entry = meshEntries numRows numCols present link := by
  exact (intLinks_entries linkCount fun d c _ => holds_true _).of_ok h

theorem mem_meshEntries {a b : Nat} {e : IntLink} :
    ((a, b), e) ∈ meshEntries numRows numCols present link ↔ ∃ d row col,
      (row, col) ∈ linkCells numRows numCols d ∧ present d row col = .ok true ∧
      linkEnds numCols d row col = (a, b) ∧ e = link d := by
  have hpresent : ∀ x : Except ScriptError Bool, x.toOption.getD false = true ↔ x = .ok true := by
    intro x
    cases x <;> simp [Except.toOption]
  have hpass : ∀ d, d ∈ linkPasses ∨ linkCells numRows numCols d = [] := by
    intro d
    cases d <;> simp [linkPasses, linkCells]
  simp only [meshEntries, passEntries, presentCells, hpresent, mem_flatMap, mem_map, mem_filter,
    Prod.exists, Prod.mk.injEq]
  constructor
  · rintro ⟨d, _, row, col, ⟨hcell, hp⟩, hends, he⟩
    exact ⟨d, row, col, hcell, hp, hends, he.symm⟩
  · rintro ⟨d, row, col, hcell, hp, hends, he⟩
    rcases hpass d with hd | hd
    · exact ⟨d, hd, row, col, ⟨hcell, hp⟩, hends, he.symm⟩
    · simp [hd] at hcell

theorem nodup_meshEntries (numRows : Nat) (hc : 0 < numCols)
    (present : PortDirection → Nat → Nat → Except ScriptError Bool) (link : PortDirection → IntLink) :
    ((meshEntries numRows numCols present link).map Prod.fst).Nodup := by
  have hstep : ∀ d, ∀ c ∈ presentCells numRows numCols present d,
      gridStep numCols (linkEnds numCols d c.1 c.2).1 d (linkEnds numCols d c.1 c.2).2 :=
    fun d c hcell => (gridStep_linkEnds (mem_filter.mp hcell).1).1
  simp only [meshEntries, passEntries, map_flatMap, map_map, Function.comp_def]
  refine nodup_flatMap.mpr ⟨fun d _ => ?_, ?_⟩
  · refine List.Nodup.map_on ?_ ((nodup_linkCells numRows numCols d).filter _)
    intro c hcell c' hcell' he
    exact linkEnds_inj (mem_filter.mp hcell).1 (mem_filter.mp hcell').1 he
  · have hdirns : linkPasses.Pairwise (· ≠ ·) := by decide
    refine hdirns.imp fun {d d'} hne x hx hx' => ?_
    obtain ⟨c, hcell, rfl⟩ := mem_map.mp hx
    obtain ⟨c', hcell', he⟩ := mem_map.mp hx'
    have h' := hstep d' c' hcell'
    rw [he] at h'
    exact hne (gridStep_dirn_unique hc (hstep d c hcell) h')

end Passes

section Scripts

variable {numCpus meshRows numRows numCols : Nat} {nodes : List Controller} {m : MadeLinks}
  {t : Topology} {link : PortDirection → IntLink}

theorem numColumns_spec :
    Holds (numColumns numCpus meshRows)
      (fun cols => cols = numCpus / meshRows ∧ 0 < cols ∧ meshRows * cols = numCpus) fun _ => True := by
  simp only [numColumns, holds_bind, holds_require, holds_pure, implies_true, and_true]
  intro _ hrows hmul
  exact ⟨trivial, div_pos hrows.2 hrows.1, by rw [mul_comm, hmul]⟩

theorem MadeLinks.intLink_eq_some (hnd : ((m.intLinks.map entry).map Prod.fst).Nodup)
    {a b : Nat} {e : IntLink} :
    m.intLink a b = some e ↔ ((a, b), e) ∈ m.intLinks.map entry := by
  constructor
  · intro h
    obtain ⟨l, hl, rfl, rfl, rfl⟩ := mem_of_intLink h
    exact mem_map_of_mem hl
  · intro h
    obtain ⟨l, hl, hentry⟩ := mem_map.mp h
    cases hlast : (m.intLinks.filter fun l => l.srcNode = a ∧ l.dstNode = b).getLast? with
    | none =>
      have hnone := getLast?_eq_none_iff.mp hlast
      have hmem : l ∈ m.intLinks.filter fun l => l.srcNode = a ∧ l.dstNode = b := by
        simp_all [entry]
      exact absurd hmem (by rw [hnone]; exact not_mem_nil)
    | some l' =>
      obtain ⟨hl', hends⟩ := mem_filter.mp (mem_of_getLast? hlast)
      rw [map_map] at hnd
      have hsame : l' = l := by
        refine inj_on_of_nodup_map hnd hl' hl ?_
        simp_all [entry]
      rw [MadeLinks.intLink, hlast, Option.map_some, hsame]
      exact congrArg some (congrArg Prod.snd hentry)

/-- The topology of a mesh with all its links, whose parameters depend on the direction. -/
structure Topology.IsMesh (t : Topology) (numRows numCols : Nat) (link : PortDirection → IntLink) :
    Prop where
  numCols_pos : 0 < numCols
  numRouters_eq : t.numRouters = numRows * numCols
  extWeight_eq : ∀ n, t.extWeight n = 1
  intLink_iff : ∀ {a b e}, t.intLink a b = some e ↔
    a < t.numRouters ∧ b < t.numRouters ∧ ∃ d, gridStep numCols a d b ∧ e = link d

theorem MadeLinks.topology_spec (h : m.topology = some t) :
    t.numRouters = m.numRouters ∧ t.nodes = m.extLinks.length ∧ t.extRouter = m.extRouter ∧
      (∀ n, t.extWeight n = 1) ∧ t.intLink = m.intLink := by
  unfold MadeLinks.topology at h
  split at h
  · cases h
    exact ⟨rfl, rfl, rfl, fun _ => rfl, rfl⟩
  · cases h

theorem MadeLinks.exists_topology {made : Except ScriptError MadeLinks} {P : Topology → Prop}
    [DecidablePred P]
    (h : (made.toOption.bind MadeLinks.topology).map (fun t => decide (P t)) = some true) :
    ∃ m t, made = .ok m ∧ m.topology = some t ∧ P t := by
  obtain ⟨t, ht, hP⟩ := Option.map_eq_some_iff.mp h
  obtain ⟨m, hm, hmt⟩ := Option.bind_eq_some_iff.mp ht
  cases made with
  | error e => cases hm
  | ok m' =>
    cases hm
    exact ⟨m, t, rfl, hmt, of_decide_eq_true hP⟩

theorem fullMesh_isMesh (h : fullMesh numCpus meshRows nodes link = .ok m)
    (ht : m.topology = some t) : t.IsMesh meshRows (numCpus / meshRows) link := by
  obtain ⟨hn, _, _, hw, hint⟩ := MadeLinks.topology_spec ht
  simp only [fullMesh, bind_eq_ok] at h
  obtain ⟨cols, hcols, _, _, ints, hints, hm⟩ := h
  cases hm
  obtain ⟨hdiv, hpos, hmul⟩ := numColumns_spec.of_ok hcols
  have hentries := entries_of_intLinks hints
  rw [← hdiv]
  refine ⟨hpos, by rw [hn, hmul], hw, fun {a b e} => ?_⟩
  rw [hint, MadeLinks.intLink_eq_some (hentries ▸ nodup_meshEntries _ hpos _ _), hentries, mem_meshEntries,
    hn, ← hmul]
  constructor
  · rintro ⟨d, row, col, hcell, _, hends, rfl⟩
    have hstep := gridStep_linkEnds hcell
    rw [hends] at hstep
    exact ⟨hstep.2.1, hstep.2.2, d, hstep.1, rfl⟩
  · rintro ⟨ha, hb, d, hstep, rfl⟩
    obtain ⟨row, col, hcell, hends⟩ := exists_linkCells hpos hstep ha hb
    exact ⟨d, row, col, hcell, rfl, hends, rfl⟩

end Scripts

def gridNet {t : Topology} {numRows numCols : Nat} (routingAlgorithm : RoutingAlgorithm)
    (hmul : numRows * numCols = t.numRouters) (hpos : 0 < t.numRouters)
    (hgrid : ∀ {a b e}, t.intLink a b = some e →
      gridStep numCols a e.srcOutport b ∧ e.dstInport = e.srcOutport.opposite) : Net where
  topology := t
  numRows := numRows
  numCols := numCols
  inports := t.inports
  outports := t.outports
  virtualNetworks := 1
  vcsPerVnet := 1
  buffersPerDataVc := 1
  buffersPerCtrlVc := 1
  isDataVnet := fun _ => false
  isVNetOrdered := fun _ => true
  routingAlgorithm := routingAlgorithm
  routerLatency := 1
  linkLatency := 1
  spin := false
  spinThrshld := 1
  spinMult := 1
  drainAllVc := 0
  uTurnCrossbar := 1
  injSingleVnet := 0
  niInj := .rr
  spinRing := []
  rows_mul_cols := hmul
  numRouters_pos := hpos
  grid := hgrid
  inports_eq := fun _ _ => rfl
  outports_eq := fun _ _ => rfl
  vcsPerVnet_pos := Nat.one_pos
  buffers_pos := ⟨Nat.one_pos, Nat.one_pos⟩
  routerLatency_pos := Nat.one_pos
  linkLatency_pos := Nat.one_pos
  spinThrshld_pos := Nat.one_pos

end Drain
