import Drain.MeshLinks

/-! The script for irregular meshes: how it reads the connectivity matrix, and
which links it makes. -/

namespace Drain

open List

namespace ConfFile

def entry (conf : ConfFile) (a b : Nat) : Int := ((conf.lines[a]?.getD [])[b]?).getD 0

def matrix (conf : ConfFile) (a b : Nat) : Int :=
  if a < conf.cols * conf.rows ∧ b < conf.cols * conf.rows then conf.entry a b else 0

/-- The file holds a square matrix with a row for each router. Lines after it are not read. -/
structure IsMatrix (conf : ConfFile) : Prop where
  size : conf.cols * conf.rows ≤ conf.lines.length
  line : ∀ l ∈ conf.lines.take (conf.cols * conf.rows), l.length = conf.cols * conf.rows

end ConfFile

namespace IrregularMeshXY

variable {size x : Nat} {topology : Nat → Nat → Int}

theorem storeLine (topology : Nat → Nat → Int) (hx : x < size) (words : List Int) (y : Nat)
    (hy : y + words.length ≤ size) :
    words.foldlM (storeWord size x) (topology, y) =
      .ok (fun a b => if a = x ∧ y ≤ b ∧ b < y + words.length then (words[b - y]?).getD 0
        else topology a b, y + words.length) := by
  induction words generalizing topology y with
  | nil =>
    have hempty : ∀ b, ¬(y ≤ b ∧ b < y) := by omega
    simp [hempty]
    rfl
  | cons word words ih =>
    rw [length_cons] at hy
    have hstore : storeWord size x (topology, y) word = .ok (setEntry topology x y word, y + 1) := by
      simp [storeWord, require, hx, show y < size by omega]
    rw [foldlM_cons, hstore, ok_bind, ih _ (y + 1) (by omega)]
    refine congrArg Except.ok (Prod.ext ?_ (by simp only [length_cons]; omega))
    funext a b
    simp only [setEntry_apply, length_cons]
    by_cases ha : a = x
    · by_cases hb : b = y
      · subst hb
        simp [ha]
      · by_cases hlt : y < b
        · obtain ⟨k, rfl⟩ : ∃ k, b = y + 1 + k := ⟨b - (y + 1), by omega⟩
          have hk : y + 1 + k - y = k + 1 := by omega
          have hin : (y ≤ y + 1 + k ∧ y + 1 + k < y + (words.length + 1)) ↔ k < words.length := by omega
          simp [ha, hb, hk, hin]
        · have hno : ¬(y + 1 ≤ b) := by omega
          have hno' : ¬ (y ≤ b) := by omega
          simp [ha, hb, hno, hno']
    · simp [ha]

theorem readLines_eq {matrix rest : List (List Int)} (hne : matrix ≠ [])
    (hline : ∀ l ∈ matrix, l.length = size) (hx : x + matrix.length = size) :
    readLines size (matrix ++ rest) x topology =
      .ok fun a b => if x ≤ a ∧ a < size ∧ b < size then ((matrix[a - x]?.getD [])[b]?).getD 0
        else topology a b := by
  induction matrix generalizing x topology with
  | nil => exact absurd rfl hne
  | cons line matrix ih =>
    rw [length_cons] at hx
    have hlen : line.length = size := hline line mem_cons_self
    have hstore := storeLine topology (by omega : x < size) line 0 (by omega)
    simp only [zero_add, hlen, zero_le, true_and, sub_zero] at hstore
    rw [cons_append, readLines, hstore, ok_bind]
    by_cases hlast : matrix = []
    · subst hlast
      have hx' : x + 1 = size := by simpa using hx
      rw [if_pos ⟨hx', rfl⟩]
      refine congrArg Except.ok ?_
      funext a b
      by_cases ha : a = x
      · simp [ha, show x < size by omega]
      · have hno : ¬(x ≤ a ∧ a < size ∧ b < size) := by omega
        simp [ha, hno]
    · have hpos := length_pos_iff.mpr hlast
      rw [if_neg (by omega), ih hlast (fun l hl => hline l (mem_cons_of_mem line hl)) (by omega)]
      refine congrArg Except.ok ?_
      funext a b
      by_cases ha : a = x
      · have hno : ¬(x + 1 ≤ x) := by omega
        simp [ha, hno, show x < size by omega]
      · by_cases hlt : x < a
        · obtain ⟨k, rfl⟩ : ∃ k, a = x + 1 + k := ⟨a - (x + 1), by omega⟩
          have hk : x + 1 + k - x = k + 1 := by omega
          have hle : x ≤ x + 1 + k := by omega
          simp [ha, hk, hle]
        · have hno : ¬(x + 1 ≤ a) := by omega
          have hno' : ¬(x ≤ a) := by omega
          simp [ha, hno, hno']

theorem readTopology_eq {conf : ConfFile} (h : conf.IsMatrix) (hpos : 0 < conf.cols * conf.rows) :
    readTopology conf = .ok conf.matrix := by
  have hsplit := take_append_drop (conf.cols * conf.rows) conf.lines
  have hlen : (conf.lines.take (conf.cols * conf.rows)).length = conf.cols * conf.rows := by
    rw [length_take, min_eq_left h.size]
  have hne : conf.lines.take (conf.cols * conf.rows) ≠ [] := by
    rw [← length_pos_iff, hlen]
    exact hpos
  rw [readTopology, ← hsplit, readLines_eq hne h.line (by rw [hlen, zero_add])]
  refine congrArg Except.ok ?_
  funext a b
  by_cases ha : a < conf.cols * conf.rows
  · simp [ha, ConfFile.matrix, ConfFile.entry]
  · simp [ha, ConfFile.matrix]

end IrregularMeshXY

def MeshNeighbour (numRows numCols a b : Nat) : Prop :=
  a < numRows * numCols ∧ b < numRows * numCols ∧ ∃ d, gridStep numCols a d b

theorem linkEnds_stride {numRows numCols row col : Nat} {d : PortDirection}
    (hstride : numRows = numCols ∨ numRows = 1) (h : (row, col) ∈ linkCells numRows numCols d) :
    linkEnds numRows d row col = linkEnds numCols d row col := by
  rcases hstride with rfl | rfl
  · rfl
  · obtain ⟨hrow, _, hd⟩ := mem_linkCells.mp h
    obtain rfl : row = 0 := by omega
    rcases hd with ⟨rfl | rfl, _⟩ | ⟨_, hnext⟩
    · simp [linkEnds, cell]
    · simp [linkEnds, cell]
    · omega

namespace IrregularMeshXY

variable {conf : ConfFile} {row col : Nat} {d : PortDirection}

theorem numColumns_eq {numRows numCols : Nat} (hrows : 0 < numRows) (hcols : 0 < numCols) :
    numColumns (numRows * numCols) numRows = .ok numCols := by
  have hne : numRows * numCols ≠ 0 := by positivity
  have hle : numRows ≤ numRows * numCols := Nat.le_mul_of_pos_right _ hcols
  simp [numColumns, require, Nat.mul_div_cancel_left numCols hrows, Nat.mul_comm numCols, hne, hrows, hle]

theorem present_eq (hstride : conf.rows = conf.cols ∨ conf.rows = 1)
    (h : (row, col) ∈ linkCells conf.rows conf.cols d) :
    present conf.rows (conf.cols * conf.rows) conf.matrix d row col =
      .ok (conf.entry (linkEnds conf.cols d row col).1 (linkEnds conf.cols d row col).2 = 1) := by
  obtain ⟨_, ha, hb⟩ := gridStep_linkEnds h
  rw [mul_comm] at ha hb
  simp [present, linkEnds_stride hstride h, require, ha, hb, ConfFile.matrix]

theorem mem_entries {a b : Nat} {e : IntLink} (hcols : 0 < conf.cols)
    (hstride : conf.rows = conf.cols ∨ conf.rows = 1) :
    ((a, b), e) ∈ meshEntries conf.rows conf.cols
        (present conf.rows (conf.cols * conf.rows) conf.matrix) link ↔
      a < conf.rows * conf.cols ∧ b < conf.rows * conf.cols ∧ conf.entry a b = 1 ∧
        ∃ d, gridStep conf.cols a d b ∧ e = link d := by
  rw [mem_meshEntries]
  constructor
  · rintro ⟨d, row, col, hcell, hp, hends, rfl⟩
    have hstep := gridStep_linkEnds hcell
    rw [present_eq hstride hcell, hends] at hp
    rw [hends] at hstep
    exact ⟨hstep.2.1, hstep.2.2, by simpa using hp, d, hstep.1, rfl⟩
  · rintro ⟨ha, hb, hone, d, hstep, rfl⟩
    obtain ⟨row, col, hcell, hends⟩ := exists_linkCells hcols hstep ha hb
    refine ⟨d, row, col, hcell, ?_, hends, rfl⟩
    rw [present_eq hstride hcell, hends]
    simp [hone]

theorem link_dirns (d : PortDirection) :
    (link d).dstInport = (link d).srcOutport.opposite ∧
      ((link d).srcOutport = d ∨ d = .Local) := by
  cases d <;> simp [link, PortDirection.opposite]

theorem irregularMesh_links (nodes : List Controller) (hconf : conf.IsMatrix)
    (hrows : 0 < conf.rows) (hcols : 0 < conf.cols)
    (hstride : conf.rows = conf.cols ∨ conf.rows = 1) :
    ∃ m, makeTopology (conf.rows * conf.cols) conf.rows nodes conf = .ok m ∧
      (m.intLinks.map fun l => (l.srcNode, l.dstNode)).Nodup ∧
      (∀ a b, (∃ l ∈ m.intLinks, l.srcNode = a ∧ l.dstNode = b) ↔
        MeshNeighbour conf.rows conf.cols a b ∧ conf.entry a b = 1) ∧
      ∀ l ∈ m.intLinks, gridStep conf.cols l.srcNode l.link.srcOutport l.dstNode ∧
        l.link.dstInport = l.link.srcOutport.opposite := by
  have hread := readTopology_eq hconf (mul_pos hcols hrows)
  have hmade : Holds (intLinks conf.rows conf.cols (extLinks (conf.rows * conf.cols) nodes).length
      (present conf.rows (conf.cols * conf.rows) conf.matrix) link)
      (fun ints => ints.map IntLinkParams.entry = meshEntries conf.rows conf.cols
        (present conf.rows (conf.cols * conf.rows) conf.matrix) link) fun _ => False := by
    refine intLinks_entries _ fun d c hc => ?_
    rw [present_eq hstride hc]
    trivial
  obtain ⟨ints, hints, hentries⟩ := hmade.exists_ok
  have hmem : ∀ {a b e}, (∃ l ∈ ints, l.srcNode = a ∧ l.dstNode = b ∧ l.link = e) ↔
      a < conf.rows * conf.cols ∧ b < conf.rows * conf.cols ∧ conf.entry a b = 1 ∧
        ∃ d, gridStep conf.cols a d b ∧ e = link d := by
    intro a b e
    rw [← mem_entries hcols hstride, ← hentries]
    simp [IntLinkParams.entry, and_assoc]
  refine ⟨⟨conf.rows * conf.cols, extLinks (conf.rows * conf.cols) nodes, ints⟩, ?_, ?_, ?_, ?_⟩
  · simp [makeTopology, numColumns_eq hrows hcols, hread, require, hints]
  · have hnd := nodup_meshEntries conf.rows hcols
      (present conf.rows (conf.cols * conf.rows) conf.matrix) link
    rw [← hentries, map_map] at hnd
    exact hnd
  · intro a b
    constructor
    · rintro ⟨l, hl, rfl, rfl⟩
      obtain ⟨ha, hb, hone, d, hstep, _⟩ := hmem.mp ⟨l, hl, rfl, rfl, rfl⟩
      exact ⟨⟨ha, hb, d, hstep⟩, hone⟩
    · rintro ⟨⟨ha, hb, d, hstep⟩, hone⟩
      obtain ⟨l, hl, hsrc, hdst, _⟩ := hmem.mpr ⟨ha, hb, hone, d, hstep, rfl⟩
      exact ⟨l, hl, hsrc, hdst⟩
  · intro l hl
    obtain ⟨_, _, _, d, hstep, he⟩ := hmem.mp ⟨l, hl, rfl, rfl, rfl⟩
    rw [he]
    refine ⟨?_, (link_dirns d).1⟩
    rcases (link_dirns d).2 with hd | rfl
    · rw [hd]
      exact hstep
    · exact hstep.elim

theorem intLinks_grid {numCpus meshRows : Nat} {nodes : List Controller} {m : MadeLinks}
    (h : makeTopology numCpus meshRows nodes conf = .ok m) {l : IntLinkParams}
    (hl : l ∈ m.intLinks) :
    gridStep (numCpus / meshRows) l.srcNode l.link.srcOutport l.dstNode ∧
      l.link.dstInport = l.link.srcOutport.opposite ∧
      l.srcNode < m.numRouters ∧ l.dstNode < m.numRouters ∧ l.link.weight = 1 := by
  simp only [makeTopology, bind_eq_ok] at h
  obtain ⟨cols, hcols, _, _, _, _, _, _, ints, hints, hm⟩ := h
  cases hm
  obtain ⟨rfl, _, hmul⟩ := numColumns_spec.of_ok hcols
  have hentry : l.entry ∈ ints.map IntLinkParams.entry := mem_map_of_mem hl
  rw [entries_of_intLinks hints, IntLinkParams.entry, mem_meshEntries] at hentry
  obtain ⟨d, row, col, hcell, _, hends, he⟩ := hentry
  have hstep := gridStep_linkEnds hcell
  rw [hends, hmul] at hstep
  rw [he]
  refine ⟨?_, (link_dirns d).1, hstep.2.1, hstep.2.2, ?_⟩
  · rcases (link_dirns d).2 with hd | rfl
    · rw [hd]
      exact hstep.1
    · exact hstep.1.elim
  · cases d <;> decide

theorem topology_grid {numCpus meshRows : Nat} {nodes : List Controller} {m : MadeLinks}
    {t : Topology} (h : makeTopology numCpus meshRows nodes conf = .ok m)
    (ht : m.topology = some t) {a b : Nat} {e : IntLink} (he : t.intLink a b = some e) :
    gridStep (numCpus / meshRows) a e.srcOutport b ∧ e.dstInport = e.srcOutport.opposite := by
  obtain ⟨_, _, _, _, hint⟩ := MadeLinks.topology_spec ht
  rw [hint] at he
  obtain ⟨l, hl, rfl, rfl, rfl⟩ := MadeLinks.mem_of_intLink he
  have hgrid := intLinks_grid h hl
  exact ⟨hgrid.1, hgrid.2.1⟩

def rowConf : ConfFile := ⟨1, 3, [[0, 1, 0], [1, 0, 0], [0, 0, 0]]⟩

theorem irregularMesh_links_rowConf :
    ∃ m, makeTopology 3 1 [⟨0, false⟩, ⟨1, false⟩, ⟨2, false⟩] rowConf = .ok m ∧
      (m.intLinks.map fun l => (l.srcNode, l.dstNode)).Nodup ∧
      ∀ a b, (∃ l ∈ m.intLinks, l.srcNode = a ∧ l.dstNode = b) ↔
        MeshNeighbour 1 3 a b ∧ rowConf.entry a b = 1 := by
  have hconf : rowConf.IsMatrix := ⟨by decide, by decide⟩
  obtain ⟨m, hm, hnd, hlinks, _⟩ := irregularMesh_links [⟨0, false⟩, ⟨1, false⟩, ⟨2, false⟩] hconf
    (by decide) (by decide) (.inr rfl)
  exact ⟨m, hm, hnd, hlinks⟩

def skewConf : ConfFile :=
  ⟨2, 3, [[0, 0, 0, 0, 0, 0], [0, 0, 0, 0, 0, 0], [0, 0, 0, 0, 0, 0], [0, 0, 0, 0, 1, 0],
    [0, 0, 0, 0, 0, 0], [0, 0, 0, 0, 0, 0]]⟩

/-- The entry is taken for that of the routers 4 and 5, which are joined instead. -/
theorem irregularMesh_wrong_link_skewConf :
    skewConf.IsMatrix ∧ MeshNeighbour 2 3 3 4 ∧ skewConf.entry 3 4 = 1 ∧
      ∃ m, makeTopology 6 2 ((range 6).map fun n => ⟨n, false⟩) skewConf = .ok m ∧
        m.intLinks.map (fun l => (l.srcNode, l.dstNode)) = [(4, 5)] := by
  refine ⟨⟨by decide, by decide⟩, ⟨by decide, by decide, .East, by decide⟩, by decide, _, rfl, by decide⟩

end IrregularMeshXY

end Drain
