import Drain.Network

/-! The topology scripts `Mesh_XY.py`, `Mesh_westfirst.py` and `irregularMesh_XY.py`,
and the link map that the constructor of `Topology` fills from their links. -/

namespace Drain

open List

inductive ScriptError where
  | zeroDivision
  | rows
  | columns
  | notDma
  | headerRows
  | headerCols
  | indexError
  deriving DecidableEq, Repr

structure Controller where
  node : Nat
  isDma : Bool
  deriving DecidableEq, Repr

structure ExtLinkParams where
  linkId : Nat
  extNode : Nat
  intNode : Nat
  deriving DecidableEq, Repr

structure IntLinkParams where
  linkId : Nat
  srcNode : Nat
  dstNode : Nat
  link : IntLink
  deriving DecidableEq, Repr

structure MadeLinks where
  numRouters : Nat
  extLinks : List ExtLinkParams
  intLinks : List IntLinkParams
  deriving DecidableEq, Repr

section Nodes

variable (numRouters : Nat) (nodes : List Controller)

def networkNodes : List Controller := nodes.take (nodes.length - nodes.length % numRouters)

def remainderNodes : List Controller := nodes.drop (nodes.length - nodes.length % numRouters)

/-- The nodes are dealt out to the routers in turn; what remains goes to router 0. -/
def extLinks : List ExtLinkParams :=
  ((networkNodes numRouters nodes).zipIdx.map fun n => ⟨n.2, n.1.node, n.2 % numRouters⟩) ++
    ((remainderNodes numRouters nodes).zipIdx (networkNodes numRouters nodes).length).map fun n =>
      ⟨n.2, n.1.node, 0⟩

/-- The number of columns, after the assertions that all scripts make. -/
def numColumns (numRows : Nat) : Except ScriptError Nat := do
  require (numRouters ≠ 0) .zeroDivision
  require (0 < numRows ∧ numRows ≤ numRouters) .rows
  require (numRouters / numRows * numRows = numRouters) .columns
  pure (numRouters / numRows)

end Nodes

section Passes

variable (numRows numCols : Nat)

def cell (stride row col : Nat) : Nat := col + row * stride

/-- The cells joined by a link in direction `dirn`, seen from the cell at `row`, `col`. -/
def linkEnds (stride : Nat) (dirn : PortDirection) (row col : Nat) : Nat × Nat :=
  match dirn with
  | .East => (cell stride row col, cell stride row (col + 1))
  | .West => (cell stride row (col + 1), cell stride row col)
  | .North => (cell stride row col, cell stride (row + 1) col)
  | .South => (cell stride (row + 1) col, cell stride row col)
  | .Local => (0, 0)
  | .Unknown => (0, 0)

/-- The iterations of the two loops that pass the test for the border of the mesh. -/
def linkCells (dirn : PortDirection) : List (Nat × Nat) :=
  match dirn with
  | .East | .West =>
    ((range numRows).flatMap fun row => (range numCols).map fun col => (row, col)).filter
      fun p => p.2 + 1 < numCols
  | .North | .South =>
    ((range numCols).flatMap fun col => (range numRows).map fun row => (row, col)).filter
      fun p => p.1 + 1 < numRows
  | .Local | .Unknown => []

/-- One of the four pairs of loops, with `link_count` beside the links made so far. -/
def linkPass (present : PortDirection → Nat → Nat → Except ScriptError Bool)
    (link : PortDirection → IntLink) (made : List IntLinkParams × Nat) (dirn : PortDirection) :
    Except ScriptError (List IntLinkParams × Nat) :=
  (linkCells numRows numCols dirn).foldlM
    (fun (made : List IntLinkParams × Nat) p => do
      let found ← present dirn p.1 p.2
      if found then
        let ends := linkEnds numCols dirn p.1 p.2
        pure (made.1 ++ [⟨made.2, ends.1, ends.2, link dirn⟩], made.2 + 1)
      else pure made)
    made

def linkPasses : List PortDirection := [.East, .West, .North, .South]

def intLinks (linkCount : Nat) (present : PortDirection → Nat → Nat → Except ScriptError Bool)
    (link : PortDirection → IntLink) : Except ScriptError (List IntLinkParams) := do
  let made ← linkPasses.foldlM (linkPass numRows numCols present link) ([], linkCount)
  pure made.1

end Passes

section Scripts

variable (numCpus meshRows : Nat) (nodes : List Controller)

/-- The scripts without a matrix: every link of the mesh, with the given parameters. -/
def fullMesh (link : PortDirection → IntLink) : Except ScriptError MadeLinks := do
  let cols ← numColumns numCpus meshRows
  require (∀ n ∈ remainderNodes numCpus nodes, n.isDma) .notDma
  let exts := extLinks numCpus nodes
  let ints ← intLinks meshRows cols exts.length (fun _ _ _ => pure true) link
  pure ⟨numCpus, exts, ints⟩

namespace MeshXY

def link : PortDirection → IntLink
  | .East => ⟨1, .East, .West⟩
  | .West => ⟨1, .West, .East⟩
  | .North => ⟨2, .North, .South⟩
  | .South => ⟨2, .South, .North⟩
  | .Local => ⟨1, .Unknown, .Unknown⟩
  | .Unknown => ⟨1, .Unknown, .Unknown⟩

def makeTopology : Except ScriptError MadeLinks := fullMesh numCpus meshRows nodes link

end MeshXY

namespace MeshWestfirst

/-- This script gives its links no directions. -/
def link : PortDirection → IntLink
  | .East => ⟨2, .Unknown, .Unknown⟩
  | .West => ⟨1, .Unknown, .Unknown⟩
  | .North => ⟨2, .Unknown, .Unknown⟩
  | .South => ⟨2, .Unknown, .Unknown⟩
  | .Local => ⟨1, .Unknown, .Unknown⟩
  | .Unknown => ⟨1, .Unknown, .Unknown⟩

def makeTopology : Except ScriptError MadeLinks := fullMesh numCpus meshRows nodes link

end MeshWestfirst

/-- The file `options.conf_file`: its two header numbers and the words of the
lines after the line that is skipped. -/
structure ConfFile where
  rows : Nat
  cols : Nat
  lines : List (List Int)
  deriving DecidableEq, Repr

namespace IrregularMeshXY

def link : PortDirection → IntLink
  | .East => ⟨1, .East, .West⟩
  | .West => ⟨1, .West, .East⟩
  | .North => ⟨1, .North, .South⟩
  | .South => ⟨1, .South, .North⟩
  | .Local => ⟨1, .Unknown, .Unknown⟩
  | .Unknown => ⟨1, .Unknown, .Unknown⟩

/-- `topology[x][y] = int(word)` in a list of `size` lists of length `size`. -/
def storeWord (size x : Nat) (t : (Nat → Nat → Int) × Nat) (word : Int) :
    Except ScriptError ((Nat → Nat → Int) × Nat) := do
  require (x < size ∧ t.2 < size) .indexError
  pure (setEntry t.1 x t.2 word, t.2 + 1)

def readLines (size : Nat) : List (List Int) → Nat → (Nat → Nat → Int) →
    Except ScriptError (Nat → Nat → Int)
  | [], _, topology => pure topology
  | line :: lines, x, topology => do
    let t ← line.foldlM (storeWord size x) (topology, 0)
    if x + 1 = size ∧ t.2 = size then pure t.1 else readLines size lines (x + 1) t.1

def readTopology (conf : ConfFile) : Except ScriptError (Nat → Nat → Int) :=
  readLines (conf.cols * conf.rows) conf.lines 0 fun _ _ => 0

-- the matrix is indexed with the stride `num_rows`
def present (numRows size : Nat) (topology : Nat → Nat → Int) (dirn : PortDirection)
    (row col : Nat) : Except ScriptError Bool := do
  let ends := linkEnds numRows dirn row col
  require (ends.1 < size ∧ ends.2 < size) .indexError
  pure (topology ends.1 ends.2 = 1)

def makeTopology (conf : ConfFile) : Except ScriptError MadeLinks := do
  let cols ← numColumns numCpus meshRows
  let exts := extLinks numCpus nodes
  let topology ← readTopology conf
  require (meshRows = conf.rows) .headerRows
  require (cols = conf.cols) .headerCols
  let ints ← intLinks meshRows cols exts.length
    (present meshRows (conf.cols * conf.rows) topology) link
  pure ⟨numCpus, exts, ints⟩

end IrregularMeshXY

end Scripts

namespace MadeLinks

variable (m : MadeLinks)

/-- `m_link_map[(a, b)]` for two routers: a later link overwrites an earlier one. -/
def intLink (a b : Nat) : Option IntLink :=
  ((m.intLinks.filter fun l => l.srcNode = a ∧ l.dstNode = b).getLast?).map IntLinkParams.link

def extRouter (n : Nat) : Nat :=
  (((m.extLinks.filter fun l => l.extNode = n).getLast?).map ExtLinkParams.intNode).getD 0

def Ok : Prop :=
  0 < m.numRouters ∧ (∀ l ∈ m.extLinks, l.intNode < m.numRouters) ∧
    ∀ l ∈ m.intLinks, l.srcNode < m.numRouters ∧ l.dstNode < m.numRouters ∧ 0 < l.link.weight

instance : Decidable m.Ok := inferInstanceAs (Decidable (_ ∧ _ ∧ _))

variable {m}

theorem mem_of_intLink {a b : Nat} {e : IntLink} (h : m.intLink a b = some e) :
    ∃ l ∈ m.intLinks, l.srcNode = a ∧ l.dstNode = b ∧ l.link = e := by
  obtain ⟨l, hl, rfl⟩ := Option.map_eq_some_iff.mp h
  have hmem := mem_filter.mp (mem_of_getLast? hl)
  have hends := of_decide_eq_true hmem.2
  exact ⟨l, hmem.1, hends.1, hends.2, rfl⟩

theorem Ok.extRouter_lt (h : m.Ok) (n : Nat) : m.extRouter n < m.numRouters := by
  unfold extRouter
  cases hl : (m.extLinks.filter fun l => l.extNode = n).getLast? with
  | none => exact h.1
  | some l => exact h.2.1 l (mem_filter.mp (mem_of_getLast? hl)).1

/-- The constructor of `Topology`; external links have the default weight 1. -/
def topology (m : MadeLinks) : Option Topology :=
  if h : m.Ok then
    some
      { numRouters := m.numRouters
        nodes := m.extLinks.length
        extRouter := m.extRouter
        extWeight := fun _ => 1
        intLink := m.intLink
        extRouter_lt := fun n _ => h.extRouter_lt n
        extWeight_pos := fun _ _ => Nat.one_pos
        intLink_lt := fun he => by
          obtain ⟨l, hl, rfl, rfl, _⟩ := mem_of_intLink he
          exact ⟨(h.2.2 l hl).1, (h.2.2 l hl).2.1⟩
        intLink_pos := fun he => by
          obtain ⟨l, hl, _, _, rfl⟩ := mem_of_intLink he
          exact (h.2.2 l hl).2.2 }
  else none

end MadeLinks

end Drain
