import Drain.Lib.Acyclic
import Drain.MeshNet

/-! The turn models: on a full mesh the channel dependencies of XY and of the two
west-first algorithms follow a rank of the channels, so they have no cycle. -/

namespace Drain

open Nat Core

structure Channel where
  src : Nat
  dst : Nat
  deriving DecidableEq

abbrev OutportCompute := Net → Nat → RouteInfo → State → Except Failure (Nat × State)

/-- In some state, that is for some random bit and VC occupancy, the algorithm
sends a flit with this route over the channel. -/
def Sends (compute : OutportCompute) (net : Net) (route : RouteInfo) (c : Channel) : Prop :=
  c.src < net.numRouters ∧ ∃ s o s' p, DirnOk net s.outportsDirn2idx ∧
    compute net c.src route s = .ok (o, s') ∧ (net.outports c.src)[o]? = some p ∧
    p.link = .int c.src c.dst

def ChannelDepends (compute : OutportCompute) (net : Net) (c c' : Channel) : Prop :=
  c.dst = c'.src ∧ ∃ route : RouteInfo, route.destRouter < net.numRouters ∧
    Sends compute net route c ∧ Sends compute net route c'

/-- Flits that hold the channels of `S` and all wait for channels of `S`. -/
def Deadlock (compute : OutportCompute) (net : Net) (S : Finset Channel) : Prop :=
  S.Nonempty ∧ ∀ c ∈ S, ∃ c' ∈ S, ChannelDepends compute net c c'

/-- The moves of XY routing from `(x, y)` to `(u, v)`: first along the row, then
along the column. -/
def xyMove (x y u v : Nat) : PortDirection → Prop
  | .East => x < u
  | .West => u < x
  | .North => u = x ∧ y < v
  | .South => u = x ∧ v < y
  | .Local => False
  | .Unknown => False

/-- The moves of west-first routing: to the west before anything else. -/
def westFirstMove (x y u v : Nat) : PortDirection → Prop
  | .East => x < u
  | .West => u < x
  | .North => x ≤ u ∧ y < v
  | .South => x ≤ u ∧ v < y
  | .Local => False
  | .Unknown => False

def between (move : Nat → Nat → Nat → Nat → PortDirection → Prop) (numCols a dest : Nat) :
    PortDirection → Prop :=
  move (a % numCols) (a / numCols) (dest % numCols) (dest / numCols)

def productiveMove (x y u v : Nat) : PortDirection → Prop
  | .East => x < u
  | .West => u < x
  | .North => y < v
  | .South => v < y
  | .Local => False
  | .Unknown => False

theorem xyMove.productive {x y u v : Nat} {d : PortDirection} (h : xyMove x y u v d) :
    productiveMove x y u v d := by
  cases d <;> simp only [xyMove] at h <;> simp only [productiveMove] <;> omega

theorem westFirstMove.productive {x y u v : Nat} {d : PortDirection} (h : westFirstMove x y u v d) :
    productiveMove x y u v d := by
  cases d <;> simp only [westFirstMove] at h <;> simp only [productiveMove] <;> omega

section Directions

variable {net : Net} {a dest : Nat} {rand : Bool}

theorem productive_xDirn (hx : ¬noXHops net.numCols a dest) :
    between productiveMove net.numCols a dest (xDirn net.numCols a dest) := by
  unfold noXHops at hx
  unfold xDirn
  split <;> simp only [between, productiveMove] <;> omega

theorem productive_yDirn (hy : ¬noYHops net.numCols a dest) :
    between productiveMove net.numCols a dest (yDirn net.numCols a dest) := by
  unfold noYHops at hy
  unfold yDirn
  split <;> simp only [between, productiveMove] <;> omega

theorem xDirn_of_not_west (h : xDirn net.numCols a dest ≠ .West) :
    xDirn net.numCols a dest = .East := by
  unfold xDirn at h ⊢
  split at h
  · next hle => rw [if_pos hle]
  · exact absurd rfl h

theorem directionXY_move :
    Holds (directionXY net a dest) (between xyMove net.numCols a dest) fun _ => True := by
  simp only [directionXY, holds_bind, holds_require, holds_ite, holds_pure, implies_true,
    and_true]
  intro hne
  unfold noXHops noYHops at *
  unfold xDirn yDirn
  constructor
  · intro hx
    split <;> simp only [between, xyMove] <;> omega
  · intro hx
    split <;> simp only [between, xyMove] <;> omega

theorem xyMove_unique {x y u v : Nat} {d d' : PortDirection} (h : xyMove x y u v d)
    (h' : xyMove x y u v d') : d = d' := by
  cases d <;> cases d' <;> simp only [xyMove] at h h' <;> first | rfl | omega

theorem directionOr_move {choice : Except Failure PortDirection}
    (h : ¬noXHops net.numCols a dest → ¬noYHops net.numCols a dest →
      Holds choice (between westFirstMove net.numCols a dest) fun _ => True) :
    Holds (directionOr net a dest choice) (between westFirstMove net.numCols a dest) fun _ => True := by
  simp only [directionOr, holds_bind, holds_require, holds_ite, holds_pure, implies_true,
    and_true]
  intro hne
  refine ⟨fun hx => ?_, fun hx => ⟨fun hy => ?_, fun hy => h hx hy⟩⟩
  · unfold noXHops noYHops at *
    unfold yDirn
    split <;> simp only [between, westFirstMove] <;> omega
  · unfold noXHops at hx
    unfold xDirn
    split <;> simp only [between, westFirstMove] <;> omega

theorem westFirstMove_of_not_west {d : PortDirection} (hx : ¬noXHops net.numCols a dest)
    (hy : ¬noYHops net.numCols a dest) (hw : xDirn net.numCols a dest ≠ .West)
    (hd : d = .East ∨ d = yDirn net.numCols a dest) : between westFirstMove net.numCols a dest d := by
  have hle : a % net.numCols ≤ dest % net.numCols := by
    by_contra hlt
    unfold xDirn at hw
    rw [if_neg hlt] at hw
    exact hw rfl
  unfold noXHops at hx
  unfold noYHops at hy
  rcases hd with rfl | rfl
  · simp only [between, westFirstMove]
    omega
  · unfold yDirn
    split <;> simp only [between, westFirstMove] <;> omega

theorem westFirstMove_west (hw : xDirn net.numCols a dest = .West) :
    between westFirstMove net.numCols a dest .West := by
  unfold xDirn at hw
  split at hw
  · cases hw
  · simp only [between, westFirstMove]
    omega

theorem freerDirection_choice {s : Core} {dx dy : PortDirection} :
    Holds (s.freerDirection net a dx dy rand) (fun d => d = dx ∨ d = dy) fun _ => True := by
  unfold freerDirection
  rw [holds_bind]
  cases s.numFreeVCOf net a dx with
  | error e => trivial
  | ok n =>
    rw [holds_ok, holds_bind]
    cases s.numFreeVCOf net a dy with
    | error e => trivial
    | ok m =>
      rw [holds_ok, holds_pure]
      split
      · exact .inl rfl
      · split
        · exact .inr rfl
        · split
          · exact .inl rfl
          · exact .inr rfl

theorem directionWestFirst_move :
    Holds (directionWestFirst net a dest rand) (between westFirstMove net.numCols a dest)
      fun _ => True := by
  refine directionOr_move fun hx hy => ?_
  split
  · next hw => exact westFirstMove_west hw
  · next hw =>
    refine westFirstMove_of_not_west hx hy hw ?_
    split
    · exact .inl rfl
    · exact .inr rfl

theorem directionAdaptWestFirst_move {s : Core} :
    Holds (s.directionAdaptWestFirst net a dest rand) (between westFirstMove net.numCols a dest)
      fun _ => True := by
  refine directionOr_move fun hx hy => ?_
  split
  · next hw => exact westFirstMove_west hw
  · next hw => exact freerDirection_choice.imp fun d hd => westFirstMove_of_not_west hx hy hw hd

end Directions

section Moves

variable {net : Net} {a dest : Nat} {d : PortDirection}

theorem Net.div_lt_numRows (net : Net) (ha : a < net.numRouters) : a / net.numCols < net.numRows := by
  refine Nat.div_lt_of_lt_mul ?_
  rw [Nat.mul_comm, net.rows_mul_cols]
  exact ha

theorem gridStep_of_productive {numRows numCols : Nat} (hc : 0 < numCols)
    (ha : a < numRows * numCols) (hd : dest < numRows * numCols)
    (h : between productiveMove numCols a dest d) :
    ∃ b < numRows * numCols, gridStep numCols a d b := by
  have hx := mod_lt dest hc
  have hxa := mod_lt a hc
  have hy : dest / numCols < numRows := Nat.div_lt_of_lt_mul (by rwa [Nat.mul_comm])
  have hya : a / numCols < numRows := Nat.div_lt_of_lt_mul (by rwa [Nat.mul_comm])
  have hdm := div_add_mod a numCols
  cases d with
  | East =>
    simp only [between, productiveMove] at h
    have hrow : numCols * (a / numCols + 1) ≤ numCols * numRows := mul_le_mul_left _ hya
    rw [mul_comm numCols numRows, mul_add] at hrow
    exact ⟨a + 1, by omega, rfl, by omega⟩
  | West =>
    simp only [between, productiveMove] at h
    have hle := mod_le a numCols
    refine ⟨a - 1, by omega, by omega, ?_⟩
    have he : a - 1 = (a % numCols - 1) + numCols * (a / numCols) := by omega
    rw [he, add_mul_mod_self_left, mod_eq_of_lt] <;> omega
  | North =>
    simp only [between, productiveMove] at h
    have hrow : numCols * (a / numCols + 2) ≤ numCols * numRows :=
      mul_le_mul_left _ (by omega)
    rw [mul_comm numCols numRows, mul_add] at hrow
    exact ⟨a + numCols, by omega, rfl⟩
  | South =>
    simp only [between, productiveMove] at h
    have hle : numCols ≤ a := by
      by_contra hlt
      rw [div_eq_of_lt (by omega : a < numCols)] at h
      exact not_lt_zero _ h
    refine ⟨a - numCols, by omega, ?_⟩
    simp only [gridStep]
    omega
  | Local => exact h.elim
  | Unknown => exact h.elim

theorem hasLink_of_productive (hf : net.FullMesh) (ha : a < net.numRouters)
    (hd : dest < net.numRouters) (h : between productiveMove net.numCols a dest d) :
    ∃ b, net.HasLink a b d := by
  have hmul : net.numRows * net.numCols = net.numRouters := net.rows_mul_cols
  obtain ⟨b, hb, hstep⟩ := gridStep_of_productive net.numCols_pos (hmul.symm ▸ ha) (hmul.symm ▸ hd) h
  exact ⟨b, hf a b d ha (hmul ▸ hb) hstep⟩

end Moves

section Channels

variable {net : Net} {route : RouteInfo} {c : Channel}

def KeepsTo (compute : OutportCompute) (move : Nat → Nat → Nat → Nat → PortDirection → Prop) :
    Prop :=
  ∀ (net : Net) (r : Nat) (route : RouteInfo) (s : State), Holds (compute net r route s)
    (fun t => ∃ (d : PortDirection) (s' : State), between move net.numCols r route.destRouter d ∧ t = s'.outportIdx r d ∧
      s'.outportsDirn2idx = s.outportsDirn2idx) fun _ => True

theorem outportComputeXY_keepsTo : KeepsTo (fun net r route s => s.outportComputeXY net r route) xyMove := by
  intro net r route s
  unfold State.outportComputeXY
  rw [holds_bind]
  exact directionXY_move.imp fun d hd => ⟨d, s, hd, rfl, rfl⟩

theorem outportComputeWestFirst_keepsTo :
    KeepsTo (fun net r route s => s.outportComputeWestFirst net r route) westFirstMove := by
  intro net r route s
  unfold State.outportComputeWestFirst
  rw [holds_bind]
  exact directionWestFirst_move.imp fun d hd => ⟨d, s.skipRandom, hd, rfl, rfl⟩

theorem outportComputeAdaptWestFirst_keepsTo :
    KeepsTo (fun net r route s => s.outportComputeAdaptWestFirst net r route) westFirstMove := by
  intro net r route s
  unfold State.outportComputeAdaptWestFirst
  rw [holds_bind]
  exact directionAdaptWestFirst_move.imp fun d hd => ⟨d, s.skipRandom, hd, rfl, rfl⟩

theorem Sends.move {compute : OutportCompute} {move : Nat → Nat → Nat → Nat → PortDirection → Prop}
    (hk : KeepsTo compute move)
    (hm : ∀ {x y u v d}, move x y u v d → productiveMove x y u v d) (hf : net.FullMesh)
    (hd : route.destRouter < net.numRouters) (h : Sends compute net route c) :
    ∃ d, between move net.numCols c.src route.destRouter d ∧ gridStep net.numCols c.src d c.dst := by
  obtain ⟨hsrc, s, o, s', p, hdirn, hcomp, hp, hpl⟩ := h
  obtain ⟨d, s₁, hmove, heq, hsame⟩ := (hk net c.src route s).of_ok hcomp
  obtain ⟨b, hb⟩ := hasLink_of_productive hf hsrc hd (hm hmove)
  obtain ⟨o', p', hidx, hp', hpl'⟩ := outportIdx_of_hasLink (hsame ▸ hdirn) hb
  rw [hidx] at heq
  obtain ⟨rfl, _⟩ := Prod.mk.inj heq
  rw [hp'] at hp
  obtain rfl := Option.some.inj hp
  rw [hpl'] at hpl
  obtain ⟨_, hbd⟩ := Link.int.inj hpl
  exact ⟨d, hmove, hbd ▸ hb.gridStep⟩

def channelDirn (numCols : Nat) (c : Channel) : PortDirection :=
  if c.dst = c.src + numCols then .North
  else if c.src = c.dst + numCols then .South
  else if c.dst = c.src + 1 then .East
  else .West

theorem channelDirn_of_gridStep {numCols : Nat} {d : PortDirection} (hc : 0 < numCols)
    (h : gridStep numCols c.src d c.dst) : channelDirn numCols c = d := by
  unfold channelDirn
  cases d <;> simp only [gridStep] at h
  · rw [if_pos h]
  · rw [if_neg (by omega), if_neg (by omega), if_pos h.1]
  · rw [if_neg (by omega), if_pos h]
  · rw [if_neg (by omega), if_neg (by omega), if_neg (by omega)]

def xyRank (net : Net) (c : Channel) : ℕ ×ₗ ℕ :=
  match channelDirn net.numCols c with
  | .East => toLex (0, c.src % net.numCols)
  | .West => toLex (0, net.numCols - c.src % net.numCols)
  | .North => toLex (1, c.src / net.numCols)
  | .South => toLex (1, net.numRows - c.src / net.numCols)
  | _ => toLex (0, 0)

/-- Westward channels first, then column by column from west to east. -/
def westFirstRank (net : Net) (c : Channel) : ℕ ×ₗ ℕ :=
  match channelDirn net.numCols c with
  | .West => toLex (0, net.numCols - c.src % net.numCols)
  | .North => toLex (2 * (c.src % net.numCols) + 1, c.src / net.numCols)
  | .South => toLex (2 * (c.src % net.numCols) + 1, net.numRows - c.src / net.numCols)
  | .East => toLex (2 * (c.src % net.numCols) + 2, 0)
  | _ => toLex (0, 0)

/-- Two dependent channels in coordinates: both moves are allowed on the way to one destination,
and the first one leads to where the second one starts. -/
theorem ChannelDepends.moves {compute : OutportCompute}
    {move : Nat → Nat → Nat → Nat → PortDirection → Prop} (hk : KeepsTo compute move)
    (hm : ∀ {x y u v d}, move x y u v d → productiveMove x y u v d) (hf : net.FullMesh)
    {c c' : Channel} (h : ChannelDepends compute net c c') :
    ∃ d d' u v, channelDirn net.numCols c = d ∧ channelDirn net.numCols c' = d' ∧
      move (c.src % net.numCols) (c.src / net.numCols) u v d ∧
      move (c'.src % net.numCols) (c'.src / net.numCols) u v d' ∧
      coordStep (c.src % net.numCols) (c.src / net.numCols) d (c'.src % net.numCols)
        (c'.src / net.numCols) ∧
      c.src % net.numCols < net.numCols ∧ c.src / net.numCols < net.numRows := by
  obtain ⟨hcc, route, hdest, hs, hs'⟩ := h
  have hsrc := hs.1
  obtain ⟨d, hd, hg⟩ := hs.move hk hm hf hdest
  obtain ⟨d', hd', hg'⟩ := hs'.move hk hm hf hdest
  have hco := gridStep_coordStep net.numCols_pos hg
  rw [hcc] at hco
  exact ⟨d, d', _, _, channelDirn_of_gridStep net.numCols_pos hg,
    channelDirn_of_gridStep net.numCols_pos hg', hd, hd', hco, mod_lt _ net.numCols_pos,
    net.div_lt_numRows hsrc⟩

theorem xyRank_lt {compute : OutportCompute} (hk : KeepsTo compute xyMove) (hf : net.FullMesh)
    {c c' : Channel} (h : ChannelDepends compute net c c') : xyRank net c < xyRank net c' := by
  obtain ⟨d, d', u, v, hd, hd', hm, hm', hco, hx, hy⟩ := h.moves hk xyMove.productive hf
  unfold xyRank
  rw [hd, hd']
  cases d <;> cases d' <;> simp only [xyMove, coordStep] at hm hm' hco <;>
    simp only [Prod.Lex.toLex_lt_toLex, true_and] <;> omega

theorem westFirstRank_lt {compute : OutportCompute} (hk : KeepsTo compute westFirstMove)
    (hf : net.FullMesh) {c c' : Channel} (h : ChannelDepends compute net c c') :
    westFirstRank net c < westFirstRank net c' := by
  obtain ⟨d, d', u, v, hd, hd', hm, hm', hco, hx, hy⟩ := h.moves hk westFirstMove.productive hf
  unfold westFirstRank
  rw [hd, hd']
  cases d <;> cases d' <;> simp only [westFirstMove, coordStep] at hm hm' hco <;>
    simp only [Prod.Lex.toLex_lt_toLex, true_and] <;> omega

theorem not_deadlock_of_rank {compute : OutportCompute} {rank : Channel → ℕ ×ₗ ℕ}
    (h : ∀ c c', ChannelDepends compute net c c' → rank c < rank c') (S : Finset Channel) :
    ¬Deadlock compute net S := by
  rintro ⟨hne, hall⟩
  obtain ⟨c, hc, hterm⟩ := exists_terminal h S hne
  obtain ⟨c', hc', hdep⟩ := hall c hc
  exact hterm c' hc' hdep

end Channels

inductive TurnModel : OutportCompute → Prop
  | xy : TurnModel fun net r route s => s.outportComputeXY net r route
  | westFirst : TurnModel fun net r route s => s.outportComputeWestFirst net r route
  | adaptWestFirst : TurnModel fun net r route s => s.outportComputeAdaptWestFirst net r route

/-- The channel dependencies of the turn-model algorithms on a full mesh are
acyclic, and no set of channels is deadlocked. -/
theorem turn_model_acyclic {net : Net} (hf : net.FullMesh) {compute : OutportCompute}
    (h : TurnModel compute) :
    (∀ c, ¬Relation.TransGen (ChannelDepends compute net) c c) ∧
      ∀ S, ¬Deadlock compute net S := by
  have hrank : ∃ rank : Channel → ℕ ×ₗ ℕ,
      ∀ c c', ChannelDepends compute net c c' → rank c < rank c' := by
    cases h with
    | xy => exact ⟨_, fun c c' => xyRank_lt outportComputeXY_keepsTo hf⟩
    | westFirst => exact ⟨_, fun c c' => westFirstRank_lt outportComputeWestFirst_keepsTo hf⟩
    | adaptWestFirst =>
      exact ⟨_, fun c c' => westFirstRank_lt outportComputeAdaptWestFirst_keepsTo hf⟩
  obtain ⟨rank, hlt⟩ := hrank
  exact ⟨not_transGen_self hlt, not_deadlock_of_rank hlt⟩

theorem turn_model_acyclic_squareNet :
    squareNet.FullMesh ∧
      ∀ S, ¬Deadlock (fun net r route s => s.outportComputeAdaptWestFirst net r route) squareNet S :=
  ⟨squareNet_fullMesh, (turn_model_acyclic squareNet_fullMesh .adaptWestFirst).2⟩

end Drain
