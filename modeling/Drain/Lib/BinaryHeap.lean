import Mathlib

/-! The heap algorithms of the C++ standard library on an array, with its first element the least
by the comparison `gt` that is passed to them: a value is sifted up from a hole, and the hole of a
removed element first descends to a leaf along the smaller children. -/

namespace Drain.Heap

open Function Multiset

variable {α κ : Type*}

def parent (i : Nat) : Nat := (i - 1) / 2

section Algorithms

variable (gt : α → α → Bool)

/-- `__push_heap`: the hole moves up until its parent is not greater than the value. -/
def siftUp (value : α) : Nat → Nat → (Nat → α) → Nat → α
  | 0, hole, v => update v hole value
  | fuel + 1, hole, v =>
    if 0 < hole ∧ gt (v (parent hole)) value = true then
      siftUp value fuel (parent hole) (update v hole (v (parent hole)))
    else update v hole value

def pushHeap (n : Nat) (v : Nat → α) : Nat → α := siftUp gt (v (n - 1)) n (n - 1) v

def smallerChild (v : Nat → α) (hole : Nat) : Nat :=
  let secondChild := 2 * (hole + 1)
  if gt (v secondChild) (v (secondChild - 1)) then secondChild - 1 else secondChild

/-- The loop of `__adjust_heap`, and the step to an only child after it. -/
def descend (n : Nat) : Nat → Nat → (Nat → α) → Nat × (Nat → α)
  | 0, hole, v => (hole, v)
  | fuel + 1, hole, v =>
    if hole < (n - 1) / 2 then
      let child := smallerChild gt v hole
      descend n fuel child (update v hole (v child))
    else if n % 2 = 0 ∧ hole = (n - 2) / 2 then
      (2 * hole + 1, update v hole (v (2 * hole + 1)))
    else (hole, v)

def adjustHeap (n : Nat) (value : α) (v : Nat → α) : Nat → α :=
  let (hole, v) := descend gt n n 0 v
  siftUp gt value hole hole v

/-- The first element moves to the end, the others form a heap. -/
def popHeap (n : Nat) (v : Nat → α) : Nat → α :=
  if 1 < n then adjustHeap gt (n - 1) (v (n - 1)) (update v (n - 1) (v 0)) else v

end Algorithms

section Contents

variable {n i j : Nat} {v : Nat → α} {x : α}

def contents (n : Nat) (v : Nat → α) : Multiset α := (range n).map v

theorem mem_contents : x ∈ contents n v ↔ ∃ i < n, v i = x := by
  simp [contents]

theorem contents_succ : contents (n + 1) v = v n ::ₘ contents n v := by
  simp [contents, range_succ]

theorem contents_congr {w : Nat → α} (h : ∀ i < n, v i = w i) : contents n v = contents n w :=
  map_congr rfl fun i hi => h i (mem_range.mp hi)

theorem contents_append : contents (n + 1) (update v n x) = x ::ₘ contents n v := by
  rw [contents_succ, update_self]
  exact congrArg _ (contents_congr fun i hi => update_of_ne hi.ne x v)

theorem contents_set_last (hn : 0 < n) :
    contents n (update v (n - 1) x) = x ::ₘ contents (n - 1) v := by
  obtain ⟨m, rfl⟩ := Nat.exists_eq_succ_of_ne_zero hn.ne'
  exact contents_append

theorem contents_update (hi : i < n) :
    v i ::ₘ contents n (update v i x) = x ::ₘ contents n v := by
  have hrest : ((range n).erase i).map (update v i x) =
      ((range n).erase i).map v := by
    refine map_congr rfl fun j hj => update_of_ne ?_ x v
    exact ((nodup_range n).mem_erase_iff.mp hj).1
  have hsplit := cons_erase (mem_range.mpr hi)
  unfold contents
  rw [← hsplit, map_cons, map_cons, hrest, update_self,
    cons_swap]

theorem contents_move (hi : i < n) (hj : j < n) (hij : j ≠ i) :
    contents n (update (update v i (v j)) j x) =
      contents n (update v i x) := by
  have hmoved := contents_update (v := update v i (v j)) (x := x) hj
  rw [update_of_ne hij] at hmoved
  rw [← cons_inj_right (v j), hmoved, ← cons_inj_right (v i),
    cons_swap, contents_update hi, cons_swap (v i), contents_update hi,
    cons_swap]

theorem parent_lt (h : 0 < i) : parent i < i := by
  unfold parent
  omega

variable {gt : α → α → Bool} {fuel hole : Nat} {value : α}

theorem siftUp_contents (hhole : hole < n) :
    contents n (siftUp gt value fuel hole v) = contents n (update v hole value) := by
  induction fuel generalizing hole v with
  | zero => rfl
  | succ fuel ih =>
    unfold siftUp
    split
    · next hup =>
      have hlt := parent_lt hup.1
      rw [ih (hlt.trans hhole), contents_move hhole (hlt.trans hhole) hlt.ne]
    · rfl

end Contents

section Order

variable [LinearOrder κ] {key : α → κ} {gt : α → α → Bool} {n hole fuel : Nat} {v : Nat → α}
  {value : α}

def IsHeap (key : α → κ) (n : Nat) (v : Nat → α) : Prop :=
  ∀ i, 0 < i → i < n → key (v (parent i)) ≤ key (v i)

theorem IsHeap.root_le (h : IsHeap key n v) {i : Nat} (hi : i < n) : key (v 0) ≤ key (v i) := by
  induction i using Nat.strongRecOn with
  | ind i ih =>
    by_cases hzero : i = 0
    · rw [hzero]
    · have hlt := parent_lt (Nat.pos_of_ne_zero hzero)
      exact (ih _ hlt (hlt.trans hi)).trans (h i (Nat.pos_of_ne_zero hzero) hi)

/-- A heap with a hole: pairs that do not touch the hole are in order, and the hole's children are
not before its parent. -/
structure Holed (key : α → κ) (n hole : Nat) (v : Nat → α) : Prop where
  off : ∀ i, 0 < i → i < n → i ≠ hole → parent i ≠ hole → key (v (parent i)) ≤ key (v i)
  grand : 0 < hole → ∀ c, 0 < c → c < n → parent c = hole → key (v (parent hole)) ≤ key (v c)

theorem Holed.fill (h : Holed key n hole v) (habove : 0 < hole → key (v (parent hole)) ≤ key value)
    (hbelow : ∀ c, 0 < c → c < n → parent c = hole → key value ≤ key (v c)) :
    IsHeap key n (update v hole value) := by
  intro i hi hn
  have hlt := parent_lt hi
  by_cases hih : i = hole
  · subst hih
    rw [update_self, update_of_ne (by omega)]
    exact habove hi
  · rw [update_of_ne hih]
    by_cases hp : parent i = hole
    · rw [hp, update_self]
      exact hbelow i hi hn hp
    · rw [update_of_ne hp]
      exact h.off i hi hn hih hp

theorem Holed.up (h : Holed key n hole v) (hpos : 0 < hole) (hhole : hole < n) :
    Holed key n (parent hole) (update v hole (v (parent hole))) := by
  have hlt := parent_lt hpos
  refine ⟨fun i hi hn hne hpne => ?_, fun hppos c hc hn hparent => ?_⟩
  · have hih : i ≠ hole := fun heq => hpne (heq ▸ rfl)
    rw [update_of_ne hih]
    by_cases hp : parent i = hole
    · rw [hp, update_self]
      exact h.grand hpos i hi hn hp
    · rw [update_of_ne hp]
      exact h.off i hi hn hih hp
  · have hpp := parent_lt hppos
    have htop : key (v (parent (parent hole))) ≤ key (v (parent hole)) :=
      h.off _ hppos (by omega) (by omega) (by omega)
    rw [update_of_ne (by omega)]
    by_cases hch : c = hole
    · rw [hch, update_self]
      exact htop
    · rw [update_of_ne hch]
      have hside := h.off c hc hn hch (by omega)
      rw [hparent] at hside
      exact htop.trans hside

theorem Holed.down {child : Nat} (h : Holed key n hole v) (hchild : parent child = hole)
    (hpos : 0 < child) (hlt : child < n)
    (hmin : ∀ c, 0 < c → c < n → parent c = hole → key (v child) ≤ key (v c)) :
    Holed key n child (update v hole (v child)) := by
  have hgt := parent_lt hpos
  refine ⟨fun i hi hn hne hpne => ?_, fun _ c hc hn hparent => ?_⟩
  · have hip := parent_lt hi
    by_cases hih : i = hole
    · subst hih
      rw [update_self, update_of_ne (by omega)]
      exact h.grand hi child hpos hlt hchild
    · rw [update_of_ne hih]
      by_cases hp : parent i = hole
      · rw [hp, update_self]
        exact hmin i hi hn hp
      · rw [update_of_ne hp]
        exact h.off i hi hn hih hp
  · have hcp := parent_lt hc
    rw [hchild, update_self, update_of_ne (by omega)]
    have hside := h.off c hc hn (by omega) (by omega)
    rwa [hparent] at hside

variable (hgt : ∀ a b, gt a b = true ↔ key b < key a)

include hgt

theorem siftUp_isHeap (hfuel : hole ≤ fuel) (hhole : hole < n) (h : Holed key n hole v)
    (hbelow : ∀ c, 0 < c → c < n → parent c = hole → key value ≤ key (v c)) :
    IsHeap key n (siftUp gt value fuel hole v) := by
  induction fuel generalizing hole v with
  | zero => exact h.fill (by omega) hbelow
  | succ fuel ih =>
    unfold siftUp
    split
    · next hup =>
      obtain ⟨hpos, hless⟩ := hup
      rw [hgt] at hless
      have hlt := parent_lt hpos
      refine ih (by omega) (by omega) (h.up hpos hhole) fun c hc hn hparent => ?_
      by_cases hch : c = hole
      · rw [hch, update_self]
        exact hless.le
      · rw [update_of_ne hch]
        have hside := h.off c hc hn hch (by omega)
        rw [hparent] at hside
        exact hless.le.trans hside
    · next hstop =>
      refine h.fill (fun hpos => ?_) hbelow
      rw [hgt] at hstop
      exact not_lt.mp fun hless => hstop ⟨hpos, hless⟩

theorem pushHeap_isHeap (h : IsHeap key (n - 1) v) (hn : 0 < n) :
    IsHeap key n (pushHeap gt n v) := by
  have hlast : ∀ c, 0 < c → c < n → parent c ≠ n - 1 := fun c hc hcn => by
    have hlt := parent_lt hc
    omega
  refine siftUp_isHeap hgt (by omega) (by omega) ⟨fun i hi hin hne _ => ?_, fun _ c hc hcn hparent => ?_⟩
    fun c hc hcn hparent => absurd hparent (hlast c hc hcn)
  · exact h i hi (by omega)
  · exact absurd hparent (hlast c hc hcn)

theorem smallerChild_spec (hhole : hole < (n - 1) / 2) :
    parent (smallerChild gt v hole) = hole ∧ hole < smallerChild gt v hole ∧
      smallerChild gt v hole < n ∧
      ∀ c, 0 < c → c < n → parent c = hole → key (v (smallerChild gt v hole)) ≤ key (v c) := by
  have hchildren : ∀ c, 0 < c → parent c = hole → c = 2 * (hole + 1) - 1 ∨ c = 2 * (hole + 1) := by
    intro c hc hparent
    unfold parent at hparent
    omega
  unfold smallerChild
  dsimp only
  split
  · next hless =>
    rw [hgt] at hless
    refine ⟨by unfold parent; omega, by omega, by omega, fun c hc _ hparent => ?_⟩
    rcases hchildren c hc hparent with rfl | rfl
    · exact le_rfl
    · exact hless.le
  · next hless =>
    rw [hgt, not_lt] at hless
    refine ⟨by unfold parent; omega, by omega, by omega, fun c hc _ hparent => ?_⟩
    rcases hchildren c hc hparent with rfl | rfl
    · exact hless
    · exact le_rfl

theorem descend_spec (hfuel : n ≤ fuel + hole) (hhole : hole < n) (h : Holed key n hole v) :
    ∃ leaf w, descend gt n fuel hole v = (leaf, w) ∧ leaf < n ∧ Holed key n leaf w ∧
      (∀ c, 0 < c → c < n → parent c ≠ leaf) ∧
      ∀ value, contents n (update w leaf value) =
        contents n (update v hole value) := by
  induction fuel generalizing hole v with
  | zero => omega
  | succ fuel ih =>
    unfold descend
    split
    · next hboth =>
      obtain ⟨hparent, hgt', hlt, hmin⟩ := smallerChild_spec (v := v) hgt hboth
      obtain ⟨leaf, w, heq, hleaf, hholed, hnone, hcontents⟩ :=
        ih (by omega) hlt (h.down hparent (by omega) hlt hmin)
      refine ⟨leaf, w, heq, hleaf, hholed, hnone, fun value => ?_⟩
      rw [hcontents, contents_move hhole hlt hgt'.ne']
    · split
      · next honly =>
        have hparent : parent (2 * hole + 1) = hole := by
          unfold parent
          omega
        refine ⟨_, _, rfl, by omega, h.down hparent (by omega) (by omega) fun c hc hn hc' => ?_,
          fun c hc hn => ?_, fun value => contents_move hhole (by omega) (by omega)⟩
        · have honechild : c = 2 * hole + 1 := by
            unfold parent at hc'
            omega
          rw [honechild]
        · unfold parent
          omega
      · next hnone =>
        refine ⟨hole, v, rfl, hhole, h, fun c hc hn => ?_, fun value => rfl⟩
        unfold parent
        omega

theorem adjustHeap_spec (h : Holed key n 0 v) (hn : 0 < n) :
    IsHeap key n (adjustHeap gt n value v) ∧
      contents n (adjustHeap gt n value v) = contents n (update v 0 value) := by
  obtain ⟨leaf, w, heq, hleaf, hholed, hnone, hcontents⟩ := descend_spec hgt (Nat.le_add_right n 0) hn h
  unfold adjustHeap
  rw [heq]
  exact ⟨siftUp_isHeap hgt le_rfl hleaf hholed fun c hc hcn hparent => absurd hparent (hnone c hc hcn),
    (siftUp_contents hleaf).trans (hcontents value)⟩

theorem popHeap_spec (h : IsHeap key n v) (hn : 0 < n) :
    IsHeap key (n - 1) (popHeap gt n v) ∧
      v 0 ::ₘ contents (n - 1) (popHeap gt n v) = contents n v := by
  obtain ⟨m, rfl⟩ := Nat.exists_eq_succ_of_ne_zero hn.ne'
  unfold popHeap
  rw [Nat.succ_sub_one]
  split
  · next hmany =>
    have hm : 0 < m := by omega
    have hsame : ∀ i < m, update v m (v 0) i = v i := fun i hi =>
      update_of_ne hi.ne (v 0) v
    have hholed : Holed key m 0 (update v m (v 0)) := by
      refine ⟨fun i hi him _ _ => ?_, fun hzero => absurd hzero (by decide)⟩
      rw [hsame i him, hsame _ ((parent_lt hi).trans him)]
      exact h i hi (by omega)
    obtain ⟨hheap, hcontents⟩ : IsHeap key m (adjustHeap gt m (v m) _) ∧ _ :=
      adjustHeap_spec hgt hholed hm
    refine ⟨hheap, ?_⟩
    have hcongr : contents m (update (update v m (v 0)) 0 (v m)) =
        contents m (update v 0 (v m)) := by
      refine contents_congr fun i hi => ?_
      by_cases hzero : i = 0
      · rw [hzero, update_self, update_self]
      · rw [update_of_ne hzero, update_of_ne hzero, hsame i hi]
    rw [hcontents, hcongr, contents_update hm, contents_succ]
  · obtain rfl : m = 0 := by omega
    exact ⟨fun i _ hi => absurd hi (by omega), rfl⟩

omit hgt

theorem pushHeap_contents (hn : 0 < n) : contents n (pushHeap gt n v) = contents n v := by
  unfold pushHeap
  rw [siftUp_contents (by omega), update_eq_self]

theorem IsHeap.append (h : IsHeap key n v) (hle : ∀ i < n, key (v i) ≤ key value) :
    IsHeap key (n + 1) (update v n value) := by
  intro i hi hn
  have hlt := parent_lt hi
  rw [update_of_ne (by omega)]
  by_cases hin : i = n
  · rw [hin, update_self, ← hin]
    exact hle _ (by omega)
  · rw [update_of_ne hin]
    exact h i hi (by omega)

end Order

end Drain.Heap
