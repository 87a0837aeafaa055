import Mathlib

/-! Items that lie at places. The weight of all items together changes with every
item that is taken from a place or put there. -/

namespace Drain

open Function List

variable {π α : Type*}

/-- Without one occurrence of `a` at `x`, the contents `c` are `c'`. -/
structure Taken (c c' : π → List α) (x : π) (a : α) : Prop where
  perm : (c x).Perm (a :: c' x)
  other : ∀ y, y ≠ x → c' y = c y

def total (places : Finset π) (w : π → α → Nat) (c : π → List α) : Nat :=
  ∑ x ∈ places, ((c x).map (w x)).sum

variable {places : Finset π} {w : π → α → Nat} {c c₁ c' : π → List α} {x y : π} {a b : α}

theorem Taken.of_cons [DecidableEq π] {rest : List α} (h : c x = a :: rest) :
    Taken c (update c x rest) x a := by
  refine ⟨?_, fun y hy => update_of_ne hy _ _⟩
  rw [h, update_self]

theorem Taken.of_perm [DecidableEq π] {new : List α} (h : new.Perm (a :: c x)) :
    Taken (update c x new) c x a := by
  refine ⟨?_, fun y hy => (update_of_ne hy _ _).symm⟩
  rwa [update_self]

theorem Taken.mem (h : Taken c c' x a) : a ∈ c x := h.perm.mem_iff.mpr (by simp)

theorem Taken.mem_of_mem (h : Taken c c' x a) (hb : b ∈ c' y) : b ∈ c y := by
  by_cases hy : y = x
  · subst hy
    exact h.perm.mem_iff.mpr (by simp [hb])
  · rwa [← h.other y hy]

theorem Taken.eq_or_mem (h : Taken c c' x a) (hb : b ∈ c y) : (y = x ∧ b = a) ∨ b ∈ c' y := by
  by_cases hy : y = x
  · subst hy
    rcases mem_cons.mp (h.perm.mem_iff.mp hb) with hb | hb
    · exact .inl ⟨rfl, hb⟩
    · exact .inr hb
  · rw [h.other y hy]
    exact .inr hb

theorem Taken.forall_moved {P : π → α → Prop} (h : Taken c c₁ x a) (h' : Taken c' c₁ y b)
    (hc : ∀ z, ∀ d ∈ c z, P z d) (hb : P x a → P y b) : ∀ z, ∀ d ∈ c' z, P z d := by
  intro z d hd
  rcases h'.eq_or_mem hd with ⟨rfl, rfl⟩ | hd
  · exact hb (hc x a h.mem)
  · exact hc z d (h.mem_of_mem hd)

theorem Taken.total_eq [DecidableEq π] (h : Taken c c' x a) (hx : x ∈ places) :
    total places w c = total places w c' + w x a := by
  have hhere : ((c x).map (w x)).sum = ((c' x).map (w x)).sum + w x a := by
    rw [(h.perm.map (w x)).sum_eq, map_cons, sum_cons, add_comm]
  have hrest : ∑ y ∈ places.erase x, ((c y).map (w y)).sum =
      ∑ y ∈ places.erase x, ((c' y).map (w y)).sum := by
    refine Finset.sum_congr rfl fun y hy => ?_
    rw [h.other y (Finset.ne_of_mem_erase hy)]
  unfold total
  rw [← Finset.add_sum_erase _ _ hx, ← Finset.add_sum_erase _ _ hx, hhere, hrest]
  omega

theorem Taken.total_moved [DecidableEq π] (h : Taken c c₁ x a) (h' : Taken c' c₁ y b)
    (hx : x ∈ places) (hy : y ∈ places) :
    total places w c' + w x a = total places w c + w y b := by
  rw [h.total_eq hx, h'.total_eq hy]
  omega

theorem sum_le_total (hx : x ∈ places) : ((c x).map (w x)).sum ≤ total places w c :=
  Finset.single_le_sum (f := fun x => ((c x).map (w x)).sum) (fun _ _ => Nat.zero_le _) hx

theorem add_le_total [DecidableEq π] (hx : x ∈ places) (hy : y ∈ places) (hxy : x ≠ y) :
    ((c x).map (w x)).sum + ((c y).map (w y)).sum ≤ total places w c := by
  unfold total
  rw [← Finset.add_sum_erase _ _ hx]
  have hle : ((c y).map (w y)).sum ≤ ∑ z ∈ places.erase x, ((c z).map (w z)).sum :=
    Finset.single_le_sum (f := fun x => ((c x).map (w x)).sum) (fun _ _ => Nat.zero_le _)
      (Finset.mem_erase.mpr ⟨hxy.symm, hy⟩)
  omega

theorem total_eq_single (hx : x ∈ places) (h : ∀ y ∈ places, y ≠ x → ∀ b ∈ c y, w y b = 0) :
    total places w c = ((c x).map (w x)).sum := by
  refine Finset.sum_eq_single_of_mem x hx fun y hy hne => ?_
  refine sum_eq_zero fun n hn => ?_
  obtain ⟨b, hb, rfl⟩ := mem_map.mp hn
  exact h y hy hne b hb

theorem total_eq_zero (h : ∀ x ∈ places, ∀ b ∈ c x, w x b = 0) : total places w c = 0 := by
  refine Finset.sum_eq_zero fun x hx => sum_eq_zero fun n hn => ?_
  obtain ⟨b, hb, rfl⟩ := mem_map.mp hn
  exact h x hx b hb

theorem total_congr (h : ∀ x ∈ places, ((c' x).map (w x)).sum = ((c x).map (w x)).sum) :
    total places w c' = total places w c := Finset.sum_congr rfl h

theorem exists_place_of_total_eq_one [DecidableEq π] (h : total places w c = 1) :
    ∃ x ∈ places, ((c x).map (w x)).sum = 1 ∧ ∀ y ∈ places, y ≠ x → ((c y).map (w y)).sum = 0 := by
  obtain ⟨x, hx, hne⟩ := Finset.exists_ne_zero_of_sum_ne_zero (h.trans_ne one_ne_zero)
  have hle := sum_le_total (w := w) (c := c) hx
  refine ⟨x, hx, by omega, fun y hy hyx => ?_⟩
  have := add_le_total (w := w) (c := c) hy hx hyx
  omega

theorem sum_map_toNat (p : α → Bool) (l : List α) : (l.map fun a => (p a).toNat).sum = l.countP p := by
  induction l with
  | nil => rfl
  | cons a l ih =>
    rw [map_cons, sum_cons, ih, countP_cons, add_comm]
    cases p a <;> rfl

end Drain
