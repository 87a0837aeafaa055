import Mathlib

/-! A set that is split along a list of sets that may overlap: each key takes what is left of its
entry. -/

namespace Drain

open Finset

variable {κ ν : Type} [DecidableEq ν] {entry : κ → Finset ν}

/-- The parts that were taken, with their keys, and what is left. -/
def greedySplit (entry : κ → Finset ν) : List κ → Finset ν → List (κ × Finset ν) × Finset ν
  | [], rest => ([], rest)
  | k :: ks, rest =>
    if (rest ∩ entry k).Nonempty then
      let (parts, left) := greedySplit entry ks (rest \ entry k)
      ((k, rest ∩ entry k) :: parts, left)
    else greedySplit entry ks rest

/-- Non-empty disjoint parts of a set, each inside the entry of its key. -/
structure SplitInto (entry : κ → Finset ν) (s : Finset ν) (parts : List (κ × Finset ν)) : Prop where
  nonempty : ∀ c ∈ parts, c.2.Nonempty
  within : ∀ c ∈ parts, c.2 ⊆ entry c.1
  disjoint : parts.Pairwise fun a b => Disjoint a.2 b.2
  union : ∀ x, x ∈ s ↔ ∃ c ∈ parts, x ∈ c.2

theorem mem_left_greedySplit (ks : List κ) (rest : Finset ν) {x : ν} :
    x ∈ (greedySplit entry ks rest).2 ↔ x ∈ rest ∧ ∀ k ∈ ks, x ∉ entry k := by
  induction ks generalizing rest with
  | nil => simp [greedySplit]
  | cons k ks ih =>
    unfold greedySplit
    split
    · simp [ih, and_assoc]
    · next hempty =>
      have hnot : x ∈ rest → x ∉ entry k := fun hx hk =>
        hempty ⟨x, mem_inter.mpr ⟨hx, hk⟩⟩
      rw [ih, List.forall_mem_cons]
      exact and_congr_right fun hx => (and_iff_right (hnot hx)).symm

theorem keys_greedySplit (ks : List κ) (rest : Finset ν) :
    ((greedySplit entry ks rest).1.map Prod.fst).Sublist ks := by
  induction ks generalizing rest with
  | nil => exact List.Sublist.refl _
  | cons k ks ih =>
    unfold greedySplit
    split
    · exact (ih _).cons_cons k
    · exact (ih rest).cons k

theorem splitInto_greedySplit (ks : List κ) (rest : Finset ν) :
    SplitInto entry (rest \ (greedySplit entry ks rest).2) (greedySplit entry ks rest).1 := by
  induction ks generalizing rest with
  | nil => exact ⟨by simp [greedySplit], by simp [greedySplit], .nil, by simp [greedySplit]⟩
  | cons k ks ih =>
    unfold greedySplit
    split
    · next hne =>
      have h := ih (rest \ entry k)
      refine ⟨?_, ?_, ?_, fun x => ?_⟩
      · exact List.forall_mem_cons.mpr ⟨hne, h.nonempty⟩
      · exact List.forall_mem_cons.mpr ⟨inter_subset_right, h.within⟩
      · refine List.pairwise_cons.mpr ⟨fun c hc => ?_, h.disjoint⟩
        rw [disjoint_left]
        intro x hx hxc
        have hx' := (h.union x).mpr ⟨c, hc, hxc⟩
        simp only [mem_sdiff, mem_inter] at hx hx'
        exact hx'.1.2 hx.2
      · have hunion := h.union x
        have hleft : x ∈ (greedySplit entry ks (rest \ entry k)).2 ↔ _ := mem_left_greedySplit ks _
        simp only [List.exists_mem_cons_iff, mem_sdiff, mem_inter] at hunion hleft ⊢
        rw [← hunion]
        tauto
    · exact ih rest

end Drain
