import Mathlib

/-! Items on their way from a producer to a consumer. An item is due at a known
time, `delay` after the producer has sent it, and the consumer wakes up then. The
producer sends at most one item at a time, the consumer takes at most one. -/

namespace Drain

open List

variable {α : Type*} {due : α → Nat} {delay now : Nat} {pending pending' : Nat → Prop}
  {sent sent' : Prop} {b : List α} {x : α}

/-- The items of a lane. `pending` are the times at which the consumer will wake up,
and `sent` says that the producer has already been active at this time. -/
structure Lane (due : α → Nat) (delay now : Nat) (pending : Nat → Prop) (sent : Prop)
    (b : List α) : Prop where
  sorted : b.Pairwise fun x y => due x < due y
  awaited : ∀ x ∈ b, now ≤ due x ∧ pending (due x)
  bound : ∀ x ∈ b, due x ≤ now + delay
  sent : ∀ x ∈ b, due x = now + delay → sent

namespace Lane

theorem nil : Lane due delay now pending sent [] := ⟨.nil, by simp, by simp, by simp⟩

section

variable (h : Lane due delay now pending sent b)
include h

theorem mono (hp : ∀ t, pending t → pending' t)
    (hs : sent → sent') : Lane due delay now pending' sent' b :=
  ⟨h.sorted, fun x hx => ⟨(h.awaited x hx).1, hp _ (h.awaited x hx).2⟩, h.bound,
    fun x hx heq => hs (h.sent x hx heq)⟩

theorem lt_of_not_sent (hsent : ¬sent) :
    ∀ x ∈ b, due x < now + delay :=
  fun x hx => lt_of_le_of_ne (h.bound x hx) fun heq => hsent (h.sent x hx heq)

theorem length_le : b.length ≤ delay + 1 := by
  have hnodup : (b.map due).Nodup := pairwise_map.mpr (h.sorted.imp fun hlt => hlt.ne)
  have hsub : b.map due ⊆ range' now (delay + 1) := by
    intro t ht
    obtain ⟨x, hx, rfl⟩ := mem_map.mp ht
    have hbound := h.bound x hx
    exact mem_range'_1.mpr ⟨(h.awaited x hx).1, by omega⟩
  simpa using (hnodup.subperm hsub).length_le

theorem push (hsent : ¬sent) (hx : due x = now + delay)
    (hp : pending (now + delay)) (hs : sent') : Lane due delay now pending sent' (b ++ [x]) := by
  have hlt := h.lt_of_not_sent hsent
  refine ⟨?_, fun y hy => ?_, fun y hy => ?_, fun _ _ _ => hs⟩
  · refine pairwise_append.mpr ⟨h.sorted, pairwise_singleton _ _, fun y hy z hz => ?_⟩
    rw [mem_singleton.mp hz, hx]
    exact hlt y hy
  · rcases mem_append.mp hy with hy | hy
    · exact h.awaited y hy
    · rw [mem_singleton.mp hy, hx]
      exact ⟨Nat.le_add_right _ _, hp⟩
  · rcases mem_append.mp hy with hy | hy
    · exact h.bound y hy
    · rw [mem_singleton.mp hy, hx]

theorem idle (hnone : ∀ x ∈ b, due x ≠ now)
    (hp : ∀ t, t ≠ now → pending t → pending' t) (hs : sent → sent') :
    Lane due delay now pending' sent' b :=
  ⟨h.sorted, fun x hx => ⟨(h.awaited x hx).1, hp _ (hnone x hx) (h.awaited x hx).2⟩, h.bound,
    fun x hx heq => hs (h.sent x hx heq)⟩

end

theorem take (h : Lane due delay now pending sent (x :: b))
    (hp : ∀ t, t ≠ now → pending t → pending' t) (hs : sent → sent') :
    Lane due delay now pending' sent' b := by
  obtain ⟨hfirst, hrest⟩ := pairwise_cons.mp h.sorted
  have hlane : Lane due delay now pending sent b :=
    ⟨hrest, fun y hy => h.awaited y (mem_cons_of_mem x hy),
      fun y hy => h.bound y (mem_cons_of_mem x hy),
      fun y hy => h.sent y (mem_cons_of_mem x hy)⟩
  refine hlane.idle (fun y hy => ?_) hp hs
  exact ((h.awaited x mem_cons_self).1.trans_lt (hfirst y hy)).ne'

theorem tick (h : Lane due delay now pending sent b) (hidle : ¬pending now) :
    Lane due delay (now + 1) pending sent' b := by
  refine ⟨h.sorted, fun x hx => ⟨?_, (h.awaited x hx).2⟩, fun x hx => ?_, fun x hx heq => ?_⟩
  · refine lt_of_le_of_ne (h.awaited x hx).1 fun heq => hidle ?_
    rw [heq]
    exact (h.awaited x hx).2
  · have := h.bound x hx
    omega
  · have := h.bound x hx
    omega

end Lane

end Drain
