import Drain.Lib.LinkedList

/-! Orders by recency of use, and the fully associative caches with least recently used
replacement, which are prefixes of one stack. -/

namespace Drain

open Function List

universe u

variable {α : Type u} [DecidableEq α] {l : List α} {a b : α}

/-- Elements with the time of their last use, 0 for none. -/
structure Recency (α : Type u) where
  order : List α
  lastUse : α → Nat
  clock : Nat

namespace Recency

variable {r : Recency α}

def start (l : List α) : Recency α := ⟨l, fun _ => 0, 0⟩

def use (r : Recency α) (a : α) : Recency α where
  order := toFront r.order a
  lastUse := update r.lastUse a (r.clock + 1)
  clock := r.clock + 1

def retire (r : Recency α) (a : α) : Recency α where
  order := toBack r.order a
  lastUse := update r.lastUse a 0
  clock := r.clock

/-- From the most to the least recently used element, those out of use at the end. -/
structure Sorted (r : Recency α) : Prop where
  past : ∀ a, r.lastUse a ≤ r.clock
  sorted : r.order.Pairwise fun a b =>
    r.lastUse b < r.lastUse a ∨ r.lastUse a = 0 ∧ r.lastUse b = 0

omit [DecidableEq α] in
theorem sorted_start (l : List α) : (start l).Sorted :=
  ⟨fun _ => le_rfl, pairwise_of_forall fun _ _ => .inr ⟨rfl, rfl⟩⟩

theorem pairwise_erase_update {v : Nat} (hl : r.order.Nodup) (hs : r.Sorted) :
    (r.order.erase a).Pairwise fun b c =>
      update r.lastUse a v c < update r.lastUse a v b ∨
        update r.lastUse a v b = 0 ∧ update r.lastUse a v c = 0 := by
  refine List.Pairwise.imp_of_mem ?_ (hs.sorted.sublist erase_sublist)
  intro b c hb hc hbc
  have hne : b ≠ a := fun heq => hl.not_mem_erase (heq ▸ hb)
  have hne' : c ≠ a := fun heq => hl.not_mem_erase (heq ▸ hc)
  rwa [update_of_ne hne, update_of_ne hne']

theorem Sorted.use (hl : r.order.Nodup) (hs : r.Sorted) : (r.use a).Sorted where
  past := by
    intro b
    simp only [Recency.use, update_apply]
    have := hs.past b
    split <;> omega
  sorted := by
    refine pairwise_cons.mpr ⟨fun b hb => .inl ?_, pairwise_erase_update hl hs⟩
    have hne : b ≠ a := fun heq => hl.not_mem_erase (heq ▸ hb)
    simp only [Recency.use, update_self, update_of_ne hne]
    exact Nat.lt_succ_of_le (hs.past b)

theorem Sorted.retire (hl : r.order.Nodup) (hs : r.Sorted) : (r.retire a).Sorted where
  past := by
    intro b
    simp only [Recency.retire, update_apply]
    have := hs.past b
    split <;> omega
  sorted := by
    refine pairwise_append.mpr ⟨pairwise_erase_update hl hs, pairwise_singleton _ _, ?_⟩
    intro b hb c hc
    rw [mem_singleton.mp hc]
    have hzero : (r.retire a).lastUse a = 0 := update_self _ _ _
    rw [hzero]
    exact (Nat.eq_zero_or_pos _).symm.imp_right fun h => ⟨h, rfl⟩

end Recency

theorem map_toFront {β : Type*} [DecidableEq β] {f : α → β} (ha : a ∈ l) (hf : (l.map f).Nodup) :
    (toFront l a).map f = toFront (l.map f) (f a) := by
  rw [toFront, toFront, map_cons]
  congr 1
  induction l with
  | nil => rfl
  | cons b l ih =>
    rw [map_cons, nodup_cons] at hf
    by_cases hab : b = a
    · simp [hab]
    · have hmem : a ∈ l := (mem_cons.mp ha).resolve_left (Ne.symm hab)
      have hne : f b ≠ f a := fun heq => hf.1 (heq ▸ mem_map_of_mem hmem)
      rw [erase_cons_tail (by simpa using hab), map_cons, map_cons,
        erase_cons_tail (by simpa using hne), ih hmem hf.2]

theorem take_erase (l : List α) (a : α) (c : Nat) :
    ((l.take (c + 1)).erase a).take c = (l.erase a).take c := by
  induction l generalizing c with
  | nil => simp
  | cons b l ih =>
    by_cases hb : b = a
    · simp [hb, take_take]
    · rw [take_succ_cons, erase_cons_tail (by simpa using hb),
        erase_cons_tail (by simpa using hb)]
      cases c with
      | zero => rfl
      | succ c => rw [take_succ_cons, take_succ_cons, ih]

theorem take_toFront (l : List α) (a : α) (c : Nat) :
    (toFront (l.take c) a).take c = (toFront l a).take c := by
  cases c with
  | zero => simp
  | succ c => rw [toFront, toFront, take_succ_cons, take_succ_cons, take_erase]

theorem take_toFront_of_mem {c : Nat} (ha : a ∈ l.take c) :
    (toFront l a).take c = toFront (l.take c) a := by
  rw [← take_toFront, take_of_length_le]
  rw [(perm_toFront ha).length_eq]
  exact length_take_le c l

/-- A fully associative cache with least recently used replacement. -/
structure LruCache (α : Type u) where
  order : List α
  hits : Nat
  misses : Nat

namespace LruCache

def empty : LruCache α := ⟨[], 0, 0⟩

def access (capacity : Nat) (s : LruCache α) (a : α) : LruCache α where
  order := (toFront s.order a).take capacity
  hits := if a ∈ s.order then s.hits + 1 else s.hits
  misses := if a ∈ s.order then s.misses else s.misses + 1

def run (capacity : Nat) (trace : List α) : LruCache α := trace.foldl (access capacity) empty

theorem run_append (capacity : Nat) (trace : List α) (a : α) :
    run capacity (trace ++ [a]) = access capacity (run capacity trace) a := by
  simp [run]

theorem order_run_take {c n : Nat} (hcn : c ≤ n) (trace : List α) :
    (run c trace).order = (run n trace).order.take c := by
  induction trace using reverseRecOn with
  | nil => simp [run, empty]
  | append_singleton trace a ih =>
    rw [run_append, run_append]
    simp only [access]
    rw [ih, take_toFront, take_take, Nat.min_eq_left hcn]

theorem hits_add_misses (c : Nat) (trace : List α) :
    (run c trace).hits + (run c trace).misses = trace.length := by
  induction trace using reverseRecOn with
  | nil => rfl
  | append_singleton trace a ih =>
    rw [run_append, length_append, length_singleton, ← ih]
    simp only [access]
    split <;> omega

/-- No access finds its element in the larger cache alone. -/
def SameHits (c n : Nat) (as : List α) : Prop :=
  ∀ k (hk : k < as.length), as[k] ∈ (run n (as.take k)).order →
    as[k] ∈ (run c (as.take k)).order

instance (c n : Nat) (as : List α) : Decidable (SameHits c n as) :=
  inferInstanceAs (Decidable (∀ k (hk : k < as.length),
    as[k] ∈ (run n (as.take k)).order → as[k] ∈ (run c (as.take k)).order))

theorem SameHits.of_append {c n : Nat} {as : List α} (h : SameHits c n (as ++ [a])) :
    SameHits c n as := by
  intro k hk
  have hall := h k (by simp; omega)
  rwa [getElem_append_left hk, take_append_of_le_length hk.le] at hall

theorem SameHits.hits_eq {c n : Nat} (hcn : c ≤ n) {trace : List α} (h : SameHits c n trace) :
    (run c trace).hits = (run n trace).hits := by
  induction trace using reverseRecOn with
  | nil => rfl
  | append_singleton trace a ih =>
    have hsame : a ∈ (run c trace).order ↔ a ∈ (run n trace).order := by
      constructor
      · rw [order_run_take hcn]
        exact mem_of_mem_take
      · have hlast := h trace.length (by simp)
        simpa using hlast
    simp only [run_append, access, hsame, ih h.of_append]

end LruCache

end Drain
