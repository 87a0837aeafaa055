import Mathlib

/-! Lists whose elements move to one of the ends, and doubly linked cells that keep such a list. -/

namespace Drain

open Function List Option

variable {α : Type*} [DecidableEq α] {l : List α} {a b : α} {k : Nat}

def toFront (l : List α) (a : α) : List α := a :: l.erase a

def toBack (l : List α) (a : α) : List α := l.erase a ++ [a]

theorem eraseIdx_of_nodup (hl : l.Nodup) (hk : l[k]? = some a) : l.erase a = l.eraseIdx k := by
  obtain ⟨hlt, rfl⟩ := List.getElem?_eq_some_iff.mp hk
  exact List.Nodup.erase_getElem hl k hlt

theorem getElem?_toFront (hl : l.Nodup) (hk : l[k]? = some a) (j : Nat) :
    (toFront l a)[j]? = if j = 0 then some a else if j ≤ k then l[j - 1]? else l[j]? := by
  rw [toFront, eraseIdx_of_nodup hl hk]
  cases j with
  | zero => rfl
  | succ j =>
    rw [getElem?_cons_succ, getElem?_eraseIdx]
    simp [Nat.succ_le_iff]

theorem getElem?_toBack (hl : l.Nodup) (hk : l[k]? = some a) (j : Nat) :
    (toBack l a)[j]? = if j + 1 = l.length then some a else if j < k then l[j]? else l[j + 1]? := by
  have hlt : k < l.length := (List.getElem?_eq_some_iff.mp hk).1
  rw [toBack, eraseIdx_of_nodup hl hk, getElem?_append, length_eraseIdx, if_pos hlt,
    getElem?_eraseIdx]
  by_cases hend : j + 1 = l.length
  · simp [← hend]
  · rw [if_neg hend]
    by_cases hin : j < l.length - 1
    · rw [if_pos hin]
    · rw [if_neg hin, if_neg (by omega), getElem?_eq_none (by simp; omega),
        getElem?_eq_none (by omega)]

theorem perm_toFront (ha : a ∈ l) : (toFront l a).Perm l := (perm_cons_erase ha).symm

theorem perm_toBack (ha : a ∈ l) : (toBack l a).Perm l :=
  (perm_append_singleton a _).trans (perm_toFront ha)

theorem toFront_of_notMem (ha : a ∉ l) : toFront l a = a :: l := by
  rw [toFront, erase_of_not_mem ha]

theorem toFront_head (hl : l.head? = some a) : toFront l a = l := by
  obtain ⟨rest, rfl⟩ := head?_eq_some_iff.mp hl
  simp [toFront]

theorem reverse_toFront_reverse (hl : l.Nodup) : (toFront l.reverse a).reverse = toBack l a := by
  simp [toFront, toBack, hl.erase_eq_filter, (nodup_reverse.mpr hl).erase_eq_filter,
    filter_reverse]

theorem toBack_getLast (hl : l.Nodup) (ha : l.getLast? = some a) : toBack l a = l := by
  rw [← reverse_toFront_reverse hl, toFront_head (by rw [head?_reverse, ha]),
    reverse_reverse]

structure Linked (prev next : α → Option α) (l : List α) : Prop where
  nodup : l.Nodup
  next_eq : ∀ j a, l[j]? = some a → next a = l[j + 1]?
  prev_eq : ∀ j a, l[j]? = some a → prev a = if j = 0 then none else l[j - 1]?

omit [DecidableEq α] in
theorem eq_iff_index (hl : l.Nodup) {i j : Nat} (hi : l[i]? = some a) (hj : l[j]? = some b) :
    a = b ↔ i = j := by
  rw [← List.getElem?_inj (List.getElem?_eq_some_iff.mp hi).1 hl, hi, hj, some.injEq]

theorem toFront_cases (hl : l.Nodup) (hk : l[k]? = some a) {j : Nat}
    (hj : (toFront l a)[j]? = some b) :
    j = 0 ∧ b = a ∨ (∃ i, i < k ∧ j = i + 1 ∧ l[i]? = some b) ∨ k < j ∧ l[j]? = some b := by
  rw [getElem?_toFront hl hk] at hj
  by_cases hzero : j = 0
  · rw [if_pos hzero, some.injEq] at hj
    exact .inl ⟨hzero, hj.symm⟩
  rw [if_neg hzero] at hj
  by_cases hle : j ≤ k
  · rw [if_pos hle] at hj
    exact .inr (.inl ⟨j - 1, by omega, by omega, hj⟩)
  · rw [if_neg hle] at hj
    exact .inr (.inr ⟨by omega, hj⟩)

theorem toBack_cases (hl : l.Nodup) (hk : l[k]? = some a) {j : Nat}
    (hj : (toBack l a)[j]? = some b) :
    j + 1 = l.length ∧ b = a ∨ (j < k ∧ l[j]? = some b) ∨ k ≤ j ∧ l[j + 1]? = some b := by
  rw [getElem?_toBack hl hk] at hj
  by_cases hend : j + 1 = l.length
  · rw [if_pos hend, some.injEq] at hj
    exact .inl ⟨hend, hj.symm⟩
  rw [if_neg hend] at hj
  by_cases hlt : j < k
  · rw [if_pos hlt] at hj
    exact .inr (.inl ⟨hlt, hj⟩)
  · rw [if_neg hlt] at hj
    exact .inr (.inr ⟨by omega, hj⟩)

section Links

variable {prev next : α → Option α}

omit [DecidableEq α] in
theorem Linked.mirror (h : Linked prev next l) : Linked next prev l.reverse where
  nodup := nodup_reverse.mpr h.nodup
  next_eq := by
    intro j a hj
    have hlt : j < l.length := by simpa using (List.getElem?_eq_some_iff.mp hj).1
    rw [getElem?_reverse hlt] at hj
    rw [h.prev_eq _ a hj]
    by_cases hend : j + 1 = l.length
    · rw [if_pos (by omega), getElem?_eq_none (by simp [hend])]
    · rw [if_neg (by omega), getElem?_reverse (by omega)]
      rfl
  prev_eq := by
    intro j a hj
    have hlt : j < l.length := by simpa using (List.getElem?_eq_some_iff.mp hj).1
    rw [getElem?_reverse hlt] at hj
    rw [h.next_eq _ a hj]
    by_cases hzero : j = 0
    · rw [if_pos hzero, getElem?_eq_none (by omega)]
    · rw [if_neg hzero, getElem?_reverse (by omega)]
      congr 1
      omega

/-- The pointers towards the end after a cell has moved to the front. -/
def frontNext (next : α → Option α) (p a h : α) : α → Option α :=
  update (update next p (next a)) a (some h)

/-- The cell behind `a`, if any, now points to the one before it. -/
def skipBack (prev : α → Option α) (a : α) : Option α → α → Option α
  | some n => update prev n (prev a)
  | none => prev

/-- The pointers towards the front after a cell has moved there. -/
def frontPrev (prev next : α → Option α) (a h : α) : α → Option α :=
  update (update (skipBack prev a (next a)) a none) h (some a)

theorem Linked.toFront {p h : α} (hl : Linked prev next l) (ha : a ∈ l) (hp : prev a = some p)
    (hh : l.head? = some h) :
    Linked (frontPrev prev next a h) (frontNext next p a h) (toFront l a) := by
  obtain ⟨k, hk⟩ := mem_iff_getElem?.mp ha
  have hnodup := hl.nodup
  have hprev := hl.prev_eq k a hk
  have hpos : k ≠ 0 := by
    intro hzero
    rw [hp, if_pos hzero] at hprev
    exact some_ne_none p hprev
  rw [if_neg hpos] at hprev
  have hhead : l[0]? = some h := by rw [← head?_eq_getElem?, hh]
  have hpk : l[k - 1]? = some p := hprev.symm.trans hp
  have hne : ∀ {c d : α} {i j : Nat}, l[i]? = some c → l[j]? = some d → i ≠ j → c ≠ d :=
    fun hc hd => mt (eq_iff_index hnodup hc hd).mp
  refine ⟨(perm_toFront ha).nodup_iff.mpr hnodup, fun j b hj => ?_, fun j b hj => ?_⟩
  · rw [getElem?_toFront hnodup hk, frontNext]
    rcases toFront_cases hnodup hk hj with ⟨rfl, rfl⟩ | ⟨i, hlt, rfl, hi⟩ | ⟨hlt, hi⟩
    · rw [update_self, if_neg (by omega), if_pos (by omega), hhead]
    · rw [update_of_ne (hne hi hk hlt.ne), if_neg (by omega)]
      by_cases hbefore : i = k - 1
      · rw [(eq_iff_index hnodup hi hpk).mpr hbefore, update_self, hl.next_eq k a hk,
          if_neg (by omega)]
        congr 1
        omega
      · rw [update_of_ne (hne hi hpk hbefore), hl.next_eq i b hi, if_pos (by omega),
          Nat.add_sub_cancel]
    · rw [update_of_ne (hne hi hk hlt.ne'), update_of_ne (hne hi hpk (by omega)),
        hl.next_eq j b hi, if_neg (by omega), if_neg (by omega)]
  · rw [getElem?_toFront hnodup hk, frontPrev, hl.next_eq k a hk]
    rcases toFront_cases hnodup hk hj with ⟨rfl, rfl⟩ | ⟨i, hlt, rfl, hi⟩ | ⟨hlt, hi⟩
    · rw [update_of_ne (hne hk hhead hpos), update_self, if_pos rfl]
    · rw [if_neg (by omega), Nat.add_sub_cancel, if_pos hlt.le]
      by_cases hzero : i = 0
      · rw [(eq_iff_index hnodup hi hhead).mpr hzero, update_self, if_pos hzero]
      · rw [update_of_ne (hne hi hhead hzero), update_of_ne (hne hi hk hlt.ne),
          if_neg hzero]
        have hold : prev b = l[i - 1]? := by rw [hl.prev_eq i b hi, if_neg hzero]
        cases hm : l[k + 1]? with
        | none => exact hold
        | some m =>
          show update prev m _ b = _
          rw [update_of_ne (hne hi hm (by omega)), hold]
    · rw [update_of_ne (hne hi hhead (by omega)), update_of_ne (hne hi hk hlt.ne'),
        if_neg (by omega), if_neg (by omega)]
      by_cases hafter : j = k + 1
      · rw [← hafter, hi]
        show update prev b _ b = _
        rw [update_self, hprev, if_pos (by omega), hafter]
        rfl
      · have hold : prev b = l[j - 1]? := by rw [hl.prev_eq j b hi, if_neg (by omega)]
        rw [if_neg (by omega)]
        cases hm : l[k + 1]? with
        | none => exact hold
        | some m =>
          show update prev m _ b = _
          rw [update_of_ne (hne hi hm (by omega)), hold]

theorem Linked.toBack {n t : α} (hl : Linked prev next l) (ha : a ∈ l) (hn : next a = some n)
    (ht : l.getLast? = some t) :
    Linked (frontNext prev n a t) (frontPrev next prev a t) (toBack l a) := by
  have hfront := hl.mirror.toFront (mem_reverse.mpr ha) hn (by rw [head?_reverse, ht])
  rw [← reverse_toFront_reverse hl.nodup]
  exact hfront.mirror

end Links

end Drain
