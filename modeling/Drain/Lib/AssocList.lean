import Mathlib

/-! The entries of an association list, as the calls of an object change them. -/

namespace Drain

open List Option

variable {α β : Type} {t : AList fun _ : α => β} {a : α}

theorem length_entries_pos (h : a ∈ t) : 0 < t.entries.length := by
  have hkeys := length_pos_of_mem (AList.mem_keys.mp h)
  unfold AList.keys keys at hkeys
  rwa [length_map] at hkeys

variable [DecidableEq α]

theorem length_entries_erase (h : a ∈ t) :
    (t.erase a).entries.length = t.entries.length - 1 := by
  have hkeys : (t.erase a).keys.length = t.keys.length - 1 := by
    rw [AList.keys_erase]
    exact length_erase_of_mem (AList.mem_keys.mp h)
  unfold AList.keys keys at hkeys
  rwa [length_map, length_map] at hkeys

theorem length_entries_insert {b : β} (h : a ∉ t) :
    (t.insert a b).entries.length = t.entries.length + 1 := by
  rw [AList.insert_of_notMem h]
  rfl

theorem mem_lookup_insert {b r : β} {a' : α} :
    r ∈ (t.insert a b).lookup a' ↔ if a' = a then r = b else r ∈ t.lookup a' := by
  split
  · next h =>
    subst h
    rw [AList.lookup_insert, mem_def, some_inj, eq_comm]
  · next h => rw [AList.lookup_insert_ne h]

theorem erase_insert_self {b : β} : (t.insert a b).erase a = t.erase a := by
  apply AList.ext
  simp [AList.erase, AList.entries_insert]

theorem entries_perm {b : β} (h : b ∈ t.lookup a) :
    t.entries.Perm (⟨a, b⟩ :: (t.erase a).entries) := by
  obtain ⟨b', l₁, l₂, hnot, heq, herase⟩ := exists_of_kerase (AList.mem_keys.mp
    (AList.lookup_isSome.mp (isSome_of_mem h)))
  have hmem : b' ∈ t.lookup a := AList.mem_lookup_iff.mpr (by simp [heq])
  obtain rfl : b' = b := mem_unique hmem h
  rw [heq, AList.erase]
  simp only [herase]
  exact perm_middle

theorem mem_lookup_of_erase {r : β} {a' : α} (h : r ∈ (t.erase a).lookup a') : r ∈ t.lookup a' := by
  by_cases ha : a' = a
  · subst ha
    simp at h
  · rwa [AList.lookup_erase_ne ha] at h

end Drain
