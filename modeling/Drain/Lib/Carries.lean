import Mathlib

/-! Networks that deliver in any order. `Carries l P` says that the messages in flight are
those that satisfy `P`, each once. Most of the lemmas are about messages that belong to one
of many independent lines, where a step changes what one line has in flight. -/

namespace Drain

open Function List Option

variable {M α β κ ρ : Type*} {l : List M} {P P' : M → Prop} {m₀ : M}

def Carries (l : List M) (P : M → Prop) : Prop := l.Nodup ∧ ∀ m, m ∈ l ↔ P m

theorem carries_nil (h : ∀ m, ¬P m) : Carries [] P := ⟨.nil, by simpa using h⟩

theorem Carries.congr (h : Carries l P) (hP : ∀ m, P' m ↔ P m) : Carries l P' :=
  ⟨h.1, fun m => (h.2 m).trans (hP m).symm⟩

theorem Carries.send (h : Carries l P) (hnew : ¬P m₀) (hP : ∀ m, P' m ↔ m = m₀ ∨ P m) :
    Carries (l ++ [m₀]) P' := by
  have hmem : m₀ ∉ l := fun hm => hnew ((h.2 m₀).mp hm)
  refine ⟨?_, fun m => ?_⟩
  · rw [nodup_append']
    exact ⟨h.1, nodup_singleton m₀, by simpa using hmem⟩
  · rw [hP, mem_append, mem_singleton, h.2, or_comm]

theorem Carries.receive [DecidableEq M] (h : Carries l P) (hP : ∀ m, P' m ↔ m ≠ m₀ ∧ P m) :
    Carries (l.erase m₀) P' :=
  ⟨h.1.erase m₀, fun m => by rw [h.1.mem_erase_iff, hP, h.2]⟩

theorem Carries.recycle [DecidableEq M] (h : Carries l P) (hm : m₀ ∈ l) :
    Carries (l.erase m₀ ++ [m₀]) P := by
  have herase : Carries (l.erase m₀) fun m => m ≠ m₀ ∧ P m := h.receive fun _ => Iff.rfl
  refine herase.send (fun h => h.1 rfl) fun m => ?_
  by_cases hm' : m = m₀
  · simpa [hm'] using (h.2 m₀).mp hm
  · simp [hm']

section Lines

/-- Each message is about the line `addr m`, and `Q` tells what a line has in flight. -/
def CarriesOn (addr : M → α) (Q : β → M → Prop) (l : List M) (L : α → β) : Prop :=
  Carries l fun m => Q (L (addr m)) m

variable {addr : M → α} {Q : β → M → Prop} {L : α → β} {a : α} {b : β}

theorem CarriesOn.mem (h : CarriesOn addr Q l L) {m : M} : m ∈ l ↔ Q (L (addr m)) m := h.2 m

variable [DecidableEq α]

theorem CarriesOn.send (h : CarriesOn addr Q l L) (ha : addr m₀ = a) (hnew : ¬Q (L a) m₀)
    (hQ : ∀ m, addr m = a → (Q b m ↔ m = m₀ ∨ Q (L a) m)) :
    CarriesOn addr Q (l ++ [m₀]) (update L a b) := by
  refine Carries.send h (by rwa [ha]) fun m => ?_
  by_cases hm : addr m = a
  · rw [hm, update_self, hQ m hm]
  · rw [update_of_ne hm]
    exact ⟨.inr, fun h => h.elim (fun h => absurd (h ▸ ha) hm) id⟩

theorem CarriesOn.receive [DecidableEq M] (h : CarriesOn addr Q l L) (ha : addr m₀ = a)
    (hQ : ∀ m, addr m = a → (Q b m ↔ m ≠ m₀ ∧ Q (L a) m)) :
    CarriesOn addr Q (l.erase m₀) (update L a b) := by
  refine Carries.receive h fun m => ?_
  by_cases hm : addr m = a
  · rw [hm, update_self, hQ m hm]
  · rw [update_of_ne hm]
    exact ⟨fun h => ⟨fun he => hm (he ▸ ha), h⟩, And.right⟩

theorem CarriesOn.keep (h : CarriesOn addr Q l L) (hQ : ∀ m, addr m = a → (Q b m ↔ Q (L a) m)) :
    CarriesOn addr Q l (update L a b) := by
  refine Carries.congr h fun m => ?_
  by_cases hm : addr m = a
  · rw [hm, update_self, hQ m hm]
  · rw [update_of_ne hm]

/-- A line has at most one message in flight, which `f` tells. -/
def CarriesOne (addr : M → α) (f : β → α → Option M) (l : List M) (L : α → β) : Prop :=
  CarriesOn addr (fun b m => f b (addr m) = some m) l L

omit [DecidableEq α] in
theorem CarriesOne.nodup {f : β → α → Option M} (h : CarriesOne addr f l L) : (l.map addr).Nodup := by
  refine h.1.map_on fun m hm m' hm' heq => ?_
  have hf : f (L (addr m)) (addr m) = some m := h.mem.mp hm
  rw [heq, h.mem.mp hm'] at hf
  exact (some.inj hf).symm

variable {f : β → α → Option M}

theorem CarriesOne.send (h : CarriesOne addr f l L) (ha : addr m₀ = a) (hold : f (L a) a = none)
    (hnew : f b a = some m₀) : CarriesOne addr f (l ++ [m₀]) (update L a b) := by
  refine CarriesOn.send h ha (by rw [ha, hold]; exact nofun) fun m hm => ?_
  rw [hm, hold, hnew, some_inj, eq_comm]
  exact ⟨.inl, fun h => h.resolve_right nofun⟩

theorem CarriesOne.receive [DecidableEq M] (h : CarriesOne addr f l L) (ha : addr m₀ = a)
    (hold : f (L a) a = some m₀) (hnew : f b a = none) :
    CarriesOne addr f (l.erase m₀) (update L a b) := by
  refine CarriesOn.receive h ha fun m hm => ?_
  rw [hm, hold, hnew, some_inj]
  exact ⟨nofun, fun h => absurd h.2.symm h.1⟩

theorem CarriesOne.keep (h : CarriesOne addr f l L) (hf : f b a = f (L a) a) :
    CarriesOne addr f l (update L a b) :=
  CarriesOn.keep h fun m hm => by rw [hm, hf]

end Lines

/-! What parties with a role each have in flight. -/

def Emits (f : κ → ρ → Option M) (role : κ → ρ) (m : M) : Prop := ∃ c, f c (role c) = some m

section Emits

variable [DecidableEq κ] {f : κ → ρ → Option M} {role : κ → ρ} {c : κ} {r : ρ} {m : M}

theorem emits_update_iff :
    Emits f (update role c r) m ↔ f c r = some m ∨ ∃ d, d ≠ c ∧ f d (role d) = some m := by
  constructor
  · rintro ⟨d, hd⟩
    by_cases h : d = c
    · subst h
      rw [update_self] at hd
      exact .inl hd
    · rw [update_of_ne h] at hd
      exact .inr ⟨d, h, hd⟩
  · rintro (h | ⟨d, hne, hd⟩)
    · exact ⟨c, by rwa [update_self]⟩
    · exact ⟨d, by rwa [update_of_ne hne]⟩

theorem emits_update_of_eq (h : f c r = f c (role c)) :
    Emits f (update role c r) m ↔ Emits f role m := by
  rw [emits_update_iff, h, ← emits_update_iff, update_eq_self]

theorem emits_update_send (h : f c (role c) = none) (h' : f c r = some m₀) :
    Emits f (update role c r) m ↔ m = m₀ ∨ Emits f role m := by
  have hrole : Emits f role m ↔ ∃ d, d ≠ c ∧ f d (role d) = some m := by
    rw [← update_eq_self c role, emits_update_iff, h]
    simp
  rw [emits_update_iff, h', hrole, some_inj, eq_comm]

theorem emits_update_receive (h : f c (role c) = some m₀) (h' : f c r = none)
    (huniq : ∀ d, f d (role d) = some m₀ → d = c) :
    Emits f (update role c r) m ↔ m ≠ m₀ ∧ Emits f role m := by
  rw [emits_update_iff, h']
  constructor
  · rintro (h | ⟨d, hne, hd⟩)
    · exact nomatch h
    · exact ⟨fun hm => hne (huniq d (hm ▸ hd)), d, hd⟩
  · rintro ⟨hne, d, hd⟩
    refine .inr ⟨d, ?_, hd⟩
    rintro rfl
    exact hne (some.inj (hd.symm.trans h))

end Emits

/-! The consecutive pairs of a queue. -/

def adjacent (l : List κ) : List (κ × κ) := l.zip l.tail

@[simp] theorem adjacent_cons_cons (x y : κ) (l : List κ) :
    adjacent (x :: y :: l) = (x, y) :: adjacent (y :: l) := rfl

theorem adjacent_append_singleton (x y : κ) (l : List κ) :
    adjacent (x :: l ++ [y]) = adjacent (x :: l) ++ [((x :: l).getLast (by simp), y)] := by
  induction l generalizing x with
  | nil => rfl
  | cons z l ih =>
    rw [cons_append, cons_append, adjacent_cons_cons, ← cons_append, ih z,
      adjacent_cons_cons, cons_append, getLast_cons_cons]

theorem fst_mem_of_mem_adjacent {l : List κ} {p : κ × κ} (h : p ∈ adjacent l) : p.1 ∈ l :=
  (of_mem_zip h).1

theorem snd_mem_of_mem_adjacent {l : List κ} {p : κ × κ} (h : p ∈ adjacent l) : p.2 ∈ l.tail :=
  (of_mem_zip h).2

end Drain
