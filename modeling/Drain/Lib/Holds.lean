import Mathlib

/-! Outcomes of computations that may stop with an error. `Holds x Q E` says
that `x` ends in a value satisfying `Q` or in an error satisfying `E`; the
rules below reduce it through sequencing, branching and loops. -/

namespace Drain

open List

universe u v

variable {ε : Type u} {α β σ : Type v}

def Holds (x : Except ε α) (Q : α → Prop) (E : ε → Prop) : Prop :=
  match x with
  | .ok a => Q a
  | .error e => E e

@[simp] theorem holds_ok {a : α} {Q : α → Prop} {E : ε → Prop} :
    Holds (.ok a) Q E ↔ Q a := Iff.rfl

@[simp] theorem holds_error {e : ε} {Q : α → Prop} {E : ε → Prop} :
    Holds (.error e) Q E ↔ E e := Iff.rfl

@[simp] theorem holds_pure {a : α} {Q : α → Prop} {E : ε → Prop} :
    Holds (pure a) Q E ↔ Q a := Iff.rfl

@[simp] theorem holds_throw {e : ε} {Q : α → Prop} {E : ε → Prop} :
    Holds (throw e : Except ε α) Q E ↔ E e := Iff.rfl

@[simp] theorem holds_bind {x : Except ε α} {f : α → Except ε β} {Q : β → Prop} {E : ε → Prop} :
    Holds (x >>= f) Q E ↔ Holds x (fun a => Holds (f a) Q E) E := by
  cases x <;> rfl

@[simp] theorem ok_bind (a : α) (f : α → Except ε β) : (Except.ok a >>= f) = f a := rfl

theorem holds_bind_of_ok {x : Except ε α} {f : α → Except ε β} {Q : β → Prop} {E : ε → Prop} {a : α}
    (hx : x = .ok a) (h : Holds (f a) Q E) : Holds (x >>= f) Q E := by
  rw [hx]
  exact h

theorem holds_of_eq_ok {x : Except ε α} {Q : α → Prop} {E : ε → Prop} {a : α} (hx : x = .ok a)
    (h : Q a) : Holds x Q E := by
  rw [hx]
  exact h

theorem holds_ite {p : Prop} [Decidable p] {x y : Except ε α} {Q : α → Prop} {E : ε → Prop} :
    Holds (if p then x else y) Q E ↔ (p → Holds x Q E) ∧ (¬p → Holds y Q E) := by
  split <;> simp_all

def require (p : Prop) [Decidable p] (e : ε) : Except ε PUnit.{v + 1} :=
  if p then .ok ⟨⟩ else .error e

@[simp] theorem holds_require {p : Prop} [Decidable p] {e : ε} {Q : PUnit.{v + 1} → Prop}
    {E : ε → Prop} : Holds (require p e) Q E ↔ (p → Q ⟨⟩) ∧ (¬p → E e) := by
  unfold require
  split <;> simp_all

theorem Holds.require {p : Prop} [Decidable p] {e : ε} {f : PUnit → Except ε β} {Q : β → Prop}
    {E : ε → Prop} (h : (p → Holds (f ⟨⟩) Q E) ∧ (¬p → E e)) : Holds (require p e >>= f) Q E :=
  holds_bind.mpr (holds_require.mpr h)

theorem holds_require_bind {p : Prop} [Decidable p] {e : ε} {f : PUnit → Except ε β} {Q : β → Prop}
    {E : ε → Prop} (hp : p) (h : Holds (f ⟨⟩) Q E) : Holds (require p e >>= f) Q E :=
  holds_bind.mpr (holds_require.mpr ⟨fun _ => h, absurd hp⟩)

theorem require_eq_ok {p : Prop} [Decidable p] {e : ε} {u : PUnit.{v + 1}} :
    require p e = .ok u ↔ p := by
  unfold require
  split <;> simp_all

theorem holds_true (x : Except ε α) : Holds x (fun _ => True) fun _ => True := by
  cases x <;> trivial

theorem Holds.mono {x : Except ε α} {Q Q' : α → Prop} {E E' : ε → Prop} (h : Holds x Q E)
    (hq : ∀ a, x = .ok a → Q a → Q' a) (he : ∀ e, x = .error e → E e → E' e) : Holds x Q' E' := by
  cases x with
  | ok a => exact hq a rfl h
  | error e => exact he e rfl h

theorem Holds.imp {x : Except ε α} {Q Q' : α → Prop} {E : ε → Prop} (h : Holds x Q E)
    (hq : ∀ a, Q a → Q' a) : Holds x Q' E := h.mono (fun a _ => hq a) (fun _ _ => id)

theorem Holds.and {x : Except ε α} {Q Q' : α → Prop} {E E' : ε → Prop} (h : Holds x Q E)
    (h' : Holds x Q' E') : Holds x (fun a => Q a ∧ Q' a) (fun e => E e ∧ E' e) := by
  cases x with
  | ok a => exact ⟨h, h'⟩
  | error e => exact ⟨h, h'⟩

theorem Holds.of_ok {x : Except ε α} {Q : α → Prop} {E : ε → Prop} {a : α}
    (h : Holds x Q E) (hx : x = .ok a) : Q a := by
  subst hx
  exact h

theorem Holds.of_error {x : Except ε α} {Q : α → Prop} {E : ε → Prop} {e : ε}
    (h : Holds x Q E) (hx : x = .error e) : E e := by
  subst hx
  exact h

theorem Holds.exists_ok {x : Except ε α} {Q : α → Prop} (h : Holds x Q (fun _ => False)) :
    ∃ a, x = .ok a ∧ Q a := by
  cases x with
  | ok a => exact ⟨a, rfl, h⟩
  | error e => exact h.elim

theorem bind_eq_ok {x : Except ε α} {f : α → Except ε β} {b : β} :
    x >>= f = .ok b ↔ ∃ a, x = .ok a ∧ f a = .ok b := by
  cases x with
  | ok a => exact ⟨fun h => ⟨a, rfl, h⟩, fun ⟨_, he, h⟩ => Except.ok.inj he ▸ h⟩
  | error e => exact ⟨fun h => (nomatch h), fun ⟨_, he, _⟩ => (nomatch he)⟩

theorem mem_toOption {x : Except ε α} {a : α} : a ∈ x.toOption ↔ x = .ok a := by
  cases x <;> simp [Except.toOption]

theorem holds_anyM {α : Type v} {p : α → Except ε Bool} {E : ε → Prop} (l : List α)
    (h : ∀ a ∈ l, Holds (p a) (fun _ => True) E) :
    Holds (l.anyM p) (fun b => b = false → ∀ a ∈ l, p a = .ok false) E := by
  induction l with
  | nil => exact fun _ _ ha => nomatch ha
  | cons a l ih =>
    have ha := h a mem_cons_self
    have hl := ih fun b hb => h b (mem_cons_of_mem a hb)
    unfold anyM
    cases hp : p a with
    | error e =>
      rw [hp] at ha
      exact ha
    | ok found =>
      cases found with
      | true => exact nofun
      | false => exact Holds.imp hl fun b hb hfalse => forall_mem_cons.mpr ⟨hp, hb hfalse⟩

theorem anyM_eq_false {α : Type v} {p : α → Except ε Bool} {l : List α}
    (h : ∀ a ∈ l, p a = .ok false) : l.anyM p = .ok false := by
  induction l with
  | nil => rfl
  | cons a l ih =>
    unfold anyM
    rw [h a mem_cons_self, ok_bind]
    exact ih fun b hb => h b (mem_cons_of_mem a hb)

theorem holds_foldlM_rest {f : σ → α → Except ε σ} {E : ε → Prop} (I : List α → σ → Prop)
    {l : List α} {s : σ} (hs : I l s)
    (hf : ∀ x xs t, x :: xs <:+ l → I (x :: xs) t → Holds (f t x) (I xs) E) :
    Holds (l.foldlM f s) (I []) E := by
  induction l generalizing s with
  | nil => simpa using hs
  | cons x l ih =>
    rw [foldlM_cons, holds_bind]
    refine (hf x l s suffix_rfl hs).imp fun t ht => ih ht fun y ys u hy hu => ?_
    exact hf y ys u (hy.trans (suffix_cons x l)) hu

theorem holds_foldlM {f : σ → α → Except ε σ} {E : ε → Prop} (I : σ → Prop) (l : List α) {s : σ}
    (hs : I s) (hf : ∀ x ∈ l, ∀ t, I t → Holds (f t x) I E) : Holds (l.foldlM f s) I E :=
  holds_foldlM_rest (fun _ => I) hs fun x _ t hx ht => hf x (hx.subset (by simp)) t ht

theorem foldl_collect {κ : Type*} {P : (κ → Prop) → σ → Prop} {f : σ → α → σ} {D : α → κ → Prop}
    (l : List α) (hf : ∀ a ∈ l, ∀ d s, P d s → P (fun k => d k ∨ D a k) (f s a)) {d : κ → Prop}
    {s : σ} (hs : P d s) : P (fun k => d k ∨ ∃ a ∈ l, D a k) (l.foldl f s) := by
  induction l generalizing d s with
  | nil => simpa using hs
  | cons a l ih =>
    have hnext := ih (fun b hb => hf b (mem_cons_of_mem a hb)) (hf a mem_cons_self d s hs)
    simpa [or_assoc] using hnext

theorem holds_foldlM_range {f : σ → Nat → Except ε σ} {E : ε → Prop} (I : Nat → σ → Prop) {n : Nat}
    {s : σ} (hs : I 0 s) (hf : ∀ i < n, ∀ t, I i t → Holds (f t i) (I (i + 1)) E) :
    Holds ((range n).foldlM f s) (I n) E := by
  induction n with
  | zero => simpa using hs
  | succ n ih =>
    rw [range_succ, foldlM_append, holds_bind]
    refine (ih fun i hi => hf i (by omega)).imp fun t ht => ?_
    simpa using hf n (by omega) t ht

end Drain
