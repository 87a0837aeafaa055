import Drain.Lib.Holds

/-! Labelled traces: sequences of steps together with the list of their labels,
and computations whose effect is such a sequence. -/

namespace Drain

open List

variable {ι σ : Type*}

inductive Trace (R : ι → σ → σ → Prop) : List ι → σ → σ → Prop
  | nil (s : σ) : Trace R [] s s
  | snoc {ls : List ι} {a : ι} {s t u : σ} : Trace R ls s t → R a t u → Trace R (ls ++ [a]) s u

variable {R : ι → σ → σ → Prop} {ls ls' : List ι} {a : ι} {s t u : σ}

theorem Trace.single (h : R a s t) : Trace R [a] s t := .snoc (.nil s) h

theorem Trace.eq_of_nil (h : Trace R [] s t) : t = s := by
  generalize hls : ([] : List ι) = ls at h
  cases h with
  | nil => rfl
  | snoc => simp at hls

theorem Trace.of_single (h : Trace R [a] s t) : R a s t := by
  generalize hls : [a] = ls at h
  cases h with
  | nil => cases hls
  | @snoc ks b _ u _ h hstep =>
    obtain ⟨rfl, hb⟩ : ks = [] ∧ [b] = [a] := by
      cases ks with
      | nil => exact ⟨rfl, hls.symm⟩
      | cons => simp at hls
    cases hb
    rwa [h.eq_of_nil] at hstep

theorem Trace.append (h : Trace R ls s t) (h' : Trace R ls' t u) : Trace R (ls ++ ls') s u := by
  induction h' with
  | nil => simpa using h
  | snoc _ hstep ih => simpa using (ih h).snoc hstep

theorem Trace.keeps {I : σ → Prop} (hI : ∀ a ∈ ls, ∀ s t, R a s t → I s → I t) (h : Trace R ls s t)
    (hs : I s) : I t := by
  induction h with
  | nil => exact hs
  | snoc _ hstep ih =>
    have hprev := ih (fun b hb => hI b (mem_append_left _ hb)) hs
    exact hI _ (by simp) _ _ hstep hprev

theorem Trace.induct (I : List ι → σ → Prop) (h : Trace R ls s t) (hs : I [] s)
    (hI : ∀ ks a u v, ks ++ [a] <+: ls → R a u v → I ks u → I (ks ++ [a]) v) : I ls t := by
  induction h with
  | nil => exact hs
  | @snoc ks a _ _ _ _ hstep ih =>
    refine hI ks a _ _ prefix_rfl hstep (ih hs fun ks' b u v hb => ?_)
    exact hI ks' b u v (hb.trans (prefix_append ks [a]))

theorem Trace.balance {I : σ → Prop} {m : σ → Nat} {inc dec : ι → Bool}
    (hI : ∀ a ∈ ls, ∀ s t, R a s t → I s → I t ∧ m t + (dec a).toNat = m s + (inc a).toNat)
    (h : Trace R ls s t) (hs : I s) : m t + ls.countP dec = m s + ls.countP inc := by
  have hbalance : I t ∧ m t + ls.countP dec = m s + ls.countP inc := by
    refine h.induct (fun ks u => I u ∧ m u + ks.countP dec = m s + ks.countP inc) ⟨hs, rfl⟩ ?_
    rintro ks a u v hpre hstep ⟨hu, hsum⟩
    obtain ⟨hv, heq⟩ := hI a (hpre.subset (by simp)) u v hstep hu
    refine ⟨hv, ?_⟩
    rw [countP_append, countP_append, countP_singleton, countP_singleton]
    cases hdec : dec a <;> cases hinc : inc a <;> simp [hdec, hinc] at heq ⊢ <;> omega
  exact hbalance.2

theorem Trace.once {I J : σ → Prop} {push : ι → Bool}
    (hI : ∀ a ∈ ls, push a = false → ∀ s t, R a s t → I s → I t)
    (hpush : ∀ a ∈ ls, push a = true → ∀ s t, R a s t → I s → J t)
    (hJ : ∀ a ∈ ls, push a = false → ∀ s t, R a s t → J s → J t)
    (hcount : ls.countP push ≤ 1) (h : Trace R ls s t) (hs : I s) : I t ∨ J t := by
  have hphase : (ls.countP push = 0 ∧ I t) ∨ (ls.countP push = 1 ∧ J t) := by
    refine h.induct (fun ks u => (ks.countP push = 0 ∧ I u) ∨ (ks.countP push = 1 ∧ J u))
      (.inl ⟨rfl, hs⟩) ?_
    intro ks a u v hpre hstep hu
    have ha : a ∈ ls := hpre.subset (by simp)
    have hle : (ks ++ [a]).countP push ≤ 1 := (hpre.sublist.countP_le).trans hcount
    rw [countP_append] at hle ⊢
    cases hpa : push a with
    | false =>
      rw [countP_singleton, hpa]
      rcases hu with ⟨hzero, hu⟩ | ⟨hone, hu⟩
      · exact .inl ⟨by simpa using hzero, hI a ha hpa u v hstep hu⟩
      · exact .inr ⟨by simpa using hone, hJ a ha hpa u v hstep hu⟩
    | true =>
      rw [countP_singleton, hpa] at hle ⊢
      rcases hu with ⟨hzero, hu⟩ | ⟨hone, hu⟩
      · exact .inr ⟨by simp [hzero], hpush a ha hpa u v hstep hu⟩
      · rw [hone] at hle
        exact absurd hle (by decide)
  exact hphase.imp And.right And.right

section Except

universe u v

variable {ι σ : Type*} {R : ι → σ → σ → Prop} {ε : Type u} {α β : Type v} {F : σ → ε → Prop}
  {s : σ} {x : Except ε α} {f : α → Except ε β} {Q Q' : List ι → α → Prop} {out : α → σ}

/-- From `s` the computation makes the steps of a trace with labels as `Q` says, or
it stops with an error after some steps, in a state that explains it by `F`. -/
def Does (R : ι → σ → σ → Prop) (F : σ → ε → Prop) (s : σ) (x : Except ε α) (out : α → σ)
    (Q : List ι → α → Prop) : Prop :=
  Holds x (fun a => ∃ ls, Trace R ls s (out a) ∧ Q ls a) fun e => ∃ ls t, Trace R ls s t ∧ F t e

theorem Does.pure {a : α} (hs : out a = s) (hQ : Q [] a) : Does R F s (.ok a) out Q :=
  ⟨[], hs ▸ .nil _, hQ⟩

theorem Does.error {e : ε} (h : F s e) : Does R F s (.error e : Except ε α) out Q :=
  ⟨[], s, .nil s, h⟩

theorem Does.imp (h : Does R F s x out Q) (hQ : ∀ ls a, Trace R ls s (out a) → Q ls a → Q' ls a) :
    Does R F s x out Q' :=
  Holds.imp h fun a ⟨ls, htrace, hq⟩ => ⟨ls, htrace, hQ ls a htrace hq⟩

theorem Does.after {s₀ : σ} {ls₀ : List ι} (h₀ : Trace R ls₀ s₀ s)
    (h : Does R F s x out fun ls a => Q (ls₀ ++ ls) a) : Does R F s₀ x out Q :=
  Holds.mono h (fun _ _ ⟨ls, htrace, hq⟩ => ⟨ls₀ ++ ls, h₀.append htrace, hq⟩)
    fun _ _ ⟨ls, t, htrace, ht⟩ => ⟨ls₀ ++ ls, t, h₀.append htrace, ht⟩

theorem Does.bind {out' : β → σ} {Q' : List ι → β → Prop} (h : Does R F s x out Q)
    (hf : ∀ ls a, Trace R ls s (out a) → Q ls a →
      Does R F (out a) (f a) out' fun ls' b => Q' (ls ++ ls') b) :
    Does R F s (x >>= f) out' Q' :=
  holds_bind.mpr (Holds.imp h fun a ⟨ls, htrace, hq⟩ => (hf ls a htrace hq).after htrace)

theorem Does.of_require {p : Prop} [Decidable p] {e : ε} {k : PUnit.{v + 1} → Except ε α}
    (h : p → Does R F s (k ⟨⟩) out Q) (he : ¬p → F s e) : Does R F s (require p e >>= k) out Q :=
  holds_bind.mpr (holds_require.mpr ⟨h, fun hp => ⟨[], s, .nil s, he hp⟩⟩)

end Except

end Drain
