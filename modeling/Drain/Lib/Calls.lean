import Drain.Lib.Holds

/-! Objects that answer calls. A call may be made in the states in which it is valid, and it may
fail; a run is a sequence of valid calls that succeed. -/

namespace Drain

universe u v w

structure Calls (σ : Type v) (ι : Type w) (ε : Type u) where
  valid : σ → ι → Prop
  call : σ → ι → Except ε σ

namespace Calls

variable {σ : Type v} {ι : Type w} {ε : Type u} (m : Calls σ ι ε) {s t : σ}

def Step (s t : σ) : Prop := ∃ c, m.valid s c ∧ m.call s c = .ok t

def Runs : σ → σ → Prop := Relation.ReflTransGen m.Step

theorem Runs.refl (s : σ) : m.Runs s s := Relation.ReflTransGen.refl

variable {m}

theorem Runs.keeps {I : σ → Prop} (hI : ∀ s c t, I s → m.valid s c → m.call s c = .ok t → I t)
    (h : m.Runs s t) (hs : I s) : I t := by
  induction h with
  | refl => exact hs
  | tail _ hstep ih =>
    obtain ⟨c, hvalid, hcall⟩ := hstep
    exact hI _ c _ ih hvalid hcall

theorem Runs.monotone {I : σ → Prop} {f : σ → Nat}
    (hI : ∀ s c t, I s → m.valid s c → m.call s c = .ok t → I t)
    (hf : ∀ s c t, I s → m.valid s c → m.call s c = .ok t → f s ≤ f t)
    (h : m.Runs s t) (hs : I s) : f s ≤ f t := by
  have hboth : I t ∧ f s ≤ f t := by
    refine h.keeps (I := fun u => I u ∧ f s ≤ f u) ?_ ⟨hs, le_rfl⟩
    rintro u c v ⟨hu, hle⟩ hvalid hcall
    exact ⟨hI u c v hu hvalid hcall, hle.trans (hf u c v hu hvalid hcall)⟩
  exact hboth.2

section Perform

variable (m) [∀ s c, Decidable (m.valid s c)]

def perform : List ι → σ → Option σ
  | [], s => some s
  | c :: cs, s =>
    if m.valid s c then
      match m.call s c with
      | .ok t => perform cs t
      | .error _ => none
    else none

variable {m}

theorem runs_of_perform {cs : List ι} (h : m.perform cs s = some t) : m.Runs s t := by
  induction cs generalizing s with
  | nil =>
    cases h
    exact .refl m _
  | cons c cs ih =>
    unfold perform at h
    split at h
    · next hvalid =>
      split at h
      · next hcall => exact Relation.ReflTransGen.head ⟨c, hvalid, hcall⟩ (ih h)
      · cases h
    · cases h

theorem exists_run {Q : σ → Prop} [DecidablePred Q] (cs : List ι)
    (h : (m.perform cs s).any (fun t => decide (Q t)) = true) : ∃ t, m.Runs s t ∧ Q t := by
  cases hrun : m.perform cs s with
  | none => simp [hrun] at h
  | some t =>
    rw [hrun] at h
    exact ⟨t, runs_of_perform hrun, of_decide_eq_true h⟩

end Perform

end Calls

end Drain
