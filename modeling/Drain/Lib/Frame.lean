import Drain.Lib.Holds

/-! Frames: a computation that may fail leaves a part of the state alone. `Frames x g b` says that
the part `g` of what `x` returns is `b`. -/

namespace Drain

universe u v w

variable {ε : Type u} {α β σ : Type v} {κ : Type w}

def Frames (x : Except ε α) (g : α → κ) (b : κ) : Prop := Holds x (fun a => g a = b) fun _ => True

@[simp] theorem frames_pure {a : α} {g : α → κ} {b : κ} :
    Frames (pure a : Except ε α) g b ↔ g a = b := Iff.rfl

@[simp] theorem frames_throw {e : ε} {g : α → κ} {b : κ} : Frames (throw e : Except ε α) g b := trivial

theorem frames_bind {x : Except ε α} {f : α → Except ε β} {g : β → κ} {b : κ}
    (hf : ∀ a, Frames (f a) g b) : Frames (x >>= f) g b := by
  unfold Frames
  rw [holds_bind]
  exact (holds_true x).imp fun a _ => hf a

theorem Frames.bind {κ' : Type*} {x : Except ε α} {f : α → Except ε β} {g : α → κ} {b : κ}
    {g' : β → κ'} {b' : κ'} (hx : Frames x g b) (hf : ∀ a, g a = b → Frames (f a) g' b') :
    Frames (x >>= f) g' b' := by
  unfold Frames
  rw [holds_bind]
  exact hx.imp hf

theorem Frames.map {κ' : Type*} {x : Except ε α} {g : α → κ} {b : κ} (hx : Frames x g b) (φ : κ → κ') :
    Frames x (fun a => φ (g a)) (φ b) := hx.imp fun _ => congrArg φ

theorem frames_ite {p : Prop} [Decidable p] {x y : Except ε α} {g : α → κ} {b : κ}
    (hx : Frames x g b) (hy : Frames y g b) : Frames (if p then x else y) g b := by
  split
  · exact hx
  · exact hy

theorem frames_foldlM {f : σ → α → Except ε σ} {g : σ → κ} {b : κ} {l : List α} {s : σ} (hs : g s = b)
    (hf : ∀ t x, g t = b → Frames (f t x) g b) : Frames (l.foldlM f s) g b :=
  holds_foldlM _ l hs fun x _ t ht => hf t x ht

end Drain
