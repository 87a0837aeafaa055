import Mathlib

/-! A virtual channel under credit-based flow control, as its sender keeps the books. The sender
claims the channel for one item at a time and pays one credit for the item. Tokens are the items
on their way and the credits on their way back. -/

namespace Drain

@[ext] structure FlowChannel where
  idle : Bool
  credit : Int
  max : Int
  waiting : Nat
  tokens : Nat

namespace FlowChannel

variable {c c' : FlowChannel}

def claimed (c : FlowChannel) : FlowChannel := { c with idle := false, waiting := c.waiting + 1 }

def sent (c : FlowChannel) : FlowChannel :=
  { c with credit := c.credit - 1, waiting := c.waiting - 1, tokens := c.tokens + 1 }

def taken (c : FlowChannel) : FlowChannel :=
  { c with idle := false, credit := c.credit - 1, tokens := c.tokens + 1 }

def returned (c : FlowChannel) : FlowChannel :=
  { c with idle := true, credit := c.credit + 1, tokens := c.tokens - 1 }

inductive Step (c : FlowChannel) : FlowChannel → Prop
  | claim : c.idle = true → Step c c.claimed
  | send : 0 < c.waiting → Step c c.sent
  | take : c.idle = true → Step c c.taken
  | giveBack : 0 < c.tokens → Step c c.returned

structure Balanced (c : FlowChannel) : Prop where
  credit : c.credit + c.tokens = c.max
  single : c.waiting + c.tokens ≤ 1
  idle : c.idle = true ↔ c.waiting + c.tokens = 0

namespace Balanced

theorem step (h : c.Balanced) (hstep : Step c c') : c'.Balanced := by
  have hcredit := h.credit
  have hsingle := h.single
  cases hstep with
  | claim hidle =>
    have hzero := h.idle.mp hidle
    refine ⟨hcredit, ?_, iff_of_false nofun ?_⟩ <;> simp only [claimed] <;> omega
  | send hwaiting =>
    have hbusy : ¬c.idle = true := fun hidle => by
      have hzero := h.idle.mp hidle
      omega
    refine ⟨?_, ?_, iff_of_false hbusy ?_⟩ <;> simp only [sent] <;> omega
  | take hidle =>
    have hzero := h.idle.mp hidle
    refine ⟨?_, ?_, iff_of_false nofun ?_⟩ <;> simp only [taken] <;> omega
  | giveBack htokens =>
    refine ⟨?_, ?_, iff_of_true rfl ?_⟩ <;> simp only [returned] <;> omega

theorem reflGen (h : c.Balanced) (hstep : Relation.ReflGen Step c c') : c'.Balanced := by
  cases hstep with
  | refl => exact h
  | single hstep => exact h.step hstep

theorem credit_lt (h : c.Balanced) (htokens : 0 < c.tokens) : c.credit + 1 ≤ c.max := by
  have := h.credit
  omega

theorem credit_eq (h : c.Balanced) (hidle : c.idle = true) : c.credit = c.max := by
  have hzero := h.idle.mp hidle
  have := h.credit
  omega

end Balanced

end FlowChannel

end Drain
