import Drain.Lib.Calls

/-! `Clocked`: an object that converts ticks to the cycles of its clock domain. The next clock edge
and its cycle are kept and brought up to date by whichever call comes next; a change of the period
keeps the edge that was computed with the old one. -/

namespace Drain

open Nat

inductive ClockFailure where
  | zeroPeriod
  deriving DecidableEq

structure Clocked where
  curTick : Nat := 0
  clockPeriod : Nat
  tick : Nat := 0
  cycle : Nat := 0
  deriving DecidableEq

def divCeil (a b : Nat) : Nat := (a + b - 1) / b

inductive ClockCall where
  | advance (ticks : Nat)
  | clockEdge (cycles : Nat)
  | curCycle
  | updateClockPeriod
  | setClockPeriod (period : Nat)

namespace Clocked

variable (s : Clocked)

def init (clockPeriod : Nat) : Clocked where
  clockPeriod := clockPeriod

def update : Clocked :=
  if s.curTick ≤ s.tick then s
  else
    let s := { s with tick := s.tick + s.clockPeriod, cycle := s.cycle + 1 }
    if s.curTick ≤ s.tick then s
    else
      let elapsedCycles := divCeil (s.curTick - s.tick) s.clockPeriod
      { s with
        cycle := s.cycle + elapsedCycles
        tick := s.tick + elapsedCycles * s.clockPeriod }

def clockEdge (cycles : Nat) : Nat := s.update.tick + s.update.clockPeriod * cycles

def curCycle : Nat := s.update.cycle

/-- `SrcClockDomain::clockPeriod`, for a member of the source domain or of one derived from it,
whose period is `clockDivider` times that of the source. -/
def setClockPeriod (clockDivider period : Nat) : Except ClockFailure Clocked := do
  require (period ≠ 0) .zeroPeriod
  pure { s.update with clockPeriod := period * clockDivider }

def call (clockDivider : Nat) : ClockCall → Except ClockFailure Clocked
  | .advance ticks => pure { s with curTick := s.curTick + ticks }
  | .clockEdge _ | .curCycle | .updateClockPeriod => pure s.update
  | .setClockPeriod period => s.setClockPeriod clockDivider period

def calls (clockDivider : Nat) (may : Clocked → Nat → Prop) :
    Calls Clocked ClockCall ClockFailure where
  valid s
    | .setClockPeriod period => 0 < period ∧ may s (period * clockDivider)
    | .advance _ | .clockEdge _ | .curCycle | .updateClockPeriod => True
  call s := s.call clockDivider

instance (clockDivider : Nat) (may : Clocked → Nat → Prop) [∀ s p, Decidable (may s p)]
    (s : Clocked) (c : ClockCall) : Decidable ((calls clockDivider may).valid s c) :=
  match c with
  | .setClockPeriod period => inferInstanceAs (Decidable (0 < period ∧ may s (period * clockDivider)))
  | .advance _ | .clockEdge _ | .curCycle | .updateClockPeriod => inferInstanceAs (Decidable True)

def anyPeriod (_ : Clocked) (_ : Nat) : Prop := True

/-- A change after which the next clock edge is less than the new period away. -/
def keepsEdgeNear (s : Clocked) (period : Nat) : Prop := s.update.tick < s.curTick + period

def samePeriod (s : Clocked) (period : Nat) : Prop := period = s.clockPeriod

instance (s : Clocked) (p : Nat) : Decidable (s.anyPeriod p) := inferInstanceAs (Decidable True)

instance (s : Clocked) (p : Nat) : Decidable (s.keepsEdgeNear p) :=
  inferInstanceAs (Decidable (_ < _))

variable {s} {t : Clocked} {c : ClockCall} {clockDivider : Nat} {may : Clocked → Nat → Prop}

def elapsed (s : Clocked) : Nat := (s.curTick - s.tick) ⌈/⌉ s.clockPeriod

theorem divCeil_eq (a b : Nat) : divCeil a b = a ⌈/⌉ b := (ceilDiv_eq_add_pred_div a b).symm

theorem elapsed_of_le (h : s.curTick ≤ s.tick) : s.elapsed = 0 := by
  unfold elapsed
  rw [Nat.sub_eq_zero_of_le h, zero_ceilDiv]

section

variable (hpos : 0 < s.clockPeriod)
include hpos

theorem elapsed_of_lt (h : s.tick < s.curTick) :
    s.elapsed = 1 + (s.curTick - (s.tick + s.clockPeriod)) ⌈/⌉ s.clockPeriod := by
  unfold elapsed
  rw [ceilDiv_eq_add_pred_div, ceilDiv_eq_add_pred_div]
  by_cases hone : s.curTick ≤ s.tick + s.clockPeriod
  · -- less than two periods minus one tick, and not less than one
    rw [Nat.sub_eq_zero_of_le hone, Nat.div_eq_of_lt (a := 0 + s.clockPeriod - 1) (by omega)]
    exact Nat.div_eq_of_lt_le (by omega) (by omega)
  · rw [add_comm 1, ← add_div_right _ hpos]
    congr 1
    omega

theorem update_eq :
    s.update =
      { s with cycle := s.cycle + s.elapsed, tick := s.tick + s.elapsed * s.clockPeriod } := by
  unfold update
  split
  · next h => simp [elapsed_of_le h]
  · next h =>
    rw [elapsed_of_lt hpos (by omega)]
    dsimp only
    split
    · next hone => simp [Nat.sub_eq_zero_of_le hone]
    · rw [divCeil_eq]
      simp [add_mul, add_assoc]

theorem le_elapsed_mul :
    s.curTick ≤ s.tick + s.elapsed * s.clockPeriod := by
  have hle : s.curTick - s.tick ≤ s.clockPeriod * s.elapsed :=
    (ceilDiv_le_iff_le_mul hpos).mp le_rfl
  rw [mul_comm]
  omega

theorem elapsed_mul_lt (h : s.tick < s.curTick + s.clockPeriod) :
    s.tick + s.elapsed * s.clockPeriod < s.curTick + s.clockPeriod := by
  by_cases hle : s.curTick ≤ s.tick
  · simpa [elapsed_of_le hle] using h
  · have hlt : s.clockPeriod * (s.elapsed - 1) < s.curTick - s.tick := by
      by_contra hge
      have hone := (ceilDiv_le_iff_le_mul hpos).mpr (not_lt.mp hge)
      have heq := elapsed_of_lt hpos (not_le.mp hle)
      change s.elapsed ≤ s.elapsed - 1 at hone
      omega
    have hsplit : s.elapsed * s.clockPeriod = s.clockPeriod * (s.elapsed - 1) + s.clockPeriod := by
      have heq := elapsed_of_lt hpos (not_le.mp hle)
      rw [mul_comm, ← mul_succ]
      congr 1
      omega
    omega

theorem curCycle_eq : s.curCycle = s.cycle + s.elapsed := by
  rw [curCycle, update_eq hpos]

theorem update_clockPeriod :
    s.update.clockPeriod = s.clockPeriod := by rw [update_eq hpos]

theorem curTick_le_update : s.curTick ≤ s.update.tick := by
  rw [update_eq hpos]
  exact le_elapsed_mul hpos

end

theorem curCycle_of_le (h : s.curTick ≤ s.tick) : s.curCycle = s.cycle := by
  rw [curCycle, update, if_pos h]

/-- What a call can do: time passes, the object is brought up to date, or it is brought up to date
with the old period and then has a new one. -/
theorem call_cases (hdiv : 0 < clockDivider) (hvalid : (calls clockDivider may).valid s c)
    (hcall : (calls clockDivider may).call s c = .ok t) :
    (∃ ticks, t = { s with curTick := s.curTick + ticks }) ∨ t = s.update ∨
      ∃ period, 0 < period ∧ may s period ∧ t = { s.update with clockPeriod := period } := by
  cases c with
  | advance ticks =>
    cases hcall
    exact .inl ⟨ticks, rfl⟩
  | clockEdge _ | curCycle | updateClockPeriod =>
    cases hcall
    exact .inr (.inl rfl)
  | setClockPeriod period =>
    obtain ⟨_, _, hset⟩ := bind_eq_ok.mp hcall
    cases hset
    exact .inr (.inr ⟨_, Nat.mul_pos hvalid.1 hdiv, hvalid.2, rfl⟩)

theorem call_pos (hdiv : 0 < clockDivider) (hpos : 0 < s.clockPeriod)
    (hvalid : (calls clockDivider may).valid s c)
    (hcall : (calls clockDivider may).call s c = .ok t) : 0 < t.clockPeriod := by
  obtain ⟨ticks, rfl⟩ | rfl | ⟨period, hperiod, _, rfl⟩ := call_cases hdiv hvalid hcall
  · exact hpos
  · rwa [update_clockPeriod hpos]
  · exact hperiod

theorem call_curCycle_le (hdiv : 0 < clockDivider) (hpos : 0 < s.clockPeriod)
    (hvalid : (calls clockDivider may).valid s c)
    (hcall : (calls clockDivider may).call s c = .ok t) : s.curCycle ≤ t.curCycle := by
  have hupdate := curTick_le_update hpos
  obtain ⟨ticks, rfl⟩ | rfl | ⟨period, _, _, rfl⟩ := call_cases hdiv hvalid hcall
  · rw [curCycle_eq hpos, curCycle_eq (s := { s with curTick := s.curTick + ticks }) hpos]
    refine Nat.add_le_add_left ((gc_mul_ceilDiv hpos).monotone_l ?_) _
    dsimp only
    omega
  · rw [curCycle_of_le (s := s.update) (by rwa [update_eq hpos] at hupdate ⊢)]
    exact le_rfl
  · rw [curCycle_of_le (s := { s.update with clockPeriod := period })
      (by rwa [update_eq hpos] at hupdate ⊢)]
    exact le_rfl

def Near (s : Clocked) : Prop := 0 < s.clockPeriod ∧ s.tick < s.curTick + s.clockPeriod

theorem Near.update (h : s.Near) : s.update.Near := by
  rw [update_eq h.1]
  exact ⟨h.1, elapsed_mul_lt h.1 h.2⟩

theorem Near.call (hdiv : 0 < clockDivider) (h : s.Near)
    (hvalid : (calls clockDivider keepsEdgeNear).valid s c)
    (hcall : (calls clockDivider keepsEdgeNear).call s c = .ok t) : t.Near := by
  obtain ⟨ticks, rfl⟩ | rfl | ⟨period, hperiod, hmay, rfl⟩ := call_cases hdiv hvalid hcall
  · exact ⟨h.1, by have := h.2; dsimp only; omega⟩
  · exact h.update
  · refine ⟨hperiod, ?_⟩
    have hnear : s.update.tick < s.curTick + period := hmay
    rwa [update_eq h.1] at hnear ⊢

theorem Near.clockEdge (h : s.Near) (cycles : Nat) :
    s.curTick + s.clockPeriod * cycles ≤ s.clockEdge cycles ∧
      s.clockEdge cycles < s.curTick + s.clockPeriod + s.clockPeriod * cycles := by
  unfold Clocked.clockEdge
  rw [update_eq h.1]
  exact ⟨Nat.add_le_add_right (le_elapsed_mul h.1) _,
    Nat.add_lt_add_right (elapsed_mul_lt h.1 h.2) _⟩

structure Aligned (period : Nat) (s : Clocked) : Prop where
  clockPeriod : s.clockPeriod = period
  tick : s.tick = s.cycle * period
  near : s.Near

theorem Aligned.update {period : Nat} (h : s.Aligned period) : s.update.Aligned period := by
  refine ⟨(update_clockPeriod h.near.1).trans h.clockPeriod, ?_, h.near.update⟩
  rw [update_eq h.near.1]
  dsimp only
  rw [h.tick, h.clockPeriod, add_mul]

theorem Aligned.call {period : Nat} (hdiv : 0 < clockDivider) (h : s.Aligned period)
    (hvalid : (calls clockDivider samePeriod).valid s c)
    (hcall : (calls clockDivider samePeriod).call s c = .ok t) : t.Aligned period := by
  obtain ⟨ticks, rfl⟩ | rfl | ⟨period', hperiod, rfl, rfl⟩ := call_cases hdiv hvalid hcall
  · exact ⟨h.clockPeriod, h.tick, h.near.1, by have := h.near.2; dsimp only; omega⟩
  · exact h.update
  · have hsame : { s.update with clockPeriod := s.clockPeriod } = s.update := by
      rw [update_eq h.near.1]
    rw [hsame]
    exact h.update

theorem Aligned.curCycle {period : Nat} (h : s.Aligned period) :
    s.curCycle = s.curTick ⌈/⌉ period := by
  have hpos := h.near.1
  have hle := le_elapsed_mul hpos
  have hlt := elapsed_mul_lt hpos h.near.2
  rw [h.tick, h.clockPeriod] at hle hlt
  rw [h.clockPeriod] at hpos
  rw [curCycle_eq h.near.1]
  refine le_antisymm ?_ ((ceilDiv_le_iff_le_mul hpos).mpr ?_)
  · by_contra hgt
    have hmul := mul_le_mul_right period (not_le.mp hgt)
    have hceil := (ceilDiv_le_iff_le_mul hpos).mp (le_refl (s.curTick ⌈/⌉ period))
    rw [succ_mul, add_mul] at hmul
    rw [mul_comm] at hceil
    omega
  · rw [mul_add, mul_comm period, mul_comm period]
    exact hle

/-- The clock of an object in a domain that starts with the period `P`. The cycle never decreases;
the documented window of `clockEdge` holds while every change of the period leaves the next edge
less than the new period away; with a constant period the cycle is the rounded up quotient. -/
theorem clocked_edges {P : Nat} (hdiv : 0 < clockDivider) (hP : 0 < P) :
    (∀ s t, (calls clockDivider anyPeriod).Runs (init P) s →
        (calls clockDivider anyPeriod).Runs s t → s.curCycle ≤ t.curCycle) ∧
      (∀ s, (calls clockDivider keepsEdgeNear).Runs (init P) s → ∀ n,
        s.curTick + s.clockPeriod * n ≤ s.clockEdge n ∧
          s.clockEdge n < s.curTick + s.clockPeriod + s.clockPeriod * n) ∧
      ∀ s, (calls clockDivider samePeriod).Runs (init P) s → s.curCycle = s.curTick ⌈/⌉ P := by
  have hnear : (init P).Near := ⟨hP, by simpa [init] using hP⟩
  refine ⟨fun s t hs ht => ?_, fun s hs n => ?_, fun s hs => ?_⟩
  · have hpos : ∀ s c t, 0 < s.clockPeriod → (calls clockDivider anyPeriod).valid s c →
        (calls clockDivider anyPeriod).call s c = .ok t → 0 < t.clockPeriod :=
      fun _ _ _ hs hvalid hcall => call_pos hdiv hs hvalid hcall
    exact ht.monotone hpos (fun _ _ _ hs hvalid hcall => call_curCycle_le hdiv hs hvalid hcall)
      (hs.keeps (I := fun s => 0 < s.clockPeriod) hpos hP)
  · exact (hs.keeps (fun _ _ _ hs hvalid hcall => hs.call hdiv hvalid hcall) hnear).clockEdge n
  · have haligned : (init P).Aligned P := ⟨rfl, by simp [init], hnear⟩
    exact (hs.keeps (fun _ _ _ hs hvalid hcall => hs.call hdiv hvalid hcall) haligned).curCycle

/-- From a period of 10 to one of 4 in the middle of a cycle, 3 ticks before the edge. -/
theorem clocked_edges_ten_to_four : ∃ s, (calls 1 keepsEdgeNear).Runs (init 10) s ∧
    s.curTick = 8 ∧ s.clockPeriod = 4 ∧ 8 + 4 * 2 ≤ s.clockEdge 2 ∧ s.clockEdge 2 < 8 + 4 + 4 * 2 := by
  obtain ⟨s, hrun, htick, hperiod⟩ := Calls.exists_run (m := calls 1 keepsEdgeNear) (s := init 10)
    (Q := fun s => s.curTick = 8 ∧ s.clockPeriod = 4)
    [.advance 7, .setClockPeriod 4, .advance 1] (by decide)
  have hedge := (clocked_edges (by decide) (by decide)).2.1 s hrun 2
  rw [htick, hperiod] at hedge
  exact ⟨s, hrun, htick, hperiod, hedge⟩

/-- From a period of 10 to one of 4 just after an edge: the edge of the old period stays the next
one, 9 ticks away. -/
theorem clockEdge_late_ten_to_four : ∃ s, (calls 1 anyPeriod).Runs (init 10) s ∧
    s.curTick = 1 ∧ s.clockPeriod = 4 ∧ ¬s.clockEdge 0 < s.curTick + s.clockPeriod :=
  Calls.exists_run (m := calls 1 anyPeriod) (s := init 10)
    (Q := fun s => s.curTick = 1 ∧ s.clockPeriod = 4 ∧ ¬s.clockEdge 0 < s.curTick + s.clockPeriod)
    [.advance 1, .setClockPeriod 4] (by decide)

end Clocked

end Drain
