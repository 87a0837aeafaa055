import Drain.Control

/-! Pending wakeups in scheduled runs, and the window between the halt of the
network and its drain. -/

namespace Drain

open Function List Nat State Core

/-- A request for a later tick that is in the set is still pending. -/
structure Agenda.Ok (curCycle : Nat) (a : Agenda) : Prop where
  future : ∀ t ∈ a.events, curCycle ≤ t
  recorded : ∀ t ∈ a.events, t ∈ a.scheduledWakeups
  pending : ∀ t ∈ a.scheduledWakeups, curCycle < t → t ∈ a.events
  nodup : a.events.Nodup

def Agenda.Woke (curCycle : Nat) (a : Agenda) : Prop :=
  curCycle ∈ a.scheduledWakeups ∧ curCycle ∉ a.events

inductive Agenda.Grows (curCycle : Nat) (a : Agenda) : Agenda → Prop
  | refl : Grows curCycle a a
  | schedule {b : Agenda} {t : Nat} : Grows curCycle a b → curCycle ≤ t →
      Grows curCycle a (b.schedule curCycle t)

namespace Agenda

variable {curCycle t t' : Nat} {a b c : Agenda}

theorem mem_schedule (h : t' ∈ a.events) : t' ∈ (a.schedule curCycle t).events := by
  unfold schedule
  dsimp only
  split
  · exact h
  · exact mem_cons_of_mem t h

theorem Ok.mem_schedule_self (h : a.Ok curCycle) (ht : curCycle < t) :
    t ∈ (a.schedule curCycle t).events := by
  unfold schedule
  dsimp only
  split
  · next hmem => exact h.pending t hmem ht
  · exact mem_cons_self

theorem Ok.schedule (h : a.Ok curCycle) (ht : curCycle ≤ t) : (a.schedule curCycle t).Ok curCycle := by
  unfold Agenda.schedule
  by_cases hmem : t ∈ a.scheduledWakeups
  · simp only [hmem, if_true]
    refine ⟨h.future, fun t' ht' => ?_, fun t' ht' hlt => ?_, h.nodup⟩
    · simpa using ⟨h.recorded t' ht', h.future t' ht'⟩
    · exact h.pending t' (mem_of_mem_filter ht') hlt
  · simp only [hmem, if_false]
    refine ⟨fun t' ht' => ?_, fun t' ht' => ?_, fun t' ht' hlt => ?_, ?_⟩
    · rcases mem_cons.mp ht' with rfl | ht'
      · exact ht
      · exact h.future t' ht'
    · rcases mem_cons.mp ht' with rfl | ht'
      · simpa using ht
      · simpa using ⟨.inr (h.recorded t' ht'), h.future t' ht'⟩
    · have hset : t' ∈ t :: a.scheduledWakeups := (mem_filter.mp ht').1
      rcases mem_cons.mp hset with rfl | ht'
      · exact mem_cons_self
      · exact mem_cons_of_mem t (h.pending t' ht' hlt)
    · exact nodup_cons.mpr ⟨fun hev => hmem (h.recorded t hev), h.nodup⟩

theorem woke_schedule_iff (ht : curCycle ≤ t) : (a.schedule curCycle t).Woke curCycle ↔ a.Woke curCycle := by
  unfold Agenda.Woke Agenda.schedule
  by_cases hmem : t ∈ a.scheduledWakeups
  · simp [hmem]
  · by_cases hcur : curCycle = t
    · subst hcur
      simp [hmem]
    · simp [hmem, hcur]

theorem Ok.pop (h : a.Ok curCycle) : (a.pop curCycle).Ok curCycle ∧ curCycle ∉ (a.pop curCycle).events := by
  refine ⟨⟨fun t ht => h.future t (mem_of_mem_erase ht),
    fun t ht => h.recorded t (mem_of_mem_erase ht), fun t ht hlt => ?_, h.nodup.erase _⟩, ?_⟩
  · exact (mem_erase_of_ne hlt.ne').mpr (h.pending t ht hlt)
  · exact h.nodup.not_mem_erase

theorem mem_pop (h : t ∈ a.events) (hne : t ≠ curCycle) : t ∈ (a.pop curCycle).events :=
  (mem_erase_of_ne hne).mpr h

theorem Ok.tick (h : a.Ok curCycle) (hcur : curCycle ∉ a.events) :
    a.Ok (curCycle + 1) ∧ ¬a.Woke (curCycle + 1) := by
  refine ⟨⟨fun t ht => ?_, h.recorded, fun t ht hlt => h.pending t ht (by omega), h.nodup⟩,
    fun hwoke => hwoke.2 (h.pending _ hwoke.1 (lt_succ_self _))⟩
  exact lt_of_le_of_ne (h.future t ht) fun heq => hcur (heq ▸ ht)

section

variable (h : Grows curCycle a b)
include h

theorem Grows.trans (h' : Grows curCycle b c) : Grows curCycle a c := by
  induction h' with
  | refl => exact h
  | schedule _ ht ih => exact ih.schedule ht

theorem Grows.ok (ha : a.Ok curCycle) : b.Ok curCycle := by
  induction h with
  | refl => exact ha
  | schedule _ ht ih => exact ih.schedule ht

theorem Grows.mem (ha : t ∈ a.events) : t ∈ b.events := by
  induction h with
  | refl => exact ha
  | schedule _ _ ih => exact mem_schedule ih

theorem Grows.woke_iff : b.Woke curCycle ↔ a.Woke curCycle := by
  induction h with
  | refl => rfl
  | schedule _ ht ih => rw [woke_schedule_iff ht, ih]

end

end Agenda

def EventsOk (net : Net) (s : Core) : Prop := ∀ k ∈ net.consumers, (s.agenda k).Ok s.curCycle

def Action.consumer : Action → Option Consumer
  | .router r => some (.router r)
  | .ni n _ => some (.ni n)
  | .link l => some (.link l)
  | .creditLink l => some (.creditLink l)
  | .message _ _ _ | .dequeueCallback _ | .tick => none

section Grows

variable {net : Net} {s t : Core} {a : Action} {r : Nat}

theorem Core.scheduleEventAbsolute_grows {k : Consumer} {time : Nat} (h : s.curCycle ≤ time) :
    ∀ k', Agenda.Grows s.curCycle (s.agenda k') ((s.scheduleEventAbsolute k time).agenda k') := by
  intro k'
  change Agenda.Grows _ _ (update s.agenda k _ k')
  by_cases hk : k' = k
  · subst hk
    rw [update_self]
    exact .schedule .refl h
  · rw [update_of_ne hk]
    exact .refl

theorem Move.grows {op : Op} (h : Move net op s t) :
    ∀ k, Agenda.Grows s.curCycle (s.agenda k) (t.agenda k) := by
  have hlater {k : Consumer} {c : Core} {d : Nat} (hcur : c.curCycle = s.curCycle)
      (hagenda : c.agenda = s.agenda) :
      ∀ k', Agenda.Grows s.curCycle (s.agenda k') ((c.scheduleEvent k d).agenda k') := by
    rw [← hcur, ← hagenda]
    exact scheduleEventAbsolute_grows (le_add_right _ _)
  cases h with
  | receive =>
    split
    · exact fun _ => .refl
    · exact hlater rfl rfl
  | grant => exact hlater rfl rfl
  | cross => exact hlater rfl rfl
  | wake ht => exact scheduleEventAbsolute_grows ht.le
  | send => exact hlater rfl rfl
  | link => exact hlater rfl rfl
  | creditLink => exact hlater rfl rfl
  | _ => exact fun _ => .refl

theorem Trace.grows {ops : List Op} (h : Trace (Move net) ops s t) :
    ∀ k, Agenda.Grows s.curCycle (s.agenda k) (t.agenda k) := by
  refine (h.keeps (I := fun u => u.curCycle = s.curCycle ∧
    ∀ k, Agenda.Grows s.curCycle (s.agenda k) (u.agenda k)) ?_ ⟨rfl, fun _ => .refl⟩).2
  rintro _ _ u v hmove ⟨hcur, hgrows⟩
  have hstep := hmove.grows
  rw [hcur] at hstep
  exact ⟨hmove.curCycle_eq.trans hcur, fun k => (hgrows k).trans (hstep k)⟩

theorem Core.scheduleAllWakeup_grows (net : Net) (k : Nat) (s : Core) :
    ∀ c, Agenda.Grows s.curCycle (s.agenda c) ((s.scheduleAllWakeup net k).agenda c) := by
  intro c
  unfold scheduleAllWakeup
  cases c with
  | router r =>
    dsimp only
    split
    · exact .schedule .refl (le_add_right _ _)
    · exact .refl
  | _ => exact .refl

theorem Spins.released_agenda (h : Spins net (s.drainStart net) t) : (t.released net).agenda =
    (s.scheduleAllWakeup net (spinDelay net)).agenda := by rw [h.released_frame]

theorem SpinPhase.grows (h : SpinPhase net r s t) :
    t.curCycle = s.curCycle ∧ ∀ k, Agenda.Grows s.curCycle (s.agenda k) (t.agenda k) := by
  cases h with
  | skip => exact ⟨rfl, fun _ => .refl⟩
  | halt =>
    exact ⟨rfl, scheduleAllWakeup_grows net 3
      { s.setHalt net true with haltLog := s.curCycle :: s.haltLog }⟩
  | drain _ _ _ hspins =>
    refine ⟨?_, ?_⟩
    · rw [hspins.released_frame]
      rfl
    · rw [hspins.released_agenda]
      exact scheduleAllWakeup_grows net _ s

theorem Performed.grows (h : Performed net s a t) (ha : a ≠ .tick) : t.curCycle = s.curCycle ∧
    ∀ k, Agenda.Grows s.curCycle
      (if a.consumer = some k then (s.agenda k).pop s.curCycle else s.agenda k) (t.agenda k) := by
  have hpop (k k' : Consumer) : (popEvent k s).agenda k' =
      if some k = some k' then (s.agenda k').pop s.curCycle else s.agenda k' := by
    change update s.agenda k _ k' = _
    by_cases hk : k' = k
    · subst hk
      rw [update_self, if_pos rfl]
    · rw [update_of_ne hk, if_neg (by simpa using Ne.symm hk)]
  have hafter {k : Consumer} {ops : List Op} {m : Core}
      (htrace : Trace (Move net) ops (popEvent k s) m) (k' : Consumer) : Agenda.Grows s.curCycle
        (if some k = some k' then (s.agenda k').pop s.curCycle else s.agenda k') (m.agenda k') := by
    rw [← hpop]
    exact htrace.grows k'
  cases h with
  | @router r m₁ m₂ _ hread hspin halloc =>
    obtain ⟨ops₁, htrace₁, _⟩ := hread.trace
    obtain ⟨ops₂, htrace₂, _⟩ := halloc.trace
    obtain ⟨hcur, hgrows⟩ := hspin.grows
    have hcur₁ : m₁.curCycle = s.curCycle := htrace₁.curCycle_eq
    refine ⟨htrace₂.curCycle_eq.trans (hcur.trans hcur₁), fun k => ?_⟩
    have hlast := htrace₂.grows k
    rw [hcur, hcur₁] at hlast
    exact ((hafter htrace₁ k).trans (hcur₁ ▸ hgrows k)).trans hlast
  | ni htrace _ => exact ⟨htrace.curCycle_eq, hafter htrace⟩
  | link hmove => exact ⟨hmove.curCycle_eq, hafter (.single hmove)⟩
  | linkIdle _ => exact ⟨rfl, hafter (.nil _)⟩
  | creditLink hmove => exact ⟨hmove.curCycle_eq, hafter (.single hmove)⟩
  | creditLinkIdle _ => exact ⟨rfl, hafter (.nil _)⟩
  | message htrace _ => exact ⟨htrace.curCycle_eq, htrace.grows⟩
  | dequeueCallback htrace _ => exact ⟨htrace.curCycle_eq, htrace.grows⟩
  | tick => exact absurd rfl ha

theorem State.Reachable.eventsOk {s : State} (h : s.Reachable net) : EventsOk net s.toCore := by
  refine h.induct (fun _ _ _ => ⟨nofun, nofun, nofun, nodup_nil⟩) ?_
  intro s a t _ _ hsched hstep hs k hk
  by_cases ha : a = .tick
  · subst ha
    cases hstep
    exact ((hs k hk).tick (hsched k hk)).1
  · obtain ⟨hcur, hgrows⟩ := hstep.grows ha
    rw [hcur]
    refine (hgrows k).ok ?_
    split
    · exact (hs k hk).pop.1
    · exact hs k hk

end Grows

/-- The network was halted in cycle `k` and every router still has to wake up in cycle `k + 3`. -/
structure HaltedSince (net : Net) (s : Core) (k : Nat) : Prop where
  lock : s.lock ≠ none
  window : k ≤ s.curCycle ∧ s.curCycle ≤ k + 3
  epoch : 0 < k ∧ k % net.spinThrshld = 0
  pending : ∀ r < net.numRouters, k + 3 ∈ s.events (.router r)

structure HaltWindow (net : Net) (s : Core) : Prop where
  halts : ∀ k ∈ s.haltLog, 0 < k ∧ k % net.spinThrshld = 0 ∧
    (k + 3 ∈ s.drainLog ∨ HaltedSince net s k)
  locked : s.lock ≠ none → net.spin = true ∧ ∃ k ∈ s.haltLog, HaltedSince net s k

section Window

variable {net : Net} {s t : Core} {k k' r : Nat}

section

variable (h : HaltedSince net s k)
include h

theorem HaltedSince.mod_eq (hT : 4 ≤ net.spinThrshld) :
    s.curCycle % net.spinThrshld = s.curCycle - k := by
  obtain ⟨hle, hge⟩ := h.window
  have hsplit : s.curCycle = s.curCycle - k + k := by omega
  rw [hsplit, add_mod, h.epoch.2, add_zero, mod_mod, mod_eq_of_lt (by omega)]
  omega

theorem HaltedSince.le : net.spinThrshld ≤ k :=
  le_of_dvd h.epoch.1 (dvd_of_mod_eq_zero h.epoch.2)

theorem HaltedSince.releaseTime_iff (hT : 4 ≤ net.spinThrshld) :
    releaseTime net s ↔ s.curCycle = k + 3 := by
  have hmod := h.mod_eq hT
  have hle := h.le
  obtain ⟨hwindow, hwindow'⟩ := h.window
  refine ⟨fun hrelease => ?_, fun hcur => ⟨by omega, by omega, h.lock⟩⟩
  have := hrelease.2.1
  omega

theorem HaltedSince.later (hcur : t.curCycle = s.curCycle)
    (hlock : t.lock = s.lock) (hpending : ∀ r < net.numRouters, k + 3 ∈ t.events (.router r)) :
    HaltedSince net t k :=
  ⟨hlock ▸ h.lock, hcur ▸ h.window, h.epoch, hpending⟩

end

theorem Net.router_mem_consumers (hr : r < net.numRouters) : Consumer.router r ∈ net.consumers := by
  simp [Net.consumers, hr]

theorem HaltedSince.tick (h : HaltedSince net s k)
    (hidle : ∀ c ∈ net.consumers, s.curCycle ∉ s.events c) :
    HaltedSince net { s with curCycle := s.curCycle + 1 } k := by
  obtain ⟨hle, hge⟩ := h.window
  have hne : s.curCycle ≠ k + 3 := fun heq =>
    hidle _ (Net.router_mem_consumers net.numRouters_pos) (heq ▸ h.pending 0 net.numRouters_pos)
  refine ⟨h.lock, ⟨le_succ_of_le hle, ?_⟩, h.epoch, h.pending⟩
  change s.curCycle + 1 ≤ k + 3
  omega

section

variable (h : HaltWindow net s)
include h

theorem HaltWindow.tick (hidle : ∀ c ∈ net.consumers, s.curCycle ∉ s.events c) :
    HaltWindow net { s with curCycle := s.curCycle + 1 } := by
  refine ⟨fun k hk => ?_, fun hlock => ?_⟩
  · obtain ⟨hpos, hmod, hdone⟩ := h.halts k hk
    exact ⟨hpos, hmod, hdone.imp_right fun hsince => hsince.tick hidle⟩
  · obtain ⟨hspin, k, hk, hsince⟩ := h.locked hlock
    exact ⟨hspin, k, hk, hsince.tick hidle⟩

theorem HaltWindow.later (hsame : SameControl s t)
    (hpending : ∀ k, HaltedSince net s k → ∀ r < net.numRouters, k + 3 ∈ t.events (.router r)) :
    HaltWindow net t := by
  have hsince {k : Nat} (hk : HaltedSince net s k) : HaltedSince net t k :=
    hk.later hsame.curCycle hsame.lock (hpending k hk)
  refine ⟨fun k hk => ?_, fun hlock => ?_⟩
  · rw [hsame.haltLog] at hk
    obtain ⟨hpos, hmod, hdone⟩ := h.halts k hk
    refine ⟨hpos, hmod, ?_⟩
    rw [hsame.drainLog]
    exact hdone.imp_right hsince
  · rw [hsame.lock] at hlock
    obtain ⟨hspin, k, hk, hsince'⟩ := h.locked hlock
    exact ⟨hspin, k, hsame.haltLog ▸ hk, hsince hsince'⟩

theorem HaltWindow.halt {m : Core} (hsame : SameControl s m)
    (hev : EventsOk net m) (hspin : net.spin = true) (hepoch : epochStart net m)
    (hlock : m.lock = none) : HaltWindow net (m.halted net r) := by
  have hsince : HaltedSince net (m.halted net r) m.curCycle := by
    refine ⟨nofun, ⟨le_rfl, le_add_right _ 3⟩, hepoch, fun r' hr' => ?_⟩
    have hok := hev _ (Net.router_mem_consumers hr')
    have hmem := hok.mem_schedule_self (Nat.lt_add_of_pos_right (show 0 < 3 by decide))
    change _ ∈ (if r' < net.numRouters then _ else _ : Agenda).events
    rw [if_pos hr']
    exact hmem
  refine ⟨fun k hk => ?_, fun _ => ⟨hspin, m.curCycle, mem_cons_self, hsince⟩⟩
  rcases mem_cons.mp hk with rfl | hk
  · exact ⟨hepoch.1, hepoch.2, .inr hsince⟩
  · obtain ⟨hpos, hmod, hdone⟩ := h.halts k (hsame.haltLog ▸ hk)
    refine ⟨hpos, hmod, .inl ?_⟩
    change _ ∈ m.drainLog
    rw [hsame.drainLog]
    exact hdone.resolve_right fun hk => hk.lock (hsame.lock ▸ hlock)

theorem HaltWindow.drain {m : Core} (hsame : SameControl s m)
    (hT : 4 ≤ net.spinThrshld) (hrelease : releaseTime net s)
    (hspins : Spins net (m.drainStart net) t) : HaltWindow net (t.released net) := by
  rw [hspins.released_frame]
  refine ⟨fun k hk => ?_, fun hlock => absurd rfl hlock⟩
  obtain ⟨hpos, hmod, hdone⟩ := h.halts k (hsame.haltLog ▸ hk)
  refine ⟨hpos, hmod, .inl ?_⟩
  change _ ∈ m.curCycle :: m.drainLog
  rw [hsame.curCycle, hsame.drainLog]
  rcases hdone with hdone | hsince
  · exact mem_cons_of_mem _ hdone
  · rw [← (hsince.releaseTime_iff hT).mp hrelease]
    exact mem_cons_self

end

theorem releaseTime_congr (hsame : SameControl s t) :
    releaseTime net t ↔ releaseTime net s := by
  unfold releaseTime
  rw [hsame.curCycle, hsame.lock]

theorem EventsOk.grows (h : EventsOk net s) (hcur : t.curCycle = s.curCycle)
    (hgrows : ∀ k, Agenda.Grows s.curCycle (s.agenda k) (t.agenda k)) : EventsOk net t :=
  fun k hk => hcur ▸ (hgrows k).ok (h k hk)

theorem EventsOk.popEvent (h : EventsOk net s) (k : Consumer) :
    EventsOk net (popEvent k s) := by
  intro k' hk'
  change (update s.agenda k ((s.agenda k).pop s.curCycle) k').Ok s.curCycle
  by_cases hk : k' = k
  · subst hk
    rw [update_self]
    exact (h k' hk').pop.1
  · rw [update_of_ne hk]
    exact h k' hk'

theorem mem_popEvent {k k' : Consumer} {time : Nat} (h : time ∈ s.events k')
    (hne : k' = k → time ≠ s.curCycle) : time ∈ (popEvent k s).events k' := by
  change time ∈ (update s.agenda k ((s.agenda k).pop s.curCycle) k').events
  by_cases hk : k' = k
  · subst hk
    rw [update_self]
    exact Agenda.mem_pop h (hne rfl)
  · rw [update_of_ne hk]
    exact h

theorem HaltWindow.router (h : HaltWindow net s) (hT : 4 ≤ net.spinThrshld) (hev : EventsOk net s)
    (hstep : Performed net s (.router r) t) : HaltWindow net t := by
  cases hstep with
  | @router _ m₁ m₂ _ hread hspin halloc =>
    obtain ⟨ops₁, htrace₁, _⟩ := hread.trace
    obtain ⟨ops₂, htrace₂, _⟩ := halloc.trace
    have hsame : SameControl s m₁ := (popEvent_control s _).trans htrace₁.control
    have hlast (h₂ : HaltWindow net m₂) : HaltWindow net t :=
      h₂.later htrace₂.control fun k hk r' hr' => (htrace₂.grows _).mem (hk.pending r' hr')
    refine hlast ?_
    cases hspin with
    | skip _ hskip =>
      refine h.later hsame fun k hk r' hr' => (htrace₁.grows _).mem ?_
      refine mem_popEvent (hk.pending r' hr') fun _ hcur => hskip ⟨(h.locked hk.lock).1, ?_⟩
      exact (releaseTime_congr hsame).mpr ((hk.releaseTime_iff hT).mpr hcur.symm)
    | halt hspin hepoch hlock =>
      exact h.halt hsame ((hev.popEvent _).grows htrace₁.curCycle_eq htrace₁.grows) hspin hepoch hlock
    | drain _ hrelease _ hspins =>
      exact h.drain hsame hT ((releaseTime_congr hsame).mp hrelease) hspins

theorem State.Reachable.haltWindow {s : State} (h : s.Reachable net) (hT : 4 ≤ net.spinThrshld) :
    HaltWindow net s.toCore := by
  refine h.induct (fun _ => ⟨nofun, fun hlock => absurd rfl hlock⟩) ?_
  intro s a t hreach _ hsched hstep hs
  have hother (ha : ∀ r, a.consumer ≠ some (.router r)) (hne : a ≠ .tick) : HaltWindow net t := by
    obtain ⟨hcur, hgrows⟩ := hstep.grows hne
    rcases hstep.control_cases with ⟨r, _, _, rfl, _⟩ | hsame | ⟨rfl, _⟩
    · exact absurd rfl (ha r)
    · refine hs.later hsame fun k hk r hr => (hgrows (.router r)).mem ?_
      rw [if_neg (ha r)]
      exact hk.pending r hr
    · exact absurd rfl hne
  cases a with
  | router r => exact hs.router hT hreach.eventsOk hstep
  | tick =>
    cases hstep
    exact hs.tick hsched
  | _ => exact hother (fun _ => nofun) nofun

/-- When the period is at least 4, a halt lasts for three cycles: once the wakeups of
cycle `k + 3` are over the drain has been made and the network is released. -/
theorem halt_ends_with_drain {s : State} (hT : 4 ≤ net.spinThrshld) (h : s.Reachable net) :
    (∀ k ∈ s.haltLog, net.spinThrshld ∣ k ∧
      (k + 3 ≤ s.curCycle → (∀ r < net.numRouters, k + 3 ∉ s.events (.router r)) →
        k + 3 ∈ s.drainLog ∧ (s.curCycle < k + net.spinThrshld →
          s.lock = none ∧ ∀ r < net.numRouters, s.halt r = false))) ∧
    (s.lock ≠ none → ∃ k ∈ s.haltLog, k ≤ s.curCycle ∧ s.curCycle ≤ k + 3 ∧
      ∀ r < net.numRouters, k + 3 ∈ s.events (.router r)) := by
  have hwindow := h.haltWindow hT
  refine ⟨fun k hk => ?_, fun hlock => ?_⟩
  · obtain ⟨_, hmod, hdone⟩ := hwindow.halts k hk
    refine ⟨dvd_of_mod_eq_zero hmod, fun hpast hover => ⟨?_, fun hcur => ?_⟩⟩
    · exact hdone.resolve_right fun hsince => hover 0 net.numRouters_pos (hsince.pending 0 net.numRouters_pos)
    · have hfree : s.lock = none := by
        by_contra hlock
        obtain ⟨_, k', hk', hsince⟩ := hwindow.locked hlock
        obtain ⟨hle, hge⟩ := hsince.window
        have hkk : k' = k := by
          have hsub : (k' - k) % net.spinThrshld = 0 :=
            sub_mod_eq_zero_of_mod_eq (hsince.epoch.2.trans hmod.symm)
          rw [mod_eq_of_lt (by omega)] at hsub
          omega
        exact hover 0 net.numRouters_pos (hkk ▸ hsince.pending 0 net.numRouters_pos)
      rcases h.free.wf.2 with ⟨_, hhalt⟩ | ⟨id, _, hlock, _⟩
      · exact ⟨hfree, hhalt⟩
      · rw [hfree] at hlock
        cases hlock
  · obtain ⟨_, k, hk, hsince⟩ := hwindow.locked hlock
    exact ⟨k, hk, hsince.window.1, hsince.window.2, hsince.pending⟩

end Window

theorem halt_ends_with_drain_pairNet : ∃ s : State,
    s.Reachable (pairNet 1 4) ∧ s.lock ≠ none ∧
      4 ≤ (pairNet 1 4).spinThrshld ∧
      ∃ k ∈ s.haltLog, k ≤ s.curCycle ∧ s.curCycle ≤ k + 3 ∧
        ∀ r < (pairNet 1 4).numRouters, k + 3 ∈ s.events (.router r) := by
  obtain ⟨s, hreach, hlock, _⟩ := haltActions_run
  have hlock' : s.lock ≠ none := by simp [hlock]
  exact ⟨s, hreach, hlock', le_rfl, (halt_ends_with_drain le_rfl hreach).2 hlock'⟩

/-- With period 1 every cycle starts an epoch: both routers have woken up three cycles
after the halt, there was no drain, and the network is still halted. -/
theorem halt_never_ends_pairNet : ∃ s : State,
    s.Reachable (pairNet 1 1) ∧ s.haltLog = [4] ∧ s.curCycle = 7 ∧
      7 ∉ s.events (.router 0) ∧ 7 ∉ s.events (.router 1) ∧ s.drainLog = [] ∧ s.lock = some 0 ∧
      s.halt 0 = true ∧ s.halt 1 = true := by
  exact exists_reachable
    (haltActions ++ [.tick, .router 0, .tick, .router 0, .tick, .router 0, .router 1])
    (fun _ => 0) (by decide +kernel)

end Drain
