import Drain.Phases

/-! The lock and the halts in every run, whatever wakes up when. -/

namespace Drain

open List Nat State

section Base

variable {net : Net} {s s' : State} {c t : Core} {a : Action}

theorem Wf.tick (h : Wf net c) : Wf net { c with curCycle := c.curCycle + 1 } := by
  refine ⟨h.dirns, fun l v => ?_, fun l v => ?_, fun x f hf => ?_, h.credits, h.messages,
    h.allocator⟩
  · obtain ⟨hbuf, htime, hout⟩ := h.vcs l v
    exact ⟨hbuf, le_succ_of_le htime, hout⟩
  · obtain ⟨htime, hmax, hcredit⟩ := h.outvc l v
    exact ⟨le_succ_of_le htime, hmax, hcredit⟩
  · obtain ⟨hplace, hwf, hok⟩ := h.flits x f (by cases x <;> exact hf)
    refine ⟨hplace, hwf, ?_⟩
    cases x with
    | niVc n v => exact ⟨hok.1, le_succ_of_le hok.2⟩
    | vc l v => exact ⟨hok.1, le_succ_of_le hok.2.1, hok.2.2⟩
    | switch r i =>
      exact ⟨hok.1, le_succ_of_le hok.2.1, le_succ_of_le hok.2.2.1, hok.2.2.2⟩
    | _ => trivial

theorem Performed.wf (h : Performed net c a t) (hc : Wf net c) : Wf net t := by
  cases h with
  | router hread hspin halloc =>
    obtain ⟨_, htrace, _⟩ := halloc.trace
    exact (hspin.wf (hread.wf (hc.popEvent _))).trace htrace
  | ni htrace _ => exact (hc.popEvent _).trace htrace
  | link hmove => exact (hc.popEvent _).move hmove
  | linkIdle _ => exact hc.popEvent _
  | creditLink hmove => exact (hc.popEvent _).move hmove
  | creditLinkIdle _ => exact hc.popEvent _
  | message htrace _ => exact hc.trace htrace
  | dequeueCallback htrace _ => exact hc.trace htrace
  | tick => exact hc.tick

theorem popEvent_control (c : Core) (k : Consumer) : SameControl c (popEvent k c) :=
  ⟨rfl, rfl, rfl, rfl, rfl⟩

theorem Performed.control_cases (h : Performed net c a t) :
    (∃ r m₁ m₂, a = .router r ∧ SameControl c m₁ ∧ SpinPhase net r m₁ m₂ ∧ SameControl m₂ t) ∨
    SameControl c t ∨ (a = .tick ∧ t = { c with curCycle := c.curCycle + 1 }) := by
  have hpop (k : Consumer) := popEvent_control c k
  cases h with
  | @router r m₁ m₂ _ hread hspin halloc =>
    obtain ⟨_, htrace, _⟩ := halloc.trace
    exact .inl ⟨r, m₁, m₂, rfl, (hpop _).trans hread.control, hspin, htrace.control⟩
  | ni htrace _ => exact .inr (.inl ((hpop _).trans htrace.control))
  | link hmove => exact .inr (.inl ((hpop _).trans hmove.control))
  | linkIdle _ => exact .inr (.inl (hpop _))
  | creditLink hmove => exact .inr (.inl ((hpop _).trans hmove.control))
  | creditLinkIdle _ => exact .inr (.inl (hpop _))
  | message htrace _ => exact .inr (.inl htrace.control)
  | dequeueCallback htrace _ => exact .inr (.inl htrace.control)
  | tick => exact .inr (.inr ⟨rfl, rfl⟩)

theorem Performed.keeps_control (h : Performed net s.toCore a t) (ha : s.valid net a)
    (hc : Control net s.toCore) : Control net t := by
  rcases h.control_cases with ⟨r, m₁, m₂, rfl, hbefore, hspin, hafter⟩ | hsame | ⟨_, rfl⟩
  · exact (hspin.keeps_control ha (hc.congr hbefore)).congr hafter
  · exact hc.congr hsame
  · exact hc

theorem init_wf (net : Net) (random : Nat → Nat) : Wf net (init net random).toCore := by
  refine ⟨?_, fun _ _ => ⟨.inl ⟨rfl, rfl⟩, zero_le _, rfl, rfl⟩, fun _ v => ⟨le_rfl, rfl, ?_⟩,
    fun x f hf => ?_, fun _ => ⟨nofun, nofun⟩, nofun, fun _ _ => net.vcsPerVnet_pos⟩
  · exact ⟨id, .inl⟩
  · have hpos : (0 : Int) < net.maxCreditCount v := Int.natCast_pos.mpr (net.maxCreditCount_pos v)
    exact fun _ => ⟨hpos.le, fun _ => hpos⟩
  · cases x <;> cases hf

theorem State.Reachable.free (h : s.Reachable net) : s.FreeReachable net := by
  obtain ⟨random, hrun⟩ := h
  exact ⟨random, Relation.ReflTransGen.mono (fun _ _ ⟨a, hvalid, _, hstep⟩ => ⟨a, hvalid, hstep⟩) _ _ hrun⟩

theorem State.FreeReachable.wf (h : s.FreeReachable net) :
    Wf net s.toCore ∧ Control net s.toCore := by
  obtain ⟨random, hrun⟩ := h
  induction hrun with
  | refl => exact ⟨init_wf net random, .inl ⟨rfl, fun _ _ => rfl⟩⟩
  | tail _ hstep ih =>
    obtain ⟨a, hvalid, hperform⟩ := hstep
    have hdone := (perform_spec ih.1 ih.2 hvalid).of_ok hperform
    exact ⟨hdone.wf ih.1, hdone.keeps_control hvalid ih.2⟩

theorem State.FreeReachable.induct {I : Core → Prop} (h : s.FreeReachable net)
    (hinit : ∀ random, I (init net random).toCore)
    (hstep : ∀ (s : State) a t, s.FreeReachable net → s.valid net a →
      Performed net s.toCore a t → I s.toCore → I t) : I s.toCore := by
  obtain ⟨random, hrun⟩ := h
  induction hrun with
  | refl => exact hinit random
  | @tail s₁ s₂ hrun hperform ih =>
    obtain ⟨a, hvalid, hperform⟩ := hperform
    have hreach : s₁.FreeReachable net := ⟨random, hrun⟩
    obtain ⟨hwf, hc⟩ := hreach.wf
    exact hstep s₁ a _ hreach hvalid ((perform_spec hwf hc hvalid).of_ok hperform) ih

theorem State.Reachable.induct {I : Core → Prop} (h : s.Reachable net)
    (hinit : ∀ random, I (init net random).toCore)
    (hstep : ∀ (s : State) a t, s.Reachable net → s.valid net a → s.scheduled net a →
      Performed net s.toCore a t → I s.toCore → I t) : I s.toCore := by
  obtain ⟨random, hrun⟩ := h
  induction hrun with
  | refl => exact hinit random
  | @tail s₁ s₂ hrun hperform ih =>
    obtain ⟨a, hvalid, hscheduled, hperform⟩ := hperform
    have hreach : s₁.Reachable net := ⟨random, hrun⟩
    obtain ⟨hwf, hc⟩ := hreach.free.wf
    exact hstep s₁ a _ hreach hvalid hscheduled ((perform_spec hwf hc hvalid).of_ok hperform) ih

theorem State.Reachable.run {actions : List Action} (hs : s.Reachable net)
    (h : runActions net actions s = some s') : s'.Reachable net := by
  induction actions generalizing s with
  | nil =>
    cases h
    exact hs
  | cons a actions ih =>
    unfold runActions at h
    split at h
    · next hok =>
      split at h
      · next s₁ hperform =>
        obtain ⟨random, hrun⟩ := hs
        exact ih ⟨random, hrun.tail ⟨a, hok.1, hok.2, hperform⟩⟩ h
      · cases h
    · cases h

theorem State.exists_reachable {P : State → Prop} [DecidablePred P] (actions : List Action)
    (random : Nat → Nat)
    (h : ((runActions net actions (init net random)).map fun s => decide (P s)) =
      some true) : ∃ s : State, s.Reachable net ∧ P s := by
  obtain ⟨s, hs, heq⟩ := Option.map_eq_some_iff.mp h
  exact ⟨s, State.Reachable.run ⟨random, .refl⟩ hs, of_decide_eq_true heq⟩

end Base

/-- The drains so far were in different epochs, and none in the epoch of a held lock. -/
structure Epochs (net : Net) (s : Core) : Prop where
  past : ∀ d ∈ s.drainLog, d ≤ s.curCycle ∧ d % net.spinThrshld ≠ 0
  locked : s.lock ≠ none → ∀ d ∈ s.drainLog, d / net.spinThrshld < s.curCycle / net.spinThrshld
  nodup : (s.drainLog.map (· / net.spinThrshld)).Nodup

section Control

variable {net : Net} {s : State} {c m t : Core}

theorem Epochs.congr (h : Epochs net c) (hsame : SameControl c t) : Epochs net t :=
  ⟨by rw [hsame.drainLog, hsame.curCycle]; exact h.past,
    by rw [hsame.drainLog, hsame.curCycle, hsame.lock]; exact h.locked,
    by rw [hsame.drainLog]; exact h.nodup⟩

theorem Epochs.tick (h : Epochs net c) : Epochs net { c with curCycle := c.curCycle + 1 } := by
  refine ⟨fun d hd => ⟨?_, (h.past d hd).2⟩, fun hlock d hd => ?_, h.nodup⟩
  · exact le_succ_of_le (h.past d hd).1
  · exact (h.locked hlock d hd).trans_le (Nat.div_le_div_right (Nat.le_succ _))

theorem Epochs.spin {r : Nat} (h : SpinPhase net r c t) (hc : Epochs net c) : Epochs net t := by
  cases h with
  | skip => exact hc
  | halt _ hepoch _ =>
    refine ⟨hc.past, fun _ d hd => ?_, hc.nodup⟩
    obtain ⟨hle, hmod⟩ := hc.past d hd
    have hlt : d < c.curCycle := lt_of_le_of_ne hle fun heq => hmod (heq ▸ hepoch.2)
    have hcur : net.spinThrshld * (c.curCycle / net.spinThrshld) = c.curCycle :=
      Nat.mul_div_cancel' (Nat.dvd_of_mod_eq_zero hepoch.2)
    exact Nat.div_lt_of_lt_mul (hlt.trans_eq hcur.symm)
  | drain _ hrelease _ hspins =>
    rw [hspins.released_frame]
    have hlocked := hc.locked hrelease.2.2
    refine ⟨fun d hd => ?_, fun h => absurd rfl h, ?_⟩
    · rcases mem_cons.mp hd with rfl | hd
      · exact ⟨le_rfl, by have := hrelease.2.1; omega⟩
      · exact hc.past d hd
    · refine nodup_cons.mpr ⟨fun hmem => ?_, hc.nodup⟩
      obtain ⟨d, hd, heq⟩ := mem_map.mp hmem
      exact (hlocked d hd).ne heq

theorem State.FreeReachable.epochs (h : s.FreeReachable net) : Epochs net s.toCore := by
  refine h.induct (fun _ => ⟨nofun, nofun, nodup_nil⟩) fun s a t _ _ hstep hs => ?_
  rcases hstep.control_cases with ⟨r, m₁, m₂, _, hbefore, hspin, hafter⟩ | hsame | ⟨_, rfl⟩
  · exact ((hs.congr hbefore).spin hspin).congr hafter
  · exact hs.congr hsame
  · exact hs.tick

theorem spinStage_asserts {r : Nat} (hc : Control net s.toCore) (hr : r < net.numRouters) :
    s.spinStage net true r = s.spinStage net false r := by
  unfold spinStage
  split
  · rfl
  · split
    · next hrelease =>
      have hhalt : s.halt r = true := by
        rcases hc with ⟨hlock, _⟩ | ⟨_, _, _, hhalt⟩
        · exact absurd hlock hrelease.2.2
        · exact hhalt r hr
      unfold release
      dsimp only
      rw [assignHalt_eq hhalt, assignHalt_eq hhalt]
    · rfl

theorem routerWakeup_asserts {r : Nat} (hs : Wf net s.toCore) (hc : Control net s.toCore)
    (hr : r < net.numRouters) : s.routerWakeup net true r = s.routerWakeup net false r := by
  rw [routerWakeup_eq, routerWakeup_eq]
  have hread := readPorts_phase hs hr
  cases hports : s.readPorts net r with
  | error x => rfl
  | ok s₁ =>
    rw [hports] at hread
    rw [ok_bind, ok_bind, spinStage_asserts (hc.congr hread.control) hr]

/-- In every state of every run the lock is free and no router is halted, or a router
holds the lock and all are halted. The assertion at the start of an epoch holds, the
assignment in the later assertion changes nothing, and no epoch sees two drains. -/
theorem lock_agrees_with_halts (h : s.FreeReachable net) :
    Control net s.toCore ∧
    (∀ r < net.numRouters, s.perform net (.router r) ≠ .error .lockHeld) ∧
    (∀ r < net.numRouters,
      (s.on (popEvent (.router r))).routerWakeup net true r =
        (s.on (popEvent (.router r))).routerWakeup net false r) ∧
    (s.drainLog.map (· / net.spinThrshld)).Nodup := by
  obtain ⟨hwf, hc⟩ := h.wf
  refine ⟨hc, fun r hr herror => ?_, fun r hr => ?_, h.epochs.nodup⟩
  · have hfails : PerformFails net s.toCore (.router r) .lockHeld :=
      (perform_spec hwf hc (show s.valid net (.router r) from hr)).of_error herror
    cases hfails with
    | read _ hx => exact hx
    | busy hx => cases hx
    | spin _ _ _ _ _ hx => exact hx.1 rfl
    | alloc _ _ _ hx => exact hx
  · exact routerWakeup_asserts (s := s.on (popEvent (.router r))) (hwf.popEvent _) hc hr

end Control

/-- A message of node 0 reaches its router in cycle 4, a multiple of the period. -/
def haltActions : List Action :=
  [.message 0 0 ⟨[1], 2⟩, .tick, .tick, .ni 0 fun _ => true, .tick, .link (.extIn 0), .tick,
    .router 0]

theorem haltActions_run : ∃ s, State.Reachable (pairNet 1 4) s ∧
    s.lock = some 0 ∧ s.curCycle = 4 ∧ s.haltLog = [4] := by
  exact exists_reachable haltActions (fun _ => 0) (by decide +kernel)

theorem lock_agrees_with_halts_pairNet : ∃ s : State,
    s.FreeReachable (pairNet 1 4) ∧ s.lock = some 0 ∧
      Control (pairNet 1 4) s.toCore := by
  obtain ⟨s, hreach, hlock, _⟩ := haltActions_run
  exact ⟨s, hreach.free, hlock, (lock_agrees_with_halts hreach.free).1⟩

end Drain
