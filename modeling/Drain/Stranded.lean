import Drain.Ejection

/-! Whether something will wake a network interface for its stalled messages. A stalled message
relies on a dequeue from its own buffer, but it may have been stalled for another reason than the
want of room there. -/

namespace Drain

open Function List Bool

namespace System

/-- The next wakeup of the interface finds the flit, stalled or arriving. -/
def Waits (t : System) (n : Nat) (f : Flit) : Prop :=
  f ∈ t.state.stallQueue n ∨
    ∃ rest, t.state.linkBuffer (.extOut n) = f :: rest ∧ f.time ≤ t.state.curCycle

def Full (t : System) (n vnet : Nat) : Prop := (t.outNode n vnet).isEmpty = false

/-- The messages that wait and have room are all of one virtual network, and no message was
popped from a buffer for which one waits since the cycle began. -/
structure Undivided (t : System) (n : Nat) : Prop where
  room : ∀ f g, t.Waits n f → t.Waits n g → t.slots n t.state.curCycle f.vnet = true →
    t.slots n t.state.curCycle g.vnet = true → f.vnet = g.vnet
  unpopped : ∀ f, t.Waits n f → (t.outNode n f.vnet).timeLastTimePop < t.state.curCycle

section Wakeup

variable {net : Net} {n curTime v : Nat} {t t' : System} {f g : Flit} {rest : List Flit}

theorem full_setEntry {w : Nat} {b : MessageBuffer Flit}
    (hb : (t.outNode n v).isEmpty = false → b.isEmpty = false) (h : t.Full n w) :
    { t with outNode := setEntry t.outNode n v b }.Full n w := by
  change (setEntry t.outNode n v b n w).isEmpty = false
  rw [setEntry_apply]
  split
  · next hw => exact hb (hw.2 ▸ h)
  · exact h

theorem full_enqueue (t : System) (n : Nat) (f : Flit) (curTime : Nat) :
    ((t.enqueue n f curTime).sendCredit n f true).Full n f.vnet := by
  change (setEntry t.outNode n f.vnet _ n f.vnet).isEmpty = false
  rw [setEntry_self]
  exact MessageBuffer.enqueue_isEmpty _ _ _ _

theorem Full.enqueue (h : t.Full n v) (f : Flit) (curTime : Nat) :
    ((t.enqueue n f curTime).sendCredit n f true).Full n v :=
  full_setEntry (fun _ => MessageBuffer.enqueue_isEmpty _ _ _ _) h

theorem Full.stall (h : t.Full n v) (f : Flit) : (t.stall n f).Full n v := full_setEntry id h

theorem full_unstall (h : ((t.enqueue n f curTime).sendCredit n f true).Full n v) :
    (t.unstall n f rest curTime).Full n v := by
  unfold unstall
  dsimp only
  split
  · exact full_setEntry id h
  · exact h

theorem checkStallQueue_full (h : (t.checkStallQueue n curTime).1 = true) :
    ∃ f ∈ t.state.stallQueue n, t.slots n curTime f.vnet = true ∧
      (t.checkStallQueue n curTime).2.Full n f.vnet ∧
      (∀ v, t.Full n v → (t.checkStallQueue n curTime).2.Full n v) ∧
      ∀ g, (t.checkStallQueue n curTime).2.Waits n g → t.Waits n g := by
  unfold checkStallQueue at h ⊢
  rw [checkStalled_eq] at h ⊢
  cases hfind : (t.state.stallQueue n).find? fun f => t.slots n curTime f.vnet with
  | none => simp [hfind] at h
  | some f =>
    refine ⟨f, mem_of_find?_eq_some hfind, by simpa using find?_some hfind,
      full_unstall (full_enqueue t n f curTime), fun v hv => full_unstall (hv.enqueue f curTime), ?_⟩
    rintro g (hg | hg)
    · dsimp only at hg
      rw [unstall_state] at hg
      simp only [State.on, update_self] at hg
      exact .inl (mem_of_mem_eraseP hg)
    · dsimp only at hg
      rw [unstall_state] at hg
      exact .inr hg

/-- A flit that is left after the arrivals was there before, or it has arrived and found no room
or another message enqueued before. -/
theorem receiveFlit_full {messageEnqueued : Bool} (h : t.receiveFlit n curTime messageEnqueued = .ok t') :
    (∀ v, t.Full n v → t'.Full n v) ∧ ∀ g ∈ t'.state.stallQueue n, t.Waits n g ∧
      (g ∈ t.state.stallQueue n ∨ (messageEnqueued = false → t.slots n curTime g.vnet = false)) := by
  unfold receiveFlit at h
  split at h
  · next hready =>
    obtain ⟨f, rest, hbuf, htime⟩ := isReady_iff.mp hready
    simp only [hbuf, getTopFlit, ok_bind] at h
    obtain ⟨_, _, h⟩ := bind_eq_ok.mp h
    split at h
    · cases h
      exact ⟨fun v hv => Full.enqueue (t := { t with
        state := t.state.on fun c => { c with linkBuffer := update c.linkBuffer (.extOut n) rest }
        arrived := update t.arrived n (t.arrived n ++ [f]) }) hv f curTime, fun g hg => ⟨.inl hg, .inl hg⟩⟩
    · next hroom =>
      cases h
      refine ⟨fun v hv => Full.stall (t := { t with
        state := t.state.on fun c => { c with linkBuffer := update c.linkBuffer (.extOut n) rest }
        arrived := update t.arrived n (t.arrived n ++ [f]) }) hv f, fun g hg => ?_⟩
      have hg : g ∈ t.state.stallQueue n ++ [f] := by
        simpa [stall, setStalled, State.on] using hg
      rcases mem_append.mp hg with hg | hg
      · exact ⟨.inl hg, .inl hg⟩
      · obtain rfl := mem_singleton.mp hg
        refine ⟨.inr ⟨rest, hbuf, htime⟩, .inr fun hfirst => ?_⟩
        change ¬(!messageEnqueued && t.slots n curTime g.vnet) = true at hroom
        simpa [hfirst] using hroom
  · cases h
    exact ⟨fun v hv => hv, fun g hg => ⟨.inl hg, .inl hg⟩⟩

theorem Waits.of_ejecting {s : State} (hs : s.ejecting = t.state.ejecting)
    (h : { t with state := s }.Waits n f) : t.Waits n f := by
  have hqueue : s.stallQueue = t.state.stallQueue := congrArg EjectFields.stallQueue hs
  have hlink : s.linkBuffer = t.state.linkBuffer := congrArg EjectFields.linkBuffer hs
  have hcur : s.curCycle = t.state.curCycle := congrArg EjectFields.curCycle hs
  unfold Waits at h ⊢
  rwa [hqueue, hlink, hcur] at h

/-- If all that waits and has room is of one virtual network, then whatever a wakeup leaves stalled
has a message before it in its buffer, whose dequeue will wake the interface. -/
theorem Undivided.wakeup (h : t.Undivided n) (hwakeup : t.wakeup net n = .ok t') :
    ∀ f ∈ t'.state.stallQueue n, t'.Full n f.vnet := by
  obtain ⟨s, u, s', hinject, hu, hs', rfl⟩ := wakeup_ejects hwakeup
  have hqueue : s'.stallQueue = u.state.stallQueue := congrArg EjectFields.stallQueue hs'
  intro g hg
  change g ∈ s'.stallQueue n at hg
  rw [hqueue] at hg
  change u.Full n g.vnet
  have hwaits {f : Flit} (hf : { t with state := s }.Waits n f) : t.Waits n f := hf.of_ejecting hinject
  have hfull {f : Flit} (hf : t.Waits n f) (hslot : t.slots n t.state.curCycle f.vnet = false) :
      t.Full n f.vnet := MessageBuffer.isEmpty_of_full hslot (h.unpopped f hf)
  obtain ⟨hmono, hleft⟩ := receiveFlit_full hu
  obtain ⟨hg, hstalled⟩ := hleft g hg
  by_cases hfirst : ({ t with state := s }.checkStallQueue n t.state.curCycle).1 = true
  · obtain ⟨f, hf, hslot, hnow, hkeep, hback⟩ := checkStallQueue_full hfirst
    have hg := hwaits (hback g hg)
    by_cases hroom : t.slots n t.state.curCycle g.vnet = true
    · -- it was passed over for a message of its own virtual network
      rw [h.room g f hg (hwaits (.inl hf)) hroom hslot]
      exact hmono _ hnow
    · exact hmono _ (hkeep _ (hfull hg (eq_false_iff.mpr hroom)))
  · have hfirst := eq_false_iff.mpr hfirst
    obtain ⟨hsame, hnone⟩ := checkStallQueue_none n t.state.curCycle { t with state := s } hfirst
    rw [hsame] at hmono hg hstalled
    refine hmono _ (hfull (hwaits hg) ?_)
    rcases hstalled with hmem | hslot
    · exact hnone g hmem
    · exact hslot hfirst

/-- After a wakeup that finds the waiting messages undivided, each message left in the stall queue
has a message in its buffer or a wakeup pending. -/
theorem stalled_not_stranded (h : t.Undivided n) (hwakeup : t.perform net (.ni n) = .ok t') :
    ∀ f ∈ t'.state.stallQueue n, (t'.outNode n f.vnet).isEmpty = false ∨
      ∃ c, t'.state.curCycle < c ∧ c ∈ t'.state.events (.ni n) := by
  have hpop : { t with state := t.state.on (State.popEvent (.ni n)) }.Undivided n :=
    ⟨h.room, h.unpopped⟩
  exact fun f hf => .inl (hpop.wakeup hwakeup f hf)

end Wakeup

section Examples

def stallsAlone (net : Net) (t : System) : Bool :=
  (t.state.stallQueue 0).isEmpty && (t.state.linkBuffer (.extOut 0)).map Flit.vnet == [0] &&
    decide ((t.outNode 0 0).timeLastTimePop < t.state.curCycle) &&
    match t.perform net (.ni 0) with
    | .ok t' => (t'.state.stallQueue 0).length == 1
    | .error _ => false

theorem stallingRun_stallsAlone : ∃ t : System,
    t.Reachable (pairNet 1 100) (fun _ _ => 1) ∧
      stallsAlone (pairNet 1 100) t = true :=
  exists_reachable stallingRun.dropLast (fun _ => 0) (by decide +kernel)

theorem stalled_not_stranded_pairNet : ∃ t t' : System,
    t.Reachable (pairNet 1 100) (fun _ _ => 1) ∧ t.Undivided 0 ∧
      t.perform (pairNet 1 100) (.ni 0) = .ok t' ∧
      (t'.state.stallQueue 0).length = 1 ∧ ∀ f ∈ t'.state.stallQueue 0,
        (t'.outNode 0 f.vnet).isEmpty = false ∨
          ∃ c, t'.state.curCycle < c ∧ c ∈ t'.state.events (.ni 0) := by
  obtain ⟨t, ht, hstalls⟩ := stallingRun_stallsAlone
  simp only [stallsAlone, and_eq_true, beq_iff_eq, List.isEmpty_iff, decide_eq_true_eq] at hstalls
  obtain ⟨⟨⟨hempty, hlink⟩, hpop⟩, hwakeup⟩ := hstalls
  have hvnet {f : Flit} (hf : t.Waits 0 f) : f.vnet = 0 := by
    rcases hf with hf | ⟨rest, hbuf, _⟩
    · simp [hempty] at hf
    · simpa [hbuf] using congrArg List.head? hlink
  have hundivided : t.Undivided 0 :=
    ⟨fun f g hf hg _ _ => (hvnet hf).trans (hvnet hg).symm, fun f hf => by rwa [hvnet hf]⟩
  split at hwakeup
  · next t' hstep =>
    exact ⟨t, t', ht, hundivided, hstep, by simpa using hwakeup, stalled_not_stranded hundivided hstep⟩
  · cases hwakeup

/-- The second message of virtual network 0 is dequeued just when the first of virtual network 1
arrives, which is then stalled before an empty buffer. -/
def strandingRun : List SystemAction :=
  stallingRun ++ [.network (.link (.extIn 0)), .network .tick, .network (.router 0), .network .tick,
    .protocol 0 0 .dequeue, .network (.link (.extOut 0)), .network (.creditLink (.extIn 0)),
    .network .tick]

/-- The state after the wakeup of node 0 has a stalled message, room for it, and nothing that would
wake the node. -/
def strands (net : Net) (t : System) : Bool :=
  match t.perform net (.ni 0) with
  | .ok t' => (t'.state.stallQueue 0).map Flit.vnet == [1] && (t'.outNode 0 1).isEmpty &&
      t'.slots 0 t'.state.curCycle 1 && t'.state.events (.ni 0) == []
  | .error _ => false

theorem strandingRun_strands : ∃ t : System,
    t.Reachable (pairNet 1 100) (fun _ _ => 1) ∧
      (t.state.curCycle ∈ t.state.events (.ni 0) ∧
        strands (pairNet 1 100) t = true) :=
  exists_reachable strandingRun (fun _ => 0) (by decide +kernel)

theorem stalled_stranded_pairNet : ∃ t t' : System,
    t.Reachable (pairNet 1 100) (fun _ _ => 1) ∧
      t.scheduled (pairNet 1 100) (.ni 0) ∧
      t.perform (pairNet 1 100) (.ni 0) = .ok t' ∧
      ∃ f ∈ t'.state.stallQueue 0, t'.slots 0 t'.state.curCycle f.vnet = true ∧
        (t'.outNode 0 f.vnet).isEmpty = true ∧ t'.state.events (.ni 0) = [] := by
  obtain ⟨t, ht, hscheduled, hstrands⟩ := strandingRun_strands
  unfold strands at hstrands
  split at hstrands
  · next t' hwakeup =>
    simp only [and_eq_true, beq_iff_eq] at hstrands
    obtain ⟨⟨⟨hqueue, hempty⟩, hslot⟩, hevents⟩ := hstrands
    obtain ⟨f, hqueue, hvnet⟩ := map_eq_singleton_iff.mp hqueue
    exact ⟨t, t', ht, hscheduled, hwakeup, f, by simp [hqueue], hvnet ▸ hslot, hvnet ▸ hempty, hevents⟩
  · cases hstrands

end Examples

end System

end Drain
