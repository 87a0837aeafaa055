import Drain.Lib.Lane
import Drain.Events

/-! What is on its way between two wakeups. Flits that leave a router and credits between
routers are taken on in time: the consumer that takes an item out wakes up when it is due, and
the switch is empty whenever a router sleeps. -/

namespace Drain

open Function State Net Option Timed

variable {α : Type}

/-- A queue between the consumer that fills it and the one that empties it. -/
structure Hop (α : Type) where
  queue : Core → List α
  due : α → Nat
  delay : Nat
  source : Consumer
  target : Consumer

def Hop.OnTime (h : Hop α) (s : Core) : Prop :=
  Lane h.due h.delay s.curCycle (· ∈ s.events h.target) ((s.agenda h.source).Woke s.curCycle)
    (h.queue s)

section Steps

variable {net : Net} {s t : Core} {a : Action} {k : Consumer} {time : Nat} {h : Hop α} {x : α}

section Awaited

variable (hstep : Performed net s a t) (hne : a ≠ .tick)
  (hsched : ∀ k, a.consumer = some k → s.curCycle ∈ s.events k)

include hstep hne

theorem Performed.mem_events (hmem : time ∈ s.events k)
    (htime : a.consumer = some k → time ≠ s.curCycle) : time ∈ t.events k := by
  refine ((hstep.grows hne).2 k).mem ?_
  split
  · next hk => exact Agenda.mem_pop hmem (htime hk)
  · exact hmem

include hsched

theorem Performed.woke_mono (hwoke : (s.agenda k).Woke s.curCycle) :
    (t.agenda k).Woke t.curCycle := by
  obtain ⟨hcur, hgrows⟩ := hstep.grows hne
  have hk : a.consumer ≠ some k := fun hk => hwoke.2 (hsched k hk)
  have hgrows := hgrows k
  rw [if_neg hk] at hgrows
  rw [hcur]
  exact hgrows.woke_iff.mpr hwoke

theorem Performed.woke_self (hev : EventsOk net s) (hk : a.consumer = some k)
    (hmem : k ∈ net.consumers) : (t.agenda k).Woke t.curCycle := by
  obtain ⟨hcur, hgrows⟩ := hstep.grows hne
  have hgrows := hgrows k
  rw [if_pos hk] at hgrows
  rw [hcur]
  exact hgrows.woke_iff.mpr ⟨(hev k hmem).recorded _ (hsched k hk), ((hev k hmem).pop).2⟩

namespace Hop.OnTime

theorem keep (hl : h.OnTime s) (htarget : a.consumer ≠ some h.target)
    (hq : h.queue t = h.queue s) : h.OnTime t := by
  unfold Hop.OnTime at hl ⊢
  rw [hq, (hstep.grows hne).1]
  exact hl.mono (fun time htime => hstep.mem_events hne htime fun hk => absurd hk htarget)
    fun hwoke => (hstep.grows hne).1 ▸ hstep.woke_mono hne hsched hwoke

theorem push (hl : h.OnTime s) (hev : EventsOk net s) (hsource : a.consumer = some h.source)
    (hmem : h.source ∈ net.consumers) (hends : h.source ≠ h.target)
    (hq : h.queue t = h.queue s ++ [x]) (hx : h.due x = s.curCycle + h.delay)
    (hp : s.curCycle + h.delay ∈ t.events h.target) : h.OnTime t := by
  have hcur := (hstep.grows hne).1
  have htarget : a.consumer ≠ some h.target := fun hk => hends (some.inj (hsource.symm.trans hk))
  have hsent : ¬(s.agenda h.source).Woke s.curCycle := fun hwoke => hwoke.2 (hsched _ hsource)
  have hl' : Lane h.due h.delay s.curCycle (· ∈ t.events h.target)
      ((s.agenda h.source).Woke s.curCycle) (h.queue s) :=
    hl.mono (fun time htime => hstep.mem_events hne htime fun hk => absurd hk htarget) id
  unfold Hop.OnTime
  rw [hq, hcur]
  exact hl'.push hsent hx hp (hcur ▸ hstep.woke_self hne hsched hev hsource hmem)

theorem take (hl : h.OnTime s)
    (hq : (∃ x, h.queue s = x :: h.queue t) ∨
      h.queue t = h.queue s ∧ ∀ x ∈ h.queue s, h.due x ≠ s.curCycle) : h.OnTime t := by
  have hcur := (hstep.grows hne).1
  have hpending : ∀ time, time ≠ s.curCycle → time ∈ s.events h.target → time ∈ t.events h.target :=
    fun time htime hmem => hstep.mem_events hne hmem fun _ => htime
  have hwoke := hcur ▸ hstep.woke_mono (k := h.source) hne hsched
  unfold Hop.OnTime at hl ⊢
  rw [hcur]
  rcases hq with ⟨x, hq⟩ | ⟨hq, hnone⟩
  · rw [hq] at hl
    exact hl.take hpending hwoke
  · rw [hq]
    exact hl.idle hnone hpending hwoke

end Hop.OnTime

end Awaited

theorem Hop.OnTime.tick (hl : h.OnTime s) (hidle : s.curCycle ∉ s.events h.target) (t : Core)
    (ht : t = { s with curCycle := s.curCycle + 1 }) (hq : h.queue t = h.queue s) : h.OnTime t := by
  subst ht
  unfold Hop.OnTime
  rw [hq]
  exact Lane.tick hl hidle

end Steps

def Op.switch : Op → Option Nat
  | .grant r _ _ | .cross r _ => some r
  | _ => none

section Switch

variable {net : Net} {s t m₁ m₂ m₃ : Core} {op : Op} {r i : Nat} {ms gs ws xs : List Op} {l : Link}

theorem Move.switchBuffer_eq (h : Move net op s t) (hne : op.switch ≠ some r) :
    t.switchBuffer r = s.switchBuffer r := by
  have hr {r' : Nat} (h : some r' ≠ some r) : r ≠ r' := fun heq => h (by rw [heq])
  cases h with
  | receive => split <;> rfl
  | grant =>
    funext i
    exact setEntry_of_ne _ _ fun heq => hr hne heq.1
  | cross =>
    funext i
    exact setEntry_of_ne _ _ fun heq => hr hne heq.1
  | _ => rfl

theorem Trace.switchBuffer_eq {ops : List Op} (h : Trace (Move net) ops s t)
    (hne : ∀ op ∈ ops, op.switch ≠ some r) : t.switchBuffer r = s.switchBuffer r :=
  h.keeps (I := fun u => u.switchBuffer r = s.switchBuffer r)
    (fun op hop _ _ hmove hu => (hmove.switchBuffer_eq (hne op hop)).trans hu) rfl

theorem Trace.outBuffer_eq {ops : List Op} (h : Trace (Move net) ops s t)
    (hne : ∀ op ∈ ops, op.out ≠ some l) : t.outBuffer l = s.outBuffer l :=
  h.keeps (I := fun u => u.outBuffer l = s.outBuffer l)
    (fun op hop _ _ hmove hu => (hmove.outBuffer_eq (hne op hop)).trans hu) rfl

theorem Trace.creditQueue_eq {ops : List Op} (h : Trace (Move net) ops s t)
    (hne : ∀ op ∈ ops, op.creditQueue ≠ some l) : t.creditQueue l = s.creditQueue l :=
  h.keeps (I := fun u => u.creditQueue l = s.creditQueue l)
    (fun op hop _ _ hmove hu => (hmove.creditQueue_eq (hne op hop)).trans hu) rfl

theorem Trace.creditLinkBuffer_eq {ops : List Op} (h : Trace (Move net) ops s t)
    (hne : ∀ op ∈ ops, op.creditLinkBuffer ≠ some l) : t.creditLinkBuffer l = s.creditLinkBuffer l :=
  h.keeps (I := fun u => u.creditLinkBuffer l = s.creditLinkBuffer l)
    (fun op hop _ _ hmove hu => (hmove.creditLinkBuffer_eq (hne op hop)).trans hu) rfl

theorem Trace.switch_length {p : InPort} (hp : (net.inports r)[i]? = some p)
    (h : Trace (Move net) gs s t) (hs : s.switchBuffer r i = [])
    (hgs : ∀ op ∈ gs, ∃ l m, op = .grant r l m) :
    (t.switchBuffer r i).length ≤ (gs.filterMap Op.grantSrc).count p.link := by
  refine h.induct (fun ks u => (u.switchBuffer r i).length ≤ (ks.filterMap Op.grantSrc).count p.link)
    (by simp [hs]) ?_
  intro ks op u v hpre hmove hu
  obtain ⟨l, m, rfl⟩ := hgs op (hpre.subset (by simp))
  rw [List.filterMap_append, List.count_append]
  cases hmove with
  | @grant _ _ i' o v' w p' op' f uturn _ hp' =>
    by_cases hi : i = i'
    · subst hi
      rw [hp] at hp'
      cases hp'
      change (setEntry u.switchBuffer r i _ r i).length ≤ _
      rw [setEntry_self, (bufferInsert_perm _ _).length_eq]
      simpa [Op.grantSrc] using hu
    · change (setEntry u.switchBuffer r i' _ r i).length ≤ _
      rw [setEntry_of_ne _ _ fun heq => hi heq.2]
      omega

def leaving (net : Net) (r : Nat) (l : Link) : Place → Flit → Nat
  | .switch r' _, f => if r' = r ∧ (net.outports r)[f.outport]?.map OutPort.link = some l then 1 else 0
  | _, _ => 0

theorem leaving_switch {op : OutPort} {f : Flit} (hop : (net.outports r)[f.outport]? = some op) :
    leaving net r l (.switch r i) f = (decide (op.link = l)).toNat := by
  by_cases hl : op.link = l <;> simp [leaving, hop, hl]

theorem Move.leaving_grant (hs : Wf net s) {src dst : Link} (h : Move net (.grant r src dst) s t) :
    total net.places (leaving net r l) t.flitsAt =
      total net.places (leaving net r l) s.flitsAt + (decide (dst = l)).toNat := by
  cases h with
  | @grant _ _ i o v w p op f uturn hr hp hop _ hbuf =>
    have hvc : Place.vc p.link v ∈ net.places := (hs.flits (.vc p.link v) f (by simp [Core.flitsAt, hbuf])).1
    have hswitch : Place.switch r i ∈ net.places :=
      switch_mem_places.mpr ⟨hr, (List.getElem?_eq_some_iff.mp hp).1⟩
    exact ((Moved.granted hbuf).total hvc hswitch).trans (congrArg (_ + ·) (leaving_switch hop))

theorem Move.leaving_cross {dst : Link} (h : Move net (.cross r dst) s t) :
    total net.places (leaving net r l) t.flitsAt + (decide (dst = l)).toNat =
      total net.places (leaving net r l) s.flitsAt := by
  cases h with
  | @cross _ _ i op f rest hr hi hbuf hop =>
    have hswitch : Place.switch r i ∈ net.places := switch_mem_places.mpr ⟨hr, hi⟩
    have hout : Place.out op.link ∈ net.places :=
      out_mem_places.mpr (outport_mem_links hr (List.mem_of_getElem? hop))
    exact (congrArg (_ + ·) (leaving_switch hop).symm).trans ((Moved.crossed hbuf).total hswitch hout)

theorem Move.leaving_mark (hs : Wf net s) {src : Link} (h : Move net (.mark r src) s t) :
    total net.places (leaving net r l) t.flitsAt = total net.places (leaving net r l) s.flitsAt := by
  cases h with
  | @mark _ _ v p f f' hr hp hbuf hmark =>
    have hvc : Place.vc p.link v ∈ net.places := (hs.flits (.vc p.link v) f (by simp [Core.flitsAt, hbuf])).1
    exact (Moved.marked hbuf).total (w := leaving net r l) hvc hvc

theorem AllocRun.countP_cross_le (h : AllocRun net r s m₁ m₂ m₃ t ms gs ws xs) (hs : Wf net s)
    (hempty : ∀ i < (net.inports r).length, s.switchBuffer r i = []) (l : Link) :
    xs.countP (fun op => op.out = some l) ≤ (gs.filterMap Op.grantDst).count l := by
  have hstart : total net.places (leaving net r l) s.flitsAt = 0 := by
    refine total_eq_zero fun x hx f hf => ?_
    cases x with
    | switch r' i =>
      by_cases hr : r' = r
      · subst hr
        rw [show s.flitsAt (.switch r' i) = [] from hempty i (switch_mem_places.mp hx).2] at hf
        cases hf
      · simp [leaving, hr]
    | _ => rfl
  have hmark : Wf net m₁ ∧ total net.places (leaving net r l) m₁.flitsAt = 0 := by
    refine h.mark.keeps (I := fun u => Wf net u ∧ total net.places (leaving net r l) u.flitsAt = 0) ?_
      ⟨hs, hstart⟩
    rintro op hop u v hmove ⟨hu, hzero⟩
    obtain ⟨src, rfl⟩ := h.marks op hop
    exact ⟨hu.move hmove, (hmove.leaving_mark hu).trans hzero⟩
  have hgrant : total net.places (leaving net r l) m₂.flitsAt + gs.countP (fun _ => false) =
      total net.places (leaving net r l) m₁.flitsAt + gs.countP (fun op => op.grantDst = some l) := by
    refine h.grant.balance (m := fun u => total net.places (leaving net r l) u.flitsAt) (I := Wf net)
      (fun op hop u v hmove hu => ?_) hmark.1
    obtain ⟨src, dst, rfl⟩ := h.grants.grant op hop
    exact ⟨hu.move hmove, by simpa [Op.grantDst] using hmove.leaving_grant hu⟩
  have hwake : m₃.flitsAt = m₂.flitsAt := by
    refine h.wake.keeps (I := fun u => u.flitsAt = m₂.flitsAt) (fun op hop u v hmove hu => ?_) rfl
    rw [h.wakes op hop] at hmove
    cases hmove
    exact hu
  have hcross : total net.places (leaving net r l) t.flitsAt + xs.countP (fun op => op.out = some l) =
      total net.places (leaving net r l) m₃.flitsAt + xs.countP (fun _ => false) := by
    refine h.cross.balance (m := fun u => total net.places (leaving net r l) u.flitsAt)
      (I := fun _ => True) (fun op hop u v hmove _ => ⟨trivial, ?_⟩) trivial
    obtain ⟨dst, rfl⟩ := h.crosses op hop
    simpa [Op.out] using hmove.leaving_cross
  have hnone (ops : List Op) : ops.countP (fun _ => false) = 0 := by simp
  rw [hnone, hmark.2] at hgrant
  rw [hnone, hwake] at hcross
  rw [List.count_filterMap]
  simp only [beq_eq_decide]
  omega

theorem AllocRun.switch_empty (h : AllocRun net r s m₁ m₂ m₃ t ms gs ws xs)
    (hempty : ∀ i < (net.inports r).length, s.switchBuffer r i = []) :
    ∀ i < (net.inports r).length, t.switchBuffer r i = [] := by
  intro i hi
  have hmark : m₁.switchBuffer r = s.switchBuffer r := h.mark.switchBuffer_eq fun op hop => by
    obtain ⟨l, rfl⟩ := h.marks op hop
    nofun
  have hwake : m₃.switchBuffer r = m₂.switchBuffer r := h.wake.switchBuffer_eq fun op hop => by
    rw [h.wakes op hop]
    nofun
  have hlen := h.grant.switch_length (List.getElem?_eq_getElem hi) (by rw [hmark, hempty i hi])
    h.grants.grant
  have hone := List.nodup_iff_count_le_one.mp h.grants.src (net.inports r)[i].link
  rw [h.switch i hi, hwake, ← List.length_eq_zero_iff, List.length_tail]
  omega

theorem bufferInsert_eq_append [Timed α] {x : α} {b : List α}
    (h : ∀ y ∈ b, time y < time x) : bufferInsert x b = b ++ [x] := by
  induction b with
  | nil => rfl
  | cons y b ih =>
    have hy := h y List.mem_cons_self
    have hgreater : greater y x = false := by
      unfold greater
      rw [if_neg (by omega)]
      simpa using hy.le
    unfold bufferInsert
    rw [hgreater, ih fun z hz => h z (List.mem_cons_of_mem y hz)]
    rfl

theorem Move.eventsOk (h : Move net op s t) (hev : EventsOk net s) : EventsOk net t :=
  hev.grows h.curCycle_eq h.grows

theorem Trace.eventsOk {ops : List Op} (h : Trace (Move net) ops s t) (hev : EventsOk net s) :
    EventsOk net t :=
  hev.grows h.curCycle_eq h.grows

/-- A queue `Q` to which at most one of the moves adds something, with the time `d`. -/
theorem Trace.pushes_once [Timed α] {Q : Core → List α} {site : Op → Option Link} {k : Consumer}
    {d : Nat} {ops : List Op} (h : Trace (Move net) ops s t) (hev : EventsOk net s)
    (hcount : ops.countP (fun op => site op = some l) ≤ 1) (hlt : ∀ x ∈ Q s, time x < d)
    (hkeep : ∀ {op u v}, Move net op u v → site op ≠ some l → Q v = Q u)
    (hpush : ∀ op ∈ ops, site op = some l → ∀ u v, Move net op u v → u.curCycle = s.curCycle →
      EventsOk net u → ∃ x, Q v = bufferInsert x (Q u) ∧ time x = d ∧
        s.curCycle + 1 ∈ v.events k) :
    Q t = Q s ∨ ∃ x, Q t = Q s ++ [x] ∧ time x = d ∧ s.curCycle + 1 ∈ t.events k := by
  have honce := h.once
    (I := fun u => Q u = Q s ∧ u.curCycle = s.curCycle ∧ EventsOk net u)
    (J := fun u => ∃ x, Q u = Q s ++ [x] ∧ time x = d ∧ s.curCycle + 1 ∈ u.events k)
    ?_ ?_ ?_ hcount ⟨rfl, rfl, hev⟩
  · exact honce.imp And.left id
  · rintro op _ hop u v hmove ⟨hu, hcur, hevu⟩
    exact ⟨(hkeep hmove (by simpa using hop)).trans hu, hmove.curCycle_eq.trans hcur,
      hmove.eventsOk hevu⟩
  · rintro op hmem hop u v hmove ⟨hu, hcur, hevu⟩
    obtain ⟨x, hx, htime, hpending⟩ := hpush op hmem (by simpa using hop) u v hmove hcur hevu
    refine ⟨x, ?_, htime, hpending⟩
    rw [hx, hu, bufferInsert_eq_append fun y hy => htime ▸ hlt y hy]
  · rintro op _ hop u v hmove ⟨x, hu, htime, hpending⟩
    exact ⟨x, (hkeep hmove (by simpa using hop)).trans hu, htime, (hmove.grows _).mem hpending⟩

theorem AllocRun.outBuffer_cases (h : AllocRun net r s m₁ m₂ m₃ t ms gs ws xs) (hs : Wf net s)
    (hev : EventsOk net s) (hempty : ∀ i < (net.inports r).length, s.switchBuffer r i = [])
    (hl : Consumer.link l ∈ net.consumers) (hlt : ∀ f ∈ s.outBuffer l, f.time < s.curCycle + 1) :
    t.outBuffer l = s.outBuffer l ∨ s.halt r = false ∧ ∃ f, t.outBuffer l = s.outBuffer l ++ [f] ∧
      f.time = s.curCycle + 1 ∧ s.curCycle + 1 ∈ t.events (.link l) := by
  have hbefore : Trace (Move net) (ms ++ gs ++ ws) s m₃ := (h.mark.append h.grant).append h.wake
  have hout : m₃.outBuffer l = s.outBuffer l := hbefore.outBuffer_eq fun op hop => by
    simp only [List.mem_append] at hop
    rcases hop with (hop | hop) | hop
    · obtain ⟨_, rfl⟩ := h.marks op hop
      nofun
    · obtain ⟨_, _, rfl⟩ := h.grants.grant op hop
      nofun
    · rw [h.wakes op hop]
      nofun
  have hcur := hbefore.curCycle_eq
  have hcount := h.countP_cross_le hs hempty l
  cases hhalt : s.halt r with
  | true =>
    rw [h.halted hhalt] at hcount
    have hnone : ∀ op ∈ xs, op.out ≠ some l := by
      simpa [List.countP_eq_zero] using hcount
    exact .inl ((h.cross.outBuffer_eq hnone).trans hout)
  | false =>
    have hone := List.nodup_iff_count_le_one.mp h.grants.dst l
    have honce := h.cross.pushes_once (Q := (·.outBuffer l)) (k := .link l) (d := s.curCycle + 1)
      (hbefore.eventsOk hev) (hcount.trans hone) (by rwa [hout]) (fun hmove => hmove.outBuffer_eq) ?_
    · rw [hout, hcur] at honce
      exact honce.imp_right (⟨rfl, ·⟩)
    · intro op hmem hop u v hmove hu hevu
      obtain ⟨l', rfl⟩ := h.crosses op hmem
      obtain rfl : l' = l := by simpa [Op.out] using hop
      cases hmove with
      | @cross _ _ i op f rest hr hi hbuf hport =>
        refine ⟨{ f with stage := (.LT, u.curCycle + 1), time := u.curCycle + 1 }, update_self _ _ _,
          congrArg (· + 1) (hu.trans hcur), ?_⟩
        rw [← hu]
        change _ ∈ (update u.agenda _ _ (Consumer.link op.link)).events
        rw [update_self]
        exact (hevu _ hl).mem_schedule_self (Nat.lt_succ_self _)

theorem AllocRun.creditQueue_cases (h : AllocRun net r s m₁ m₂ m₃ t ms gs ws xs)
    (hev : EventsOk net s) (hl : Consumer.creditLink l ∈ net.consumers)
    (hlt : ∀ x ∈ s.creditQueue l, x.time < s.curCycle) :
    t.creditQueue l = s.creditQueue l ∨ s.halt r = false ∧
      ∃ x, t.creditQueue l = s.creditQueue l ++ [x] ∧ x.time = s.curCycle ∧
        s.curCycle + 1 ∈ t.events (.creditLink l) := by
  have hmark : m₁.creditQueue l = s.creditQueue l := h.mark.creditQueue_eq fun op hop => by
    obtain ⟨_, rfl⟩ := h.marks op hop
    nofun
  have hcur := h.mark.curCycle_eq
  have hafter : Trace (Move net) (ws ++ xs) m₂ t := h.wake.append h.cross
  have hrest : t.creditQueue l = m₂.creditQueue l := hafter.creditQueue_eq fun op hop => by
    rcases List.mem_append.mp hop with hop | hop
    · rw [h.wakes op hop]
      nofun
    · obtain ⟨_, rfl⟩ := h.crosses op hop
      nofun
  cases hhalt : s.halt r with
  | true =>
    have hgrant := h.grant
    rw [h.halted hhalt] at hgrant
    rw [hrest, hgrant.eq_of_nil]
    exact .inl hmark
  | false =>
    have hcount : gs.countP (fun op => op.creditQueue = some l) ≤ 1 := by
      have hone := List.nodup_iff_count_le_one.mp h.grants.src l
      rw [List.count_filterMap] at hone
      refine (List.countP_mono_left fun op hop hq => ?_).trans hone
      obtain ⟨src, dst, rfl⟩ := h.grants.grant op hop
      simpa [Op.creditQueue, Op.grantSrc] using hq
    have honce := h.grant.pushes_once (Q := (·.creditQueue l)) (k := .creditLink l)
      (d := s.curCycle) (h.mark.eventsOk hev) hcount (by rwa [hmark])
      (fun hmove => hmove.creditQueue_eq) ?_
    · rw [hmark, hcur, ← hrest] at honce
      refine honce.imp_right ?_
      rintro ⟨x, hx, htime, hpending⟩
      exact ⟨rfl, x, hx, htime, (hafter.grows _).mem hpending⟩
    · intro op hmem hop u v hmove hu hevu
      obtain ⟨src, dst, rfl⟩ := h.grants.grant op hmem
      obtain rfl : src = l := by simpa [Op.creditQueue] using hop
      cases hmove with
      | @grant _ _ i o v w p op f uturn =>
        refine ⟨⟨v, true, u.curCycle⟩, update_self _ _ _, hu.trans hcur, ?_⟩
        rw [← hu]
        change _ ∈ (update u.agenda _ _ (Consumer.creditLink p.link)).events
        rw [update_self]
        exact (hevu _ hl).mem_schedule_self (Nat.lt_succ_self _)

end Switch

def AllocOp (r : Nat) : Op → Prop
  | .mark r' _ | .grant r' _ _ | .cross r' _ => r' = r
  | .wake c => c = .router r
  | _ => False

def Action.Makes (net : Net) : Action → Op → Prop
  | .router r, op => ReadOp net r op ∨ AllocOp r op
  | .ni n _, op | .message n _ _, op | .dequeueCallback n, op => NiOp n op
  | .link l, op => op = .link l
  | .creditLink l, op => op = .creditLink l
  | .tick, _ => False

/-- The queues that a drain does not touch. -/
def Core.queues (c : Core) :=
  (c.outBuffer, c.creditQueue, c.creditLinkBuffer, c.switchBuffer)

section Views

variable {net : Net} {s t : Core} {a : Action} {r b c : Nat} {op : Op}

theorem AllocPhase.moves (h : AllocPhase net r s t) :
    ∃ ops, Trace (Move net) ops s t ∧ ∀ op ∈ ops, AllocOp r op := by
  obtain ⟨m₁, m₂, m₃, ms, gs, ws, xs, h⟩ := h
  refine ⟨_, ((h.mark.append h.grant).append h.wake).append h.cross, fun op hop => ?_⟩
  simp only [List.mem_append] at hop
  rcases hop with ((hop | hop) | hop) | hop
  · obtain ⟨_, rfl⟩ := h.marks op hop
    rfl
  · obtain ⟨_, _, rfl⟩ := h.grants.grant op hop
    rfl
  · rw [h.wakes op hop]
    rfl
  · obtain ⟨_, rfl⟩ := h.crosses op hop
    rfl

theorem SpinPhase.queues_eq (h : SpinPhase net r s t) : t.queues = s.queues := by
  cases h with
  | skip => rfl
  | halt => rfl
  | drain _ _ _ hspins =>
    rw [hspins.released_frame]
    rfl

theorem Performed.view_eq {β : Type} {V : Core → β} (hV : ∀ {u v : Core}, u.queues = v.queues → V u = V v)
    (hstep : Performed net s a t) (hmove : ∀ {op u v}, a.Makes net op → Move net op u v → V v = V u) :
    V t = V s := by
  have htrace {ops : List Op} {u v : Core} (h : Trace (Move net) ops u v)
      (hops : ∀ op ∈ ops, a.Makes net op) : V v = V u :=
    h.keeps (I := fun w => V w = V u) (fun op hop _ _ hstep hw => (hmove (hops op hop) hstep).trans hw) rfl
  have hpop (k : Consumer) : V (popEvent k s) = V s := hV rfl
  cases hstep with
  | router hread hspin halloc =>
    obtain ⟨_, htrace₁, hops₁⟩ := hread.trace
    obtain ⟨_, htrace₂, hops₂⟩ := halloc.moves
    rw [htrace htrace₂ fun op hop => .inr (hops₂ op hop), hV hspin.queues_eq,
      htrace htrace₁ fun op hop => .inl (hops₁ op hop), hpop]
  | ni h hops => rw [htrace h hops, hpop]
  | link h => rw [hmove rfl h, hpop]
  | linkIdle => exact hpop _
  | creditLink h => rw [hmove rfl h, hpop]
  | creditLinkIdle => exact hpop _
  | message h hops => exact htrace h hops
  | dequeueCallback h hops => exact htrace h hops
  | tick => exact hV rfl

theorem Net.creditLinkConsumer_outport {p : OutPort} (hr : r < net.numRouters)
    (hp : p ∈ net.outports r) : creditLinkConsumer net p.link = .router r := by
  rcases outport_cases hr hp with ⟨n, _, rfl, hl, _⟩ | ⟨b, _, hl⟩ <;> rw [hl] <;> rfl

theorem Net.linkConsumer_inport {p : InPort} (hr : r < net.numRouters) (hp : p ∈ net.inports r) :
    linkConsumer net p.link = .router r := by
  rcases inport_cases hr hp with ⟨n, _, rfl, rfl⟩ | ⟨a, d, _, rfl⟩ <;> rfl

section Makers

variable {l m : Link} {k : Consumer}

theorem Action.Makes.grant (h : a.Makes net (.grant r l m)) : a = .router r := by
  cases a <;> simp_all [Action.Makes, ReadOp, AllocOp, NiOp]

theorem Action.Makes.cross (h : a.Makes net (.cross r l)) : a = .router r := by
  cases a <;> simp_all [Action.Makes, ReadOp, AllocOp, NiOp]

theorem Action.Makes.link (h : a.Makes net (.link l)) : a = .link l := by
  cases a <;> simp_all [Action.Makes, ReadOp, AllocOp, NiOp]

theorem Action.Makes.creditLink (h : a.Makes net (.creditLink l)) : a = .creditLink l := by
  cases a <;> simp_all [Action.Makes, ReadOp, AllocOp, NiOp]

theorem Action.Makes.credit (h : a.Makes net (.credit k l)) :
    (∃ r, a = .router r ∧ ∃ p ∈ net.outports r, p.link = l) ∨ ∃ n, l = .extIn n := by
  cases a with
  | router r =>
    rcases h with (h | ⟨p, hp, heq⟩) | h
    · cases h
    · cases heq
      exact .inl ⟨r, rfl, p, hp, rfl⟩
    · exact h.elim
  | ni n | message n | dequeueCallback n => exact .inr ⟨n, h.2⟩
  | link | creditLink => cases h
  | tick => exact h.elim

end Makers

section

variable (hstep : Performed net s a t)
include hstep

theorem Performed.switchBuffer_eq (hr : a ≠ .router r) :
    t.switchBuffer r = s.switchBuffer r := by
  refine hstep.view_eq (V := fun c => c.switchBuffer r) (fun h => congrFun (congrArg (·.2.2.2) h) r)
    fun {op u v} hop hmove => hmove.switchBuffer_eq fun hswitch => ?_
  cases op with
  | grant => exact hr (some.inj hswitch ▸ hop.grant)
  | cross => exact hr (some.inj hswitch ▸ hop.cross)
  | _ => cases hswitch

theorem Performed.outBuffer_eq {p : OutPort} (hr : r < net.numRouters)
    (hp : p ∈ net.outports r) (hrouter : a ≠ .router r) (hlink : a ≠ .link p.link) :
    t.outBuffer p.link = s.outBuffer p.link := by
  refine hstep.view_eq (V := fun c => c.outBuffer p.link) (fun h => congrFun (congrArg (·.1) h) p.link)
    fun {op u v} hop hmove => hmove.outBuffer_eq fun hout => ?_
  have hsource := creditLinkConsumer_outport hr hp
  cases hmove with
  | cross hr' _ _ hport =>
    rw [← some.inj hout] at hsource
    have hsource' := creditLinkConsumer_outport hr' (List.mem_of_getElem? hport)
    rw [hsource] at hsource'
    cases hsource'
    exact hrouter hop.cross
  | link => exact hlink (some.inj hout ▸ hop.link)
  | send =>
    rw [← some.inj hout] at hsource
    cases hsource
  | _ => cases hout

theorem Performed.creditQueue_eq (hrouter : a ≠ .router c)
    (hlink : a ≠ .creditLink (.int b c)) : t.creditQueue (.int b c) = s.creditQueue (.int b c) := by
  refine hstep.view_eq (V := fun s => s.creditQueue (.int b c))
    (fun h => congrFun (congrArg (·.2.1) h) _) fun {op u v} hop hmove => hmove.creditQueue_eq fun hqueue => ?_
  cases hmove with
  | grant _ hr hp =>
    have htarget := linkConsumer_inport hr (List.mem_of_getElem? hp)
    rw [show _ = Link.int b c from some.inj hqueue] at htarget
    cases htarget
    exact hrouter hop.grant
  | creditLink => exact hlink (some.inj hqueue ▸ hop.creditLink)
  | _ => cases hqueue

theorem Performed.creditLinkBuffer_eq
    (hvalid : ∀ r, a = .router r → r < net.numRouters) (hrouter : a ≠ .router b)
    (hlink : a ≠ .creditLink (.int b c)) :
    t.creditLinkBuffer (.int b c) = s.creditLinkBuffer (.int b c) := by
  refine hstep.view_eq (V := fun s => s.creditLinkBuffer (.int b c))
    (fun h => congrFun (congrArg (·.2.2.1) h) _)
    fun {op u v} hop hmove => hmove.creditLinkBuffer_eq fun hbuf => ?_
  cases op with
  | credit k l =>
    obtain rfl : l = .int b c := some.inj hbuf
    rcases hop.credit with ⟨r, rfl, p, hp, hl⟩ | ⟨n, hl⟩
    · have hsource := creditLinkConsumer_outport (hvalid r rfl) hp
      rw [hl] at hsource
      cases hsource
      exact hrouter rfl
    · cases hl
  | creditLink => exact hlink (some.inj hbuf ▸ hop.creditLink)
  | _ => cases hbuf

end

theorem Performed.link_outBuffer {l : Link} (hstep : Performed net s (.link l) t) :
    (∃ f, s.outBuffer l = f :: t.outBuffer l) ∨
      t.outBuffer l = s.outBuffer l ∧ isReady (s.outBuffer l) s.curCycle = false := by
  cases hstep with
  | link hmove =>
    cases hmove with
    | @link _ _ f rest _ hbuf _ =>
      refine .inl ⟨f, ?_⟩
      change s.outBuffer l = f :: update s.outBuffer l rest l
      rw [update_self]
      exact hbuf
  | linkIdle hready => exact .inr ⟨rfl, hready⟩

theorem Performed.creditLink_creditQueue {l : Link} (hstep : Performed net s (.creditLink l) t) :
    (∃ x, s.creditQueue l = x :: t.creditQueue l) ∨
      t.creditQueue l = s.creditQueue l ∧ isReady (s.creditQueue l) s.curCycle = false := by
  cases hstep with
  | creditLink hmove =>
    cases hmove with
    | @creditLink _ _ x rest _ hbuf _ =>
      refine .inl ⟨x, ?_⟩
      change s.creditQueue l = x :: update s.creditQueue l rest l
      rw [update_self]
      exact hbuf
  | creditLinkIdle hready => exact .inr ⟨rfl, hready⟩

theorem Performed.router_creditLinkBuffer {d : PortDirection} (hd : net.HasLink b c d)
    (hstep : Performed net s (.router b) t) :
    t.creditLinkBuffer (.int b c) = popReady s.curCycle (s.creditLinkBuffer (.int b c)) := by
  cases hstep with
  | router hread hspin halloc =>
    obtain ⟨p, hp, hlink, _⟩ := hd.outport
    obtain ⟨_, htrace, hops⟩ := halloc.moves
    have hcredits := hread.credits p hp
    rw [hlink] at hcredits
    have hspun := congrFun (congrArg (·.2.2.1) hspin.queues_eq) (.int b c)
    refine (htrace.creditLinkBuffer_eq fun op hop => ?_).trans (hspun.trans hcredits)
    have hop := hops op hop
    cases op <;> first | exact hop.elim | nofun

end Views

def outHop (net : Net) (l : Link) : Hop Flit where
  queue := fun s => s.outBuffer l
  due := Flit.time
  delay := 1
  source := creditLinkConsumer net l
  target := .link l

def queueHop (net : Net) (l : Link) : Hop Credit where
  queue := fun s => s.creditQueue l
  due := fun x => x.time + 1
  delay := 1
  source := linkConsumer net l
  target := .creditLink l

def creditHop (net : Net) (l : Link) : Hop Credit where
  queue := fun s => s.creditLinkBuffer l
  due := Credit.time
  delay := net.linkLatency
  source := .creditLink l
  target := creditLinkConsumer net l

structure InTime (net : Net) (s : Core) : Prop where
  switch : ∀ r < net.numRouters, ∀ i < (net.inports r).length, s.switchBuffer r i = []
  out : ∀ r < net.numRouters, ∀ p ∈ net.outports r, (outHop net p.link).OnTime s
  queue : ∀ b c, Link.int b c ∈ net.links → (queueHop net (.int b c)).OnTime s
  credit : ∀ b c, Link.int b c ∈ net.links → (creditHop net (.int b c)).OnTime s

section Run

variable {net : Net} {s t : Core} {r : Nat} {a : Action}

theorem State.scheduled.mem_events {s : State} (h : s.scheduled net a) :
    ∀ k, a.consumer = some k → s.curCycle ∈ s.events k := by
  intro k hk
  cases a with
  | router | ni | link | creditLink =>
    cases hk
    exact h
  | _ => cases hk

theorem Hop.OnTime.due_ne [Timed α] {h : Hop α} (hl : h.OnTime s)
    (hready : isReady (h.queue s) s.curCycle = false) (hle : ∀ x, time x ≤ h.due x) :
    ∀ x ∈ h.queue s, h.due x ≠ s.curCycle := by
  intro x hx hdue
  have hsorted := hl.sorted
  cases hq : h.queue s with
  | nil =>
    rw [hq] at hx
    cases hx
  | cons y rest =>
    rw [hq] at hx hready hsorted
    have hy : h.due y ≤ h.due x := by
      rcases List.mem_cons.mp hx with rfl | hx
      · exact le_rfl
      · exact ((List.pairwise_cons.mp hsorted).1 x hx).le
    have := hle y
    simp only [isReady, decide_eq_false_iff_not] at hready
    omega

theorem Hop.OnTime.read [Timed α] {h : Hop α} (hl : h.OnTime s) (hstep : Performed net s a t)
    (hne : a ≠ .tick) (hsched : ∀ k, a.consumer = some k → s.curCycle ∈ s.events k)
    (hle : ∀ x, time x ≤ h.due x) (hq : h.queue t = popReady s.curCycle (h.queue s)) :
    h.OnTime t := by
  refine hl.take hstep hne hsched ?_
  rw [hq, popReady]
  by_cases hready : isReady (h.queue s) s.curCycle = true
  · obtain ⟨x, rest, hbuf, _⟩ := isReady_iff.mp hready
    rw [if_pos hready, hbuf]
    exact .inl ⟨x, rfl⟩
  · rw [if_neg hready]
    exact .inr ⟨rfl, hl.due_ne (Bool.not_eq_true _ ▸ hready) hle⟩

/-- Before a router allocates its switch, the wakeup has only read what came in. -/
structure Started (net : Net) (s m : Core) : Prop where
  wf : Wf net m
  events : EventsOk net m
  curCycle : m.curCycle = s.curCycle
  outBuffer : m.outBuffer = s.outBuffer
  creditQueue : m.creditQueue = s.creditQueue
  switchBuffer : m.switchBuffer = s.switchBuffer

theorem ReadPhase.started (hread : ReadPhase net r (popEvent (.router r) s) t) (hs : Wf net s)
    (hev : EventsOk net s) : Started net s t := by
  have hwf := hread.wf (hs.popEvent _)
  obtain ⟨ops, htrace, hops⟩ := hread.trace
  have hnone : ∀ op ∈ ops, op.out = none ∧ op.creditQueue = none ∧ op.switch = none := by
    intro op hop
    rcases hops op hop with rfl | ⟨_, _, rfl⟩ <;> exact ⟨rfl, rfl, rfl⟩
  refine ⟨hwf, htrace.eventsOk (hev.popEvent _), htrace.curCycle_eq, ?_, ?_, ?_⟩
  · funext l
    exact htrace.outBuffer_eq fun op hop => by simp [(hnone op hop).1]
  · funext l
    exact htrace.creditQueue_eq fun op hop => by simp [(hnone op hop).2.1]
  · funext r
    exact htrace.switchBuffer_eq fun op hop => by simp [(hnone op hop).2.2]

theorem Started.spin {m : Core} (h : Started net s m) (hspin : SpinPhase net r m t) :
    Started net s t := by
  have hq := hspin.queues_eq
  obtain ⟨hcur, hgrows⟩ := hspin.grows
  exact ⟨hspin.wf h.wf, h.events.grows hcur hgrows, hcur.trans h.curCycle,
    (congrArg (·.1) hq).trans h.outBuffer, (congrArg (·.2.1) hq).trans h.creditQueue,
    (congrArg (·.2.2.2) hq).trans h.switchBuffer⟩

section Router

variable (h : InTime net s) (hs : Wf net s) (hev : EventsOk net s)
  (hstep : Performed net s (.router r) t)

include h hs hev hstep

theorem InTime.router_outBuffer (hr : r < net.numRouters) {p : OutPort} (hp : p ∈ net.outports r)
    (hsched : s.curCycle ∈ s.events (.router r)) :
    t.outBuffer p.link = s.outBuffer p.link ∨ t.halt r = false ∧
      ∃ f, t.outBuffer p.link = s.outBuffer p.link ++ [f] ∧ f.time = s.curCycle + 1 ∧
        s.curCycle + 1 ∈ t.events (.link p.link) := by
  have hlink : Consumer.link p.link ∈ net.consumers := by
    simp [consumers, outport_mem_links hr hp]
  have hsource : (outHop net p.link).source = .router r := creditLinkConsumer_outport hr hp
  have hlt : ∀ f ∈ s.outBuffer p.link, f.time < s.curCycle + 1 :=
    (h.out r hr p hp).lt_of_not_sent fun hwoke => hwoke.2 (hsource ▸ hsched)
  cases hstep with
  | router hread hspin halloc =>
    obtain ⟨_, hmoves, _⟩ := halloc.moves
    obtain ⟨m₁, m₂, m₃, ms, gs, ws, xs, hrun⟩ := halloc
    have hm := (hread.started hs hev).spin hspin
    have hcases := hrun.outBuffer_cases hm.wf hm.events
      (fun i hi => by rw [hm.switchBuffer]; exact h.switch r hr i hi) hlink
      (by rw [hm.outBuffer, hm.curCycle]; exact hlt)
    rw [hm.outBuffer, hm.curCycle, ← hmoves.control.halt] at hcases
    exact hcases

theorem InTime.router_switchBuffer (hr : r < net.numRouters) :
    ∀ i < (net.inports r).length, t.switchBuffer r i = [] := by
  cases hstep with
  | router hread hspin halloc =>
    obtain ⟨m₁, m₂, m₃, ms, gs, ws, xs, hrun⟩ := halloc
    have hm := (hread.started hs hev).spin hspin
    exact hrun.switch_empty fun i hi => by rw [hm.switchBuffer, h.switch r hr i hi]

theorem InTime.router_creditQueue {b : Nat} (hmem : Link.int b r ∈ net.links)
    (hsched : s.curCycle ∈ s.events (.router r)) :
    t.creditQueue (.int b r) = s.creditQueue (.int b r) ∨ t.halt r = false ∧
      ∃ x, t.creditQueue (.int b r) = s.creditQueue (.int b r) ++ [x] ∧ x.time = s.curCycle ∧
        s.curCycle + 1 ∈ t.events (.creditLink (.int b r)) := by
  have hlink : Consumer.creditLink (.int b r) ∈ net.consumers := by
    simp [consumers, hmem]
  have hlt : ∀ x ∈ s.creditQueue (.int b r), x.time < s.curCycle := fun x hx =>
    Nat.lt_of_succ_lt_succ ((h.queue b r hmem).lt_of_not_sent (fun hwoke => hwoke.2 hsched) x hx)
  cases hstep with
  | router hread hspin halloc =>
    obtain ⟨_, hmoves, _⟩ := halloc.moves
    obtain ⟨m₁, m₂, m₃, ms, gs, ws, xs, hrun⟩ := halloc
    have hm := (hread.started hs hev).spin hspin
    have hcases := hrun.creditQueue_cases hm.events hlink
      (by rw [hm.creditQueue, hm.curCycle]; exact hlt)
    rw [hm.creditQueue, hm.curCycle, ← hmoves.control.halt] at hcases
    exact hcases

end Router

section Step

variable (h : InTime net s) (hs : Wf net s) (hev : EventsOk net s) (hstep : Performed net s a t)
  (hne : a ≠ .tick) (hsched : ∀ k, a.consumer = some k → s.curCycle ∈ s.events k)

include h hs hev hstep hne hsched

theorem InTime.out_step {p : OutPort} (hr : r < net.numRouters) (hp : p ∈ net.outports r) :
    (outHop net p.link).OnTime t := by
  have hl := h.out r hr p hp
  have hsource : (outHop net p.link).source = .router r := creditLinkConsumer_outport hr hp
  by_cases hrouter : a = .router r
  · subst hrouter
    rcases h.router_outBuffer hs hev hstep hr hp (hsched _ rfl) with hsame | ⟨_, f, hq, htime, hpending⟩
    · exact hl.keep hstep hne hsched nofun hsame
    · exact hl.push hstep hne hsched hev (congrArg some hsource.symm)
        (hsource ▸ router_mem_consumers hr) (hsource ▸ nofun) hq htime hpending
  · by_cases ha : a = .link p.link
    · subst ha
      exact hl.take hstep hne hsched (hstep.link_outBuffer.imp_right fun ⟨hq, hready⟩ =>
        ⟨hq, hl.due_ne hready fun _ => le_rfl⟩)
    · refine hl.keep hstep hne hsched ?_ (hstep.outBuffer_eq hr hp hrouter ha)
      intro htarget
      cases a <;> cases htarget
      exact ha rfl

theorem InTime.queue_step {b c : Nat} (hmem : Link.int b c ∈ net.links) :
    (queueHop net (.int b c)).OnTime t := by
  have hl := h.queue b c hmem
  obtain ⟨d, hd⟩ := int_mem_links.mp hmem
  by_cases hrouter : a = .router c
  · subst hrouter
    rcases h.router_creditQueue hs hev hstep hmem (hsched _ rfl) with hsame | ⟨_, x, hq, htime, hpending⟩
    · exact hl.keep hstep hne hsched nofun hsame
    · exact hl.push hstep hne hsched hev rfl (router_mem_consumers hd.lt.2) nofun hq
        (congrArg (· + 1) htime) hpending
  · by_cases ha : a = .creditLink (.int b c)
    · subst ha
      exact hl.take hstep hne hsched (hstep.creditLink_creditQueue.imp_right fun ⟨hq, hready⟩ =>
        ⟨hq, hl.due_ne hready fun _ => Nat.le_succ _⟩)
    · refine hl.keep hstep hne hsched ?_ (hstep.creditQueue_eq hrouter ha)
      intro htarget
      cases a <;> cases htarget
      exact ha rfl

omit hs in
theorem InTime.credit_step (hvalid : ∀ r, a = .router r → r < net.numRouters) {b c : Nat}
    (hmem : Link.int b c ∈ net.links) : (creditHop net (.int b c)).OnTime t := by
  have hl := h.credit b c hmem
  obtain ⟨d, hd⟩ := int_mem_links.mp hmem
  by_cases hrouter : a = .router b
  · subst hrouter
    exact hl.read hstep hne hsched (fun _ => le_rfl) (hstep.router_creditLinkBuffer hd)
  · by_cases ha : a = .creditLink (.int b c)
    · subst ha
      have hsent : ¬(s.agenda (creditHop net (.int b c)).source).Woke s.curCycle :=
        fun hwoke => hwoke.2 (hsched _ rfl)
      have hlt := hl.lt_of_not_sent hsent
      have hall := hstep
      cases hstep with
      | creditLink hmove =>
        have hev' := hev.popEvent (.creditLink (.int b c)) (.router b) (router_mem_consumers hd.lt.1)
        cases hmove with
        | @creditLink _ _ x rest _ hbuf _ =>
          refine hl.push hall hne hsched hev rfl (by simp [creditHop, consumers, hmem]) (by rintro ⟨⟩)
            (x := { x with time := s.curCycle + net.linkLatency }) ?_ rfl ?_
          · change update s.creditLinkBuffer (.int b c) _ (.int b c) = _
            rw [update_self]
            exact bufferInsert_eq_append hlt
          · change _ ∈ (update (popEvent _ s).agenda (.router b) _ (.router b)).events
            rw [update_self]
            exact hev'.mem_schedule_self (Nat.lt_add_of_pos_right net.linkLatency_pos)
      | creditLinkIdle => exact hl.keep hall hne hsched (by rintro ⟨⟩) rfl
    · refine hl.keep hstep hne hsched ?_ (hstep.creditLinkBuffer_eq hvalid hrouter ha)
      intro htarget
      cases a <;> cases htarget
      exact hrouter rfl

omit hne hsched in
theorem InTime.switch_step (hr : r < net.numRouters) :
    ∀ i < (net.inports r).length, t.switchBuffer r i = [] := by
  by_cases hrouter : a = .router r
  · subst hrouter
    exact h.router_switchBuffer hs hev hstep hr
  · intro i hi
    rw [hstep.switchBuffer_eq hrouter, h.switch r hr i hi]

end Step

theorem InTime.tick (h : InTime net s) (hidle : ∀ k ∈ net.consumers, s.curCycle ∉ s.events k) :
    InTime net { s with curCycle := s.curCycle + 1 } := by
  refine ⟨h.switch, fun r hr p hp => (h.out r hr p hp).tick (hidle _ ?_) _ rfl rfl,
    fun b c hmem => (h.queue b c hmem).tick (hidle _ ?_) _ rfl rfl,
    fun b c hmem => (h.credit b c hmem).tick (hidle _ ?_) _ rfl rfl⟩
  · simp [outHop, consumers, outport_mem_links hr hp]
  · simp [queueHop, consumers, hmem]
  · obtain ⟨d, hd⟩ := int_mem_links.mp hmem
    exact router_mem_consumers hd.lt.1

theorem State.Reachable.inTime {s : State} (h : s.Reachable net) : InTime net s.toCore := by
  refine h.induct (fun _ => ?_) ?_
  · exact ⟨fun _ _ _ _ => rfl, fun _ _ _ _ => Lane.nil, fun _ _ _ => Lane.nil, fun _ _ _ => Lane.nil⟩
  · intro s a t hreach hvalid hsched hstep hs
    by_cases hne : a = .tick
    · subst hne
      cases hstep
      exact hs.tick hsched
    · have hwf := hreach.free.wf.1
      have hev := hreach.eventsOk
      have hmem := hsched.mem_events
      refine ⟨fun r hr => hs.switch_step hwf hev hstep hr,
        fun r hr p hp => hs.out_step hwf hev hstep hne hmem hr hp,
        fun b c hlink => hs.queue_step hwf hev hstep hne hmem hlink,
        fun b c hlink => hs.credit_step hev hstep hne hmem ?_ hlink⟩
      rintro r rfl
      exact hvalid

/-- Between two wakeups the switches are empty. The queue of an output port and the queue of
credits hold at most two items, a credit link one more than its latency, and whoever takes an item
on wakes up when it is due. -/
theorem transit_on_time {s : State} (h : s.Reachable net) :
    (∀ r < net.numRouters, (∀ i < (net.inports r).length, s.switchBuffer r i = []) ∧
      ∀ p ∈ net.outports r, (s.outBuffer p.link).length ≤ 2 ∧
        ∀ f ∈ s.outBuffer p.link, f.time ∈ s.events (.link p.link)) ∧
    ∀ a b, Link.int a b ∈ net.links →
      ((s.creditQueue (.int a b)).length ≤ 2 ∧
        ∀ x ∈ s.creditQueue (.int a b), x.time + 1 ∈ s.events (.creditLink (.int a b))) ∧
      (s.creditLinkBuffer (.int a b)).length ≤ net.linkLatency + 1 ∧
        ∀ x ∈ s.creditLinkBuffer (.int a b), x.time ∈ s.events (.router a) := by
  have htime := h.inTime
  refine ⟨fun r hr => ⟨htime.switch r hr, fun p hp => ?_⟩, fun a b hab => ⟨?_, ?_⟩⟩
  · have hout := htime.out r hr p hp
    exact ⟨hout.length_le, fun f hf => (hout.awaited f hf).2⟩
  · have hqueue := htime.queue a b hab
    exact ⟨hqueue.length_le, fun x hx => (hqueue.awaited x hx).2⟩
  · have hcredit := htime.credit a b hab
    exact ⟨hcredit.length_le, fun x hx => (hcredit.awaited x hx).2⟩

/-- Two packets of node 0 cross the link to router 1, which passes the second on in cycle 13. -/
def lateCreditActions : List Action :=
  [.message 0 0 ⟨[1], 2⟩, .message 0 1 ⟨[1], 5⟩, .tick, .tick, .ni 0 fun _ => true, .tick,
    .link (.extIn 0), .tick, .tick, .ni 0 fun _ => true, .tick, .router 0, .link (.extIn 0), .tick,
    .link (.int 0 1), .creditLink (.extIn 0), .tick, .tick, .router 0, .tick, .router 1,
    .link (.int 0 1), .creditLink (.extIn 0), .ni 0 fun _ => true, .tick, .link (.extOut 1),
    .creditLink (.int 0 1), .tick, .tick, .router 1, .ni 0 fun _ => true, .tick, .router 0,
    .ni 1 fun _ => true, .link (.extOut 1), .creditLink (.int 0 1), .tick, .creditLink (.extOut 1),
    .tick, .tick, .ni 1 fun _ => true]

theorem transit_on_time_pairNet : ∃ s : State, s.Reachable (pairNet 3 14) ∧
    (∃ f ∈ s.outBuffer (.extOut 1), f.time ∈ s.events (.link (.extOut 1))) ∧
    (∃ x ∈ s.creditQueue (.int 0 1), x.time + 1 ∈ s.events (.creditLink (.int 0 1))) ∧
    ∃ x ∈ s.creditLinkBuffer (.int 0 1), x.time ∈ s.events (.router 0) := by
  -- router 1 has passed the second packet on and the first credit is on the link
  have hrun : ∃ s : State, s.Reachable (pairNet 3 14) ∧ s.outBuffer (.extOut 1) ≠ [] ∧
      s.creditQueue (.int 0 1) ≠ [] ∧ s.creditLinkBuffer (.int 0 1) ≠ [] :=
    exists_reachable (lateCreditActions.take 31) (fun _ => 0) (by decide +kernel)
  obtain ⟨s, hreach, hout, hqueue, hcredit⟩ := hrun
  obtain ⟨hports, hlinks⟩ := transit_on_time hreach
  have hport := ((hports 1 (by decide)).2 ⟨.extOut 1, .Local, [1], 1⟩ (by decide)).2
  have hlink := hlinks 0 1 (by decide)
  obtain ⟨f, hf⟩ := List.exists_mem_of_ne_nil _ hout
  obtain ⟨x, hx⟩ := List.exists_mem_of_ne_nil _ hqueue
  obtain ⟨y, hy⟩ := List.exists_mem_of_ne_nil _ hcredit
  exact ⟨s, hreach, ⟨f, hf, hport f hf⟩, ⟨x, hx, hlink.1.2 x hx⟩, y, hy, hlink.2.2 y hy⟩

/-- `Consumer` drops a request for a cycle that it has recorded, and no wakeup gets lost by that:
a request for a later cycle leaves one wakeup then, and keeps the others. -/
theorem wakeup_requests_kept {s : State} {k : Consumer} {t : Nat} (h : s.Reachable net)
    (hk : k ∈ net.consumers) (ht : s.curCycle < t) :
    ((s.scheduleEventAbsolute k t).events k).count t = 1 ∧
      s.events k ⊆ (s.scheduleEventAbsolute k t).events k := by
  have hok : (s.agenda k).Ok s.curCycle := h.eventsOk k hk
  simp only [Core.events, Core.scheduleEventAbsolute, update_self]
  refine ⟨List.count_eq_one_of_mem (hok.schedule ht.le).nodup (hok.mem_schedule_self ht), ?_⟩
  exact fun t' ht' => Agenda.mem_schedule ht'

theorem wakeup_requests_kept_pairNet : ∃ s : State,
    s.Reachable (pairNet 1 4) ∧ s.events (.router 0) = [5, 7] ∧
    ((s.scheduleEventAbsolute (.router 0) 6).events (.router 0)).count 6 = 1 ∧
    [5, 7] ⊆ (s.scheduleEventAbsolute (.router 0) 6).events (.router 0) := by
  have hrun : ∃ s : State, s.Reachable (pairNet 1 4) ∧ s.curCycle = 4 ∧
      s.events (.router 0) = [5, 7] :=
    exists_reachable haltActions (fun _ => 0) (by decide +kernel)
  obtain ⟨s, hreach, hcur, hevents⟩ := hrun
  have hrouter : .router 0 ∈ (pairNet 1 4).consumers := by decide
  have hlater : s.curCycle < 6 := by simp [hcur]
  obtain ⟨hcount, hkept⟩ := wakeup_requests_kept hreach hrouter hlater
  exact ⟨s, hreach, hevents, hcount, hevents ▸ hkept⟩

end Run

end Drain
