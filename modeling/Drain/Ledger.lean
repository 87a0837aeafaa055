import Drain.Lib.FlowControl
import Drain.StepInvariant
import Drain.QuietDrain

/-! The credits of every virtual channel balance in every run. Each move of the network is at most
one step of flow control on a channel, and a drain that finds nothing between the routers leaves
balanced channels behind. -/

namespace Drain

open Function List State Core Net OutVcState Prod LinkVc

/-- The link and the VC that a flit occupies. A flit that waits in the network interface has its
VC, but has not taken a credit yet. -/
def Place.channel (net : Net) : Place → Flit → Option (Link × Nat)
  | .out l, f | .link l, f => some (l, f.vc)
  | .vc l v, _ => some (l, v)
  | .switch r _, f => (net.outports r)[f.outport]?.map fun p => (p.link, f.vc)
  | .stall n, f => some (.extOut n, f.vc)
  | .niVc _ _, _ | .delivered, _ => none

def hit (c : Link × Nat) (d : Option (Link × Nat)) : Nat := (decide (d = some c)).toNat

theorem hit_self {c : Link × Nat} : hit c (some c) = 1 := by simp [hit]

theorem hit_of_ne {c d : Link × Nat} (h : c ≠ d) : hit c (some d) = 0 := by simp [hit, Ne.symm h]

namespace Core

variable (net : Net) (s : Core) (c : Link × Nat)

/-- The flits for a VC in the switch, the output buffer, the link and the VC or the stall queue
behind it. -/
def flitsFor : Nat :=
  total net.places (fun x f => hit c (x.channel net f)) s.flitsAt

def creditsFor : Nat :=
  (s.creditQueue c.1).countP (·.vc = c.2) + (s.creditLinkBuffer c.1).countP (·.vc = c.2)

def waitingFor : Nat :=
  match c.1 with
  | .extIn n => (s.niOutVcs n c.2).length
  | _ => 0

def channel : FlowChannel where
  idle := decide ((s.outvcState c.1 c.2).vcState = .idle)
  credit := (s.outvcState c.1 c.2).creditCount
  max := (s.outvcState c.1 c.2).maxCreditCount
  waiting := s.waitingFor c
  tokens := s.flitsFor net c + s.creditsFor c

/-- The channel takes a step or stays as it is. -/
abbrev Flows (t : Core) : Prop := Relation.ReflGen FlowChannel.Step (s.channel net c) (t.channel net c)

end Core

def Ledger (net : Net) (s : Core) : Prop := ∀ c, (s.channel net c).Balanced

section Counts

variable {net : Net} {s t : Core} {x y : Place} {f f' : Flit} {c : Link × Nat} {l : Link}
  {q : Link → List Credit} {e : Credit} {rest : List Credit} {n v : Nat} {b : List Flit}

theorem Moved.flitsFor (h : Moved s t x y f f') (hs : Wf net s) (ht : Wf net t) (c : Link × Nat) :
    t.flitsFor net c + hit c (x.channel net f) =
      s.flitsFor net c + hit c (y.channel net f') := by
  obtain ⟨m, hfrom, hto⟩ := h
  exact hfrom.total_moved hto (hs.flits x f hfrom.mem).1 (ht.flits y f' hto.mem).1

theorem Moved.flitsFor_eq (h : Moved s t x y f f') (hs : Wf net s) (ht : Wf net t)
    (hsame : y.channel net f' = x.channel net f) (c : Link × Nat) :
    t.flitsFor net c = s.flitsFor net c := by
  have hflits := h.flitsFor hs ht c
  rw [hsame] at hflits
  omega

theorem countP_push (q : List Credit) : (bufferInsert e q).countP (·.vc = v) =
    q.countP (·.vc = v) + (decide (e.vc = v)).toNat := by
  rw [(bufferInsert_perm e q).countP_eq, countP_cons]
  by_cases hv : e.vc = v <;> simp [hv]

theorem countP_pop : (e :: rest).countP (·.vc = v) =
    rest.countP (·.vc = v) + (decide (e.vc = v)).toNat := by
  rw [countP_cons]
  by_cases hv : e.vc = v <;> simp [hv]

theorem creditsFor_push (hqueue : t.creditQueue = update s.creditQueue l (bufferInsert e (s.creditQueue l)))
    (hlink : t.creditLinkBuffer = s.creditLinkBuffer) (c : Link × Nat) :
    t.creditsFor c = s.creditsFor c + hit c (some (l, e.vc)) := by
  obtain ⟨l', v⟩ := c
  unfold creditsFor
  rw [hqueue, hlink]
  dsimp only
  by_cases hl : l' = l
  · subst hl
    rw [update_self, countP_push]
    simp only [hit, Option.some.injEq, Prod.mk.injEq, true_and]
    omega
  · rw [update_of_ne hl]
    simp [hit, Ne.symm hl]

theorem creditsFor_pop (hbuf : s.creditLinkBuffer l = e :: rest)
    (hqueue : t.creditQueue = s.creditQueue)
    (hlink : t.creditLinkBuffer = update s.creditLinkBuffer l rest) (c : Link × Nat) :
    t.creditsFor c + hit c (some (l, e.vc)) = s.creditsFor c := by
  obtain ⟨l', v⟩ := c
  unfold creditsFor
  rw [hqueue, hlink]
  dsimp only
  by_cases hl : l' = l
  · subst hl
    rw [update_self, hbuf, countP_pop]
    simp only [hit, Option.some.injEq, Prod.mk.injEq, true_and]
    omega
  · rw [update_of_ne hl]
    simp [hit, Ne.symm hl]

theorem creditsFor_pass {time : Nat} (hbuf : s.creditQueue l = e :: rest)
    (hqueue : t.creditQueue = update s.creditQueue l rest)
    (hlink : t.creditLinkBuffer = update s.creditLinkBuffer l
      (bufferInsert { e with time := time } (s.creditLinkBuffer l))) (c : Link × Nat) :
    t.creditsFor c = s.creditsFor c := by
  obtain ⟨l', v⟩ := c
  unfold creditsFor
  rw [hqueue, hlink]
  dsimp only
  by_cases hl : l' = l
  · subst hl
    rw [update_self, update_self, hbuf, countP_push, countP_pop]
    dsimp only
    omega
  · rw [update_of_ne hl, update_of_ne hl]

theorem channel_eq (hout : t.outvcState c.1 c.2 = s.outvcState c.1 c.2)
    (hwaiting : t.waitingFor c = s.waitingFor c)
    (htokens : t.flitsFor net c + t.creditsFor c = s.flitsFor net c + s.creditsFor c) :
    t.channel net c = s.channel net c := by
  unfold channel
  rw [hout, hwaiting, htokens]

theorem waitingFor_of_ne (h : t.niOutVcs = setEntry s.niOutVcs n v b) (hc : c ≠ (.extIn n, v)) :
    t.waitingFor c = s.waitingFor c := by
  unfold waitingFor
  cases hl : c.1 with
  | extIn n' =>
    dsimp only
    rw [h, setEntry_of_ne]
    rintro ⟨rfl, hv⟩
    exact hc (Prod.ext hl hv)
  | _ => rfl

end Counts

section Moves

variable {net : Net} {s t : Core} {op : Op} {c : Link × Nat} {now : Nat}

theorem channel_returned (hout : t.outvcState c.1 c.2 = (s.outvcState c.1 c.2).returned now)
    (hwaiting : t.waitingFor c = s.waitingFor c)
    (htokens : t.flitsFor net c + t.creditsFor c + 1 = s.flitsFor net c + s.creditsFor c) :
    (s.channel net c).Step (t.channel net c) := by
  have heq : t.channel net c = (s.channel net c).returned := by
    ext
    · simp [channel, FlowChannel.returned, hout, returned, setState]
    · simp [channel, FlowChannel.returned, hout, returned, setState]
    · simp [channel, FlowChannel.returned, hout, returned, setState]
    · exact hwaiting
    · exact Nat.eq_sub_of_add_eq htokens
  have hpos : 0 < (s.channel net c).tokens := by
    change 0 < s.flitsFor net c + s.creditsFor c
    omega
  exact heq ▸ .giveBack hpos

theorem channel_taken (hidle : (s.outvcState c.1 c.2).vcState = .idle)
    (hout : t.outvcState c.1 c.2 = (s.outvcState c.1 c.2).taken now)
    (hwaiting : t.waitingFor c = s.waitingFor c)
    (htokens : t.flitsFor net c + t.creditsFor c = s.flitsFor net c + s.creditsFor c + 1) :
    (s.channel net c).Step (t.channel net c) := by
  have heq : t.channel net c = (s.channel net c).taken := by
    ext
    · simp [channel, FlowChannel.taken, hout, taken, setState]
    · simp [channel, FlowChannel.taken, hout, taken, setState]
    · simp [channel, FlowChannel.taken, hout, taken, setState]
    · exact hwaiting
    · exact htokens
  exact heq ▸ .take (decide_eq_true hidle)

theorem channel_claimed (hidle : (s.outvcState c.1 c.2).vcState = .idle)
    (hout : t.outvcState c.1 c.2 = (s.outvcState c.1 c.2).setState .active now)
    (hwaiting : t.waitingFor c = s.waitingFor c + 1)
    (htokens : t.flitsFor net c + t.creditsFor c = s.flitsFor net c + s.creditsFor c) :
    (s.channel net c).Step (t.channel net c) := by
  have heq : t.channel net c = (s.channel net c).claimed := by
    ext
    · simp [channel, FlowChannel.claimed, hout, setState]
    · simp [channel, FlowChannel.claimed, hout, setState]
    · simp [channel, FlowChannel.claimed, hout, setState]
    · exact hwaiting
    · exact htokens
  exact heq ▸ .claim (decide_eq_true hidle)

theorem channel_sent (hout : t.outvcState c.1 c.2 =
      { s.outvcState c.1 c.2 with creditCount := (s.outvcState c.1 c.2).creditCount - 1 })
    (hwaiting : t.waitingFor c + 1 = s.waitingFor c)
    (htokens : t.flitsFor net c + t.creditsFor c = s.flitsFor net c + s.creditsFor c + 1) :
    (s.channel net c).Step (t.channel net c) := by
  have heq : t.channel net c = (s.channel net c).sent := by
    ext
    · simp [channel, FlowChannel.sent, hout]
    · simp [channel, FlowChannel.sent, hout]
    · simp [channel, FlowChannel.sent, hout]
    · exact Nat.eq_sub_of_add_eq hwaiting
    · exact htokens
  have hpos : 0 < (s.channel net c).waiting := by
    change 0 < s.waitingFor c
    omega
  exact heq ▸ .send hpos

theorem flows_of_eq (h : t.channel net c = s.channel net c) : s.Flows net c t := by rw [Flows, h]

theorem reflGen_channel {l : Link} {v : Nat} {o : OutVcState}
    (hout : t.outvcState = setEntry s.outvcState l v o)
    (hother : c ≠ (l, v) → t.waitingFor c = s.waitingFor c ∧
      t.flitsFor net c + t.creditsFor c = s.flitsFor net c + s.creditsFor c)
    (hstep : t.outvcState l v = o → c = (l, v) → (s.channel net c).Step (t.channel net c)) :
    s.Flows net c t := by
  by_cases hc : c = (l, v)
  · refine .single (hstep ?_ hc)
    rw [hout, setEntry_self]
  · obtain ⟨hwaiting, htokens⟩ := hother hc
    have hentry : t.outvcState c.1 c.2 = s.outvcState c.1 c.2 := by
      rw [hout]
      exact setEntry_of_ne _ _ fun h => hc (Prod.ext h.1 h.2)
    exact flows_of_eq (channel_eq hentry hwaiting htokens)

section Steps

variable {l : Link} {v n now : Nat}

theorem channel_credit {x : Credit} {rest : List Credit} (hbuf : s.creditLinkBuffer l = x :: rest)
    (hout : t.outvcState = setEntry s.outvcState l x.vc ((s.outvcState l x.vc).returned now))
    (hqueue : t.creditQueue = s.creditQueue)
    (hlink : t.creditLinkBuffer = update s.creditLinkBuffer l rest)
    (hflits : t.flitsAt = s.flitsAt) (hwaiting : t.waitingFor c = s.waitingFor c) :
    s.Flows net c t := by
  have hpop := creditsFor_pop hbuf hqueue hlink c
  have hsame : t.flitsFor net c = s.flitsFor net c := by
    unfold flitsFor
    rw [hflits]
  refine reflGen_channel hout (fun hc => ⟨hwaiting, ?_⟩) fun hentry hc => ?_
  · rw [hit_of_ne hc] at hpop
    omega
  · subst hc
    rw [hit_self] at hpop
    exact channel_returned hentry hwaiting (by omega)

theorem channel_grant {m : Link} {w r i time : Nat} {f f' : Flit} (hs : Wf net s) (ht : Wf net t)
    (hidle : (s.outvcState m w).vcState = .idle)
    (hout : t.outvcState = setEntry s.outvcState m w ((s.outvcState m w).taken now))
    (hmoved : Moved s t (.vc l v) (.switch r i) f f')
    (hport : (Place.switch r i).channel net f' = some (m, w))
    (hqueue : t.creditQueue = update s.creditQueue l (bufferInsert ⟨v, true, time⟩ (s.creditQueue l)))
    (hlink : t.creditLinkBuffer = s.creditLinkBuffer) (hwaiting : t.waitingFor c = s.waitingFor c) :
    s.Flows net c t := by
  have hflits := hmoved.flitsFor hs ht c
  have hpush := creditsFor_push hqueue hlink c
  rw [hport] at hflits
  change t.flitsFor net c + hit c (some (l, v)) = _ at hflits
  dsimp only at hpush
  refine reflGen_channel hout (fun hc => ⟨hwaiting, ?_⟩) fun hentry hc => ?_
  · rw [hit_of_ne hc] at hflits
    omega
  · subst hc
    rw [hit_self] at hflits
    exact channel_taken hidle hentry hwaiting (by omega)

theorem channel_create {f : Flit} {b : List Flit} (ht : Wf net t)
    (hidle : (s.outvcState (.extIn n) v).vcState = .idle) (hout : t.outvcState =
      setEntry s.outvcState (.extIn n) v ((s.outvcState (.extIn n) v).setState .active now))
    (htaken : Taken t.flitsAt s.flitsAt (.niVc n v) f) (hni : t.niOutVcs = setEntry s.niOutVcs n v b)
    (hcredits : t.creditsFor c = s.creditsFor c) :
    s.Flows net c t := by
  have hflits : t.flitsFor net c = s.flitsFor net c := htaken.total_eq (ht.flits _ f htaken.mem).1
  refine reflGen_channel hout (fun hc => ⟨waitingFor_of_ne hni hc, by omega⟩) fun hentry hc => ?_
  subst hc
  refine channel_claimed hidle hentry ?_ (by omega)
  exact htaken.perm.length_eq

theorem channel_send {f f' : Flit} {rest : List Flit} (hs : Wf net s) (ht : Wf net t)
    (hbuf : s.niOutVcs n v = f :: rest) (hmoved : Moved s t (.niVc n v) (.out (.extIn n)) f f')
    (hvc : f'.vc = v)
    (hout : t.outvcState = setEntry s.outvcState (.extIn n) v { s.outvcState (.extIn n) v with
      creditCount := (s.outvcState (.extIn n) v).creditCount - 1 })
    (hni : t.niOutVcs = setEntry s.niOutVcs n v rest) (hcredits : t.creditsFor c = s.creditsFor c) :
    s.Flows net c t := by
  have hflits := hmoved.flitsFor hs ht c
  change t.flitsFor net c + 0 = s.flitsFor net c + hit c (some (.extIn n, f'.vc)) at hflits
  rw [hvc] at hflits
  refine reflGen_channel hout (fun hc => ⟨waitingFor_of_ne hni hc, ?_⟩) fun hentry hc => ?_
  · rw [hit_of_ne hc] at hflits
    omega
  · subst hc
    rw [hit_self] at hflits
    refine channel_sent hentry ?_ (by omega)
    change (t.niOutVcs n v).length + 1 = (s.niOutVcs n v).length
    rw [hni, setEntry_self, hbuf, length_cons]

end Steps

theorem Move.channel (h : Move net op s t) (hs : Wf net s) (c : Link × Nat) :
    s.Flows net c t := by
  have ht := hs.move h
  have hcarry {x y : Place} {f f' : Flit} (hmoved : Moved s t x y f f')
      (hchannel : y.channel net f' = x.channel net f) (hout : t.outvcState = s.outvcState)
      (hwaiting : t.waitingFor c = s.waitingFor c) (hcredits : t.creditsFor c = s.creditsFor c) :
      s.Flows net c t :=
    flows_of_eq (channel_eq (by rw [hout]) hwaiting
      (congrArg₂ (· + ·) (hmoved.flitsFor_eq hs ht hchannel c) hcredits))
  -- a flit leaves the network interface and a credit for it is sent
  have hdeliver {x : Place} {f : Flit} {n : Nat} (hmoved : Moved s t x .delivered f f)
      (hx : x.channel net f = some (.extOut n, f.vc)) (hout : t.outvcState = s.outvcState)
      (hwaiting : t.waitingFor c = s.waitingFor c)
      (hqueue : t.creditQueue = update s.creditQueue (.extOut n)
        (bufferInsert ⟨f.vc, true, s.curCycle⟩ (s.creditQueue (.extOut n))))
      (hlink : t.creditLinkBuffer = s.creditLinkBuffer) :
      s.Flows net c t := by
    have hflits := hmoved.flitsFor hs ht c
    have hcredits := creditsFor_push hqueue hlink c
    rw [hx] at hflits
    dsimp only at hcredits
    refine flows_of_eq (channel_eq (by rw [hout]) hwaiting ?_)
    change t.flitsFor net c + hit c (some (.extOut n, f.vc)) = s.flitsFor net c + 0 at hflits
    omega
  cases h with
  | @receive _ r p f f' rest dirns hr hp hbuf htime hidle harr hext hdirns =>
    have hmoved : Moved s (if net.routerLatency = 1 then s.received p.link rest f f' dirns
        else (s.received p.link rest f f' dirns).scheduleEvent (.router r) (net.routerLatency - 1))
        (.link p.link) (.vc p.link f.vc) f f' := by
      split <;> exact .received hbuf dirns
    refine hcarry hmoved rfl ?_ ?_ ?_
    all_goals split <;> rfl
  | mark hr hp hbuf hmark => exact hcarry (.marked hbuf) rfl rfl rfl rfl
  | cross hr hi hbuf hop => exact hcarry (.crossed hbuf) (by simp [Place.channel, hop]) rfl rfl rfl
  | stall hn hbuf htime => exact hcarry (.stalled hbuf) rfl rfl rfl rfl
  | link hl hbuf htime => exact hcarry (.forwarded hbuf) rfl rfl rfl rfl
  | deliver hn hbuf htime => exact hdeliver (.delivered hbuf) rfl rfl rfl rfl rfl
  | unstall hn hbuf => exact hdeliver (.unstalled hbuf) rfl rfl rfl rfl rfl
  | creditLink hl hbuf htime =>
    exact flows_of_eq (channel_eq rfl rfl (congrArg _ (creditsFor_pass hbuf rfl rfl c)))
  | credit hbuf htime hle => exact channel_credit hbuf rfl rfl rfl rfl rfl
  | grant uturn hr hp hop hhalt hbuf hport hidle hw hcredit hvnet =>
    exact channel_grant hs ht hidle rfl (.granted hbuf) (by simp [Place.channel, hop]) rfl rfl rfl
  | create hn hv hdest hlock hidle hvnet =>
    exact channel_create ht hidle rfl (taken_createFlit _ _ _ _ _) rfl rfl
  | @send _ n v f rest hn hbuf hcredit =>
    have hvc : f.vc = v := (hs.flits (.niVc n v) f (by simp [flitsAt, hbuf])).2.2.1
    exact channel_send hs ht hbuf (.sent hbuf) hvc rfl rfl rfl
  | _ => exact .refl

theorem Ledger.move (h : Ledger net s) (hs : Wf net s) (hmove : Move net op s t) : Ledger net t :=
  fun c => (h c).reflGen (hmove.channel hs c)

theorem Ledger.trace {ops : List Op} (h : Ledger net s) (hs : Wf net s)
    (htrace : Trace (Move net) ops s t) : Ledger net t := by
  refine (htrace.keeps (I := fun u => Ledger net u ∧ Wf net u) ?_ ⟨h, hs⟩).1
  exact fun _ _ _ _ hmove hu => ⟨hu.1.move hu.2 hmove, hu.2.move hmove⟩

end Moves

def LinkVc.flow (c : LinkVc) : FlowChannel where
  idle := decide (c.2.vcState = .idle)
  credit := c.2.creditCount
  max := c.2.maxCreditCount
  waiting := 0
  tokens := c.1.inputBuffer.length

section Spin

variable {net : Net} {s t : Core} {c : Link × Nat} {a b v vc now r : Nat} {d : PortDirection}

theorem LinkVc.flow_removed {k : LinkVc} (h : k.flow.Balanced) (now : Nat) :
    (k.removed now).flow.Balanced ∧ (k.removed now).1.inputBuffer = [] := by
  unfold removed
  split
  · next hempty => exact ⟨h, hempty⟩
  · next hfull =>
    have hpos : 0 < k.1.inputBuffer.length := length_pos_iff.mpr hfull
    have hsingle : 0 + k.1.inputBuffer.length ≤ 1 := h.single
    have heq : flow (k.1.drained now, k.2.returned now) = k.flow.returned := by
      ext
      · rfl
      · rfl
      · rfl
      · rfl
      · change 0 = k.1.inputBuffer.length - 1
        omega
    rw [heq]
    exact ⟨h.step (.giveBack hpos), rfl⟩

theorem LinkVc.flow_placed {k : LinkVc} (h : k.flow.Balanced) (hempty : k.1.inputBuffer = []) (f : Flit) :
    (k.placed now f).flow.Balanced := by
  have hidle : k.flow.idle = true := h.idle.mpr (by simp [flow, hempty])
  have heq : (k.placed now f).flow = k.flow.taken := by
    ext
    · rfl
    · rfl
    · rfl
    · rfl
    · exact (bufferInsert_perm f k.1.inputBuffer).length_eq
  rw [heq]
  exact h.step (.take hidle)

theorem Placed.flow {x : Option Flit} {k k' : LinkVc} (h : Placed net r now x (k.removed now) k')
    (hk : k.flow.Balanced) : k'.flow.Balanced := by
  obtain ⟨hbalanced, hempty⟩ := flow_removed hk now
  cases x with
  | none =>
    obtain rfl : k' = k.removed now := h
    exact hbalanced
  | some f =>
    obtain ⟨f', _, rfl⟩ := h
    exact flow_placed hbalanced hempty f'

theorem flitsFor_quiet (hq : Quiet net s) (hd : net.HasLink a b d) (hv : v < net.numVcs) :
    s.flitsFor net (.int a b, v) = (s.vcs (.int a b) v).inputBuffer.length := by
  obtain ⟨p, hp, hlink, _⟩ := hd.outport
  have hplace : Place.vc (.int a b) v ∈ net.places :=
    vc_mem_places.mpr ⟨int_mem_links.mpr ⟨d, hd⟩, hv⟩
  unfold flitsFor
  rw [total_eq_single hplace]
  · change (((s.vcs (.int a b) v).inputBuffer).map fun _ => hit _ (some _)).sum = _
    rw [hit_self]
    simp
  · intro y hy hne f hf
    cases y with
    | out l =>
      refine hit_of_ne fun heq => ?_
      obtain rfl : Link.int a b = l := congrArg fst heq
      rw [show s.flitsAt (.out (.int a b)) = [] from hlink ▸ hq.out a hd.lt.1 p hp] at hf
      cases hf
    | link l =>
      refine hit_of_ne fun heq => ?_
      obtain rfl : Link.int a b = l := congrArg fst heq
      rw [show s.flitsAt (.link (.int a b)) = [] from hlink ▸ hq.link a hd.lt.1 p hp] at hf
      cases hf
    | vc l w =>
      refine hit_of_ne fun heq => hne ?_
      cases heq
      rfl
    | switch r i =>
      obtain ⟨hr, hi⟩ := switch_mem_places.mp hy
      rw [show s.flitsAt (.switch r i) = [] from hq.switch r hr i hi] at hf
      cases hf
    | stall n => exact hit_of_ne nofun
    | niVc | delivered => rfl

theorem channel_quiet (hq : Quiet net s) (hd : net.HasLink a b d) (hv : v < net.numVcs) :
    s.channel net (.int a b, v) = (s.linkVc (.int a b) v).flow := by
  have hmem : Link.int a b ∈ net.links := int_mem_links.mpr ⟨d, hd⟩
  have hcredits : s.creditsFor (.int a b, v) = 0 := by
    simp [creditsFor, hq.queue a b hmem, hq.credit a b hmem]
  unfold channel flow
  rw [flitsFor_quiet hq hd hv, hcredits]
  rfl

theorem flitsFor_congr (hother : ∀ x, (∀ l v, x ≠ .vc l v) → t.flitsAt x = s.flitsAt x)
    (hvc : (t.vcs c.1 c.2).inputBuffer.length = (s.vcs c.1 c.2).inputBuffer.length) :
    t.flitsFor net c = s.flitsFor net c := by
  refine total_congr fun x _ => ?_
  cases x with
  | vc l v =>
    change ((t.vcs l v).inputBuffer.map fun _ => hit c (some (l, v))).sum =
      ((s.vcs l v).inputBuffer.map fun _ => hit c (some (l, v))).sum
    by_cases hc : c = (l, v)
    · subst hc
      simp [hvc]
    · simp [hit_of_ne hc]
  | _ =>
    refine congrArg (fun b : List Flit => (b.map _).sum) (hother _ ?_)
    exact fun _ _ => nofun

section

variable (h : Ledger net s)
include h

theorem Ledger.spin (hq : Quiet net s) (hring : net.RingOk) (hvc : vc < net.numVcs)
    (hspun : Spun net vc s t) : Ledger net t := by
  have hqt : Quiet net t := by
    rw [hspun.core]
    exact ⟨hq.switch, hq.out, hq.link, hq.queue, hq.credit⟩
  intro c
  obtain ⟨l, v⟩ := c
  by_cases hc : v = vc ∧ ∃ i < net.ringSize, l = net.ringLink (i + 1)
  · obtain ⟨rfl, i, hi, rfl⟩ := hc
    obtain ⟨_, a, b, d, _, hentry, hlink⟩ := hring.entry_succ hi
    have hplaced := hspun.channels.done i hi
    have hbalanced := h (net.ringLink (i + 1), v)
    rw [hlink] at hplaced hbalanced ⊢
    rw [channel_quiet hq hentry.hasLink hvc] at hbalanced
    rw [channel_quiet hqt hentry.hasLink hvc]
    exact hplaced.flow hbalanced
  · have hsame : t.linkVc l v = s.linkVc l v :=
      hspun.channels.rest l v fun hv i hi hl => hc ⟨hv, i, hi, hl⟩
    have hflits : t.flitsFor net (l, v) = s.flitsFor net (l, v) := by
      refine flitsFor_congr (fun x hx => ?_) (congrArg (·.1.inputBuffer.length) hsame)
      rw [hspun.core]
      cases x with
      | vc l v => exact absurd rfl (hx l v)
      | _ => rfl
    have heq : t.channel net (l, v) = s.channel net (l, v) := by
      refine channel_eq (congrArg snd hsame) ?_ ?_
      · rw [hspun.core]
        rfl
      · rw [hflits, hspun.core]
        rfl
    rw [heq]
    exact h _

theorem Ledger.stamp : Ledger net (s.flitTimesSet net) := by
  have hstamped : Stamped net s _ (s.flitTimesSet net) := flitTimesSet_stamped s
  intro c
  have hlength : ((s.flitTimesSet net).vcs c.1 c.2).inputBuffer.length =
      (s.vcs c.1 c.2).inputBuffer.length := by
    rcases hstamped.vcs c.1 c.2 with heq | heq
    · rw [heq]
    · rw [heq]
      exact length_modifyHead
  have hflits : (s.flitTimesSet net).flitsFor net c = s.flitsFor net c := by
    refine flitsFor_congr (fun x hx => ?_) hlength
    rw [hstamped.frame]
    cases x with
    | vc l v => exact absurd rfl (hx l v)
    | _ => rfl
  have heq : (s.flitTimesSet net).channel net c = s.channel net c := by
    refine channel_eq ?_ ?_ ?_
    · rw [hstamped.frame]
    · rw [hstamped.frame]
      rfl
    · rw [hflits, hstamped.frame]
      rfl
  rw [heq]
  exact h c

theorem Ledger.data (hsame : SameData s t) : Ledger net t := by
  intro c
  have hflits : t.flitsFor net c = s.flitsFor net c := by
    unfold flitsFor
    rw [hsame.flitsAt]
  have heq : t.channel net c = s.channel net c := by
    refine channel_eq ?_ ?_ ?_
    · rw [hsame]
    · rw [hsame]
      rfl
    · rw [hflits, hsame]
      rfl
  rw [heq]
  exact h c

theorem Ledger.spins (hq : Quiet net s) (hring : net.RingOk)
    (hspins : Spins net (s.drainStart net) t) : Ledger net t ∧ Quiet net t := by
  obtain ⟨calls, hcalls, htrace⟩ := hspins
  have hstart : Ledger net (s.drainStart net) ∧ Quiet net (s.drainStart net) :=
    ⟨h.data rfl, hq.switch, hq.out, hq.link, hq.queue, hq.credit⟩
  refine htrace.keeps (I := fun u => Ledger net u ∧ Quiet net u) ?_ hstart
  rintro vc hvc u v hmove ⟨hu, hqu⟩
  refine ⟨hu.spin hqu hring (lt_numVcs_of_mem_drainVcs (hcalls vc hvc)) (hmove.spun hring), ?_⟩
  rw [hmove.frame]
  exact ⟨hqu.switch, hqu.out, hqu.link, hqu.queue, hqu.credit⟩

theorem Ledger.spinPhase (hring : net.RingOk) (hphase : SpinPhase net r s t)
    (hq : releaseTime net s → s.chckLinkState net = true → Quiet net s) : Ledger net t := by
  cases hphase with
  | skip => exact h
  | halt => exact h.data rfl
  | drain _ hrelease hlink hspins =>
    exact (h.spins (hq hrelease hlink) hring hspins).1.stamp.data rfl

end

end Spin

section Failures

variable {net : Net} {s t : Core} {x : Failure} {a : Action} {vc : Nat}

def Failure.ofCredits (x : Failure) : Prop :=
  x = .creditAboveMax ∨ x = .creditBelowZero ∨ x = .headAtBusyVc

theorem creditsFor_pos {l : Link} {e : Credit} {rest : List Credit}
    (h : s.creditLinkBuffer l = e :: rest) : 0 < s.creditsFor (l, e.vc) := by
  have hpos : 0 < (s.creditLinkBuffer l).countP (·.vc = e.vc) := by
    rw [h, countP_pos_iff]
    exact ⟨e, mem_cons_self, decide_eq_true rfl⟩
  unfold creditsFor
  dsimp only
  omega

theorem two_le_flitsFor (hs : Wf net s) {l : Link} {f g : Flit} {rest : List Flit}
    (hlink : s.linkBuffer l = f :: rest) (hvc : (s.vcs l f.vc).inputBuffer = [g]) :
    2 ≤ s.flitsFor net (l, f.vc) := by
  have hf : f ∈ s.flitsAt (.link l) := by simp [flitsAt, hlink]
  have hg : g ∈ s.flitsAt (.vc l f.vc) := by simp [flitsAt, hvc]
  have hle := add_le_total (w := fun x f' => hit (l, f.vc) (x.channel net f')) (c := s.flitsAt)
    (hs.flits _ f hf).1 (hs.flits _ g hg).1 (by simp)
  have hone : ((s.flitsAt (.vc l f.vc)).map fun f' =>
      hit (l, f.vc) ((Place.vc l f.vc).channel net f')).sum = 1 := by
    simp [flitsAt, hvc, Place.channel, hit_self]
  have hpos : 1 ≤ ((s.flitsAt (.link l)).map fun f' =>
      hit (l, f.vc) ((Place.link l).channel net f')).sum := by
    simp [flitsAt, hlink, Place.channel, hit_self]
  rw [hone] at hle
  exact (Nat.add_le_add_right hpos 1).trans hle

theorem Ledger.not_fails (h : Ledger net s) (hs : Wf net s) (hx : x.ofCredits) : ¬Fails s x := by
  intro hfails
  rcases hx with rfl | rfl | rfl
  · obtain ⟨l, e, rest, hbuf, hgt⟩ := hfails
    refine hgt ((h (l, e.vc)).credit_lt ?_)
    exact Nat.add_pos_right _ (creditsFor_pos hbuf)
  · obtain ⟨l, w, hidle, hlt⟩ := hfails
    have hcredit : (s.outvcState l w).creditCount = (s.outvcState l w).maxCreditCount :=
      (h (l, w)).credit_eq (decide_eq_true hidle)
    have hmax := (hs.outvc l w).max
    have hpos := net.maxCreditCount_pos w
    omega
  · obtain ⟨l, f, rest, hlink, hbusy⟩ := hfails
    rcases (hs.vcs l f.vc).1 with ⟨_, hidle⟩ | ⟨g, hvc, _⟩
    · exact hbusy hidle
    · have htwo := two_le_flitsFor hs hlink hvc
      have hsingle : s.waitingFor (l, f.vc) + (s.flitsFor net (l, f.vc) + s.creditsFor (l, f.vc)) ≤ 1 :=
        (h (l, f.vc)).single
      omega

theorem LinkVc.removed_max (k : LinkVc) (now : Nat) :
    (k.removed now).2.maxCreditCount = k.2.maxCreditCount := by
  unfold removed
  split <;> rfl

theorem Ledger.spinSafe (h : Ledger net s) (hq : Quiet net s) (hs : Wf net s) (hring : net.RingOk)
    (hvc : vc < net.numVcs) : s.SpinSafe net vc := by
  refine ⟨fun i hi hflit => ?_, fun i hi _ => ?_⟩
  · obtain ⟨_, a, b, d, _, hentry, hlink⟩ := hring.entry hi
    have hfull : (s.vcs (net.ringLink i) vc).inputBuffer ≠ [] := fun hempty =>
      hflit (by simp [flitAt, hempty])
    have hbalanced := h (net.ringLink i, vc)
    rw [hlink] at hbalanced hfull ⊢
    rw [channel_quiet hq hentry.hasLink hvc] at hbalanced
    exact hbalanced.credit_lt (length_pos_iff.mpr hfull)
  · obtain ⟨_, a, b, d, _, hentry, hlink⟩ := hring.entry_succ hi
    have hbalanced := h (net.ringLink (i + 1), vc)
    rw [hlink] at hbalanced ⊢
    rw [channel_quiet hq hentry.hasLink hvc] at hbalanced
    obtain ⟨hremoved, hempty⟩ := flow_removed hbalanced s.curCycle
    have hcredit := hremoved.credit_eq (hremoved.idle.mpr (by simp [flow, hempty]))
    have hmax := removed_max (s.linkVc (.int a b) vc) s.curCycle
    have hwf := (hs.outvc (.int a b) vc).max
    have hpos := net.maxCreditCount_pos vc
    change (removed _ _).2.creditCount = (removed _ _).2.maxCreditCount at hcredit
    change _ = (s.outvcState (.int a b) vc).maxCreditCount at hmax
    omega

theorem SpinError.not_ofCredits (hx : SpinError net s x) (h : Ledger net s) (hq : Quiet net s)
    (hs : Wf net s) (hring : net.RingOk) : ¬x.ofCredits := by
  intro hcredits
  obtain ⟨vc, hvc, hfails⟩ := hx.2 hring
  rcases hfails with ⟨hprotocol, _⟩ | hunsafe
  · rcases hcredits with rfl | rfl | rfl <;> cases hprotocol
  · exact hunsafe (h.spinSafe hq hs hring hvc)

end Failures

section Run

variable {net : Net} {s : State} {a : Action} {x : Failure}

theorem init_ledger (net : Net) (random : Nat → Nat) : Ledger net (init net random).toCore := by
  intro c
  have hflits : (init net random).flitsFor net c = 0 :=
    total_eq_zero fun x _ f hf => by cases x <;> cases hf
  have hwaiting : (init net random).waitingFor c = 0 := by
    unfold waitingFor
    split <;> rfl
  have htokens : ((init net random).channel net c).tokens = 0 := by
    change (init net random).flitsFor net c + 0 = 0
    rw [hflits]
  have hzero : ((init net random).channel net c).waiting + 0 = 0 := hwaiting
  refine ⟨?_, ?_, ?_⟩
  · rw [htokens]
    exact Int.add_zero _
  · rw [htokens, hzero]
    exact Nat.zero_le 1
  · rw [htokens]
    exact iff_of_true rfl hzero

theorem waitingFor_eq_zero_iff {c : Core} {l : Link} {v : Nat} :
    c.waitingFor (l, v) = 0 ↔ ∀ n, l = .extIn n → c.niOutVcs n v = [] := by
  unfold waitingFor
  cases l <;> simp

theorem State.Reachable.ledger (h : s.Reachable net) (hring : net.RingOk)
    (hT : 4 ≤ net.spinThrshld) (hlatency : net.linkLatency ≤ 2) : Ledger net s.toCore := by
  refine h.induct (init_ledger net) ?_
  intro s a t hreach _ _ hstep hs
  refine hstep.keeps hreach.free.wf.1 hs Ledger.data (fun hc h hmove => h.move hc hmove) ?_
  intro r m₁ m₂ hread _ hm hphase
  exact hm.spinPhase hring hphase fun hrelease hlink =>
    hreach.quiet hT hlatency hread hrelease hlink

theorem PerformFails.not_ofCredits (hfails : PerformFails net s.toCore a x) (h : s.Reachable net)
    (hring : net.RingOk) (hT : 4 ≤ net.spinThrshld) (hlatency : net.linkLatency ≤ 2) :
    ¬x.ofCredits := by
  intro hx
  have hs := h.free.wf.1
  have hledger := h.ledger hring hT hlatency
  have hpop (k : Consumer) : Ledger net (popEvent k s.toCore) := hledger.data rfl
  have htrace {ops : List Op} {u v : Core} (hu : Ledger net u) (hwf : Wf net u)
      (htrace : Trace (Move net) ops u v) (hv : Fails v x) : False :=
    (hu.trace hwf htrace).not_fails (hwf.trace htrace) hx hv
  cases a with
  | router r =>
    cases hfails with
    | read hmoves hv => exact htrace (hpop _) (hs.popEvent _) hmoves hv
    | busy hbusy =>
      subst hbusy
      rcases hx with hx | hx | hx <;> cases hx
    | spin hread _ hrelease hlink hspins hv =>
      obtain ⟨_, hmoves, _⟩ := hread.trace
      have hwf := hread.wf (hs.popEvent _)
      have hq := h.quiet hT hlatency hread hrelease hlink
      obtain ⟨hledger', hq'⟩ := ((hpop _).trace (hs.popEvent _) hmoves).spins hq hring hspins
      exact hv.not_ofCredits hledger' hq' (hwf.drainStart.spins hspins) hring hx
    | alloc hread hphase hmoves hv =>
      obtain ⟨_, hmoves', _⟩ := hread.trace
      have hwf := hread.wf (hs.popEvent _)
      have hm := ((hpop _).trace (hs.popEvent _) hmoves').spinPhase hring hphase fun hrelease hlink =>
        h.quiet hT hlatency hread hrelease hlink
      exact htrace hm (hphase.wf hwf) hmoves hv
  | ni n slots =>
    obtain ⟨ops, t, hmoves, hv⟩ := hfails
    exact htrace (hpop _) (hs.popEvent _) hmoves hv
  | _ => exact hfails.elim

/-- In every run, for every channel and VC the credits of the sender, the flits on their way and
the credits on their way back add up to the maximum, and the output VC is idle exactly when there
is no such flit or credit and no flit waits for a credit in the network interface. No wakeup ends
with a credit count out of range or a flit for a busy VC. -/
theorem credits_balance (hring : net.RingOk) (hT : 4 ≤ net.spinThrshld)
    (hlatency : net.linkLatency ≤ 2) (h : s.Reachable net) :
    (∀ l ∈ net.links, ∀ v < net.numVcs,
      (s.outvcState l v).creditCount + s.flitsFor net (l, v) + s.creditsFor (l, v) =
        (s.outvcState l v).maxCreditCount ∧
      ((s.outvcState l v).vcState = .idle ↔
        s.flitsFor net (l, v) = 0 ∧ s.creditsFor (l, v) = 0 ∧
          ∀ n, l = .extIn n → s.niOutVcs n v = [])) ∧
    ∀ a, s.valid net a → s.perform net a ≠ .error .creditAboveMax ∧
      s.perform net a ≠ .error .creditBelowZero ∧ s.perform net a ≠ .error .headAtBusyVc := by
  refine ⟨fun l _ v _ => ?_, fun a hvalid => ?_⟩
  · have hbalanced := h.ledger hring hT hlatency (l, v)
    have hcredit : (s.outvcState l v).creditCount + ((s.flitsFor net (l, v) + s.creditsFor (l, v) :) : Nat) =
      (s.outvcState l v).maxCreditCount := hbalanced.credit
    have hidle : decide ((s.outvcState l v).vcState = .idle) = true ↔
      s.waitingFor (l, v) + (s.flitsFor net (l, v) + s.creditsFor (l, v)) = 0 := hbalanced.idle
    rw [decide_eq_true_iff] at hidle
    refine ⟨by omega, hidle.trans ?_⟩
    rw [← waitingFor_eq_zero_iff]
    omega
  · have hfails {x : Failure} (hx : x.ofCredits) : s.perform net a ≠ .error x := fun heq =>
      PerformFails.not_ofCredits ((perform_spec h.free.wf.1 h.free.wf.2 hvalid).of_error heq) h hring hT
        hlatency hx
    exact ⟨hfails (.inl rfl), hfails (.inr (.inl rfl)), hfails (.inr (.inr rfl))⟩

end Run

theorem drainedOnce_run : ∃ s : State, s.Reachable (pairNet 1 4) ∧
    s.drainLog = [7] :=
  exists_reachable (haltActions ++ [.tick, .router 0, .tick, .router 0, .tick, .router 0])
    (fun _ => 0) (by decide +kernel)

theorem credits_balance_pairNet : ∃ s : State, s.Reachable (pairNet 1 4) ∧
    s.drainLog = [7] ∧ (s.outvcState (.extIn 0) 0).creditCount +
      s.flitsFor (pairNet 1 4) (.extIn 0, 0) + s.creditsFor (.extIn 0, 0) =
        (s.outvcState (.extIn 0) 0).maxCreditCount := by
  obtain ⟨s, hreach, hlog⟩ := drainedOnce_run
  have hbalance := credits_balance pairNet_ringOk (by decide) (by decide) hreach
  exact ⟨s, hreach, hlog, (hbalance.1 (.extIn 0) (by decide) 0 (by decide)).1⟩

/-- Two messages for different virtual networks are turned into flits in one wakeup of the network
interface, which sends only one of them: the other one holds its VC, without a credit. -/
theorem vc_busy_without_tokens_pairNet : ∃ s : State,
    s.Reachable (pairNet 1 4) ∧
    Link.extIn 0 ∈ (pairNet 1 4).links ∧
    (s.outvcState (.extIn 0) 0).vcState = .active ∧
    s.flitsFor (pairNet 1 4) (.extIn 0, 0) = 0 ∧
    s.creditsFor (.extIn 0, 0) = 0 ∧ (s.niOutVcs 0 0).length = 1 :=
  exists_reachable [.message 0 0 ⟨[1], 2⟩, .message 0 1 ⟨[1], 2⟩, .tick, .tick,
    .ni 0 fun _ => true] (fun _ => 0) (by decide +kernel)

end Drain
