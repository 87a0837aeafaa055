import Drain.SpinStep

/-! `doSpin` as a whole. Its first loop takes the flit out of every position of
the ring, its second loop puts it into the next position. -/

namespace Drain

open Function List State Core Flit

/-- A VC holds at most one flit, and it is active exactly when it holds one. -/
def VcOk (net : Net) (v : VirtualChannel) : Prop :=
  (v.inputBuffer = [] ∧ v.vcState = .idle) ∨
    ∃ f, v.inputBuffer = [f] ∧ v.vcState = .active ∧ FlitOk net f

abbrev LinkVc := VirtualChannel × OutVcState

def Core.linkVc (s : Core) (l : Link) (vc : Nat) : LinkVc := (s.vcs l vc, s.outvcState l vc)

def LinkVc.removed (curTime : Nat) (c : LinkVc) : LinkVc :=
  if c.1.inputBuffer = [] then c else (c.1.drained curTime, c.2.returned curTime)

def LinkVc.placed (curTime : Nat) (f : Flit) (c : LinkVc) : LinkVc :=
  (c.1.filled f curTime, c.2.taken curTime)

def Flit.unmarked (f : Flit) : Flit := { f with hopsNeededBeforeSpin := -1 }

/-- A flit that leaves the previous position is routed anew and put into the channel. -/
def Placed (net : Net) (r curTime : Nat) (x : Option Flit) (c c' : LinkVc) : Prop :=
  match x with
  | none => c' = c
  | some f => ∃ f', Respun net r f f' ∧ c' = c.placed curTime f'

def Net.dstRouter (net : Net) : Link → Nat
  | .extIn n => net.extRouter n
  | .extOut n => net.extRouter n
  | .int _ b => b

namespace Core

def flitAt (s : Core) (net : Net) (vc i : Nat) : Option Flit :=
  (s.vcs (net.ringLink i) vc).inputBuffer.head?

/-- Enough credits for every assertion of `doSpin`. -/
structure SpinSafe (s : Core) (net : Net) (vc : Nat) : Prop where
  returned : ∀ i < net.ringSize, s.flitAt net vc i ≠ none →
    (s.outvcState (net.ringLink i) vc).creditCount + 1 ≤
      (s.outvcState (net.ringLink i) vc).maxCreditCount
  taken : ∀ i < net.ringSize, s.flitAt net vc i ≠ none →
    0 ≤ ((s.linkVc (net.ringLink (i + 1)) vc).removed s.curCycle).2.creditCount - 1

def SpinFails (s : Core) (net : Net) (vc : Nat) (x : Failure) : Prop :=
  (x.ofProtocol = false ∧ ¬net.Routable) ∨ ¬s.SpinSafe net vc

end Core

structure Removed (net : Net) (vc : Nat) (s₀ : State) (idx : Nat) (t : State × Int) : Prop where
  core : t.1.toCore = { s₀.toCore with vcs := t.1.vcs, outvcState := t.1.outvcState }
  channels : Swept net.ringLink vc idx (fun _ c c' => c' = c.removed s₀.curCycle)
    s₀.linkVc t.1.linkVc
  slots : ∀ i < idx, (t.1.spinFlit (i + 1)).map unmarked = s₀.flitAt net vc i
  count : t.2 = (range idx).countP fun i => (s₀.flitAt net vc i).isSome

structure Inserted (net : Net) (vc : Nat) (s₁ : State) (num : Int) (idx : Nat) (t : State × Int) :
    Prop where
  core : t.1.toCore = { s₁.toCore with
    vcs := t.1.vcs
    outvcState := t.1.outvcState
    outportsDirn2idx := t.1.outportsDirn2idx }
  dirns : DirnExt s₁.outportsDirn2idx t.1.outportsDirn2idx
  same : net.routingAlgorithm = .table → t.1.outportsDirn2idx = s₁.outportsDirn2idx
  slots : t.1.spinFlit = s₁.spinFlit
  channels : Swept (fun i => net.ringLink (i + 1)) vc idx
    (fun i => Placed net (net.dstRouter (net.ringLink (i + 1))) s₁.curCycle
      ((s₁.spinFlit (i + 1)).map unmarked)) s₁.linkVc t.1.linkVc
  count : t.2 = num - (range idx).countP fun i => (s₁.spinFlit (i + 1)).isSome

/-- What `doSpin` does: it only touches the ring's channels with index `vc`. -/
structure Spun (net : Net) (vc : Nat) (s s' : Core) : Prop where
  core : s' = { s with
    vcs := s'.vcs
    outvcState := s'.outvcState
    outportsDirn2idx := s'.outportsDirn2idx }
  dirns : DirnExt s.outportsDirn2idx s'.outportsDirn2idx
  same : net.routingAlgorithm = .table → s'.outportsDirn2idx = s.outportsDirn2idx
  channels : Swept (fun i => net.ringLink (i + 1)) vc net.ringSize
    (fun i c => Placed net (net.dstRouter (net.ringLink (i + 1))) s.curCycle
      (s.flitAt net vc i) (c.removed s.curCycle)) s.linkVc s'.linkVc

section Loops

variable {net : Net} {vc idx : Nat} {s₀ s₁ : State} {num : Int} {t : State × Int}

theorem FlitOk.unmarked {f : Flit} (hf : FlitOk net f) (hops : Int) :
    ({ f with hopsNeededBeforeSpin := hops } : Flit).unmarked = f := by
  have hbefore := hf.before
  obtain ⟨⟩ := f
  simp_all [Flit.unmarked]

theorem VcOk.removed {c : LinkVc} (h : VcOk net c.1) (curTime : Nat) :
    (c.removed curTime).1.inputBuffer = [] ∧ (c.removed curTime).1.vcState = .idle := by
  unfold LinkVc.removed
  split
  · rename_i hempty
    rcases h with h | ⟨f, hfull, _⟩
    · exact h
    · rw [hempty] at hfull
      cases hfull
  · exact ⟨rfl, rfl⟩

theorem VcOk.flitOk {v : VirtualChannel} {f : Flit} (h : VcOk net v)
    (hf : v.inputBuffer.head? = some f) : FlitOk net f := by
  rcases h with ⟨hempty, _⟩ | ⟨g, hfull, _, hg⟩
  · rw [hempty] at hf
    cases hf
  · rw [hfull] at hf
    cases hf
    exact hg

section

variable (hring : net.RingOk)
include hring

theorem Removed.step (hd : DirnOk net s₀.outportsDirn2idx)
    (hok : ∀ i < net.ringSize, VcOk net (s₀.vcs (net.ringLink i) vc)) (hi : idx < net.ringSize)
    (h : Removed net vc s₀ idx t) :
    Holds (removeFlit net vc t idx) (Removed net vc s₀ (idx + 1))
      (s₀.SpinFails net vc) := by
  obtain ⟨s, num⟩ := t
  obtain ⟨e, a, b, d, he, hentry, hl⟩ := hring.entry hi
  have hinj : ∀ i < idx, net.ringLink i ≠ net.ringLink idx := fun i hlt heq => by
    have := hring.ringLink_inj (by omega) hi heq
    omega
  have hchan : s.linkVc (net.ringLink idx) vc = s₀.linkVc (net.ringLink idx) vc :=
    h.channels.next_eq hinj
  have hvc : s.vcs (.int a b) vc = s₀.vcs (.int a b) vc := by
    rw [hl] at hchan
    exact congrArg Prod.fst hchan
  have hout : s.outvcState (.int a b) vc = s₀.outvcState (.int a b) vc := by
    rw [hl] at hchan
    exact congrArg Prod.snd hchan
  have hcur : s.curCycle = s₀.curCycle := (congrArg curCycle h.core :)
  have hslots {x : Option Flit} (hx : x.map unmarked = s₀.flitAt net vc idx) : ∀ i < idx + 1,
      (update s.spinFlit (idx + 1) x (i + 1)).map unmarked = s₀.flitAt net vc i := by
    intro i hlt
    rcases Nat.lt_succ_iff_lt_or_eq.mp hlt with hlt | rfl
    · rw [update_of_ne (by omega)]
      exact h.slots i hlt
    · rwa [update_self]
  rcases hok idx hi with ⟨hempty, _⟩ | ⟨f, hfull, _, hf⟩
  · have hnone : s₀.flitAt net vc idx = none := by
      simp [flitAt, hempty]
    rw [hl] at hempty
    rw [removeFlit_empty he hentry (hvc ▸ hempty), holds_ok]
    refine ⟨h.core, ?_, hslots (by simp [hnone]), ?_⟩
    · refine h.channels.succ hinj ?_ fun _ _ _ => rfl
      show s.linkVc _ _ = _
      rw [LinkVc.removed, if_pos]
      rw [hchan, hl]
      exact hempty
    · rw [range_succ, countP_append, h.count]
      simp [hnone]
  · have hsome : s₀.flitAt net vc idx = some f := by
      simp [flitAt, hfull]
    obtain ⟨e', _, _, _, he', _, _⟩ := hring.entry_succ hi
    have hdirns : s.outportsDirn2idx = s₀.outportsDirn2idx :=
      (congrArg outportsDirn2idx h.core :)
    rw [hl] at hfull
    refine (removeFlit_full he hentry ⟨e', he'⟩ (hdirns ▸ hd) (hvc ▸ hfull) hf).mono ?_ ?_
    · rintro _ _ ⟨stats, hops, rfl⟩
      refine ⟨?_, ?_, hslots ?_, ?_⟩
      · dsimp only
        rw [h.core]
      · refine h.channels.succ hinj ?_ ?_
        · unfold linkVc LinkVc.removed
          dsimp only
          rw [hl, setEntry_self, setEntry_self, hvc, hfull, hcur, if_neg (cons_ne_nil f [])]
        · intro l v hne
          rw [hl] at hne
          unfold linkVc
          dsimp only
          rw [setEntry_of_ne _ _ hne, setEntry_of_ne _ _ hne]
      · rw [hsome, Option.map_some, hf.unmarked]
      · rw [range_succ, countP_append, Nat.cast_add, ← h.count]
        simp [hsome]
    · intro _ _ hbad
      refine hbad.imp_right fun hbad hsafe => hbad ?_
      have := hsafe.returned idx hi (by simp [hsome])
      rwa [hl, ← hout] at this

theorem Inserted.step (hd : DirnOk net s₁.outportsDirn2idx)
    (hslot : ∀ i < net.ringSize, ∀ f, (s₁.spinFlit (i + 1)).map unmarked = some f → FlitOk net f)
    (hidle : ∀ i < net.ringSize, (s₁.vcs (net.ringLink (i + 1)) vc).vcState = .idle)
    (hi : idx < net.ringSize) (h : Inserted net vc s₁ num idx t) :
    Holds (insertSpun net vc t (1 + idx)) (Inserted net vc s₁ num (idx + 1))
      (fun x => (x.ofProtocol = false ∧ ¬net.Routable) ∨
        ¬∀ i < net.ringSize, s₁.spinFlit (i + 1) ≠ none →
          0 ≤ (s₁.outvcState (net.ringLink (i + 1)) vc).creditCount - 1) := by
  obtain ⟨s, num'⟩ := t
  obtain ⟨e, a, b, d, he, hentry, hl⟩ := hring.entry_succ hi
  have hinj : ∀ i < idx, net.ringLink (i + 1) ≠ net.ringLink (idx + 1) := fun i hlt heq => by
    have := hring.ringLink_succ_inj (by omega) hi heq
    omega
  have hchan : s.linkVc (net.ringLink (idx + 1)) vc = s₁.linkVc (net.ringLink (idx + 1)) vc :=
    h.channels.next_eq hinj
  have hvc : s.vcs (.int a b) vc = s₁.vcs (.int a b) vc := by
    rw [hl] at hchan
    exact congrArg Prod.fst hchan
  have hout : s.outvcState (.int a b) vc = s₁.outvcState (.int a b) vc := by
    rw [hl] at hchan
    exact congrArg Prod.snd hchan
  have hcur : s.curCycle = s₁.curCycle := (congrArg curCycle h.core :)
  have hslots : s.spinFlit = s₁.spinFlit := h.slots
  rw [add_comm 1 idx]
  cases hx : s₁.spinFlit (idx + 1) with
  | none =>
    rw [insertSpun_none (by rw [hslots, hx]), holds_ok]
    refine ⟨h.core, h.dirns, h.same, h.slots, ?_, ?_⟩
    · refine h.channels.succ hinj ?_ fun _ _ _ => rfl
      rw [hx]
      rfl
    · rw [range_succ, countP_append, h.count]
      simp [hx]
  | some g =>
    have hf : FlitOk net g.unmarked := hslot idx hi _ (by rw [hx]; rfl)
    have hv : (s.vcs (.int a b) vc).vcState = .idle := by
      have := hidle idx hi
      rwa [hl, ← hvc] at this
    have hg : s.spinFlit (idx + 1) =
        some { g.unmarked with hopsNeededBeforeSpin := g.hopsNeededBeforeSpin } := by
      rw [hslots, hx]
      rfl
    refine (insertSpun_some he hentry (hd.ext h.dirns) hg hf hv).mono ?_ ?_
    · rintro _ _ ⟨stats, random, dirns, f', hf', hext, hsame, rfl⟩
      refine ⟨?_, h.dirns.trans hext, fun htable => (hsame htable).trans (h.same htable), h.slots,
        ?_, ?_⟩
      · dsimp only
        rw [h.core]
      · refine h.channels.succ hinj ?_ ?_
        · rw [hx, hl]
          refine ⟨f', hf', ?_⟩
          unfold linkVc LinkVc.placed
          dsimp only
          rw [setEntry_self, setEntry_self, hcur]
        · intro l v hne
          rw [hl] at hne
          unfold linkVc
          dsimp only
          rw [setEntry_of_ne _ _ hne, setEntry_of_ne _ _ hne]
      · have hcount : num' = _ := h.count
        rw [range_succ, countP_append, hcount]
        simp [hx]
        omega
    · intro _ _ hbad
      refine hbad.imp_right fun hbad hsafe => hbad ?_
      have := hsafe idx hi (by simp [hx])
      rwa [hl, ← hout] at this

theorem spunPktNum_eq (s : State) : s.spunPktNum net vc =
    (range net.ringSize).countP fun i => (s.flitAt net vc i).isSome := by
  let full : Link → Bool := fun l => !(s.vcs l vc).inputBuffer.isEmpty
  have hfull : (fun i => (s.flitAt net vc i).isSome) = full ∘ net.ringLink := by
    funext i
    unfold flitAt
    simp only [full, Function.comp_apply]
    cases (s.vcs (net.ringLink i) vc).inputBuffer <;> rfl
  rw [hfull, ← countP_map, hring.map_ringLink.countP_eq, countP_flatMap]
  unfold spunPktNum
  congr 1
  refine map_congr_left fun r _ => ?_
  rw [Function.comp_apply, countP_map, countP_filter]
  refine countP_congr fun p _ => ?_
  simp [full, and_comm]

theorem Removed.linkVc_succ (h : Removed net vc s₀ net.ringSize t)
    (hi : idx < net.ringSize) : t.1.linkVc (net.ringLink (idx + 1)) vc =
      (s₀.linkVc (net.ringLink (idx + 1)) vc).removed s₀.curCycle := by
  rw [hring.ringLink_mod hi]
  exact h.channels.done _ (Nat.mod_lt _ (by omega))

theorem Removed.spun (h : Removed net vc s₀ net.ringSize (s₁, num))
    (h' : Inserted net vc s₁ num net.ringSize t) : Spun net vc s₀.toCore t.1.toCore := by
  have hcore : s₁.toCore = { s₀.toCore with vcs := s₁.vcs, outvcState := s₁.outvcState } := h.core
  have hcur : s₁.curCycle = s₀.curCycle := by rw [hcore]
  have hdirns : s₁.outportsDirn2idx = s₀.outportsDirn2idx := by rw [hcore]
  refine ⟨?_, hdirns ▸ h'.dirns, fun htable => (h'.same htable).trans hdirns, ?_, ?_⟩
  · rw [h'.core, hcore]
  · intro i hi
    have hplaced := h'.channels.done i hi
    rwa [h.linkVc_succ hring hi, h.slots i hi, hcur] at hplaced
  · intro l v hne
    rw [h'.channels.rest l v hne]
    refine h.channels.rest l v fun hv i hi hl => ?_
    obtain ⟨j, hj, hji⟩ := hring.exists_pred hi
    exact hne hv j hj (hl.trans hji.symm)

theorem doSpin_spun {s : State} (hd : DirnOk net s.outportsDirn2idx)
    (hok : ∀ i < net.ringSize, VcOk net (s.vcs (net.ringLink i) vc)) :
    Holds (s.doSpin net vc) (fun s' => Spun net vc s.toCore s'.toCore) (s.SpinFails net vc) := by
  unfold doSpin
  dsimp only
  rw [holds_bind]
  have hstart : Removed net vc s 0
      ({ s with stats := { s.stats with totalSpins := s.stats.totalSpins + 1 } }, 0) :=
    ⟨rfl, .zero, fun _ hi => absurd hi (Nat.not_lt_zero _), rfl⟩
  refine (holds_foldlM_range (Removed net vc s) hstart fun i hi t ht =>
    ht.step hring hd hok hi).imp ?_
  rintro ⟨s₁, num⟩ h₁
  have hdirns : s₁.outportsDirn2idx = s.outportsDirn2idx :=
    (congrArg outportsDirn2idx h₁.core :)
  have hnum : num = (range net.ringSize).countP fun i => (s.flitAt net vc i).isSome := h₁.count
  have hslots : ∀ i < net.ringSize, (s₁.spinFlit (i + 1)).map unmarked = s.flitAt net vc i :=
    h₁.slots
  have hchan : ∀ i < net.ringSize, s₁.linkVc (net.ringLink (i + 1)) vc =
      (s.linkVc (net.ringLink (i + 1)) vc).removed s.curCycle :=
    fun i hi => h₁.linkVc_succ hring hi
  dsimp only
  refine holds_require_bind (by rw [spunPktNum_eq hring, hnum]) ?_
  rw [holds_bind, range'_eq_map_range, foldlM_map]
  have hsome : ∀ i < net.ringSize, (s₁.spinFlit (i + 1)).isSome = (s.flitAt net vc i).isSome := by
    intro i hi
    rw [← hslots i hi, Option.isSome_map]
  have hok₁ : ∀ i < net.ringSize, (s₁.vcs (net.ringLink (i + 1)) vc).vcState = .idle := by
    intro i hi
    have hvc : VcOk net (s.linkVc (net.ringLink (i + 1)) vc).1 := by
      rw [hring.ringLink_mod hi]
      exact hok _ (Nat.mod_lt _ (by omega))
    have := (hvc.removed s.curCycle).2
    rwa [← hchan i hi] at this
  have hstart₁ : Inserted net vc s₁ num 0 (s₁, num) :=
    ⟨rfl, .refl _, fun _ => rfl, rfl, .zero, by simp⟩
  refine (holds_foldlM_range (Inserted net vc s₁ num) hstart₁ fun i hi t ht =>
    ht.step hring (hdirns ▸ hd) ?_ hok₁ hi).mono ?_ ?_
  · intro i hi f hf
    exact (hok i hi).flitOk ((hslots i hi).symm.trans hf)
  · rintro ⟨s₂, num₂⟩ _ h₂
    have hnum₂ : num₂ = 0 := by
      have hcount : num₂ = _ := h₂.count
      rw [hcount, hnum, countP_congr (p := fun i => (s₁.spinFlit (i + 1)).isSome)
        (q := fun i => (s.flitAt net vc i).isSome), sub_self]
      intro i hi
      rw [hsome i (mem_range.mp hi)]
    dsimp only
    exact holds_require_bind hnum₂ (h₁.spun hring h₂)
  · intro _ _ hbad
    refine hbad.imp_right fun hbad hsafe => hbad fun i hi hne => ?_
    have := hsafe.taken i hi (by
      rw [← hslots i hi]
      simpa using hne)
    rwa [← hchan i hi] at this

end

end Loops

end Drain
