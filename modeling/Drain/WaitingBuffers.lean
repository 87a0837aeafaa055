import Drain.BufferCalls

/-! The stalled messages of a controller. The messages wait in the buffers of its in-ports, and the
controller records for each address which buffers have some (`AbstractController.cc`). -/

namespace Drain

open Function List AList

variable {α : Type}

/-- `waitingBuffers` has for an address one entry per in-port rank. -/
structure AbstractController (α : Type) where
  inPorts : Nat
  curInPort : Nat := 0
  buffers : Nat → CountedBuffer α
  waitingBuffers : AList fun _ : Nat => List (Option Nat) := ∅

namespace AbstractController

section Wakeups

variable (s : AbstractController α) (clockEdge : Nat)

def stallBuffer (buf addr : Nat) : Except Failure (AbstractController α) := do
  let msgVec := (s.waitingBuffers.lookup addr).getD (replicate s.inPorts none)
  require (s.curInPort < s.inPorts) .portRange
  pure { s with waitingBuffers := s.waitingBuffers.insert addr (msgVec.set s.curInPort (some buf)) }

def stallAndWait (buf addr : Nat) : Except Failure (AbstractController α) := do
  let s ← s.stallBuffer buf addr
  let b ← (s.buffers buf).stallMessage clockEdge addr
  pure { s with buffers := update s.buffers buf b }

/-- One rank of the loops of `wakeUpBuffers` and `wakeUpAllBuffers`. -/
def wakeRank (addr : Nat) (msgVec : List (Option Nat)) (buffers : Nat → CountedBuffer α)
    (rank : Nat) : Except Failure (Nat → CountedBuffer α) :=
  match msgVec[rank]? with
  | some (some buf) => do
    let b ← (buffers buf).reanalyzeMessages clockEdge addr
    pure (update buffers buf b)
  | _ => pure buffers

def wakeRanks (addr : Nat) (ranks : List Nat) : Except Failure (AbstractController α) :=
  match s.waitingBuffers.lookup addr with
  | none => pure s
  | some msgVec => do
    let buffers ← ranks.foldlM (wakeRank clockEdge addr msgVec) s.buffers
    pure { s with buffers, waitingBuffers := s.waitingBuffers.erase addr }

/-- The buffers of lower rank than the current port. -/
def wakeUpBuffers (addr : Nat) : Except Failure (AbstractController α) :=
  s.wakeRanks clockEdge addr (range s.curInPort).reverse

def wakeUpAllBuffersOf (addr : Nat) : Except Failure (AbstractController α) :=
  s.wakeRanks clockEdge addr (range s.inPorts).reverse

def wakeOnce (x : (Nat → CountedBuffer α) × List Nat) (buf : Nat) :
    Except Failure ((Nat → CountedBuffer α) × List Nat) :=
  if buf ∈ x.2 then pure x
  else do
    let b ← (x.1 buf).reanalyzeAllMessages clockEdge
    pure (update x.1 buf b, buf :: x.2)

-- each buffer is reanalyzed once, so that the order of the addresses makes no difference
def wakeUpAllBuffers : Except Failure (AbstractController α) := do
  let recorded := s.waitingBuffers.entries.flatMap fun e => e.2.filterMap id
  let (buffers, _) ← recorded.foldlM (wakeOnce clockEdge) (s.buffers, [])
  pure { s with buffers, waitingBuffers := ∅ }

end Wakeups

inductive Action (α : Type) where
  | stallAndWait (buf addr : Nat)
  | wakeUpBuffers (addr : Nat)
  | wakeUpAllBuffersOf (addr : Nat)
  | wakeUpAllBuffers
  | enqueue (buf : Nat) (message : α) (delta : Nat)
  | dequeue (buf : Nat)
  | recycle (buf latency : Nat)

section Runs

variable (s : AbstractController α)

def callBuffer (clockEdge buf : Nat) (c : BufferCall α) : Except Failure (AbstractController α) := do
  let b ← (s.buffers buf).call clockEdge c
  pure { s with buffers := update s.buffers buf b }

def perform (clockEdge port : Nat) (a : Action α) : Except Failure (AbstractController α) :=
  let s := { s with curInPort := port }
  match a with
  | .stallAndWait buf addr => s.stallAndWait clockEdge buf addr
  | .wakeUpBuffers addr => s.wakeUpBuffers clockEdge addr
  | .wakeUpAllBuffersOf addr => s.wakeUpAllBuffersOf clockEdge addr
  | .wakeUpAllBuffers => s.wakeUpAllBuffers clockEdge
  | .enqueue buf message delta => s.callBuffer clockEdge buf (.enqueue message delta)
  | .dequeue buf => s.callBuffer clockEdge buf .dequeue
  | .recycle buf latency => s.callBuffer clockEdge buf (.recycle latency)

def init (α : Type) (inPorts maxSize blockSizeBits : Nat) : AbstractController α where
  inPorts := inPorts
  buffers := fun _ => .init α maxSize blockSizeBits

def Records (addr buf : Nat) : Prop :=
  ∃ msgVec, s.waitingBuffers.lookup addr = some msgVec ∧ some buf ∈ msgVec

def HasStalled (buf addr : Nat) : Prop := ∃ m, (addr, m) ∈ (s.buffers buf).stallMsgMap

/-- A port stalls its own buffer only, and it wakes up the lower ranks only when no other waits. -/
def Careful (port : Nat) : Action α → Prop
  | .stallAndWait buf _ => buf = port
  | .wakeUpBuffers addr => ∀ buf, s.Records addr buf → buf < port
  | .wakeUpAllBuffersOf _ | .wakeUpAllBuffers | .enqueue _ _ _ | .dequeue _ | .recycle _ _ => True

def Step (P : AbstractController α → Nat → Action α → Prop) (s s' : AbstractController α) : Prop :=
  ∃ clockEdge port a, port < s.inPorts ∧ P s port a ∧ s.perform clockEdge port a = .ok s'

def Reachable (P : AbstractController α → Nat → Action α → Prop) (inPorts maxSize : Nat)
    (s : AbstractController α) : Prop :=
  ∃ blockSizeBits, Relation.ReflTransGen (Step P) (init α inPorts maxSize blockSizeBits) s

end Runs

section Invariant

variable {s s' : AbstractController α} {clockEdge port addr buf : Nat}

/-- Buffers are recorded under their own rank, and exactly for the addresses for which they have
stalled messages. -/
structure Ok (s : AbstractController α) : Prop where
  sizes : ∀ buf, (s.buffers buf).stallMapSize = (s.buffers buf).stallMsgMap.length
  length : ∀ addr (msgVec : List (Option Nat)), s.waitingBuffers.lookup addr = some msgVec →
    msgVec.length = s.inPorts
  ranks : ∀ addr (msgVec : List (Option Nat)), s.waitingBuffers.lookup addr = some msgVec →
    ∀ rank buf : Nat, msgVec[rank]? = some (some buf) → buf = rank
  stalled : ∀ addr buf, s.HasStalled buf addr ↔ s.Records addr buf

theorem Ok.getElem (h : s.Ok) {msgVec : List (Option Nat)}
    (hvec : s.waitingBuffers.lookup addr = some msgVec) :
    some buf ∈ msgVec ↔ msgVec[buf]? = some (some buf) := by
  refine ⟨fun hmem => ?_, mem_of_getElem?⟩
  obtain ⟨rank, hrank⟩ := mem_iff_getElem?.mp hmem
  rwa [← h.ranks addr msgVec hvec rank buf hrank] at hrank

theorem reanalyzeMessages_ok (clockEdge : Nat) {b : CountedBuffer α}
    (hsize : b.stallMapSize = b.stallMsgMap.length) (hstalled : ∃ m, (addr, m) ∈ b.stallMsgMap) :
    ∃ b', b.reanalyzeMessages clockEdge addr = .ok b' := by
  obtain ⟨m, hm⟩ := hstalled
  have hle := countP_le_length (p := fun x : Nat × α => decide (x.1 = addr)) (l := b.stallMsgMap)
  have hne : b.stallMsgMap.filter (fun x => decide (x.1 = addr)) ≠ [] :=
    ne_nil_of_mem (mem_filter.mpr ⟨hm, decide_eq_true rfl⟩)
  obtain ⟨r, hr⟩ : ∃ r, b.toMessageBuffer.reanalyzeMessages addr clockEdge = .ok r := by
    unfold MessageBuffer.reanalyzeMessages
    rw [partition_eq_filter_filter]
    exact ⟨_, bind_eq_ok.mpr ⟨⟨⟩, require_eq_ok.mpr hne, rfl⟩⟩
  exact ⟨_, bind_eq_ok.mpr ⟨⟨⟩, require_eq_ok.mpr (by omega), bind_eq_ok.mpr ⟨r, hr, rfl⟩⟩⟩

theorem reanalyzeAllMessages_ok (clockEdge : Nat) {b : CountedBuffer α}
    (hsize : b.stallMapSize = b.stallMsgMap.length) :
    ∃ b', b.reanalyzeAllMessages clockEdge = .ok b' :=
  ⟨_, bind_eq_ok.mpr ⟨⟨⟩, require_eq_ok.mpr (by omega), rfl⟩⟩

section Loops

variable {msgVec : List (Option Nat)} {ranks : List Nat} {buffers : Nat → CountedBuffer α}
  (hvec : ∀ rank buf : Nat, msgVec[rank]? = some (some buf) → buf = rank)

include hvec

theorem wakeRank_spec (clockEdge addr : Nat) {rank : Nat} (hstalled : msgVec[rank]? = some (some rank) →
      (buffers rank).stallMapSize = (buffers rank).stallMsgMap.length ∧
        ∃ m, (addr, m) ∈ (buffers rank).stallMsgMap) :
    ∃ buffers', wakeRank clockEdge addr msgVec buffers rank = .ok buffers' ∧ ∀ buf,
      if buf = rank ∧ msgVec[buf]? = some (some buf) then
        Called (buffers buf) clockEdge (.reanalyzeMessages addr) (buffers' buf)
      else buffers' buf = buffers buf := by
  by_cases hrank : msgVec[rank]? = some (some rank)
  · obtain ⟨hsize, hm⟩ := hstalled hrank
    obtain ⟨b, hb⟩ := reanalyzeMessages_ok clockEdge hsize hm
    refine ⟨update buffers rank b, ?_, fun buf => ?_⟩
    · unfold wakeRank
      rw [hrank]
      exact bind_eq_ok.mpr ⟨b, hb, rfl⟩
    · split
      · next hbuf =>
        rw [hbuf.1, update_self]
        exact CountedBuffer.call_called (c := .reanalyzeMessages addr) hb
      · next hbuf =>
        refine update_of_ne (fun heq => hbuf ⟨heq, ?_⟩) _ _
        rwa [heq]
  · refine ⟨buffers, ?_, fun buf => ?_⟩
    · unfold wakeRank
      split
      · next buf hbuf =>
        rw [hvec rank buf hbuf] at hbuf
        exact absurd hbuf hrank
      · rfl
    · rw [if_neg]
      rintro ⟨rfl, hbuf⟩
      exact hrank hbuf

theorem wakeRank_foldlM (clockEdge addr : Nat) (hnodup : ranks.Nodup)
    (hstalled : ∀ rank ∈ ranks, msgVec[rank]? = some (some rank) →
      (buffers rank).stallMapSize = (buffers rank).stallMsgMap.length ∧
        ∃ m, (addr, m) ∈ (buffers rank).stallMsgMap) :
    ∃ buffers', ranks.foldlM (wakeRank clockEdge addr msgVec) buffers = .ok buffers' ∧ ∀ buf,
      if buf ∈ ranks ∧ msgVec[buf]? = some (some buf) then
        Called (buffers buf) clockEdge (.reanalyzeMessages addr) (buffers' buf)
      else buffers' buf = buffers buf := by
  induction ranks generalizing buffers with
  | nil => exact ⟨buffers, rfl, fun buf => by simp⟩
  | cons rank ranks ih =>
    obtain ⟨hfresh, hnodup⟩ := nodup_cons.mp hnodup
    obtain ⟨buffers₁, hwake, hspec₁⟩ := wakeRank_spec hvec clockEdge addr
      (hstalled rank mem_cons_self)
    have hother {buf : Nat} (hne : buf ≠ rank) : buffers₁ buf = buffers buf := by
      have hspec := hspec₁ buf
      rwa [if_neg fun hmem => hne hmem.1] at hspec
    obtain ⟨buffers', hfold, hspec⟩ := @ih buffers₁ hnodup fun r hr hr' => by
      rw [hother fun heq => hfresh (heq ▸ hr)]
      exact hstalled r (mem_cons_of_mem rank hr) hr'
    refine ⟨buffers', ?_, fun buf => ?_⟩
    · rw [foldlM_cons, hwake]
      exact hfold
    · have hspec := hspec buf
      by_cases heq : buf = rank
      · subst heq
        have hspec₁ := hspec₁ buf
        rw [if_neg fun hmem => hfresh hmem.1] at hspec
        rw [hspec]
        simpa using hspec₁
      · rw [hother heq] at hspec
        simpa [heq] using hspec

end Loops

theorem wakeOnce_foldlM (clockEdge : Nat) (bufs woken : List Nat) {buffers : Nat → CountedBuffer α}
    (hsizes : ∀ buf, (buffers buf).stallMapSize = (buffers buf).stallMsgMap.length) :
    ∃ x, bufs.foldlM (wakeOnce clockEdge) (buffers, woken) = .ok x ∧ ∀ buf,
      if buf ∈ bufs ∧ buf ∉ woken then
        Called (buffers buf) clockEdge .reanalyzeAllMessages (x.1 buf)
      else x.1 buf = buffers buf := by
  induction bufs generalizing buffers woken with
  | nil => exact ⟨_, rfl, fun buf => by simp⟩
  | cons buf bufs ih =>
    by_cases hbuf : buf ∈ woken
    · obtain ⟨x, hx, hspec⟩ := ih woken hsizes
      refine ⟨x, ?_, fun buf' => ?_⟩
      · rw [foldlM_cons, wakeOnce, if_pos hbuf]
        exact hx
      · have hspec := hspec buf'
        by_cases heq : buf' = buf
        · subst heq
          simpa [hbuf] using hspec
        · simpa [heq] using hspec
    · obtain ⟨b, hb⟩ := reanalyzeAllMessages_ok clockEdge (hsizes buf)
      have hcalled := CountedBuffer.call_called (c := .reanalyzeAllMessages) hb
      obtain ⟨x, hx, hspec⟩ := @ih (buf :: woken) (update buffers buf b)
        fun buf' => by
          by_cases heq : buf' = buf
          · subst heq
            have hkeep := hcalled.stallMapSize
            have hsize := hsizes buf'
            rw [update_self]
            omega
          · rw [update_of_ne heq]
            exact hsizes buf'
      refine ⟨x, ?_, fun buf' => ?_⟩
      · rw [foldlM_cons, wakeOnce, if_neg hbuf]
        exact bind_eq_ok.mpr ⟨_, bind_eq_ok.mpr ⟨b, hb, rfl⟩, hx⟩
      · have hspec := hspec buf'
        by_cases heq : buf' = buf
        · subst heq
          rw [if_neg (by simp), update_self] at hspec
          rw [if_pos ⟨mem_cons_self, hbuf⟩, hspec]
          exact hcalled
        · rw [update_of_ne heq] at hspec
          simpa [heq] using hspec

theorem lookup_erase_eq_some {β : Type} {m : AList fun _ : Nat => β} {a : Nat} {v : β} :
    (m.erase addr).lookup a = some v ↔ a ≠ addr ∧ m.lookup a = some v := by
  by_cases heq : a = addr
  · subst heq
    simp [lookup_erase]
  · simp [heq, lookup_erase_ne heq]

theorem Records.iff (h : s.Ok) {msgVec : List (Option Nat)}
    (hvec : s.waitingBuffers.lookup addr = some msgVec) :
    s.Records addr buf ↔ msgVec[buf]? = some (some buf) := by
  rw [← h.getElem hvec]
  unfold Records
  simp [hvec]

theorem Ok.lt_inPorts (h : s.Ok) (hrecords : s.Records addr buf) : buf < s.inPorts := by
  obtain ⟨msgVec, hvec, hmem⟩ := hrecords
  rw [← h.length addr msgVec hvec]
  exact (List.getElem?_eq_some_iff.mp ((h.getElem hvec).mp hmem)).1

theorem Ok.wakeRanks (h : s.Ok) {ranks : List Nat} (hnodup : ranks.Nodup)
    (hall : ∀ buf, s.Records addr buf → buf ∈ ranks) :
    ∃ s', s.wakeRanks clockEdge addr ranks = .ok s' ∧ s'.Ok ∧ s'.inPorts = s.inPorts ∧
      ∀ buf, ¬s'.HasStalled buf addr := by
  unfold AbstractController.wakeRanks
  split
  · next hnone =>
    refine ⟨s, rfl, h, rfl, fun buf hstalled => ?_⟩
    obtain ⟨msgVec, hvec, _⟩ := (h.stalled addr buf).mp hstalled
    rw [hnone] at hvec
    cases hvec
  · next msgVec hvec =>
    obtain ⟨buffers, hfold, hspec⟩ := wakeRank_foldlM (h.ranks addr msgVec hvec) clockEdge addr
      hnodup fun rank _ hrank =>
        ⟨h.sizes rank, (h.stalled addr rank).mpr ((Records.iff h hvec).mpr hrank)⟩
    have hbuffers (buf : Nat) : (buffers buf).stallMapSize = (buffers buf).stallMsgMap.length ∧
        (buffers buf).stallMsgMap = (s.buffers buf).stallMsgMap.filter (¬·.1 = addr) := by
      have hspec := hspec buf
      have hsize := h.sizes buf
      by_cases hrecords : s.Records addr buf
      · rw [if_pos ⟨hall buf hrecords, (Records.iff h hvec).mp hrecords⟩] at hspec
        have hkeep := hspec.stallMapSize
        exact ⟨by omega, hspec.reanalyzed⟩
      · rw [if_neg fun hmem => hrecords ((Records.iff h hvec).mpr hmem.2)] at hspec
        rw [hspec]
        refine ⟨hsize, (filter_eq_self.mpr fun x hx => decide_eq_true ?_).symm⟩
        rintro rfl
        exact hrecords ((h.stalled x.1 buf).mp ⟨x.2, hx⟩)
    have hstalled (buf a : Nat) : (∃ m, (a, m) ∈ (buffers buf).stallMsgMap) ↔
        a ≠ addr ∧ s.HasStalled buf a := by
      rw [(hbuffers buf).2]
      simp [HasStalled, and_comm]
    refine ⟨_, bind_eq_ok.mpr ⟨buffers, hfold, rfl⟩, ⟨fun buf => (hbuffers buf).1, ?_, ?_, ?_⟩, rfl,
      fun buf hbuf => ((hstalled buf addr).mp hbuf).1 rfl⟩
    · exact fun a v hv => h.length a v (lookup_erase_eq_some.mp hv).2
    · exact fun a v hv => h.ranks a v (lookup_erase_eq_some.mp hv).2
    · intro a buf
      refine (hstalled buf a).trans ?_
      rw [h.stalled a buf]
      simp only [Records, lookup_erase_eq_some, and_assoc, exists_and_left]

theorem Ok.wakeUpAllBuffers (h : s.Ok) (clockEdge : Nat) :
    ∃ s', s.wakeUpAllBuffers clockEdge = .ok s' ∧ s'.Ok ∧ s'.inPorts = s.inPorts ∧
      ∀ addr buf, ¬s'.HasStalled buf addr := by
  obtain ⟨x, hfold, hspec⟩ := wakeOnce_foldlM clockEdge
    (s.waitingBuffers.entries.flatMap fun e => e.2.filterMap id) [] h.sizes
  have hrecorded {addr buf : Nat} (hrecords : s.Records addr buf) :
      buf ∈ s.waitingBuffers.entries.flatMap fun e => e.2.filterMap id := by
    obtain ⟨msgVec, hvec, hmem⟩ := hrecords
    exact mem_flatMap.mpr ⟨⟨addr, msgVec⟩, mem_lookup_iff.mp hvec,
      mem_filterMap.mpr ⟨some buf, hmem, rfl⟩⟩
  have hbuffers (buf : Nat) : (x.1 buf).stallMapSize = (x.1 buf).stallMsgMap.length ∧
      (x.1 buf).stallMsgMap = [] := by
    have hspec := hspec buf
    have hsize := h.sizes buf
    split at hspec
    · have hkeep := hspec.stallMapSize
      exact ⟨by omega, hspec.allReanalyzed⟩
    · next hnot =>
      rw [hspec]
      refine ⟨hsize, eq_nil_iff_forall_not_mem.mpr fun y hy => hnot ⟨?_, not_mem_nil⟩⟩
      exact hrecorded ((h.stalled y.1 buf).mp ⟨y.2, hy⟩)
  have hnone (addr buf : Nat) : ¬∃ m, (addr, m) ∈ (x.1 buf).stallMsgMap := by
    rw [(hbuffers buf).2]
    exact nofun
  refine ⟨_, bind_eq_ok.mpr ⟨x, hfold, rfl⟩, ⟨fun buf => (hbuffers buf).1, nofun, nofun, ?_⟩, rfl,
    hnone⟩
  intro addr buf
  refine ⟨fun hstalled => absurd hstalled (hnone addr buf), ?_⟩
  rintro ⟨msgVec, hvec, _⟩
  cases hvec

theorem Ok.msgVec (h : s.Ok) (addr : Nat) {msgVec : List (Option Nat)}
    (hvec : (s.waitingBuffers.lookup addr).getD (replicate s.inPorts none) = msgVec) :
    msgVec.length = s.inPorts ∧ (∀ rank buf : Nat, msgVec[rank]? = some (some buf) → buf = rank) ∧
      ∀ buf, s.Records addr buf ↔ some buf ∈ msgVec := by
  cases hlookup : s.waitingBuffers.lookup addr with
  | none =>
    rw [hlookup, Option.getD_none] at hvec
    subst hvec
    refine ⟨length_replicate, fun rank buf hrank => ?_, fun buf => ?_⟩
    · cases (mem_replicate.mp (mem_of_getElem? hrank)).2
    · simp [Records, hlookup]
  | some v =>
    rw [hlookup, Option.getD_some] at hvec
    subst hvec
    exact ⟨h.length addr v hlookup, h.ranks addr v hlookup, fun buf => by simp [Records, hlookup]⟩

theorem lookup_insert_eq_some {β : Type} {m : AList fun _ : Nat => β} {a : Nat} {v w : β} :
    (m.insert addr w).lookup a = some v ↔ a = addr ∧ w = v ∨ a ≠ addr ∧ m.lookup a = some v := by
  by_cases heq : a = addr
  · subst heq
    simp [lookup_insert]
  · simp [heq, lookup_insert_ne heq]

section

variable (h : s.Ok)
include h

theorem Ok.stall {msgVec : List (Option Nat)} {b : CountedBuffer α} {m : α}
    (hport : port < s.inPorts)
    (hvec : (s.waitingBuffers.lookup addr).getD (replicate s.inPorts none) = msgVec)
    (hmap : b.stallMsgMap = (s.buffers port).stallMsgMap ++ [(addr, m)])
    (hsize : b.stallMapSize = b.stallMsgMap.length) :
    Ok { s with
      buffers := update s.buffers port b
      waitingBuffers := s.waitingBuffers.insert addr (msgVec.set port (some port)) } := by
  obtain ⟨hlength, hranks, hrecords⟩ := h.msgVec addr hvec
  have hget (rank buf : Nat) : (msgVec.set port (some port))[rank]? = some (some buf) →
      buf = rank := by
    rw [getElem?_set]
    split
    · next heq =>
      rw [if_pos (hlength ▸ hport), heq]
      simp [eq_comm]
    · exact hranks rank buf
  have hmem (buf : Nat) :
      some buf ∈ msgVec.set port (some port) ↔ buf = port ∨ some buf ∈ msgVec := by
    constructor
    · intro hbuf
      rcases mem_or_eq_of_mem_set hbuf with hbuf | hbuf
      · exact .inr hbuf
      · exact .inl (Option.some.inj hbuf)
    · intro hbuf
      by_cases heq : buf = port
      · rw [heq]
        exact mem_set (hlength ▸ hport) _
      · obtain ⟨rank, hrank⟩ := mem_iff_getElem?.mp (hbuf.resolve_left heq)
        have hne : port ≠ rank := fun h => heq ((hranks rank buf hrank).trans h.symm)
        refine mem_of_getElem? (i := rank) ?_
        rwa [getElem?_set_ne hne]
  constructor
  · exact (forall_update_iff s.buffers
      (fun _ b => b.stallMapSize = b.stallMsgMap.length)).mpr ⟨hsize, fun buf _ => h.sizes buf⟩
  · intro a v hv
    rcases lookup_insert_eq_some.mp hv with ⟨_, rfl⟩ | ⟨_, hv⟩
    · rw [length_set]
      exact hlength
    · exact h.length a v hv
  · intro a v hv
    rcases lookup_insert_eq_some.mp hv with ⟨_, rfl⟩ | ⟨_, hv⟩
    · exact hget
    · exact h.ranks a v hv
  · intro a buf
    have hstalled : HasStalled { s with
        buffers := update s.buffers port b
        waitingBuffers := s.waitingBuffers.insert addr (msgVec.set port (some port)) } buf a ↔
          buf = port ∧ a = addr ∨ s.HasStalled buf a := by
      unfold HasStalled
      by_cases heq : buf = port
      · subst heq
        simp only [update_self, hmap, mem_append, mem_singleton, Prod.mk.injEq,
          exists_or, true_and, or_comm, exists_and_left, exists_eq, and_true]
      · simp [heq]
    rw [hstalled, h.stalled a buf]
    by_cases heq : a = addr
    · subst heq
      simp only [Records, lookup_insert_eq_some, true_and, ne_eq, not_true, false_and, or_false,
        exists_eq_left', hmem, and_true]
      exact or_congr_right (hrecords buf)
    · simp [Records, heq]

theorem Ok.stallAndWait (hs : s.stallAndWait clockEdge s.curInPort addr = .ok s') :
    s'.Ok ∧ s'.inPorts = s.inPorts := by
  obtain ⟨s₁, hstall, hs⟩ := bind_eq_ok.mp hs
  obtain ⟨_, hport, hstall⟩ := bind_eq_ok.mp hstall
  cases hstall
  obtain ⟨b, hb, hs⟩ := bind_eq_ok.mp hs
  cases hs
  have hcalled := CountedBuffer.call_called (c := .stallMessage addr) hb
  obtain ⟨m, _, hmap⟩ := Called.stalled hcalled
  have hkeep := hcalled.stallMapSize
  have hsize := h.sizes s.curInPort
  dsimp only at hmap hkeep
  exact ⟨h.stall (require_eq_ok.mp hport) rfl hmap (by omega), rfl⟩

theorem Ok.callBuffer {c : BufferCall α}
    (hc : c.inserted ≠ [] ∨ c.takes = true ∧ ∀ addr, c ≠ .stallMessage addr)
    (hs : s.callBuffer clockEdge buf c = .ok s') : s'.Ok ∧ s'.inPorts = s.inPorts := by
  obtain ⟨b, hb, hs⟩ := bind_eq_ok.mp hs
  cases hs
  have hcalled := CountedBuffer.call_called hb
  have hmap := hcalled.stallMsgMap_eq hc
  have hkeep := hcalled.stallMapSize
  have hsize := h.sizes buf
  have hmaps : ∀ buf', (update s.buffers buf b buf').stallMsgMap = (s.buffers buf').stallMsgMap :=
    (forall_update_iff s.buffers
      (fun buf' b => b.stallMsgMap = (s.buffers buf').stallMsgMap)).mpr ⟨hmap, fun _ _ => rfl⟩
  refine ⟨⟨?_, h.length, h.ranks, fun addr buf' => ?_⟩, rfl⟩
  · exact (forall_update_iff s.buffers
      (fun _ b => b.stallMapSize = b.stallMsgMap.length)).mpr ⟨by omega, fun buf' _ => h.sizes buf'⟩
  · refine Iff.trans ?_ (h.stalled addr buf')
    unfold HasStalled
    rw [hmaps buf']

theorem Ok.setPort (port : Nat) : Ok { s with curInPort := port } :=
  ⟨h.sizes, h.length, h.ranks, h.stalled⟩

theorem Ok.wakeUpBuffers (clockEdge : Nat) (hcareful : ∀ buf, s.Records addr buf → buf < port) :
    ∃ s', s.perform clockEdge port (.wakeUpBuffers addr) = .ok s' ∧ s'.Ok ∧ s'.inPorts = s.inPorts ∧
      ∀ buf, ¬s'.HasStalled buf addr :=
  (h.setPort port).wakeRanks (nodup_reverse.mpr nodup_range) fun buf hrecords =>
    mem_reverse.mpr (mem_range.mpr (hcareful buf hrecords))

theorem Ok.wakeUpAllBuffersOf (clockEdge port addr : Nat) :
    ∃ s', s.perform clockEdge port (.wakeUpAllBuffersOf addr) = .ok s' ∧ s'.Ok ∧
      s'.inPorts = s.inPorts ∧ ∀ buf, ¬s'.HasStalled buf addr :=
  (h.setPort port).wakeRanks (nodup_reverse.mpr nodup_range) fun _ hrecords =>
    mem_reverse.mpr (mem_range.mpr (h.lt_inPorts hrecords))

theorem Ok.perform {a : Action α} (hcareful : s.Careful port a)
    (hs : s.perform clockEdge port a = .ok s') : s'.Ok ∧ s'.inPorts = s.inPorts := by
  have hport := h.setPort port
  cases a with
  | stallAndWait buf addr =>
    cases hcareful
    exact hport.stallAndWait hs
  | wakeUpBuffers addr =>
    obtain ⟨_, hwake, hok, hin, _⟩ := h.wakeUpBuffers clockEdge hcareful
    cases hs.symm.trans hwake
    exact ⟨hok, hin⟩
  | wakeUpAllBuffersOf addr =>
    obtain ⟨_, hwake, hok, hin, _⟩ := h.wakeUpAllBuffersOf clockEdge port addr
    cases hs.symm.trans hwake
    exact ⟨hok, hin⟩
  | wakeUpAllBuffers =>
    obtain ⟨_, hwake, hok, hin, _⟩ := hport.wakeUpAllBuffers clockEdge
    cases hs.symm.trans hwake
    exact ⟨hok, hin⟩
  | enqueue buf message delta =>
    exact hport.callBuffer (c := .enqueue message delta) (.inl (cons_ne_nil _ _)) hs
  | dequeue buf => exact hport.callBuffer (c := .dequeue) (.inr ⟨rfl, nofun⟩) hs
  | recycle buf latency => exact hport.callBuffer (c := .recycle latency) (.inr ⟨rfl, nofun⟩) hs

end

theorem ok_init (inPorts maxSize blockSizeBits : Nat) :
    (init α inPorts maxSize blockSizeBits).Ok where
  sizes _ := rfl
  length := nofun
  ranks := nofun
  stalled _ _ := ⟨nofun, nofun⟩

theorem Reachable.ok {inPorts maxSize : Nat} (h : s.Reachable Careful inPorts maxSize) :
    s.Ok ∧ s.inPorts = inPorts := by
  obtain ⟨bits, h⟩ := h
  induction h with
  | refl => exact ⟨ok_init inPorts maxSize bits, rfl⟩
  | tail _ hstep ih =>
    obtain ⟨clockEdge, port, a, _, hcareful, hs⟩ := hstep
    have hok := ih.1.perform hcareful hs
    exact ⟨hok.1, hok.2.trans ih.2⟩

/-- Careful controllers never forget a stalled message, and none of their wakeups fails. -/
theorem stalled_recorded {inPorts maxSize : Nat} (h : s.Reachable Careful inPorts maxSize) :
    (∀ buf addr, s.HasStalled buf addr → s.Records addr buf) ∧
    (∀ clockEdge port addr, (∀ buf, s.Records addr buf → buf < port) →
      ∃ s', s.perform clockEdge port (.wakeUpBuffers addr) = .ok s' ∧
        ∀ buf, ¬s'.HasStalled buf addr) ∧
    (∀ clockEdge port addr, ∃ s', s.perform clockEdge port (.wakeUpAllBuffersOf addr) = .ok s' ∧
      ∀ buf, ¬s'.HasStalled buf addr) ∧
    ∀ clockEdge port, ∃ s', s.perform clockEdge port .wakeUpAllBuffers = .ok s' ∧
      ∀ addr buf, ¬s'.HasStalled buf addr := by
  have hok := h.ok.1
  refine ⟨fun buf addr => (hok.stalled addr buf).mp, fun clockEdge port addr hcareful => ?_,
    fun clockEdge port addr => ?_, fun clockEdge port => ?_⟩
  · obtain ⟨s', hs, _, _, hnone⟩ := hok.wakeUpBuffers clockEdge hcareful
    exact ⟨s', hs, hnone⟩
  · obtain ⟨s', hs, _, _, hnone⟩ := hok.wakeUpAllBuffersOf clockEdge port addr
    exact ⟨s', hs, hnone⟩
  · obtain ⟨s', hs, _, _, hnone⟩ := (hok.setPort port).wakeUpAllBuffers clockEdge
    exact ⟨s', hs, hnone⟩

/-- A message of the lower port waits, and the higher port wakes it up. -/
theorem stalled_recorded_two : ∃ s : AbstractController Nat, s.Reachable Careful 2 0 ∧
    s.HasStalled 0 320 ∧ s.Records 320 0 ∧
      ∃ s', s.perform 2 1 (.wakeUpBuffers 320) = .ok s' ∧ ¬s'.HasStalled 0 320 := by
  obtain ⟨s, hreach, hstalled, hlookup⟩ : ∃ s : AbstractController Nat, s.Reachable Careful 2 0 ∧
      s.HasStalled 0 320 ∧ s.waitingBuffers.lookup 320 = some [some 0, none] :=
    ⟨_, ⟨6, .tail (.tail .refl ⟨0, 0, .enqueue 0 7 1, by decide, trivial, rfl⟩)
      ⟨1, 0, .stallAndWait 0 320, by decide, rfl, rfl⟩⟩, ⟨7, mem_singleton_self _⟩, rfl⟩
  obtain ⟨hrecorded, hwake, _⟩ := stalled_recorded hreach
  obtain ⟨s', hs, hnone⟩ := hwake 2 1 320 fun buf hrecords => by
    obtain ⟨msgVec, hvec, hmem⟩ := hrecords
    cases hlookup.symm.trans hvec
    obtain rfl : buf = 0 := by simpa using hmem
    decide
  exact ⟨s, hreach, hstalled, hrecorded 0 320 hstalled, s', hs, hnone 0⟩

end Invariant

/-- A port that wakes up the lower ranks forgets the message that itself has stalled, and a buffer
that was stalled from two ports is reanalyzed twice. -/
theorem stalled_forgotten_two :
    (∃ s : AbstractController Nat, s.Reachable (fun _ _ _ => True) 2 0 ∧ s.HasStalled 1 320 ∧
      ¬s.Records 320 1) ∧
    ∃ s : AbstractController Nat, s.Reachable (fun _ _ _ => True) 2 0 ∧
      s.perform 2 0 (.wakeUpAllBuffersOf 320) = .error .emptyBuffer := by
  constructor
  · refine ⟨_, ⟨6, .tail (.tail (.tail .refl ⟨0, 1, .enqueue 1 7 1, by decide, trivial, rfl⟩)
      ⟨1, 1, .stallAndWait 1 320, by decide, trivial, rfl⟩)
      ⟨2, 1, .wakeUpBuffers 320, by decide, trivial, rfl⟩⟩, ⟨7, mem_singleton_self _⟩, ?_⟩
    rintro ⟨msgVec, hvec, _⟩
    cases hvec
  · exact ⟨_, ⟨6, .tail (.tail (.tail (.tail .refl ⟨0, 0, .enqueue 0 7 1, by decide, trivial, rfl⟩)
      ⟨0, 0, .enqueue 0 8 1, by decide, trivial, rfl⟩)
      ⟨1, 0, .stallAndWait 0 320, by decide, trivial, rfl⟩)
      ⟨1, 1, .stallAndWait 0 320, by decide, trivial, rfl⟩⟩, rfl⟩

end AbstractController

end Drain
