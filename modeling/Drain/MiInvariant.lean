import Drain.MiSequencer

/-! What the system shows of the lines of memory: the entries and TBEs of the caches, the
directory, the messages in flight, the outstanding requests of the processors and the answers
that they got. -/

namespace Drain.Mi

open Function List Role

variable {α κ δ V : Type}

section Messages

variable [Inhabited V]

def getx (a : α) (c : κ) : RequestMsg α κ δ V where
  addr := a
  type := .GETX
  requestor := .l1Cache c
  destination := .directory
  dataBlk := default

def putx (a : α) (c : κ) (v : V) : RequestMsg α κ δ V where
  addr := a
  type := .PUTX
  requestor := .l1Cache c
  destination := .directory
  dataBlk := v

def forwarded (type : CoherenceRequestType) (a : α) (c d : κ) : RequestMsg α κ δ V where
  addr := a
  type := type
  requestor := .l1Cache c
  destination := .l1Cache d
  dataBlk := default

def dataMsg (a : α) (c : κ) (v : V) : ResponseMsg α κ δ V where
  addr := a
  type := .DATA
  destination := .l1Cache c
  dataBlk := v

namespace Role

def request (a : α) (c : κ) : Role V → Option (RequestMsg α κ δ V)
  | asking _ => some (getx a c)
  | putting v | gave v => some (putx a c v)
  | _ => none

def reply (a : α) (c : κ) : Role V → Option (RequestMsg α κ δ V)
  | refused _ | gaveRefused _ => some (forwarded .WB_NACK a c c)
  | written _ => some (forwarded .WB_ACK a c c)
  | _ => none

end Role

namespace Line

def Requests (l : Line κ V) (m : RequestMsg α κ δ V) : Prop :=
  Emits (fun c => request m.addr c) l.role m

/-- Answers to the `PUTX`s, and to each cache of the queue the request of the next one. -/
def Forwards (l : Line κ V) (m : RequestMsg α κ δ V) : Prop :=
  Emits (fun c => reply m.addr c) l.role m ∨
    ∃ p ∈ adjacent l.place.queue, m = forwarded .GETX m.addr p.2 p.1

def Sent (l : Line κ V) (c : κ) : Prop := (∃ q, l.place = .owned c q) ∧ (l.role c).IsWaiting

def Responses (l : Line κ V) (m : ResponseMsg α κ δ V) : Prop :=
  ∃ c, l.Sent c ∧ m = dataMsg m.addr c l.latest

end Line

namespace Place

def packet (a : α) : Place κ V → Option (MemoryPacket α κ δ V)
  | fetching c => some { id := .l1Cache c, addr := a, command := .read }
  | storing c v => some { id := .l1Cache c, addr := a, command := .write v }
  | _ => none

def answer (a : α) : Place κ V → Option (MemoryMsg α κ δ V)
  | fetched c v =>
    some { addr := a, type := .MEMORY_READ, originalRequestorMachId := .l1Cache c, dataBlk := v }
  | stored c =>
    some { addr := a, type := .MEMORY_WB, originalRequestorMachId := .l1Cache c, dataBlk := default }
  | _ => none

def dirEntry (p : Place κ V) : DirEntry κ δ where
  directoryState := p.dirState
  sharers := []
  owner := (p.queue.getLast?.map MachineID.l1Cache).toList

def tbeState : Place κ V → Option DirState
  | storing _ _ | stored _ => some .MI
  | _ => none

end Place

end Messages

namespace Role

def busyState : Bool → CacheState
  | true => .IM
  | false => .IS

def tbe [Inhabited V] : Role V → Option (CacheTBE V)
  | away | owner _ => none
  | asking store | waiting store => some { tbeState := busyState store, dataBlk := default }
  | putting v | refused v | writing v | written v => some { tbeState := .MI, dataBlk := v }
  | keeping v => some { tbeState := .MII, dataBlk := v }
  | gave v | gaveRefused v => some { tbeState := .II, dataBlk := v }

def EntryOk : Role V → Option (CacheEntry V) → Prop
  | away, entry => ∀ e, entry = some e → e.cacheState = .I
  | asking store, entry | waiting store, entry =>
    ∃ v, entry = some { cacheState := busyState store, dataBlk := v }
  | owner v, entry => entry = some { cacheState := .M, dataBlk := v }
  | _, entry => entry = none

end Role

section Caches

variable [DecidableEq α]

structure CacheShows [Inhabited V] (l : L1Cache α V) (a : α) (r : Role V) : Prop where
  tbe : l.tbes.lookup a = r.tbe
  entry : r.EntryOk (l.cacheMemory.lookup a)

end Caches

section History

variable [DecidableEq α] (cfg : Config α V) (initial : α → V)

/-- The line after the stores of a history, the last access first. -/
def lineValue (a : α) : List (Access α κ V) → V
  | [] => initial a
  | .load _ _ _ :: h => lineValue a h
  | .store _ b data offset size :: h =>
    if b = a then cfg.setData (lineValue a h) data offset size else lineValue a h

def LoadsLatest : List (Access α κ V) → Prop
  | [] => True
  | .load _ a data :: h => data = lineValue cfg initial a h ∧ LoadsLatest h
  | .store _ _ _ _ _ :: h => LoadsLatest h

end History

structure Shows [DecidableEq α] [Inhabited V] (cfg : Config α V) (initial : α → V)
    (s : System α κ δ V) (L : α → Line κ V) : Prop where
  ok : ∀ a, (L a).Ok
  cache : ∀ c a, CacheShows (s.l1 c) a ((L a).role c)
  sequencer : ∀ c, SequencerOk (s.l1 c) fun a => (L a).role c
  dirEntry : ∀ a, s.directory a = (L a).place.dirEntry
  dirTBE : ∀ a, (s.dirTBEs.lookup a).map (·.tbeState) = (L a).place.tbeState
  requests : CarriesOn (·.addr) Line.Requests s.requestToDir L
  forwards : CarriesOn (·.addr) Line.Forwards s.forwardToCache L
  responses : CarriesOn (·.addr) Line.Responses s.responseToCache L
  packets : CarriesOne (·.addr) (fun l a => l.place.packet a) s.memoryRequests L
  answers : CarriesOne (·.addr) (fun l a => l.place.answer a) s.responseFromMemory L
  dma : s.dmaRequestToDir = []
  memory : ∀ a, s.memory a = (L a).memory
  latest : ∀ a, (L a).latest = lineValue cfg initial a s.completed
  loads : LoadsLatest cfg initial s.completed

section Moves

/-! How a change of one role or of the place changes what a line has in flight. -/

variable [Inhabited V] {l l' : Line κ V} {a : α} {c h w : κ} {q : List κ} {r : Role V}
  {m m₀ : RequestMsg α κ δ V}

theorem Role.requestor_of_request (hr : r.request a c = some m) : m.requestor = .l1Cache c := by
  cases r with
  | asking | putting | gave =>
    cases hr
    rfl
  | _ => cases hr

theorem Role.destination_of_reply (hr : r.reply a c = some m) : m.destination = .l1Cache c := by
  cases r with
  | refused | gaveRefused | written =>
    cases hr
    rfl
  | _ => cases hr

theorem Role.type_of_reply (hr : r.reply a c = some m) : m.type ≠ .GETX := by
  cases r with
  | refused | gaveRefused | written =>
    cases hr
    exact nofun
  | _ => cases hr

namespace Line

theorem Requests.request_eq (hm : l.Requests m) (hc : m.requestor = .l1Cache c) :
    (l.role c).request m.addr c = some m := by
  obtain ⟨d, hd⟩ := hm
  obtain rfl := MachineID.l1Cache.inj ((requestor_of_request hd).symm.trans hc)
  exact hd

variable [DecidableEq κ]

section

variable (hrole : l'.role = update l.role c r)
include hrole

theorem requests_keep (hr : r.request a c = (l.role c).request (δ := δ) a c) (hm : m.addr = a) :
    l'.Requests m ↔ l.Requests m := by
  subst hm
  unfold Requests
  rw [hrole]
  exact emits_update_of_eq hr

theorem requests_send (hc : (l.role c).request (δ := δ) a c = none) (hr : r.request a c = some m₀)
    (hm : m.addr = a) : l'.Requests m ↔ m = m₀ ∨ l.Requests m := by
  subst hm
  unfold Requests
  rw [hrole]
  exact emits_update_send hc hr

theorem requests_receive
    (hc : (l.role c).request a c = some m₀) (hr : r.request (δ := δ) a c = none)
    (hm : m.addr = a) : l'.Requests m ↔ m ≠ m₀ ∧ l.Requests m := by
  subst hm
  unfold Requests
  rw [hrole]
  refine emits_update_receive hc hr fun d hd => ?_
  have hreq := (requestor_of_request hd).symm.trans (requestor_of_request hc)
  exact MachineID.l1Cache.inj hreq

theorem forwards_keep (hr : r.reply a c = (l.role c).reply (δ := δ) a c)
    (hqueue : adjacent l'.place.queue = adjacent l.place.queue) (hm : m.addr = a) :
    l'.Forwards m ↔ l.Forwards m := by
  subst hm
  unfold Forwards
  rw [hrole, hqueue]
  exact or_congr (emits_update_of_eq hr) Iff.rfl

theorem forwards_send_reply (hc : (l.role c).reply (δ := δ) a c = none) (hr : r.reply a c = some m₀)
    (hqueue : adjacent l'.place.queue = adjacent l.place.queue) (hm : m.addr = a) :
    l'.Forwards m ↔ m = m₀ ∨ l.Forwards m := by
  subst hm
  unfold Forwards
  rw [hrole, hqueue, ← or_assoc]
  exact or_congr (emits_update_send hc hr) Iff.rfl

theorem forwards_receive_reply
    (hc : (l.role c).reply a c = some m₀) (hr : r.reply (δ := δ) a c = none)
    (hqueue : adjacent l'.place.queue = adjacent l.place.queue) (hm : m.addr = a) :
    l'.Forwards m ↔ m ≠ m₀ ∧ l.Forwards m := by
  subst hm
  have hreply : Emits (fun c => reply m.addr c) (update l.role c r) m ↔
      m ≠ m₀ ∧ Emits (fun c => reply m.addr c) l.role m := by
    refine emits_update_receive hc hr fun d hd => ?_
    have hdst := (destination_of_reply hd).symm.trans (destination_of_reply hc)
    exact MachineID.l1Cache.inj hdst
  have hpair : (∃ p ∈ adjacent l.place.queue, m = forwarded .GETX m.addr p.2 p.1) → m ≠ m₀ := by
    rintro ⟨p, -, hp⟩ rfl
    exact type_of_reply hc (by rw [hp]; rfl)
  unfold Forwards
  rw [hrole, hqueue, hreply]
  constructor
  · rintro (h | h)
    · exact ⟨h.1, .inl h.2⟩
    · exact ⟨hpair h, .inr h⟩
  · rintro ⟨hne, h | h⟩
    · exact .inl ⟨hne, h⟩
    · exact .inr h

theorem forwards_send_getx (hr : r.reply a c = (l.role c).reply (δ := δ) a c)
    (hqueue : adjacent l'.place.queue = adjacent l.place.queue ++ [(w, c)]) (hm : m.addr = a) :
    l'.Forwards m ↔ m = forwarded .GETX a c w ∨ l.Forwards m := by
  subst hm
  unfold Forwards
  rw [hrole, emits_update_of_eq hr, hqueue]
  simp only [mem_append, mem_singleton, or_and_right, exists_or, exists_eq_left]
  exact or_assoc.symm.trans or_comm

end

theorem forwards_receive_getx (hrole : l'.role = update l.role h r)
    (hr : r.reply a h = (l.role h).reply (δ := δ) a h) (hplace : l.place = .owned h (w :: q))
    (hplace' : l'.place = .owned w q) (hnodup : (h :: w :: q).Nodup) (hm : m.addr = a) :
    l'.Forwards m ↔ m ≠ forwarded .GETX a w h ∧ l.Forwards m := by
  subst hm
  have hreply : Emits (fun c => reply m.addr c) l.role m → m ≠ forwarded .GETX m.addr w h := by
    rintro ⟨d, hd⟩ hm
    exact type_of_reply hd (by rw [hm]; rfl)
  have hpair : (∃ p ∈ adjacent (w :: q), m = forwarded .GETX m.addr p.2 p.1) →
      m ≠ forwarded .GETX m.addr w h := by
    rintro ⟨p, hp, hmp⟩ hm
    have hdst : MachineID.l1Cache (δ := δ) p.1 = .l1Cache h :=
      congrArg RequestMsg.destination (hmp.symm.trans hm)
    have hmem : h ∈ w :: q := MachineID.l1Cache.inj hdst ▸ fst_mem_of_mem_adjacent hp
    exact (nodup_cons.mp hnodup).1 hmem
  unfold Forwards
  rw [hrole, emits_update_of_eq hr, hplace, hplace']
  simp only [Place.queue, adjacent_cons_cons, exists_mem_cons_iff]
  constructor
  · rintro (h | h)
    · exact ⟨hreply h, .inl h⟩
    · exact ⟨hpair h, .inr (.inr h)⟩
  · rintro ⟨hne, h | h | h⟩
    · exact .inl h
    · exact absurd h hne
    · exact .inr h

end Line

end Moves

namespace Line

variable {l l' : Line κ V} {a : α} {w : κ} {m : ResponseMsg α κ δ V}

theorem sent_move [DecidableEq κ] {c : κ} {r : Role V} (hc : ¬(l.role c).IsWaiting)
    (hr : ¬r.IsWaiting) (hrole : l'.role = update l.role c r) (hplace : l'.place = l.place) (d : κ) :
    l'.Sent d ↔ l.Sent d := by
  unfold Sent
  rw [hrole, hplace]
  by_cases hd : d = c
  · subst hd
    simp [hc, hr]
  · rw [update_of_ne hd]

theorem responses_keep (hsent : ∀ d, l'.Sent d ↔ l.Sent d) (hlatest : l'.latest = l.latest) :
    l'.Responses m ↔ l.Responses m := by
  unfold Responses
  simp only [hsent, hlatest]

theorem not_sent_of_ne (h : ∀ d q, l.place ≠ .owned d q) (d : κ) : ¬l.Sent d :=
  fun ⟨⟨q, hq⟩, _⟩ => h d q hq

theorem not_sent {c : κ} {q : List κ} (hplace : l.place = .owned c q) (hc : ¬(l.role c).IsWaiting)
    (d : κ) : ¬l.Sent d := by
  rintro ⟨⟨q', hq'⟩, hd⟩
  obtain ⟨rfl, -⟩ := Place.owned.inj (hplace.symm.trans hq')
  exact hc hd

theorem not_sent_assign [DecidableEq κ] {c : κ} {q : List κ} {v : V} (hplace : l.place = .owned c q)
    (d : κ) : ¬(l.assign c v).Sent d := by
  refine not_sent (l := l.assign c v) hplace (fun hd => ?_) d
  rw [assign_role_self] at hd
  exact hd

theorem responses_none (hsent : ∀ d, ¬l.Sent d) : ¬l.Responses m := fun ⟨d, hd, _⟩ => hsent d hd

theorem responses_send (hsent : ∀ d, ¬l.Sent d) (hsent' : ∀ d, l'.Sent d ↔ d = w)
    (hm : m.addr = a) : l'.Responses m ↔ m = dataMsg a w l'.latest ∨ l.Responses m := by
  subst hm
  unfold Responses
  simp [hsent, hsent']

theorem responses_receive (hsent : ∀ d, l.Sent d ↔ d = w) (hsent' : ∀ d, ¬l'.Sent d)
    (hm : m.addr = a) : l'.Responses m ↔ m ≠ dataMsg a w l.latest ∧ l.Responses m := by
  subst hm
  unfold Responses
  simp [hsent, hsent']

end Line

section Steps

variable [DecidableEq α] {L : α → Line κ V} {a : α} {c : κ} {l' : Line κ V} {l n : L1Cache α V}
  {r : Role V}

def L1Cache.SameElsewhere (l n : L1Cache α V) (a : α) : Prop :=
  ∀ b, b ≠ a → n.tbes.lookup b = l.tbes.lookup b ∧
    n.cacheMemory.lookup b = l.cacheMemory.lookup b

variable [DecidableEq κ]

theorem role_update_line (hrole : l'.role = update (L a).role c r) (d : κ) :
    (fun b => (update L a l' b).role d) =
      if d = c then update (fun b => (L b).role c) a r else fun b => (L b).role d := by
  funext b
  by_cases hd : d = c
  · subst hd
    by_cases hb : b = a
    · subst hb
      simp [hrole]
    · simp [hb]
  · by_cases hb : b = a
    · subst hb
      simp [hrole, hd]
    · simp [hb, hd]

variable [Inhabited V] {cfg : Config α V} {initial : α → V} {s s' : System α κ δ V}

structure SameDirectory (s s' : System α κ δ V) : Prop where
  directory : s'.directory = s.directory
  dirTBEs : s'.dirTBEs = s.dirTBEs
  dmaRequestToDir : s'.dmaRequestToDir = s.dmaRequestToDir
  memoryRequests : s'.memoryRequests = s.memoryRequests
  responseFromMemory : s'.responseFromMemory = s.responseFromMemory
  memory : s'.memory = s.memory

theorem Shows.caches (h : Shows cfg initial s L) (hl1 : s'.l1 = update s.l1 c n)
    (hrole : l'.role = update (L a).role c r) (hsame : (s.l1 c).SameElsewhere n a)
    (hshow : CacheShows n a r) (d : κ) (b : α) :
    CacheShows (s'.l1 d) b ((update L a l' b).role d) := by
  rw [hl1]
  by_cases hb : b = a
  · subst hb
    rw [update_self, hrole]
    by_cases hd : d = c
    · subst hd
      rwa [update_self, update_self]
    · rw [update_of_ne hd, update_of_ne hd]
      exact h.cache d b
  · rw [update_of_ne hb]
    by_cases hd : d = c
    · subst hd
      rw [update_self]
      have hc := h.cache d b
      exact ⟨(hsame b hb).1.trans hc.tbe, (hsame b hb).2 ▸ hc.entry⟩
    · rw [update_of_ne hd]
      exact h.cache d b

theorem Shows.sequencers (h : Shows cfg initial s L) (hl1 : s'.l1 = update s.l1 c n)
    (hrole : l'.role = update (L a).role c r)
    (hseq : SequencerOk n (update (fun b => (L b).role c) a r)) (d : κ) :
    SequencerOk (s'.l1 d) fun b => (update L a l' b).role d := by
  rw [role_update_line hrole, hl1]
  by_cases hd : d = c
  · subst hd
    rwa [if_pos rfl, update_self]
  · rw [if_neg hd, update_of_ne hd]
    exact h.sequencer d

structure SamePlace (p p' : Place κ V) : Prop where
  dirEntry : p'.dirEntry (δ := δ) = p.dirEntry
  tbeState : p'.tbeState = p.tbeState
  packet : ∀ a : α, p'.packet (δ := δ) a = p.packet a
  answer : ∀ a : α, p'.answer (δ := δ) a = p.answer a

theorem Shows.cacheStep (h : Shows cfg initial s L) (hs : SameDirectory s s') (hok : l'.Ok)
    (hrole : l'.role = update (L a).role c r)
    (hplace : SamePlace (α := α) (δ := δ) (L a).place l'.place) (hmemory : l'.memory = (L a).memory)
    (hl1 : s'.l1 = update s.l1 c n) (hsame : (s.l1 c).SameElsewhere n a) (hshow : CacheShows n a r)
    (hseq : SequencerOk n (update (fun b => (L b).role c) a r))
    (hrequests : CarriesOn (·.addr) Line.Requests s'.requestToDir (update L a l'))
    (hforwards : CarriesOn (·.addr) Line.Forwards s'.forwardToCache (update L a l'))
    (hresponses : CarriesOn (·.addr) Line.Responses s'.responseToCache (update L a l'))
    (hlatest : ∀ b, (update L a l' b).latest = lineValue cfg initial b s'.completed)
    (hloads : LoadsLatest cfg initial s'.completed) : Shows cfg initial s' (update L a l') where
  ok := (forall_update_iff L fun _ l => l.Ok).mpr ⟨hok, fun b _ => h.ok b⟩
  cache := h.caches hl1 hrole hsame hshow
  sequencer := h.sequencers hl1 hrole hseq
  dirEntry := by
    rw [hs.directory]
    refine (forall_update_iff L fun b l => s.directory b = l.place.dirEntry).mpr
      ⟨?_, fun b _ => h.dirEntry b⟩
    rw [hplace.dirEntry]
    exact h.dirEntry a
  dirTBE := by
    rw [hs.dirTBEs]
    refine (forall_update_iff L
      fun b l => (s.dirTBEs.lookup b).map (·.tbeState) = l.place.tbeState).mpr
      ⟨?_, fun b _ => h.dirTBE b⟩
    rw [hplace.tbeState]
    exact h.dirTBE a
  requests := hrequests
  forwards := hforwards
  responses := hresponses
  packets := by
    rw [hs.memoryRequests]
    exact h.packets.keep (hplace.packet a)
  answers := by
    rw [hs.responseFromMemory]
    exact h.answers.keep (hplace.answer a)
  dma := hs.dmaRequestToDir.trans h.dma
  memory := by
    rw [hs.memory]
    refine (forall_update_iff L fun b l => s.memory b = l.memory).mpr
      ⟨?_, fun b _ => h.memory b⟩
    rw [hmemory]
    exact h.memory a
  latest := hlatest
  loads := hloads

end Steps

end Drain.Mi
