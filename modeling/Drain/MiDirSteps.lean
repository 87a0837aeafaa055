import Drain.MiCacheEvents

/-! Every step of the directory and of the memory keeps what the system shows of the lines. -/

namespace Drain.Mi

open Function List Mi.System AList Option Line

variable {α κ δ V : Type} [DecidableEq α] {cfg : Config α V} {initial : α → V}
  {s s' : System α κ δ V} {L : α → Line κ V} {a : α} {c : κ} {l : Line κ V} {r : Role V}

theorem Place.dirEntry_owned_concat (w c : κ) (q : List κ) :
    (Place.owned w (q ++ [c]) : Place κ V).dirEntry (δ := δ) =
      { directoryState := .M, sharers := [], owner := [.l1Cache c] } := by
  have hlast : (w :: (q ++ [c])).getLast? = some c := by
    rw [← cons_append, getLast?_concat]
  unfold Place.dirEntry
  simp only [Place.queue, hlast]
  rfl

namespace System

def withDirState (s : System α κ δ V) (a : α) (state : DirState) : System α κ δ V :=
  { s with
    dirTBEs := match s.dirTBEs.lookup a with
      | some tbe => s.dirTBEs.insert a { tbe with tbeState := state }
      | none => s.dirTBEs
    directory := update s.directory a { s.directory a with directoryState := state } }

theorem setDirState_eq {state : DirState} (hsharers : (s.directory a).sharers = [])
    (hM : state = .M → (s.directory a).owner.length = 1)
    (hI : state = .I → (s.directory a).owner = []) :
    s.setDirState a state = .ok (s.withDirState a state) := by
  unfold setDirState
  refine bind_eq_ok.mpr ⟨⟨⟩, if_pos hM, bind_eq_ok.mpr ⟨⟨⟩, if_pos fun _ => ?_, ?_⟩⟩
  · exact congrArg length hsharers
  refine bind_eq_ok.mpr ⟨⟨⟩, if_pos fun h => ?_, bind_eq_ok.mpr ⟨⟨⟩, if_pos fun _ => ?_, rfl⟩⟩
  · simp [hI h]
  · simp [hsharers]

theorem lookup_withDirState (state : DirState) (b : α) :
    (s.withDirState a state).dirTBEs.lookup b =
      if b = a then (s.dirTBEs.lookup a).map ({ · with tbeState := state })
      else s.dirTBEs.lookup b := by
  unfold withDirState
  by_cases hb : b = a
  · subst hb
    cases h : s.dirTBEs.lookup b <;> simp [h]
  · cases h : s.dirTBEs.lookup a <;> simp [hb]

theorem tbeState_withDirState (state : DirState) :
    ((s.withDirState a state).dirTBEs.lookup a).map (·.tbeState) =
      (s.dirTBEs.lookup a).map fun _ => state := by
  rw [lookup_withDirState, if_pos rfl, Option.map_map]
  rfl

theorem lookup_withDirState_of_ne {state : DirState} {b : α} (hb : b ≠ a) :
    (s.withDirState a state).dirTBEs.lookup b = s.dirTBEs.lookup b := by
  rw [lookup_withDirState, if_neg hb]

end System

variable [Inhabited V]

theorem Shows.dirState_eq (h : Shows cfg initial s L) (a : α) :
    s.dirState a = (L a).place.dirState := by
  have htbe := h.dirTBE a
  unfold dirState
  cases hlookup : s.dirTBEs.lookup a with
  | none =>
    dsimp only
    rw [h.dirEntry a]
    rfl
  | some tbe =>
    rw [hlookup] at htbe
    cases hplace : (L a).place with
    | storing c v | stored c =>
      rw [hplace] at htbe
      exact some.inj htbe
    | _ =>
      rw [hplace] at htbe
      cases htbe

structure SameCache (r r' : Role V) : Prop where
  tbe : r'.tbe = r.tbe
  entry : r'.EntryOk = r.EntryOk
  busy : r'.busy = r.busy

section

variable (h : Shows cfg initial s L)
include h

theorem Shows.no_dirTBE (hplace : (L a).place.tbeState = none) :
    s.dirTBEs.lookup a = none := map_eq_none_iff.mp ((h.dirTBE a).trans hplace)

theorem Shows.directory_set {p : Place κ V}
    {owner : List (MachineID κ δ)} {state : DirState} (hs : s'.directory = (s.setOwner a owner).directory)
    (hp : p.dirEntry = { directoryState := state, sharers := [], owner }) :
    (s'.withDirState a state).directory = update s.directory a p.dirEntry := by
  unfold withDirState
  dsimp only
  rw [hs, hp]
  unfold setOwner
  dsimp only
  rw [update_idem, update_self, h.dirEntry a]
  rfl

theorem Shows.directory_keep {p : Place κ V} {state : DirState} (hs : s'.directory = s.directory)
    (hp : p.dirEntry = { (L a).place.dirEntry (δ := δ) with directoryState := state }) :
    (s'.withDirState a state).directory = update s.directory a p.dirEntry := by
  unfold withDirState
  dsimp only
  rw [hs, hp, h.dirEntry a]

theorem Shows.memory_keep :
    s.memory = update s.memory a (L a).memory := by
  rw [← h.memory a, update_eq_self]

end

variable [DecidableEq κ]

theorem Shows.dirStep (h : Shows cfg initial s L) (hl1 : s'.l1 = s.l1)
    (hdma : s'.dmaRequestToDir = s.dmaRequestToDir) (hcompleted : s'.completed = s.completed)
    (hok : l.Ok) (hrole : l.role = update (L a).role c r) (hr : SameCache ((L a).role c) r)
    (hlatest : l.latest = (L a).latest)
    (hdir : s'.directory = update s.directory a l.place.dirEntry)
    (hdirTBE : (s'.dirTBEs.lookup a).map (·.tbeState) = l.place.tbeState)
    (hdirTBE' : ∀ b, b ≠ a → s'.dirTBEs.lookup b = s.dirTBEs.lookup b)
    (hmemory : s'.memory = update s.memory a l.memory)
    (hrequests : CarriesOn (·.addr) Line.Requests s'.requestToDir (update L a l))
    (hforwards : CarriesOn (·.addr) Line.Forwards s'.forwardToCache (update L a l))
    (hresponses : CarriesOn (·.addr) Line.Responses s'.responseToCache (update L a l))
    (hpackets : CarriesOne (·.addr) (fun l a => l.place.packet a) s'.memoryRequests (update L a l))
    (hanswers : CarriesOne (·.addr) (fun l a => l.place.answer a) s'.responseFromMemory
      (update L a l)) : Shows cfg initial s' (update L a l) where
  ok := (forall_update_iff L fun _ l => l.Ok).mpr ⟨hok, fun b _ => h.ok b⟩
  cache := by
    have hshow := h.cache c a
    refine h.caches (n := s.l1 c) (by rw [hl1, update_eq_self]) hrole
      (fun _ _ => ⟨rfl, rfl⟩) ⟨?_, ?_⟩
    · rw [hr.tbe]
      exact hshow.tbe
    · rw [hr.entry]
      exact hshow.entry
  sequencer := by
    refine h.sequencers (n := s.l1 c) (by rw [hl1, update_eq_self]) hrole
      ((h.sequencer c).same ⟨rfl, rfl, rfl, rfl⟩ fun store hstore => ?_)
    rwa [← hr.busy]
  dirEntry b := by
    rw [hdir]
    by_cases hb : b = a
    · subst hb
      simp
    · simpa [hb] using h.dirEntry b
  dirTBE b := by
    by_cases hb : b = a
    · subst hb
      rwa [update_self]
    · rw [hdirTBE' b hb, update_of_ne hb]
      exact h.dirTBE b
  requests := hrequests
  forwards := hforwards
  responses := hresponses
  packets := hpackets
  answers := hanswers
  dma := hdma.trans h.dma
  memory b := by
    rw [hmemory]
    by_cases hb : b = a
    · subst hb
      simp
    · simpa [hb] using h.memory b
  latest := by
    rw [hcompleted]
    exact h.latest_move hlatest
  loads := by
    rw [hcompleted]
    exact h.loads

variable [DecidableEq δ] [DecidableEq V]

section

variable (h : Shows cfg initial s L)
include h

theorem Shows.getxIdle {store : Bool} (hplace : (L a).place = .memory)
    (hrole : (L a).role c = .asking store) :
    Good cfg initial ((((s.qfQueueMemoryFetchRequest a (getx a c)).eOwnerIsRequestor a
      (getx a c)).iPopIncomingRequestQueue (getx a c)).withDirState a .IM) := by
  have hr : SameCache ((L a).role c) (.waiting store) := by
    rw [hrole]
    exact ⟨rfl, rfl, rfl⟩
  refine ⟨_, h.dirStep rfl rfl rfl ((h.ok a).fetch hplace) rfl hr rfl (h.directory_set rfl rfl) ?_
    (fun b hb => lookup_withDirState_of_ne hb) h.memory_keep ?_ ?_ ?_ ?_ ?_⟩
  · rw [tbeState_withDirState]
    exact congrArg (Option.map _) (h.no_dirTBE (by rw [hplace]; rfl))
  · exact h.requests.receive rfl fun m => requests_receive rfl (by rw [hrole]; rfl) rfl
  · exact h.forwards.keep fun m => forwards_keep rfl (by rw [hrole]; rfl) (by rw [hplace]; rfl)
  · refine h.responses.keep fun m _ => iff_of_false (responses_none ?_) (responses_none ?_)
    · exact not_sent_of_ne nofun
    · exact not_sent_of_ne (by simp [hplace])
  · exact h.packets.send rfl (by rw [hplace]; rfl) rfl
  · exact h.answers.keep (by rw [hplace]; rfl)

theorem Shows.getxOwned {store : Bool} {w : κ} {q : List κ}
    (hplace : (L a).place = .owned w q) (hrole : (L a).role c = .asking store) :
    Good cfg initial ((((s.fForwardRequest a (getx a c)).eOwnerIsRequestor a
      (getx a c)).iPopIncomingRequestQueue (getx a c)).withDirState a .M) := by
  have hr : SameCache ((L a).role c) (.waiting store) := by
    rw [hrole]
    exact ⟨rfl, rfl, rfl⟩
  have hnot : c ∉ w :: q := (h.ok a).not_mem_queue hplace (by rw [hrole]; trivial)
  have hwc : w ≠ c := fun hwc => hnot (hwc ▸ mem_cons_self)
  have hsend : s.forwardToCache ++ (s.directory a).owner.map (fun d =>
        ⟨a, .GETX, .l1Cache c, d, default⟩) =
      s.forwardToCache ++ [forwarded .GETX a c ((w :: q).getLast (by simp))] := by
    rw [h.dirEntry a, hplace]
    simp [Place.dirEntry, Place.queue, getLast?_eq_some_getLast, forwarded]
  have hnew : ¬(L a).Forwards (forwarded (δ := δ) .GETX a c ((w :: q).getLast (by simp))) := by
    rintro (⟨d, hd⟩ | ⟨p, hp, hmsg⟩)
    · exact Role.type_of_reply hd rfl
    · have hreq : MachineID.l1Cache (δ := δ) c = .l1Cache p.2 := congrArg RequestMsg.requestor hmsg
      rw [hplace] at hp
      exact hnot (mem_cons_of_mem w (MachineID.l1Cache.inj hreq ▸ snd_mem_of_mem_adjacent hp))
  refine ⟨_, h.dirStep rfl rfl rfl ((h.ok a).enqueue hplace hrole) rfl hr rfl
    (h.directory_set rfl ?_) ?_ (fun b hb => lookup_withDirState_of_ne hb) h.memory_keep
    ?_ ?_ ?_ ?_ ?_⟩
  · exact Place.dirEntry_owned_concat w c q
  · rw [tbeState_withDirState]
    exact congrArg (Option.map _) (h.no_dirTBE (by rw [hplace]; rfl))
  · exact h.requests.receive rfl fun m => requests_receive rfl (by rw [hrole]; rfl) rfl
  · change CarriesOn _ _ (s.forwardToCache ++ (s.directory a).owner.map _) _
    refine hsend ▸ h.forwards.send rfl hnew fun m =>
      forwards_send_getx rfl (by rw [hrole]; rfl) ?_
    rw [hplace]
    exact adjacent_append_singleton w c q
  · refine h.responses.keep fun m _ => responses_keep (fun d => ?_) rfl
    unfold Line.Sent
    rw [hplace]
    by_cases hd : d = c
    · subst hd
      simp [hwc]
    · rw [move_role_of_ne hd]
      simp
  · exact h.packets.keep (by rw [hplace]; rfl)
  · exact h.answers.keep (by rw [hplace]; rfl)

theorem Shows.putxOwner {v : V} {tbe : DirTBE κ δ V}
    (hplace : (L a).place = .owned c []) (hrole : (L a).role c = .putting v) :
    Good cfg initial ((({ s.cClearOwner a with
      dirTBEs := s.dirTBEs.insert a tbe }.lQueueMemoryWBRequest a
        (putx a c v)).iPopIncomingRequestQueue (putx a c v)).withDirState a .MI) := by
  have hr : SameCache ((L a).role c) (.writing v) := by
    rw [hrole]
    exact ⟨rfl, rfl, rfl⟩
  refine ⟨_, h.dirStep rfl rfl rfl ((h.ok a).store hplace hrole) rfl hr rfl
    (h.directory_set rfl rfl) ?_ (fun b hb => ?_) h.memory_keep ?_ ?_ ?_ ?_ ?_⟩
  · have hlookup : (s.dirTBEs.insert a tbe).lookup a = some tbe := lookup_insert _
    rw [tbeState_withDirState]
    exact congrArg (Option.map _) hlookup
  · rw [lookup_withDirState_of_ne hb]
    exact lookup_insert_ne hb
  · exact h.requests.receive rfl fun m => requests_receive rfl (by rw [hrole]; rfl) rfl
  · exact h.forwards.keep fun m => forwards_keep rfl (by rw [hrole]; rfl) (by rw [hplace]; rfl)
  · refine h.responses.keep fun m _ => iff_of_false (responses_none ?_) (responses_none ?_)
    · exact not_sent_of_ne nofun
    · exact not_sent hplace (by rw [hrole]; exact id)
  · exact h.packets.send rfl (by rw [hplace]; rfl) rfl
  · exact h.answers.keep (by rw [hplace]; rfl)

theorem Shows.putxRefused {v : V}
    (hrequest : ((L a).role c).request a c = some (putx (δ := δ) a c v))
    (hreply : r.reply a c = some (forwarded (δ := δ) .WB_NACK a c c))
    (hr : SameCache ((L a).role c) r) (hok : ((L a).move c r (L a).place).Ok)
    (htbe : (L a).place.tbeState = none) :
    Good cfg initial (((s.bSendWriteBackNack a (putx a c v)).iPopIncomingRequestQueue
      (putx a c v)).withDirState a (L a).place.dirState) := by
  have hreply' : ((L a).role c).reply (δ := δ) a c = none ∧ ¬((L a).role c).IsWaiting := by
    cases hrole : (L a).role c with
    | putting | gave => exact ⟨rfl, id⟩
    | _ =>
      rw [hrole] at hrequest
      cases hrequest
  have hr' : r.request (δ := δ) a c = none ∧ ¬r.IsWaiting := by
    cases r with
    | refused | gaveRefused => exact ⟨rfl, id⟩
    | _ => cases hreply
  have hnew : ¬(L a).Forwards (forwarded (δ := δ) .WB_NACK a c c) := by
    rintro (⟨d, hd⟩ | ⟨p, hp, hmsg⟩)
    · obtain rfl := MachineID.l1Cache.inj (Role.destination_of_reply hd)
      cases hreply'.1.symm.trans hd
    · cases congrArg RequestMsg.type hmsg
  refine ⟨_, h.dirStep rfl rfl rfl hok rfl hr rfl (h.directory_keep rfl rfl) ?_
    (fun b hb => lookup_withDirState_of_ne hb) h.memory_keep ?_ ?_ ?_ ?_ ?_⟩
  · rw [tbeState_withDirState]
    exact (congrArg (Option.map _) (h.no_dirTBE htbe)).trans htbe.symm
  · exact h.requests.receive rfl fun m => requests_receive rfl hrequest hr'.1
  · exact h.forwards.send rfl hnew fun m => forwards_send_reply rfl hreply'.1 hreply rfl
  · exact h.responses.keep fun m _ =>
      responses_keep (sent_move hreply'.2 hr'.2 rfl rfl) rfl
  · exact h.packets.keep rfl
  · exact h.answers.keep rfl

theorem Shows.recycled {m : RequestMsg α κ δ V} (hm : m ∈ s.requestToDir) :
    Good cfg initial ((s.zRecycleRequestQueue m).withDirState a (L a).place.dirState) := by
  obtain ⟨c, hc⟩ := h.requests.mem.mp hm
  have hrole : (L a).role = update (L a).role c ((L a).role c) := (update_eq_self _ _).symm
  have htbe := h.dirTBE a
  have hsame : update L a (L a) = L := update_eq_self a L
  refine ⟨_, h.dirStep (c := c) rfl rfl rfl (h.ok a) hrole ⟨rfl, rfl, rfl⟩ rfl
    (h.directory_keep rfl rfl) ?_ (fun b hb => lookup_withDirState_of_ne hb) h.memory_keep
    ?_ (h.forwards.keep fun _ _ => Iff.rfl) (h.responses.keep fun _ _ => Iff.rfl)
    (h.packets.keep rfl) (h.answers.keep rfl)⟩
  · rw [tbeState_withDirState]
    change (s.dirTBEs.lookup a).map _ = _
    cases hlookup : s.dirTBEs.lookup a with
    | none =>
      rw [hlookup] at htbe
      exact htbe
    | some tbe =>
      rw [hlookup] at htbe
      cases hplace : (L a).place with
      | storing c v | stored c => rfl
      | _ =>
        rw [hplace] at htbe
        cases htbe
  · rw [hsame]
    exact Carries.recycle h.requests hm

theorem Shows.servedRead (hplace : (L a).place = .fetching c) :
    Good cfg initial (s.serveMemory cfg { id := .l1Cache c, addr := a, command := .read }) := by
  have hrole : (L a).role = update (L a).role c ((L a).role c) := (update_eq_self _ _).symm
  refine ⟨_, h.dirStep (c := c) (l := { L a with place := .fetched c (L a).memory }) rfl rfl rfl
    ((h.ok a).fetched hplace) hrole ⟨rfl, rfl, rfl⟩ rfl ?_ ?_ (fun _ _ => rfl) h.memory_keep
    (h.requests.keep fun _ _ => Iff.rfl) (h.forwards.keep fun m _ => ?_)
    (h.responses.keep fun m _ => iff_of_false (responses_none ?_) (responses_none ?_))
    ?_ ?_⟩
  · have hentry := h.dirEntry a
    rw [hplace] at hentry
    exact (update_eq_self_iff.mpr hentry.symm).symm
  · have htbe := h.dirTBE a
    rw [hplace] at htbe
    exact htbe
  · unfold Line.Forwards
    rw [hplace]
    rfl
  · exact not_sent_of_ne nofun
  · exact not_sent_of_ne (by simp [hplace])
  · exact h.packets.receive rfl (by rw [hplace]; rfl) rfl
  · refine h.answers.send rfl (by rw [hplace]; rfl) ?_
    rw [h.memory a]
    rfl

theorem Shows.servedWrite {v : V} (hplace : (L a).place = .storing c v) :
    Good cfg initial (s.serveMemory cfg { id := .l1Cache c, addr := a, command := .write v }) := by
  have hrole : (L a).role = update (L a).role c ((L a).role c) := (update_eq_self _ _).symm
  refine ⟨_, h.dirStep (c := c) (l := { L a with place := .stored c, memory := v }) rfl rfl rfl
    ((h.ok a).stored hplace) hrole ⟨rfl, rfl, rfl⟩ rfl ?_ ?_ (fun _ _ => rfl) rfl
    (h.requests.keep fun _ _ => Iff.rfl) (h.forwards.keep fun m _ => ?_)
    (h.responses.keep fun m _ => iff_of_false (responses_none ?_) (responses_none ?_))
    ?_ ?_⟩
  · have hentry := h.dirEntry a
    rw [hplace] at hentry
    exact (update_eq_self_iff.mpr hentry.symm).symm
  · have htbe := h.dirTBE a
    rw [hplace] at htbe
    exact htbe
  · unfold Line.Forwards
    rw [hplace]
    rfl
  · exact not_sent_of_ne nofun
  · exact not_sent_of_ne (by simp [hplace])
  · exact h.packets.receive rfl (by rw [hplace]; rfl) rfl
  · exact h.answers.send rfl (by rw [hplace]; rfl) rfl

theorem Shows.memoryData {v : V} {m : MemoryMsg α κ δ V}
    (hplace : (L a).place = .fetched c v) (hm : (L a).place.answer a = some m) :
    Good cfg initial (((s.dSendData a m).lPopMemQueue m).withDirState a .M) := by
  have hrole : (L a).role = update (L a).role c ((L a).role c) := (update_eq_self _ _).symm
  obtain ⟨hv, hwait, hok⟩ := (h.ok a).sent hplace
  have hnot (d : κ) : ¬(L a).Sent d := not_sent_of_ne (by simp [hplace]) d
  have hsent (d : κ) : { L a with place := .owned c [] }.Sent d ↔ d = c := by
    constructor
    · rintro ⟨⟨q, hq⟩, -⟩
      exact (Place.owned.inj hq).1.symm
    · rintro rfl
      exact ⟨⟨[], rfl⟩, hwait⟩
  have hmsg : m = ⟨a, .MEMORY_READ, .l1Cache c, (L a).latest⟩ := by
    rw [hplace] at hm
    cases hm
    rw [hv]
  refine ⟨_, h.dirStep (c := c) (l := { L a with place := .owned c [] }) rfl rfl rfl hok hrole
    ⟨rfl, rfl, rfl⟩ rfl (h.directory_keep rfl ?_) ?_
    (fun b hb => lookup_withDirState_of_ne hb) h.memory_keep
    (h.requests.keep fun _ _ => Iff.rfl) (h.forwards.keep fun m _ => ?_) ?_
    (h.packets.keep (by rw [hplace]; rfl)) ?_⟩
  · rw [hplace]
    rfl
  · rw [tbeState_withDirState]
    exact congrArg (Option.map _) (h.no_dirTBE (by rw [hplace]; rfl))
  · unfold Line.Forwards
    rw [hplace]
    rfl
  · subst hmsg
    refine h.responses.send rfl (responses_none hnot) fun m => ?_
    exact responses_send hnot hsent
  · exact h.answers.receive (by rw [hmsg]) hm rfl

theorem Shows.memoryAck {m : MemoryMsg α κ δ V}
    (hplace : (L a).place = .stored c) (hm : (L a).place.answer a = some m) :
    Good cfg initial (({ s.lSendWriteBackAck a m with
      dirTBEs := s.dirTBEs.erase a }.lPopMemQueue m).withDirState a .I) := by
  have hok := (h.ok a).place
  rw [hplace] at hok
  obtain ⟨v, hrole⟩ := hok.1.exists
  have hr : SameCache ((L a).role c) (.written v) := by
    rw [hrole]
    exact ⟨rfl, rfl, rfl⟩
  have hmsg : m = ⟨a, .MEMORY_WB, .l1Cache c, default⟩ := by
    rw [hplace] at hm
    cases hm
    rfl
  have hnew : ¬(L a).Forwards (forwarded (δ := δ) .WB_ACK a c c) := by
    rintro (⟨d, hd⟩ | ⟨p, hp, hmsg⟩)
    · obtain rfl := MachineID.l1Cache.inj (Role.destination_of_reply hd)
      rw [hrole] at hd
      cases hd
    · cases congrArg RequestMsg.type hmsg
  refine ⟨_, h.dirStep rfl rfl rfl ((h.ok a).acknowledge hplace (r := .written v) trivial) rfl hr rfl
    (h.directory_keep rfl ?_) ?_ (fun b hb => ?_) h.memory_keep ?_ ?_ ?_ ?_ ?_⟩
  · rw [hplace]
    rfl
  · have hlookup : (s.dirTBEs.erase a).lookup a = none := lookup_erase a _
    rw [tbeState_withDirState]
    exact congrArg (Option.map _) hlookup
  · rw [lookup_withDirState_of_ne hb]
    exact lookup_erase_ne hb
  · exact h.requests.keep fun m => requests_keep rfl (by rw [hrole]; rfl)
  · subst hmsg
    exact h.forwards.send rfl hnew fun m =>
      forwards_send_reply rfl (by rw [hrole]; rfl) rfl (by rw [hplace]; rfl)
  · refine h.responses.keep fun m _ => iff_of_false (responses_none ?_) (responses_none ?_)
    · exact not_sent_of_ne nofun
    · exact not_sent_of_ne (by simp [hplace])
  · exact h.packets.keep (by rw [hplace]; rfl)
  · exact h.answers.receive (by rw [hmsg]) hm rfl

end

end Drain.Mi
