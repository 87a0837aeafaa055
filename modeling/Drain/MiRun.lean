import Drain.MiDirSteps

/-! Runs of the MI example protocol without DMA requests. The only assertion that can fail is
that a TBE table has room for one more entry. Until then there is one holder of each line,
and every load returns what the stores before it have left. -/

namespace Drain.Mi

open Function List Mi.System

variable {α κ δ V : Type} [DecidableEq α] [DecidableEq κ] [DecidableEq δ] [DecidableEq V]
  [Inhabited V] {cfg : Config α V} {initial : α → V} {s : System α κ δ V} {L : α → Line κ V} {a : α}
  {c : κ} {E : ProtocolFailure → Prop}

section Directory

omit [DecidableEq κ] [DecidableEq δ] [DecidableEq V] in
theorem Good.setDirState {state : DirState} (h : Good cfg initial (s.withDirState a state)) :
    Holds (s.setDirState a state) (Good cfg initial) E := by
  obtain ⟨L, hL⟩ := h
  have hentry := hL.dirEntry a
  unfold withDirState at hentry
  dsimp only at hentry
  rw [update_self] at hentry
  have hstate : state = (L a).place.dirState := congrArg DirEntry.directoryState hentry
  have howner : (s.directory a).owner = ((L a).place.queue.getLast?.map MachineID.l1Cache).toList :=
    congrArg DirEntry.owner hentry
  have hM : state = .M → (s.directory a).owner.length = 1 := by
    intro h
    rw [howner]
    rw [hstate] at h
    cases hplace : (L a).place with
    | owned w q => simp [Place.queue, getLast?_eq_some_getLast]
    | _ =>
      rw [hplace] at h
      cases h
  have hI : state = .I → (s.directory a).owner = [] := by
    intro h
    rw [howner]
    rw [hstate] at h
    cases hplace : (L a).place with
    | memory => rfl
    | _ =>
      rw [hplace] at h
      cases h
  rw [setDirState_eq (congrArg DirEntry.sharers hentry) hM hI]
  exact ⟨L, hL⟩

theorem Shows.holds_dirTrigger {req : Option (RequestMsg α κ δ V)}
    {dma : Option (DMARequestMsg α κ δ V)} {mem : Option (MemoryMsg α κ δ V)} {event : DirEvent}
    {p : Place κ V} (h : Shows cfg initial s L) (hplace : (L a).place = p)
    (ht : Holds (s.dirTransition cfg a req dma mem p.dirState event)
      (fun x => Good cfg initial (x.2.withDirState a x.1)) E) :
    Holds (s.dirTrigger cfg a req dma mem event) (Good cfg initial) E := by
  unfold dirTrigger
  rw [h.dirState_eq, hplace, holds_bind]
  exact ht.imp fun x hx => hx.setDirState

theorem Shows.getx {store : Bool} (h : Shows cfg initial s L)
    (hm : Mi.getx a c ∈ s.requestToDir) (hrole : (L a).role c = .asking store) :
    Holds (s.requestQueueIn cfg (Mi.getx a c)) (Good cfg initial) E := by
  have hrecycled := h.recycled (a := a) hm
  cases hplace : (L a).place with
  | memory => exact h.holds_dirTrigger hplace (h.getxIdle hplace hrole)
  | owned w q => exact h.holds_dirTrigger hplace (h.getxOwned hplace hrole)
  | fetching d | fetched d v | storing d v | stored d =>
    rw [hplace] at hrecycled
    exact h.holds_dirTrigger hplace hrecycled

omit [DecidableEq κ] [DecidableEq δ] [DecidableEq V] in
theorem Shows.getLast_of_owner (h : Shows cfg initial s L)
    (hmem : .l1Cache c ∈ (s.directory a).owner) : (L a).place.queue.getLast? = some c := by
  rw [h.dirEntry a] at hmem
  simp only [Place.dirEntry, Option.mem_toList, Option.map_eq_some_iff] at hmem
  obtain ⟨d, hd, hdc⟩ := hmem
  rwa [← MachineID.l1Cache.inj hdc]

theorem System.requestQueueIn_putx (v : V) :
    s.requestQueueIn cfg (putx a c v) =
      if .l1Cache c ∈ (s.directory a).owner then
        s.dirTrigger cfg a (some (putx a c v)) none none .PUTX
      else s.dirTrigger cfg a (some (putx a c v)) none none .PUTX_NotOwner := rfl

section

variable (h : Shows cfg initial s L)
include h

theorem Shows.putxNotOwner {v : V} {r : Role V}
    (hm : putx a c v ∈ s.requestToDir) (howner : .l1Cache c ∉ (s.directory a).owner)
    (hrequest : ((L a).role c).request a c = some (putx (δ := δ) a c v))
    (hreply : r.reply a c = some (forwarded (δ := δ) .WB_NACK a c c))
    (hr : SameCache ((L a).role c) r) (hok : ((L a).move c r (L a).place).Ok) :
    Holds (s.requestQueueIn cfg (putx a c v)) (Good cfg initial) E := by
  have hrecycled := h.recycled (a := a) hm
  have hrefused := h.putxRefused hrequest hreply hr hok
  rw [requestQueueIn_putx, if_neg howner]
  cases hplace : (L a).place with
  | memory | owned w q =>
    rw [hplace] at hrefused
    exact h.holds_dirTrigger hplace (hrefused rfl)
  | fetching d | fetched d v | storing d v | stored d =>
    rw [hplace] at hrecycled
    exact h.holds_dirTrigger hplace hrecycled

theorem Shows.putxPutting {v : V}
    (hm : putx a c v ∈ s.requestToDir) (hrole : (L a).role c = .putting v) :
    Fits (s.requestQueueIn cfg (putx a c v)) (Good cfg initial)
      (.l1Cache c ∈ (s.directory a).owner → s.dirTBEs.entries.length < cfg.numberOfTBEs) := by
  have hok := (h.ok a).role c
  rw [hrole] at hok
  obtain ⟨-, q, hplace⟩ := hok
  have howner := congrArg DirEntry.owner (h.dirEntry a)
  rw [hplace] at howner
  cases q with
  | nil =>
    have hmem : .l1Cache c ∈ (s.directory a).owner := howner ▸ mem_singleton_self _
    unfold Fits
    rw [requestQueueIn_putx, if_pos hmem]
    unfold dirTrigger
    rw [h.dirState_eq, hplace, holds_bind]
    refine holds_bind_of_ok rfl ?_
    unfold vAllocateTBEFromRequestNet allocateDirTBE
    rw [holds_bind, holds_bind]
    have hnone := h.no_dirTBE (a := a) (by rw [hplace]; rfl)
    refine ((fits_allocate hnone).congr ⟨fun hroom _ => hroom, fun hroom => hroom hmem⟩).imp ?_
    rintro _ ⟨rfl, hroom⟩
    change Fits (System.setDirState _ a .MI) _ _
    exact fits_of_holds (Good.setDirState (h.putxOwner hplace hrole)) hroom
  | cons w q =>
    have hnodup := ((h.ok a).owned hplace).1
    have hr : SameCache ((L a).role c) (.refused v) := by
      rw [hrole]
      exact ⟨rfl, rfl, rfl⟩
    have hnot : .l1Cache c ∉ (s.directory a).owner := by
      intro hmem
      have hlast := h.getLast_of_owner hmem
      rw [hplace, Place.queue, getLast?_cons_cons] at hlast
      exact (nodup_cons.mp hnodup).1 (mem_of_getLast? hlast)
    exact fits_of_holds (h.putxNotOwner hm hnot (by rw [hrole]; rfl) (r := .refused v) rfl hr
      ((h.ok a).hold hplace (by rw [hrole]; rfl) rfl (absurd · (cons_ne_nil w q))))
      (absurd · hnot)

omit [DecidableEq κ] [DecidableEq δ] [DecidableEq V] in
theorem Shows.not_owner_of_gave {v : V} (hrole : (L a).role c = .gave v) :
    .l1Cache c ∉ (s.directory a).owner := by
  intro hmem
  have hidle : ((L a).role c).Idle := by
    rw [hrole]
    trivial
  have hqueue : c ∈ (L a).place.queue := mem_of_getLast? (h.getLast_of_owner hmem)
  have hplaceOk := (h.ok a).place
  cases hplace : (L a).place with
  | owned w q =>
    rw [hplace] at hqueue
    exact (h.ok a).not_mem_queue hplace hidle hqueue
  | fetching d | fetched d u =>
    rw [hplace] at hqueue hplaceOk
    obtain rfl := mem_singleton.mp hqueue
    have hw := hplaceOk.1
    rw [hrole] at hw
    exact hw
  | memory | storing d u | stored d =>
    rw [hplace] at hqueue
    cases hqueue

theorem Shows.putxGave {v : V} (hm : putx a c v ∈ s.requestToDir) (hrole : (L a).role c = .gave v) :
    Fits (s.requestQueueIn cfg (putx a c v)) (Good cfg initial)
      (.l1Cache c ∈ (s.directory a).owner → s.dirTBEs.entries.length < cfg.numberOfTBEs) := by
  have hidle : ((L a).role c).Idle := by
    rw [hrole]
    trivial
  have hr : SameCache ((L a).role c) (.gaveRefused v) := by
    rw [hrole]
    exact ⟨rfl, rfl, rfl⟩
  have hnot := h.not_owner_of_gave hrole
  exact fits_of_holds (h.putxNotOwner hm hnot (by rw [hrole]; rfl) (r := .gaveRefused v) rfl hr
    ((h.ok a).idle hidle trivial)) fun hmem => absurd hmem hnot

theorem Shows.request {m : RequestMsg α κ δ V} (hm : m ∈ s.requestToDir) :
    Fits (s.requestQueueIn cfg m) (Good cfg initial)
      (m.type = .PUTX → m.requestor ∈ (s.directory m.addr).owner →
        s.dirTBEs.entries.length < cfg.numberOfTBEs) := by
  have hrequests := h.requests.mem.mp hm
  unfold Line.Requests at hrequests
  generalize m.addr = a at hrequests
  obtain ⟨c, hc⟩ := hrequests
  cases hrole : (L a).role c with
  | asking store =>
    rw [hrole] at hc
    cases hc
    exact fits_of_holds (h.getx hm hrole) nofun
  | putting v =>
    rw [hrole] at hc
    cases hc
    exact (h.putxPutting hm hrole).congr ⟨fun hroom _ => hroom, fun hroom => hroom rfl⟩
  | gave v =>
    rw [hrole] at hc
    cases hc
    exact (h.putxGave hm hrole).congr ⟨fun hroom _ => hroom, fun hroom => hroom rfl⟩
  | _ =>
    rw [hrole] at hc
    cases hc

theorem Shows.serveMemory {pkt : MemoryPacket α κ δ V}
    (hm : pkt ∈ s.memoryRequests) : Good cfg initial (s.serveMemory cfg pkt) := by
  have hpacket : (L pkt.addr).place.packet pkt.addr = some pkt := h.packets.mem.mp hm
  generalize pkt.addr = a at hpacket
  cases hplace : (L a).place with
  | fetching c =>
    rw [hplace] at hpacket
    cases hpacket
    exact h.servedRead hplace
  | storing c v =>
    rw [hplace] at hpacket
    cases hpacket
    exact h.servedWrite hplace
  | _ =>
    rw [hplace] at hpacket
    cases hpacket

end

omit [DecidableEq κ] [DecidableEq δ] [DecidableEq V] [Inhabited V] in
theorem System.wDeallocateTBE_eq {tbe : DirTBE κ δ V} (h : s.dirTBEs.lookup a = some tbe) :
    s.wDeallocateTBE a = .ok { s with dirTBEs := s.dirTBEs.erase a } := by
  unfold wDeallocateTBE
  rw [deallocate_eq h]
  rfl

theorem Shows.memQueue {m : MemoryMsg α κ δ V} (h : Shows cfg initial s L)
    (hm : m ∈ s.responseFromMemory) : Holds (s.memQueueIn cfg m) (Good cfg initial) E := by
  have hanswer : (L m.addr).place.answer m.addr = some m := h.answers.mem.mp hm
  generalize m.addr = a at hanswer
  have hplaceAnswer := hanswer
  cases hplace : (L a).place with
  | fetched c v =>
    have hgood := h.memoryData hplace hanswer
    rw [hplace] at hplaceAnswer
    cases hplaceAnswer
    exact h.holds_dirTrigger hplace hgood
  | stored c =>
    have hgood := h.memoryAck hplace hanswer
    have htbe := h.dirTBE a
    rw [hplace] at htbe hplaceAnswer
    obtain ⟨tbe, hlookup, -⟩ := Option.map_eq_some_iff.mp htbe
    cases hplaceAnswer
    refine h.holds_dirTrigger hplace ?_
    refine holds_bind_of_ok rfl ?_
    exact holds_bind_of_ok (wDeallocateTBE_eq (s := s.lSendWriteBackAck a _) hlookup) hgood
  | _ =>
    rw [hplace] at hplaceAnswer
    cases hplaceAnswer

end Directory

section Runs

/-- Where the action allocates a TBE, the table has room for it. A cache allocates one for a miss
and for a modified line that it replaces, the directory for a line that its owner puts back. -/
def System.Room (cfg : Config α V) (s : System α κ δ V) : Action α κ δ V → Prop
  | .mandatory c way =>
    (s.l1 c).Allocates cfg way → (s.l1 c).tbes.entries.length < cfg.numberOfTBEs
  | .request m =>
    m ∈ s.requestToDir → m.type = .PUTX → m.requestor ∈ (s.directory m.addr).owner →
      s.dirTBEs.entries.length < cfg.numberOfTBEs
  | _ => True

theorem Good.step (h : Good cfg initial s) (x : Action α κ δ V) :
    Fits (s.step cfg x) (Good cfg initial) (s.Room cfg x) := by
  obtain ⟨L, hL⟩ := h
  cases x with
  | makeRequest c pkt => exact fits_of_holds hL.makeRequest trivial
  | mandatory c way => exact hL.mandatory way
  | forward c m =>
    exact fits_of_holds (holds_ite.mpr ⟨fun hm => hL.forward hm.1 hm.2, fun _ => ⟨L, hL⟩⟩) trivial
  | response c m =>
    exact fits_of_holds (holds_ite.mpr ⟨fun hm => hL.response hm.1 hm.2, fun _ => ⟨L, hL⟩⟩) trivial
  | request m =>
    refine holds_ite.mpr ⟨fun hm => ?_, fun hm => ⟨⟨L, hL⟩, fun hm' => absurd hm' hm⟩⟩
    exact (hL.request hm).congr ⟨fun hroom _ => hroom, fun hroom => hroom hm⟩
  | dmaRequest m =>
    refine fits_of_holds (holds_ite.mpr ⟨fun hm => ?_, fun _ => ⟨L, hL⟩⟩) trivial
    exact absurd (hL.dma ▸ hm) not_mem_nil
  | serveMemory pkt =>
    refine ⟨?_, trivial⟩
    change Good cfg initial (if _ then _ else _)
    split
    · next hm => exact hL.serveMemory hm
    · exact ⟨L, hL⟩
  | memQueue m =>
    exact fits_of_holds (holds_ite.mpr ⟨hL.memQueue, fun _ => ⟨L, hL⟩⟩) trivial

omit [DecidableEq κ] [DecidableEq δ] [DecidableEq V] in
theorem good_init : Good cfg initial (init initial : System α κ δ V) := by
  refine ⟨fun a => ⟨fun _ => .away, .memory, initial a, initial a⟩, {
    ok := fun a => ⟨fun _ => trivial, rfl⟩
    cache := fun c a => ⟨rfl, nofun⟩
    sequencer := fun c => {
      count := rfl
      queue := nofun
      nodup := .nil
      busy := nofun
      reads := nofun
      writes := nofun }
    dirEntry := fun a => rfl
    dirTBE := fun a => rfl
    requests := carries_nil ?_
    forwards := carries_nil ?_
    responses := carries_nil ?_
    packets := carries_nil nofun
    answers := carries_nil nofun
    dma := rfl
    memory := fun a => rfl
    latest := fun a => rfl
    loads := trivial }⟩
  · rintro m ⟨c, hc⟩
    cases hc
  · rintro m (⟨c, hc⟩ | ⟨p, hp, -⟩)
    · cases hc
    · cases hp
  · rintro m ⟨c, ⟨⟨q, hq⟩, -⟩, -⟩
    cases hq

/-- There is room before every step of the run. -/
def System.RoomAlong (cfg : Config α V) : System α κ δ V → List (Action α κ δ V) → Prop
  | _, [] => True
  | s, x :: actions => s.Room cfg x ∧ ∀ s', s.step cfg x = .ok s' → RoomAlong cfg s' actions

theorem Good.run {actions : List (Action α κ δ V)} (h : Good cfg initial s) :
    Fits (s.run cfg actions) (Good cfg initial) (s.RoomAlong cfg actions) := by
  induction actions generalizing s with
  | nil => exact ⟨h, trivial⟩
  | cons x actions ih =>
    refine holds_bind.mpr ((h.step x).mono (fun s' hstep hs' => ?_) fun e _ he => ?_)
    · refine (ih hs'.1).congr ⟨fun hroom => ⟨hs'.2, fun s'' hstep' => ?_⟩, fun hroom => hroom.2 s' hstep⟩
      rw [hstep] at hstep'
      cases hstep'
      exact hroom
    · exact ⟨he.1, fun hroom => he.2 hroom.1⟩

theorem run_good (cfg : Config α V) (initial : α → V) (actions : List (Action α κ δ V)) :
    Holds ((init initial).run cfg actions) (Good cfg initial) (· = .tbesFull) :=
  good_init.run.mono (fun _ _ h => h.1) fun _ _ h => h.1

omit [DecidableEq κ] [DecidableEq δ] [DecidableEq V] in
theorem Shows.owner_of_M (h : Shows cfg initial s L) (hM : (s.l1 c).getState a = .M) :
    ∃ v q, (L a).role c = .owner v ∧ (L a).place = .owned c q := by
  have hstate := (h.cache c a).getState
  have hok := (h.ok a).role c
  rw [hM] at hstate
  cases hrole : (L a).role c with
  | owner v =>
    rw [hrole] at hok
    obtain ⟨-, q, hplace⟩ := hok
    exact ⟨v, q, rfl, hplace⟩
  | asking store | waiting store =>
    rw [hrole] at hstate
    cases store <;> cases hstate
  | _ =>
    rw [hrole] at hstate
    cases hstate

theorem CacheState.not_accessible {state : CacheState} (h : state ≠ .M) :
    state.permission.accessible = false := by
  cases state with
  | M => exact absurd rfl h
  | _ => rfl

omit [DecidableEq V] [Inhabited V] in
theorem L1Cache.not_accessible {l : L1Cache α V} (hM : l.getState a ≠ .M) :
    (l.getAccessPermission a).accessible = false := by
  unfold getState at hM
  unfold getAccessPermission
  cases htbe : l.tbes.lookup a with
  | some t =>
    rw [htbe] at hM
    exact CacheState.not_accessible hM
  | none =>
    rw [htbe] at hM
    cases hentry : l.cacheMemory.lookup a with
    | none => rfl
    | some e =>
      rw [hentry] at hM
      exact CacheState.not_accessible hM

/-- A cache that may write a line is the only one that may use it. -/
def System.OneHolder (s : System α κ δ V) : Prop :=
  ∀ a c, (s.l1 c).getState a = .M →
    (∀ d, d ≠ c → (s.l1 d).getState a ≠ .M ∧ ((s.l1 d).getAccessPermission a).accessible = false) ∧
      (s.dirAccessPermission a).accessible = false

omit [DecidableEq κ] [DecidableEq δ] [DecidableEq V] in
theorem Good.oneHolder (h : Good cfg initial s) : s.OneHolder := by
  obtain ⟨L, hL⟩ := h
  intro a c hM
  obtain ⟨v, q, -, hplace⟩ := hL.owner_of_M hM
  refine ⟨fun d hd => ?_, ?_⟩
  · have hne : (s.l1 d).getState a ≠ .M := by
      intro hM'
      obtain ⟨u, q', -, hplace'⟩ := hL.owner_of_M hM'
      exact hd (Place.owned.inj (hplace'.symm.trans hplace)).1
    exact ⟨hne, L1Cache.not_accessible hne⟩
  · unfold dirAccessPermission
    rw [hL.dirState_eq, hplace]
    rfl

/-- As long as a TBE table has room for what a step allocates, and no longer, no event comes in a
state that has no transition for it and no assertion fails; a line has one holder and loads return
the latest stores. -/
theorem run_coherent (memory : α → V) (actions : List (Action α κ δ V)) :
    (∃ s, (init memory).run cfg actions = .ok s ∧ s.OneHolder ∧
      LoadsLatest cfg memory s.completed) ↔ (init memory).RoomAlong cfg actions := by
  have hfits : Fits ((init memory).run cfg actions) (Good cfg memory) _ := good_init.run
  unfold Fits at hfits
  cases hrun : (init memory).run cfg actions with
  | error e =>
    rw [hrun] at hfits
    exact iff_of_false (fun ⟨s, hs, _⟩ => nomatch hs) hfits.2
  | ok s =>
    rw [hrun] at hfits
    obtain ⟨hgood, hroom⟩ := hfits
    refine iff_of_true ⟨s, rfl, hgood.oneHolder, ?_⟩ hroom
    obtain ⟨L, hL⟩ := hgood
    exact hL.loads

theorem run_eq_tbesFull {memory : α → V} {actions : List (Action α κ δ V)}
    (h : ((init memory).run cfg actions).isOk = false) :
    (init memory).run cfg actions = .error .tbesFull := by
  have hgood := run_good cfg memory actions
  cases hrun : (init memory).run cfg actions with
  | ok s =>
    rw [hrun] at h
    cases h
  | error e =>
    rw [hrun] at hgood
    exact congrArg Except.error hgood

/-- A cache of two sets with one way each, and sixteen TBEs. -/
def twoSetConfig : Config Nat Nat where
  numberOfTBEs := 16
  cacheAssoc := 1
  addressToCacheSet := fun a => a % 2
  maxOutstandingRequests := 16
  setData := fun _ new _ _ => new

/-- The steps from a load to its answer. The first look at the request makes room for it. -/
def loadLine (a : Nat) : List (Action Nat Unit Unit Nat) :=
  [.makeRequest () { lineAddress := a, kind := .read, data := 0, offset := 0, size := 0 },
    .mandatory () 0, .mandatory () 0, .request (Mi.getx a ()),
    .serveMemory { id := .l1Cache (), addr := a, command := .read },
    .memQueue {
      addr := a
      type := .MEMORY_READ
      originalRequestorMachId := .l1Cache ()
      dataBlk := 0 },
    .response () (dataMsg a () 0)]

/-- Lines of one set take the way from each other. While the directory does not look at the PUTXs,
the table fills up with the lines that are on their way back. -/
theorem run_tbesFull_16 :
    (init fun _ => 0).run twoSetConfig ((range 17).flatMap fun i => loadLine (2 * i)) =
      .error .tbesFull := run_eq_tbesFull (by decide +kernel)

/-- The networks stay small: a cache has one request for a line in flight, a line has one data
message, and one access to memory, asked for or answered. -/
theorem run_channels (memory : α → V) (actions : List (Action α κ δ V)) :
    Holds ((init memory).run cfg actions) (fun s =>
      (s.requestToDir.map fun m => (m.addr, m.requestor)).Nodup ∧
      (s.responseToCache.map (·.addr)).Nodup ∧
      (s.memoryRequests.map (·.addr) ++ s.responseFromMemory.map (·.addr)).Nodup)
      (· = .tbesFull) := by
  refine (run_good cfg memory actions).imp ?_
  rintro s ⟨L, hL⟩
  refine ⟨hL.requests.1.map_on fun m hm m' hm' heq => ?_, hL.responses.1.map_on fun m hm m' hm' heq => ?_,
    nodup_append'.mpr ⟨hL.packets.nodup, hL.answers.nodup, fun a ha ha' => ?_⟩⟩
  · obtain ⟨c, hc⟩ := hL.requests.mem.mp hm
    obtain ⟨c', hc'⟩ := hL.requests.mem.mp hm'
    obtain ⟨haddr, hreq⟩ := Prod.mk.inj heq
    rw [Role.requestor_of_request hc, Role.requestor_of_request hc'] at hreq
    cases hreq
    rw [haddr, hc'] at hc
    exact (Option.some.inj hc).symm
  · obtain ⟨c, ⟨⟨q, hq⟩, -⟩, hdata⟩ := hL.responses.mem.mp hm
    obtain ⟨c', ⟨⟨q', hq'⟩, -⟩, hdata'⟩ := hL.responses.mem.mp hm'
    rw [heq, hq'] at hq
    rw [hdata, hdata', heq, (Place.owned.inj hq).1]
  · obtain ⟨m, hm, rfl⟩ := mem_map.mp ha
    obtain ⟨m', hm', heq⟩ := mem_map.mp ha'
    have hpacket : (L m.addr).place.packet m.addr = some m := hL.packets.mem.mp hm
    have hanswer : (L m'.addr).place.answer m'.addr = some m' := hL.answers.mem.mp hm'
    rw [heq] at hanswer
    cases hplace : (L m.addr).place <;> rw [hplace] at hpacket hanswer <;>
      first | cases hpacket | cases hanswer

end Runs

end Drain.Mi
