import Drain.MiInvariant

/-! Every step of a cache keeps what the system shows of the lines. -/

namespace Drain.Mi

open Function AList Line

variable {α κ δ V : Type}

theorem samePlace_refl [Inhabited V] (p : Place κ V) : SamePlace (α := α) (δ := δ) p p :=
  ⟨rfl, rfl, fun _ => rfl, fun _ => rfl⟩

variable [DecidableEq α] {a : α} {l n : L1Cache α V} {r : Role V}

/-- The computation ends as in `Q` if there is room for the TBE that it allocates, and stops at
the full table otherwise. -/
def Fits {β : Type} (x : Except ProtocolFailure β) (Q : β → Prop) (room : Prop) : Prop :=
  Holds x (fun b => Q b ∧ room) fun e => e = .tbesFull ∧ ¬room

theorem fits_of_holds {β : Type} {x : Except ProtocolFailure β} {Q : β → Prop} {room : Prop}
    (h : Holds x Q fun _ => False) (hroom : room) : Fits x Q room :=
  h.mono (fun _ _ hq => ⟨hq, hroom⟩) nofun

theorem Fits.congr {β : Type} {x : Except ProtocolFailure β} {Q : β → Prop} {room room' : Prop}
    (h : Fits x Q room) (hroom : room ↔ room') : Fits x Q room' := propext hroom ▸ h

theorem fits_allocate {β : Type} {size : Nat} {x : β} {t : AList fun _ : α => β}
    (h : t.lookup a = none) :
    Fits (allocate size a x t) (fun t' => t' = t.insert a x) (t.entries.length < size) := by
  unfold Fits allocate
  refine holds_require_bind (lookup_eq_none.mp h) ?_
  exact .require ⟨fun hroom => ⟨rfl, hroom⟩, fun hfull => ⟨rfl, hfull⟩⟩

theorem mem_of_lookup {β : Type} {x : β} {t : AList fun _ : α => β} (h : t.lookup a = some x) :
    a ∈ t := lookup_isSome.mp (by rw [h]; rfl)

theorem deallocate_eq {β : Type} {x : β} {t : AList fun _ : α => β} (h : t.lookup a = some x) :
    deallocate a t = .ok (t.erase a) := by
  unfold deallocate
  rw [require, if_pos (mem_of_lookup h)]
  rfl

namespace L1Cache

theorem lookup_setState_tbes (state : CacheState) (b : α) :
    (l.setState a state).tbes.lookup b =
      if b = a then (l.tbes.lookup a).map ({ · with tbeState := state }) else l.tbes.lookup b := by
  unfold setState
  by_cases hb : b = a
  · subst hb
    cases h : l.tbes.lookup b <;> simp [h]
  · cases h : l.tbes.lookup a <;> simp [hb]

theorem lookup_setState_cacheMemory (state : CacheState) (b : α) :
    (l.setState a state).cacheMemory.lookup b =
      if b = a then (l.cacheMemory.lookup a).map ({ · with cacheState := state })
      else l.cacheMemory.lookup b := by
  unfold setState
  by_cases hb : b = a
  · subst hb
    cases h : l.cacheMemory.lookup b <;> simp [h]
  · cases h : l.cacheMemory.lookup a <;> simp [hb]

theorem sameElsewhere_setState {state : CacheState} (h : l.SameElsewhere n a) :
    l.SameElsewhere (n.setState a state) a := by
  intro b hb
  rw [lookup_setState_tbes, lookup_setState_cacheMemory, if_neg hb, if_neg hb]
  exact h b hb

theorem iAllocateL1CacheBlock_spec [Inhabited V] {cfg : Config α V}
    (h : a ∈ l.cacheMemory ∨ l.cacheAvail cfg a = true) :
    ∃ t e, l.iAllocateL1CacheBlock cfg a = .ok { l with cacheMemory := t } ∧
      t.lookup a = some e ∧ ∀ b, b ≠ a → t.lookup b = l.cacheMemory.lookup b := by
  unfold iAllocateL1CacheBlock
  cases he : l.cacheMemory.lookup a with
  | some e => exact ⟨_, e, rfl, he, fun _ _ => rfl⟩
  | none =>
    have hmem := lookup_eq_none.mp he
    refine ⟨l.cacheMemory.insert a { cacheState := .I, dataBlk := default }, _, ?_,
      lookup_insert _, fun b hb => lookup_insert_ne hb⟩
    dsimp only
    rw [require, if_pos hmem, ok_bind, require, if_pos (h.resolve_left hmem), ok_bind]
    rfl

end L1Cache

section History

variable {cfg : Config α V} {initial : α → V}

theorem lineValue_cons {x : Access α κ V} {h : List (Access α κ V)} {b : α}
    (hx : ∀ d e data offset size, x = .store d e data offset size → e ≠ b) :
    lineValue cfg initial b (x :: h) = lineValue cfg initial b h := by
  cases x with
  | load => rfl
  | store d e data offset size => exact if_neg (hx d e data offset size rfl)

end History

namespace Role

def state : Role V → CacheState
  | away => .I
  | asking store | waiting store => busyState store
  | owner _ => .M
  | putting _ | refused _ | writing _ | written _ => .MI
  | keeping _ => .MII
  | gave _ | gaveRefused _ => .II

end Role

variable [Inhabited V]

theorem CacheShows.getState (h : CacheShows l a r) : l.getState a = r.state := by
  have hentry := h.entry
  unfold L1Cache.getState
  rw [h.tbe]
  cases r with
  | away =>
    cases he : l.cacheMemory.lookup a with
    | none => rfl
    | some e => exact hentry e he
  | owner v =>
    dsimp only [Role.tbe]
    rw [show l.cacheMemory.lookup a = _ from hentry]
    rfl
  | _ => rfl

section Lines

/-! What the steps of the cache `c` do to the line `a`. -/

variable {cfg : Config α V} {initial : α → V} {s : System α κ δ V} {L : α → Line κ V} {c w : κ}
  {q : List κ} {v : V}

/-- The lines are in order for the system, whatever they are. -/
def Good (cfg : Config α V) (initial : α → V) (s : System α κ δ V) : Prop :=
  ∃ L, Shows cfg initial s L

theorem Shows.latest_move {l' : Line κ V} (h : Shows cfg initial s L)
    (hlatest : l'.latest = (L a).latest) (b : α) :
    (update L a l' b).latest = lineValue cfg initial b s.completed := by
  refine (forall_update_iff L
    fun b l => l.latest = lineValue cfg initial b s.completed).mpr ⟨?_, fun b _ => h.latest b⟩ b
  rw [hlatest]
  exact h.latest a

variable [DecidableEq κ]

section

variable (h : Shows cfg initial s L)
include h

theorem Shows.asked (store : Bool) (hrole : (L a).role c = .away)
    (hsame : (s.l1 c).SameElsewhere n a) (hshow : CacheShows n a (.asking store))
    (hseq : SequencerOk n (update (fun b => (L b).role c) a (.asking store))) :
    Good cfg initial ((s.aIssueRequest c a).setL1 c n) := by
  have hok : ((L a).move c (.asking store) (L a).place).Ok :=
    (h.ok a).idle (by rw [hrole]; trivial) trivial
  have hnew : ¬(L a).Requests (getx (δ := δ) a c) := by
    intro hm
    have hreq := hm.request_eq rfl
    rw [hrole] at hreq
    cases hreq
  refine ⟨_, h.cacheStep ⟨rfl, rfl, rfl, rfl, rfl, rfl⟩ hok rfl (samePlace_refl _) rfl rfl hsame
    hshow hseq ?_ ?_ ?_ (h.latest_move rfl) h.loads⟩
  · exact h.requests.send rfl hnew fun m => requests_send rfl (by rw [hrole]; rfl) rfl
  · exact h.forwards.keep fun m => forwards_keep rfl (by rw [hrole]; rfl) rfl
  · refine h.responses.keep fun m _ => responses_keep ?_ rfl
    exact sent_move (by rw [hrole]; exact id) id rfl rfl

theorem Shows.put (hrole : (L a).role c = .owner v)
    (hsame : (s.l1 c).SameElsewhere n a) (hshow : CacheShows n a (.putting v))
    (hseq : (s.l1 c).SameSequencer n) :
    Good cfg initial
      ({ s with requestToDir := s.requestToDir ++ [putx a c v] }.setL1 c n) := by
  have hheld : ((L a).role c).held = some v := by rw [hrole]; rfl
  obtain ⟨-, q, hplace⟩ := ((h.ok a).role c).place_of_held hheld
  have hok : ((L a).move c (.putting v) (L a).place).Ok :=
    (h.ok a).hold hplace hheld rfl fun _ => .inr rfl
  have hnew : ¬(L a).Requests (putx (δ := δ) a c v) := by
    intro hm
    have hreq := hm.request_eq rfl
    rw [hrole] at hreq
    cases hreq
  refine ⟨_, h.cacheStep ⟨rfl, rfl, rfl, rfl, rfl, rfl⟩ hok rfl (samePlace_refl _) rfl rfl hsame
    hshow ((h.sequencer c).same hseq nofun) ?_ ?_ ?_ (h.latest_move rfl) h.loads⟩
  · exact h.requests.send rfl hnew fun m => requests_send rfl (by rw [hrole]; rfl) rfl
  · exact h.forwards.keep fun m => forwards_keep rfl (by rw [hrole]; rfl) rfl
  · refine h.responses.keep fun m _ => responses_keep ?_ rfl
    exact sent_move (by rw [hrole]; exact id) id rfl rfl

theorem Shows.local (hsame : (s.l1 c).SameElsewhere n a)
    (hshow : CacheShows n a ((L a).role c)) (hseq : SequencerOk n fun b => (L b).role c) :
    Good cfg initial (s.setL1 c n) := by
  have hrole : (L a).role = update (L a).role c ((L a).role c) := (update_eq_self c _).symm
  refine ⟨_, h.cacheStep ⟨rfl, rfl, rfl, rfl, rfl, rfl⟩ (h.ok a) hrole (samePlace_refl _) rfl rfl
    hsame hshow ?_ ?_ ?_ ?_ (h.latest_move rfl) h.loads⟩
  · rwa [update_eq_self (f := fun b => (L b).role c)]
  · exact h.requests.keep fun m _ => Iff.rfl
  · exact h.forwards.keep fun m _ => Iff.rfl
  · exact h.responses.keep fun m _ => Iff.rfl

theorem Shows.accessed {x : Access α κ V} {responses : List (ResponseMsg α κ δ V)}
    (hplace : (L a).place = .owned c q) (hrequest : ((L a).role c).request (δ := δ) a c = none)
    (hreply : ((L a).role c).reply (δ := δ) a c = none)
    (hsame : (s.l1 c).SameElsewhere n a) (hshow : CacheShows n a (.owner v))
    (hseq : SequencerOk n (update (fun b => (L b).role c) a (.owner v)))
    (hresponses : CarriesOn (·.addr) Line.Responses responses (update L a ((L a).assign c v)))
    (hvalue : lineValue cfg initial a (x :: s.completed) = v)
    (hx : ∀ d e data offset size, x = .store d e data offset size → e = a)
    (hloads : LoadsLatest cfg initial (x :: s.completed)) :
    Good cfg initial
      ({ s with responseToCache := responses, completed := x :: s.completed }.setL1 c n) := by
  refine ⟨_, h.cacheStep ⟨rfl, rfl, rfl, rfl, rfl, rfl⟩ ((h.ok a).assign hplace) rfl (samePlace_refl _)
    rfl rfl hsame hshow hseq ?_ ?_ hresponses ?_ hloads⟩
  · exact h.requests.keep fun m => requests_keep rfl hrequest.symm
  · exact h.forwards.keep fun m => forwards_keep rfl hreply.symm rfl
  · refine (forall_update_iff L
      fun b l => l.latest = lineValue cfg initial b (x :: s.completed)).mpr
      ⟨hvalue.symm, fun b hb => ?_⟩
    rw [lineValue_cons fun d e data offset size he => (hx d e data offset size he).trans_ne hb.symm]
    exact h.latest b

end

variable [DecidableEq δ] [DecidableEq V]

theorem Shows.gave (h : Shows cfg initial s L) (hplace : (L a).place = .owned c (w :: q))
    (hheld : ((L a).role c).held = some v) (hr : r.Idle)
    (hrequest : r.request a c = ((L a).role c).request (δ := δ) a c)
    (hreply : r.reply a c = ((L a).role c).reply (δ := δ) a c) (hbusy : r.busy = none)
    (hsame : (s.l1 c).SameElsewhere n a) (hshow : CacheShows n a r)
    (hseq : (s.l1 c).SameSequencer n) :
    Good cfg initial ({ s with
      responseToCache := s.responseToCache ++ [dataMsg a w v]
      forwardToCache := s.forwardToCache.erase (forwarded .GETX a w c) }.setL1 c n) := by
  obtain ⟨hnodup, hwait, -⟩ := (h.ok a).owned hplace
  have hv : v = (L a).latest := (((h.ok a).role c).place_of_held hheld).1
  have hwc : w ≠ c := ne_of_mem_of_not_mem List.mem_cons_self (List.nodup_cons.mp hnodup).1
  have hsamePlace : SamePlace (α := α) (δ := δ) (L a).place (.owned w q) := by
    rw [hplace]
    exact ⟨by simp [Place.dirEntry, Place.dirState, Place.queue], rfl, fun _ => rfl, fun _ => rfl⟩
  have hsent (d : κ) : ¬(L a).Sent d := by
    refine not_sent hplace (fun hwaiting => ?_) d
    obtain ⟨store, hstore⟩ := hwaiting.exists
    rw [hstore] at hheld
    cases hheld
  have hsent' (d : κ) : ((L a).move c r (.owned w q)).Sent d ↔ d = w := by
    constructor
    · rintro ⟨⟨q', hq'⟩, -⟩
      exact (Place.owned.inj hq').1.symm
    · rintro rfl
      refine ⟨⟨q, rfl⟩, ?_⟩
      rw [move_role_of_ne hwc]
      exact hwait d List.mem_cons_self
  refine ⟨_, h.cacheStep ⟨rfl, rfl, rfl, rfl, rfl, rfl⟩ ((h.ok a).give hplace hr) rfl hsamePlace rfl
    rfl hsame hshow ((h.sequencer c).same hseq (by simp [hbusy])) ?_ ?_ ?_ (h.latest_move rfl)
    h.loads⟩
  · exact h.requests.keep fun m => requests_keep rfl hrequest
  · exact h.forwards.receive rfl fun m =>
      forwards_receive_getx rfl hreply hplace rfl hnodup
  · rw [hv]
    exact h.responses.send rfl (responses_none hsent) fun m =>
      responses_send hsent hsent'

theorem Shows.replied {m₀ : RequestMsg α κ δ V} (h : Shows cfg initial s L)
    (hreply : ((L a).role c).reply a c = some m₀) (hreply' : r.reply (δ := δ) a c = none)
    (hrequest : r.request a c = ((L a).role c).request (δ := δ) a c)
    (hok : ((L a).move c r (L a).place).Ok) (hr : ¬r.IsWaiting) (hbusy : r.busy = none)
    (hsame : (s.l1 c).SameElsewhere n a) (hshow : CacheShows n a r)
    (hseq : (s.l1 c).SameSequencer n) :
    Good cfg initial ({ s with forwardToCache := s.forwardToCache.erase m₀ }.setL1 c n) := by
  have haddr : m₀.addr = a := by
    cases hrole : (L a).role c with
    | refused | gaveRefused | written =>
      rw [hrole] at hreply
      cases hreply
      rfl
    | _ =>
      rw [hrole] at hreply
      cases hreply
  have hwait : ¬((L a).role c).IsWaiting := by
    intro hwait
    obtain ⟨store, hstore⟩ := hwait.exists
    rw [hstore] at hreply
    cases hreply
  refine ⟨_, h.cacheStep ⟨rfl, rfl, rfl, rfl, rfl, rfl⟩ hok rfl (samePlace_refl _) rfl rfl hsame
    hshow ((h.sequencer c).same hseq (by simp [hbusy])) ?_ ?_ ?_ (h.latest_move rfl) h.loads⟩
  · exact h.requests.keep fun m => requests_keep rfl hrequest
  · exact h.forwards.receive haddr fun m => forwards_receive_reply rfl hreply hreply' rfl
  · exact h.responses.keep fun m _ => responses_keep (sent_move hwait hr rfl rfl) rfl

end Lines

end Drain.Mi
