import Drain.Lib.Located
import Drain.Lib.Trace
import Drain.DoSpin
import Drain.Run

/-! The elementary moves of the network: between two wakeups of `Router`,
`NetworkInterface`, `NetworkLink` and `CreditLink` nothing happens to flits,
credits and pending wakeups but a sequence of these. The drain is not among
them. -/

namespace Drain

open List State

open Function (update)

inductive Place where
  | niVc (n v : Nat)
  | out (l : Link)
  | link (l : Link)
  | vc (l : Link) (v : Nat)
  | switch (r i : Nat)
  | stall (n : Nat)
  | delivered
  deriving DecidableEq

def Core.flitsAt (s : Core) : Place → List Flit
  | .niVc n v => s.niOutVcs n v
  | .out l => s.outBuffer l
  | .link l => s.linkBuffer l
  | .vc l v => (s.vcs l v).inputBuffer
  | .switch r i => s.switchBuffer r i
  | .stall n => s.stallQueue n
  | .delivered => s.delivered.map Delivery.flit

def Net.placeList (net : Net) : List Place :=
  (range net.nodes).flatMap
      (fun n => Place.stall n :: (range net.numVcs).map (Place.niVc n)) ++
    net.links.flatMap
      (fun l => Place.out l :: Place.link l :: (range net.numVcs).map (Place.vc l)) ++
    (range net.numRouters).flatMap
      (fun r => (range (net.inports r).length).map (Place.switch r)) ++
    [Place.delivered]

def Net.places (net : Net) : Finset Place := net.placeList.toFinset

/-- A flit is routed on its arrival at router `r` and waits for switch allocation. -/
def Arrived (net : Net) (r curTime : Nat) (f f' : Flit) : Prop :=
  ∃ g, Respun net r f g ∧ f' = { g with stage := (.SA, curTime + (net.routerLatency - 1)) }

/-- SA-I notes whether a flit turns back, and may deflect it to another router. -/
inductive Marked (dirns : PortDirection → Option Nat) (p : InPort) (f : Flit) : Flit → Prop
  | note (uturn : Bool) : Marked dirns p f { f with requestUturn := uturn }
  | deflect {o : Nat} {d : PortDirection} : f.outportDir = p.dirn → p.dirn ≠ .Local →
      dirns d = some o → d ≠ .Local → d ≠ .Unknown →
      Marked dirns p f { f with outport := o, outportDir := d }

inductive Op where
  | receive (r : Nat)
  | credit (c : Consumer) (l : Link)
  | mark (r : Nat) (l : Link)
  | grant (r : Nat) (src dst : Link)
  | cross (r : Nat) (l : Link)
  | wake (c : Consumer)
  | queue (n : Nat)
  | create (n : Nat)
  | send (n : Nat)
  | stall (n : Nat)
  | deliver (n : Nat)
  | link (l : Link)
  | creditLink (l : Link)

def Op.actor : Op → Consumer
  | .receive r | .mark r _ | .grant r _ _ | .cross r _ => .router r
  | .credit c _ | .wake c => c
  | .queue n | .create n | .send n | .stall n | .deliver n => .ni n
  | .link l => .link l
  | .creditLink l => .creditLink l

namespace Core

variable (s : Core)

/-- The flit `f` at the front of link `l` is read, and enters its VC as `f'`. -/
def received (l : Link) (rest : List Flit) (f f' : Flit)
    (dirns : Nat → PortDirection → Option Nat) : Core :=
  { s with
    linkBuffer := update s.linkBuffer l rest
    vcs := setEntry s.vcs l f.vc ((s.vcs l f.vc).filled f' s.curCycle)
    outportsDirn2idx := dirns }

/-- The flit of VC `v` of link `l` enters the switch as `f`, bound for VC `w` of link `m`. -/
def granted (l : Link) (v : Nat) (m : Link) (w r i : Nat) (f : Flit) : Core :=
  incrementCredit l v true { s with
    vcs := setEntry s.vcs l v ((s.vcs l v).drained s.curCycle)
    outvcState := setEntry s.outvcState m w ((s.outvcState m w).taken s.curCycle)
    switchBuffer := setEntry s.switchBuffer r i (bufferInsert f (s.switchBuffer r i)) }

def crossed (r i : Nat) (rest : List Flit) (l : Link) (f : Flit) : Core :=
  insertFlit l f { s with switchBuffer := setEntry s.switchBuffer r i rest }

def sent (n v : Nat) (rest : List Flit) (f : Flit) : Core :=
  insertFlit (.extIn n) f { s with
    outvcState := setEntry s.outvcState (.extIn n) v { s.outvcState (.extIn n) v with
      creditCount := (s.outvcState (.extIn n) v).creditCount - 1 }
    niOutVcs := setEntry s.niOutVcs n v rest }

def stalled (n : Nat) (rest : List Flit) (f : Flit) : Core :=
  { s with
    linkBuffer := update s.linkBuffer (.extOut n) rest
    stallQueue := update s.stallQueue n (s.stallQueue n ++ [f]) }

def forwarded (l : Link) (rest : List Flit) (f : Flit) : Core :=
  { s with
    outBuffer := update s.outBuffer l rest
    linkBuffer := update s.linkBuffer l (bufferInsert f (s.linkBuffer l)) }

end Core

inductive Move (net : Net) : Op → Core → Core → Prop
  | receive {s : Core} {r : Nat} {p : InPort} {f f' : Flit} {rest : List Flit}
      {dirns : Nat → PortDirection → Option Nat} :
      r < net.numRouters → p ∈ net.inports r → s.linkBuffer p.link = f :: rest →
      f.time ≤ s.curCycle → (s.vcs p.link f.vc).vcState = .idle → Arrived net r s.curCycle f f' →
      DirnExt s.outportsDirn2idx dirns →
      (net.routingAlgorithm = .table → dirns = s.outportsDirn2idx) →
      Move net (.receive r) s
        (if net.routerLatency = 1 then s.received p.link rest f f' dirns
        else (s.received p.link rest f f' dirns).scheduleEvent (.router r) (net.routerLatency - 1))
  | credit {s : Core} {c : Consumer} {l : Link} {x : Credit} {rest : List Credit} :
      s.creditLinkBuffer l = x :: rest → x.time ≤ s.curCycle →
      (s.outvcState l x.vc).creditCount + 1 ≤ (s.outvcState l x.vc).maxCreditCount →
      Move net (.credit c l) s { s with
        creditLinkBuffer := update s.creditLinkBuffer l rest
        outvcState := setEntry s.outvcState l x.vc ((s.outvcState l x.vc).returned s.curCycle) }
  | mark {s : Core} {r v : Nat} {p : InPort} {f f' : Flit} :
      r < net.numRouters → p ∈ net.inports r → (s.vcs p.link v).inputBuffer = [f] →
      Marked (s.outportsDirn2idx r) p f f' →
      Move net (.mark r p.link) s { s with
        vcs := setEntry s.vcs p.link v { s.vcs p.link v with inputBuffer := [f'] } }
  | grant {s : Core} {r i o v w : Nat} {p : InPort} {op : OutPort} {f : Flit} (uturn : Bool) :
      r < net.numRouters → (net.inports r)[i]? = some p → (net.outports r)[o]? = some op →
      s.halt r = false → (s.vcs p.link v).inputBuffer = [f] → f.outport = o →
      (s.outvcState op.link w).vcState = .idle → w < net.numVcs →
      0 ≤ (s.outvcState op.link w).creditCount - 1 → w / net.vcsPerVnet = v / net.vcsPerVnet →
      Move net (.grant r p.link op.link) s (s.granted p.link v op.link w r i { f with
        requestUturn := uturn
        outport := o
        outportDir := op.dirn
        vc := w
        stage := (.ST, s.curCycle) })
  | cross {s : Core} {r i : Nat} {op : OutPort} {f : Flit} {rest : List Flit} :
      r < net.numRouters → i < (net.inports r).length → s.switchBuffer r i = f :: rest →
      (net.outports r)[f.outport]? = some op →
      Move net (.cross r op.link) s (s.crossed r i rest op.link
        { f with stage := (.LT, s.curCycle + 1), time := s.curCycle + 1 })
  | wake {s : Core} {c c' : Consumer} {t : Nat} : s.curCycle < t →
      Move net (.wake c) s (s.scheduleEventAbsolute c' t)
  | queue {s : Core} {n vnet : Nat} {q : List Message} :
      (∀ m ∈ q, vnet < net.virtualNetworks ∧ ∀ d ∈ m.dests, d < net.nodes) →
      Move net (.queue n) s { s with inNode := setEntry s.inNode n vnet q }
  | allocator {s : Core} {n vnet next : Nat} : next < net.vcsPerVnet →
      Move net (.queue n) s { s with vcAllocator := setEntry s.vcAllocator n vnet next }
  | create {s : Core} {n v vnet dest : Nat} :
      n < net.nodes → v < net.numVcs → dest < net.nodes → s.lock = none →
      (s.outvcState (.extIn n) v).vcState = .idle →
      v / net.vcsPerVnet = (if net.injSingleVnet = 0 then vnet else 0) →
      Move net (.create n) s (createFlit net n vnet dest v s)
  | send {s : Core} {n v : Nat} {f : Flit} {rest : List Flit} :
      n < net.nodes → s.niOutVcs n v = f :: rest → 0 < (s.outvcState (.extIn n) v).creditCount →
      Move net (.send n) s (s.sent n v rest { f with time := s.curCycle + 1 })
  | stall {s : Core} {n : Nat} {f : Flit} {rest : List Flit} :
      n < net.nodes → s.linkBuffer (.extOut n) = f :: rest → f.time ≤ s.curCycle →
      Move net (.stall n) s (s.stalled n rest f)
  | deliver {s : Core} {n : Nat} {f : Flit} {rest : List Flit} :
      n < net.nodes → s.linkBuffer (.extOut n) = f :: rest → f.time ≤ s.curCycle →
      Move net (.deliver n) s (deliver n f
        { s with linkBuffer := update s.linkBuffer (.extOut n) rest })
  | unstall {s : Core} {n : Nat} {f : Flit} {pre post : List Flit} :
      n < net.nodes → s.stallQueue n = pre ++ f :: post →
      Move net (.deliver n) s (deliver n f
        { s with stallQueue := update s.stallQueue n (pre ++ post) })
  | link {s : Core} {l : Link} {f : Flit} {rest : List Flit} :
      l ∈ net.links → s.outBuffer l = f :: rest → f.time ≤ s.curCycle →
      Move net (.link l) s
        ((s.forwarded l rest { f with time := s.curCycle + net.linkLatency }).scheduleEvent
          (linkConsumer net l) net.linkLatency)
  | creditLink {s : Core} {l : Link} {x : Credit} {rest : List Credit} :
      l ∈ net.links → s.creditQueue l = x :: rest → x.time ≤ s.curCycle →
      Move net (.creditLink l) s ({ s with
        creditQueue := update s.creditQueue l rest
        creditLinkBuffer := update s.creditLinkBuffer l
          (bufferInsert { x with time := s.curCycle + net.linkLatency } (s.creditLinkBuffer l)) }
        |>.scheduleEvent (creditLinkConsumer net l) net.linkLatency)

namespace Net

variable {net : Net} {r n v a b i : Nat} {l : Link}

theorem extIn_mem_links : Link.extIn n ∈ net.links ↔ n < net.nodes := by
  simp only [links, mem_append, mem_flatMap, mem_range, mem_cons,
    mem_filterMap]
  constructor
  · rintro (⟨m, hm, h | h | h⟩ | ⟨_, _, p, _, h⟩)
    · cases h
      exact hm
    · cases h
    · cases h
    · split at h <;> cases h
  · exact fun h => .inl ⟨n, h, .inl rfl⟩

theorem extOut_mem_links : Link.extOut n ∈ net.links ↔ n < net.nodes := by
  simp only [links, mem_append, mem_flatMap, mem_range, mem_cons,
    mem_filterMap]
  constructor
  · rintro (⟨m, hm, h | h | h⟩ | ⟨_, _, p, _, h⟩)
    · cases h
    · cases h
      exact hm
    · cases h
    · split at h <;> cases h
  · exact fun h => .inl ⟨n, h, .inr (.inl rfl)⟩

theorem int_mem_links : Link.int a b ∈ net.links ↔ ∃ d, net.HasLink a b d := by
  simp only [links, mem_append, mem_flatMap, mem_range, mem_cons,
    mem_filterMap]
  constructor
  · rintro (⟨m, hm, h | h | h⟩ | ⟨r, hr, p, hp, h⟩)
    · cases h
    · cases h
    · cases h
    · split at h
      · next hl =>
        cases h
        rcases outport_cases hr hp with ⟨_, _, _, hext, _⟩ | ⟨b', hb', hl'⟩
        · rw [hext] at hl
          cases hl
        · rw [hl'] at hl
          cases hl
          exact ⟨_, hb'⟩
      · cases h
  · rintro ⟨d, hd⟩
    obtain ⟨o, p, _, hp, hl, _⟩ := hd.outportsDirn2idx
    refine .inr ⟨a, hd.lt.1, p, mem_of_getElem? hp, ?_⟩
    rw [hl]

theorem inport_mem_links {p : InPort} (hr : r < net.numRouters) (hp : p ∈ net.inports r) :
    p.link ∈ net.links ∧ net.dstRouter p.link = r ∧ ∀ m, p.link ≠ .extOut m := by
  rcases inport_cases hr hp with ⟨n, hn, hnr, rfl⟩ | ⟨a, d, hd, rfl⟩
  · exact ⟨extIn_mem_links.mpr hn, hnr, nofun⟩
  · exact ⟨int_mem_links.mpr ⟨d, hd⟩, rfl, nofun⟩

theorem outport_mem_links {p : OutPort} (hr : r < net.numRouters) (hp : p ∈ net.outports r) :
    p.link ∈ net.links := by
  rcases outport_cases hr hp with ⟨n, hn, _, hl, _⟩ | ⟨b, hd, hl⟩
  · rw [hl]
    exact extOut_mem_links.mpr hn
  · rw [hl]
    exact int_mem_links.mpr ⟨_, hd⟩

@[simp] theorem niVc_mem_places : Place.niVc n v ∈ net.places ↔ n < net.nodes ∧ v < net.numVcs := by
  simp [places, placeList]

@[simp] theorem out_mem_places : Place.out l ∈ net.places ↔ l ∈ net.links := by
  simp [places, placeList]

@[simp] theorem link_mem_places : Place.link l ∈ net.places ↔ l ∈ net.links := by
  simp [places, placeList]

@[simp] theorem vc_mem_places : Place.vc l v ∈ net.places ↔ l ∈ net.links ∧ v < net.numVcs := by
  simp [places, placeList]

@[simp] theorem switch_mem_places :
    Place.switch r i ∈ net.places ↔ r < net.numRouters ∧ i < (net.inports r).length := by
  simp [places, placeList]

@[simp] theorem stall_mem_places : Place.stall n ∈ net.places ↔ n < net.nodes := by
  simp [places, placeList]

@[simp] theorem delivered_mem_places : Place.delivered ∈ net.places := by
  simp [places, placeList]

end Net

end Drain
