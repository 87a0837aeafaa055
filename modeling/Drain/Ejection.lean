import Drain.System

/-! What every wakeup of a network interface keeps of the arriving messages: their order in each
virtual network, one credit for each, and counts and callbacks that tell what is stalled. -/

namespace Drain

open Function List

/-- What a network interface knows of the messages that arrive at it. -/
structure Node where
  arrived : List Flit
  enqueued : List (Nat × Flit)
  credits : List Credit
  stallQueue : List Flit
  stallCount : Nat → Int
  callback : Nat → Bool

def System.node (t : System) (n : Nat) : Node where
  arrived := t.arrived n
  enqueued := t.enqueued n
  credits := t.credits n
  stallQueue := t.state.stallQueue n
  stallCount := t.state.stallCount n
  callback := fun vnet => (t.outNode n vnet).dequeueCallback

namespace Node

def eject (x : Node) (cycle : Nat) (f : Flit) : Node :=
  { x with
    enqueued := x.enqueued ++ [(cycle, f)]
    credits := x.credits ++ [⟨f.vc, true, cycle⟩] }

def unstall (x : Node) (cycle : Nat) (f : Flit) (rest : List Flit) : Node where
  arrived := x.arrived
  enqueued := (x.eject cycle f).enqueued
  credits := (x.eject cycle f).credits
  stallQueue := rest
  stallCount := update x.stallCount f.vnet (x.stallCount f.vnet - 1)
  callback := update x.callback f.vnet
    (if x.stallCount f.vnet - 1 = 0 then false else x.callback f.vnet)

def arrive (x : Node) (f : Flit) : Node := { x with arrived := x.arrived ++ [f] }

def stall (x : Node) (f : Flit) : Node where
  arrived := x.arrived
  enqueued := x.enqueued
  credits := x.credits
  stallQueue := x.stallQueue ++ [f]
  stallCount := update x.stallCount f.vnet (x.stallCount f.vnet + 1)
  callback := update x.callback f.vnet true

/-- The ejection, message by message: one leaves the stall queue, or it arrives and passes, or it
arrives and stalls. The label tells whether a message is enqueued. -/
inductive Move : Bool → Node → Node → Prop
  | unstall {x : Node} {f : Flit} {before rest : List Flit} (cycle : Nat) :
      x.stallQueue = before ++ f :: rest → (∀ g ∈ before, g.vnet ≠ f.vnet) →
      Move true x (x.unstall cycle f (before ++ rest))
  | pass {x : Node} {f : Flit} (cycle : Nat) : (∀ g ∈ x.stallQueue, g.vnet ≠ f.vnet) →
      Move true x ((x.arrive f).eject cycle f)
  | stall (x : Node) (f : Flit) : Move false x ((x.arrive f).stall f)

def ofVnet (vnet : Nat) (fs : List Flit) : List Flit := fs.filter (·.vnet = vnet)

structure Ok (x : Node) : Prop where
  order : ∀ vnet, ofVnet vnet x.arrived =
    ofVnet vnet (x.enqueued.map Prod.snd) ++ ofVnet vnet x.stallQueue
  credits : x.credits = x.enqueued.map fun e => ⟨e.2.vc, true, e.1⟩
  count : ∀ vnet, x.stallCount vnet = (ofVnet vnet x.stallQueue).length
  callback : ∀ vnet, x.callback vnet = true ↔ 0 < x.stallCount vnet

section Ok

variable {x y : Node} {cycle : Nat} {e : Bool} {f : Flit} {vnet : Nat} {fs gs : List Flit}

@[simp] theorem ofVnet_nil (vnet : Nat) : ofVnet vnet [] = [] := rfl

@[simp] theorem ofVnet_append (vnet : Nat) (fs gs : List Flit) :
    ofVnet vnet (fs ++ gs) = ofVnet vnet fs ++ ofVnet vnet gs := filter_append ..

theorem ofVnet_of_ne (h : ∀ g ∈ fs, g.vnet ≠ vnet) : ofVnet vnet fs = [] := by
  simpa [ofVnet] using h

@[simp] theorem ofVnet_cons_self (f : Flit) (fs : List Flit) :
    ofVnet f.vnet (f :: fs) = f :: ofVnet f.vnet fs := by
  simp [ofVnet]

theorem ofVnet_cons_of_ne (h : f.vnet ≠ vnet) (fs : List Flit) :
    ofVnet vnet (f :: fs) = ofVnet vnet fs := by
  simp [ofVnet, h]

theorem Ok.unstall {before rest : List Flit} (hx : x.Ok) (hqueue : x.stallQueue = before ++ f :: rest)
    (hbefore : ∀ g ∈ before, g.vnet ≠ f.vnet) : (x.unstall cycle f (before ++ rest)).Ok := by
  obtain ⟨horder, hcredits, hcount, hcallback⟩ := hx
  rw [hqueue] at horder hcount
  constructor
  case order =>
    intro v
    simp only [Node.unstall, eject, map_append, ofVnet_append]
    rw [horder v]
    by_cases hv : f.vnet = v
    · subst hv
      simp [ofVnet_of_ne hbefore]
    · simp [ofVnet_cons_of_ne hv]
  case credits => simp [Node.unstall, eject, hcredits]
  case count =>
    intro v
    simp only [Node.unstall, ofVnet_append, length_append]
    have hv := hcount v
    by_cases hne : v = f.vnet
    · subst hne
      rw [update_self, hv]
      simp only [ofVnet_append, ofVnet_cons_self, length_append, length_cons]
      omega
    · rw [update_of_ne hne, hv]
      simp [ofVnet_cons_of_ne (Ne.symm hne)]
  case callback =>
    intro v
    simp only [Node.unstall]
    by_cases hne : v = f.vnet
    · subst hne
      have hpos : 0 < x.stallCount f.vnet := by
        rw [hcount f.vnet]
        simp only [ofVnet_append, ofVnet_cons_self, length_append, length_cons]
        omega
      simp only [update_self]
      split
      · simp only [Bool.false_eq_true, false_iff]
        omega
      · rw [hcallback]
        omega
    · simp only [update_of_ne hne]
      exact hcallback v

theorem Ok.pass (hx : x.Ok) (hstalled : ∀ g ∈ x.stallQueue, g.vnet ≠ f.vnet) :
    ((x.arrive f).eject cycle f).Ok := by
  obtain ⟨horder, hcredits, hcount, hcallback⟩ := hx
  refine ⟨fun v => ?_, by simp [eject, arrive, hcredits], hcount, hcallback⟩
  simp only [eject, arrive, map_append, ofVnet_append]
  rw [horder v]
  by_cases hv : f.vnet = v
  · subst hv
    simp [ofVnet_of_ne hstalled]
  · simp [ofVnet_cons_of_ne hv]

theorem Ok.stall (hx : x.Ok) (f : Flit) : ((x.arrive f).stall f).Ok := by
  obtain ⟨horder, hcredits, hcount, hcallback⟩ := hx
  constructor
  case order => simp [Node.stall, arrive, horder]
  case credits => exact hcredits
  case count =>
    intro v
    simp only [Node.stall, arrive, ofVnet_append, length_append]
    by_cases hne : v = f.vnet
    · subst hne
      simp [hcount f.vnet]
    · rw [update_of_ne hne, hcount v]
      simp [ofVnet_cons_of_ne (Ne.symm hne)]
  case callback =>
    intro v
    simp only [Node.stall, arrive]
    by_cases hne : v = f.vnet
    · subst hne
      simp only [update_self, true_iff]
      rw [hcount f.vnet]
      omega
    · simp only [update_of_ne hne]
      exact hcallback v

theorem Move.ok (h : Move e x y) (hx : x.Ok) : y.Ok := by
  cases h with
  | unstall _ hqueue hbefore => exact hx.unstall hqueue hbefore
  | pass _ hstalled => exact hx.pass hstalled
  | stall _ f => exact hx.stall f

theorem Move.enqueued (h : Move e x y) :
    ∃ es, es.length = e.toNat ∧ y.enqueued = x.enqueued ++ es := by
  cases h with
  | unstall => exact ⟨_, rfl, rfl⟩
  | pass => exact ⟨_, rfl, rfl⟩
  | stall => exact ⟨[], rfl, (append_nil _).symm⟩

end Ok

end Node

namespace System

variable {net : Net} {n m curTime : Nat} {t t' : System} {f : Flit} {rest : List Flit}

theorem node_outNode (t : System) (n v : Nat) (b : MessageBuffer Flit) :
    { t with outNode := setEntry t.outNode n v b }.node = update t.node n { t.node n with
      callback := update (t.node n).callback v b.dequeueCallback } := by
  funext m
  by_cases hm : m = n
  · subst hm
    rw [update_self]
    have hcallback : (fun w => (setEntry t.outNode m v b m w).dequeueCallback) =
        update (fun w => (t.outNode m w).dequeueCallback) v b.dequeueCallback := by
      funext w
      simp only [setEntry, update_self]
      exact apply_update (fun _ => MessageBuffer.dequeueCallback) (t.outNode m) v b w
    simp only [node, hcallback]
  · rw [update_of_ne hm]
    simp only [node, setEntry, update_of_ne hm]

theorem node_outNode_same {v : Nat} {b : MessageBuffer Flit}
    (h : b.dequeueCallback = (t.outNode n v).dequeueCallback) :
    { t with outNode := setEntry t.outNode n v b }.node = t.node := by
  have hcallback : update (t.node n).callback v b.dequeueCallback = (t.node n).callback := by
    rw [h]
    exact update_eq_self v (t.node n).callback
  rw [node_outNode, hcallback]
  exact update_eq_self n t.node

theorem node_ejecting {s : State} (h : s.ejecting = t.state.ejecting) :
    { t with state := s }.node = t.node := by
  have hqueue : s.stallQueue = t.state.stallQueue := congrArg EjectFields.stallQueue h
  have hcount : s.stallCount = t.state.stallCount := congrArg EjectFields.stallCount h
  funext n
  simp only [node, hqueue, hcount]

theorem node_setStalled (t : System) (n v : Nat) (queue : List Flit) (count : Int) :
    (t.setStalled n v queue count).node = update t.node n { t.node n with
      stallQueue := queue
      stallCount := update (t.node n).stallCount v count } := by
  funext m
  by_cases hm : m = n
  · subst hm
    simp [node, setStalled, setEntry, State.on]
  · simp [node, setStalled, setEntry, State.on, hm]

theorem node_eject (t : System) (n : Nat) (f : Flit) (curTime : Nat) :
    ((t.enqueue n f curTime).sendCredit n f true).node =
      update t.node n ((t.node n).eject t.state.curCycle f) := by
  have hbuffer := node_outNode_same (t := t) (n := n)
    (MessageBuffer.enqueue_dequeueCallback (t.outNode n f.vnet) f curTime 1)
  funext m
  have hcallback := congrArg Node.callback (congrFun hbuffer m)
  by_cases hm : m = n
  · subst hm
    rw [update_self]
    simp only [node] at hcallback
    simp only [node, enqueue, sendCredit, Node.eject, update_self, hcallback]
    rfl
  · rw [update_of_ne hm]
    simp only [node] at hcallback
    simp only [node, enqueue, sendCredit, update_of_ne hm, hcallback]
    rfl

theorem node_unstall (t : System) (n : Nat) (f : Flit) (rest : List Flit) (curTime : Nat) :
    (t.unstall n f rest curTime).node =
      update t.node n ((t.node n).unstall t.state.curCycle f rest) := by
  have hnode : (((t.enqueue n f curTime).sendCredit n f true).setStalled n f.vnet rest
      (t.state.stallCount n f.vnet - 1)).node = update t.node n { (t.node n).eject t.state.curCycle f with
        stallQueue := rest
        stallCount := update (t.node n).stallCount f.vnet ((t.node n).stallCount f.vnet - 1) } := by
    rw [node_setStalled, node_eject, update_idem, update_self]
    rfl
  have hcount : setEntry t.state.stallCount n f.vnet (t.state.stallCount n f.vnet - 1) n f.vnet =
      (t.node n).stallCount f.vnet - 1 := setEntry_self _ _ _ _
  unfold unstall Node.unstall
  dsimp only
  split
  · next hzero =>
    rw [if_pos (hcount.symm.trans hzero), node_outNode]
    erw [hnode]
    rw [update_idem, update_self]
    rfl
  · next hzero =>
    rw [if_neg fun h => hzero (hcount.trans h), update_eq_self]
    exact hnode

theorem node_stall (t : System) (n : Nat) (f : Flit) :
    (t.stall n f).node = update t.node n ((t.node n).stall f) := by
  unfold stall
  rw [node_outNode, node_setStalled, update_idem, update_self]
  rfl

theorem node_arrive (t : System) (n : Nat) (f : Flit) (g : Core → Core)
    (hg : (g t.state.toCore).stallQueue = t.state.stallQueue) :
    { t with state := t.state.on g, arrived := update t.arrived n (t.arrived n ++ [f]) }.node =
      update t.node n ((t.node n).arrive f) := by
  funext m
  by_cases hm : m = n
  · subst hm
    simp [node, Node.arrive, hg, State.on]
  · simp [node, hm, hg, State.on]

theorem checkStallQueue_node (n curTime : Nat) (t : System) :
    (t.checkStallQueue n curTime).1 = false ∨ (t.checkStallQueue n curTime).1 = true ∧
      ∃ x, Node.Move true (t.node n) x ∧ (t.checkStallQueue n curTime).2.node = update t.node n x := by
  unfold checkStallQueue
  rw [checkStalled_eq]
  cases hfind : (t.state.stallQueue n).find? fun f => t.slots n curTime f.vnet with
  | none => exact .inl rfl
  | some f =>
    obtain ⟨hslot, before, rest, hqueue, hbefore⟩ := find?_eq_some_iff_append.mp hfind
    refine .inr ⟨rfl, _, ?_, node_unstall ..⟩
    have herase : (t.state.stallQueue n).eraseP (fun f => t.slots n curTime f.vnet) = before ++ rest := by
      rw [hqueue, eraseP_append_right _ (by simpa using hbefore),
        eraseP_cons_of_pos (p := fun f : Flit => t.slots n curTime f.vnet) hslot]
    rw [nil_append, herase]
    -- an earlier flit of the same virtual network would have had the same room
    refine .unstall _ hqueue fun g hg heq => ?_
    have := hbefore g hg
    simp_all

theorem receiveFlit_node {messageEnqueued : Bool} (h : t.receiveFlit n curTime messageEnqueued = .ok t')
    (hstalled : messageEnqueued = false → ∀ f ∈ t.state.stallQueue n, t.slots n curTime f.vnet = false) :
    t'.node = t.node ∨ ∃ b x, Node.Move b (t.node n) x ∧ t'.node = update t.node n x ∧
      (b = true → messageEnqueued = false) := by
  unfold receiveFlit at h
  split at h
  · obtain ⟨⟨f, rest⟩, _, h⟩ := bind_eq_ok.mp h
    obtain ⟨_, _, h⟩ := bind_eq_ok.mp h
    have harrive := node_arrive t n f
      (fun c => { c with linkBuffer := update c.linkBuffer (.extOut n) rest }) rfl
    split at h
    · next hroom =>
      cases h
      obtain ⟨hfirst, hslot⟩ := Bool.and_eq_true_iff.mp hroom
      have hfirst : messageEnqueued = false := by simpa using hfirst
      refine .inr ⟨true, _, .pass (f := f) t.state.curCycle fun g hg heq => ?_, ?_, fun _ => hfirst⟩
      · have hfull := hstalled hfirst g hg
        change t.slots n curTime f.vnet = true at hslot
        rw [heq, hslot] at hfull
        cases hfull
      · rw [node_eject, harrive, update_idem, update_self]
        rfl
    · cases h
      refine .inr ⟨false, _, .stall _ f, ?_, fun hb => absurd hb Bool.false_ne_true⟩
      rw [node_stall, harrive, update_idem, update_self]
  · cases h
    exact .inl rfl

theorem wakeup_node (h : t.wakeup net n = .ok t') : ∃ es x, Trace Node.Move es (t.node n) x ∧
    es.countP id ≤ 1 ∧ t'.node = update t.node n x := by
  obtain ⟨s, u, s', hs, hu, hs', rfl⟩ := wakeup_ejects h
  rw [node_ejecting hs', ← node_ejecting hs]
  generalize { t with state := s } = v at hu
  generalize t.state.curCycle = curTime at hu
  have hnone := checkStallQueue_none n curTime v
  rcases checkStallQueue_node n curTime v with hfalse | ⟨htrue, y, hmove, hnode⟩
  · obtain ⟨hsame, hfull⟩ := hnone hfalse
    rw [hfalse, hsame] at hu
    rcases receiveFlit_node hu fun _ => hfull with heq | ⟨b, x, hmove, heq, _⟩
    · exact ⟨[], v.node n, .nil _, Nat.zero_le _, by rw [heq, update_eq_self]⟩
    · exact ⟨[b], x, .single hmove, countP_le_length, heq⟩
  · rw [htrue] at hu
    rcases receiveFlit_node hu nofun with heq | ⟨b, x, hmove', heq, hb⟩
    · exact ⟨[true], y, .single hmove, le_rfl, by rw [heq, hnode]⟩
    · obtain rfl : b = false := by
        cases b with
        | false => rfl
        | true => cases hb rfl
      rw [hnode, update_self] at hmove'
      rw [hnode, update_idem] at heq
      exact ⟨[true, false], x, (Trace.single hmove).snoc hmove', le_rfl, heq⟩

theorem protocol_node {v : Nat} {op : MessageBuffer.Op} (h : t.protocol n v op = .ok t') :
    t'.node = t.node := by
  obtain ⟨b, hb, h⟩ := bind_eq_ok.mp h
  have hsame := node_outNode_same ((MessageBuffer.apply_callback (t.outNode n v) _ op).of_ok hb)
  dsimp only at h
  split at h
  · cases h
    exact hsame
  · cases h
    exact hsame

theorem perform_node {a : SystemAction} {sizes : Nat → Nat → Nat} (ht : t.FreeReachable net sizes)
    (hvalid : t.valid net a) (h : t.perform net a = .ok t') : t'.node = t.node ∨
      ∃ n es x, a = .ni n ∧ Trace Node.Move es (t.node n) x ∧ es.countP id ≤ 1 ∧
        t'.node = update t.node n x := by
  cases a with
  | network b =>
    obtain ⟨s, hs, h⟩ := bind_eq_ok.mp h
    cases h
    have hb : t.state.valid net b ∧ ∀ n slots, b ≠ .ni n slots := by
      cases b <;> first | exact ⟨hvalid, nofun⟩ | exact hvalid.elim
    obtain ⟨hfields, hbuffers, _⟩ := perform_frame ht.network hb.1 hs hb.2
    have hqueue : s.stallQueue = t.state.stallQueue := congrArg Prod.snd hbuffers
    have hcount : s.stallCount = t.state.stallCount := congrArg NiFields.stallCount hfields
    left
    funext n
    simp only [node, hqueue, hcount]
  | ni n =>
    obtain ⟨es, x, htrace, hes, hnode⟩ := wakeup_node h
    exact .inr ⟨n, es, x, rfl, htrace, hes, hnode⟩
  | protocol n v op => exact .inl (protocol_node h)

theorem FreeReachable.node_ok {sizes : Nat → Nat → Nat} (h : t.FreeReachable net sizes) (n : Nat) :
    (t.node n).Ok := by
  obtain ⟨bits, random, hrun⟩ := h
  induction hrun with
  | refl => exact ⟨fun _ => rfl, rfl, fun _ => rfl, fun _ => by simp [node, init, State.init]⟩
  | @tail t₁ t₂ hrun hstep ih =>
    obtain ⟨a, hvalid, hperform⟩ := hstep
    have hreach : t₁.FreeReachable net sizes := ⟨bits, random, hrun⟩
    rcases perform_node hreach hvalid hperform with hsame | ⟨m, es, x, rfl, htrace, _, hnode⟩
    · rwa [hsame]
    · rw [hnode]
      by_cases hm : n = m
      · subst hm
        rw [update_self]
        exact htrace.keeps (fun _ _ _ _ hmove hok => hmove.ok hok) ih
      · rwa [update_of_ne hm]

/-- The ejection in every run, whatever the sizes of the protocol buffers and whenever the protocol
dequeues: messages are enqueued in the order of their arrival in each virtual network, each with one
free credit, at most one in a wakeup, and the counts and callbacks tell what is stalled. -/
theorem ejection_ok {sizes : Nat → Nat → Nat} (h : t.FreeReachable net sizes) (n : Nat) :
    (∀ vnet, (t.arrived n).filter (·.vnet = vnet) =
      ((t.enqueued n).map Prod.snd).filter (·.vnet = vnet) ++
        (t.state.stallQueue n).filter (·.vnet = vnet)) ∧
    (t.credits n = (t.enqueued n).map fun e => ⟨e.2.vc, true, e.1⟩) ∧
    (∀ vnet, t.state.stallCount n vnet = ((t.state.stallQueue n).filter (·.vnet = vnet)).length) ∧
    (∀ vnet, (t.outNode n vnet).dequeueCallback = true ↔ 0 < t.state.stallCount n vnet) ∧
    ∀ t', n < net.nodes → t.perform net (.ni n) = .ok t' →
      ∃ es, es.length ≤ 1 ∧ t'.enqueued n = t.enqueued n ++ es := by
  have hok := h.node_ok n
  refine ⟨hok.order, hok.credits, hok.count, hok.callback, fun t' hn ht' => ?_⟩
  rcases perform_node (a := .ni n) h hn ht' with hsame | ⟨m, ls, x, ha, htrace, hls, hnode⟩
  · exact ⟨[], Nat.zero_le 1, by rw [append_nil]; exact congrArg Node.enqueued (congrFun hsame n)⟩
  · cases ha
    have henqueued : x = t'.node n := by rw [hnode, update_self]
    obtain ⟨es, hlen, hes⟩ : ∃ es, es.length = ls.countP id ∧
        x.enqueued = (t.node n).enqueued ++ es := by
      refine htrace.induct (fun ks y => ∃ es, es.length = ks.countP id ∧
        y.enqueued = (t.node n).enqueued ++ es) ⟨[], rfl, by simp⟩ ?_
      rintro ks b u v _ hmove ⟨es, hlen, hes⟩
      obtain ⟨fs, hlen', hfs⟩ := hmove.enqueued
      refine ⟨es ++ fs, ?_, by rw [hfs, hes, append_assoc]⟩
      cases b <;> simp [hlen, hlen']
    subst henqueued
    exact ⟨es, hlen ▸ hls, hes⟩

/-- Node 0 sends itself two messages, and the buffer has room for one. -/
def stallingRun : List SystemAction :=
  [.network (.message 0 0 ⟨[0], 1⟩), .network (.message 0 0 ⟨[0], 2⟩),
    .network (.message 0 1 ⟨[0], 9⟩), .network .tick, .ni 0, .network .tick, .ni 0,
    .network (.link (.extIn 0)), .network .tick, .network (.router 0), .ni 0, .network .tick, .ni 0,
    .network (.link (.extOut 0)), .network (.creditLink (.extIn 0)), .network .tick, .ni 0,
    .network .tick, .ni 0, .network (.creditLink (.extOut 0)), .network .tick, .network (.router 0),
    .network (.link (.extIn 0)), .network (.creditLink (.extOut 0)), .network .tick,
    .network (.router 0), .network .tick, .ni 0, .network (.link (.extOut 0)),
    .network (.creditLink (.extIn 0)), .network .tick, .ni 0]

theorem stallingRun_stalls : ∃ t : System,
    t.Reachable (pairNet 1 100) (fun _ _ => 1) ∧
      (t.state.stallQueue 0).length = 1 ∧ (t.arrived 0).length = 2 ∧
      ((t.state.stallQueue 0).filter (·.vnet = 0)).length = 1 :=
  exists_reachable stallingRun (fun _ => 0) (by decide +kernel)

theorem ejection_ok_pairNet : ∃ t : System,
    t.FreeReachable (pairNet 1 100) (fun _ _ => 1) ∧
      (t.state.stallQueue 0).length = 1 ∧ (t.arrived 0).length = 2 ∧ t.state.stallCount 0 0 = 1 ∧
      (t.outNode 0 0).dequeueCallback = true := by
  obtain ⟨t, ht, hqueue, harrived, hstalled⟩ := stallingRun_stalls
  obtain ⟨_, _, hcount, hcallback, _⟩ := ejection_ok ht.free 0
  have hone : t.state.stallCount 0 0 = 1 := by
    rw [hcount 0, hstalled]
    rfl
  exact ⟨t, ht.free, hqueue, harrived, hone, (hcallback 0).mpr (by rw [hone]; exact Int.one_pos)⟩

end System

end Drain
