import Drain.Conservation

/-! `GarnetNetwork::functionalWrite`: a write is offered to the messages of the flits in the network.
A flit has a message of its own, so that the messages are a table over the flits' pointers. -/

namespace Drain

open Function List Net Place Flit

variable {μ : Type}

section Write

variable (net : Net) (write : μ → Bool × μ) (s : Core)

abbrev Messages (μ : Type) := (Nat → μ) × Nat

def flitFunctionalWrite (x : Messages μ) (f : Flit) : Messages μ :=
  let (accepted, message) := write (x.1 f.ptr)
  (update x.1 f.ptr message, x.2 + accepted.toNat)

def flitBufferFunctionalWrite (x : Messages μ) (b : List Flit) : Messages μ :=
  b.foldl (flitFunctionalWrite write) x

def crossbarFunctionalWrite (r : Nat) (x : Messages μ) : Messages μ :=
  (range (net.inports r).length).foldl
    (fun x i => flitBufferFunctionalWrite write x (s.switchBuffer r i)) x

def inputUnitFunctionalWrite (x : Messages μ) (p : InPort) : Messages μ :=
  (range net.numVcs).foldl
    (fun x v => flitBufferFunctionalWrite write x (s.vcs p.link v).inputBuffer) x

def outputUnitFunctionalWrite (x : Messages μ) (p : OutPort) : Messages μ :=
  flitBufferFunctionalWrite write x (s.outBuffer p.link)

def routerFunctionalWrite (x : Messages μ) (r : Nat) : Messages μ :=
  let x := crossbarFunctionalWrite net write s r x
  let x := (net.inports r).foldl (inputUnitFunctionalWrite net write s) x
  (net.outports r).foldl (outputUnitFunctionalWrite write s) x

def niFunctionalWrite (x : Messages μ) (n : Nat) : Messages μ :=
  let x := (range net.numVcs).foldl
    (fun x v => flitBufferFunctionalWrite write x (s.niOutVcs n v)) x
  flitBufferFunctionalWrite write x (s.outBuffer (.extIn n))

def linkFunctionalWrite (x : Messages μ) (l : Link) : Messages μ :=
  flitBufferFunctionalWrite write x (s.linkBuffer l)

def functionalWrite (contents : Nat → μ) : Messages μ :=
  let x := (range net.numRouters).foldl (routerFunctionalWrite net write s) (contents, 0)
  let x := (range net.nodes).foldl (niFunctionalWrite net write s) x
  net.links.foldl (linkFunctionalWrite write s) x

end Write

section Visits

variable {net : Net} {write : μ → Bool × μ} {s : Core} {contents : Nat → μ}

namespace Net

def routerVisited (net : Net) (r : Nat) : List Place :=
  (range (net.inports r).length).map (switch r) ++
    (net.inports r).flatMap (fun p => (range net.numVcs).map (vc p.link)) ++
    (net.outports r).map fun p => out p.link

def niVisited (net : Net) (n : Nat) : List Place :=
  (range net.numVcs).map (niVc n) ++ [out (.extIn n)]

def visited (net : Net) : List Place :=
  (range net.numRouters).flatMap net.routerVisited ++
    (range net.nodes).flatMap net.niVisited ++ net.links.map link

end Net

theorem functionalWrite_eq (net : Net) (write : μ → Bool × μ) (s : Core) (contents : Nat → μ) :
    functionalWrite net write s contents =
      (net.visited.flatMap s.flitsAt).foldl (flitFunctionalWrite write) (contents, 0) := by
  unfold visited routerVisited niVisited
  simp only [foldl_flatMap, foldl_append, foldl_map]
  rfl

theorem foldl_flitFunctionalWrite {fs : List Flit} (hfs : (fs.map ptr).Nodup) (k : Nat) :
    fs.foldl (flitFunctionalWrite write) (contents, k) =
      (fun p => if p ∈ fs.map ptr then (write (contents p)).2 else contents p,
        k + fs.countP fun f => (write (contents f.ptr)).1) := by
  induction fs generalizing contents k with
  | nil => simp
  | cons f fs ih =>
    obtain ⟨hfresh, hfs⟩ := nodup_cons.mp hfs
    rw [foldl_cons, flitFunctionalWrite, ih hfs]
    refine Prod.ext (funext fun p => ?_) ?_
    · by_cases hp : p = f.ptr
      · subst hp
        simp [hfresh]
      · simp [hp]
    · have hrest : fs.countP (fun g => (write (update contents f.ptr (write (contents f.ptr)).2
          g.ptr)).1) = fs.countP fun g => (write (contents g.ptr)).1 := by
        refine countP_congr fun g hg => ?_
        have hne : g.ptr ≠ f.ptr := by
          intro heq
          rw [← heq] at hfresh
          exact hfresh (mem_map_of_mem hg)
        rw [update_of_ne hne]
      dsimp only
      rw [hrest, countP_cons]
      cases (write (contents f.ptr)).1 with
      | true =>
        simp only [Bool.toNat_true, if_true]
        omega
      | false => rfl

namespace Net

variable {r i n v : Nat} {l : Link}

@[simp] theorem switch_mem_visited :
    switch r i ∈ net.visited ↔ r < net.numRouters ∧ i < (net.inports r).length := by
  simp [visited, routerVisited, niVisited]

@[simp] theorem vc_mem_visited : vc l v ∈ net.visited ↔ net.IsInport l ∧ v < net.numVcs := by
  have hmem : vc l v ∈ net.visited ↔
      ∃ r < net.numRouters, ∃ p ∈ net.inports r, v < net.numVcs ∧ p.link = l := by
    simp [visited, routerVisited, niVisited]
  rw [hmem]
  constructor
  · rintro ⟨r, hr, p, hp, hv, hl⟩
    exact ⟨⟨r, hr, p, hp, hl⟩, hv⟩
  · rintro ⟨⟨r, hr, p, hp, hl⟩, hv⟩
    exact ⟨r, hr, p, hp, hv, hl⟩

@[simp] theorem out_mem_visited : out l ∈ net.visited ↔
    (∃ r < net.numRouters, ∃ p ∈ net.outports r, p.link = l) ∨ ∃ n < net.nodes, l = .extIn n := by
  simp [visited, routerVisited, niVisited]

@[simp] theorem niVc_mem_visited : niVc n v ∈ net.visited ↔ n < net.nodes ∧ v < net.numVcs := by
  simp [visited, routerVisited, niVisited]

@[simp] theorem link_mem_visited : link l ∈ net.visited ↔ l ∈ net.links := by
  simp [visited, routerVisited, niVisited]

theorem stall_not_mem_visited : stall n ∉ net.visited := by
  simp [visited, routerVisited, niVisited]

theorem delivered_not_mem_visited : delivered ∉ net.visited := by
  simp [visited, routerVisited, niVisited]

theorem visited_subset (net : Net) : ∀ x ∈ net.visited, x ∈ net.places := by
  intro x hx
  cases x with
  | niVc n v => exact niVc_mem_places.mpr (niVc_mem_visited.mp hx)
  | out l =>
    rcases out_mem_visited.mp hx with ⟨r, hr, p, hp, rfl⟩ | ⟨n, hn, rfl⟩
    · exact out_mem_places.mpr (outport_mem_links hr hp)
    · exact out_mem_places.mpr (extIn_mem_links.mpr hn)
  | link l => exact link_mem_places.mpr (link_mem_visited.mp hx)
  | vc l v =>
    obtain ⟨⟨r, hr, p, hp, rfl⟩, hv⟩ := vc_mem_visited.mp hx
    exact vc_mem_places.mpr ⟨(inport_mem_links hr hp).1, hv⟩
  | switch r i => exact switch_mem_places.mpr (switch_mem_visited.mp hx)
  | stall n => exact absurd hx stall_not_mem_visited
  | delivered => exact delivered_mem_places

theorem inports_link_nodup (hr : r < net.numRouters) : ((net.inports r).map InPort.link).Nodup := by
  refine nodup_iff_injective_getElem.mpr fun i j hij => ?_
  simp only [getElem_map] at hij
  exact Fin.ext (inport_index_unique hr (getElem?_eq_getElem _) (getElem?_eq_getElem _) hij)

theorem source_of_outport {l : Link} (hr : r < net.numRouters)
    (hl : l ∈ (net.outports r).filterMap fun p => match p.link with
      | .int a b => some (Link.int a b)
      | _ => none) : ∃ b, l = .int r b := by
  obtain ⟨p, hp, hl⟩ := mem_filterMap.mp hl
  rcases outport_cases hr hp with ⟨n, _, _, hlink, _⟩ | ⟨b, _, hlink⟩
  · rw [hlink] at hl
    cases hl
  · rw [hlink] at hl
    cases hl
    exact ⟨b, rfl⟩

theorem links_nodup (net : Net) : net.links.Nodup := by
  unfold links
  refine nodup_append.mpr ⟨nodup_flatMap.mpr ⟨fun n _ => by simp, ?_⟩,
    nodup_flatMap.mpr ⟨fun r hr => ?_, ?_⟩, fun l hl l' hl' => ?_⟩
  · refine nodup_range.imp fun {n n'} hne l hl hl' => ?_
    simp only [mem_cons, not_mem_nil, or_false] at hl hl'
    rcases hl with rfl | rfl <;> simp at hl' <;> exact hne hl'
  · have hlinks := outports_link_nodup (mem_range.mp hr)
    rw [Nodup, pairwise_map] at hlinks
    refine pairwise_filterMap.mpr (hlinks.imp fun hne l hl l' hl' => ?_)
    rintro rfl
    split at hl
    · next hlink =>
      cases hl
      split at hl'
      · next hlink' =>
        cases hl'
        exact hne (hlink.trans hlink'.symm)
      · cases hl'
    · cases hl
  · refine nodup_range.imp_of_mem fun {r r'} hr hr' hne l hl hl' => ?_
    obtain ⟨b, rfl⟩ := source_of_outport (mem_range.mp hr) hl
    obtain ⟨b', heq⟩ := source_of_outport (mem_range.mp hr') hl'
    exact hne (Link.int.inj heq).1
  · obtain ⟨n, _, hl⟩ := mem_flatMap.mp hl
    obtain ⟨r, hr, hl'⟩ := mem_flatMap.mp hl'
    obtain ⟨b, rfl⟩ := source_of_outport (mem_range.mp hr) hl'
    rintro rfl
    simp at hl

def placeRouter (net : Net) : Place → Nat
  | .switch r _ => r
  | .vc l _ => net.dstRouter l
  | .out (.int a _) => a
  | .out (.extOut n) => net.extRouter n
  | _ => 0

theorem placeRouter_of_mem (hr : r < net.numRouters) {x : Place} (hx : x ∈ net.routerVisited r) :
    net.placeRouter x = r ∧ ∀ n, x ≠ .out (.extIn n) := by
  simp only [routerVisited, mem_append, mem_map, mem_flatMap] at hx
  rcases hx with (⟨i, _, rfl⟩ | ⟨p, hp, v, _, rfl⟩) | ⟨p, hp, rfl⟩
  · exact ⟨rfl, nofun⟩
  · exact ⟨(inport_mem_links hr hp).2.1, nofun⟩
  · refine ⟨?_, fun n h => outport_ne_extIn hr hp n (out.inj h)⟩
    rcases outport_cases hr hp with ⟨n, _, hn, hl, _⟩ | ⟨b, _, hl⟩
    · rw [hl]
      exact hn
    · rw [hl]
      rfl

theorem routerVisited_nodup (hr : r < net.numRouters) : (net.routerVisited r).Nodup := by
  unfold routerVisited
  refine nodup_append.mpr ⟨nodup_append.mpr ⟨?_, nodup_flatMap.mpr ⟨fun p _ => ?_, ?_⟩,
    ?_⟩, ?_, ?_⟩
  · exact nodup_range.map fun i j h => (switch.inj h).2
  · exact nodup_range.map fun v w h => (vc.inj h).2
  · refine (pairwise_map.mp (inports_link_nodup hr)).imp fun {p q} hne x hx hx' => ?_
    obtain ⟨v, _, rfl⟩ := mem_map.mp hx
    obtain ⟨w, _, heq⟩ := mem_map.mp hx'
    exact hne (vc.inj heq).1.symm
  · intro x hx y hy
    obtain ⟨i, _, rfl⟩ := mem_map.mp hx
    obtain ⟨p, _, hy⟩ := mem_flatMap.mp hy
    obtain ⟨v, _, rfl⟩ := mem_map.mp hy
    nofun
  · have hout := (outports_link_nodup hr).map (f := out) fun l l' h => out.inj h
    rwa [map_map] at hout
  · intro x hx y hy
    obtain ⟨p, _, rfl⟩ := mem_map.mp hy
    rcases mem_append.mp hx with hx | hx
    · obtain ⟨i, _, rfl⟩ := mem_map.mp hx
      nofun
    · obtain ⟨q, _, hx⟩ := mem_flatMap.mp hx
      obtain ⟨v, _, rfl⟩ := mem_map.mp hx
      nofun

theorem mem_niVisited {x : Place} (hx : x ∈ net.niVisited n) :
    (∃ v, x = .niVc n v) ∨ x = .out (.extIn n) := by
  rcases mem_append.mp hx with hx | hx
  · obtain ⟨v, _, rfl⟩ := mem_map.mp hx
    exact .inl ⟨v, rfl⟩
  · exact .inr (mem_singleton.mp hx)

theorem niVisited_nodup (net : Net) (n : Nat) : (net.niVisited n).Nodup := by
  refine nodup_append.mpr ⟨?_, nodup_singleton _, fun x hx y hy => ?_⟩
  · exact nodup_range.map fun v w h => (niVc.inj h).2
  · obtain ⟨v, _, rfl⟩ := mem_map.mp hx
    obtain rfl := mem_singleton.mp hy
    nofun

theorem visited_nodup (net : Net) : net.visited.Nodup := by
  unfold visited
  refine nodup_append.mpr ⟨nodup_append.mpr ⟨nodup_flatMap.mpr ⟨fun r hr => ?_, ?_⟩,
    nodup_flatMap.mpr ⟨fun n _ => niVisited_nodup net n, ?_⟩, fun x hx y hy => ?_⟩, ?_,
      fun x hx y hy => ?_⟩
  · exact routerVisited_nodup (mem_range.mp hr)
  · refine nodup_range.imp_of_mem fun {r r'} hr hr' hne x hx hx' => hne ?_
    rw [← (placeRouter_of_mem (mem_range.mp hr) hx).1,
      (placeRouter_of_mem (mem_range.mp hr') hx').1]
  · refine nodup_range.imp fun {n n'} hne x hx hx' => hne ?_
    rcases mem_niVisited hx with ⟨v, rfl⟩ | rfl <;> rcases mem_niVisited hx' with ⟨v', h⟩ | h
    · exact (niVc.inj h).1
    · cases h
    · cases h
    · exact Link.extIn.inj (out.inj h)
  · obtain ⟨r, hr, hx⟩ := mem_flatMap.mp hx
    obtain ⟨n, _, hy⟩ := mem_flatMap.mp hy
    rintro rfl
    rcases mem_niVisited hy with ⟨v, rfl⟩ | rfl
    · simp [routerVisited] at hx
    · exact (placeRouter_of_mem (mem_range.mp hr) hx).2 n rfl
  · exact (links_nodup net).map fun l l' h => link.inj h
  · obtain ⟨l, _, rfl⟩ := mem_map.mp hy
    rintro rfl
    simp [routerVisited, niVisited] at hx

end Net

end Visits

section Runs

variable {net : Net} {s : State}

theorem visited_flitInv (net : Net) : FlitInv net fun x _ =>
    x ∈ net.visited ∨ (∃ n < net.nodes, x = .stall n) ∨ x = .delivered where
  carried := by
    intro c x y f f' hc hf hcarried hx
    cases hcarried with
    | receive hr hp _ _ =>
      exact .inl (vc_mem_visited.mpr ⟨⟨_, hr, _, hp, rfl⟩, (hc.flits _ _ hf).2.1.vc⟩)
    | mark _ _ _ => exact hx
    | grant _ hr hp _ _ _ _ =>
      exact .inl (switch_mem_visited.mpr ⟨hr, (List.getElem?_eq_some_iff.mp hp).1⟩)
    | cross hr hop =>
      exact .inl (out_mem_visited.mpr (.inl ⟨_, hr, _, mem_of_getElem? hop, rfl⟩))
    | send hn => exact .inl (out_mem_visited.mpr (.inr ⟨_, hn, rfl⟩))
    | link hl => exact .inl (link_mem_visited.mpr hl)
    | stall hn => exact .inr (.inl ⟨_, hn, rfl⟩)
    | deliver _ => exact .inr (.inr rfl)
    | unstall _ => exact .inr (.inr rfl)
  made := fun _ _ hn hv _ _ => .inl (niVc_mem_visited.mpr ⟨hn, hv⟩)
  spun := by
    intro vc c t hc hspin hall l v f hf
    rcases hspin.ports l v with heq | hl
    · rw [heq] at hf
      exact hall (.vc l v) f hf
    · have hplace := (hspin.wf.flits (.vc l v) f hf).1
      exact .inl (vc_mem_visited.mpr ⟨hl, (vc_mem_places.mp hplace).2⟩)
  delayed := fun _ h => h

theorem mem_visited_flits (h : s.FreeReachable net) {f : Flit} :
    f ∈ net.visited.flatMap s.flitsAt ↔
      ∃ x, x ≠ .delivered ∧ (∀ n, x ≠ .stall n) ∧ f ∈ s.flitsAt x := by
  rw [mem_flatMap]
  constructor
  · rintro ⟨x, hx, hf⟩
    refine ⟨x, ?_, ?_, hf⟩
    · rintro rfl
      exact delivered_not_mem_visited hx
    · rintro n rfl
      exact stall_not_mem_visited hx
  · rintro ⟨x, hdelivered, hstall, hf⟩
    rcases (visited_flitInv net).reachable h x f hf with hx | ⟨n, _, hx⟩ | hx
    · exact ⟨x, hx, hf⟩
    · exact absurd hx (hstall n)
    · exact absurd hx hdelivered

/-- The write is offered to the message of every flit in the network once, and the messages that
accept it are counted, if and only if no stall queue holds a flit. -/
theorem functionalWrite_once [Inhabited μ] (h : s.FreeReachable net) :
    (∀ (write : μ → Bool × μ) contents, ∃ held : List Flit, (held.map ptr).Nodup ∧
      (∀ f, f ∈ held ↔ ∃ x, x ≠ .delivered ∧ f ∈ s.flitsAt x) ∧
      functionalWrite net write s.toCore contents =
        (fun p => if p ∈ held.map ptr then (write (contents p)).2 else contents p,
          held.countP fun f => (write (contents f.ptr)).1)) ↔
    ∀ n < net.nodes, s.stallQueue n = [] := by
  obtain ⟨hnodup, _⟩ := h.ptrs_nodup net.visited_nodup net.visited_subset
  constructor
  · intro hall n hn
    -- a write that all accept counts the flits that are visited
    obtain ⟨held, -, hheld, hwrite⟩ := hall (fun m => (true, m)) fun _ => default
    have hcount := congrArg Prod.snd hwrite
    rw [functionalWrite_eq, foldl_flitFunctionalWrite hnodup, zero_add] at hcount
    simp only [countP_true] at hcount
    obtain ⟨hmore, _⟩ := h.ptrs_nodup
      (nodup_cons.mpr ⟨stall_not_mem_visited, net.visited_nodup⟩)
      (forall_mem_cons.mpr ⟨stall_mem_places.mpr hn, net.visited_subset⟩)
    have hle := ((Nodup.of_map _ hmore).subperm fun f hf => (hheld f).mpr ?_).length_le
    · rw [flatMap_cons, length_append] at hle
      exact length_eq_zero_iff.mp (show (s.flitsAt (.stall n)).length = 0 by omega)
    · rw [flatMap_cons, mem_append, mem_visited_flits h] at hf
      rcases hf with hf | ⟨x, hdelivered, _, hf⟩
      · exact ⟨.stall n, nofun, hf⟩
      · exact ⟨x, hdelivered, hf⟩
  intro hstall write contents
  refine ⟨net.visited.flatMap s.flitsAt, hnodup, fun f => ?_, ?_⟩
  · rw [mem_visited_flits h]
    constructor
    · rintro ⟨x, hdelivered, _, hf⟩
      exact ⟨x, hdelivered, hf⟩
    · rintro ⟨x, hdelivered, hf⟩
      refine ⟨x, hdelivered, ?_, hf⟩
      rintro n rfl
      have hn := stall_mem_places.mp (h.wf.1.flits (.stall n) f hf).1
      change f ∈ s.stallQueue n at hf
      rw [hstall n hn] at hf
      cases hf
  · rw [functionalWrite_eq, foldl_flitFunctionalWrite hnodup, zero_add]

end Runs

/-- A flit is sent at cycle 4, and the functional write comes when it is on its first link. -/
def sentActions : List Action :=
  [.message 0 0 ⟨[1], 4⟩, .tick, .tick, .tick, .tick, .ni 0 fun _ => true, .tick, .link (.extIn 0)]

theorem sentActions_run : ∃ s : State, s.Reachable (pairNet 1 8) ∧
    (s.linkBuffer (.extIn 0)).map ptr = [0] ∧ s.stallQueue 0 = [] ∧ s.stallQueue 1 = [] :=
  State.exists_reachable sentActions (fun _ => 0) (by decide +kernel)

theorem functionalWrite_once_pairNet : ∃ s : State,
    s.Reachable (pairNet 1 8) ∧
    (s.linkBuffer (.extIn 0)).map ptr = [0] ∧
    (functionalWrite (pairNet 1 8) (fun m : Nat => (true, m + 1)) s.toCore
      fun _ => 0).1 0 = 1 := by
  obtain ⟨s, hreach, hlink, hstall₀, hstall₁⟩ := sentActions_run
  have hstall : ∀ n < 2, s.stallQueue n = [] := fun n hn => by
    interval_cases n
    · exact hstall₀
    · exact hstall₁
  obtain ⟨held, _, hheld, hwrite⟩ := (functionalWrite_once hreach.free).mpr hstall
    (fun m : Nat => (true, m + 1)) fun _ => 0
  refine ⟨s, hreach, hlink, ?_⟩
  obtain ⟨f, hf, hptr⟩ := map_eq_singleton_iff.mp hlink
  have hmem : f ∈ held := (hheld f).mpr ⟨.link (.extIn 0), nofun, by simp [Core.flitsAt, hf]⟩
  rw [hwrite]
  exact if_pos (hptr ▸ mem_map_of_mem hmem)

/-- The flit of `drainedActions` finds no room in the protocol buffer and waits in the stall queue,
where no functional write reaches its message. -/
theorem functionalWrite_misses_pairNet : ∃ s : State,
    s.Reachable (pairNet 1 8) ∧ (s.stallQueue 1).map ptr = [0] ∧
    (functionalWrite (pairNet 1 8) (fun m : Nat => (true, m + 1)) s.toCore
      fun _ => 0).1 0 = 0 ∧
    (functionalWrite (pairNet 1 8) (fun m : Nat => (true, m + 1)) s.toCore
      fun _ => 0).2 = 0 :=
  State.exists_reachable (drainedActions.dropLast ++ [.ni 1 fun _ => false]) (fun _ => 0)
    (by decide +kernel)

end Drain
