import Drain.Moves

/-! What the moves do to the flits: each move leaves all flits in place, carries
one flit from a buffer to another, or makes a new one. -/

namespace Drain

open Function State Core

section Buffer

variable {α : Type} [Timed α] {x y : α} {b : List α}

theorem bufferInsert_perm (x : α) (b : List α) : (bufferInsert x b).Perm (x :: b) := by
  induction b with
  | nil => exact List.Perm.refl _
  | cons y b ih =>
    unfold bufferInsert
    split
    · exact List.Perm.refl _
    · exact (ih.cons y).trans (List.Perm.swap x y b)

@[simp] theorem mem_bufferInsert : y ∈ bufferInsert x b ↔ y = x ∨ y ∈ b := by
  rw [(bufferInsert_perm x b).mem_iff, List.mem_cons]

end Buffer

inductive Carried (net : Net) (s : Core) : Place → Place → Flit → Flit → Prop
  | receive {r : Nat} {p : InPort} {f f' : Flit} : r < net.numRouters → p ∈ net.inports r →
      f.time ≤ s.curCycle → Arrived net r s.curCycle f f' →
      Carried net s (.link p.link) (.vc p.link f.vc) f f'
  | mark {r v : Nat} {p : InPort} {f f' : Flit} : r < net.numRouters → p ∈ net.inports r →
      Marked (s.outportsDirn2idx r) p f f' → Carried net s (.vc p.link v) (.vc p.link v) f f'
  | grant {r i o v w : Nat} {p : InPort} {op : OutPort} {f : Flit} (uturn : Bool) :
      r < net.numRouters → (net.inports r)[i]? = some p → (net.outports r)[o]? = some op →
      f.outport = o → w < net.numVcs → w / net.vcsPerVnet = v / net.vcsPerVnet →
      Carried net s (.vc p.link v) (.switch r i) f { f with
        requestUturn := uturn
        outport := o
        outportDir := op.dirn
        vc := w
        stage := (.ST, s.curCycle) }
  | cross {r i : Nat} {op : OutPort} {f : Flit} : r < net.numRouters →
      (net.outports r)[f.outport]? = some op →
      Carried net s (.switch r i) (.out op.link) f
        { f with stage := (.LT, s.curCycle + 1), time := s.curCycle + 1 }
  | send {n v : Nat} {f : Flit} : n < net.nodes →
      Carried net s (.niVc n v) (.out (.extIn n)) f { f with time := s.curCycle + 1 }
  | link {l : Link} {f : Flit} : l ∈ net.links →
      Carried net s (.out l) (.link l) f { f with time := s.curCycle + net.linkLatency }
  | stall {n : Nat} {f : Flit} : n < net.nodes →
      Carried net s (.link (.extOut n)) (.stall n) f f
  | deliver {n : Nat} {f : Flit} : n < net.nodes →
      Carried net s (.link (.extOut n)) .delivered f f
  | unstall {n : Nat} {f : Flit} : n < net.nodes → Carried net s (.stall n) .delivered f f

/-- The flit `f` at `x` becomes the flit `f'` at `y`, and all others stay. -/
def Moved (s t : Core) (x y : Place) (f f' : Flit) : Prop :=
  ∃ c, Taken s.flitsAt c x f ∧ Taken t.flitsAt c y f'

inductive Flow (net : Net) (s t : Core) : Prop
  | still : t.flitsAt = s.flitsAt → t.nextPtr = s.nextPtr → Flow net s t
  | carry {x y : Place} {f f' : Flit} : Moved s t x y f f' → Carried net s x y f f' →
      t.nextPtr = s.nextPtr → Flow net s t
  | make {n v vnet dest : Nat} : n < net.nodes → v < net.numVcs → dest < net.nodes →
      v / net.vcsPerVnet = (if net.injSingleVnet = 0 then vnet else 0) →
      Taken t.flitsAt s.flitsAt (.niVc n v)
        (newFlit s.nextPtr 0 v vnet (messageRoute net n vnet dest) 1 s.curCycle) →
      t.nextPtr = s.nextPtr + 1 → Flow net s t

section Updates

variable {s : Core}

theorem flitsAt_linkBuffer (l : Link) (b : List Flit) :
    ({ s with linkBuffer := update s.linkBuffer l b } : Core).flitsAt =
      update s.flitsAt (.link l) b := by
  funext x
  cases x <;> simp [flitsAt, update_apply]

theorem flitsAt_outBuffer (l : Link) (b : List Flit) :
    ({ s with outBuffer := update s.outBuffer l b } : Core).flitsAt =
      update s.flitsAt (.out l) b := by
  funext x
  cases x <;> simp [flitsAt, update_apply]

theorem flitsAt_vcs (l : Link) (v : Nat) (w : VirtualChannel) :
    ({ s with vcs := setEntry s.vcs l v w } : Core).flitsAt =
      update s.flitsAt (.vc l v) w.inputBuffer := by
  funext x
  cases x with
  | vc l' v' =>
    by_cases h : l' = l ∧ v' = v
    · rw [h.1, h.2]
      simp [flitsAt]
    · simp [flitsAt, setEntry_of_ne _ _ h, h]
  | _ => simp [flitsAt]

theorem flitsAt_switchBuffer (r i : Nat) (b : List Flit) :
    ({ s with switchBuffer := setEntry s.switchBuffer r i b } : Core).flitsAt =
      update s.flitsAt (.switch r i) b := by
  funext x
  cases x <;> simp [flitsAt, update_apply, setEntry_apply]

theorem flitsAt_niOutVcs (n v : Nat) (b : List Flit) :
    ({ s with niOutVcs := setEntry s.niOutVcs n v b } : Core).flitsAt =
      update s.flitsAt (.niVc n v) b := by
  funext x
  cases x <;> simp [flitsAt, update_apply, setEntry_apply]

theorem flitsAt_stallQueue (n : Nat) (b : List Flit) :
    ({ s with stallQueue := update s.stallQueue n b } : Core).flitsAt =
      update s.flitsAt (.stall n) b := by
  funext x
  cases x <;> simp [flitsAt, update_apply]

theorem flitsAt_delivered (ds : List Delivery) :
    ({ s with delivered := ds } : Core).flitsAt =
      update s.flitsAt .delivered (ds.map Delivery.flit) := by
  funext x
  cases x <;> simp [flitsAt]

theorem flitsAt_insertFlit (l : Link) (f : Flit) : (insertFlit l f s).flitsAt =
    update s.flitsAt (.out l) (bufferInsert f (s.flitsAt (.out l))) :=
  flitsAt_outBuffer (s := s) l _

theorem flitsAt_deliver (n : Nat) (f : Flit) : (deliver n f s).flitsAt =
    update s.flitsAt .delivered (f :: s.flitsAt .delivered) :=
  flitsAt_delivered (s := s) _

theorem flitsAt_createFlit (net : Net) (n vnet dest v : Nat) :
    (createFlit net n vnet dest v s).flitsAt = update s.flitsAt (.niVc n v)
      (bufferInsert (newFlit s.nextPtr 0 v vnet (messageRoute net n vnet dest) 1 s.curCycle)
        (s.flitsAt (.niVc n v))) :=
  flitsAt_niOutVcs (s := s) n v _

end Updates

section Moved

variable {s t : Core} {x y : Place} {f f' : Flit} {rest new : List Flit} {l m : Link} {n r i v w : Nat}

theorem Moved.of_update (hx : s.flitsAt x = f :: rest)
    (ht : t.flitsAt = update (update s.flitsAt x rest) y new)
    (hnew : new.Perm (f' :: update s.flitsAt x rest y)) : Moved s t x y f f' := by
  refine ⟨_, .of_cons hx, ?_⟩
  rw [ht]
  exact .of_perm hnew

theorem Moved.total {places : Finset Place} {w : Place → Flit → Nat} (h : Moved s t x y f f')
    (hx : x ∈ places) (hy : y ∈ places) :
    total places w t.flitsAt + w x f = total places w s.flitsAt + w y f' := by
  obtain ⟨_, hfrom, hto⟩ := h
  exact hfrom.total_moved hto hx hy

theorem Moved.received (hbuf : s.linkBuffer l = f :: rest)
    (dirns : Nat → PortDirection → Option Nat) :
    Moved s (s.received l rest f f' dirns) (.link l) (.vc l f.vc) f f' := by
  refine .of_update hbuf ?_ (bufferInsert_perm _ _)
  rw [← flitsAt_linkBuffer]
  exact flitsAt_vcs (s := { s with linkBuffer := update s.linkBuffer l rest }) _ _ _

theorem Moved.marked (hbuf : (s.vcs l v).inputBuffer = [f]) :
    Moved s { s with vcs := setEntry s.vcs l v { s.vcs l v with inputBuffer := [f'] } }
      (.vc l v) (.vc l v) f f' := by
  have hnew : [f'].Perm (f' :: update s.flitsAt (.vc l v) [] (.vc l v)) := by
    rw [update_self]
  refine .of_update hbuf ?_ hnew
  rw [update_idem]
  exact flitsAt_vcs _ _ _

theorem Moved.granted (hbuf : (s.vcs l v).inputBuffer = [f]) :
    Moved s (s.granted l v m w r i f') (.vc l v) (.switch r i) f f' := by
  refine .of_update hbuf ?_ (bufferInsert_perm _ _)
  have hvc := flitsAt_vcs (s := s) l v ((s.vcs l v).drained s.curCycle)
  change _ = update (update s.flitsAt (.vc l v)
    ((s.vcs l v).drained s.curCycle).inputBuffer) _ (bufferInsert _ (s.switchBuffer r i))
  rw [← hvc]
  exact flitsAt_switchBuffer (s := { s with
    vcs := setEntry s.vcs l v ((s.vcs l v).drained s.curCycle) }) _ _ _

theorem Moved.crossed (hbuf : s.switchBuffer r i = f :: rest) :
    Moved s (s.crossed r i rest l f') (.switch r i) (.out l) f f' := by
  refine .of_update hbuf ?_ (bufferInsert_perm _ _)
  unfold Core.crossed
  rw [flitsAt_insertFlit, flitsAt_switchBuffer]

theorem Moved.sent (hbuf : s.niOutVcs n v = f :: rest) :
    Moved s (s.sent n v rest f') (.niVc n v) (.out (.extIn n)) f f' := by
  refine .of_update hbuf ?_ (bufferInsert_perm _ _)
  unfold Core.sent
  rw [flitsAt_insertFlit, ← flitsAt_niOutVcs]
  rfl

theorem Moved.stalled (hbuf : s.linkBuffer (.extOut n) = f :: rest) :
    Moved s (s.stalled n rest f) (.link (.extOut n)) (.stall n) f f := by
  refine .of_update hbuf ?_ (List.perm_append_singleton f (s.stallQueue n))
  rw [← flitsAt_linkBuffer]
  exact flitsAt_stallQueue (s := { s with linkBuffer := update s.linkBuffer (.extOut n) rest }) _ _

theorem Moved.delivered (hbuf : s.linkBuffer (.extOut n) = f :: rest) :
    Moved s (deliver n f { s with linkBuffer := update s.linkBuffer (.extOut n) rest })
      (.link (.extOut n)) .delivered f f := by
  refine .of_update hbuf ?_ (List.Perm.refl _)
  rw [flitsAt_deliver, flitsAt_linkBuffer]

theorem Moved.unstalled {pre post : List Flit} (hbuf : s.stallQueue n = pre ++ f :: post) :
    Moved s (deliver n f { s with stallQueue := update s.stallQueue n (pre ++ post) })
      (.stall n) .delivered f f := by
  refine ⟨update s.flitsAt (.stall n) (pre ++ post),
    ⟨?_, fun y hy => update_of_ne hy _ _⟩, ?_⟩
  · rw [update_self]
    change (s.stallQueue n).Perm _
    rw [hbuf]
    exact List.perm_middle
  · rw [flitsAt_deliver, flitsAt_stallQueue]
    exact .of_perm (List.Perm.refl _)

theorem Moved.forwarded (hbuf : s.outBuffer l = f :: rest) :
    Moved s (s.forwarded l rest f') (.out l) (.link l) f f' := by
  refine .of_update hbuf ?_ (bufferInsert_perm _ _)
  rw [← flitsAt_outBuffer]
  exact flitsAt_linkBuffer (s := { s with outBuffer := update s.outBuffer l rest }) _ _

theorem taken_createFlit (net : Net) (n v vnet dest : Nat) :
    Taken (createFlit net n vnet dest v s).flitsAt s.flitsAt (.niVc n v)
      (newFlit s.nextPtr 0 v vnet (messageRoute net n vnet dest) 1 s.curCycle) := by
  rw [flitsAt_createFlit]
  exact .of_perm (bufferInsert_perm _ _)

end Moved

theorem Move.flow {net : Net} {s t : Core} {op : Op} (h : Move net op s t) : Flow net s t := by
  cases h with
  | @receive _ r p f f' rest dirns hr hp hbuf htime hidle harr hext hsame =>
    have hmoved : Moved s (s.received p.link rest f f' dirns) (.link p.link) (.vc p.link f.vc) f f' :=
      .received hbuf dirns
    split
    · exact .carry hmoved (.receive hr hp htime harr) rfl
    · exact .carry hmoved (.receive hr hp htime harr) rfl
  | mark hr hp hbuf hmark => exact .carry (.marked hbuf) (.mark hr hp hmark) rfl
  | grant uturn hr hp hop _ hbuf hport _ hw _ hvnet =>
    exact .carry (.granted hbuf) (.grant uturn hr hp hop hport hw hvnet) rfl
  | cross hr _ hbuf hop => exact .carry (.crossed hbuf) (.cross hr hop) rfl
  | create hn hv hdest _ _ hvnet => exact .make hn hv hdest hvnet (taken_createFlit _ _ _ _ _) rfl
  | send hn hbuf _ => exact .carry (.sent hbuf) (.send hn) rfl
  | stall hn hbuf _ => exact .carry (.stalled hbuf) (.stall hn) rfl
  | deliver hn hbuf _ => exact .carry (.delivered hbuf) (.deliver hn) rfl
  | unstall hn hbuf => exact .carry (.unstalled hbuf) (.unstall hn) rfl
  | link hl hbuf _ => exact .carry (.forwarded hbuf) (.link hl) rfl
  | _ => exact .still rfl rfl

/-- What a flit is, wherever it lies: its pointer, its virtual network and its destination. -/
def Flit.ident (f : Flit) : Nat × Nat × Nat := (f.ptr, f.vnet, f.route.destNi)

def Core.copies (net : Net) (q : Nat × Nat × Nat → Bool) (c : Core) : Nat :=
  total net.places (fun _ f => (q f.ident).toNat) c.flitsAt

section Copies

variable {net : Net} {c t : Core} {q : Nat × Nat × Nat → Bool} {l : Link} {v : Nat}
  {w : VirtualChannel} {f : Flit}

theorem copies_congr (h : t.flitsAt = c.flitsAt) : t.copies net q = c.copies net q := by
  unfold copies
  rw [h]

theorem copies_setVc_of_taken (hplace : Place.vc l v ∈ net.places)
    (hbuf : (c.vcs l v).inputBuffer = f :: w.inputBuffer) :
    (c.setVc l v w).copies net q + (q f.ident).toNat = c.copies net q := by
  unfold copies setVc
  rw [flitsAt_vcs, (Taken.of_cons (c := c.flitsAt) (x := .vc l v) hbuf).total_eq hplace]

theorem copies_setVc_of_put (hplace : Place.vc l v ∈ net.places)
    (hbuf : w.inputBuffer.Perm (f :: (c.vcs l v).inputBuffer)) :
    (c.setVc l v w).copies net q = c.copies net q + (q f.ident).toNat := by
  unfold copies setVc
  rw [flitsAt_vcs, (Taken.of_perm (c := c.flitsAt) (x := .vc l v) hbuf).total_eq hplace]

end Copies

end Drain
