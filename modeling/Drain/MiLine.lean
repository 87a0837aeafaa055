import Drain.Lib.Carries
import Drain.MiDirectory

/-! One line of memory under the MI example protocol, without messages. Its data are in one
place: the memory, the memory on its way to a cache, a cache, or a cache's data on their way
to the memory. The caches that asked for the line wait for it in a queue, each of them for
the data of the one before. -/

namespace Drain.Mi

open Function List

/-- What a cache does with a line. `v` are the data of its entry or its TBE. -/
inductive Role (V : Type) where
  | away
  | asking (store : Bool)
  | waiting (store : Bool)
  | owner (v : V)
  /-- A `PUTX` is on its way. -/
  | putting (v : V)
  /-- The `PUTX` was refused, and the refusal is on its way. -/
  | refused (v : V)
  /-- The refusal is there, and the data are still asked for. -/
  | keeping (v : V)
  /-- The data were given away while the `PUTX` is on its way. -/
  | gave (v : V)
  | gaveRefused (v : V)
  /-- The `PUTX` is being executed. -/
  | writing (v : V)
  | written (v : V)
  deriving DecidableEq, Repr

inductive Place (κ V : Type) where
  | memory
  | fetching (c : κ)
  | fetched (c : κ) (v : V)
  | owned (holder : κ) (queue : List κ)
  | storing (c : κ) (v : V)
  | stored (c : κ)
  deriving DecidableEq, Repr

structure Line (κ V : Type) where
  role : κ → Role V
  place : Place κ V
  memory : V
  /-- The line after all stores that have completed. -/
  latest : V

variable {κ V : Type}

namespace Role

def IsWaiting : Role V → Prop
  | waiting _ => True
  | _ => False

def held : Role V → Option V
  | owner v | putting v | refused v | keeping v => some v
  | _ => none

def IsWriting : Role V → Prop
  | writing _ => True
  | _ => False

theorem IsWaiting.exists {r : Role V} (h : r.IsWaiting) : ∃ store, r = waiting store := by
  cases r with
  | waiting store => exact ⟨store, rfl⟩
  | _ => cases h

theorem IsWriting.exists {r : Role V} (h : r.IsWriting) : ∃ v, r = writing v := by
  cases r with
  | writing v => exact ⟨v, rfl⟩
  | _ => cases h

def Idle : Role V → Prop
  | away | asking _ | gave _ | gaveRefused _ | written _ => True
  | _ => False

end Role

namespace Place

/-- Those who have the data or will get them, in this order. -/
def queue : Place κ V → List κ
  | fetching c | fetched c _ => [c]
  | owned h q => h :: q
  | memory | storing _ _ | stored _ => []

def dirState : Place κ V → DirState
  | memory => .I
  | fetching _ | fetched _ _ => .IM
  | owned _ _ => .M
  | storing _ _ | stored _ => .MI

end Place

namespace Line

def RoleOk (l : Line κ V) (c : κ) : Role V → Prop
  | .waiting _ => c ∈ l.place.queue
  | .owner v | .putting v => v = l.latest ∧ ∃ q, l.place = .owned c q
  | .refused v | .keeping v => v = l.latest ∧ ∃ w q, l.place = .owned c (w :: q)
  | .writing _ => (∃ v, l.place = .storing c v) ∨ l.place = .stored c
  | .away | .asking _ | .gave _ | .gaveRefused _ | .written _ => True

def PlaceOk (l : Line κ V) : Place κ V → Prop
  | .memory => l.memory = l.latest
  | .fetching c => (l.role c).IsWaiting ∧ l.memory = l.latest
  | .fetched c v => (l.role c).IsWaiting ∧ v = l.latest
  | .owned h q => (h :: q).Nodup ∧ (∀ w ∈ q, (l.role w).IsWaiting) ∧
      ((l.role h).IsWaiting ∨ (l.role h).held = some l.latest)
  | .storing c v => (l.role c).IsWriting ∧ v = l.latest
  | .stored c => (l.role c).IsWriting ∧ l.memory = l.latest

structure Ok (l : Line κ V) : Prop where
  role : ∀ c, l.RoleOk c (l.role c)
  place : l.PlaceOk l.place

variable {l : Line κ V} {c h : κ} {q : List κ} {r : Role V} {v : V}

theorem roleOk_of_idle (hr : r.Idle) : l.RoleOk c r := by
  cases r <;> trivial

theorem RoleOk.place_of_held (hr : l.RoleOk c r) (hheld : r.held = some v) :
    v = l.latest ∧ ∃ q, l.place = .owned c q := by
  cases r with
  | owner u | putting u =>
    cases hheld
    exact hr
  | refused u | keeping u =>
    cases hheld
    obtain ⟨hv, w, q, hplace⟩ := hr
    exact ⟨hv, _, hplace⟩
  | _ => cases hheld

theorem RoleOk.other {l' : Line κ V} (hr : l.RoleOk c r)
    (hqueue : c ∈ l.place.queue → c ∈ l'.place.queue) (hholder : ∀ q, l.place ≠ .owned c q)
    (hstoring : ∀ v, l.place ≠ .storing c v) (hstored : l.place ≠ .stored c) : l'.RoleOk c r := by
  cases r with
  | waiting => exact hqueue hr
  | owner | putting =>
    obtain ⟨-, q, hq⟩ := hr
    exact absurd hq (hholder q)
  | refused | keeping =>
    obtain ⟨-, w, q, hq⟩ := hr
    exact absurd hq (hholder _)
  | writing =>
    obtain ⟨v, hv⟩ | hv := hr
    · exact absurd hv (hstoring v)
    · exact absurd hv hstored
  | _ => trivial

theorem Ok.owned (hl : l.Ok) (hplace : l.place = .owned h q) :
    (h :: q).Nodup ∧ (∀ w ∈ q, (l.role w).IsWaiting) ∧
      ((l.role h).IsWaiting ∨ (l.role h).held = some l.latest) := by
  have hok := hl.place
  rwa [hplace] at hok

theorem Ok.not_mem_queue (hl : l.Ok) (hplace : l.place = .owned h q) (hidle : (l.role c).Idle) :
    c ∉ h :: q := by
  obtain ⟨-, hwait, hhead⟩ := hl.owned hplace
  have hnot : ¬(l.role c).IsWaiting ∧ ¬(l.role c).held = some l.latest := by
    cases hr : l.role c <;> rw [hr] at hidle <;> simp_all [Role.Idle, Role.IsWaiting, Role.held]
  intro hmem
  obtain rfl | hmem := mem_cons.mp hmem
  · exact hhead.elim hnot.1 hnot.2
  · exact hnot.1 (hwait c hmem)

section Steps

theorem Ok.fetched (hl : l.Ok) (hplace : l.place = .fetching c) :
    { l with place := .fetched c l.memory }.Ok := by
  have hc := hl.place
  rw [hplace] at hc
  refine ⟨fun d => ?_, hc⟩
  refine (hl.role d).other ?_ ?_ ?_ ?_
  · rw [hplace]
    exact id
  all_goals simp [hplace]

theorem Ok.sent (hl : l.Ok) (hplace : l.place = .fetched c v) :
    v = l.latest ∧ (l.role c).IsWaiting ∧ { l with place := .owned c [] }.Ok := by
  have hc := hl.place
  rw [hplace] at hc
  refine ⟨hc.2, hc.1, fun d => ?_, nodup_singleton c, nofun, .inl hc.1⟩
  refine (hl.role d).other ?_ ?_ ?_ ?_
  · rw [hplace]
    exact id
  all_goals simp [hplace]

theorem Ok.stored (hl : l.Ok) (hplace : l.place = .storing c v) :
    { l with place := .stored c, memory := v }.Ok := by
  have hc := hl.place
  rw [hplace] at hc
  refine ⟨fun d => ?_, hc⟩
  by_cases hd : d = c
  · subst hd
    obtain ⟨u, hu⟩ : ∃ u, l.role d = .writing u := hc.1.exists
    change RoleOk _ d (l.role d)
    rw [hu]
    exact .inr rfl
  · refine (hl.role d).other ?_ ?_ ?_ ?_
    · rw [hplace]
      exact nofun
    all_goals simp [hplace, Ne.symm hd]

variable [DecidableEq κ]

def move (l : Line κ V) (c : κ) (r : Role V) (p : Place κ V) : Line κ V :=
  { l with role := update l.role c r, place := p }

@[simp] theorem move_role_self (p : Place κ V) : (l.move c r p).role c = r :=
  update_self _ _ _

theorem move_role_of_ne {d : κ} (hd : d ≠ c) (p : Place κ V) : (l.move c r p).role d = l.role d :=
  update_of_ne hd _ _

@[simp] theorem move_place (p : Place κ V) : (l.move c r p).place = p := rfl

theorem Ok.idle (hl : l.Ok) (hc : (l.role c).Idle) (hr : r.Idle) : (l.move c r l.place).Ok := by
  have hkeep {d : κ} {P : Role V → Prop} (hd : P (l.role d)) (hidle : ∀ x, x.Idle → ¬P x) :
      P ((l.move c r l.place).role d) := by
    have hne : d ≠ c := fun h => hidle _ hc (h ▸ hd)
    rwa [move_role_of_ne hne]
  refine ⟨fun d => ?_, ?_⟩
  · by_cases hd : d = c
    · subst hd
      rw [move_role_self]
      exact roleOk_of_idle hr
    · rw [move_role_of_ne hd]
      exact hl.role d
  · have hwait : ∀ x : Role V, x.Idle → ¬x.IsWaiting := by
      intro x
      cases x <;> simp [Role.Idle, Role.IsWaiting]
    have hheld : ∀ x : Role V, x.Idle → ¬x.held = some l.latest := by
      intro x
      cases x <;> simp [Role.Idle, Role.held]
    have hwrite : ∀ x : Role V, x.Idle → ¬x.IsWriting := by
      intro x
      cases x <;> simp [Role.Idle, Role.IsWriting]
    have hplace := hl.place
    rw [move_place]
    cases hp : l.place with
    | memory =>
      rw [hp] at hplace
      exact hplace
    | fetching d | fetched d u =>
      rw [hp] at hplace hkeep
      exact ⟨hkeep hplace.1 hwait, hplace.2⟩
    | owned d q =>
      rw [hp] at hplace hkeep
      exact ⟨hplace.1, fun w hw => hkeep (hplace.2.1 w hw) hwait,
        hplace.2.2.imp (hkeep · hwait) (hkeep (P := fun x => x.held = some l.latest) · hheld)⟩
    | storing d u | stored d =>
      rw [hp] at hplace hkeep
      exact ⟨hkeep hplace.1 hwrite, hplace.2⟩

theorem Ok.fetch {store : Bool} (hl : l.Ok) (hplace : l.place = .memory) :
    (l.move c (.waiting store) (.fetching c)).Ok := by
  have hmem := hl.place
  rw [hplace] at hmem
  refine ⟨fun d => ?_, ?_, hmem⟩
  · by_cases hd : d = c
    · subst hd
      rw [move_role_self]
      exact mem_singleton_self d
    · rw [move_role_of_ne hd]
      refine (hl.role d).other ?_ ?_ ?_ ?_
      · rw [hplace]
        exact nofun
      all_goals simp [hplace]
  · rw [move_role_self]
    trivial

theorem Ok.enqueue {store store' : Bool} (hl : l.Ok) (hplace : l.place = .owned h q)
    (hc : l.role c = .asking store) : (l.move c (.waiting store') (.owned h (q ++ [c]))).Ok := by
  obtain ⟨hnodup, hwait, hhead⟩ := hl.owned hplace
  have hh : h ≠ c := by
    rintro rfl
    rw [hc] at hhead
    simp [Role.IsWaiting, Role.held] at hhead
  have hq : c ∉ q := by
    intro hmem
    have hw := hwait c hmem
    rw [hc] at hw
    exact hw
  refine ⟨fun d => ?_, ?_, fun w hw => ?_, ?_⟩
  · by_cases hd : d = c
    · subst hd
      rw [move_role_self]
      simp [RoleOk, Place.queue]
    · rw [move_role_of_ne hd]
      have hrole := hl.role d
      cases hr : l.role d with
      | waiting =>
        rw [hr] at hrole
        simp only [RoleOk, hplace, Place.queue, mem_cons] at hrole
        simpa [RoleOk, Place.queue, hd] using hrole
      | owner u | putting u =>
        rw [hr] at hrole
        obtain ⟨hu, q', hq'⟩ := hrole
        obtain ⟨rfl, rfl⟩ := Place.owned.inj (hplace.symm.trans hq')
        exact ⟨hu, _, rfl⟩
      | refused u | keeping u =>
        rw [hr] at hrole
        obtain ⟨hu, w, q', hq'⟩ := hrole
        obtain ⟨rfl, rfl⟩ := Place.owned.inj (hplace.symm.trans hq')
        exact ⟨hu, w, q' ++ [c], rfl⟩
      | writing =>
        rw [hr] at hrole
        simp [RoleOk, hplace] at hrole
      | _ => trivial
  · rw [← cons_append, nodup_append']
    exact ⟨hnodup, nodup_singleton c, by simp [Ne.symm hh, hq]⟩
  · rw [mem_append, mem_singleton] at hw
    obtain hw | rfl := hw
    · rw [move_role_of_ne (ne_of_mem_of_not_mem hw hq)]
      exact hwait w hw
    · rw [move_role_self]
      trivial
  · rw [move_role_of_ne hh]
    exact hhead

def assign (l : Line κ V) (c : κ) (v : V) : Line κ V :=
  { l.move c (.owner v) l.place with latest := v }

@[simp] theorem assign_role_self : (l.assign c v).role c = .owner v := update_self _ _ _

theorem assign_role_of_ne {d : κ} (hd : d ≠ c) : (l.assign c v).role d = l.role d :=
  update_of_ne hd _ _

@[simp] theorem assign_place : (l.assign c v).place = l.place := rfl

theorem Ok.assign (hl : l.Ok) (hplace : l.place = .owned h q) : (l.assign h v).Ok := by
  obtain ⟨hnodup, hwait, -⟩ := hl.owned hplace
  refine ⟨fun d => ?_, ?_⟩
  · by_cases hd : d = h
    · subst hd
      rw [assign_role_self]
      exact ⟨rfl, q, hplace⟩
    · rw [assign_role_of_ne hd]
      refine (hl.role d).other ?_ ?_ ?_ ?_
      · exact id
      all_goals simp [hplace, Ne.symm hd]
  · rw [assign_place, hplace]
    refine ⟨hnodup, fun w hw => ?_, .inr ?_⟩
    · rw [assign_role_of_ne (ne_of_mem_of_not_mem hw (nodup_cons.mp hnodup).1)]
      exact hwait w hw
    · rw [assign_role_self]
      rfl

theorem Ok.hold (hl : l.Ok) (hplace : l.place = .owned h q) (hheld : (l.role h).held = some v)
    (hr : r.held = some v) (hrefused : q = [] → r = .owner v ∨ r = .putting v) :
    (l.move h r l.place).Ok := by
  obtain ⟨hnodup, hwait, -⟩ := hl.owned hplace
  obtain ⟨hv, -⟩ := (hl.role h).place_of_held hheld
  refine ⟨fun d => ?_, ?_⟩
  · by_cases hd : d = h
    · subst hd
      rw [move_role_self]
      cases r with
      | owner u | putting u =>
        cases hr
        exact ⟨hv, q, hplace⟩
      | refused u | keeping u =>
        cases hr
        cases q with
        | nil => simp at hrefused
        | cons w q => exact ⟨hv, w, q, hplace⟩
      | _ => cases hr
    · rw [move_role_of_ne hd]
      refine (hl.role d).other ?_ ?_ ?_ ?_
      · exact id
      all_goals simp [hplace, Ne.symm hd]
  · rw [move_place, hplace]
    refine ⟨hnodup, fun w hw => ?_, .inr ?_⟩
    · rw [move_role_of_ne (ne_of_mem_of_not_mem hw (nodup_cons.mp hnodup).1)]
      exact hwait w hw
    · rw [move_role_self, hr, hv]
      rfl

theorem Ok.give {w : κ} (hl : l.Ok) (hplace : l.place = .owned h (w :: q)) (hr : r.Idle) :
    (l.move h r (.owned w q)).Ok := by
  obtain ⟨hnodup, hwait, -⟩ := hl.owned hplace
  have hne : ∀ x ∈ w :: q, x ≠ h := fun x hx =>
    ne_of_mem_of_not_mem hx (nodup_cons.mp hnodup).1
  refine ⟨fun d => ?_, (nodup_cons.mp hnodup).2, fun x hx => ?_, .inl ?_⟩
  · by_cases hd : d = h
    · subst hd
      rw [move_role_self]
      exact roleOk_of_idle hr
    · rw [move_role_of_ne hd]
      refine (hl.role d).other ?_ ?_ ?_ ?_
      · rw [hplace]
        simp [Place.queue, hd]
      all_goals simp [hplace, Ne.symm hd]
  · rw [move_role_of_ne (hne x (mem_cons_of_mem w hx))]
    exact hwait x (mem_cons_of_mem w hx)
  · rw [move_role_of_ne (hne w mem_cons_self)]
    exact hwait w mem_cons_self

theorem Ok.store (hl : l.Ok) (hplace : l.place = .owned c []) (hc : l.role c = .putting v) :
    (l.move c (.writing v) (.storing c v)).Ok := by
  have hv : v = l.latest := ((hl.role c).place_of_held (by rw [hc]; rfl)).1
  refine ⟨fun d => ?_, ?_, hv⟩
  · by_cases hd : d = c
    · subst hd
      rw [move_role_self]
      exact .inl ⟨v, rfl⟩
    · rw [move_role_of_ne hd]
      refine (hl.role d).other ?_ ?_ ?_ ?_
      · rw [hplace]
        simp [Place.queue, hd]
      all_goals simp [hplace, Ne.symm hd]
  · rw [move_role_self]
    trivial

theorem Ok.acknowledge (hl : l.Ok) (hplace : l.place = .stored c) (hr : r.Idle) :
    (l.move c r .memory).Ok := by
  have hc := hl.place
  rw [hplace] at hc
  refine ⟨fun d => ?_, hc.2⟩
  by_cases hd : d = c
  · subst hd
    rw [move_role_self]
    exact roleOk_of_idle hr
  · rw [move_role_of_ne hd]
    refine (hl.role d).other ?_ ?_ ?_ ?_
    · rw [hplace]
      exact nofun
    all_goals simp [hplace, Ne.symm hd]

end Steps

end Line

end Drain.Mi
