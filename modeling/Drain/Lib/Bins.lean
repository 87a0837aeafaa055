import Mathlib

/-! Sorted lists kept as a list of stacks: the members of a stack have the same key, and
only the top of a stack knows the next one. -/

namespace Drain

open List

variable {ι κ : Type*}

/-- `inner` links the members of a stack. -/
def Stacked (inner : ι → Option ι) : List ι → Prop
  | [] => True
  | e :: es => inner e = es.head? ∧ Stacked inner es

/-- `outer` links the tops of the stacks, and `h` is the first top. What `outer` says below
a top does not matter. -/
def Bins (outer inner : ι → Option ι) : List (List ι) → Option ι → Prop
  | [], h => h = none
  | [] :: _, _ => False
  | (e :: es) :: bs, h => h = some e ∧ Stacked inner (e :: es) ∧ Bins outer inner bs (outer e)

section Links

variable {outer outer' inner inner' : ι → Option ι} {l : List ι} {bs : List (List ι)} {h : Option ι}

theorem Stacked.congr (hl : Stacked inner l) (heq : ∀ x ∈ l, inner' x = inner x) :
    Stacked inner' l := by
  induction l with
  | nil => trivial
  | cons e es ih =>
    refine ⟨(heq e mem_cons_self).trans hl.1, ih hl.2 fun x hx => ?_⟩
    exact heq x (mem_cons_of_mem e hx)

theorem Bins.congr (hb : Bins outer inner bs h) (hout : ∀ x ∈ bs.flatten, outer' x = outer x)
    (hin : ∀ x ∈ bs.flatten, inner' x = inner x) : Bins outer' inner' bs h := by
  induction bs generalizing h with
  | nil => exact hb
  | cons b bs ih =>
    rw [flatten_cons, forall_mem_append] at hout hin
    cases b with
    | nil => exact hb.elim
    | cons e es =>
      obtain ⟨hh, hstack, htail⟩ := hb
      refine ⟨hh, hstack.congr hin.1, ?_⟩
      rw [hout.1 e mem_cons_self]
      exact ih htail hout.2 hin.2

theorem Bins.ne_nil (hb : Bins outer inner bs h) : ∀ b ∈ bs, b ≠ [] := by
  induction bs generalizing h with
  | nil => exact nofun
  | cons b bs ih =>
    cases b with
    | nil => exact hb.elim
    | cons e es => exact forall_mem_cons.mpr ⟨nofun, ih hb.2.2⟩

theorem Bins.head_eq (hb : Bins outer inner bs h) : h = bs.flatten.head? := by
  cases bs with
  | nil => exact hb
  | cons b bs =>
    cases b with
    | nil => exact hb.elim
    | cons e es => exact hb.1

theorem length_le_flatten (h : ∀ b ∈ bs, b ≠ []) :
    bs.length ≤ bs.flatten.length := by
  induction bs with
  | nil => exact le_rfl
  | cons b bs ih =>
    rw [forall_mem_cons] at h
    have hpos := length_pos_of_ne_nil h.1
    have hbs := ih h.2
    rw [length_cons, flatten_cons, length_append]
    omega

end Links

section Order

variable [LinearOrder κ]

/-- Equal keys within a stack, increasing keys from stack to stack. -/
structure Graded (key : ι → κ) (bs : List (List ι)) : Prop where
  same : ∀ b ∈ bs, ∀ x ∈ b, ∀ y ∈ b, key x = key y
  lt : bs.Pairwise fun b c => ∀ x ∈ b, ∀ y ∈ c, key x < key y

def insertBin (key : ι → κ) (e : ι) : List (List ι) → List (List ι)
  | [] => [[e]]
  | [] :: bs => [e] :: bs
  | (x :: xs) :: bs =>
    if key e < key x then [e] :: (x :: xs) :: bs
    else if key x < key e then (x :: xs) :: insertBin key e bs
    else (e :: x :: xs) :: bs

variable {key key' : ι → κ} {b : List ι} {bs : List (List ι)} {e : ι}

theorem graded_nil : Graded key [] := ⟨nofun, .nil⟩

theorem graded_cons : Graded key (b :: bs) ↔ (∀ x ∈ b, ∀ y ∈ b, key x = key y) ∧
    (∀ x ∈ b, ∀ y ∈ bs.flatten, key x < key y) ∧ Graded key bs := by
  constructor
  · rintro ⟨hsame, hlt⟩
    rw [forall_mem_cons] at hsame
    rw [pairwise_cons] at hlt
    refine ⟨hsame.1, fun x hx y hy => ?_, hsame.2, hlt.2⟩
    obtain ⟨c, hc, hyc⟩ := mem_flatten.mp hy
    exact hlt.1 c hc x hx y hyc
  · rintro ⟨hsame, hlt, hbs⟩
    refine ⟨forall_mem_cons.mpr ⟨hsame, hbs.same⟩, pairwise_cons.mpr ⟨?_, hbs.lt⟩⟩
    exact fun c hc x hx y hy => hlt x hx y (mem_flatten.mpr ⟨c, hc, hy⟩)

theorem Graded.congr (h : Graded key bs) (heq : ∀ x ∈ bs.flatten, key' x = key x) :
    Graded key' bs := by
  induction bs with
  | nil => exact graded_nil
  | cons b bs ih =>
    rw [graded_cons] at h ⊢
    rw [flatten_cons, forall_mem_append] at heq
    obtain ⟨hsame, hlt, hbs⟩ := h
    refine ⟨fun x hx y hy => ?_, fun x hx y hy => ?_, ih hbs heq.2⟩
    · rw [heq.1 x hx, heq.1 y hy]
      exact hsame x hx y hy
    · rw [heq.1 x hx, heq.2 y hy]
      exact hlt x hx y hy

theorem mem_flatten_insertBin {x : ι} :
    x ∈ (insertBin key e bs).flatten ↔ x = e ∨ x ∈ bs.flatten := by
  induction bs with
  | nil => simp [insertBin]
  | cons b bs ih =>
    cases b with
    | nil => simp [insertBin]
    | cons y ys =>
      unfold insertBin
      split
      · simp
      · split
        · rw [flatten_cons, mem_append, ih, flatten_cons, mem_append]
          exact or_left_comm
        · simp

theorem orderedInsert_append {ys zs : List ι} (h : ∀ y ∈ ys, key y < key e) :
    (ys ++ zs).orderedInsert (fun a b => key a ≤ key b) e =
      ys ++ zs.orderedInsert (fun a b => key a ≤ key b) e := by
  induction ys with
  | nil => rfl
  | cons y ys ih =>
    rw [forall_mem_cons] at h
    rw [cons_append, orderedInsert_cons, if_neg h.1.not_ge, ih h.2, cons_append]

theorem flatten_insertBin (h : Graded key bs) (hne : ∀ b ∈ bs, b ≠ []) :
    (insertBin key e bs).flatten = bs.flatten.orderedInsert (fun a b => key a ≤ key b) e := by
  induction bs with
  | nil => rfl
  | cons b bs ih =>
    obtain ⟨hsame, _, hbs⟩ := graded_cons.mp h
    cases b with
    | nil => exact absurd rfl (hne [] mem_cons_self)
    | cons x xs =>
      unfold insertBin
      by_cases hlt : key e < key x
      · rw [if_pos hlt]
        simp [hlt.le]
      · rw [if_neg hlt]
        by_cases hgt : key x < key e
        · rw [if_pos hgt, flatten_cons, ih hbs fun b hb => hne b (mem_cons_of_mem _ hb)]
          rw [flatten_cons, orderedInsert_append]
          exact fun y hy => (hsame y hy x mem_cons_self).trans_lt hgt
        · rw [if_neg hgt]
          simp [not_lt.mp hgt]

theorem graded_insertBin (h : Graded key bs) (hne : ∀ b ∈ bs, b ≠ []) :
    Graded key (insertBin key e bs) := by
  induction bs with
  | nil => exact graded_cons.mpr ⟨by simp, by simp, graded_nil⟩
  | cons b bs ih =>
    obtain ⟨hsame, hlt, hbs⟩ := graded_cons.mp h
    have hne' : ∀ b ∈ bs, b ≠ [] := fun b hb => hne b (mem_cons_of_mem _ hb)
    cases b with
    | nil => exact absurd rfl (hne [] mem_cons_self)
    | cons x xs =>
      have heq {y : ι} (hy : y ∈ x :: xs) : key y = key x := hsame y hy x mem_cons_self
      unfold insertBin
      by_cases hex : key e < key x
      · rw [if_pos hex]
        refine graded_cons.mpr ⟨by simp, fun y hy z hz => ?_, h⟩
        rw [mem_singleton.mp hy]
        rw [flatten_cons] at hz
        rcases mem_append.mp hz with hz | hz
        · rwa [heq hz]
        · exact hex.trans (hlt x mem_cons_self z hz)
      · rw [if_neg hex]
        by_cases hxe : key x < key e
        · rw [if_pos hxe]
          refine graded_cons.mpr ⟨hsame, fun y hy z hz => ?_, ih hbs hne'⟩
          rw [flatten_insertBin hbs hne', mem_orderedInsert] at hz
          rcases hz with rfl | hz
          · rwa [heq hy]
          · exact hlt y hy z hz
        · rw [if_neg hxe]
          have hkey : ∀ y ∈ e :: x :: xs, key y = key x := by
            rw [forall_mem_cons]
            exact ⟨le_antisymm (not_lt.mp hxe) (not_lt.mp hex), fun y => heq⟩
          refine graded_cons.mpr ⟨fun y hy z hz => (hkey y hy).trans (hkey z hz).symm, ?_, hbs⟩
          intro y hy z hz
          rw [hkey y hy]
          exact hlt x mem_cons_self z hz

end Order

section Erase

variable [DecidableEq ι] {bs : List (List ι)} {e : ι}

def eraseBin (e : ι) : List (List ι) → List (List ι)
  | [] => []
  | b :: bs =>
    if e ∈ b then if b.erase e = [] then bs else b.erase e :: bs
    else b :: eraseBin e bs

theorem flatten_eraseBin : (eraseBin e bs).flatten = bs.flatten.erase e := by
  induction bs with
  | nil => rfl
  | cons b bs ih =>
    unfold eraseBin
    by_cases he : e ∈ b
    · rw [if_pos he, flatten_cons, erase_append_left _ he]
      split
      · next hnil => rw [hnil, nil_append]
      · rfl
    · rw [if_neg he, flatten_cons, flatten_cons, erase_append_right _ he, ih]

theorem graded_eraseBin [LinearOrder κ] {key : ι → κ} (h : Graded key bs) :
    Graded key (eraseBin e bs) := by
  induction bs with
  | nil => exact h
  | cons b bs ih =>
    obtain ⟨hsame, hlt, hbs⟩ := graded_cons.mp h
    unfold eraseBin
    split
    · split
      · exact hbs
      · have hsub {x : ι} (hx : x ∈ b.erase e) : x ∈ b := mem_of_mem_erase hx
        exact graded_cons.mpr ⟨fun x hx y hy => hsame x (hsub hx) y (hsub hy),
          fun x hx => hlt x (hsub hx), hbs⟩
    · refine graded_cons.mpr ⟨hsame, fun x hx y hy => ?_, ih hbs⟩
      rw [flatten_eraseBin] at hy
      exact hlt x hx y (mem_of_mem_erase hy)

end Erase

section Lifo

variable [LinearOrder κ] {key key' : ι → κ} {stamp stamp' : ι → Nat} {l : List ι} {e : ι}

/-- A smaller key, or the same key and a later arrival. -/
def Sooner (key : ι → κ) (stamp : ι → Nat) (x y : ι) : Prop :=
  key x < key y ∨ key x = key y ∧ stamp y < stamp x

theorem pairwise_sooner_congr (h : l.Pairwise (Sooner key stamp)) (hkey : ∀ x ∈ l, key' x = key x)
    (hstamp : ∀ x ∈ l, stamp' x = stamp x) : l.Pairwise (Sooner key' stamp') := by
  refine h.imp_of_mem fun {x y} hx hy hxy => ?_
  unfold Sooner
  rwa [hkey x hx, hkey y hy, hstamp x hx, hstamp y hy]

theorem pairwise_sooner_orderedInsert (h : l.Pairwise (Sooner key stamp))
    (hnew : ∀ x ∈ l, stamp x < stamp e) :
    (l.orderedInsert (fun a b => key a ≤ key b) e).Pairwise (Sooner key stamp) := by
  induction l with
  | nil => exact pairwise_singleton _ _
  | cons x l ih =>
    rw [forall_mem_cons] at hnew
    obtain ⟨hx, hl⟩ := pairwise_cons.mp h
    have hle {y : ι} (hy : y ∈ l) : key x ≤ key y := (hx y hy).elim le_of_lt fun h => h.1.le
    rw [orderedInsert_cons]
    split
    · next hex =>
      refine pairwise_cons.mpr ⟨forall_mem_cons.mpr ⟨?_, fun y hy => ?_⟩, h⟩
      · exact hex.lt_or_eq.imp_right fun heq => ⟨heq, hnew.1⟩
      · exact (hex.trans (hle hy)).lt_or_eq.imp_right fun heq => ⟨heq, hnew.2 y hy⟩
    · next hex =>
      refine pairwise_cons.mpr ⟨fun y hy => ?_, ih hl hnew.2⟩
      rcases (mem_orderedInsert _).mp hy with rfl | hy
      · exact .inl (not_le.mp hex)
      · exact hx y hy

end Lifo

end Drain
