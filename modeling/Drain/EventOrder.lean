import Drain.EventQueue
import Drain.Lib.Bins

/-! The bins of the event queue always hold exactly the scheduled events, by time and
priority, the latest first among equals. -/

namespace Drain

open Function List Nat Option

namespace EventQueue

variable {ι : Type} {q : EventQueue ι} {event prev curr : ι} {fuel : Nat} {bs : List (List ι)}
  {h : Option ι}

def key (q : EventQueue ι) (e : ι) : ℕ ×ₗ ℤ := toLex ((q.event e).when, (q.event e).priority)

theorem lt_iff {a b : ι} : (q.event a).lt (q.event b) = true ↔ q.key a < q.key b := by
  simp [Event.lt, key, Prod.Lex.toLex_lt_toLex]

theorem le_iff {a b : ι} : (q.event a).le (q.event b) = true ↔ q.key a ≤ q.key b := by
  simp [Event.le, key, Prod.Lex.toLex_le_toLex]

theorem eq_iff {a b : ι} : (q.event a).eq (q.event b) = true ↔ q.key a = q.key b := by
  simp [Event.eq, key]

section Insert

variable [DecidableEq ι]

theorem insertBefore_frame (curr : Option ι) : q.insertBefore event curr = { q with
    nextBin := (q.insertBefore event curr).nextBin
    nextInBin := (q.insertBefore event curr).nextInBin } := by
  unfold insertBefore
  split
  · rfl
  · split <;> rfl

theorem insertBefore_of_ne {x : ι} (curr : Option ι) (hx : x ≠ event) :
    (q.insertBefore event curr).nextBin x = q.nextBin x ∧
      (q.insertBefore event curr).nextInBin x = q.nextInBin x := by
  unfold insertBefore
  split
  · exact ⟨update_of_ne hx _ _, update_of_ne hx _ _⟩
  · split
    · exact ⟨update_of_ne hx _ _, update_of_ne hx _ _⟩
    · exact ⟨update_of_ne hx _ _, update_of_ne hx _ _⟩

theorem insertBefore_bins (hb : Bins q.nextBin q.nextInBin bs h) (he : event ∉ bs.flatten)
    (hle : ∀ c, h = some c → q.key event ≤ q.key c) :
    Bins (q.insertBefore event h).nextBin (q.insertBefore event h).nextInBin
      (insertBin q.key event bs) (some event) := by
  cases bs with
  | nil =>
    obtain rfl : h = none := hb
    exact ⟨rfl, ⟨update_self _ _ _, trivial⟩, update_self _ _ _⟩
  | cons b bs =>
    cases b with
    | nil => exact hb.elim
    | cons x xs =>
      have hframe {y : ι} (hy : y ∈ ((x :: xs) :: bs).flatten) := insertBefore_of_ne (q := q) h
        fun heq : y = event => he (heq ▸ hy)
      have hb' := hb.congr (fun y hy => (hframe hy).1) fun y hy => (hframe hy).2
      obtain ⟨rfl, hstack, htail⟩ := hb'
      obtain ⟨-, -, hout⟩ := hb
      have hex := hle x rfl
      unfold insertBin
      by_cases hlt : q.key event < q.key x
      · rw [if_pos hlt]
        unfold insertBefore at hstack htail ⊢
        dsimp only at hstack htail ⊢
        rw [if_pos (lt_iff.mpr hlt)] at hstack htail ⊢
        refine ⟨rfl, ⟨update_self _ _ _, trivial⟩, ?_, hstack, htail⟩
        exact update_self _ _ _
      · rw [if_neg hlt, if_neg hex.not_gt]
        have hx : x ≠ event := fun heq => he (heq ▸ by simp)
        unfold insertBefore at hstack htail ⊢
        dsimp only at hstack htail ⊢
        rw [if_neg fun h => hlt (lt_iff.mp h)] at hstack htail ⊢
        refine ⟨rfl, ⟨update_self _ _ _, hstack⟩, ?_⟩
        dsimp only at htail ⊢
        rw [update_self]
        rwa [update_of_ne hx] at htail

theorem insertBefore_linked (hb : Bins q.nextBin q.nextInBin bs (q.nextBin prev))
    (he : event ∉ bs.flatten) (hprev : prev ∉ bs.flatten) (hne : prev ≠ event)
    (hle : ∀ c, q.nextBin prev = some c → q.key event ≤ q.key c) :
    Bins (update (q.insertBefore event (q.nextBin prev)).nextBin prev (some event))
      (q.insertBefore event (q.nextBin prev)).nextInBin (insertBin q.key event bs)
      (update (q.insertBefore event (q.nextBin prev)).nextBin prev (some event) prev) := by
  rw [update_self]
  refine (insertBefore_bins hb he hle).congr (fun x hx => update_of_ne ?_ _ _) fun _ _ => rfl
  rintro rfl
  rcases mem_flatten_insertBin.mp hx with heq | hx
  · exact hne heq
  · exact hprev hx

theorem findBin_insert (hb : Bins q.nextBin q.nextInBin bs (q.nextBin prev))
    (he : event ∉ bs.flatten) (hprev : prev ∉ bs.flatten) (hne : prev ≠ event)
    (hnd : bs.flatten.Nodup) (hfuel : bs.length < fuel) :
    ∃ p c, q.findBin event fuel prev (q.nextBin prev) = .ok (p, c) ∧ (p = prev ∨ p ∈ bs.flatten) ∧
      Bins (update (q.insertBefore event c).nextBin p (some event))
        (q.insertBefore event c).nextInBin (insertBin q.key event bs)
        (update (q.insertBefore event c).nextBin p (some event) prev) := by
  induction bs generalizing prev fuel with
  | nil =>
    obtain ⟨n, rfl⟩ : ∃ n, fuel = n + 1 := ⟨fuel - 1, by simp at hfuel; omega⟩
    have hnone : q.nextBin prev = none := hb
    refine ⟨prev, q.nextBin prev, ?_, .inl rfl, insertBefore_linked hb he hprev hne (by simp [hnone])⟩
    rw [hnone]
    rfl
  | cons b bs ih =>
    obtain ⟨n, rfl⟩ : ∃ n, fuel = n + 1 := ⟨fuel - 1, by omega⟩
    cases b with
    | nil => exact hb.elim
    | cons x xs =>
      have hx : q.nextBin prev = some x := hb.1
      by_cases hlt : q.key x < q.key event
      · obtain ⟨_, hstack, htail⟩ := hb
        rw [flatten_cons, mem_append, not_or] at he hprev
        rw [flatten_cons, nodup_append'] at hnd
        have hxbs : x ∉ bs.flatten := disjoint_left.mp hnd.2.2 mem_cons_self
        have hxe : x ≠ event := fun heq => he.1 (heq ▸ mem_cons_self)
        have hfuel' : bs.length < n := lt_of_succ_lt_succ hfuel
        obtain ⟨p, c, hfind, hp, hbins⟩ := ih htail he.2 hxbs hxe hnd.2.1 hfuel'
        have hpmem : p ∈ ((x :: xs) :: bs).flatten := by
          rw [flatten_cons, mem_append]
          exact hp.imp (fun heq : p = x => heq ▸ mem_cons_self) id
        have hpprev : prev ≠ p := by
          rintro rfl
          rw [flatten_cons, mem_append] at hpmem
          exact hpmem.elim hprev.1 hprev.2
        refine ⟨p, c, ?_, .inr hpmem, ?_⟩
        · unfold findBin
          rw [hx]
          dsimp only
          rw [if_pos (lt_iff.mpr hlt)]
          exact hfind
        · unfold insertBin
          rw [if_neg hlt.not_gt, if_pos hlt]
          refine ⟨?_, hstack.congr fun y hy => ?_, hbins⟩
          · rw [update_of_ne hpprev, (insertBefore_of_ne c hne).1]
            exact hx
          · exact (insertBefore_of_ne c fun heq : y = event => he.1 (heq ▸ hy)).2
      · refine ⟨prev, q.nextBin prev, ?_, .inl rfl, insertBefore_linked hb he hprev hne ?_⟩
        · unfold findBin
          rw [hx]
          dsimp only
          rw [if_neg fun h => hlt (lt_iff.mp h)]
          rfl
        · intro c hc
          rw [hx] at hc
          exact some.inj hc ▸ not_lt.mp hlt

theorem insert_bins (hb : Bins q.nextBin q.nextInBin bs q.head) (he : event ∉ bs.flatten)
    (hnd : bs.flatten.Nodup) (hfuel : bs.length < fuel) :
    ∃ q', q.insert fuel event = .ok q' ∧ q' = { q with
        nextBin := q'.nextBin, nextInBin := q'.nextInBin, head := q'.head } ∧
      Bins q'.nextBin q'.nextInBin (insertBin q.key event bs) q'.head := by
  unfold insert
  cases hh : q.head with
  | none =>
    rw [hh] at hb
    refine ⟨_, rfl, ?_, insertBefore_bins hb he nofun⟩
    rw [insertBefore_frame]
  | some x =>
    rw [hh] at hb
    dsimp only
    by_cases hle : q.key event ≤ q.key x
    · rw [if_pos (le_iff.mpr hle)]
      refine ⟨_, rfl, ?_, insertBefore_bins hb he fun c hc => some.inj hc ▸ hle⟩
      rw [insertBefore_frame]
    · rw [if_neg fun h => hle (le_iff.mp h)]
      cases bs with
      | nil => cases hb
      | cons b bs =>
        cases b with
        | nil => exact hb.elim
        | cons y ys =>
          obtain ⟨hy, hstack, htail⟩ := hb
          obtain rfl : x = y := some.inj hy
          rw [flatten_cons, mem_append, not_or] at he
          rw [flatten_cons, nodup_append'] at hnd
          have hxbs : x ∉ bs.flatten := disjoint_left.mp hnd.2.2 mem_cons_self
          have hxe : x ≠ event := fun heq => he.1 (heq ▸ mem_cons_self)
          obtain ⟨p, c, hfind, _, hbins⟩ := findBin_insert htail he.2 hxbs hxe hnd.2.1
            ((lt_succ_self _).trans hfuel)
          rw [hfind, ok_bind]
          refine ⟨_, rfl, ?_, ?_⟩
          · rw [insertBefore_frame]
          · unfold insertBin
            rw [if_neg fun h => hle h.le, if_pos (not_le.mp hle)]
            have hhead : (q.insertBefore event c).head = some x := by
              rw [insertBefore_frame]
              exact hh
            refine ⟨hhead, hstack.congr fun y hy => ?_, hbins⟩
            exact (insertBefore_of_ne c fun heq : y = event => he.1 (heq ▸ hy)).2

end Insert

section Remove

variable [DecidableEq ι]

theorem findInBin_spec {y : ι} {ys : List ι} (hs : Stacked q.nextInBin (y :: ys))
    (hnd : (y :: ys).Nodup) (he : event ∈ ys) (hfuel : ys.length < fuel) :
    ∃ c ∈ y :: ys, q.findInBin event fuel y (q.nextInBin y) = .ok c ∧
      Stacked (update q.nextInBin c (q.nextInBin event)) ((y :: ys).erase event) := by
  induction ys generalizing y fuel with
  | nil => cases he
  | cons z zs ih =>
    obtain ⟨n, rfl⟩ : ∃ n, fuel = n + 1 := ⟨fuel - 1, by omega⟩
    obtain ⟨hy, hstack⟩ := hs
    obtain ⟨hyzs, hnd⟩ := nodup_cons.mp hnd
    have hye : y ≠ event := fun heq => hyzs (heq ▸ he)
    rw [erase_cons_tail (by simpa using hye)]
    unfold findInBin
    rw [hy]
    dsimp only [head?_cons]
    by_cases hez : event = z
    · subst hez
      rw [if_pos rfl, erase_cons_head]
      refine ⟨y, mem_cons_self, rfl, ?_, ?_⟩
      · rw [update_self]
        exact hstack.1
      · refine hstack.2.congr fun x hx => update_of_ne ?_ _ _
        rintro rfl
        exact hyzs (mem_cons_of_mem _ hx)
    · rw [if_neg hez]
      have hezs : event ∈ zs := (mem_cons.mp he).resolve_left hez
      obtain ⟨c, hc, hfind, hstack'⟩ := ih hstack hnd hezs (lt_of_succ_lt_succ hfuel)
      refine ⟨c, mem_cons_of_mem y hc, hfind, ?_, hstack'⟩
      have hyc : y ≠ c := fun heq => hyzs (heq ▸ hc)
      rw [update_of_ne hyc, hy, erase_cons_tail (by simpa using Ne.symm hez)]
      rfl

theorem removeItem_spec {c : ι} {cs : List ι}
    (hb : Bins q.nextBin q.nextInBin ((c :: cs) :: bs) (some c))
    (hnd : ((c :: cs) :: bs).flatten.Nodup) (he : event ∈ c :: cs) (hfuel : cs.length < fuel) :
    ∃ top q', q.removeItem fuel event c = .ok (top, q') ∧
      q' = { q with nextBin := q'.nextBin, nextInBin := q'.nextInBin } ∧
      (∀ x ∉ c :: cs, q'.nextBin x = q.nextBin x ∧ q'.nextInBin x = q.nextInBin x) ∧
      Bins q'.nextBin q'.nextInBin (eraseBin event ((c :: cs) :: bs)) top := by
  obtain ⟨-, hstack, htail⟩ := hb
  rw [flatten_cons, nodup_append'] at hnd
  obtain ⟨hbin, _, hdisj⟩ := hnd
  unfold removeItem eraseBin
  rw [if_pos he]
  by_cases hec : event = c
  · subst hec
    rw [if_pos rfl, erase_cons_head, hstack.1]
    cases cs with
    | nil => exact ⟨_, q, rfl, rfl, fun _ _ => ⟨rfl, rfl⟩, htail⟩
    | cons n ns =>
      have hn : n ∉ bs.flatten :=
        disjoint_left.mp hdisj (mem_cons_of_mem _ mem_cons_self)
      refine ⟨_, _, rfl, rfl, fun x hx => ⟨update_of_ne ?_ _ _, rfl⟩, rfl, hstack.2, ?_⟩
      · rintro rfl
        exact hx (mem_cons_of_mem _ mem_cons_self)
      · dsimp only
        rw [update_self]
        refine htail.congr (fun x hx => update_of_ne ?_ _ _) fun _ _ => rfl
        rintro rfl
        exact hn hx
  · have hecs : event ∈ cs := (mem_cons.mp he).resolve_left hec
    obtain ⟨d, hd, hfind, hstack'⟩ := findInBin_spec hstack hbin hecs hfuel
    rw [if_neg hec, hfind, ok_bind]
    rw [erase_cons_tail (by simpa using Ne.symm hec)] at hstack' ⊢
    refine ⟨_, _, rfl, rfl, fun x hx => ⟨rfl, update_of_ne ?_ _ _⟩, rfl, hstack', ?_⟩
    · rintro rfl
      exact hx hd
    · refine htail.congr (fun _ _ => rfl) fun x hx => update_of_ne ?_ _ _
      rintro rfl
      exact disjoint_left.mp hdisj hd hx

omit [DecidableEq ι] in
theorem flatten_tail {b : List ι} (hnd : (b :: bs).flatten.Nodup) (he : event ∈ (b :: bs).flatten)
    (hbin : event ∉ b) : event ∈ bs.flatten ∧ bs.flatten.Nodup ∧ b.Disjoint bs.flatten := by
  rw [flatten_cons, nodup_append'] at hnd
  rw [flatten_cons, mem_append] at he
  exact ⟨he.resolve_left hbin, hnd.2⟩

theorem findBin_remove {n : Nat} (hb : Bins q.nextBin q.nextInBin bs (q.nextBin prev))
    (hgr : Graded q.key bs) (hnd : bs.flatten.Nodup) (he : event ∈ bs.flatten)
    (hprev : prev ∉ bs.flatten) (hn : bs.length < n) (hfuel : bs.flatten.length ≤ fuel) :
    ∃ p c top q', q.findBin event n prev (q.nextBin prev) = .ok (p, some c) ∧
      q.key c = q.key event ∧ (p = prev ∨ p ∈ bs.flatten) ∧
      q.removeItem fuel event c = .ok (top, q') ∧
      q' = { q with nextBin := q'.nextBin, nextInBin := q'.nextInBin } ∧
      (∀ x ∉ bs.flatten, q'.nextBin x = q.nextBin x ∧ q'.nextInBin x = q.nextInBin x) ∧
      Bins (update q'.nextBin p top) q'.nextInBin (eraseBin event bs)
        (update q'.nextBin p top prev) := by
  induction bs generalizing prev n with
  | nil => cases he
  | cons b bs ih =>
    obtain ⟨n, rfl⟩ : ∃ m, n = m + 1 := ⟨n - 1, by omega⟩
    cases b with
    | nil => exact hb.elim
    | cons x xs =>
      have hx : q.nextBin prev = some x := hb.1
      obtain ⟨hsame, hlt, hgr⟩ := graded_cons.mp hgr
      by_cases hbin : event ∈ x :: xs
      · have hkey : q.key x = q.key event := hsame x mem_cons_self event hbin
        rw [hx] at hb
        have hlen : xs.length < fuel := by
          rw [flatten_cons, length_append, length_cons] at hfuel
          omega
        obtain ⟨top, q', hremove, hframe, hother, hbins⟩ := removeItem_spec hb hnd hbin hlen
        have hnot {y : ι} (hy : y ∉ ((x :: xs) :: bs).flatten) : y ∉ x :: xs := fun hmem =>
          hy (by rw [flatten_cons]; exact mem_append_left _ hmem)
        refine ⟨prev, x, top, q', ?_, hkey, .inl rfl, hremove, hframe, fun y hy => hother y (hnot hy), ?_⟩
        · unfold findBin
          rw [hx]
          dsimp only
          rw [if_neg fun h => (lt_iff.mp h).ne hkey]
          rfl
        · rw [update_self]
          refine hbins.congr (fun y hy => update_of_ne ?_ _ _) fun _ _ => rfl
          rintro rfl
          rw [flatten_eraseBin] at hy
          exact hprev (mem_of_mem_erase hy)
      · obtain ⟨he, hnd, hnotin⟩ := flatten_tail hnd he hbin
        obtain ⟨_, hstack, htail⟩ := hb
        rw [flatten_cons, mem_append, not_or] at hprev
        have hfuel' : bs.flatten.length ≤ fuel := by
          rw [flatten_cons, length_append] at hfuel
          omega
        obtain ⟨p, c, top, q', hfind, hkey, hp, hremove, hframe, hother, hbins⟩ :=
          ih htail hgr hnd he (hnotin mem_cons_self) (lt_of_succ_lt_succ hn) hfuel'
        have hpmem : p ∈ x :: xs ∨ p ∈ bs.flatten :=
          hp.imp (fun heq : p = x => heq ▸ mem_cons_self) id
        have hpprev : prev ≠ p := by
          rintro rfl
          exact hpmem.elim hprev.1 hprev.2
        refine ⟨p, c, top, q', ?_, hkey, .inr ?_, hremove, hframe, fun y hy => hother y ?_, ?_⟩
        · unfold findBin
          rw [hx]
          dsimp only
          rw [if_pos (lt_iff.mpr (hlt x mem_cons_self event he))]
          exact hfind
        · rwa [flatten_cons, mem_append]
        · intro hmem
          exact hy (by rw [flatten_cons]; exact mem_append_right _ hmem)
        · unfold eraseBin
          rw [if_neg hbin]
          refine ⟨?_, hstack.congr fun y hy => (hother y (hnotin hy)).2, hbins⟩
          rw [update_of_ne hpprev, (hother prev hprev.2).1]
          exact hx

theorem remove_bins (hb : Bins q.nextBin q.nextInBin bs q.head) (hgr : Graded q.key bs)
    (hnd : bs.flatten.Nodup) (he : event ∈ bs.flatten) (hqueue : (q.event event).queued = true)
    (hfuel : bs.flatten.length ≤ fuel) (hbins : bs.length ≤ fuel) :
    ∃ q', q.remove fuel event = .ok q' ∧ q' = { q with
        nextBin := q'.nextBin, nextInBin := q'.nextInBin, head := q'.head } ∧
      Bins q'.nextBin q'.nextInBin (eraseBin event bs) q'.head := by
  cases bs with
  | nil => cases he
  | cons b bs =>
    cases b with
    | nil => exact hb.elim
    | cons x xs =>
      have hx : q.head = some x := hb.1
      obtain ⟨hsame, hlt, hgr⟩ := graded_cons.mp hgr
      unfold remove
      rw [hx]
      simp only [hqueue, require, if_true, ok_bind]
      by_cases hbin : event ∈ x :: xs
      · have hkey : q.key x = q.key event := hsame x mem_cons_self event hbin
        rw [hx] at hb
        have hlen : xs.length < fuel := by
          rw [flatten_cons, length_append, length_cons] at hfuel
          omega
        obtain ⟨top, q', hremove, hframe, _, hbins⟩ := removeItem_spec hb hnd hbin hlen
        rw [if_pos (eq_iff.mpr hkey), hremove, ok_bind]
        refine ⟨_, rfl, ?_, hbins⟩
        rw [hframe]
      · obtain ⟨he, hnd, hnotin⟩ := flatten_tail hnd he hbin
        have hkey := hlt x mem_cons_self event he
        obtain ⟨_, hstack, htail⟩ := hb
        have hfuel' : bs.flatten.length ≤ fuel := by
          rw [flatten_cons, length_append] at hfuel
          omega
        obtain ⟨p, c, top, q', hfind, hkey', _, hremove, hframe, hother, hbins⟩ :=
          findBin_remove htail hgr hnd he (hnotin mem_cons_self) hbins hfuel'
        rw [if_neg fun h => hkey.ne (eq_iff.mp h), hfind, ok_bind]
        dsimp only
        rw [if_pos (eq_iff.mpr hkey'), hremove, ok_bind]
        refine ⟨_, rfl, ?_, ?_⟩
        · rw [hframe]
        · unfold eraseBin
          rw [if_neg hbin]
          refine ⟨?_, hstack.congr fun y hy => (hother y (hnotin hy)).2, hbins⟩
          rw [hframe]
          exact hx

end Remove

/-- The queue holds the events of `S` in the bins `bs`. -/
structure Holding (q : EventQueue ι) (S : Set ι) (bs : List (List ι)) : Prop where
  bins : Bins q.nextBin q.nextInBin bs q.head
  graded : Graded q.key bs
  nodup : bs.flatten.Nodup
  mem : ∀ e, e ∈ bs.flatten ↔ e ∈ S
  order : bs.flatten.Pairwise (Sooner q.key q.stamp)
  stamps : ∀ e ∈ S, q.stamp e < q.inserted
  queued : ∀ e ∈ S, (q.event e).queued = true
  future : ∀ e ∈ S, q.curTick ≤ (q.event e).when
  past : ∀ x ∈ q.processed, x.2 ≤ q.curTick
  ticks : q.processed.Pairwise fun x y => y.2 ≤ x.2

structure SameLinks (q q' : EventQueue ι) : Prop where
  nextBin : q'.nextBin = q.nextBin
  nextInBin : q'.nextInBin = q.nextInBin
  head : q'.head = q.head
  curTick : q'.curTick = q.curTick
  processed : q'.processed = q.processed

section Holding

variable {q' : EventQueue ι} {S : Set ι} {e : ι} {f : Event → Event}

theorem Holding.congr (h : Holding q S bs) (hl : SameLinks q q') (hins : q.inserted ≤ q'.inserted)
    (hdata : ∀ x ∈ S, q'.key x = q.key x ∧ q'.stamp x = q.stamp x ∧
      (q'.event x).queued = (q.event x).queued) : Holding q' S bs := by
  have hmem {x : ι} (hx : x ∈ bs.flatten) := hdata x ((h.mem x).mp hx)
  have hwhen {x : ι} (hx : x ∈ S) : (q'.event x).when = (q.event x).when :=
    congrArg (fun k => (ofLex k).1) (hdata x hx).1
  refine ⟨?_, h.graded.congr fun x hx => (hmem hx).1, h.nodup, h.mem, ?_, fun x hx => ?_, fun x hx => ?_,
    fun x hx => ?_, ?_, ?_⟩
  · rw [hl.nextBin, hl.nextInBin, hl.head]
    exact h.bins
  · exact pairwise_sooner_congr h.order (fun x hx => (hmem hx).1) fun x hx => (hmem hx).2.1
  · rw [(hdata x hx).2.1]
    exact (h.stamps x hx).trans_le hins
  · rw [(hdata x hx).2.2]
    exact h.queued x hx
  · rw [hl.curTick, hwhen hx]
    exact h.future x hx
  · rw [hl.processed, hl.curTick]
    exact h.past
  · rw [hl.processed]
    exact h.ticks

variable [DecidableEq ι]

theorem Holding.setEvent (h : Holding q S bs)
    (hf : e ∈ S → ∀ x, (f x).when = x.when ∧ (f x).priority = x.priority ∧ (f x).queued = x.queued) :
    Holding (q.setEvent e f) S bs := by
  refine h.congr ⟨rfl, rfl, rfl, rfl, rfl⟩ le_rfl fun x hx => ?_
  unfold key EventQueue.setEvent
  dsimp only
  by_cases hxe : x = e
  · subst hxe
    obtain ⟨hwhen, hpri, hqueue⟩ := hf hx (q.event x)
    rw [update_self, hwhen, hpri, hqueue]
    exact ⟨rfl, rfl, rfl⟩
  · rw [update_of_ne hxe]
    exact ⟨rfl, rfl, rfl⟩

theorem Holding.release (h : Holding q S bs) (e : ι) : Holding (q.release e) S bs := by
  unfold EventQueue.release
  split
  · exact h.setEvent fun _ _ => ⟨rfl, rfl, rfl⟩
  · exact h

theorem Holding.setWhen (h : Holding q S bs) (he : e ∉ S) (when : Nat) :
    Holding (q.setWhen e when) S bs := by
  refine h.congr ⟨rfl, rfl, rfl, rfl, rfl⟩ (le_succ _) fun x hx => ?_
  have hxe : x ≠ e := fun heq => he (heq ▸ hx)
  unfold key EventQueue.setWhen EventQueue.setEvent
  dsimp only
  rw [update_of_ne hxe, update_of_ne hxe]
  exact ⟨rfl, rfl, rfl⟩

theorem Holding.insert (h : Holding q S bs) (he : e ∉ S) (hnew : ∀ x ∈ S, q.stamp x < q.stamp e)
    (hstamp : q.stamp e < q.inserted) (hqueue : (q.event e).queued = true)
    (hwhen : q.curTick ≤ (q.event e).when) (hfuel : bs.flatten.length < fuel) :
    ∃ q', q.insert fuel e = .ok q' ∧ q' = { q with
        nextBin := q'.nextBin, nextInBin := q'.nextInBin, head := q'.head } ∧
      Holding q' (Insert.insert e S) (insertBin q.key e bs) := by
  have hflat : e ∉ bs.flatten := fun hmem => he ((h.mem e).mp hmem)
  have hne := h.bins.ne_nil
  obtain ⟨q', hinsert, hframe, hbins⟩ := insert_bins h.bins hflat h.nodup
    ((length_le_flatten hne).trans_lt hfuel)
  refine ⟨q', hinsert, hframe, ?_⟩
  have hkey : q'.key = q.key := by rw [hframe]; rfl
  have hflatten := flatten_insertBin (e := e) h.graded hne
  refine ⟨hbins, ?_, ?_, fun x => ?_, ?_, ?_, ?_, ?_, ?_, ?_⟩
  · rw [hkey]
    exact graded_insertBin h.graded hne
  · rw [hflatten]
    exact ((perm_orderedInsert _ _ _).nodup_iff).mpr (nodup_cons.mpr ⟨hflat, h.nodup⟩)
  · rw [mem_flatten_insertBin, h.mem, Set.mem_insert_iff]
  · have hstamp : q'.stamp = q.stamp := by rw [hframe]
    rw [hkey, hflatten, hstamp]
    exact pairwise_sooner_orderedInsert h.order fun x hx => hnew x ((h.mem x).mp hx)
  · rw [hframe]
    exact Set.forall_insert_of_forall h.stamps hstamp
  · rw [hframe]
    exact Set.forall_insert_of_forall h.queued hqueue
  · rw [hframe]
    exact Set.forall_insert_of_forall h.future hwhen
  · rw [hframe]
    exact h.past
  · rw [hframe]
    exact h.ticks

theorem Holding.erase (h : Holding q S bs) (hl : Bins q'.nextBin q'.nextInBin (eraseBin e bs) q'.head)
    (hframe : q' = { q with nextBin := q'.nextBin, nextInBin := q'.nextInBin, head := q'.head }) :
    Holding q' (S \ {e}) (eraseBin e bs) := by
  have hkey : q'.key = q.key := by rw [hframe]; rfl
  have hsub {x : ι} (hx : x ∈ S \ {e}) : x ∈ S := hx.1
  refine ⟨hl, ?_, ?_, fun x => ?_, ?_, ?_, ?_, ?_, ?_, ?_⟩
  · rw [hkey]
    exact graded_eraseBin h.graded
  · rw [flatten_eraseBin]
    exact h.nodup.erase e
  · rw [flatten_eraseBin, h.nodup.mem_erase_iff, h.mem, Set.mem_sdiff_singleton, and_comm]
  · have hstamp : q'.stamp = q.stamp := by rw [hframe]
    rw [hkey, flatten_eraseBin, hstamp]
    exact h.order.sublist erase_sublist
  · rw [hframe]
    exact fun x hx => h.stamps x (hsub hx)
  · rw [hframe]
    exact fun x hx => h.queued x (hsub hx)
  · rw [hframe]
    exact fun x hx => h.future x (hsub hx)
  · rw [hframe]
    exact h.past
  · rw [hframe]
    exact h.ticks

theorem Holding.remove (h : Holding q S bs) (he : e ∈ S) (hfuel : bs.flatten.length ≤ fuel) :
    ∃ q', q.remove fuel e = .ok q' ∧ q' = { q with
        nextBin := q'.nextBin, nextInBin := q'.nextInBin, head := q'.head } ∧
      Holding q' (S \ {e}) (eraseBin e bs) := by
  obtain ⟨q', hremove, hframe, hbins⟩ := remove_bins h.bins h.graded h.nodup ((h.mem e).mpr he)
    (h.queued e he) hfuel ((length_le_flatten h.bins.ne_nil).trans hfuel)
  exact ⟨q', hremove, hframe, h.erase hbins hframe⟩

end Holding

def Represents (q : EventQueue ι) (bs : List (List ι)) : Prop :=
  Holding q {e | (q.event e).scheduled = true} bs

section Calls

variable {q' : EventQueue ι} {S : Set ι} {e : ι} {when : Nat} {f : Event → Event}

theorem Holding.represents (h : Holding q S bs)
    (hS : ∀ x, x ∈ S ↔ (q.event x).scheduled = true) : Represents q bs := by
  have heq : {x | (q.event x).scheduled = true} = S := Set.ext fun x => (hS x).symm
  unfold Represents
  rwa [heq]

theorem new_represents (event : ι → Event) : Represents (new event) [] := by
  refine ⟨rfl, graded_nil, nodup_nil, fun e => ?_, .nil, ?_, ?_, ?_, nofun, .nil⟩
  · simp [new]
  · simp [new]
  · simp [new]
  · simp [new]

variable [DecidableEq ι]

theorem Holding.enqueue (h : Holding q S bs) (he : e ∉ S) (hwhen : q.curTick ≤ when)
    (hfuel : bs.flatten.length < fuel) :
    ∃ q' bs', (q.setWhen e when).insert fuel e = .ok q' ∧ q'.event = (q.setWhen e when).event ∧
      Holding q' (Insert.insert e S) bs' ∧ bs'.flatten.length = bs.flatten.length + 1 := by
  have hset := h.setWhen he when
  have hself : (q.setWhen e when).stamp e = q.inserted := update_self _ _ _
  have hevent : (q.setWhen e when).event e = { q.event e with when := when, queued := true } :=
    update_self _ _ _
  have hnew : ∀ x ∈ S, (q.setWhen e when).stamp x < (q.setWhen e when).stamp e := by
    intro x hx
    have hxe : x ≠ e := fun heq => he (heq ▸ hx)
    rw [hself]
    change update q.stamp e q.inserted x < q.inserted
    rw [update_of_ne hxe]
    exact h.stamps x hx
  obtain ⟨q', hinsert, hframe, hq'⟩ := hset.insert he hnew (hself ▸ lt_succ_self _)
    (by rw [hevent]) (by rw [hevent]; exact hwhen) hfuel
  refine ⟨q', _, hinsert, by rw [hframe], hq', ?_⟩
  rw [flatten_insertBin hset.graded hset.bins.ne_nil, orderedInsert_length]

theorem setEvent_scheduled (b : Bool) (hf : ∀ x, (f x).scheduled = b) (x : ι) :
    ((q.setEvent e f).event x).scheduled = if x = e then b else (q.event x).scheduled := by
  unfold EventQueue.setEvent
  dsimp only
  rw [update_apply]
  split
  · exact hf _
  · rfl

theorem setEvent_keeps_scheduled (f : Event → Event) (hf : ∀ x, (f x).scheduled = x.scheduled)
    (x : ι) :
    ((q.setEvent e f).event x).scheduled = (q.event x).scheduled := by
  unfold EventQueue.setEvent
  dsimp only
  rw [update_apply]
  split
  · next hx => rw [hf, hx]
  · rfl

theorem setWhen_scheduled (x : ι) :
    ((q.setWhen e when).event x).scheduled = (q.event x).scheduled :=
  setEvent_keeps_scheduled ({ · with when := when, queued := true }) (fun _ => rfl) x

theorem release_scheduled (x : ι) : ((q.release e).event x).scheduled = (q.event x).scheduled := by
  unfold EventQueue.release
  split
  · next hcond =>
    rw [setEvent_scheduled false fun _ => rfl]
    split
    · next hx => rw [hx, hcond.2]
    · rfl
  · rfl

/-- The common end of `schedule` and `reschedule`: `e` is not in the queue. -/
theorem Holding.schedule {len : Nat} (h : Holding q S bs) (he : e ∉ S)
    (hS : ∀ x, x ≠ e → (x ∈ S ↔ (q.event x).scheduled = true)) (hwhen : q.curTick ≤ when)
    (hlen : bs.flatten.length ≤ len) (hfuel : len < fuel)
    (hf : ∀ x, (f x).when = x.when ∧ (f x).priority = x.priority ∧ (f x).queued = x.queued)
    (htrue : ∀ x, (f x).scheduled = true) :
    Holds (do
        let q ← (q.setWhen e when).insert fuel e
        pure (q.setEvent e f))
      (fun q' => ∃ bs', Represents q' bs' ∧ bs'.flatten.length ≤ len + 1) EventFailure.OfCaller := by
  obtain ⟨q', bs', hinsert, hevent, hq', hlen'⟩ := h.enqueue he hwhen (hlen.trans_lt hfuel)
  rw [hinsert, ok_bind, holds_pure]
  refine ⟨bs', (hq'.setEvent fun _ => hf).represents fun x => ?_, by omega⟩
  rw [setEvent_scheduled true htrue, hevent, setWhen_scheduled]
  by_cases hx : x = e
  · simp [hx]
  · simp [hx, hS x hx]

theorem holds_ofCaller {α : Type*} {p : Prop} [Decidable p] {err : EventFailure}
    {g : PUnit → Except EventFailure α} {Q : α → Prop} (herr : err.OfCaller)
    (h : p → Holds (g ⟨⟩) Q EventFailure.OfCaller) :
    Holds (require p err >>= g) Q EventFailure.OfCaller :=
  holds_bind.mpr (holds_require.mpr ⟨h, fun _ => herr⟩)

/-- The queue represents bins of `n` events at most. -/
def Within (n : Nat) (q : EventQueue ι) : Prop := ∃ bs, Represents q bs ∧ bs.flatten.length ≤ n

theorem schedule_spec (h : Represents q bs) (hfuel : bs.flatten.length < fuel) :
    Holds (q.schedule fuel e when) (Within (bs.flatten.length + 1)) EventFailure.OfCaller := by
  refine holds_ofCaller ⟨nofun, nofun, nofun⟩ fun hwhen => ?_
  refine holds_ofCaller ⟨nofun, nofun, nofun⟩ fun hun => ?_
  refine holds_ofCaller ⟨nofun, nofun, nofun⟩ fun _ => ?_
  exact Holding.schedule h (by simp [hun]) (fun _ _ => Iff.rfl) hwhen le_rfl hfuel
    (fun _ => ⟨rfl, rfl, rfl⟩) fun _ => rfl

theorem deschedule_spec (h : Represents q bs) (hfuel : bs.flatten.length < fuel) :
    Holds (q.deschedule fuel e) (Within (bs.flatten.length + 1)) EventFailure.OfCaller := by
  refine holds_ofCaller ⟨nofun, nofun, nofun⟩ fun hsched => ?_
  refine holds_ofCaller ⟨nofun, nofun, nofun⟩ fun _ => ?_
  obtain ⟨q', hremove, hframe, hq'⟩ := h.remove hsched hfuel.le
  rw [hremove, ok_bind, holds_pure]
  refine ⟨_, ((hq'.setEvent ?_).release e).represents fun x => ?_, ?_⟩
  · exact fun _ _ => ⟨rfl, rfl, rfl⟩
  · have hevent : q'.event = q.event := by rw [hframe]
    rw [release_scheduled, setEvent_scheduled false fun _ => rfl, hevent]
    by_cases hx : x = e
    · simp [hx]
    · simp [hx]
  · rw [flatten_eraseBin]
    exact length_erase_le.trans (le_succ _)

theorem reschedule_spec {always : Bool} (h : Represents q bs) (hfuel : bs.flatten.length < fuel) :
    Holds (q.reschedule fuel e when always) (Within (bs.flatten.length + 1))
      EventFailure.OfCaller := by
  refine holds_ofCaller ⟨nofun, nofun, nofun⟩ fun hwhen => ?_
  refine holds_ofCaller ⟨nofun, nofun, nofun⟩ fun _ => ?_
  refine holds_ofCaller ⟨nofun, nofun, nofun⟩ fun _ => ?_
  dsimp only
  by_cases hsched : (q.event e).scheduled = true
  · rw [if_pos hsched]
    obtain ⟨q', hremove, hframe, hq'⟩ := h.remove hsched hfuel.le
    rw [hremove, ok_bind]
    refine hq'.schedule (by simp) (fun x hx => ?_) ?_ ?_ hfuel (fun _ => ⟨rfl, rfl, rfl⟩) fun _ => rfl
    · rw [hframe]
      simp [hx]
    · rw [hframe]
      exact hwhen
    · rw [flatten_eraseBin]
      exact length_erase_le
  · rw [if_neg hsched]
    exact Holding.schedule h hsched (fun _ _ => Iff.rfl) hwhen le_rfl hfuel
      (fun _ => ⟨rfl, rfl, rfl⟩) fun _ => rfl

theorem Holding.takeFirst {rest : List ι} (h : Holding q S bs) (hflat : bs.flatten = e :: rest) :
    ∃ q', q.takeFirst = .ok (e, q') ∧ q'.event = (q.setEvent e ({ · with scheduled := false })).event ∧
      q'.curTick = q.curTick ∧ Holding q' (S \ {e}) (eraseBin e bs) := by
  have hhead : q.head = some e := by
    rw [h.bins.head_eq, hflat]
    rfl
  have hset : Holding (q.setEvent e ({ · with scheduled := false })) S bs :=
    h.setEvent fun _ _ => ⟨rfl, rfl, rfl⟩
  have hbins := hset.bins
  have hnd := h.nodup
  unfold EventQueue.takeFirst
  rw [hhead]
  dsimp only
  cases bs with
  | nil => cases hflat
  | cons b bs =>
    cases b with
    | nil => exact h.bins.elim
    | cons x xs =>
      obtain ⟨hx, hstack, htail⟩ := hbins
      obtain rfl : e = x := some.inj (hhead.symm.trans hx)
      rw [hstack.1]
      have herase : eraseBin e ((e :: xs) :: bs) = if xs = [] then bs else xs :: bs := by
        unfold eraseBin
        rw [if_pos mem_cons_self, erase_cons_head]
      cases xs with
      | nil =>
        refine ⟨_, rfl, rfl, rfl, hset.erase ?_ rfl⟩
        rw [herase, if_pos rfl]
        exact htail
      | cons n ns =>
        refine ⟨_, rfl, rfl, rfl, hset.erase ?_ rfl⟩
        rw [herase, if_neg (by simp)]
        refine ⟨rfl, hstack.2, ?_⟩
        dsimp only
        rw [update_self]
        refine htail.congr (fun y hy => update_of_ne ?_ _ _) fun _ _ => rfl
        rintro rfl
        rw [flatten_cons, nodup_append'] at hnd
        exact disjoint_left.mp hnd.2.2 (mem_cons_of_mem _ mem_cons_self) hy

theorem serviceOne_spec (h : Represents q bs) :
    Holds q.serviceOne (Within (bs.flatten.length + 1)) EventFailure.OfCaller := by
  cases hflat : bs.flatten with
  | nil =>
    have hhead : q.head = none := by
      rw [h.bins.head_eq, hflat]
      rfl
    unfold EventQueue.serviceOne EventQueue.takeFirst
    rw [hhead]
    exact ⟨nofun, nofun, nofun⟩
  | cons e rest =>
    obtain ⟨q', htake, hevent, hcur, hq'⟩ := h.takeFirst hflat
    have hlen : (eraseBin e bs).flatten.length ≤ (e :: rest).length + 1 := by
      rw [flatten_eraseBin, hflat]
      exact length_erase_le.trans (le_succ _)
    have hsched : ∀ x, x ∈ ({x | (q.event x).scheduled = true} \ {e} : Set ι) ↔
        (q'.event x).scheduled = true := by
      intro x
      rw [hevent, setEvent_scheduled false fun _ => rfl]
      by_cases hx : x = e
      · simp [hx]
      · simp [hx]
    unfold EventQueue.serviceOne
    rw [htake, ok_bind]
    dsimp only
    rw [holds_ite, holds_pure, holds_pure]
    refine ⟨fun _ => ⟨_, Holding.represents (S := _ \ {e}) ?_ hsched, hlen⟩,
      fun _ => ⟨_, Holding.represents (S := {x | (q.event x).scheduled = true} \ {e}) ?_ fun x => ?_,
        hlen⟩⟩
    · have hwhen (x : ι) : (q'.event x).when = (q.event x).when := by
        rw [hevent]
        change (update q.event e _ x).when = _
        rw [update_apply]
        split
        · next hx => rw [hx]
        · rfl
      have hfirst : ∀ x ∈ rest, (q.event e).when ≤ (q.event x).when := by
        intro x hx
        have hsooner := rel_of_pairwise_cons (hflat ▸ h.order) hx
        have hle : q.key e ≤ q.key x := hsooner.elim le_of_lt fun h => h.1.le
        exact (Prod.Lex.monotone_fst _ _ hle :)
      have hnow : q'.curTick ≤ (q'.event e).when := by
        rw [hcur, hwhen]
        exact h.future e ((h.mem e).mp (hflat ▸ mem_cons_self))
      refine ⟨hq'.bins, hq'.graded, hq'.nodup, hq'.mem, hq'.order, hq'.stamps, hq'.queued, ?_, ?_, ?_⟩
      · intro x hx
        have hmem := (h.mem x).mpr hx.1
        rw [hflat, mem_cons] at hmem
        change (q'.event e).when ≤ (q'.event x).when
        rw [hwhen, hwhen]
        exact hfirst x (hmem.resolve_left hx.2)
      · exact forall_mem_cons.mpr ⟨le_rfl, fun x hx => (hq'.past x hx).trans hnow⟩
      · exact pairwise_cons.mpr ⟨fun x hx => (hq'.past x hx).trans hnow, hq'.ticks⟩
    · exact (hq'.setEvent fun hmem => absurd rfl hmem.2).release e
    · rw [release_scheduled, setEvent_keeps_scheduled ({ · with squashed := false }) fun _ => rfl]
      exact hsched x

theorem processReturns_spec (h : Represents q bs) :
    Holds q.processReturns (Within (bs.flatten.length + 1)) EventFailure.OfCaller := by
  unfold EventQueue.processReturns
  split
  · exact ⟨nofun, nofun, nofun⟩
  · next e serving _ =>
    have hpop : Represents { q with serving := serving } bs :=
      Holding.congr h ⟨rfl, rfl, rfl, rfl, rfl⟩ le_rfl fun _ _ => ⟨rfl, rfl, rfl⟩
    dsimp only
    rw [holds_ite, holds_bind, holds_require]
    refine ⟨fun _ => ⟨fun _ => ⟨bs, hpop, le_succ _⟩, fun _ => ⟨nofun, nofun, nofun⟩⟩, fun _ => ?_⟩
    refine ⟨bs, (Holding.release hpop e).represents fun x => ?_, le_succ _⟩
    rw [release_scheduled]
    exact Iff.rfl

theorem perform_represents (c : Call ι) (h : Represents q bs) (hfuel : bs.flatten.length < fuel) :
    Holds (q.perform fuel c) (Within (bs.flatten.length + 1)) EventFailure.OfCaller := by
  cases c with
  | schedule e when => exact schedule_spec h hfuel
  | deschedule e => exact deschedule_spec h hfuel
  | reschedule e when always => exact reschedule_spec h hfuel
  | squash e =>
    refine ⟨bs, (Holding.setEvent h fun _ _ => ?_).represents fun x => ?_, le_succ _⟩
    · exact ⟨rfl, rfl, rfl⟩
    · rw [setEvent_keeps_scheduled ({ · with squashed := true }) fun _ => rfl]
      exact Iff.rfl
  | serviceOne => exact serviceOne_spec h
  | processReturns => exact processReturns_spec h

theorem run_represents {q₀ : EventQueue ι} {calls : List (Call ι)} (h : Represents q₀ bs)
    (hfuel : bs.flatten.length + calls.length ≤ fuel) :
    Holds (q₀.run fuel calls) (Within (bs.flatten.length + calls.length))
      EventFailure.OfCaller := by
  induction calls generalizing q₀ bs with
  | nil => exact ⟨bs, h, le_rfl⟩
  | cons c calls ih =>
    rw [length_cons] at hfuel
    unfold run
    rw [foldlM_cons, holds_bind]
    refine (perform_represents c h (by omega)).imp ?_
    rintro q₁ ⟨bs₁, h₁, hlen⟩
    refine (ih h₁ (by omega)).imp ?_
    rintro q ⟨bs', h', hlen'⟩
    exact ⟨bs', h', by rw [length_cons]; omega⟩

/-- Two events at tick 5 and one at tick 3; while the latter is processed, another is
scheduled and the first is taken out from below the top of its bin. -/
def sampleCalls : List (Call Nat) :=
  [.schedule 0 5, .schedule 1 5, .schedule 2 3, .serviceOne, .schedule 3 5, .deschedule 0,
    .processReturns, .serviceOne, .processReturns]

def readyEvent : Event where
  when := 0
  priority := 0
  scheduled := false
  squashed := false
  managed := false
  isExitEvent := false
  isMainQueue := false
  initialized := true
  queued := false

end Calls

section Verify

variable {n : Nat} {v : Verified ι} {e : ι} {l rest : List ι}

/-- The events `l` are new to the walk, and come in order after its last one. -/
structure Ahead (q : EventQueue ι) (v : Verified ι) (l : List ι) : Prop where
  nodup : l.Nodup
  unseen : ∀ e ∈ l, e ∉ v.map
  sorted : (toLex (v.time, v.priority) :: l.map q.key).Pairwise (· ≤ ·)

theorem Ahead.next (ha : Ahead q v (e :: l)) :
    Ahead q ⟨e :: v.map, (q.event e).when, (q.event e).priority⟩ l where
  nodup := (nodup_cons.mp ha.nodup).2
  unseen := fun x hx hmem => (mem_cons.mp hmem).elim
    (fun heq => (nodup_cons.mp ha.nodup).1 (heq ▸ hx)) (ha.unseen x (mem_cons_of_mem e hx))
  sorted := (pairwise_cons.mp ha.sorted).2

variable [DecidableEq ι]

theorem Ahead.verifyInBin (hs : Stacked q.nextInBin l) (hn : l.length < n)
    (ha : Ahead q v (l ++ rest)) :
    ∃ v', q.verifyInBin n v l.head? = .ok (some v') ∧ Ahead q v' rest := by
  induction l generalizing n v with
  | nil =>
    obtain ⟨n, rfl⟩ : ∃ m, n = m + 1 := ⟨n - 1, by simp at hn; omega⟩
    exact ⟨v, rfl, ha⟩
  | cons e l ih =>
    obtain ⟨n, rfl⟩ : ∃ m, n = m + 1 := ⟨n - 1, by omega⟩
    obtain ⟨v', hv', hrest⟩ := ih hs.2 (lt_of_succ_lt_succ hn) ha.next
    refine ⟨v', ?_, hrest⟩
    have hle := rel_of_pairwise_cons ha.sorted (mem_cons_self (l := (l ++ rest).map q.key))
    rw [key, Prod.Lex.toLex_le_toLex] at hle
    dsimp only at hle
    rw [← hv', ← hs.1]
    simp only [head?_cons, EventQueue.verifyInBin]
    rw [if_neg (by omega), if_neg (by omega), if_neg (ha.unseen e mem_cons_self)]

theorem Ahead.verifyBins (hb : Bins q.nextBin q.nextInBin bs h) (hn : bs.length < n)
    (hfuel : bs.flatten.length < fuel) (ha : Ahead q v bs.flatten) :
    q.verifyBins fuel n v h = .ok true := by
  induction bs generalizing n v h with
  | nil =>
    obtain ⟨n, rfl⟩ : ∃ m, n = m + 1 := ⟨n - 1, by simp at hn; omega⟩
    rw [show h = none from hb]
    rfl
  | cons b bs ih =>
    obtain ⟨n, rfl⟩ : ∃ m, n = m + 1 := ⟨n - 1, by omega⟩
    cases b with
    | nil => exact hb.elim
    | cons e es =>
      obtain ⟨rfl, hstack, htail⟩ := hb
      rw [flatten_cons, length_append] at hfuel
      obtain ⟨v', hv', hrest⟩ := ha.verifyInBin hstack (n := fuel) (by omega)
      rw [head?_cons] at hv'
      unfold EventQueue.verifyBins
      rw [hv']
      exact ih htail (lt_of_succ_lt_succ hn) (by omega) hrest

omit [DecidableEq ι] in
theorem Represents.head_inverted (hrep : Represents q bs) (he : (q.event e).scheduled = true)
    (hwhen : (q.event e).when = 0) (hprio : (q.event e).priority < 0) :
    ∃ x, q.head = some x ∧ (q.event x).when = 0 ∧ (q.event x).priority < 0 := by
  have hmem := (hrep.mem e).mpr he
  have hbins := hrep.bins
  have horder := hrep.order
  cases bs with
  | nil => cases hmem
  | cons b bs =>
    cases b with
    | nil => exact hbins.elim
    | cons x xs =>
      refine ⟨x, hbins.1, ?_⟩
      rw [flatten_cons, cons_append] at hmem horder
      rcases mem_cons.mp hmem with rfl | hmem
      · exact ⟨hwhen, hprio⟩
      · have hle := (pairwise_cons.mp horder).1 e hmem
        have hkey : q.key x ≤ q.key e := hle.elim le_of_lt fun hsame => hsame.1.le
        rw [key, key, Prod.Lex.toLex_le_toLex] at hkey
        dsimp only at hkey
        omega

/-- `debugVerify` accepts the queue that any calls leave if and only if there is no event of
negative priority at tick 0. -/
theorem run_debugVerify (event : ι → Event) {calls : List (Call ι)} (hfuel : calls.length < fuel)
    (hrun : (new event).run fuel calls = .ok q) :
    q.debugVerify fuel = .ok true ↔
      ∀ e, (q.event e).scheduled = true → (q.event e).when = 0 → 0 ≤ (q.event e).priority := by
  obtain ⟨bs, hrep, hlen⟩ :=
    (run_represents (new_represents event) (by simpa using hfuel.le)).of_ok hrun
  have hlt : bs.flatten.length < fuel := hlen.trans_lt (by simpa using hfuel)
  constructor
  · intro hverify e he hwhen
    by_contra! hprio
    obtain ⟨x, hx, hwhen, hprio⟩ := hrep.head_inverted he hwhen hprio
    obtain ⟨n, rfl⟩ : ∃ m, fuel = m + 1 := ⟨fuel - 1, by omega⟩
    have hnone : q.verifyInBin (n + 1) ⟨[], 0, 0⟩ (some x) = .ok none := by
      unfold EventQueue.verifyInBin
      rw [if_neg (Nat.not_lt_zero _), if_pos ⟨hwhen, hprio⟩]
      rfl
    have hfalse : q.debugVerify (n + 1) = .ok false := by
      unfold EventQueue.debugVerify
      rw [hx]
      exact congrArg (· >>= _) hnone
    cases hverify.symm.trans hfalse
  intro hzero
  refine Ahead.verifyBins hrep.bins ((length_le_flatten hrep.bins.ne_nil).trans_lt hlt) hlt
    ⟨hrep.nodup, nofun, pairwise_cons.mpr ⟨fun k hk => ?_, ?_⟩⟩
  · -- the walk starts as if an event of priority 0 had been seen at tick 0
    obtain ⟨e, he, rfl⟩ := mem_map.mp hk
    have hprio := hzero e ((hrep.mem e).mp he)
    rw [key, Prod.Lex.toLex_le_toLex]
    dsimp only
    omega
  · rw [pairwise_map]
    exact hrep.order.imp fun hsooner => hsooner.elim le_of_lt fun hsame => hsame.1.le

theorem run_debugVerify_two :
    ∃ q, (new fun _ : Bool => readyEvent).run 3 [.schedule false 0, .schedule true 0] = .ok q ∧
      q.debugVerify 3 = .ok true := by
  have hrun : (new fun _ : Bool => readyEvent).run 3 [.schedule false 0, .schedule true 0] =
    .ok _ := rfl
  exact ⟨_, hrun, (run_debugVerify _ (by decide) hrun).mpr (by decide)⟩

/-- One event of priority -1 at tick 0 is a priority inversion to `debugVerify`. -/
theorem debugVerify_rejects :
    ∃ q, (new fun _ : Unit => { readyEvent with priority := -1 }).run 2 [.schedule () 0] = .ok q ∧
      q.debugVerify 2 = .ok false :=
  ⟨_, rfl, rfl⟩

end Verify

end EventQueue

end Drain
