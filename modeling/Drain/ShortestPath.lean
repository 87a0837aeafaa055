import Drain.Lib.MinPlus
import Drain.Topology

/-! The loop of `extend_shortest_path` ends and leaves the least walk weights. -/

namespace Drain

open List

def indices (nodes : Nat) : Set Nat := {i | i < nodes}

theorem relaxStep_foldl (dist : Matrix) (i j : Nat) (ks : List Nat) (t : RelaxState) :
    let r := ks.foldl (relaxStep dist i j) t
    r.minimum ≤ t.minimum ∧ (∀ k ∈ ks, r.minimum ≤ dist i k + dist k j) ∧
      (r.minimum = t.minimum ∨ ∃ k ∈ ks, r.minimum = dist i k + dist k j) := by
  induction ks generalizing t with
  | nil => simp
  | cons k ks ih =>
    have hmin : (relaxStep dist i j t k).minimum = min t.minimum (dist i k + dist k j) := by
      unfold relaxStep
      dsimp only
      split <;> rfl
    obtain ⟨hle, hall, heq⟩ := ih (relaxStep dist i j t k)
    rw [hmin] at hle heq
    refine ⟨hle.trans (min_le_left _ _), ?_, ?_⟩
    · intro k' hk'
      rcases mem_cons.mp hk' with rfl | hk'
      · exact hle.trans (min_le_right _ _)
      · exact hall k' hk'
    · rcases heq with heq | ⟨k', hk', heq⟩
      · rcases min_choice t.minimum (dist i k + dist k j) with hm | hm
        · exact .inl (heq.trans hm)
        · exact .inr ⟨k, by simp, heq.trans hm⟩
      · exact .inr ⟨k', by simp [hk'], heq⟩

theorem relaxPair_minimum (nodes i j : Nat) (m : PathMatrices) :
    let r := relaxPair nodes i j m
    r.minimum ≤ m.dist i j ∧ (∀ k < nodes, r.minimum ≤ m.dist i k + m.dist k j) ∧
      (r.minimum = m.dist i j ∨ ∃ k < nodes, r.minimum = m.dist i k + m.dist k j) := by
  have h := relaxStep_foldl m.dist i j (range nodes)
    ⟨m.dist i j, m.dist i j, none, m.interSwitches⟩
  simp only [mem_range] at h
  exact h

theorem sweepPair_dist (nodes i j : Nat) (m : PathMatrices) (change : Bool) :
    (sweepPair nodes (m, change) (i, j)).1.dist = setEntry m.dist i j (relaxPair nodes i j m).minimum ∧
      (sweepPair nodes (m, change) (i, j)).2 =
        (change || decide (m.dist i j ≠ (relaxPair nodes i j m).minimum)) := by
  unfold sweepPair
  by_cases h : m.dist i j = (relaxPair nodes i j m).minimum
  · simp [← h]
  · simp [h]

theorem sweepPair_foldl_change (nodes : Nat) (ps : List (Nat × Nat)) (m : PathMatrices) :
    (ps.foldl (sweepPair nodes) (m, true)).2 = true := by
  induction ps generalizing m with
  | nil => rfl
  | cons p ps ih =>
    have hc := (sweepPair_dist nodes p.1 p.2 m true).2
    rw [Bool.true_or] at hc
    rw [foldl_cons]
    generalize hs : sweepPair nodes (m, true) p = s
    rw [Prod.mk.eta, hs] at hc
    obtain ⟨m', c⟩ := s
    rw [show c = true from hc]
    exact ih m'

/-- Every entry is the weight of a walk and no entry exceeds its link. -/
structure Sound (W : Matrix) (nodes : Nat) (d : Matrix) : Prop where
  walk : ∀ i < nodes, ∀ j < nodes, Walk W (indices nodes) i j (d i j)
  le_weight : ∀ i < nodes, ∀ j < nodes, d i j ≤ W i j

theorem Sound.relax {W : Matrix} {nodes i j : Nat} {m : PathMatrices}
    (h : Sound W nodes m.dist) (hi : i < nodes) (hj : j < nodes) :
    Sound W nodes (setEntry m.dist i j (relaxPair nodes i j m).minimum) := by
  obtain ⟨hle, _, heq⟩ := relaxPair_minimum nodes i j m
  constructor
  · intro a ha b hb
    rw [setEntry_apply]
    split
    · next hab =>
      rw [hab.1, hab.2]
      rcases heq with heq | ⟨k, hk, heq⟩
      · rw [heq]
        exact h.walk i hi j hj
      · rw [heq]
        exact (h.walk i hi k hk).append (h.walk k hk j hj)
    · exact h.walk a ha b hb
  · intro a ha b hb
    rw [setEntry_apply]
    split
    · next hab =>
      rw [hab.1, hab.2]
      exact hle.trans (h.le_weight i hi j hj)
    · exact h.le_weight a ha b hb

theorem sweepPair_foldl {W : Matrix} {nodes : Nat} {ps : List (Nat × Nat)}
    (hps : ∀ p ∈ ps, p.1 < nodes ∧ p.2 < nodes) {m : PathMatrices} (change : Bool)
    (h : Sound W nodes m.dist) :
    let t := ps.foldl (sweepPair nodes) (m, change)
    Sound W nodes t.1.dist ∧ (∀ i j, t.1.dist i j ≤ m.dist i j) ∧
      (t.2 = true → change = true ∨ ∃ p ∈ ps, t.1.dist p.1 p.2 < m.dist p.1 p.2) ∧
      (t.2 = false → t.1.dist = m.dist ∧ ∀ p ∈ ps, ∀ k < nodes,
        m.dist p.1 p.2 ≤ m.dist p.1 k + m.dist k p.2) := by
  induction ps generalizing m change with
  | nil =>
    refine ⟨h, fun _ _ => le_rfl, fun hc => .inl hc, fun _ => ⟨rfl, ?_⟩⟩
    simp
  | cons p ps ih =>
    obtain ⟨i, j⟩ := p
    obtain ⟨hi, hj⟩ := hps (i, j) (by simp)
    obtain ⟨hle, hall, _⟩ := relaxPair_minimum nodes i j m
    obtain ⟨hd, hc⟩ := sweepPair_dist nodes i j m change
    generalize hs : sweepPair nodes (m, change) (i, j) = s at hd hc
    obtain ⟨m₁, c₁⟩ := s
    dsimp only at hd hc
    have hs₁ : Sound W nodes m₁.dist := hd ▸ h.relax hi hj
    have hle₁ : ∀ a b, m₁.dist a b ≤ m.dist a b := by
      intro a b
      rw [hd, setEntry_apply]
      split
      · next hab => rw [hab.1, hab.2]; exact hle
      · exact le_rfl
    obtain ⟨ih1, ih2, ih3, ih4⟩ := ih (fun p hp => hps p (by simp [hp])) c₁ hs₁
    rw [foldl_cons, hs]
    refine ⟨ih1, fun a b => (ih2 a b).trans (hle₁ a b), fun ht => ?_, fun ht => ?_⟩
    · rcases ih3 ht with hc₁ | ⟨p, hp, hlt⟩
      · rw [hc, Bool.or_eq_true, decide_eq_true_eq] at hc₁
        rcases hc₁ with hc₁ | hne
        · exact .inl hc₁
        · refine .inr ⟨(i, j), by simp, lt_of_le_of_lt (ih2 i j) ?_⟩
          rw [hd, setEntry_self]
          exact lt_of_le_of_ne hle (Ne.symm hne)
      · exact .inr ⟨p, by simp [hp], lt_of_lt_of_le hlt (hle₁ p.1 p.2)⟩
    · have hc₁ : c₁ = false := by
        by_contra hne
        rw [Bool.not_eq_false] at hne
        rw [hne, sweepPair_foldl_change] at ht
        cases ht
      rw [hc₁, eq_comm, Bool.or_eq_false_iff, decide_eq_false_iff_not, not_not] at hc
      have hsame : m₁.dist = m.dist := by
        rw [hd, ← hc.2, setEntry_eq_self]
      obtain ⟨hd', htri⟩ := ih4 ht
      rw [hsame] at hd' htri
      refine ⟨hd', fun p hp k hk => ?_⟩
      rcases mem_cons.mp hp with rfl | hp
      · exact hc.2 ▸ hall k hk
      · exact htri p hp k hk

theorem mem_indexPairs {nodes : Nat} {p : Nat × Nat} :
    p ∈ indexPairs nodes ↔ p.1 < nodes ∧ p.2 < nodes := by
  obtain ⟨i, j⟩ := p
  simp [indexPairs]

theorem totalDist_lt {nodes : Nat} {d d' : Matrix} (hle : ∀ i j, d' i j ≤ d i j)
    (hlt : ∃ p ∈ indexPairs nodes, d' p.1 p.2 < d p.1 p.2) :
    totalDist nodes d' < totalDist nodes d :=
  sum_lt_sum _ _ (fun p _ => hle p.1 p.2) hlt

/-- Each pass that changes an entry lowers the sum of all entries, so the loop
ends, and the entries it leaves are closed under concatenation. -/
theorem extendShortestPath_isClosure {W : Matrix} {nodes fuel : Nat} {m : PathMatrices}
    (h : Sound W nodes m.dist) (hf : totalDist nodes m.dist < fuel) :
    ∃ m', extendShortestPath nodes fuel m = some m' ∧ IsClosure W (indices nodes) m'.dist := by
  induction fuel generalizing m with
  | zero => omega
  | succ fuel ih =>
    have hps : ∀ p ∈ indexPairs nodes, p.1 < nodes ∧ p.2 < nodes := fun p => mem_indexPairs.mp
    obtain ⟨hs, hle, hchange, hsame⟩ := sweepPair_foldl hps false h
    unfold extendShortestPath
    change ∃ m', (if (sweep nodes m).2 then extendShortestPath nodes fuel (sweep nodes m).1
      else some (sweep nodes m).1) = some m' ∧ _
    by_cases hc : (sweep nodes m).2 = true
    · have hlt := (hchange hc).resolve_left (by simp)
      rw [if_pos hc]
      have := totalDist_lt hle hlt
      exact ih hs (by unfold sweep; omega)
    · rw [if_neg hc]
      obtain ⟨hd, htri⟩ := hsame (Bool.eq_false_of_not_eq_true hc)
      refine ⟨_, rfl, hs.walk, hs.le_weight, fun i hi j hj k hk => ?_⟩
      unfold sweep
      rw [hd]
      exact htri (i, j) (mem_indexPairs.mpr ⟨hi, hj⟩) k hk

theorem shortestPath_isClosure (nodes : Nat) (W : Matrix) (latencies : Nat → Nat → Int)
    (interSwitches : Matrix) :
    ∃ m, shortestPath nodes W latencies interSwitches = some m ∧
      IsClosure W (indices nodes) m.dist :=
  extendShortestPath_isClosure ⟨fun _ hi _ hj => .edge hi hj, fun _ _ _ _ => le_rfl⟩
    (Nat.lt_succ_self _)

theorem Topology.dist_isClosure (t : Topology) :
    IsClosure t.topologyWeights (indices t.numSwitches) t.dist := by
  obtain ⟨m, hm, hc⟩ :=
    shortestPath_isClosure t.numSwitches t.topologyWeights (fun _ _ => -1) (fun _ _ => 0)
  have hd : t.dist = m.dist := by
    unfold Topology.dist
    rw [hm]
  exact hd ▸ hc

/-- Links of total weight `w` and latency `l` lead from `i` to `j`, by `n` other nodes. -/
inductive LinkPath (W : Matrix) (lat : Nat → Nat → Int) (nodes : Nat) :
    Nat → Nat → Nat → Int → Nat → Prop
  | link {i j : Nat} : i < nodes → j < nodes → i ≠ j → W i j < infiniteLatency →
      LinkPath W lat nodes i j (W i j) (lat i j) 0
  | cons {i k j w n : Nat} {l : Int} : i < nodes → i ≠ k → W i k < infiniteLatency →
      LinkPath W lat nodes k j w l n → LinkPath W lat nodes i j (W i k + w) (lat i k + l) (n + 1)

section LinkPath

variable {W : Matrix} {lat : Nat → Nat → Int} {nodes i j k w w' n n' : Nat} {l l' : Int}
  {m m' : PathMatrices}

theorem LinkPath.walk (h : LinkPath W lat nodes i j w l n) : Walk W (indices nodes) i j w := by
  induction h with
  | link hi hj => exact .edge hi hj
  | cons hi _ _ _ ih => exact .cons hi ih

theorem LinkPath.append (h : LinkPath W lat nodes i k w l n)
    (h' : LinkPath W lat nodes k j w' l' n') :
    LinkPath W lat nodes i j (w + w') (l + l') (n + n' + 1) := by
  induction h with
  | link hi _ hne hlt => simpa using h'.cons hi hne hlt
  | cons hi hne hlt _ ih =>
    have := (ih h').cons hi hne hlt
    rwa [← Nat.add_assoc, ← Int.add_assoc, Nat.add_right_comm _ 1] at *

/-- Every entry below infinity belongs to one path in all three matrices. -/
structure Traced (W : Matrix) (lat : Nat → Nat → Int) (nodes : Nat) (m : PathMatrices) : Prop where
  diag : ∀ i < nodes, m.dist i i = 0
  path : ∀ i < nodes, ∀ j < nodes, i ≠ j → m.dist i j < infiniteLatency →
    LinkPath W lat nodes i j (m.dist i j) (m.latencies i j) (m.interSwitches i j)

/-- The loop over `k` has found no better way for `i` and `j`, or the best one so far is by `k`. -/
def Relaxed (m : PathMatrices) (nodes i j : Nat) (t : RelaxState) : Prop :=
  t.previousMinimum = t.minimum ∧
    (t.minimum = m.dist i j ∧ t.interSwitches = m.interSwitches ∨
      ∃ k < nodes, k ≠ i ∧ k ≠ j ∧ t.intermediateSwitch = some k ∧
        t.minimum = m.dist i k + m.dist k j ∧ t.minimum < m.dist i j ∧
        t.interSwitches =
          setEntry m.interSwitches i j (m.interSwitches i k + m.interSwitches k j + 1))

theorem Traced.relaxStep (h : Traced W lat nodes m) (hi : i < nodes) (hj : j < nodes)
    (hk : k < nodes) {t : RelaxState} (ht : Relaxed m nodes i j t) :
    Relaxed m nodes i j (relaxStep m.dist i j t k) := by
  obtain ⟨least, prev, switch, inter⟩ := t
  obtain ⟨hprev, ht⟩ := ht
  obtain rfl : prev = least := hprev
  dsimp only at ht
  have hle : prev ≤ m.dist i j := by
    rcases ht with ht | ⟨_, _, _, _, _, _, hlt, _⟩
    · exact ht.1.le
    · exact hlt.le
  have hdi := h.diag i hi
  have hdj := h.diag j hj
  unfold Drain.relaxStep Relaxed
  dsimp only
  by_cases hlt : m.dist i k + m.dist k j < prev
  · rw [min_eq_right hlt.le, if_pos hlt.ne']
    -- by `i` or `j` itself there is no better way
    have hki : k ≠ i := by
      rintro rfl
      omega
    have hkj : k ≠ j := by
      rintro rfl
      omega
    refine ⟨rfl, .inr ⟨k, hk, hki, hkj, rfl, rfl, hlt.trans_le hle, ?_⟩⟩
    rcases ht with ⟨_, rfl⟩ | ⟨_, _, _, _, _, _, _, rfl⟩
    · rfl
    · rw [setEntry_setEntry, setEntry_of_ne _ _ fun h => hkj h.2, setEntry_of_ne _ _ fun h => hki h.1]
  · rw [min_eq_left (not_lt.mp hlt), if_neg (not_not.mpr rfl)]
    exact ⟨rfl, ht⟩

theorem Traced.relaxPair (h : Traced W lat nodes m) (hi : i < nodes) (hj : j < nodes) :
    Relaxed m nodes i j (relaxPair nodes i j m) := by
  have hfold : ∀ ks : List Nat, (∀ k ∈ ks, k < nodes) → ∀ t, Relaxed m nodes i j t →
      Relaxed m nodes i j (ks.foldl (Drain.relaxStep m.dist i j) t) := by
    intro ks
    induction ks with
    | nil => exact fun _ t ht => ht
    | cons k ks ih =>
      intro hks t ht
      rw [forall_mem_cons] at hks
      exact ih hks.2 _ (h.relaxStep hi hj hks.1 ht)
  exact hfold (range nodes) (fun k => mem_range.mp) _ ⟨rfl, .inl ⟨rfl, rfl⟩⟩

theorem Traced.sweepPair (h : Traced W lat nodes m) (change : Bool) (hi : i < nodes)
    (hj : j < nodes) : Traced W lat nodes (sweepPair nodes (m, change) (i, j)).1 := by
  have hr := h.relaxPair hi hj
  unfold Drain.sweepPair
  dsimp only
  generalize Drain.relaxPair nodes i j m = r at hr
  obtain ⟨_, ⟨hsame, hinter⟩ | ⟨k, hk, hki, hkj, hswitch, hmin, hlt, hinter⟩⟩ := hr
  · rw [if_neg (not_not.mpr hsame.symm), hinter]
    exact h
  rw [if_pos hlt.ne', hswitch, hmin, hinter]
  dsimp only [Option.getD_some]
  constructor
  · intro a ha
    dsimp only
    by_cases hai : a = i ∧ a = j
    · obtain ⟨rfl, rfl⟩ := hai
      have := h.diag a ha
      omega
    · rw [setEntry_of_ne _ _ hai]
      exact h.diag a ha
  · intro a ha b hb hab hfin
    dsimp only at hfin ⊢
    by_cases heq : a = i ∧ b = j
    · obtain ⟨rfl, rfl⟩ := heq
      simp only [setEntry_self] at hfin ⊢
      exact (h.path a ha k hk hki.symm (by omega)).append (h.path k hk b hb hkj (by omega))
    · rw [setEntry_of_ne _ _ heq] at hfin
      rw [setEntry_of_ne _ _ heq, setEntry_of_ne _ _ heq, setEntry_of_ne _ _ heq]
      exact h.path a ha b hb hab hfin

theorem Traced.extendShortestPath {fuel : Nat} (h : Traced W lat nodes m)
    (hrun : extendShortestPath nodes fuel m = some m') : Traced W lat nodes m' := by
  induction fuel generalizing m with
  | zero => cases hrun
  | succ fuel ih =>
    have hfold : ∀ ps : List (Nat × Nat), (∀ p ∈ ps, p.1 < nodes ∧ p.2 < nodes) →
        ∀ t : PathMatrices × Bool, Traced W lat nodes t.1 →
          Traced W lat nodes (ps.foldl (Drain.sweepPair nodes) t).1 := by
      intro ps
      induction ps with
      | nil => exact fun _ t ht => ht
      | cons p ps ih =>
        intro hps t ht
        rw [forall_mem_cons] at hps
        exact ih hps.2 _ (ht.sweepPair t.2 hps.1.1 hps.1.2)
    have hsweep := hfold (indexPairs nodes) (fun p => mem_indexPairs.mp) (m, false) h
    unfold Drain.extendShortestPath at hrun
    change (if (sweep nodes m).2 then Drain.extendShortestPath nodes fuel (sweep nodes m).1
      else some (sweep nodes m).1) = some m' at hrun
    split at hrun
    · exact ih hsweep hrun
    · cases hrun
      exact hsweep

/-- The loop ends with the least weights of paths, capped at infinity, and for each of them there
is one path that has that weight, the latency and the number of intermediate nodes. -/
theorem shortestPath_traced (hdiag : ∀ i < nodes, W i i = 0)
    (hcap : ∀ i < nodes, ∀ j < nodes, W i j ≤ infiniteLatency) :
    ∃ m, shortestPath nodes W lat (fun _ _ => 0) = some m ∧ ∀ i < nodes, ∀ j < nodes,
      m.dist i j ≤ infiniteLatency ∧
      (∀ w l n, LinkPath W lat nodes i j w l n → m.dist i j ≤ w) ∧
      (i = j → m.dist i j = 0) ∧
      (i ≠ j → m.dist i j < infiniteLatency →
        LinkPath W lat nodes i j (m.dist i j) (m.latencies i j) (m.interSwitches i j)) := by
  obtain ⟨m, hm, hclosure⟩ := shortestPath_isClosure nodes W lat fun _ _ => 0
  have htraced : Traced W lat nodes ⟨W, lat, fun _ _ => 0⟩ :=
    ⟨hdiag, fun i hi j hj hne hlt => .link hi hj hne hlt⟩
  have ht := htraced.extendShortestPath hm
  refine ⟨m, hm, fun i hi j hj => ⟨(hclosure.le_weight i hi j hj).trans (hcap i hi j hj), ?_, ?_, ?_⟩⟩
  · exact fun w l n hpath => hclosure.le_walk hpath.walk
  · rintro rfl
    exact ht.diag i hi
  · exact ht.path i hi j hj

end LinkPath

/-- Links of weight 1 from each node to the next. -/
def rowWeights : Matrix := fun i j => if i = j then 0 else if i + 1 = j then 1 else infiniteLatency

theorem shortestPath_traced_row :
    ∃ m, shortestPath 3 rowWeights (fun _ _ => 2) (fun _ _ => 0) = some m ∧
      (m.dist 0 2 < infiniteLatency → LinkPath rowWeights (fun _ _ => 2) 3 0 2 (m.dist 0 2)
        (m.latencies 0 2) (m.interSwitches 0 2)) := by
  have htraced := @shortestPath_traced rowWeights (fun _ _ => 2) 3 (by decide) (by decide)
  obtain ⟨m, hm, h⟩ := htraced
  exact ⟨m, hm, (h 0 (by decide) 2 (by decide)).2.2.2 (by decide)⟩

end Drain
