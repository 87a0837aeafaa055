import Drain.AddrRange

/-! The map from address ranges to values with its cache of recent lookups
(`base/addr_range_map.hh`). An iterator is named by the number of its insertion. -/

namespace Drain

open List BitVec Nat Bool

structure RangeEntry (V : Type) where
  id : Nat
  range : AddrRange
  value : V
  deriving DecidableEq, Repr

structure AddrRangeMap (V : Type) where
  tree : List (RangeEntry V)
  cache : List Nat
  inserted : Nat
  deriving DecidableEq, Repr

namespace AddrRangeMap

variable {V : Type}

abbrev Cond := AddrRange → Except AddrRangeFailure Bool

def empty : AddrRangeMap V := ⟨[], [], 0⟩

/-- The entries up to `upper_bound`, from the last one backwards. -/
def searchBack (cond : Cond) : List (RangeEntry V) → Except AddrRangeFailure (Option (RangeEntry V))
  | [] => pure none
  | i :: rest => do
    if ← cond i.range then pure (some i)
    else match rest with
      | [] => pure none
      | next :: _ => if next.range.mergesWith i.range then searchBack cond rest else pure none

/-- `find` without the cache. -/
def search (tree : List (RangeEntry V)) (r : AddrRange) (cond : Cond) :
    Except AddrRangeFailure (Option (RangeEntry V)) := do
  let before := (tree.takeWhile (!r.lt ·.range)).reverse
  match tree.dropWhile (!r.lt ·.range) with
  | [] => searchBack cond before
  | next :: _ => if ← cond next.range then pure (some next) else searchBack cond before

def deref (m : AddrRangeMap V) (it : Nat) : Except AddrRangeFailure (RangeEntry V) :=
  match m.tree.find? (·.id = it) with
  | some e => pure e
  | none => throw .dangling

def searchCache (m : AddrRangeMap V) (cond : Cond) :
    List Nat → Except AddrRangeFailure (Option (RangeEntry V))
  | [] => pure none
  | it :: rest => do
    let e ← m.deref it
    if ← cond e.range then pure (some e) else searchCache m cond rest

def addNewEntryToCache (maxCacheSize : Nat) (m : AddrRangeMap V) (it : Nat) : AddrRangeMap V :=
  if maxCacheSize = 0 then m
  else if maxCacheSize ≤ m.cache.length then { m with cache := it :: m.cache.dropLast }
  else { m with cache := it :: m.cache }

def find (maxCacheSize : Nat) (m : AddrRangeMap V) (r : AddrRange) (cond : Cond) :
    Except AddrRangeFailure (Option (RangeEntry V) × AddrRangeMap V) := do
  match ← m.searchCache cond m.cache with
  | some e => pure (some e, { m with cache := e.id :: m.cache.erase e.id })
  | none =>
    match ← search m.tree r cond with
    | some e => pure (some e, m.addNewEntryToCache maxCacheSize e.id)
    | none => pure (none, m)

def contains (maxCacheSize : Nat) (m : AddrRangeMap V) (r : AddrRange) :=
  m.find maxCacheSize r r.isSubset

def intersects (maxCacheSize : Nat) (m : AddrRangeMap V) (r : AddrRange) :=
  m.find maxCacheSize r r.intersects

/-- `insert` of the tree, which keeps an entry with an equivalent key. -/
def insertTree (e : RangeEntry V) : List (RangeEntry V) → RangeEntry V × List (RangeEntry V)
  | [] => (e, [e])
  | f :: tree =>
    if e.range.lt f.range then (e, e :: f :: tree)
    else if f.range.lt e.range then ((insertTree e tree).1, f :: (insertTree e tree).2)
    else (f, f :: tree)

def insert (maxCacheSize : Nat) (m : AddrRangeMap V) (r : AddrRange) (d : V) :
    Except AddrRangeFailure (Option (RangeEntry V) × AddrRangeMap V) := do
  match ← m.intersects maxCacheSize r with
  | (some _, m) => pure (none, m)
  | (none, m) =>
    let (e, tree) := insertTree ⟨m.inserted, r, d⟩ m.tree
    pure (some e, { m with tree, inserted := m.inserted + 1 })

def erase (m : AddrRangeMap V) (p : Nat) : AddrRangeMap V :=
  { m with cache := m.cache.filter (· ≠ p), tree := m.tree.filter (·.id ≠ p) }

/-- `erase(p, q)`, with `none` for `end()`. The loop removes `p` from the cache over and over. -/
def eraseRange (m : AddrRangeMap V) (p : Nat) (q : Option Nat) : AddrRangeMap V :=
  let before := m.tree.takeWhile (·.id ≠ p)
  let rest := m.tree.dropWhile (·.id ≠ p)
  { m with
    cache := if some p = q then m.cache else m.cache.filter (· ≠ p)
    tree := before ++ rest.dropWhile fun e => some e.id ≠ q }

inductive Call (V : Type) where
  | insert (r : AddrRange) (d : V)
  | erase (p : Nat)
  | eraseRange (p : Nat) (q : Option Nat)
  | clear
  | contains (r : AddrRange)
  | intersects (r : AddrRange)

def call (maxCacheSize : Nat) (m : AddrRangeMap V) :
    Call V → Except AddrRangeFailure (Option (RangeEntry V) × AddrRangeMap V)
  | .insert r d => m.insert maxCacheSize r d
  | .erase p => pure (none, m.erase p)
  | .eraseRange p q => pure (none, m.eraseRange p q)
  | .clear => pure (none, { m with tree := [], cache := [] })
  | .contains r => m.contains maxCacheSize r
  | .intersects r => m.intersects maxCacheSize r

def run (maxCacheSize : Nat) (m : AddrRangeMap V) :
    List (Call V) → Except AddrRangeFailure (List (Option (RangeEntry V)) × AddrRangeMap V)
  | [] => pure ([], m)
  | c :: cs => do
    let (res, m) ← m.call maxCacheSize c
    let (ress, m) ← m.run maxCacheSize cs
    pure (res :: ress, m)

/-! ### The cache -/

/-- The condition holds of at most one entry, which the search finds, and no comparison of ranges
panics. -/
def Decisive (tree : List (RangeEntry V)) (r : AddrRange) (cond : Cond) : Prop :=
  (∀ e ∈ tree, ∃ b, cond e.range = .ok b) ∧
    ∃ res, search tree r cond = .ok res ∧ ∀ e ∈ tree, cond e.range = .ok true → res = some e

/-- The lookups of the call are decisive, and it erases no range of several entries. -/
def Call.Regular (tree : List (RangeEntry V)) : Call V → Prop
  | .insert r _ => Decisive tree r r.intersects
  | .erase _ | .clear => True
  | .eraseRange p q => ∀ e ∈ (tree.dropWhile (·.id ≠ p)).takeWhile (some ·.id ≠ q), e.id = p
  | .contains r => Decisive tree r r.isSubset
  | .intersects r => Decisive tree r r.intersects

def RegularRun (m : AddrRangeMap V) : List (Call V) → Prop
  | [] => True
  | c :: cs => c.Regular m.tree ∧ ∀ res m', m.call 0 c = .ok (res, m') → RegularRun m' cs

/-- `m` is `m₀` with a cache of entries of the tree. -/
structure Caches (m m₀ : AddrRangeMap V) : Prop where
  tree : m.tree = m₀.tree
  inserted : m.inserted = m₀.inserted
  uncached : m₀.cache = []
  valid : ∀ it ∈ m.cache, ∃ e ∈ m.tree, e.id = it

variable {m m₀ : AddrRangeMap V} {r : AddrRange} {cond : Cond} {n : Nat}

theorem deref_ok {it : Nat} (h : ∃ e ∈ m.tree, e.id = it) :
    ∃ e ∈ m.tree, e.id = it ∧ m.deref it = .ok e := by
  obtain ⟨e, he, hid⟩ := h
  unfold deref
  cases hfind : m.tree.find? (·.id = it) with
  | none => exact absurd hid (by simpa using find?_eq_none.mp hfind e he)
  | some f =>
    exact ⟨f, mem_of_find?_eq_some hfind, by simpa using find?_some hfind, rfl⟩

theorem searchCache_ok (hcond : ∀ e ∈ m.tree, ∃ b, cond e.range = .ok b) {its : List Nat}
    (hvalid : ∀ it ∈ its, ∃ e ∈ m.tree, e.id = it) :
    ∃ res, m.searchCache cond its = .ok res ∧
      ∀ e, res = some e → e ∈ m.tree ∧ cond e.range = .ok true := by
  induction its with
  | nil => exact ⟨none, rfl, nofun⟩
  | cons it its ih =>
    obtain ⟨e, he, _, hderef⟩ := deref_ok (hvalid it mem_cons_self)
    obtain ⟨b, hb⟩ := hcond e he
    obtain ⟨res, hres, hspec⟩ := ih fun i hi => hvalid i (mem_cons_of_mem _ hi)
    cases b with
    | true =>
      refine ⟨some e, by simp [searchCache, hderef, hb]; rfl, ?_⟩
      rintro f ⟨⟩
      exact ⟨he, hb⟩
    | false => exact ⟨res, by simp [searchCache, hderef, hb, hres], hspec⟩

theorem searchBack_mem {l : List (RangeEntry V)} {e : RangeEntry V}
    (h : searchBack cond l = .ok (some e)) : e ∈ l ∧ cond e.range = .ok true := by
  induction l with
  | nil => cases h
  | cons i rest ih =>
    obtain ⟨b, hb, h⟩ := bind_eq_ok.mp h
    cases b with
    | true =>
      cases h
      exact ⟨mem_cons_self, hb⟩
    | false =>
      cases rest with
      | nil => cases h
      | cons next rest =>
        simp only [false_eq_true, if_false] at h
        split at h
        · exact (ih h).imp_left (mem_cons_of_mem _)
        · cases h

theorem search_mem {tree : List (RangeEntry V)} {e : RangeEntry V}
    (h : search tree r cond = .ok (some e)) : e ∈ tree ∧ cond e.range = .ok true := by
  have hback (h : searchBack cond (tree.takeWhile (!r.lt ·.range)).reverse = .ok (some e)) :
      e ∈ tree ∧ cond e.range = .ok true :=
    (searchBack_mem h).imp_left fun he =>
      (takeWhile_sublist _).subset (mem_reverse.mp he)
  unfold search at h
  cases hd : tree.dropWhile (!r.lt ·.range) with
  | nil => exact hback (by simpa [hd] using h)
  | cons next rest =>
    rw [hd] at h
    obtain ⟨b, hb, h⟩ := bind_eq_ok.mp h
    cases b with
    | true =>
      cases h
      exact ⟨(dropWhile_sublist _).subset (hd ▸ mem_cons_self), hb⟩
    | false => exact hback h

theorem Caches.withCache (h : Caches m m₀) {e : RangeEntry V} (he : e ∈ m.tree) {its : List Nat}
    (hits : ∀ it ∈ its, it ∈ m.cache) : Caches { m with cache := e.id :: its } m₀ := by
  refine ⟨h.tree, h.inserted, h.uncached, ?_⟩
  rintro it (_ | ⟨_, hit⟩)
  · exact ⟨e, he, rfl⟩
  · exact h.valid it (hits it hit)

theorem Caches.find (h : Caches m m₀) (hd : Decisive m₀.tree r cond) (n : Nat) :
    ∃ res m', m.find n r cond = .ok (res, m') ∧ m₀.find 0 r cond = .ok (res, m₀) ∧
      Caches m' m₀ := by
  obtain ⟨hcond, res, hsearch, hunique⟩ := hd
  have hplain : m₀.find 0 r cond = .ok (res, m₀) := by
    unfold AddrRangeMap.find
    rw [h.uncached, searchCache]
    cases res <;> simp [hsearch, addNewEntryToCache, pure, Except.pure, bind, Except.bind]
  suffices hfound : ∃ m', m.find n r cond = .ok (res, m') ∧ Caches m' m₀ by
    obtain ⟨m', hm', hc⟩ := hfound
    exact ⟨res, m', hm', hplain, hc⟩
  obtain ⟨hit, hcache, hspec⟩ := searchCache_ok (h.tree ▸ hcond) h.valid
  unfold AddrRangeMap.find
  rw [hcache, ok_bind]
  cases hit with
  | some e =>
    obtain ⟨he, htrue⟩ := hspec e rfl
    rw [hunique e (h.tree ▸ he) htrue]
    exact ⟨_, rfl, h.withCache he fun _ => mem_of_mem_erase⟩
  | none =>
    rw [h.tree, hsearch, ok_bind]
    cases res with
    | none => exact ⟨m, rfl, h⟩
    | some e =>
      have he : e ∈ m.tree := h.tree ▸ (search_mem hsearch).1
      refine ⟨_, rfl, ?_⟩
      unfold addNewEntryToCache
      split_ifs
      · exact h
      · exact h.withCache he fun _ => mem_of_mem_dropLast
      · exact h.withCache he fun _ => id

theorem mem_insertTree {e x : RangeEntry V} {tree : List (RangeEntry V)} (h : x ∈ tree) :
    x ∈ (insertTree e tree).2 := by
  induction tree with
  | nil => cases h
  | cons f tree ih =>
    rw [insertTree]
    split_ifs
    · exact mem_cons_of_mem _ h
    · rcases mem_cons.mp h with rfl | h
      · exact mem_cons_self
      · exact mem_cons_of_mem _ (ih h)
    · exact h

theorem Caches.call (h : Caches m m₀) {c : Call V} (hc : c.Regular m₀.tree) (n : Nat) :
    ∃ res m' m₀', m.call n c = .ok (res, m') ∧ m₀.call 0 c = .ok (res, m₀') ∧ Caches m' m₀' := by
  cases c with
  | contains r =>
    obtain ⟨res, m', hm', hm₀, hcaches⟩ := h.find hc n
    exact ⟨res, m', m₀, hm', hm₀, hcaches⟩
  | intersects r =>
    obtain ⟨res, m', hm', hm₀, hcaches⟩ := h.find hc n
    exact ⟨res, m', m₀, hm', hm₀, hcaches⟩
  | clear => exact ⟨none, _, _, rfl, rfl, rfl, h.inserted, rfl, nofun⟩
  | insert r d =>
    obtain ⟨res, m', hm', hm₀, hcaches⟩ := h.find hc n
    simp only [AddrRangeMap.call, AddrRangeMap.insert, AddrRangeMap.intersects, hm', hm₀, ok_bind]
    cases res with
    | some e => exact ⟨none, m', m₀, rfl, rfl, hcaches⟩
    | none =>
      have hinsert : insertTree ⟨m'.inserted, r, d⟩ m'.tree =
          insertTree ⟨m₀.inserted, r, d⟩ m₀.tree := by rw [hcaches.tree, hcaches.inserted]
      refine ⟨_, _, { m₀ with
          tree := (insertTree ⟨m₀.inserted, r, d⟩ m₀.tree).2, inserted := m₀.inserted + 1 }, rfl, ?_,
        congrArg Prod.snd hinsert, congrArg (· + 1) hcaches.inserted, hcaches.uncached,
        fun it hit => ?_⟩
      · rw [hinsert]
        rfl
      · obtain ⟨e, he, hid⟩ := hcaches.valid it hit
        exact ⟨e, mem_insertTree he, hid⟩
  | erase p =>
    refine ⟨none, _, _, rfl, rfl, ?_, h.inserted, ?_, fun it hit => ?_⟩
    · simp [AddrRangeMap.erase, h.tree]
    · simp [AddrRangeMap.erase, h.uncached]
    · obtain ⟨hit, hne⟩ := mem_filter.mp hit
      obtain ⟨e, he, rfl⟩ := h.valid it hit
      exact ⟨e, mem_filter.mpr ⟨he, hne⟩, rfl⟩
  | eraseRange p q =>
    refine ⟨none, _, _, rfl, rfl, ?_, h.inserted, ?_, fun it hit => ?_⟩
    · simp [AddrRangeMap.eraseRange, h.tree]
    · simp [AddrRangeMap.eraseRange, h.uncached]
    · have hmem : it ∈ m.cache := by
        revert hit
        unfold AddrRangeMap.eraseRange
        split_ifs
        · exact id
        · exact fun hit => (mem_filter.mp hit).1
      obtain ⟨e, he, rfl⟩ := h.valid it hmem
      refine ⟨e, ?_, rfl⟩
      -- an erased entry has the name `p`, which is no longer cached
      rw [← takeWhile_append_dropWhile (p := fun e => decide (e.id ≠ p)) (l := m.tree),
        mem_append] at he
      refine mem_append.mpr (he.imp_right fun he => ?_)
      rw [← takeWhile_append_dropWhile (p := fun e => decide (some e.id ≠ q))
        (l := m.tree.dropWhile _), mem_append] at he
      refine he.resolve_left fun herased => ?_
      have hp := hc e (h.tree ▸ herased)
      have hq := mem_takeWhile_imp herased
      simp only [hp, decide_eq_true_eq] at hq
      simp [AddrRangeMap.eraseRange, hq, hp] at hit

/-- Where every lookup is decided by one entry and `erase(p, q)` erases at most one, the cache has
entries of the tree only, and every call returns what it returns without a cache. -/
theorem run_cached (n : Nat) (calls : List (Call V)) (hcalls : RegularRun empty calls) :
    ∃ ress m m₀, empty.run n calls = .ok (ress, m) ∧ empty.run 0 calls = .ok (ress, m₀) ∧
      m.tree = m₀.tree ∧ ∀ it ∈ m.cache, ∃ e ∈ m.tree, e.id = it := by
  suffices hrun : ∀ m m₀ : AddrRangeMap V, Caches m m₀ → RegularRun m₀ calls →
      ∃ ress m' m₀', m.run n calls = .ok (ress, m') ∧ m₀.run 0 calls = .ok (ress, m₀') ∧
        Caches m' m₀' by
    obtain ⟨ress, m, m₀, hm, hm₀, h⟩ := hrun empty empty ⟨rfl, rfl, rfl, nofun⟩ hcalls
    exact ⟨ress, m, m₀, hm, hm₀, h.tree, h.valid⟩
  clear hcalls
  induction calls with
  | nil => exact fun m m₀ h _ => ⟨[], m, m₀, rfl, rfl, h⟩
  | cons c calls ih =>
    intro m m₀ h hreg
    obtain ⟨res, m', m₀', hm, hm₀, h'⟩ := h.call hreg.1 n
    obtain ⟨ress, m'', m₀'', hm', hm₀', h''⟩ := ih m' m₀' h' (hreg.2 res m₀' hm₀)
    refine ⟨res :: ress, m'', m₀'', ?_, ?_, h''⟩
    · simp only [run, hm, hm', ok_bind]
      rfl
    · simp only [run, hm₀, hm₀', ok_bind]
      rfl

/-- The second lookup is answered from the cache. -/
theorem run_cached_hit :
    let calls : List (Call Unit) := [.insert ⟨0, 9, 0, 0, 0, 0⟩ (), .contains ⟨3, 4, 0, 0, 0, 0⟩,
      .contains ⟨5, 6, 0, 0, 0, 0⟩]
    ∃ ress m m₀, empty.run 1 calls = .ok (ress, m) ∧ empty.run 0 calls = .ok (ress, m₀) ∧
      m.cache = [0] ∧ m.tree = m₀.tree ∧ ∀ it ∈ m.cache, ∃ e ∈ m.tree, e.id = it := by
  intro calls
  let e : RangeEntry Unit := ⟨0, ⟨0, 9, 0, 0, 0, 0⟩, ()⟩
  have hdecisive (r : AddrRange) (hr : r.isSubset e.range = .ok true)
      (hsearch : search [e] r r.isSubset = .ok (some e)) : Decisive [e] r r.isSubset := by
    refine ⟨fun f hf => ⟨true, ?_⟩, _, hsearch, fun f hf _ => ?_⟩
    · rw [mem_singleton.mp hf, hr]
    · rw [mem_singleton.mp hf]
  have hregular : RegularRun empty calls := by
    refine ⟨⟨nofun, none, rfl, nofun⟩, ?_⟩
    rintro _ _ ⟨⟩
    refine ⟨hdecisive _ rfl rfl, ?_⟩
    rintro _ _ ⟨⟩
    exact ⟨hdecisive _ rfl rfl, fun _ _ _ => trivial⟩
  obtain ⟨ress, m, m₀, hm, hm₀, htree, hvalid⟩ := run_cached 1 calls hregular
  refine ⟨ress, m, m₀, hm, hm₀, ?_, htree, hvalid⟩
  cases hm
  rfl

/-- `erase(p, q)` leaves the iterator to the second range in the cache, and the next lookup follows
it. Where two ranges intersect a third one, the cache answers with the one looked up last. -/
theorem run_dangling :
    (empty.run 1 [.insert ⟨0, 9, 0, 0, 0, 0⟩ (), .insert ⟨10, 19, 0, 0, 0, 0⟩ (),
        .contains ⟨12, 12, 0, 0, 0, 0⟩, .eraseRange 0 none, .contains ⟨12, 12, 0, 0, 0, 0⟩] =
      .error .dangling) ∧
    ∀ n ∈ [0, 1], ∃ m : AddrRangeMap Unit, empty.run n [.insert ⟨0, 9, 0, 0, 0, 0⟩ (),
        .insert ⟨10, 19, 0, 0, 0, 0⟩ (), .contains ⟨3, 3, 0, 0, 0, 0⟩,
        .intersects ⟨5, 15, 0, 0, 0, 0⟩] =
      .ok ([some ⟨0, ⟨0, 9, 0, 0, 0, 0⟩, ()⟩, some ⟨1, ⟨10, 19, 0, 0, 0, 0⟩, ()⟩,
        some ⟨0, ⟨0, 9, 0, 0, 0, 0⟩, ()⟩,
        some (if n = 0 then ⟨1, ⟨10, 19, 0, 0, 0, 0⟩, ()⟩ else ⟨0, ⟨0, 9, 0, 0, 0, 0⟩, ()⟩)], m) := by
  refine ⟨rfl, ?_⟩
  rintro n (_ | ⟨_, _ | ⟨_, ⟨⟩⟩⟩)
  · exact ⟨_, rfl⟩
  · exact ⟨_, rfl⟩

/-! ### Finding an address -/

def key (e : RangeEntry V) : Nat := e.range._start.toNat * 2 ^ 8 + e.range.intlvMatch.toNat

theorem lt_iff {e f : RangeEntry V} : e.range.lt f.range = true ↔ key e < key f := by
  have he := e.range.intlvMatch.isLt
  have hf := f.range.intlvMatch.isLt
  unfold AddrRange.lt key
  by_cases hs : e.range._start = f.range._start
  · simp [hs, lt_def]
  · have hne : e.range._start.toNat ≠ f.range._start.toNat := fun h => hs (eq_of_toNat_eq h)
    simp only [ne_eq, hs, not_false_eq_true, if_true, decide_eq_true_eq, lt_def]
    omega

theorem insertTree_sorted {tree : List (RangeEntry V)} (h : tree.Pairwise (key · < key ·))
    (e : RangeEntry V) : (insertTree e tree).2.Pairwise (key · < key ·) ∧
      ∀ x ∈ (insertTree e tree).2, x = e ∨ x ∈ tree := by
  induction tree with
  | nil => simp [insertTree]
  | cons f tree ih =>
    obtain ⟨hf, htree⟩ := pairwise_cons.mp h
    simp only [insertTree, lt_iff]
    split_ifs with hef hfe
    · refine ⟨pairwise_cons.mpr ⟨fun x hx => ?_, h⟩, fun x => mem_cons.mp⟩
      rcases mem_cons.mp hx with rfl | hx
      · exact hef
      · exact hef.trans (hf x hx)
    · obtain ⟨hsorted, hmem⟩ := ih htree
      refine ⟨pairwise_cons.mpr ⟨fun x hx => ?_, hsorted⟩, fun x hx => ?_⟩
      · rcases hmem x hx with rfl | hx
        · exact hfe
        · exact hf x hx
      · rcases mem_cons.mp hx with rfl | hx
        · exact .inr mem_cons_self
        · exact (hmem x hx).imp_right (mem_cons_of_mem _)
    · exact ⟨h, fun x => .inr⟩

def build (maxCacheSize : Nat) (ranges : List (AddrRange × V)) :
    Except AddrRangeFailure (AddrRangeMap V) :=
  ranges.foldlM (fun m p => do
    let (res, m) ← m.insert maxCacheSize p.1 p.2
    require (res.isSome = true) .intersection
    pure m) empty

theorem build_spec {ranges : List (AddrRange × V)} (h : build n ranges = .ok m) :
    m.tree.Pairwise (key · < key ·) ∧ m.cache = [] := by
  refine (holds_foldlM (E := fun _ => True) (fun m : AddrRangeMap V =>
    m.tree.Pairwise (key · < key ·) ∧ m.cache = []) ranges ⟨List.Pairwise.nil, rfl⟩
      fun p _ m hm => ?_).of_ok h
  unfold insert intersects find
  rw [hm.2]
  simp only [searchCache, holds_bind, holds_pure]
  refine (holds_true _).imp fun res _ => ?_
  cases res with
  | some e => simp
  | none => simpa using ⟨(insertTree_sorted hm.1 _).1, hm.2⟩

/-- The two ranges belong to one group, or have no address between their bounds in common. -/
def Separate (e f : RangeEntry V) : Prop :=
  e.range.mergesWith f.range = true ∨ e.range._end < f.range._start ∨ f.range._end < e.range._start

/-- A valid range with its slice inside the address. -/
structure Valid (r : AddrRange) : Prop where
  bounds : r._start ≤ r._end
  slice : r.interleaved = true → r.intlvBits ≤ r.intlvHighBit + 1 ∧ r.intlvHighBit < 64

/-- The address is the start of an interleaved range that contains it, and `upper_bound` finds an
entry of the group before that one. -/
def Hidden (tree : List (RangeEntry V)) (a : Addr) : Prop :=
  ∃ e ∈ tree, ∃ f ∈ tree, e.range.contains a = true ∧ e.range.interleaved = true ∧
    e.range._start = a ∧ f.range._start = a ∧ 0 < f.range.intlvMatch ∧
    f.range.intlvMatch < e.range.intlvMatch

def rangeSize (start size : Addr) : AddrRange := ⟨start, start + size - 1, 0, 0, 0, 0⟩

theorem isSubset_rangeSize (h : Valid r) (a : Addr) :
    (rangeSize a 1).isSubset r = .ok (r.contains a) := by
  have hend : a + 1 - 1 = a := add_sub_cancel a 1
  have hsize : (rangeSize a 1).size = 1 := by simp [AddrRange.size, rangeSize]
  have hsub : (rangeSize a 1).isSubset r = if r.interleaved then
      pure (r.contains a && r.contains (a + 1 - 1) && (rangeSize a 1).size ≤ r.granularity)
    else pure (r._start ≤ a ∧ a + 1 - 1 ≤ r._end) := rfl
  rw [hsub, hend, hsize]
  by_cases hint : r.interleaved = true
  · have hlow : (r.intlvHighBit - r.intlvBits + 1).toNat < 64 := by
      obtain ⟨hbits, hhigh⟩ := h.slice hint
      have hpos : r.intlvBits ≠ 0 := by simpa [AddrRange.interleaved] using hint
      bv_omega
    have hshift (k : Nat) (hk : k < 64) : 1#64 ≤ 1#64 <<< k := by
      have hpow : 2 ^ k < 2 ^ 64 := Nat.pow_lt_pow_right (by decide) hk
      rw [le_def, toNat_shiftLeft, toNat_one (by decide), Nat.shiftLeft_eq,
        one_mul, mod_eq_of_lt hpow]
      exact Nat.one_le_two_pow
    have hgran : 1 ≤ r.granularity := by
      rw [AddrRange.granularity, if_pos hint]
      dsimp only
      split
      · exact hshift _ (lt_of_le_of_lt (min_le_left _ _) hlow)
      · exact hshift _ hlow
    rw [if_pos hint, decide_eq_true hgran, Bool.and_true, Bool.and_self]
    rfl
  · rw [if_neg hint, AddrRange.contains, if_neg hint]
    rfl

theorem searchBack_finds {a : Addr} {l : List (RangeEntry V)}
    (hcond : ∀ e ∈ l, cond e.range = .ok (e.range.contains a))
    (hchain : l.Pairwise fun f e => e.range.contains a = true → e.range.mergesWith f.range = true) :
    ∃ res, searchBack cond l = .ok res ∧ (res = none → ∀ e ∈ l, e.range.contains a = false) := by
  induction l with
  | nil => exact ⟨none, rfl, nofun⟩
  | cons i rest ih =>
    obtain ⟨hi, hrest⟩ := pairwise_cons.mp hchain
    cases hcontains : i.range.contains a with
    | true => exact ⟨some i, by simp [searchBack, hcond, hcontains]; rfl, nofun⟩
    | false =>
      suffices h : ∃ res, searchBack cond (i :: rest) = .ok res ∧
          (res = none → ∀ e ∈ rest, e.range.contains a = false) by
        obtain ⟨res, hres, hnone⟩ := h
        exact ⟨res, hres, fun h => forall_mem_cons.mpr ⟨hcontains, hnone h⟩⟩
      have hfalse := hcond i mem_cons_self
      rw [hcontains] at hfalse
      cases rest with
      | nil => exact ⟨none, by simp [searchBack, hfalse]; rfl, nofun⟩
      | cons next rest =>
        rw [searchBack, hfalse, ok_bind]
        by_cases hmerge : next.range.mergesWith i.range = true
        · obtain ⟨res, hres, hnone⟩ := ih (fun e he => hcond e (mem_cons_of_mem _ he)) hrest
          exact ⟨res, by simp [hmerge, hres], hnone⟩
        · refine ⟨none, by simp [hmerge]; rfl, fun _ e he => ?_⟩
          -- an entry with the address would be in one group with `i` and with `next`
          by_contra hin
          rw [not_eq_false] at hin
          have hei := AddrRange.mergesWith_iff.mp (hi e he hin)
          have hen : e = next ∨ e.range.mergesWith next.range = true :=
            (mem_cons.mp he).imp_right fun h => (pairwise_cons.mp hrest).1 e h hin
          apply hmerge
          rcases hen with rfl | hen
          · exact hi e he hin
          · rw [AddrRange.mergesWith_iff.mp hen, hei]
            simp [AddrRange.mergesWith]

theorem contains_bounds {a : Addr} (h : r.contains a = true) : r._start ≤ a ∧ a ≤ r._end := by
  unfold AddrRange.contains AddrRange.inRange at h
  split at h <;> simp_all

section Finding

variable {e f : RangeEntry V} {a : Addr}

/-- Of the entries of an interleaved group only one contains the address. -/
theorem Separate.not_contains (h : Separate e f) (hkey : key e < key f)
    (hint : f.range.interleaved = true) (hf : f.range.contains a = true) :
    ¬e.range.contains a = true := by
  intro he
  have hbounds := contains_bounds he
  have hbounds' := contains_bounds hf
  have hmerge := h.resolve_right (by bv_omega)
  have hfe := AddrRange.mergesWith_iff.mp hmerge
  have hmatch := AddrRange.intlvMatch_eq hmerge (by rw [hfe] at hint; exact hint) he hf
  rw [key, key, hmatch, hfe] at hkey
  exact lt_irrefl _ hkey

theorem Separate.merges (h : Separate e f) (hkey : key e < key f) (hf : Valid f.range)
    (hlow : key f ≤ a.toNat * 2 ^ 8) (hin : e.range.contains a = true) :
    e.range.mergesWith f.range = true := by
  have hbounds := contains_bounds hin
  have hvalid := hf.bounds
  have he := e.range.intlvMatch.isLt
  have hm := f.range.intlvMatch.isLt
  unfold key at hkey hlow
  simp only [le_def] at hbounds hvalid
  refine h.resolve_right ?_
  simp only [lt_def]
  omega

/-- Behind `upper_bound` the address is the start of a range that contains it. -/
theorem Separate.start_eq (h : Separate e f) (hkey : key e < key f) (he : Valid e.range)
    (hhigh : a.toNat * 2 ^ 8 < key e) (hin : f.range.contains a = true)
    (hout : e.range.contains a = false) :
    f.range.interleaved = true ∧ f.range._start = a ∧ e.range._start = a ∧
      0 < e.range.intlvMatch ∧ e.range.intlvMatch < f.range.intlvMatch := by
  have hbounds := contains_bounds hin
  have hvalid := he.bounds
  have hme := e.range.intlvMatch.isLt
  have hmf := f.range.intlvMatch.isLt
  unfold key at hkey hhigh
  simp only [le_def] at hbounds hvalid
  have hfe := AddrRange.mergesWith_iff.mp (h.resolve_right (by simp only [lt_def]; omega))
  refine ⟨?_, eq_of_toNat_eq (by omega), eq_of_toNat_eq (by omega), ?_, ?_⟩
  · -- the plain ranges of a group are the same
    by_contra hint
    rw [hfe] at hin hint
    have hplain : ¬e.range.interleaved = true := hint
    rw [AddrRange.contains, if_neg hint] at hin
    rw [AddrRange.contains, if_neg hplain] at hout
    exact absurd (hout.symm.trans hin) (by decide)
  all_goals bv_omega

theorem rangeSize_lt : (rangeSize a 1).lt e.range = true ↔ a.toNat * 2 ^ 8 < key e := by
  rw [lt_iff (e := ⟨0, rangeSize a 1, e.value⟩)]
  simp [key, rangeSize]

theorem Hidden.keys {tree : List (RangeEntry V)} (h : Hidden tree a) :
    ∃ e ∈ tree, ∃ f ∈ tree, a.toNat * 2 ^ 8 < key f ∧ key f < key e ∧
      e.range.contains a = true ∧ e.range.interleaved = true := by
  obtain ⟨e, he, f, hf, hin, hint, hstart, hstart', hpos, hlt⟩ := h
  refine ⟨e, he, f, hf, ?_, ?_, hin, hint⟩
  · rw [key, hstart']
    exact Nat.lt_add_of_pos_right hpos
  · rw [key, key, hstart, hstart']
    exact Nat.add_lt_add_left hlt _

/-- The search for an address finds a range that contains it if there is one that is not hidden. -/
theorem search_finds {tree : List (RangeEntry V)} (hsorted : tree.Pairwise (key · < key ·))
    (hsep : tree.Pairwise Separate) (hok : ∀ e ∈ tree, Valid e.range) (a : Addr) :
    ∃ res, search tree (rangeSize a 1) (rangeSize a 1).isSubset = .ok res ∧
      ((res = none → ∀ e ∈ tree, e.range.contains a = false) ↔ ¬Hidden tree a) := by
  have hcond (e) (he : e ∈ tree) := isSubset_rangeSize (hok e he) a
  have hboth := hsorted.and hsep
  have hsplit := takeWhile_append_dropWhile (p := fun e => !(rangeSize a 1).lt e.range)
    (l := tree)
  have hlow (e) (he : e ∈ tree.takeWhile (!(rangeSize a 1).lt ·.range)) :
      key e ≤ a.toNat * 2 ^ 8 := by
    have hle := mem_takeWhile_imp he
    rw [not_eq_true', ← not_eq_true, rangeSize_lt] at hle
    exact not_lt.mp hle
  have hhead := head?_dropWhile_not (fun e : RangeEntry V => !(rangeSize a 1).lt e.range) tree
  unfold search
  generalize tree.takeWhile (!(rangeSize a 1).lt ·.range) = before at hsplit hlow ⊢
  generalize tree.dropWhile (!(rangeSize a 1).lt ·.range) = after at hsplit hhead ⊢
  subst hsplit
  obtain ⟨hpre, hpost, hacross⟩ := pairwise_append.mp hboth
  obtain ⟨res, hres, hnone⟩ := searchBack_finds (a := a) (l := before.reverse)
    (fun e he => hcond e (mem_append_left _ (mem_reverse.mp he)))
    (pairwise_reverse.mpr (hpre.imp_of_mem fun {e f} he hf hef hin =>
      hef.2.merges hef.1 (hok f (mem_append_left _ hf)) (hlow f hf) hin))
  simp only [mem_reverse] at hnone
  have hbehind {e} (he : e ∈ before ++ after) (hhigh : a.toNat * 2 ^ 8 < key e) : e ∈ after :=
    (mem_append.mp he).resolve_left fun he => not_le.mpr hhigh (hlow e he)
  have hkeys : Hidden (before ++ after) a → ∃ e ∈ after, ∃ f ∈ after, key f < key e ∧
      e.range.contains a = true ∧ e.range.interleaved = true := by
    intro h
    obtain ⟨e, he, f, hf, hlow, hfe, hin⟩ := h.keys
    exact ⟨e, hbehind he (hlow.trans hfe), f, hbehind hf hlow, hfe, hin⟩
  cases after with
  | nil =>
    refine ⟨res, hres, iff_of_true (by simpa using hnone) fun h => ?_⟩
    obtain ⟨e, he, -⟩ := hkeys h
    cases he
  | cons next after =>
    obtain ⟨hnext, -⟩ := pairwise_cons.mp hpost
    dsimp only
    rw [hcond next (by simp), ok_bind]
    cases hin : next.range.contains a with
    | true =>
      refine ⟨some next, rfl, iff_of_true nofun fun h => ?_⟩
      obtain ⟨e, he, f, hf, hfe, hein, hint⟩ := hkeys h
      have hle : key next ≤ key f := by
        rcases mem_cons.mp hf with rfl | hf
        · exact le_rfl
        · exact (hnext f hf).1.le
      rcases mem_cons.mp he with rfl | he
      · omega
      · exact (hnext e he).2.not_contains (hnext e he).1 hint hein hin
    | false =>
      refine ⟨res, hres, fun h hhidden => ?_, fun hseen h e he => ?_⟩
      · obtain ⟨e, he, f, hf, hfe, hein, hint⟩ := hkeys hhidden
        cases res with
        | none => simp [h rfl e (mem_append_right _ he)] at hein
        | some x =>
          obtain ⟨hx, htrue⟩ := searchBack_mem hres
          rw [mem_reverse] at hx
          rw [hcond x (mem_append_left _ hx)] at htrue
          obtain ⟨hlt, hsep⟩ := hacross x hx e he
          exact hsep.not_contains hlt hint hein (Except.ok.inj htrue)
      · refine (mem_append.mp he).elim (hnone h e) fun hafter => ?_
        rcases mem_cons.mp hafter with rfl | hafter
        · exact hin
        · by_contra hein
          rw [not_eq_false] at hein
          obtain ⟨hint, hstart⟩ := (hnext e hafter).2.start_eq (hnext e hafter).1 (hok next (by simp))
            (rangeSize_lt.mp (by simpa using hhead)) hein hin
          exact hseen ⟨e, he, next, by simp, hein, hint, hstart⟩

/-- In a map whose ranges are separate and valid, `contains` of an address returns an entry whose
range contains it, or `end()`. It returns an entry whenever there is one, unless that is hidden. -/
theorem contains_finds (n : Nat) (ranges : List (AddrRange × V)) (m : AddrRangeMap V)
    (hbuild : build n ranges = .ok m) (hsep : m.tree.Pairwise Separate)
    (hok : ∀ e ∈ m.tree, Valid e.range) (a : Addr) :
    ∃ res m', m.contains n (rangeSize a 1) = .ok (res, m') ∧
      (∀ e, res = some e → e ∈ m.tree ∧ e.range.contains a = true) ∧
      ((res = none → ∀ e ∈ m.tree, e.range.contains a = false) ↔ ¬Hidden m.tree a) := by
  obtain ⟨hsorted, hcache⟩ := build_spec hbuild
  obtain ⟨res, hres, hnone⟩ := search_finds hsorted hsep hok a
  have hmem (e) (he : res = some e) : e ∈ m.tree ∧ e.range.contains a = true := by
    obtain ⟨hmem, htrue⟩ := search_mem (he ▸ hres)
    rw [isSubset_rangeSize (hok e hmem)] at htrue
    exact ⟨hmem, Except.ok.inj htrue⟩
  unfold contains find
  rw [hcache]
  refine ⟨res, res.elim m (m.addNewEntryToCache n ·.id),
    bind_eq_ok.mpr ⟨none, rfl, bind_eq_ok.mpr ⟨res, hres, ?_⟩⟩, hmem, hnone⟩
  cases res <;> rfl


/-- The ranges of a group of four that start at `0x80`, whose bits 7 and 6 are 2. -/
def quarter (i : Nat) : AddrRange := ⟨0x80, 0x17f, 7, 0, 2, BitVec.ofNat 8 i⟩

theorem contains_finds_quarter :
    ∃ m, build 0 ((range 4).map fun i => (quarter i, ())) = .ok m ∧
      ∃ res m', m.contains 0 (rangeSize 0xc0 1) = .ok (res, m') ∧
        (res = none → ∀ e ∈ m.tree, e.range.contains 0xc0 = false) := by
  have hsep : ((range 4).map fun i => (⟨i, quarter i, ()⟩ : RangeEntry Unit)).Pairwise Separate :=
    pairwise_map.mpr (pairwise_of_forall fun _ _ => .inl rfl)
  have hok : ∀ e ∈ (range 4).map fun i => (⟨i, quarter i, ()⟩ : RangeEntry Unit), Valid e.range := by
    intro e he
    obtain ⟨i, _, rfl⟩ := mem_map.mp he
    exact ⟨(by decide : (0x80 : Addr) ≤ 0x17f),
      fun _ => (by decide : (2 : BitVec 8) ≤ 7 + 1 ∧ (7 : BitVec 8) < 64)⟩
  obtain ⟨res, m', hres, -, hfound⟩ := contains_finds 0 ((range 4).map fun i => (quarter i, ()))
    ⟨(range 4).map fun i => ⟨i, quarter i, ()⟩, [], 4⟩ rfl hsep hok 0xc0
  refine ⟨_, rfl, res, m', hres, hfound.mpr ?_⟩
  rintro ⟨e, he, f, -, -, -, hstart, -⟩
  obtain ⟨i, _, rfl⟩ := mem_map.mp he
  cases hstart

/-- The entry with the match value 2 contains `0x80`, but `upper_bound` is the entry with the value 1
and the search goes backwards from there. -/
theorem contains_start_missed :
    ∃ m, build 0 ((range 4).map fun i => (quarter i, ())) = .ok m ∧
      (∃ e ∈ m.tree, e.range.contains 0x80 = true) ∧
      m.contains 0 (rangeSize 0x80 1) = .ok (none, m) :=
  ⟨_, rfl, by decide, rfl⟩

end Finding

end AddrRangeMap

end Drain
