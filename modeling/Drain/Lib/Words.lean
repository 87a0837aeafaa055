import Mathlib

/-! The words of a text, and an input stream that reads them one at a time. The stream
keeps its end-of-file and failure bits as a formatted extraction leaves them: the word that
reaches the end of the text sets the first, an extraction that finds no word sets both and
leaves the variable alone. -/

namespace Drain

open List

universe u

variable {α : Type u} {p : α → Bool} {l w : List α} {ws : List (List α)} {c : α}

/-- The maximal runs of elements that are no separators. -/
def words (p : α → Bool) (l : List α) : List (List α) :=
  (l.splitOnP p).filter fun w => !w.isEmpty

def endsInWord (p : α → Bool) (l : List α) : Bool :=
  l.getLast?.any fun c => !p c

@[simp] theorem words_nil : words p [] = [] := rfl

theorem words_cons_sep (hc : p c) : words p (c :: l) = words p l := by
  simp [words, splitOnP_cons_eq_if_modifyHead, hc]

theorem words_dropWhile : words p (l.dropWhile p) = words p l := by
  induction l with
  | nil => rfl
  | cons c l ih =>
    by_cases hc : p c
    · rw [dropWhile_cons_of_pos hc, ih, words_cons_sep hc]
    · rw [dropWhile_cons_of_neg hc]

theorem words_word (hw : w ≠ []) (h : ∀ c ∈ w, p c = false) : words p w = [w] := by
  simp [words, splitOnP_eq_singleton h, hw]

theorem words_word_append (hw : w ≠ []) (h : ∀ c ∈ w, p c = false) (hc : p c) :
    words p (w ++ c :: l) = w :: words p (c :: l) := by
  rw [words_cons_sep hc]
  simp [words, splitOnP_append_cons_of_forall_mem h c hc, hw]

theorem endsInWord_append (hl : l ≠ []) : endsInWord p (w ++ l) = endsInWord p l := by
  unfold endsInWord
  rw [getLast?_append, getLast?_eq_some_getLast hl]
  rfl

theorem endsInWord_dropWhile (hl : l.dropWhile p ≠ []) :
    endsInWord p (l.dropWhile p) = endsInWord p l := by
  have := endsInWord_append (p := p) (w := l.takeWhile p) hl
  rw [takeWhile_append_dropWhile] at this
  exact this.symm

theorem endsInWord_word (hw : w ≠ []) (h : ∀ c ∈ w, p c = false) : endsInWord p w = true := by
  simp [endsInWord, getLast?_eq_some_getLast hw, h _ (getLast_mem hw)]

theorem head_dropWhile {q : α → Bool} (h : l.dropWhile q = c :: w) : q c = false := by
  have := head_dropWhile_not q (l := l) (by simp [h])
  simpa [h] using this

theorem words_first (h : l.takeWhile (fun c => !p c) ≠ []) :
    words p l = l.takeWhile (fun c => !p c) :: words p (l.dropWhile fun c => !p c) := by
  have hall : ∀ c ∈ l.takeWhile fun c => !p c, p c = false := fun c hc => by
    simpa using mem_takeWhile_imp hc
  have happend := takeWhile_append_dropWhile (p := fun c => !p c) (l := l)
  cases hafter : l.dropWhile fun c => !p c with
  | nil =>
    rw [hafter, append_nil] at happend
    rw [happend] at h hall ⊢
    exact words_word h hall
  | cons c r =>
    have hc : p c = true := by simpa using head_dropWhile hafter
    rw [hafter] at happend
    calc words p l = words p (l.takeWhile (fun c => !p c) ++ c :: r) := by rw [happend]
      _ = _ := words_word_append h hall hc

theorem dropWhile_of_words_nil (h : words p l = []) : l.dropWhile p = [] := by
  cases hr : l.dropWhile p with
  | nil => rfl
  | cons c r =>
    have hc := head_dropWhile hr
    rw [← words_dropWhile, hr, words_first (by simp [hc])] at h
    cases h

theorem endsInWord_of_words_nil (h : words p l = []) : endsInWord p l = false := by
  have hall := dropWhile_eq_nil_iff.mp (dropWhile_of_words_nil h)
  unfold endsInWord
  cases hl : l.getLast? with
  | none => rfl
  | some c => simp [hall c (mem_of_getLast? hl)]

structure IStream (α : Type u) where
  rest : List α
  eofbit : Bool
  failbit : Bool

namespace IStream

def ofList (l : List α) : IStream α := ⟨l, false, false⟩

/-- `is >> old`: the word read, or the old contents of the variable. -/
def extract (p : α → Bool) (old : List α) (is : IStream α) : List α × IStream α :=
  if is.eofbit || is.failbit then (old, { is with failbit := true })
  else
    let rest := is.rest.dropWhile p
    if rest.isEmpty then (old, ⟨[], true, true⟩)
    else
      let after := rest.dropWhile fun c => !p c
      (rest.takeWhile fun c => !p c, ⟨after, after.isEmpty, false⟩)

variable {old : List α}

theorem extract_of_words_nil (h : words p l = []) :
    (ofList l).extract p old = (old, ⟨[], true, true⟩) := by
  have hrest := dropWhile_of_words_nil h
  simp [extract, ofList, hrest]

theorem extract_of_words_cons (old : List α) (h : words p l = w :: ws) :
    ∃ r, (ofList l).extract p old = (w, ⟨r, r.isEmpty, false⟩) ∧ words p r = ws ∧
      r.length < l.length ∧ endsInWord p l = (r.isEmpty || endsInWord p r) := by
  cases hrest : l.dropWhile p with
  | nil =>
    rw [← words_dropWhile, hrest] at h
    cases h
  | cons c t =>
    have hc := head_dropWhile hrest
    have hne : (c :: t).takeWhile (fun c => !p c) ≠ [] := by simp [hc]
    rw [← words_dropWhile, hrest, words_first hne] at h
    obtain ⟨rfl, rfl⟩ := cons.inj h
    refine ⟨(c :: t).dropWhile fun c => !p c, by simp [extract, ofList, hrest], rfl, ?_, ?_⟩
    · have hsuffix := (dropWhile_suffix p (l := l)).length_le
      have hrest' := (dropWhile_suffix (fun c => !p c) (l := t)).length_le
      rw [hrest] at hsuffix
      simp [hc] at hsuffix ⊢
      omega
    · rw [← endsInWord_dropWhile (by simp [hrest]), hrest]
      have happend := takeWhile_append_dropWhile (p := fun c => !p c) (l := c :: t)
      cases hafter : (c :: t).dropWhile fun c => !p c with
      | nil =>
        rw [hafter, append_nil] at happend
        rw [← happend]
        refine endsInWord_word hne fun c hc => ?_
        simpa using mem_takeWhile_imp hc
      | cons d r =>
        rw [hafter] at happend
        rw [← happend]
        exact endsInWord_append (by simp)

theorem extract_after_last (h : words p l = []) :
    ((⟨l, l.isEmpty, false⟩ : IStream α).extract p old).1 = old := by
  cases l with
  | nil => rfl
  | cons c l => exact congrArg Prod.fst (extract_of_words_nil h)

theorem eq_ofList_of_words_cons (h : words p l = w :: ws) :
    (⟨l, l.isEmpty, false⟩ : IStream α) = ofList l := by
  cases l with
  | nil => cases h
  | cons c l => rfl

end IStream

end Drain
