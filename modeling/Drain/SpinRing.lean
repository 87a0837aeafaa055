import Drain.Lib.Words
import Drain.MeshNet
import Drain.Upstream

/-! Reading the spin ring from its file. The loop tests for the end of the file before it reads
a router id and a direction, so it accepts a list of such pairs when the last direction is the
last character of the file and nothing else. The entry that closes the ring is guessed from the
last router id. -/

namespace Drain

open List Option

namespace SpinRing

inductive RingError where
  | couldntOpen | illegalDirection | invalidArgument | outOfRange | ringStart | fuel
  deriving DecidableEq, Repr

structure Entry where
  routerId : Int
  inportDir : PortDirection
  deriving DecidableEq, Repr

abbrev CInt := {z : Int // -2147483648 ≤ z ∧ z ≤ 2147483647}

def isSpace (c : Char) : Bool :=
  c = ' ' || (9 ≤ c.toNat && c.toNat ≤ 13)

def decimal (ds : List Char) : Nat :=
  ds.foldl (fun n c => 10 * n + (c.toNat - 48)) 0

def sign : List Char → Bool × List Char
  | '-' :: s => (true, s)
  | '+' :: s => (false, s)
  | s => (false, s)

/-- The number at the front of the string; what follows it is ignored. -/
def stoi (s : List Char) : Except RingError CInt :=
  let (neg, s) := sign (s.dropWhile isSpace)
  let ds := s.takeWhile Char.isDigit
  if ds.isEmpty then .error .invalidArgument
  else
    let z : Int := if neg then -(decimal ds : Int) else decimal ds
    if h : -2147483648 ≤ z ∧ z ≤ 2147483647 then .ok ⟨z, h⟩ else .error .outOfRange

def expand (data1 : List Char) : Option PortDirection :=
  if data1 = ['N'] ∨ data1 = ['n'] then some .North
  else if data1 = ['E'] ∨ data1 = ['e'] then some .East
  else if data1 = ['S'] ∨ data1 = ['s'] then some .South
  else if data1 = ['W'] ∨ data1 = ['w'] then some .West
  else none

def name : PortDirection → List Char
  | .Local => ['L', 'o', 'c', 'a', 'l']
  | .North => ['N', 'o', 'r', 't', 'h']
  | .East => ['E', 'a', 's', 't']
  | .South => ['S', 'o', 'u', 't', 'h']
  | .West => ['W', 'e', 's', 't']
  | .Unknown => ['U', 'n', 'k', 'n', 'o', 'w', 'n']

/-- `while (!infile.eof())`. Both variables keep their contents from one round to the next. -/
def readLoop : Nat → List Char → List Char → IStream Char → List Entry →
    Except RingError (List Entry)
  | 0, _, _, _, _ => .error .fuel
  | fuel + 1, data, data1, infile, spinRing =>
    if infile.eofbit then .ok spinRing
    else
      let (data, infile) := infile.extract isSpace data
      let (data1, infile) := infile.extract isSpace data1
      match expand data1 with
      | none => .error .illegalDirection
      | some d => do
        let routerId ← stoi data
        readLoop fuel data (name d) infile (spinRing ++ [⟨routerId, d⟩])

def readRing (spinRing : List Entry) (text : List Char) : Except RingError (List Entry) :=
  readLoop (text.length + 1) [] [] (.ofList text) spinRing

/-- The first entry from the last router id, and a copy of it at the end. -/
def closeRing (numRows : Int) (spinRing : List Entry) : Except RingError (List Entry) :=
  let close (d : PortDirection) := spinRing.set 0 ⟨0, d⟩ ++ [⟨0, d⟩]
  match spinRing.getLast? with
  | none => .error .ringStart
  | some e =>
    if e.routerId = 1 then .ok (close .East)
    else if e.routerId = numRows then .ok (close .North)
    else .error .ringStart

/-- The file as far as it could be opened. -/
def initSpinRing (numRows : Int) : Option (List Char) → Except RingError (List Entry)
  | none => .error .couldntOpen
  | some text => do
    let spinRing ← readRing [⟨-1, .Unknown⟩] text
    closeRing numRows spinRing

/-! ### The words of the file -/

def entriesOf : List (List Char) → Except RingError (List Entry)
  | [] => .ok []
  | [_] => .error .illegalDirection
  | t :: u :: ws =>
    match expand u with
    | none => .error .illegalDirection
    | some d => do
      let routerId ← stoi t
      let es ← entriesOf ws
      .ok (⟨routerId, d⟩ :: es)

def ringOf (spinRing : List Entry) (text : List Char) : Except RingError (List Entry) := do
  let es ← entriesOf (words isSpace text)
  if endsInWord isSpace text then .ok (spinRing ++ es) else .error .illegalDirection

theorem expand_name (d : PortDirection) : expand (name d) = none := by
  cases d <;> decide

theorem readLoop_succ (fuel : Nat) (data data1 text : List Char) (spinRing : List Entry) :
    readLoop (fuel + 1) data data1 (.ofList text) spinRing =
      let x := (IStream.ofList text).extract isSpace data
      let y := x.2.extract isSpace data1
      match expand y.1 with
      | none => .error .illegalDirection
      | some d => stoi x.1 >>= fun routerId =>
        readLoop fuel x.1 (name d) y.2 (spinRing ++ [⟨routerId, d⟩]) := rfl

theorem readLoop_eq {fuel : Nat} {data data1 text : List Char} {spinRing : List Entry}
    (hfuel : text.length < fuel) (hdata1 : expand data1 = none) :
    readLoop fuel data data1 (.ofList text) spinRing = ringOf spinRing text := by
  induction fuel generalizing data data1 text spinRing with
  | zero => omega
  | succ fuel ih =>
    rw [readLoop_succ]
    match hw : words isSpace text with
    | [] =>
      simp only [IStream.extract_of_words_nil hw]
      simp [IStream.extract, hdata1, ringOf, hw, entriesOf, endsInWord_of_words_nil hw]
    | [t] =>
      obtain ⟨r, hr, hwr, _, _⟩ := IStream.extract_of_words_cons data hw
      simp only [hr, IStream.extract_after_last hwr, hdata1, ringOf, hw, entriesOf]
      rfl
    | t :: u :: ws =>
      obtain ⟨r, hr, hwr, hlt, hend⟩ := IStream.extract_of_words_cons data hw
      obtain ⟨r', hr', hwr', hlt', hend'⟩ := IStream.extract_of_words_cons data1 hwr
      have hne : r.isEmpty = false := congrArg IStream.eofbit (IStream.eq_ofList_of_words_cons hwr)
      simp only [hr, IStream.eq_ofList_of_words_cons hwr, hr', ringOf, hw, entriesOf]
      cases expand u with
      | none => rfl
      | some d =>
        cases stoi t with
        | error e => rfl
        | ok z =>
          simp only [ok_bind]
          rw [hend, hne, Bool.false_or, hend']
          cases r' with
          | nil =>
            cases fuel with
            | zero => simp at hlt'; omega
            | succ fuel => simp [readLoop, ← hwr', entriesOf]
          | cons c r' =>
            change readLoop fuel t (name d) (.ofList (c :: r')) _ = _
            rw [ih (by omega) (expand_name d), ringOf, hwr']
            cases entriesOf ws with
            | error e => rfl
            | ok es => simp

theorem readRing_eq (spinRing : List Entry) (text : List Char) :
    readRing spinRing text = ringOf spinRing text :=
  readLoop_eq (Nat.lt_succ_self _) rfl

/-! ### Texts that list router ids and directions -/

/-- A decimal numeral of a number, with a sign if the number is negative. -/
def Numeral (t : List Char) (z : Int) : Prop :=
  ∃ ds : List Char, ds ≠ [] ∧ (∀ c ∈ ds, c.isDigit = true) ∧
    ((t = ds ∧ z = decimal ds) ∨ (t = '-' :: ds ∧ z = -(decimal ds : Int)))

inductive Compass where
  | N | E | S | W
  deriving DecidableEq, Repr

namespace Compass

def upper : Compass → List Char
  | N => ['N'] | E => ['E'] | S => ['S'] | W => ['W']

def lower : Compass → List Char
  | N => ['n'] | E => ['e'] | S => ['s'] | W => ['w']

def dirn : Compass → PortDirection
  | N => .North | E => .East | S => .South | W => .West

end Compass

/-- The words are words for the ids and the letters of the pairs, in their order. -/
inductive Tokens (reads : List Char → CInt → Prop) :
    List (CInt × Compass) → List (List Char) → Prop where
  | nil : Tokens reads [] []
  | cons {z : CInt} {c : Compass} {t u : List Char} {ps : List (CInt × Compass)}
      {ws : List (List Char)} : reads t z → u = c.upper ∨ u = c.lower → Tokens reads ps ws →
      Tokens reads ((z, c) :: ps) (t :: u :: ws)

/-- The text lists the pairs, with white space before, between and behind the words. -/
def Renders (ps : List (CInt × Compass)) (text : List Char) : Prop :=
  Tokens (fun t z => Numeral t z) ps (words isSpace text)

/-- As far as `stoi` looks, the text lists the pairs. -/
def Scans (ps : List (CInt × Compass)) (text : List Char) : Prop :=
  Tokens (fun t z => stoi t = .ok z) ps (words isSpace text)

def toEntry (p : CInt × Compass) : Entry := ⟨p.1, p.2.dirn⟩

theorem expand_eq_some {u : List Char} {d : PortDirection} :
    expand u = some d ↔ ∃ c : Compass, (u = c.upper ∨ u = c.lower) ∧ c.dirn = d := by
  constructor
  · intro h
    unfold expand at h
    split_ifs at h with hN hE hS hW
    · exact ⟨.N, hN, some.inj h⟩
    · exact ⟨.E, hE, some.inj h⟩
    · exact ⟨.S, hS, some.inj h⟩
    · exact ⟨.W, hW, some.inj h⟩
  · rintro ⟨c, rfl | rfl, rfl⟩ <;> cases c <;> decide

theorem not_isSpace_of_isDigit {c : Char} (h : c.isDigit = true) : isSpace c = false := by
  simp only [Char.isDigit, ge_iff_le, Bool.and_eq_true, decide_eq_true_eq,
    UInt32.le_iff_toNat_le] at h
  have hlow : 48 ≤ c.toNat := h.1
  have hne : c ≠ ' ' := fun hc => by
    rw [hc] at hlow
    revert hlow
    decide
  simp [isSpace, hne]
  omega

theorem sign_digits {ds : List Char} (hne : ds ≠ []) (hds : ∀ c ∈ ds, c.isDigit = true) :
    sign (ds.dropWhile isSpace) = (false, ds) := by
  cases ds with
  | nil => exact absurd rfl hne
  | cons c ds =>
    have hc := hds c (by simp)
    rw [dropWhile_cons_of_neg (by simp [not_isSpace_of_isDigit hc])]
    unfold sign
    split
    · next heq => cases heq; exact absurd hc (by decide)
    · next heq => cases heq; exact absurd hc (by decide)
    · rfl

theorem stoi_of_numeral {t : List Char} {z : Int} (h : Numeral t z) :
    stoi t = if hz : -2147483648 ≤ z ∧ z ≤ 2147483647 then .ok ⟨z, hz⟩ else .error .outOfRange := by
  obtain ⟨ds, hne, hds, ⟨rfl, hz⟩ | ⟨rfl, hz⟩⟩ := h
  · have htake : t.takeWhile Char.isDigit = t := takeWhile_eq_self_iff.mpr hds
    simp [stoi, sign_digits hne hds, htake, hne, hz]
  · have htake : ds.takeWhile Char.isDigit = ds := takeWhile_eq_self_iff.mpr hds
    have hsign : sign (('-' :: ds).dropWhile isSpace) = (true, ds) := rfl
    simp [stoi, hsign, htake, hne, hz]

theorem Renders.scans {ps : List (CInt × Compass)} {text : List Char} (h : Renders ps text) :
    Scans ps text := by
  unfold Renders at h
  unfold Scans
  generalize words isSpace text = ws at h ⊢
  induction h with
  | nil => exact .nil
  | @cons z c t u ps ws ht hu _ ih => exact .cons ((stoi_of_numeral ht).trans (dif_pos z.2)) hu ih

theorem entriesOf_eq_ok {ws : List (List Char)} {es : List Entry} :
    entriesOf ws = .ok es ↔ ∃ ps, Tokens (fun t z => stoi t = .ok z) ps ws ∧ ps.map toEntry = es := by
  constructor
  · intro h
    induction ws using entriesOf.induct generalizing es with
    | case1 =>
      cases h
      exact ⟨[], .nil, rfl⟩
    | case2 t => cases h
    | case3 t u ws hu => simp [entriesOf, hu] at h
    | case4 t u ws d hu ih =>
      simp only [entriesOf, hu, bind_eq_ok] at h
      obtain ⟨z, hz, es, hes, hok⟩ := h
      cases hok
      obtain ⟨ps, hps, rfl⟩ := ih hes
      obtain ⟨c, hc, rfl⟩ := expand_eq_some.mp hu
      exact ⟨(z, c) :: ps, .cons hz hc hps, rfl⟩
  · rintro ⟨ps, h, rfl⟩
    induction h with
    | nil => rfl
    | @cons z c t u ps ws ht hu _ ih =>
      have hexpand : expand u = some c.dirn := expand_eq_some.mpr ⟨c, hu, rfl⟩
      simp [entriesOf, hexpand, ht, ih, toEntry]

theorem readRing_eq_ok {spinRing ring : List Entry} {text : List Char} :
    readRing spinRing text = .ok ring ↔
      endsInWord isSpace text ∧ ∃ ps, Scans ps text ∧ spinRing ++ ps.map toEntry = ring := by
  rw [readRing_eq, ringOf, bind_eq_ok]
  constructor
  · rintro ⟨es, hes, hend⟩
    obtain ⟨ps, hps, rfl⟩ := entriesOf_eq_ok.mp hes
    split_ifs at hend with hword
    exact ⟨hword, ps, hps, Except.ok.inj hend⟩
  · rintro ⟨hword, ps, hps, rfl⟩
    exact ⟨_, entriesOf_eq_ok.mpr ⟨ps, hps, rfl⟩, if_pos hword⟩

theorem Renders.readRing_iff {ps : List (CInt × Compass)} {text : List Char} (h : Renders ps text)
    (spinRing : List Entry) :
    readRing spinRing text = .ok (spinRing ++ ps.map toEntry) ↔ endsInWord isSpace text :=
  readRing_eq_ok.trans ⟨And.left, fun hword => ⟨hword, ps, h.scans, rfl⟩⟩

/-- A text that lists pairs is read as these pairs if and only if it ends in a word. Another text
is accepted if and only if it ends in a word and `stoi` takes it for such a list. -/
theorem readRing_renders (spinRing : List Entry) :
    (∀ ps text, ps ≠ [] → Renders ps text →
      (readRing spinRing text = .ok (spinRing ++ ps.map toEntry) ↔ endsInWord isSpace text)) ∧
    ∀ text, (¬∃ ps, ps ≠ [] ∧ Renders ps text) →
      ((∃ e, readRing spinRing text = .error e) ↔
        ¬(endsInWord isSpace text ∧ ∃ ps, Scans ps text)) := by
  refine ⟨fun ps text _ h => h.readRing_iff spinRing, fun text _ => ?_⟩
  cases hread : readRing spinRing text with
  | error e =>
    refine iff_of_true ⟨e, rfl⟩ ?_
    rintro ⟨hword, ps, hps⟩
    cases hread.symm.trans (readRing_eq_ok.mpr ⟨hword, ps, hps, rfl⟩)
  | ok ring =>
    obtain ⟨hword, ps, hps, -⟩ := readRing_eq_ok.mp hread
    exact iff_of_false (fun ⟨e, he⟩ => nomatch he) fun h => h ⟨hword, ps, hps⟩

theorem numeral_digit {c : Char} (hc : c.isDigit = true) : Numeral [c] (decimal [c]) :=
  ⟨[c], by simp, by simpa using hc, .inl ⟨rfl, rfl⟩⟩

theorem readRing_renders_pair :
    readRing [] ['1', ' ', 'W', '\n', '0', ' ', 'e'] = .ok [⟨1, .West⟩, ⟨0, .East⟩] ∧
      ∃ e, readRing [] ['1', 'x', ' ', 'X'] = .error e := by
  constructor
  · have hps : Renders [(⟨1, by decide⟩, .W), (⟨0, by decide⟩, .E)]
        ['1', ' ', 'W', '\n', '0', ' ', 'e'] :=
      .cons (numeral_digit rfl) (.inl rfl) (.cons (numeral_digit rfl) (.inr rfl) .nil)
    exact ((readRing_renders []).1 _ _ (by simp) hps).mpr rfl
  · have hscans : ¬∃ ps, Scans ps ['1', 'x', ' ', 'X'] := by
      rintro ⟨ps, h⟩
      have hwords : words isSpace ['1', 'x', ' ', 'X'] = [['1', 'x'], ['X']] := by decide
      rw [Scans, hwords] at h
      cases h with
      | @cons z c _ _ _ _ _ hu _ => cases c <;> rcases hu with hu | hu <;> cases hu
    exact ((readRing_renders []).2 _ fun ⟨ps, _, h⟩ => hscans ⟨ps, h.scans⟩).mpr
      fun h => hscans h.2

/-- A final newline is refused, and letters behind a router id are not noticed. -/
theorem readRing_newline_junk :
    (Renders [(⟨1, by decide⟩, .W)] ['1', ' ', 'W', '\n'] ∧
      readRing [] ['1', ' ', 'W', '\n'] = .error .illegalDirection) ∧
    (¬∃ ps, Renders ps ['1', 'x', ' ', 'N']) ∧
      readRing [] ['1', 'x', ' ', 'N'] = .ok [⟨1, .North⟩] := by
  refine ⟨⟨.cons (numeral_digit rfl) (.inl rfl) .nil, by decide⟩, ?_, by decide⟩
  rintro ⟨ps, h⟩
  have hwords : words isSpace ['1', 'x', ' ', 'N'] = [['1', 'x'], ['N']] := by decide
  rw [Renders, hwords] at h
  cases h with
  | cons ht _ _ =>
    obtain ⟨ds, _, hds, ⟨rfl, _⟩ | ⟨h, _⟩⟩ := ht
    · exact absurd (hds 'x' (by simp)) (by decide)
    · cases h

/-! ### The entry that closes the ring -/

def ofSpinStruct (e : SpinStruct) : Entry := ⟨e.routerId, e.inportDir⟩

/-- The router on side `d` of `r` in the mesh is `r'`. -/
def Neighbour (net : Net) (r : Nat) (d : PortDirection) (r' : Nat) : Prop :=
  r < net.numRouters ∧ r' < net.numRouters ∧ gridStep net.numCols r d r'

instance (net : Net) (r : Nat) (d : PortDirection) (r' : Nat) : Decidable (Neighbour net r d r') :=
  inferInstanceAs (Decidable (_ ∧ _ ∧ _))

/-- Each entry is entered from the router of the one before it, the first from `r`. -/
def Walk (net : Net) : Nat → List SpinStruct → Prop
  | _, [] => True
  | r, e :: ring => Neighbour net e.routerId e.inportDir r ∧ Walk net e.routerId ring

instance Walk.decidable (net : Net) : ∀ r ring, Decidable (Walk net r ring)
  | _, [] => inferInstanceAs (Decidable True)
  | _, e :: ring =>
    have := Walk.decidable net e.routerId ring
    inferInstanceAs (Decidable (_ ∧ _))

structure ClosedWalk (net : Net) (ring : List SpinStruct) (last : SpinStruct) : Prop where
  getLast : ring.getLast? = some last
  walk : Walk net 0 ring
  back : ∃ d, Neighbour net 0 d last.routerId

def closed (d : PortDirection) (ring : List SpinStruct) : List SpinStruct :=
  ⟨0, d⟩ :: ring ++ [⟨0, d⟩]

def Follows (net : Net) (a b : SpinStruct) : Prop :=
  net.getUpstreamId b.inportDir b.routerId = .ok (a.routerId : Int) ∧
    ∃ d, Neighbour net b.routerId d a.routerId

section Close

variable {net : Net} {ring : List SpinStruct} {last : SpinStruct} {text : List Char}

theorem Walk.isChain {e : SpinStruct} (h : Walk net e.routerId ring) :
    (e :: ring).IsChain (Follows net) := by
  induction ring generalizing e with
  | nil => exact .singleton e
  | cons e' ring ih =>
    obtain ⟨hstep, hwalk⟩ := h
    exact .cons_cons ⟨getUpstreamId_of_gridStep hstep.2.2, _, hstep⟩ (ih hwalk)

theorem ClosedWalk.last_eq (h : ClosedWalk net ring last) :
    last.routerId = 1 ∨ last.routerId = net.numCols := by
  obtain ⟨d, _, _, hstep⟩ := h.back
  have hcols := net.numCols_pos
  cases d <;> simp only [gridStep] at hstep <;> omega

theorem initSpinRing_eq (hread : readRing [⟨-1, .Unknown⟩] text =
      .ok (⟨-1, .Unknown⟩ :: ring.map ofSpinStruct)) (numRows : Nat)
    (hlast : ring.getLast? = some last) :
    initSpinRing numRows (some text) =
      if last.routerId = 1 then .ok ((closed .East ring).map ofSpinStruct)
      else if last.routerId = numRows then .ok ((closed .North ring).map ofSpinStruct)
      else .error .ringStart := by
  have hlast' : (⟨-1, .Unknown⟩ :: ring.map ofSpinStruct).getLast? = some (ofSpinStruct last) := by
    simp [getLast?_cons, hlast]
  have hone : ((last.routerId : Int) = 1) = (last.routerId = 1) := by
    simp
  simp only [initSpinRing, hread, ok_bind, closeRing, hlast', ofSpinStruct, hone, Nat.cast_inj]
  simp [closed, ofSpinStruct]

theorem initSpinRing_closed (hread : readRing [⟨-1, .Unknown⟩] text =
      .ok (⟨-1, .Unknown⟩ :: ring.map ofSpinStruct))
    (hwalk : ClosedWalk net ring last) (h : last.routerId = 1 ∨ net.numRows = net.numCols) :
    ∃ d, initSpinRing net.numRows (some text) = .ok ((closed d ring).map ofSpinStruct) ∧
      net.getUpstreamId d 0 = .ok (last.routerId : Int) ∧
      (closed d ring).IsChain (Follows net) := by
  obtain ⟨d, hd, hup⟩ : ∃ d, initSpinRing net.numRows (some text) =
      .ok ((closed d ring).map ofSpinStruct) ∧ net.getUpstreamId d 0 = .ok (last.routerId : Int) := by
    rw [initSpinRing_eq hread _ hwalk.getLast]
    by_cases hone : last.routerId = 1
    · exact ⟨.East, if_pos hone, by simp [Net.getUpstreamId, hone]; rfl⟩
    · have hcols := hwalk.last_eq.resolve_left hone
      have hrows : last.routerId = net.numRows := hcols.trans (h.resolve_left hone).symm
      exact ⟨.North, by rw [if_neg hone, if_pos hrows], by simp [Net.getUpstreamId, hcols]; rfl⟩
  refine ⟨d, hd, hup, ?_⟩
  refine List.IsChain.append (Walk.isChain hwalk.walk) (.singleton _) fun x hx y hy => ?_
  have hx' : last = x := by
    simpa [getLast?_cons, hwalk.getLast] using hx
  have hy' : ⟨0, d⟩ = y := by simpa using hy
  rw [← hx', ← hy']
  exact ⟨hup, hwalk.back⟩

theorem initSpinRing_refuses (hread : readRing [⟨-1, .Unknown⟩] text =
      .ok (⟨-1, .Unknown⟩ :: ring.map ofSpinStruct))
    (hwalk : ClosedWalk net ring last) (h : ¬(last.routerId = 1 ∨ net.numRows = net.numCols)) :
    initSpinRing net.numRows (some text) = .error .ringStart := by
  obtain ⟨hlast, hsquare⟩ := not_or.mp h
  have hcols := hwalk.last_eq.resolve_left hlast
  rw [initSpinRing_eq hread _ hwalk.getLast, if_neg hlast, if_neg (by omega)]

theorem Renders.readRing_ring {ps : List (CInt × Compass)} (hps : Renders ps text)
    (hring : ps.map toEntry = ring.map ofSpinStruct) :
    readRing [⟨-1, .Unknown⟩] text = .ok (⟨-1, .Unknown⟩ :: ring.map ofSpinStruct) ↔
      endsInWord isSpace text :=
  hring ▸ hps.readRing_iff [⟨-1, .Unknown⟩]

/-- The ring of a file closes if and only if the file ends in a word and the ring ends east of
router 0, or north of it in a square mesh. -/
theorem initSpinRing_closes {ps : List (CInt × Compass)} (hps : Renders ps text)
    (hring : ps.map toEntry = ring.map ofSpinStruct) (hwalk : ClosedWalk net ring last) :
    (∃ d, initSpinRing net.numRows (some text) = .ok ((closed d ring).map ofSpinStruct) ∧
      net.getUpstreamId d 0 = .ok (last.routerId : Int) ∧ (closed d ring).IsChain (Follows net)) ↔
    endsInWord isSpace text ∧ (last.routerId = 1 ∨ net.numRows = net.numCols) := by
  refine ⟨fun ⟨d, hd, _⟩ => ?_, fun h => initSpinRing_closed ((hps.readRing_ring hring).mpr h.1) hwalk h.2⟩
  have hword : endsInWord isSpace text := by
    obtain ⟨es, hread, -⟩ := bind_eq_ok.mp hd
    exact (readRing_eq_ok.mp hread).1
  refine ⟨hword, by_contra fun h => ?_⟩
  cases hd.symm.trans (initSpinRing_refuses ((hps.readRing_ring hring).mpr hword) hwalk h)

end Close

theorem initSpinRing_closes_square :
    ∃ d, initSpinRing 2 (some ['1', ' ', 'W', '\n', '3', ' ', 'S', '\n', '2', ' ', 'E']) =
      .ok ((closed d [⟨1, .West⟩, ⟨3, .South⟩, ⟨2, .East⟩]).map ofSpinStruct) := by
  have hwalk : ClosedWalk (meshNet 2 2 (finRange 4) (by decide) (by decide))
      [⟨1, .West⟩, ⟨3, .South⟩, ⟨2, .East⟩] ⟨2, .East⟩ :=
    ⟨rfl, by decide, .North, by decide⟩
  have hps : Renders [(⟨1, by decide⟩, .W), (⟨3, by decide⟩, .S), (⟨2, by decide⟩, .E)]
      ['1', ' ', 'W', '\n', '3', ' ', 'S', '\n', '2', ' ', 'E'] :=
    .cons (numeral_digit rfl) (.inl rfl) (.cons (numeral_digit rfl) (.inl rfl)
      (.cons (numeral_digit rfl) (.inl rfl) .nil))
  obtain ⟨d, hd, _⟩ := (initSpinRing_closes hps rfl hwalk).mpr ⟨rfl, .inr rfl⟩
  exact ⟨d, hd⟩

/-- The ring 0, 1, 4, 3 around two cells of a mesh with two rows and three columns. -/
theorem initSpinRing_two_by_three :
    ∃ (net : Net) (ps : List (CInt × Compass)) (text : List Char) (ring : List SpinStruct)
      (last : SpinStruct),
      net.numRows = 2 ∧ net.numCols = 3 ∧ net.FullMesh ∧ Renders ps text ∧
      endsInWord isSpace text ∧ ps.map toEntry = ring.map ofSpinStruct ∧
      ClosedWalk net ring last ∧ initSpinRing net.numRows (some text) = .error .ringStart := by
  have hwalk : ClosedWalk (meshNet 2 3 (finRange 6) (by decide) (by decide))
      [⟨1, .West⟩, ⟨4, .South⟩, ⟨3, .East⟩] ⟨3, .East⟩ :=
    ⟨rfl, by decide, .North, by decide⟩
  have hps : Renders [(⟨1, by decide⟩, .W), (⟨4, by decide⟩, .S), (⟨3, by decide⟩, .E)]
      ['1', ' ', 'W', '\n', '4', ' ', 'S', '\n', '3', ' ', 'E'] :=
    .cons (numeral_digit rfl) (.inl rfl) (.cons (numeral_digit rfl) (.inl rfl)
      (.cons (numeral_digit rfl) (.inl rfl) .nil))
  exact ⟨_, _, _, _, _, rfl, rfl, fullMesh_of_topology rfl rfl, hps, rfl, rfl, hwalk,
    initSpinRing_refuses ((hps.readRing_ring rfl).mpr rfl) hwalk (by decide)⟩

end SpinRing

end Drain
