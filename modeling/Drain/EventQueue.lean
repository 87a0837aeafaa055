import Drain.Lib.Holds

/-! The event queue of the simulator (`eventq.cc`, `eventq_impl.hh`): a list of stacks
of events, linked by two pointers of each event. One queue, not in parallel mode. -/

namespace Drain

open Function (update)

/-- An event without its pointers. `queued` tells whether `queue` is the queue itself, and
the other flags are bits of `flags`. -/
structure Event where
  when : Nat
  priority : Int
  scheduled : Bool
  squashed : Bool
  managed : Bool
  isExitEvent : Bool
  isMainQueue : Bool
  initialized : Bool
  queued : Bool
  deriving DecidableEq, Repr

namespace Event

def lt (l r : Event) : Bool := l.when < r.when || (l.when == r.when && l.priority < r.priority)

def le (l r : Event) : Bool := l.when < r.when || (l.when == r.when && l.priority ≤ r.priority)

def eq (l r : Event) : Bool := l.when == r.when && l.priority == r.priority

end Event

inductive EventFailure where
  | inPast
  | alreadyScheduled
  | notScheduled
  | notInitialized
  | wrongQueue
  | exitEventManaged
  | emptyQueue
  | noProcess
  | eventNotFound
  | endlessLoop
  deriving DecidableEq, Repr

/-- The check that fails is one of the calls, not one of the queue itself. -/
def EventFailure.OfCaller (x : EventFailure) : Prop :=
  x ≠ .eventNotFound ∧ x ≠ .wrongQueue ∧ x ≠ .endlessLoop

/-- The queue and all events. `serving` are the events whose `process()` is running,
`stamp` and `inserted` record the order of the insertions, and `processed` the events that
were processed and when. -/
structure EventQueue (ι : Type) where
  event : ι → Event
  nextBin : ι → Option ι
  nextInBin : ι → Option ι
  head : Option ι
  curTick : Nat
  serving : List ι
  stamp : ι → Nat
  inserted : Nat
  processed : List (ι × Nat)

/-- What `debugVerify` has walked over: the events seen, and the time and priority of the last. -/
structure Verified (ι : Type) where
  map : List ι
  time : Nat
  priority : Int

namespace EventQueue

variable {ι : Type} [DecidableEq ι] (fuel : Nat) (q : EventQueue ι)

def setEvent (e : ι) (f : Event → Event) : EventQueue ι :=
  { q with event := update q.event e (f (q.event e)) }

def insertBefore (event : ι) (curr : Option ι) : EventQueue ι :=
  match curr with
  | none =>
    { q with nextBin := update q.nextBin event none, nextInBin := update q.nextInBin event none }
  | some c =>
    if (q.event event).lt (q.event c) then
      { q with
        nextBin := update q.nextBin event (some c)
        nextInBin := update q.nextInBin event none }
    else
      { q with
        nextBin := update q.nextBin event (q.nextBin c)
        nextInBin := update q.nextInBin event (some c) }

/-- The loop of `insert` and `remove` over the bins before that of `event`. -/
def findBin (event : ι) : Nat → ι → Option ι → Except EventFailure (ι × Option ι)
  | 0, _, _ => throw .endlessLoop
  | n + 1, prev, curr =>
    match curr with
    | none => pure (prev, none)
    | some c =>
      if (q.event c).lt (q.event event) then findBin event n c (q.nextBin c)
      else pure (prev, some c)

def insert (event : ι) : Except EventFailure (EventQueue ι) :=
  match q.head with
  | none => pure { q.insertBefore event none with head := some event }
  | some h =>
    if (q.event event).le (q.event h) then
      pure { q.insertBefore event (some h) with head := some event }
    else do
      let (prev, curr) ← q.findBin event fuel h (q.nextBin h)
      let q := q.insertBefore event curr
      pure { q with nextBin := update q.nextBin prev (some event) }

/-- The loop of `removeItem`: the entry of the bin above `event`. -/
def findInBin (event : ι) : Nat → ι → Option ι → Except EventFailure ι
  | 0, _, _ => throw .endlessLoop
  | n + 1, curr, next =>
    match next with
    | none => throw .eventNotFound
    | some x => if event = x then pure curr else findInBin event n x (q.nextInBin x)

def removeItem (event top : ι) : Except EventFailure (Option ι × EventQueue ι) :=
  if event = top then
    match q.nextInBin top with
    | none => pure (q.nextBin top, q)
    | some next => pure (some next, { q with nextBin := update q.nextBin next (q.nextBin top) })
  else do
    let curr ← q.findInBin event fuel top (q.nextInBin top)
    pure (some top, { q with nextInBin := update q.nextInBin curr (q.nextInBin event) })

def remove (event : ι) : Except EventFailure (EventQueue ι) :=
  match q.head with
  | none => throw .eventNotFound
  | some h => do
    require ((q.event event).queued = true) .wrongQueue
    if (q.event h).eq (q.event event) then
      let (top, q) ← q.removeItem fuel event h
      pure { q with head := top }
    else
      let (prev, curr) ← q.findBin event fuel h (q.nextBin h)
      match curr with
      | none => throw .eventNotFound
      | some c =>
        if (q.event c).eq (q.event event) then
          let (top, q) ← q.removeItem fuel event c
          pure { q with nextBin := update q.nextBin prev top }
        else throw .eventNotFound

/-- A managed event is deleted, which clears its flags, when it is not scheduled. -/
def release (e : ι) : EventQueue ι :=
  if (q.event e).managed = true ∧ (q.event e).scheduled = false then
    q.setEvent e fun x => { x with
      scheduled := false, squashed := false, managed := false, isExitEvent := false,
      isMainQueue := false, initialized := false }
  else q

def setWhen (e : ι) (when : Nat) : EventQueue ι :=
  { q.setEvent e ({ · with when := when, queued := true }) with
    stamp := update q.stamp e q.inserted
    inserted := q.inserted + 1 }

def schedule (e : ι) (when : Nat) : Except EventFailure (EventQueue ι) := do
  require (q.curTick ≤ when) .inPast
  require ((q.event e).scheduled = false) .alreadyScheduled
  require ((q.event e).initialized = true) .notInitialized
  let q ← (q.setWhen e when).insert fuel e
  pure (q.setEvent e ({ · with scheduled := true }))

def deschedule (e : ι) : Except EventFailure (EventQueue ι) := do
  require ((q.event e).scheduled = true) .notScheduled
  require ((q.event e).initialized = true) .notInitialized
  let q ← q.remove fuel e
  pure ((q.setEvent e ({ · with squashed := false, scheduled := false })).release e)

def reschedule (e : ι) (when : Nat) (always : Bool) : Except EventFailure (EventQueue ι) := do
  require (q.curTick ≤ when) .inPast
  require (always = true ∨ (q.event e).scheduled = true) .notScheduled
  require ((q.event e).initialized = true) .notInitialized
  let q ← if (q.event e).scheduled = true then q.remove fuel e else pure q
  let q ← (q.setWhen e when).insert fuel e
  pure (q.setEvent e ({ · with squashed := false, scheduled := true }))

def squash (e : ι) : EventQueue ι := q.setEvent e ({ · with squashed := true })

/-- The first part of `serviceOne`: the first event leaves the queue. -/
def takeFirst : Except EventFailure (ι × EventQueue ι) :=
  match q.head with
  | none => throw .emptyQueue
  | some h =>
    let q := q.setEvent h ({ · with scheduled := false })
    match q.nextInBin h with
    | some next =>
      pure (h, { q with nextBin := update q.nextBin next (q.nextBin h), head := some next })
    | none => pure (h, { q with head := q.nextBin h })

/-- `serviceOne` up to the call of `process()`; a squashed event is not processed. -/
def serviceOne : Except EventFailure (EventQueue ι) := do
  let (e, q) ← q.takeFirst
  if (q.event e).squashed = false then
    pure { q with
      curTick := (q.event e).when
      serving := e :: q.serving
      processed := (e, (q.event e).when) :: q.processed }
  else pure ((q.setEvent e ({ · with squashed := false })).release e)

/-- The rest of `serviceOne`, after `process()` has returned. -/
def processReturns : Except EventFailure (EventQueue ι) :=
  match q.serving with
  | [] => throw .noProcess
  | e :: serving =>
    let q := { q with serving := serving }
    if (q.event e).isExitEvent = true then do
      require ((q.event e).managed = false ∨ (q.event e).isMainQueue = false) .exitEventManaged
      pure q
    else pure (q.release e)

/-- The inner loop of `debugVerify`; `none` is the answer `false`. -/
def verifyInBin : Nat → Verified ι → Option ι → Except EventFailure (Option (Verified ι))
  | 0, _, _ => throw .endlessLoop
  | _ + 1, v, none => pure (some v)
  | n + 1, v, some e =>
    if (q.event e).when < v.time then pure none
    else if (q.event e).when = v.time ∧ (q.event e).priority < v.priority then pure none
    else if e ∈ v.map then pure none
    else verifyInBin n ⟨e :: v.map, (q.event e).when, (q.event e).priority⟩ (q.nextInBin e)

def verifyBins : Nat → Verified ι → Option ι → Except EventFailure Bool
  | 0, _, _ => throw .endlessLoop
  | _ + 1, _, none => pure true
  | n + 1, v, some e => do
    match ← q.verifyInBin fuel v (some e) with
    | none => pure false
    | some v => verifyBins n v (q.nextBin e)

def debugVerify : Except EventFailure Bool := q.verifyBins fuel fuel ⟨[], 0, 0⟩ q.head

end EventQueue

/-- The calls that are made on a queue. Those between a `serviceOne` and the matching
`processReturns` are the ones that `process()` makes. -/
inductive Call (ι : Type) where
  | schedule (e : ι) (when : Nat)
  | deschedule (e : ι)
  | reschedule (e : ι) (when : Nat) (always : Bool)
  | squash (e : ι)
  | serviceOne
  | processReturns

namespace EventQueue

variable {ι : Type} [DecidableEq ι] (fuel : Nat)

def perform (q : EventQueue ι) : Call ι → Except EventFailure (EventQueue ι)
  | .schedule e when => q.schedule fuel e when
  | .deschedule e => q.deschedule fuel e
  | .reschedule e when always => q.reschedule fuel e when always
  | .squash e => pure (q.squash e)
  | .serviceOne => q.serviceOne
  | .processReturns => q.processReturns

def run (calls : List (Call ι)) (q : EventQueue ι) : Except EventFailure (EventQueue ι) :=
  calls.foldlM (perform fuel) q

def new (event : ι → Event) : EventQueue ι where
  event := fun e => { event e with scheduled := false, queued := false }
  nextBin := fun _ => none
  nextInBin := fun _ => none
  head := none
  curTick := 0
  serving := []
  stamp := fun _ => 0
  inserted := 0
  processed := []

end EventQueue

end Drain
