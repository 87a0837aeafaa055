import Mathlib

/-! Flits, credits and the buffers that hold them (`CommonTypes.hh`, `flit.hh`,
`Credit.hh`, `flitBuffer.hh`), and the ways in which a run can stop early. -/

namespace Drain

inductive PortDirection where
  | Local | North | East | South | West | Unknown
  deriving DecidableEq, Repr

inductive FlitType where
  | head | body | tail | headTail
  deriving DecidableEq, Repr

inductive VcState where
  | idle | vcAb | active
  deriving DecidableEq, Repr

inductive FlitStage where
  | I | VA | SA | ST | LT
  deriving DecidableEq, Repr

/-- The assertions, `fatal` calls and invalid accesses that end a run. -/
inductive Failure where
  | creditAboveMax
  | creditBelowZero
  | headAtBusyVc
  | bodyAtIdleVc
  | stageOfIdleVc
  | vcNotEmpty
  | emptyBuffer
  | portRange
  | noRoute
  | noHops
  | customRouting
  | nullRouter
  | wrongDirection
  | unknownDirection
  | vnetRange
  | noFreeVc
  | uturnNotRequested
  | uturnStuck
  | flitType
  | lockHeld
  | linkBusy
  | spinPrefRouter
  | spinHops
  | spinUpstream
  | spinLocal
  | spinCount
  | spinBusyVc
  | badOption
  | delayNotPositive
  | stallMapNegative
  | cyclesNegative
  | markedCount
  | addressOffset
  deriving DecidableEq, Repr

abbrev NetDest := List Nat

def intersectionIsNotEmpty (a b : NetDest) : Bool :=
  a.any fun d => b.contains d

structure RouteInfo where
  vnet : Nat
  netDest : NetDest
  srcNi : Nat
  srcRouter : Nat
  destNi : Nat
  destRouter : Nat
  hopsTraversed : Int
  deriving DecidableEq, Repr

-- `ptr` is the address of the flit object: buffers hold pointers to flits
structure Flit where
  ptr : Nat
  id : Nat
  vnet : Nat
  vc : Nat
  route : RouteInfo
  time : Nat
  type : FlitType
  outport : Nat
  outportDir : PortDirection
  stage : FlitStage × Nat
  requestUturn : Bool
  hopsNeededBeforeSpin : Int
  hopsNeededAfterSpin : Int
  deriving DecidableEq, Repr

def newFlit (ptr id vc vnet : Nat) (route : RouteInfo) (size curTime : Nat) : Flit where
  ptr := ptr
  id := id
  vnet := vnet
  vc := vc
  route := route
  time := curTime
  type :=
    if size = 1 then .headTail
    else if id = 0 then .head
    else if id = size - 1 then .tail
    else .body
  outport := 0
  outportDir := .Unknown
  stage := (.I, curTime)
  requestUturn := false
  hopsNeededBeforeSpin := -1
  hopsNeededAfterSpin := -1

def Flit.isStage (f : Flit) (stage : FlitStage) (time : Nat) : Bool :=
  stage == f.stage.1 && f.stage.2 ≤ time

def Flit.incrementHops (f : Flit) : Flit :=
  { f with route := { f.route with hopsTraversed := f.route.hopsTraversed + 1 } }

def Flit.isHead (f : Flit) : Bool := f.type == .head || f.type == .headTail

def Flit.isTail (f : Flit) : Bool := f.type == .tail || f.type == .headTail

structure Credit where
  vc : Nat
  isFreeSignal : Bool
  time : Nat
  deriving DecidableEq, Repr

class Timed (α : Type) where
  time : α → Nat
  id : α → Nat

instance : Timed Flit := ⟨Flit.time, Flit.id⟩

instance : Timed Credit := ⟨Credit.time, fun _ => 0⟩

section Buffer

variable {α : Type} [Timed α]

def greater (n₁ n₂ : α) : Bool :=
  if Timed.time n₁ = Timed.time n₂ then Timed.id n₂ < Timed.id n₁
  else Timed.time n₂ < Timed.time n₁

-- a `flitBuffer` is a heap with its least element in front; the whole list is kept in order
def bufferInsert (x : α) : List α → List α
  | [] => [x]
  | y :: ys => if greater y x then x :: y :: ys else y :: bufferInsert x ys

def isReady (b : List α) (curTime : Nat) : Bool :=
  match b with
  | [] => false
  | x :: _ => Timed.time x ≤ curTime

def peekTopFlit (b : List α) : Except Failure α :=
  match b with
  | [] => .error .emptyBuffer
  | x :: _ => .ok x

def getTopFlit (b : List α) : Except Failure (α × List α) :=
  match b with
  | [] => .error .emptyBuffer
  | x :: xs => .ok (x, xs)

end Buffer

end Drain
