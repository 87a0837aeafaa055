import Drain.NetworkInterface

/-! Runs of the network. In a scheduled run a consumer wakes up only for one of
its pending events and time advances only when no event of the current cycle is
left; the order of the wakeups within a cycle is free. -/

namespace Drain

open List

open Function (update)

inductive Action where
  | router (r : Nat)
  | ni (n : Nat) (slots : Nat → Bool)
  | link (l : Link)
  | creditLink (l : Link)
  | message (n vnet : Nat) (m : Message)
  | dequeueCallback (n : Nat)
  | tick

namespace Net

variable (net : Net)

def links : List Link :=
  (range net.nodes).flatMap (fun n => [.extIn n, .extOut n]) ++
    (range net.numRouters).flatMap fun r =>
      (net.outports r).filterMap fun p =>
        match p.link with
        | .int a b => some (.int a b)
        | _ => none

def consumers : List Consumer :=
  (range net.numRouters).map .router ++ (range net.nodes).map .ni ++
    net.links.map .link ++ net.links.map .creditLink

end Net

def insertMessage (m : Message) : List Message → List Message
  | [] => [m]
  | m' :: ms => if m.arrival < m'.arrival then m :: m' :: ms else m' :: insertMessage m ms

namespace State

variable (net : Net)

def popEvent (c : Consumer) (s : Core) : Core :=
  { s with agenda := update s.agenda c ((s.agenda c).pop s.curCycle) }

def enqueueMessage (n vnet : Nat) (m : Message) (s : State) : State :=
  { s with inNode := setEntry s.inNode n vnet (insertMessage m (s.inNode n vnet)) }
    |>.on (·.scheduleEventAbsolute (.ni n) m.arrival)

def perform (s : State) : Action → Except Failure State
  | .router r => (s.on (popEvent (.router r))).routerWakeup net true r
  | .ni n slots => (s.on (popEvent (.ni n))).niWakeup net n slots
  | .link l => pure (s.on fun c => linkWakeup net l (popEvent (.link l) c))
  | .creditLink l => pure (s.on fun c => creditLinkWakeup net l (popEvent (.creditLink l) c))
  | .message n vnet m => pure (s.enqueueMessage n vnet m)
  | .dequeueCallback n => pure (s.on (·.scheduleEvent (.ni n) 1))
  | .tick => pure (s.on fun c => { c with curCycle := c.curCycle + 1 })

/-- Consumers and nodes exist, and a message has distinct destinations and
arrives later. -/
def valid (s : State) : Action → Prop
  | .router r => r < net.numRouters
  | .ni n _ => n < net.nodes
  | .link l => l ∈ net.links
  | .creditLink l => l ∈ net.links
  | .message n vnet m => n < net.nodes ∧ vnet < net.virtualNetworks ∧ m.dests.Nodup ∧
      (∀ d ∈ m.dests, d < net.nodes) ∧ s.curCycle < m.arrival
  | .dequeueCallback n => n < net.nodes
  | .tick => True

def scheduled (s : State) : Action → Prop
  | .router r => s.curCycle ∈ s.events (.router r)
  | .ni n _ => s.curCycle ∈ s.events (.ni n)
  | .link l => s.curCycle ∈ s.events (.link l)
  | .creditLink l => s.curCycle ∈ s.events (.creditLink l)
  | .message _ _ _ => True
  | .dequeueCallback _ => True
  | .tick => ∀ c ∈ net.consumers, s.curCycle ∉ s.events c

instance (s : State) (a : Action) : Decidable (s.valid net a) :=
  match a with
  | .router r => inferInstanceAs (Decidable (r < net.numRouters))
  | .ni n _ => inferInstanceAs (Decidable (n < net.nodes))
  | .link l => inferInstanceAs (Decidable (l ∈ net.links))
  | .creditLink l => inferInstanceAs (Decidable (l ∈ net.links))
  | .message n vnet m => inferInstanceAs (Decidable (n < net.nodes ∧ vnet < net.virtualNetworks ∧
      m.dests.Nodup ∧ (∀ d ∈ m.dests, d < net.nodes) ∧ s.curCycle < m.arrival))
  | .dequeueCallback n => inferInstanceAs (Decidable (n < net.nodes))
  | .tick => inferInstanceAs (Decidable True)

instance (s : State) (a : Action) : Decidable (s.scheduled net a) :=
  match a with
  | .router r => inferInstanceAs (Decidable (s.curCycle ∈ s.events (.router r)))
  | .ni n _ => inferInstanceAs (Decidable (s.curCycle ∈ s.events (.ni n)))
  | .link l => inferInstanceAs (Decidable (s.curCycle ∈ s.events (.link l)))
  | .creditLink l => inferInstanceAs (Decidable (s.curCycle ∈ s.events (.creditLink l)))
  | .message _ _ _ => inferInstanceAs (Decidable True)
  | .dequeueCallback _ => inferInstanceAs (Decidable True)
  | .tick => inferInstanceAs (Decidable (∀ c ∈ net.consumers, s.curCycle ∉ s.events c))

def FreeStep (s s' : State) : Prop :=
  ∃ a, s.valid net a ∧ s.perform net a = .ok s'

def Step (s s' : State) : Prop :=
  ∃ a, s.valid net a ∧ s.scheduled net a ∧ s.perform net a = .ok s'

def FreeReachable (s : State) : Prop :=
  ∃ random, Relation.ReflTransGen (FreeStep net) (init net random) s

def Reachable (s : State) : Prop :=
  ∃ random, Relation.ReflTransGen (Step net) (init net random) s

def runActions : List Action → State → Option State
  | [], s => some s
  | a :: as, s =>
    if s.valid net a ∧ s.scheduled net a then
      match s.perform net a with
      | .ok s' => runActions as s'
      | .error _ => none
    else none

end State

end Drain
