import Provision.Topology.Graph

/-! Hosting.

A component runs on what it is hosted on. Following the hosts upwards leads to the
compute it runs on, if there is one; going downwards from a compute gives the stack on
it. The hosting order lists every component after its hosts and exists unless the
hosting edges run in a circle. -/
namespace Provision.Topology

/-- The target of the first hosting edge of a component. -/
def hostOf? (t : Topology) (id : ComponentId) : Option ComponentId :=
  ((t.outgoing id).find? fun e => e.isA .hostedOn).map Edge.target

/-! ### Upwards -/

/-- Climbs from a component to a compute, having seen the components in `visited`. -/
def climb (t : Topology) (start : ComponentId) (visited : List ComponentId) :
    Nat → ComponentId → Except Fault (Option ComponentId)
  | room, id =>
    if (t.component id).isA .compute then .ok (some id)
    else if id ∈ visited then .error (.hostingCycle (t.component start).name)
    else
      match room, t.hostOf? id with
      | _, none => .ok none
      | 0, some _ => .error (.hostingCycle (t.component start).name)
      | room + 1, some host => t.climb start (id :: visited) room host

/-- The compute that a component runs on. A compute runs on itself; a chain of hosts
that ends before a compute leads nowhere, one that comes back is a cycle. -/
def computeOf (t : Topology) (id : ComponentId) : Except Fault (Option ComponentId) :=
  t.climb id [] t.size id

/-- The hosts above a component that are not in `visited`. -/
def hostsFrom (t : Topology) (visited : List ComponentId) : Nat → ComponentId → List ComponentId
  | 0, _ => []
  | room + 1, id =>
    match t.hostOf? id with
    | none => []
    | some host => if host ∈ visited then [] else host :: t.hostsFrom (host :: visited) room host

/-- The hosts of a component, nearest first, up to where the chain ends or comes back. -/
def hostsAbove (t : Topology) (id : ComponentId) : List ComponentId :=
  t.hostsFrom [id] t.size id

/-! ### Downwards -/

/-- The components on a host, level by level: those found, those whose own components
are still to be looked at. -/
structure Descent where
  found : List ComponentId := []
  queue : List ComponentId := []

/-- Notes a component that was not seen before. -/
def Descent.meet (host : ComponentId) (d : Descent) (id : ComponentId) : Descent :=
  if id = host || id ∈ d.found then d else ⟨d.found ++ [id], d.queue ++ [id]⟩

def descend (t : Topology) (host : ComponentId) : Nat → Descent → Descent
  | 0, d => d
  | room + 1, d =>
    match d.queue with
    | [] => d
    | id :: rest =>
      t.descend host room ((t.sources id .hostedOn).foldl (Descent.meet host) ⟨d.found, rest⟩)

/-- The components that stand on a host, directly or not, nearest first. -/
def stackOn (t : Topology) (host : ComponentId) : List ComponentId :=
  (t.descend host (t.size + 1) { queue := [host] }).found

/-! ### In order -/

/-- A sweep over the components: how many hosts of each are still to come, which
components are ready, and which are done. -/
structure Sweep where
  pending : Array Nat
  queue : List ComponentId
  order : List ComponentId := []

/-- One host of a component is done. -/
def Sweep.settle (s : Sweep) (id : ComponentId) : Sweep :=
  let left := s.pending[id]?.getD 0 - 1
  { s with
    pending := s.pending.setIfInBounds id left
    queue := if left = 0 then s.queue ++ [id] else s.queue }

def Sweep.start (t : Topology) : Sweep :=
  let pending := t.ids.map fun id => (t.targets id .hostedOn).length
  { pending := pending.toArray, queue := t.ids.filter fun id => (t.targets id .hostedOn).isEmpty }

/-- Takes the next component that is ready. -/
def Sweep.advance (t : Topology) (s : Sweep) : Sweep :=
  match s.queue with
  | [] => s
  | id :: rest =>
    (t.sources id .hostedOn).foldl Sweep.settle { s with queue := rest, order := s.order ++ [id] }

def Sweep.run (t : Topology) : Nat → Sweep → Sweep
  | 0, s => s
  | room + 1, s => Sweep.run t room (s.advance t)

/-- The first component with a host that never came. -/
def Sweep.stuck? (s : Sweep) (t : Topology) : Option ComponentId :=
  t.ids.find? fun id => 0 < s.pending[id]?.getD 0

/-- All components, hosts before what they host, otherwise in the order of addition. -/
def hostingOrder (t : Topology) : Except Fault (List ComponentId) :=
  let s := Sweep.run t t.size (.start t)
  if s.order.length < t.size then
    .error (.hostingCycle (((s.stuck? t).map fun id => (t.component id).name).getD ""))
  else .ok s.order

end Provision.Topology
