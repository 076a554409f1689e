import ReactiveScript.World

/-!
# Retention

A node exists as long as something holds it: a value that is kept or in use, another node, a
callback, or a scope or a resource that exists itself. The relay of a node does not hold it, so that
a node which only listens to others goes away, and its relays do nothing from then on. Holders are
counted; what holds itself in a circle stays.
-/

namespace ReactiveScript

def Trigger.held : Trigger → List Held
  | .variable _ (some hint) => [.scope hint]
  | _ => []

def Node.held (n : Node) : List Held :=
  heldByItems n.inputs ++ n.body.held ++ (n.captured.getD []).held ++ n.trigger.held ++
    heldByCallbacks n.listeners.ordered

def Binding.held (b : Binding) : List Held := b.value.held ++ heldByConstraint b.constraint

def Scope.held (s : Scope) : List Held :=
  s.parent.toList.map Held.scope ++ s.bindings.values.flatMap Binding.held ++
    s.listeners.values.flatMap (fun callbacks => heldByCallbacks callbacks.values) ++
    (s.handler.map fun h => heldByActions h.actions).getD []

def Backend.held (b : Backend) : List Held :=
  heldByItems b.items ++ heldByCallbacks b.subscribers.values

/-- What a resource holds. A recording backend may signal its resource, which therefore holds
itself. -/
def Resource.held (id : ResourceId) (r : Resource) : List Held :=
  match r.backend with
  | .queue _ => r.backend.held
  | .recording _ => .resource id :: r.backend.held

def SubscriptionTarget.held : SubscriptionTarget → List Held
  | .resource r => [.resource r]
  | .node n => [.node n]
  | .value => []

namespace World

/-- What a subscription follows. -/
def heldBySubscription (w : World) (id : SubscriptionId) : List Held :=
  ((w.subscription? id).map fun s => s.target.held).getD []

/-- What the runtime itself holds: the active scopes, the values that are in use, kept or published,
and the subscriptions that are kept. -/
def held (w : World) : List Held :=
  w.context.scopes.held ++ w.inUse ++ heldByEntries w.registers ++ heldByEntries w.exports ++
    w.table.flatMap fun (_, id) => w.heldBySubscription id

/-- How many nodes, scopes and resources there are. -/
def objectCount (w : World) : Nat := w.nodes.size + w.scopes.size + w.resources.size

/-- Every node, scope and resource, in one numbering. -/
def position (w : World) : Held → Nat
  | .node id => id - 1
  | .scope id => w.nodes.size + id
  | .resource id => w.nodes.size + w.scopes.size + id

/-- What the object at a position holds. -/
def heldAt (w : World) (position : Nat) : List Held :=
  let resource := position - w.nodes.size - w.scopes.size
  match w.nodes[position]?, w.scopes[position - w.nodes.size]? with
  | some n, _ => n.held
  | none, some s => s.held
  | none, none => ((w.resources[resource]?).map fun r => r.held resource).getD []

/-- Adds holders to the counts of some objects. -/
def countHolders (w : World) (counts : Array Nat) (held : List Held) : Array Nat :=
  held.foldl (fun counts h => counts.modify (w.position h) (· + 1)) counts

/-- The number of holders of each object. -/
def holderCounts (w : World) : Array Nat :=
  (List.range w.objectCount).foldl (fun counts i => w.countHolders counts (w.heldAt i))
    (w.countHolders (Array.replicate w.objectCount 0) w.held)

/-- One holder less for each of some objects, together with those that have none left. -/
def dropHolders (w : World) (counts : Array Nat) (held : List Held) : List Nat × Array Nat :=
  held.foldl (fun (freed, counts) h =>
    let i := w.position h
    (if counts[i]? = some 1 then i :: freed else freed, counts.modify i (· - 1))) ([], counts)

/-- Takes away the holders of what objects without holders have held, and so on for those that have
none left then. The fuel bounds the number of objects. -/
def releaseFrom (w : World) : Nat → List Nat → Array Nat → Array Nat
  | 0, _, counts => counts
  | _ + 1, [], counts => counts
  | fuel + 1, i :: pending, counts =>
    let (freed, counts) := w.dropHolders counts (w.heldAt i)
    releaseFrom w fuel (freed ++ pending) counts

/-- The number of holders of each object that exist themselves. -/
def liveCounts (w : World) : Array Nat :=
  let counts := w.holderCounts
  w.releaseFrom (w.objectCount + 1)
    ((List.range w.objectCount).filter fun i => counts[i]? = some 0) counts

/-- Whether an object is in use or kept under a name. -/
def isKept (w : World) (h : Held) : Bool :=
  w.inUse.contains h || w.registers.any fun (_, v) => v.held.contains h

/-- Whether something that exists holds an object; what is kept need not be counted. -/
def isHeld (w : World) (h : Held) : Bool :=
  w.isKept h || ((w.liveCounts)[w.position h]?).any fun n => 0 < n

end World
end ReactiveScript
