import ReactiveScript.Program

/-!
# Nodes and their listeners

A node is a deferred computation with the inputs it was built from. Its listeners are called in the
order in which their keys were first registered; a key that is registered again keeps its place.
-/

namespace ReactiveScript

/-- Callbacks under keys, and the number that the next generated key or new entry takes. -/
structure Listeners where
  entries : OrderedMap Callback := []
  next : Nat := 0
deriving Inhabited

namespace Listeners

/-- Puts a callback under a key; a new key takes the next number. -/
def register (l : Listeners) (key : String) (callback : Callback) : Listeners where
  entries := l.entries.insert key callback
  next := if l.entries.containsKey key then l.next else l.next + 1

def remove (l : Listeners) (key : String) : Listeners :=
  { l with entries := l.entries.erase key }

/-- The callbacks in the order of delivery. -/
def ordered (l : Listeners) : List Callback := l.entries.values

/-- A key of a node made from the next number, which is used up. -/
def generateKey (l : Listeners) (node : NodeId) : String × Listeners :=
  (Text.ofNat node ++ "-" ++ Text.ofNat l.next, { l with next := l.next + 1 })

end Listeners

structure NodeFlags where
  /-- Without side effects. -/
  isPure : Bool := false
  /-- Runs in a new child of the current scope. -/
  newScope : Bool := false
  /-- Runs in the scopes that were active when it was built. -/
  scopeClosure : Bool := false
  /-- Deferred until it is forced. -/
  reactive : Bool := true
deriving DecidableEq, Repr, Inhabited

/-- Where the notifications of a node come from. -/
inductive Trigger
  /-- From the nodes among its inputs. -/
  | inputs
  /-- From a variable; the hint is the scope that was current when the node was built. -/
  | variable (name : String) (hint : Option ScopeId)
deriving Repr, Inhabited

structure Node where
  operation : String
  source : Segment
  inputs : List Value
  body : Body
  flags : NodeFlags
  /-- The scopes that a scope closure runs in. -/
  captured : Option ScopeStack
  trigger : Trigger
  /-- Whether it listens to what triggers it already. -/
  wired : Bool := false
  listeners : Listeners := {}
  /-- The fingerprint of the constraint it is bound to. -/
  fingerprint : Option String := none
  info : Metadata := {}
  /-- How often a body that counts its runs has run. -/
  runs : Nat := 0
deriving Inhabited

namespace Node

/-- The scope in which a variable node runs if none is active. -/
def scopeHint (n : Node) : Option ScopeId :=
  match n.trigger with
  | .variable _ hint => hint
  | .inputs => none

/-- The key under which a node listens to what triggers it. -/
def relayKey (id : NodeId) : String := "relay-" ++ Text.ofNat id

end Node
end ReactiveScript
