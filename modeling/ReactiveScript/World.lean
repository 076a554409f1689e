import ReactiveScript.Context
import ReactiveScript.Held
import ReactiveScript.Learner
import ReactiveScript.Node
import ReactiveScript.Resource
import ReactiveScript.Settings

/-!
# The state of a run

Everything that an evaluation reads and changes: the settings, the tables of nodes, scopes,
resources and subscriptions, what is kept and published, what was learnt, the context of the line of
execution that runs and what it holds, and the log. Nodes and subscriptions are numbered from one.
-/

namespace ReactiveScript

/-- What a subscription follows. -/
inductive SubscriptionTarget
  | resource (id : ResourceId)
  | node (id : NodeId)
  | value
deriving DecidableEq, Repr, Inhabited

structure Subscription where
  target : SubscriptionTarget := .value
  cancelled : Bool := false
deriving DecidableEq, Repr, Inhabited

/-- The name of a subscription. -/
def subscriptionName (id : SubscriptionId) : String := "sub-" ++ Text.ofNat id

structure World where
  settings : Settings := Settings.default
  /-- Names that scripts may not assign to. -/
  reserved : List String := reservedNames
  nodes : Array Node := #[]
  scopes : ScopeTable := #[]
  resources : Array Resource := #[]
  subscriptions : Array Subscription := #[]
  /-- The subscriptions that are kept, by the slot each one holds. -/
  table : List (Slot × SubscriptionId) := []
  /-- The values that are kept under names, apart from all scopes. -/
  registers : OrderedMap Value := []
  /-- The bindings that are published outside the script. -/
  exports : OrderedMap Value := []
  learner : Learner := {}
  context : Context := {}
  /-- What the evaluations under way hold. -/
  inUse : List Held := []
  /-- The events of the run, the latest first. -/
  log : List Event := []
deriving Inhabited

namespace World

def node? (w : World) (id : NodeId) : Option Node := if id = 0 then none else w.nodes[id - 1]?

def modifyNode (w : World) (id : NodeId) (f : Node → Node) : World :=
  { w with nodes := w.nodes.modify (id - 1) f }

/-- The callbacks of a node in the order of delivery. -/
def listenersOf (w : World) (id : NodeId) : List Callback :=
  ((w.node? id).map fun n => n.listeners.ordered).getD []

/-- The number of the node that is built next. -/
def nextNode (w : World) : NodeId := w.nodes.size + 1

def subscription? (w : World) (id : SubscriptionId) : Option Subscription :=
  if id = 0 then none else w.subscriptions[id - 1]?

def modifySubscription (w : World) (id : SubscriptionId) (f : Subscription → Subscription) :
    World :=
  { w with subscriptions := w.subscriptions.modify (id - 1) f }

def isCancelled (w : World) (id : SubscriptionId) : Bool := (w.subscription? id).any (·.cancelled)

def resource? (w : World) (id : ResourceId) : Option Resource := w.resources[id]?

def modifyResource (w : World) (id : ResourceId) (f : Resource → Resource) : World :=
  { w with resources := w.resources.modify id f }

def modifyScope (w : World) (id : ScopeId) (f : Scope → Scope) : World :=
  { w with scopes := w.scopes.modify id f }

/-- The node kept under a name. -/
def registeredNode? (w : World) (name : String) : Option NodeRef :=
  (w.registers.find? name).bind Value.asNode?

/-- Adds a scope to the table. -/
def addScope (w : World) (s : Scope) : ScopeId × World :=
  (w.scopes.size, { w with scopes := w.scopes.push s })

/-- Adds a scope without parent. -/
def addRoot (w : World) (name : String) : ScopeId × World := w.addScope { name, parent := none }

/-- Adds a scope inside another one. -/
def addChild (w : World) (parent : ScopeId) (name : String) : ScopeId × World :=
  w.addScope (((w.scopes[parent]?).getD default).childOf parent name)

def modifyContext (w : World) (f : Context → Context) : World :=
  { w with context := f w.context }

/-- Writes an event into the log. -/
def note (w : World) (e : Event) : World := { w with log := e :: w.log }

/-- Writes a warning or an error into the log, if the line of execution reports them. -/
def report (w : World) (severity : Severity) (message : String) (fields : List (String × String)) :
    World :=
  if w.context.reports then w.note (.report severity message fields) else w

/-- Ends the use of a scope that was pushed. A pop out of order is reported and noted. -/
def popScope (w : World) (scope : ScopeId) : World :=
  match w.context.pop w.scopes.name scope with
  | (none, context) => { w with context }
  | (some e, context) =>
    ({ w with context }.report .error "scope stack corrupted" [("err", e.display)]).modifyContext
      fun c => c.noteCorruption e

def isReserved (w : World) (name : String) : Bool := w.reserved.contains name

end World
end ReactiveScript
