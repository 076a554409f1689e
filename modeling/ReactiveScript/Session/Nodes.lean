import ReactiveScript.Session.Construction

/-!
# The nodes of a session

Listening to nodes, notifying and executing them, and what is known of them. A node is given by the
name under which the session keeps it.
-/

namespace ReactiveScript.SessionM

open Session

/-- Registers a callback on a node; the result is the key. -/
def listen (bare : Bool) (name : String) (key : Option String) (r : Receiver) :
    SessionM (Except EvalError Value) := do
  let n ← node name
  let callback ← callback r
  inRoot bare (eval (Eval.perform (.listen n.id key callback)))

def unlisten (name key : String) : SessionM (Except EvalError Unit) := do
  eval (Eval.unlisten (← node name).id key)

def notify (name : String) : SessionM (Except EvalError Value) := do
  eval (Eval.perform (.notify (← node name).id))

/-- Binds a node to the fingerprint of a constraint. -/
def constrain (name fingerprint : String) : SessionM (Except EvalError Unit) := do
  eval (Eval.constrain (← node name).id fingerprint)

/-- Executes a node without forcing its result. -/
def execute (name : String) : SessionM (Except EvalError Value) := do
  let n := ((← get).handmade.find? name).getD (← node name)
  eval (Eval.execute n.id)

/-- Attaches a text to a node; the result is everything that is attached to it. -/
def annotate (name key text : String) : SessionM Metadata := do
  let id := (← node name).id
  modifyWorld fun w => w.modifyNode id fun n => { n with info := n.info.set key text }
  return (((← world).node? id).map Node.info).getD {}

/-- A node and what it was built as. -/
structure NodeView where
  ref : NodeRef
  node : Node

def viewNode (ref : NodeRef) : SessionM NodeView := do
  return ⟨ref, ((← world).node? ref.id).getD default⟩

/-- The node kept under a name, and the one that was made by hand under it, which is not replaced by
a value that is later kept under the name. -/
def inspectNode (name : String) : SessionM (NodeView × Option NodeView) := do
  let handmade ← ((← get).handmade.find? name).mapM viewNode
  return (← viewNode (← node name), handmade)

/-- The types that the node under a name has given. -/
def predict (name : String) : SessionM (Option TypePrediction) := do
  return (← world).learner.predictNode? (← node name).id

/-- The types that an operation has given at a place for inputs of the given cases. -/
def predictKey (operation : String) (source : Segment) (inputs : List Expr) :
    SessionM (Option TypePrediction) := do
  let inputs ← inRoot false (buildAll inputs)
  return (← world).learner.predict? (PredictionKey.ofInputs operation source inputs)

/-- Warns if a node has rarely given a type. -/
def checkType (name : String) (t : TypeTag) (threshold : Decimal) :
    SessionM (Option TypeWarning) := do
  return (← world).learner.check? (← node name).id t threshold

end ReactiveScript.SessionM
