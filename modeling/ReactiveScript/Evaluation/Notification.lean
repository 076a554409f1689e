import ReactiveScript.Evaluation.Actions
import ReactiveScript.Evaluation.Assignment
import ReactiveScript.Retention

/-!
# Listening, notifying and delivering

A node that is listened to listens itself to what it depends on: to the nodes among its inputs, or
to the variable that it reads. A notification executes the node once and hands the result to its
listeners, in order. A relay notifies its node only as long as something holds the node. A node
whose notification is under way on the same line of execution is not notified again.
-/

namespace ReactiveScript.Eval

/-- Connects a node with the nodes among its inputs. -/
def listenToInputs (id : NodeId) : List Value → Eval Unit
  | [] => pure ()
  | v :: rest => do
    match v.asNode? with
    | some n => do
      let _ ← perform (.listen n.id (some (Node.relayKey id)) (.relay id))
    | none => pure ()
    listenToInputs id rest

/-- Connects a node with what triggers it, once. -/
def connectNode (id : NodeId) (n : Node) : Eval Unit := do
  unless n.wired do
    modify fun w => w.modifyNode id fun n => { n with wired := true }
    match n.trigger with
    | .inputs => listenToInputs id n.inputs
    | .variable name hint => do
      match (← currentScope?).or hint with
      | some scope => listenVariable scope name (Node.relayKey id) (.relay id)
      | none => pure ()

/-- The key of a new listener: the given one, or one made from the next number. -/
def listenerKey (id : NodeId) : Option String → Eval String
  | some key => return key
  | none => modifyGet fun w =>
    match w.node? id with
    | none => ("", w)
    | some n =>
      let (key, listeners) := n.listeners.generateKey id
      (key, w.modifyNode id fun n => { n with listeners })

/-- Registers a callback on a node and answers with its key. -/
def listen (id : NodeId) (key : Option String) (callback : Callback) : Eval Value := do
  match (← world).node? id with
  | none => return .void
  | some n => do
    connectNode id n
    let key ← listenerKey id key
    modify fun w => w.modifyNode id fun n =>
      { n with listeners := n.listeners.register key callback }
    return .str key

/-- Evaluates with a node marked as notifying. If it is marked already the answer is void, and the
mark is gone. -/
def whileNotifying (id : NodeId) (x : Eval Value) : Eval Value := do
  if (← context).isNotifying id then
    modify fun w => w.modifyContext fun c => c.refuseNotify id
    return .void
  modify fun w => w.modifyContext fun c => c.enterNotify id
  x.ensuring fun w => w.modifyContext fun c => c.leaveNotify id

/-- Executes a node and delivers the result to its listeners. -/
def announce (id : NodeId) : Eval Value := do
  let v ← perform (.resolve id 1 (← world).settings.parallel)
  deliverAll v ((← world).listenersOf id)
  return v

/-- Announces the result of a node, unless the node is marked as notifying. -/
def notify (id : NodeId) : Eval Value := whileNotifying id (announce id)

/-- Evaluates an expression for an item, in the given scopes. -/
def evaluateFor (kind : String) (scopes : ScopeStack) (expr item : Value) : Eval Value := do
  let settings := (← world).settings
  withScopes scopes <| withItem kind item <|
    force settings.parallel expr settings.assignmentFixDepth

/-- Hands a value to a callback. -/
def deliver : Callback → Value → Eval Value
  | .relay node, _ => do
    if (← world).isHeld (.node node) then holding [.node node] (perform (.notify node))
    else return .void
  | .program actions, v => runProgram none [v] actions
  | .guarded id callback, v => do
    if (← world).isCancelled id then return .void else deliver callback v
  | .evaluate kind scopes expr, v => evaluateFor kind scopes expr v
  | .commitWhen c rhs scopes, v => do
    let holds ← truthy v
    withScopes scopes (commitWhen c holds rhs)
  | .commit c scopes, v => withScopes scopes (commit c v)

end ReactiveScript.Eval
