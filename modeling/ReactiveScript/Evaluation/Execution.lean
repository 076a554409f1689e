import ReactiveScript.Evaluation.Notification
import ReactiveScript.Evaluation.Operation

/-!
# Executing nodes

An execution counts against the recursion limit, runs the body of the node in the right scopes,
gives an error to the nearest handler, and records the type of the result. A corruption of the scope
stack that came up meanwhile takes the place of the result.
-/

namespace ReactiveScript.Eval

/-- Evaluates an expression for everything that a source delivers; the result is the name of the
subscription. -/
def follow (kind : String) (source expr : Value) : Eval Value := do
  let scopes := (← context).scopes
  let id ← subscribe source (.evaluate kind scopes expr)
  keep (.numbered id) id
  return .str (subscriptionName id)

/-- Writes a value to what a target resolves to. -/
def writeTo (operation : String) (target v : Value) (blocking : Bool) : Eval Value := do
  let target ← fix target 1
  match target.asResource? with
  | some r => callBackend r.id (.write v blocking false)
  | none => raise (EvalError.typeMismatch operation v.typeName target.typeName)

/-- Evaluates the second operand with the first one bound. -/
def pipe (lhs rhs : Value) : Eval Value := do
  let settings := (← world).settings
  let item ← force settings.parallel lhs settings.assignmentFixDepth
  holding item.held <| withItem "pipe" item <|
    force settings.parallel rhs settings.assignmentFixDepth

/-- What a node computes, before errors are handled. -/
def runBody (id : NodeId) (n : Node) : Eval Value := do
  let first := n.inputs[0]?.getD .void
  let second := n.inputs[1]?.getD .void
  match n.body with
  | .program actions => runProgram (some id) n.inputs actions
  | .variable name => lookup name
  | .unary op => evaluateUnary op first
  | .binary op => evaluateBinary op first second
  | .pipe => pipe first second
  | .subscribe => do
    let resolved ← fix first 1
    holding resolved.held <|
      follow "subscribe" (if resolved.asResource?.isSome then resolved else first) second
  | .listen => follow "listen" first second
  | .publish => do
    let v ← forceDeep (← world).settings.parallel first
    holding v.held (writeTo "publish" second v false)
  | .write => do
    let v ← forceDeep (← world).settings.parallel second
    holding v.held (writeTo "write" first v true)
  | .assign c => commit c first
  | .whenAssign c condition => whenAssign c first condition
  | .subscribeAssign c => subscribeAssign c first

/-- Evaluates in the scope in which a variable node was built, if no scope is active. -/
def withHint {α : Type} (n : Node) (x : Eval α) : Eval α := do
  match ← currentScope?, n.scopeHint with
  | none, some hint => withScope hint x
  | _, _ => x

/-- Evaluates in a new scope if the node asks for one. -/
def withFreshScope {α : Type} (n : Node) (x : Eval α) : Eval α := do
  if n.flags.newScope then withScope (← addScope n.operation) x else x

/-- Evaluates in the scopes that a node runs in. -/
def inScopesOf {α : Type} (n : Node) (x : Eval α) : Eval α :=
  withScopes (n.captured.getD []) (withHint n (withFreshScope n x))

/-- Gives an error of a node to the nearest handler. -/
def recover (n : Node) (e : EvalError) : Eval Value := do
  let e := e.withSource n.source
  match ← currentScope? with
  | some scope => handleError scope e
  | none => raise e

/-- Runs the body of a node and handles its error. -/
def runRecovering (id : NodeId) (n : Node) : Eval Value := do
  match ← attempt (runBody id n) with
  | .ok v => return v
  | .error e => recover n e

/-- Takes the corruption that the scope stack has suffered, if any. -/
def takeCorruption : Eval (Option EvalError) :=
  modifyGet fun w => (w.context.corruption, w.modifyContext fun c => { c with corruption := none })

/-- Records the type of a result. -/
def recordType (id : NodeId) (n : Node) (v : Value) : Eval Unit :=
  match v.typeTag? with
  | none => pure ()
  | some t => modify fun w =>
    { w with learner :=
        w.learner.record id (PredictionKey.ofInputs n.operation n.source n.inputs) t }

/-- Evaluates while a node counts as executing. -/
def whileExecuting {α : Type} (id : NodeId) (x : Eval α) : Eval α := do
  modify fun w => w.modifyContext fun c => c.enterCall id
  x.ensuring fun w => w.modifyContext Context.leaveCall

/-- Gives the outcome of a node, unless the scope stack has suffered a corruption meanwhile, and
records the type of the result. -/
def concludeExecution (id : NodeId) (n : Node) (outcome : Except EvalError Value) : Eval Value := do
  match ← takeCorruption with
  | some e => raise (e.withSource n.source)
  | none => do
    let v ← ofExcept outcome
    recordType id n v
    return v

/-- Executes a node once, without forcing its result. -/
def execute (id : NodeId) : Eval Value := do
  let w ← world
  match w.node? id with
  | none => return .void
  | some n =>
    let limit := w.settings.maxRecursionDepth
    if limit ≤ w.context.calls.size then
      raise ((EvalError.recursionLimitExceeded limit).withSource n.source)
    whileExecuting id do
      concludeExecution id n (← attempt (inScopesOf n (runRecovering id n)))

/-- Executes a node and forces the result to a depth. -/
def resolve (id : NodeId) (depth : Nat) (parallel : Bool) : Eval Value := do
  let v ← execute id
  holding v.held (force parallel v depth)

end ReactiveScript.Eval
