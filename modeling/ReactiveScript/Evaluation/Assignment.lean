import ReactiveScript.Evaluation.Binding
import ReactiveScript.Evaluation.Subscription

/-!
# Assignments

An assignment forces its right-hand side to the depth of the settings and binds the result in the
current scope; an error value is handed back and not bound. A conditional assignment binds void
while its condition does not hold and is carried out again whenever the condition notifies. A
subscribing assignment is carried out for every value that its source delivers. Later deliveries
take place in the scopes that were active at the assignment.
-/

namespace ReactiveScript.Eval

/-- The current scope, in which an assignment binds. -/
def commitScope (c : Commit) : Eval ScopeId := do
  match ← currentScope? with
  | some scope => return scope
  | none => raise (EvalError.exception ("no scope to bind '" ++ c.target ++ "' in"))

/-- Reports a declared type that the assigned node has rarely given. -/
def reportUnlikelyType (c : Commit) : Eval Unit := do
  match c.options.declaredType, c.source with
  | some expected, some node => do
    let w ← world
    match w.learner.check? node expected w.settings.typeWarningThreshold with
    | some warning =>
      report .warning "assigned value unlikely to match declared type"
        [("variable", c.target), ("warning", warning.text)]
    | none => pure ()
  | _, _ => pure ()

/-- Binds a node to the fingerprint of a constraint; a node bound to another one refuses it. -/
def constrain (node : NodeId) (fingerprint : String) : Eval Unit := do
  match (← world).node? node with
  | none => pure ()
  | some n =>
    match n.fingerprint with
    | none =>
      modify fun w => w.modifyNode node fun n => { n with fingerprint := some fingerprint }
    | some bound =>
      unless bound = fingerprint do raise (EvalError.constraintViolation n.operation fingerprint)

/-- Publishes a binding outside the script. -/
def publishBinding (name : String) (v : Value) : Eval Unit :=
  modify fun w => { w with exports := w.exports.insert name v }

/-- Forces a value and binds it in the current scope. -/
def commit (c : Commit) (v : Value) : Eval Value := do
  if (← world).isReserved c.target then raise (EvalError.reservedName c.target)
  let scope ← commitScope c
  reportUnlikelyType c
  match c.options.constraint, v.asNode? with
  | some constraint, some node => constrain node.id constraint.fingerprint
  | _, _ => pure ()
  let settings := (← world).settings
  let forced ← force settings.parallel v settings.assignmentFixDepth
  if forced.isError then return forced
  let bound ← bind scope c.target forced c.options
  if c.exported then publishBinding c.target bound
  return bound

/-- Binds the right-hand side if a condition holds, else void. -/
def commitWhen (c : Commit) (holds : Bool) (rhs : Value) : Eval Value :=
  commit c (if holds then rhs else .void)

/-- The value that an assignment has left in its target. -/
def boundValue (scope : ScopeId) (name : String) : Eval Value := do
  return ((← world).scopes.find? scope name).getD .void

/-- The key under which a conditional assignment listens to its condition. -/
def whenKey (scope : ScopeId) (target : String) : String :=
  "when-" ++ Text.ofNat scope ++ "-" ++ target

/-- Carries out a conditional assignment and follows its condition. -/
def whenAssign (c : Commit) (rhs condition : Value) : Eval Value := do
  let scope ← commitScope c
  let holds ← truthy condition
  let _ ← commitWhen c holds rhs
  match condition.asNode? with
  | some node => do
    let scopes := (← context).scopes
    let _ ← perform (.listen node.id (some (whenKey scope c.target)) (.commitWhen c rhs scopes))
  | none => pure ()
  boundValue scope c.target

/-- The source that a subscribing assignment follows: a resource that the right-hand side resolves
to, else the right-hand side. The present value of a node is bound at once. -/
def subscribedSource (c : Commit) (rhs resolved : Value) : Eval Value := do
  if resolved.asResource?.isSome then return resolved
  if rhs.isNode then
    let _ ← commit c resolved
  return rhs

/-- Binds every value that a source delivers, and keeps the subscription under the target. -/
def followSource (c : Commit) (scope : ScopeId) (source : Value) : Eval Unit := do
  let scopes := (← context).scopes
  let id ← subscribe source (.commit c scopes)
  keep (.assignment scope c.target) id

/-- Carries out a subscribing assignment. The target is bound to void before anything else. -/
def subscribeAssign (c : Commit) (rhs : Value) : Eval Value := do
  let scope ← commitScope c
  unless (← world).scopes.hasLocal scope c.target do
    let _ ← commit c .void
  let resolved ← fix rhs 1
  holding resolved.held do
    followSource c scope (← subscribedSource c rhs resolved)
  boundValue scope c.target

end ReactiveScript.Eval
