import ReactiveScript.Session.Construction

/-!
# The scopes of a session

Making scopes, binding names in them, listening to their variables, handling errors, and pushing and
popping scopes by hand. A scope is given by the name under which the session keeps it, which need
not be its title.
-/

namespace ReactiveScript

namespace World

/-- Pushes the scopes of a snapshot, the outermost first. -/
def attach (w : World) (scopes : ScopeStack) : World :=
  scopes.foldr (fun id w => w.modifyContext fun c => c.push id) w

/-- Pops the scopes of a snapshot, the innermost first. -/
def detach (w : World) (scopes : ScopeStack) : World := scopes.foldl popScope w

end World

namespace SessionM

open Session

/-- Makes a scope, inside another one if a parent is given, and keeps it. -/
def addScope (name title : String) (parent : Option String) (source : Option SourceText) :
    SessionM Scope := do
  let id ← match parent with
    | some parent => do
      let (id, w) := (← world).addChild (← scope parent) title
      modifyWorld fun _ => w
      pure id
    | none => do
      let (id, w) := (← world).addRoot title
      modifyWorld fun _ => w
      pure id
  match source with
  | some text => modifyWorld fun w => w.modifyScope id fun s => { s with source := some text }
  | none => pure ()
  modify fun s => { s with scopes := s.scopes.insert name id }
  return ((← world).scopes[id]?).getD default

/-- The title of a scope. -/
def title (id : ScopeId) : SessionM String := do return (← world).scopes.name id

/-- Builds a value and the predicate of a constraint, and binds the value. -/
def set (bare : Bool) (name key : String) (value : Expr) (form : BindForm)
    (constraint : Option Expr) : SessionM (Except EvalError Value) := do
  let id ← scope name
  let (value, predicate) ← inRoot bare do
    let value ← build value
    let predicate ← holding value.held (buildOptional constraint)
    return (value, predicate)
  eval (Eval.bind id key value (form.options predicate))

/-- Binds a parameter. -/
def setParameter (bare : Bool) (name key : String) (value : Expr) :
    SessionM (Except EvalError Unit) := do
  let id ← scope name
  let value ← inRoot bare (build value)
  eval (Eval.bindParameter id key value)

/-- The value of a name as a scope sees it. -/
def lookup (name key : String) : SessionM (Except EvalError Value) := do
  match (← world).scopes.find? (← scope name) key with
  | some v => return .ok v
  | none => return .error (EvalError.variableNotFound key)

/-- What is known of a name as a scope sees it. -/
structure BindingReport where
  binding : Binding
  /-- The title of the scope that binds the name. -/
  declaring : String
  /-- Whether the scope itself binds the name. -/
  isLocal : Bool

def inspectBinding (name key : String) : SessionM (Option BindingReport) := do
  let scopes := (← world).scopes
  let id ← scope name
  match scopes.declaring? id key, scopes.binding? id key with
  | some declaring, some binding =>
    return some ⟨binding, scopes.name declaring, scopes.hasLocal id key⟩
  | _, _ => return none

/-- The scope that is kept under a name. -/
def inspectScope (name : String) : SessionM Scope := do
  return ((← world).scopes[← scope name]?).getD default

/-- The names bound in a scope with their values, in the order of the names. -/
def listBindings (name : String) : SessionM (List (String × Value)) := do
  let s ← inspectScope name
  return s.variableNames.map fun key => (key, ((s.binding? key).map Binding.value).getD .void)

def listenVariable (name key id : String) (r : Receiver) : SessionM (Except EvalError Unit) := do
  let callback ← callback r
  eval (Eval.listenVariable (← scope name) key id callback)

def unlistenVariable (name key id : String) : SessionM (Except EvalError Unit) := do
  eval (Eval.unlistenVariable (← scope name) key id)

/-- Ways of handling an error. -/
inductive HandlerForm where
  /-- A value takes the place of the error. -/
  | value
  /-- The name of the kind takes the place of the error. -/
  | kind
  /-- An exception is raised whose cause is the error. -/
  | wrap
  /-- The error becomes a value. -/
  | sticky
  | reraise

namespace HandlerForm

def name : HandlerForm → String
  | value => "value"
  | kind => "kind"
  | wrap => "wrap"
  | sticky => "sticky"
  | reraise => "reraise"

def actions (value : Value) : HandlerForm → List Action
  | .value => [.yield value]
  | kind => [.input, .errorKind]
  | wrap => [.input, .wrapError "handled"]
  | sticky => [.input]
  | reraise => [.input, .raiseResult]

end HandlerForm

/-- Builds a value and installs an error handler in a scope. The value is built also for a handler
that has no use for it. -/
def setHandler (bare : Bool) (name : String) (form : HandlerForm) (value : Expr) :
    SessionM Unit := do
  let id ← scope name
  let value ← inRoot bare (build value)
  modifyWorld fun w => w.modifyScope id fun s =>
    { s with handler := some ⟨form.name, form.actions value⟩ }

/-- Hands an error to the nearest handler of a scope. -/
def handleError (name : String) (e : EvalError) : SessionM (Except EvalError Value) := do
  eval (Eval.handleError (← scope name) e)

/-- Pushes a scope until it is popped by hand. -/
def push (name : String) : SessionM Unit := do
  let id ← scope name
  modifyWorld fun w => w.modifyContext fun c => c.push id
  modify fun s => { s with guards := s.guards ++ [some id] }

/-- Ends the use of a scope that was pushed by hand. -/
def popGuard : Option ScopeId → SessionM Unit
  | some id => modifyWorld fun w => w.popScope id
  | none => return ()

/-- Pops the scope that was pushed last by hand, or leaves an empty place behind if it is empty
already. -/
def popLast : SessionM Unit := do
  let guards := (← get).guards
  modify fun s => { s with guards := guards.dropLast }
  popGuard (guards.getLast?.join)

/-- Pops the scope at a place among those pushed by hand, and leaves the place empty. -/
def popAt (index : Nat) : SessionM Unit := do
  let guards := (← get).guards
  modify fun s => { s with guards := guards.set index none }
  popGuard (guards[index]?.join)

/-- Pops a scope from the stack without regard to those pushed by hand; a pop out of order is an
error, which is not noted. -/
def popScope (name : String) : SessionM (Except EvalError Unit) := do
  let id ← scope name
  let w ← world
  let (error, context) := w.context.pop w.scopes.name id
  modifyWorld fun w => { w with context }
  match error with
  | some e => return .error e
  | none => return .ok ()

/-- Where the session stands. -/
structure Place where
  /-- The title of the current scope. -/
  current : Option String
  scopes : Nat
  calls : Nat

def place : SessionM Place := do
  let w ← world
  return ⟨w.context.current?.map w.scopes.name, w.context.scopes.length, w.context.calls.size⟩

/-- Takes the corruption of the scope stack, if any. -/
def takeCorruption : SessionM (Option EvalError) := do
  match ← eval Eval.takeCorruption with
  | .ok e => return e
  | .error e => return some e

/-- Keeps the active scopes, or a single scope; the result is their titles, the outermost first. -/
def snapshot (name : String) (of : Option String) : SessionM (List String) := do
  let scopes ← match of with
    | some other => do pure [← scope other]
    | none => do pure (← world).context.scopes
  modify fun s => { s with snapshots := s.snapshots.insert name scopes }
  return scopes.reverse.map (← world).scopes.name

end SessionM
end ReactiveScript
