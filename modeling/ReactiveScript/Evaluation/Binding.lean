import ReactiveScript.Evaluation.Forcing

/-!
# Binding names

A value is bound after three checks: the name may not be bound as a constant, the value has to be of
the declared type, and the constraint has to hold with `it` bound to the value and `previous` to the
one it replaces. Type and constraint stay with the name when a later binding brings none. Void
passes the last two checks. The listeners of the variable are called after the value is bound, and
until then the value that was replaced is held.
-/

namespace ReactiveScript.Eval

/-- Hands a value to callbacks in order; an error stops the delivery. The value and the callbacks
that are not done yet are held. -/
def deliverAll (v : Value) : List Callback → Eval Unit
  | [] => pure ()
  | callback :: rest => do
    let _ ← holding (v.held ++ heldByCallbacks (callback :: rest)) (perform (.deliver callback v))
    deliverAll v rest

/-- Evaluates the predicate of a constraint for a value and the one that it replaces. -/
def checkConstraint (scope : ScopeId) (name : String) (value previous : Value) (c : Constraint) :
    Eval Unit := do
  let check ← modifyGet fun w => w.addChild scope "constraint"
  bindParameter check "it" value
  bindParameter check "previous" previous
  withScope check do
    unless ← holding (value.held ++ previous.held ++ c.held) (truthy c.predicate) do
      report .warning "constraint violated" [("variable", name), ("constraint", c.fingerprint)]
      raise (EvalError.constraintViolation name c.fingerprint)

/-- Refuses a value that is not of the declared type. -/
def checkType (name : String) (value : Value) (declared : Option TypeTag) : Eval Unit := do
  match declared, value.typeTag? with
  | some expected, some actual =>
    unless expected.accepts actual do
      report .warning "declared type mismatch"
        [("variable", name), ("expected", expected.name), ("actual", actual.name)]
      raise (EvalError.declaredTypeMismatch name expected.name actual.name)
  | _, _ => pure ()

/-- Refuses a name that is bound as a constant. -/
def checkMutable (scope : ScopeId) (name : String) : Eval Unit := do
  if ((← world).scopes.localBinding? scope name).any fun b => b.flags.isConst then
    raise (EvalError.immutableVariable name)

/-- What a name is bound to if it was bound to `existing` before. -/
def mergeBinding (existing : Option Binding) (value : Value) (options : BindOptions) : Binding where
  value := value
  constraint := options.constraint.or (existing.bind Binding.constraint)
  declaredType := options.declaredType.or (existing.bind Binding.declaredType)
  flags :=
    let kept := { ((existing.map Binding.flags).getD {}) with isParameter := false }
    let flags := kept.union options.flags
    { flags with isDeclared := flags.isDeclared || options.declare }

/-- Binds a name: in the given scope if it is declared, else in the nearest scope outward that has
the name, else in the given one. -/
def bind (scope : ScopeId) (name : String) (value : Value) (options : BindOptions) :
    Eval Value := do
  let scopes := (← world).scopes
  let target := if options.declare then scope else scopes.targetOf scope name
  checkMutable target name
  let existing := scopes.localBinding? target name
  let previous := (existing.map Binding.value).getD .void
  let binding := mergeBinding existing value options
  unless value.isVoid do
    checkType name value binding.declaredType
    match binding.constraint with
    | some c => checkConstraint target name value previous c
    | none => pure ()
  checkMutable target name
  modify fun w => { w with scopes := w.scopes.bind target name binding }
  let callbacks := ((← world).scopes[target]?.map fun s => s.callbacks name).getD []
  holding previous.held (deliverAll value callbacks)
  return value

/-- The value of a variable in the current scope. -/
def lookup (name : String) : Eval Value := do
  match ← currentScope? with
  | none => raise (EvalError.variableNotFound name)
  | some scope =>
    match (← world).scopes.find? scope name with
    | some v => return v
    | none => raise (EvalError.variableNotFound name)

/-- Calls a callback with every value that is later bound to a name. The callback is kept in the
scope that declares the name, else in the given one. -/
def listenVariable (scope : ScopeId) (name key : String) (callback : Callback) : Eval Unit :=
  modify fun w => w.modifyScope (w.scopes.targetOf scope name) fun s => s.listen name key callback

def unlistenVariable (scope : ScopeId) (name key : String) : Eval Unit :=
  modify fun w => w.modifyScope (w.scopes.targetOf scope name) fun s => s.unlisten name key

end ReactiveScript.Eval
