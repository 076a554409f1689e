import ReactiveScript.Session.Basic

/-!
# Building expressions

Values are built from expressions, and callbacks from receivers. Everything that an expression
refers to by name is looked up while it is built; a callback that notifies a node by name looks it
up when it is called. What is built first is held while the rest is built.
-/

namespace ReactiveScript

namespace SessionM

open Session

/-- Builds a node. -/
def construct (spec : NodeSpec) : SessionM Value := do
  evalWiring do return .ok (.node (← Wiring.construct spec))

/-- A node that does something each time without a place in the source. -/
def programSpec (operation : String) (actions : List Action) : NodeSpec where
  operation := operation
  source := Segment.unknown
  body := .program actions

/-- Adds a resource that was never started. -/
def addResource (name : String) (backend : Backend) : SessionM ResourceRef := do
  let id := (← world).resources.size
  modifyWorld fun w => { w with resources := w.resources.push { name, backend } }
  return ⟨id, name⟩

/-- Wires a token. -/
def wireToken (form : TokenForm) (operands : List Value) : SessionM Value :=
  let token : OperatorToken Value := {
    op := form.op
    operands
    source := form.source
    reactive := form.reactive.getD form.op.reactive
    isPure := form.isPure.getD form.op.isPure }
  evalWiring <| match form.route with
    | .table => Wiring.wire token
    | .unary => Wiring.wireBy Wiring.unarySpec token
    | .binary => Wiring.wireBy Wiring.binarySpec token

/-- Wires an assignment. -/
def wireAssignment (form : AssignmentForm) (value : Value) (condition predicate : Option Value) :
    SessionM Value :=
  let assignment : Assignment := {
    target := form.target
    value
    condition
    constraint := predicate.map fun p => ⟨p, form.fingerprint⟩
    declaredType := form.declaredType
    mutability := form.mutability
    exported := form.exported
    source := form.source }
  evalWiring (assignment.wire form.op)

/-- What a recipe does, given the value it was made with and the further values. -/
def actions (value : Value) (further : List Value) : Recipe → SessionM (List Action)
  | .constant => return [.yield value]
  | .fail e => return [.raise e]
  | .sequence => return [.sequence further]
  | .input => return [.input]
  | .forced => return [.input, .fix 1]
  | .inputs => return [.inputs]
  | .scopeName => return [.scopeName]
  | .depths => return [.depths]
  | .trace label => return [.input, .fix 1, .record .trace label]
  | .bind name key form => do
    return [.yield value, .bind (← scope name) key (form.options further.head?)]
  | .popOutOfOrder first second => return [.popOutOfOrder first second, .yield (.int 1)]

/-- Builds a node made by hand and keeps it under its name. -/
def constructByHand (form : NodeForm) (inputs : List Value) (value : Value) (further : List Value) :
    SessionM Value := do
  let v ← construct {
    operation := form.operation
    source := form.source
    inputs
    body := .program (← actions value further form.recipe)
    flags := form.flags
    follows := form.follows }
  match form.name, v.asNode? with
  | some name, some n => do
    keep name v
    modify fun s => { s with handmade := s.handmade.insert name n }
  | _, _ => pure ()
  return v

mutual

/-- Builds an expression. -/
def build : Expr → SessionM Value
  | .value v => return v
  | .list items => do return .list (← buildAll items)
  | .map entries => do return .map (OrderedMap.ofPairs (← buildEntries entries))
  | .tagged e info => do return (← build e).withMetadata info
  | .lazy e => do construct (programSpec "lazy" [.yield (← build e)])
  | .failing e => construct (programSpec "lazy_fail" [.raise e])
  | .queue name => do
    let queue := Queue.ofCapacity Queue.defaultCapacity
    return .resource (← addResource name (.queue { queue }))
  | .variable name source => evalWiring do return .ok (← Wiring.reference name source)
  | .register name => register name
  | .resource name => do
    let id ← resource name
    return (((← world).resource? id).map fun r => .resource ⟨id, r.name⟩).getD .void
  | .operator form operands => do wireToken form (← buildAll operands)
  | .assignment form value condition constraint => do
    let value ← build value
    holding value.held do
      let condition ← buildOptional condition
      let predicate ← holding (heldByItems condition.toList) (buildOptional constraint)
      wireAssignment form value condition predicate
  | .node form inputs value further => do
    let inputs ← buildAll inputs
    holding (heldByItems inputs) do
      let value ← buildOptional value
      let further ← holding (heldByItems value.toList) (buildAll further)
      constructByHand form inputs (value.getD .void) further

/-- Builds expressions from left to right. -/
def buildAll : List Expr → SessionM (List Value)
  | [] => return []
  | e :: rest => do
    let v ← build e
    return v :: (← holding v.held (buildAll rest))

/-- Builds the values of entries from left to right. -/
def buildEntries : List (String × Expr) → SessionM (List (String × Value))
  | [] => return []
  | (key, e) :: rest => do
    let v ← build e
    return (key, v) :: (← holding v.held (buildEntries rest))

def buildOptional : Option Expr → SessionM (Option Value)
  | none => return none
  | some e => do return some (← build e)

end

/-- Builds a callback. -/
def callback (r : Receiver) : SessionM Callback := do
  let received := [.input, .record .delivery r.label]
  match r.reaction with
  | .none => return .program (received ++ [.yield .void])
  | .fail e => return .program (received ++ [.raise e])
  | .notify name => return .program (received ++ [.notifyNamed name])
  | .bind key name => return .program (received ++ [.bind (← scope name) key {}])
  | .evaluate e => return .program (received ++ [.yield (← build e), .fix 1])

end SessionM
end ReactiveScript
