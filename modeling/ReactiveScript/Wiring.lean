import ReactiveScript.Evaluation.Basic

/-!
# Wiring

Building nodes from operator tokens, from assignments and from references to variables. A token is
checked against the operator table before anything is built: its kind has to suit the builder, and
it needs as many operands as the kind has. Once the node is built, the token must not ask for
another reactivity than the node has, nor for purity of a node with side effects. The node of a
reactive operator is handed out as it is; that of an immediate operator is forced at once.
-/

namespace ReactiveScript

/-- What a node is built from. -/
structure NodeSpec where
  operation : String
  source : Segment
  inputs : List Value := []
  body : Body
  flags : NodeFlags := {}
  /-- The variable whose bindings notify the node, in place of its inputs. -/
  follows : Option String := none
deriving Inhabited

/-- Builds a node in the present context and gives it the next number. -/
def World.build (w : World) (spec : NodeSpec) : NodeRef × World :=
  let node : Node := {
    operation := spec.operation
    source := spec.source
    inputs := spec.inputs
    body := spec.body
    flags := spec.flags
    captured := if spec.flags.scopeClosure then some w.context.scopes else none
    trigger := match spec.follows with
      | some name => .variable name w.context.current?
      | none => .inputs }
  (⟨w.nextNode, spec.operation⟩, { w with nodes := w.nodes.push node })

/-- Why an operator token or an assignment cannot be wired. -/
inductive WiringError where
  | kindMismatch (op : Operator) (expected : OperatorKind)
  | arityMismatch (op : Operator) (found : Nat)
  /-- The token asks for the reactivity that the operator does not have. -/
  | reactivityMismatch (op : Operator) (requested : Bool)
  | purityMismatch (op : Operator)
  | missingCondition (target : String)
  /-- A token of an assignment operator lacks what an assignment needs. -/
  | assignmentToken (op : Operator)
deriving DecidableEq, Repr

namespace WiringError

def modeName (reactive : Bool) : String := if reactive then "reactive" else "immediate"

def message : WiringError → String
  | kindMismatch op expected =>
    "operator '" ++ op.name ++ "' is " ++ op.kind.name ++ ", builder expects " ++ expected.name
  | arityMismatch op found =>
    "operator '" ++ op.name ++ "' takes " ++ Text.ofNat op.kind.arity ++ " operands, got " ++
      Text.ofNat found
  | reactivityMismatch op requested =>
    "operator '" ++ op.name ++ "' was requested " ++ modeName requested ++ " but its builder is " ++
      modeName !requested
  | purityMismatch op =>
    "operator '" ++ op.name ++ "' has side effects and cannot be built as pure"
  | missingCondition target => "when-assignment to '" ++ target ++ "' has no condition"
  | assignmentToken op =>
    "'" ++ op.name ++ "' binds a variable; build it through an assignment"

end WiringError

namespace Wiring

/-- Whether a token suits a builder for operators of the given kinds, the first of which the builder
is named for. -/
def check (expected : OperatorKind) (others : List OperatorKind) (t : OperatorToken Value) :
    Except WiringError Unit :=
  if t.op.kind ≠ expected ∧ t.op.kind ∉ others then .error (.kindMismatch t.op expected)
  else if t.hasExpectedArity then .ok ()
  else .error (.arityMismatch t.op t.operands.length)

/-- The node of a token, given what it computes and its flags. -/
def specOf (t : OperatorToken Value) (body : Body) (flags : NodeFlags) : NodeSpec where
  operation := t.op.name
  source := t.source
  inputs := t.operands
  body := body
  flags := flags

/-- The flags that the operator table gives. -/
def tableFlags (op : Operator) : NodeFlags := { isPure := op.isPure, reactive := op.reactive }

/-- The node of an operator before or behind one operand. -/
def unarySpec (t : OperatorToken Value) : Except WiringError NodeSpec := do
  check .prefixed [.postfixed] t
  return specOf t (.unary t.op) (tableFlags t.op)

/-- The node of a value operator between two operands. -/
def binarySpec (t : OperatorToken Value) : Except WiringError NodeSpec := do
  check .binary [] t
  return specOf t (.binary t.op) (tableFlags t.op)

/-- What a flow operator computes, with the flags of its nodes. -/
def flow? : Operator → Option (Body × NodeFlags)
  | .pipe => some (.pipe, tableFlags .pipe)
  | .subscribe => some (.subscribe, { scopeClosure := true })
  | .listen => some (.listen, { scopeClosure := true })
  | .publish => some (.publish, {})
  | .write => some (.write, {})
  | _ => none

/-- The node of a token of any operator that is no assignment. -/
def spec (t : OperatorToken Value) : Except WiringError NodeSpec := do
  match t.op.kind, flow? t.op with
  | .assignment, _ => throw (.assignmentToken t.op)
  | .prefixed, _ | .postfixed, _ => unarySpec t
  | .binary, some (body, flags) =>
    check .binary [] t
    return specOf t body flags
  | .binary, none => binarySpec t

/-- Builds a node. -/
def construct (s : NodeSpec) : Eval NodeRef := Eval.modifyGet fun w => w.build s

/-- The value of a token whose node is built: the node, or the result of forcing it now. -/
def finish (t : OperatorToken Value) (flags : NodeFlags) (n : NodeRef) :
    Eval (Except WiringError Value) := do
  if flags.reactive ≠ t.reactive then return .error (.reactivityMismatch t.op t.reactive)
  if t.isPure && !flags.isPure then return .error (.purityMismatch t.op)
  if t.reactive then return .ok (.node n)
  let parallel := (← Eval.world).settings.parallel
  let forced := Eval.perform (.resolve n.id 1 parallel)
  match ← Eval.attempt (Eval.holding [.node n.id] forced) with
  | .ok v => return .ok v
  | .error e => return .ok (.error e)

/-- Builds the node of a token by the given rule. -/
def wireBy (rule : OperatorToken Value → Except WiringError NodeSpec) (t : OperatorToken Value) :
    Eval (Except WiringError Value) := do
  match rule t with
  | .error e => return .error e
  | .ok s => do
    let n ← construct s
    finish t s.flags n

/-- Wires a token of any operator that is no assignment. -/
def wire (t : OperatorToken Value) : Eval (Except WiringError Value) := wireBy spec t

/-- The node that reads a variable in the scope in which it is forced. -/
def variableSpec (name : String) (source : Segment) : NodeSpec where
  operation := "variable"
  source := source
  body := .variable name
  flags := { isPure := true }
  follows := some name

/-- A reference to a variable. Whoever listens to it hears of every binding of the variable. -/
def reference (name : String) (source : Segment) : Eval Value := do
  return .node (← construct (variableSpec name source))

end Wiring

/-- A keyword that says how often a variable may be bound. -/
inductive Mutability
  | const
  | volatile
deriving DecidableEq, Repr

/-- One assignment of a script. -/
structure Assignment where
  target : String
  value : Value
  condition : Option Value := none
  constraint : Option Constraint := none
  declaredType : Option TypeTag := none
  mutability : Option Mutability := none
  exported : Bool := false
  source : Segment := Segment.unknown

namespace Assignment

/-- Whether an assignment declares its target in the current scope. -/
def declares (a : Assignment) (op : Operator) : Bool :=
  op == .declaration || a.declaredType.isSome || a.constraint.isSome || a.mutability.isSome

def flags (a : Assignment) : BindingFlags where
  isConst := a.mutability == some .const
  isVolatile := a.mutability == some .volatile

/-- How the assignment binds a value. -/
def commit (a : Assignment) (op : Operator) : Commit where
  target := a.target
  options := {
    declare := a.declares op
    flags := a.flags
    constraint := a.constraint
    declaredType := a.declaredType }
  exported := a.exported
  source := a.value.asNode?.map NodeRef.id

/-- What the node of an assignment computes. -/
def body (a : Assignment) : Operator → Except WiringError Body
  | .whenAssign => match a.condition with
    | some condition => .ok (.whenAssign (a.commit .whenAssign) condition)
    | none => .error (.missingCondition a.target)
  | .subscribeAssign => .ok (.subscribeAssign (a.commit .subscribeAssign))
  | op => .ok (.assign (a.commit op))

/-- The node of an assignment. -/
def spec (a : Assignment) (op : Operator) : Except WiringError NodeSpec := do
  if op.kind ≠ .assignment then throw (.kindMismatch op .assignment)
  let body ← a.body op
  return { operation := op.name, source := a.source, inputs := [a.value], body }

/-- Wires an assignment. -/
def wire (a : Assignment) (op : Operator) : Eval (Except WiringError Value) := do
  match a.spec op with
  | .error e => return .error e
  | .ok s => return .ok (.node (← Wiring.construct s))

end Assignment
end ReactiveScript
