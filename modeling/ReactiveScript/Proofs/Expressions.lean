import ReactiveScript.Proofs.Evaluators
import ReactiveScript.Proofs.Fuel
import ReactiveScript.Proofs.NodeFree

/-!
# Expressions of value operators

Trees of the operators that compute values, over constants without nodes. A tree has a direct
meaning: each operator is applied to the results of its operands, and a connective does not look at
its right operand if the left one decides. A tree can also be wired, from the leaves up, into nodes
that compute it when they are forced.
-/

namespace ReactiveScript

/-- The operators that compute a value from one operand. -/
inductive UnaryOperator
  | negate
  | not
  | size
  | inc
  | dec
deriving DecidableEq, Repr

/-- The operators that compute a value from two operands and look at both of them. -/
inductive BinaryOperator
  | plus
  | minus
  | multiply
  | divide
  | modulus
  | lessThan
  | greaterThan
  | lessEqual
  | greaterEqual
  | equal
  | notEqual
deriving DecidableEq, Repr

/-- The operators that look at their right operand only if the left one does not decide. -/
inductive Connective
  | and
  | or
deriving DecidableEq, Repr

namespace UnaryOperator

def operator : UnaryOperator → Operator
  | negate => .negate
  | not => .not
  | size => .size
  | inc => .inc
  | dec => .dec

/-- What the operator makes of a value. -/
def apply : UnaryOperator → Value → Except EvalError Value
  | negate, v => .ok v.negate
  | not, v => .ok v.logicalNot
  | size, v => .ok v.size
  | inc, v => v.plus (.int 1)
  | dec, v => v.minus (.int 1)

theorem apply_bare (op : UnaryOperator) (v : Value) :
    op.apply v.bare = (op.apply v).map Value.bare := by
  cases op with
  | negate => exact congrArg Except.ok v.negate_bare
  | not => exact congrArg Except.ok v.logicalNot_bare
  | size => exact congrArg Except.ok v.size_bare
  | inc => exact Value.plus_bare v (.int 1)
  | dec => exact Value.minus_bare v (.int 1)

theorem settled_apply (op : UnaryOperator) {v : Value} (h : v.NodeFree) :
    Value.Settled (op.apply v) := by
  cases op with
  | negate => exact Value.settled_ok (Value.nodeFree_hereditary.negate h)
  | not => exact Value.settled_ok (Value.nodeFree_hereditary.logicalNot h)
  | size => exact Value.settled_ok (Value.nodeFree_hereditary.size h)
  | inc => exact Value.nodeFree_hereditary.plus h rfl
  | dec => exact Value.nodeFree_hereditary.minus h rfl

end UnaryOperator

namespace BinaryOperator

def operator : BinaryOperator → Operator
  | plus => .plus
  | minus => .minus
  | multiply => .multiply
  | divide => .divide
  | modulus => .modulus
  | lessThan => .lessThan
  | greaterThan => .greaterThan
  | lessEqual => .lessEqual
  | greaterEqual => .greaterEqual
  | equal => .equal
  | notEqual => .notEqual

/-- What the operator makes of two values. -/
def apply : BinaryOperator → Value → Value → Except EvalError Value
  | plus, l, r => l.plus r
  | minus, l, r => l.minus r
  | multiply, l, r => l.multiply r
  | divide, l, r => l.divide r
  | modulus, l, r => l.modulus r
  | lessThan, l, r => .ok (l.lessThan r)
  | greaterThan, l, r => .ok (l.greaterThan r)
  | lessEqual, l, r => .ok (l.lessEqual r)
  | greaterEqual, l, r => .ok (l.greaterEqual r)
  | equal, l, r => .ok (l.equalTo r)
  | notEqual, l, r => .ok (l.notEqualTo r)

theorem apply_bare (op : BinaryOperator) (l r : Value) :
    op.apply l.bare r.bare = (op.apply l r).map Value.bare := by
  cases op with
  | plus => exact Value.plus_bare l r
  | minus => exact Value.minus_bare l r
  | multiply => exact Value.multiply_bare l r
  | divide => exact Value.divide_bare l r
  | modulus => exact Value.modulus_bare l r
  | equal => exact congrArg Except.ok (Value.equalTo_bare l r)
  | notEqual => exact congrArg Except.ok (Value.notEqualTo_bare l r)
  | _ => exact congrArg Except.ok (Value.comparison_bare _ l r)

theorem settled_apply (op : BinaryOperator) {l r : Value} (hl : l.NodeFree) (hr : r.NodeFree) :
    Value.Settled (op.apply l r) := by
  cases op with
  | plus => exact Value.nodeFree_hereditary.plus hl hr
  | minus => exact Value.nodeFree_hereditary.minus hl hr
  | multiply => exact Value.nodeFree_hereditary.multiply hl hr
  | divide => exact Value.nodeFree_hereditary.divide hl hr
  | modulus => exact Value.nodeFree_hereditary.modulus hl hr
  | equal => exact Value.settled_ok (Value.nodeFree_hereditary.equalTo hl hr)
  | notEqual => exact Value.settled_ok (Value.nodeFree_hereditary.notEqualTo hl hr)
  | _ => exact Value.settled_ok (Value.nodeFree_hereditary.comparison _ hl hr)

end BinaryOperator

namespace Connective

def operator : Connective → Operator
  | and => .and
  | or => .or

/-- The result, if the left operand decides it: an error does, and so does the truth value that
absorbs the other one. -/
def decision? : Connective → Value → Option Value
  | and, l => if l.isError then some l else if l.isTrue then none else some (.bool false)
  | or, l => if l.isError then some l else if l.isTrue then some (.bool true) else none

/-- The truth of a value as a value; an error stays. -/
def truthOf (v : Value) : Value := if v.isError then v else .bool v.isTrue

theorem decision?_bare (op : Connective) (l : Value) :
    op.decision? l.bare = (op.decision? l).map Value.bare := by
  cases op <;>
    simp only [decision?, Value.isError_bare, Value.isTrue_bare, apply_ite (Option.map Value.bare),
      Option.map_some, Option.map_none, Value.bare]

theorem truthOf_bare (v : Value) : truthOf v.bare = (truthOf v).bare := by
  simp only [truthOf, Value.isError_bare, Value.isTrue_bare, apply_ite Value.bare, Value.bare]

end Connective

namespace Value.Hereditary

variable {keyed : Prop} {P : Value → Prop} (hP : Hereditary keyed P)
include hP

theorem decision {op : Connective} {l v : Value} (hl : P l) (h : op.decision? l = some v) :
    P v := by
  by_cases he : l.isError
  · cases op <;>
      simp only [Connective.decision?, he, if_true, Option.some.injEq] at h <;> exact h ▸ hl
  · by_cases ht : l.isTrue <;> cases op <;> simp [Connective.decision?, he, ht] at h <;>
      exact h ▸ hP.datum trivial

theorem truthOf {v : Value} (h : P v) : P (Connective.truthOf v) := by
  unfold Connective.truthOf
  split
  · exact h
  · exact hP.datum trivial

end Value.Hereditary

/-- What was observed of executions, the latest first. -/
abbrev Observations := List (PredictionKey × TypeTag)

/-- A tree of operators, each with its place in the source. -/
inductive Expression where
  | constant (v : Value) (settled : v.NodeFree)
  | unary (op : UnaryOperator) (source : Segment) (operand : Expression)
  | binary (op : BinaryOperator) (source : Segment) (left right : Expression)
  | connective (op : Connective) (source : Segment) (left right : Expression)

namespace Expression

/-- The direct meaning. -/
def eval : Expression → Except EvalError Value
  | constant v _ => .ok v
  | unary op _ e => do op.apply (← e.eval)
  | binary op _ l r => do
    let v ← l.eval
    op.apply v (← r.eval)
  | connective op _ l r => do
    let v ← l.eval
    match op.decision? v with
    | some result => .ok result
    | none => return Connective.truthOf (← r.eval)

/-- Direct results hold no node. -/
theorem settled_eval (e : Expression) : Value.Settled e.eval := by
  induction e with
  | constant v settled => exact Value.settled_ok settled
  | unary op source e ih =>
    rw [eval]
    cases he : e.eval with
    | error err => exact Value.settled_error err
    | ok v => exact op.settled_apply (ih v he)
  | binary op source l r ihl ihr =>
    rw [eval]
    cases hl : l.eval with
    | error err => exact Value.settled_error err
    | ok v =>
      cases hr : r.eval with
      | error err => exact Value.settled_error err
      | ok v' => exact op.settled_apply (ihl v hl) (ihr v' hr)
  | connective op source l r ihl ihr =>
    rw [eval]
    cases hl : l.eval with
    | error err => exact Value.settled_error err
    | ok v =>
      show Value.Settled (match op.decision? v with
        | some result => .ok result
        | none => return Connective.truthOf (← r.eval))
      cases hd : op.decision? v with
      | some result => exact Value.settled_ok (Value.nodeFree_hereditary.decision (ihl v hl) hd)
      | none =>
        cases hr : r.eval with
        | error err => exact Value.settled_error err
        | ok v' => exact Value.settled_ok (Value.nodeFree_hereditary.truthOf (ihr v' hr))

/-- How many operators are above each other. -/
def height : Expression → Nat
  | constant _ _ => 0
  | unary _ _ e => e.height + 1
  | binary _ _ l r | connective _ _ l r => max l.height r.height + 1

/-- The name of the case of the value that stands for a wired expression. -/
def typeName : Expression → String
  | constant v _ => v.typeName
  | _ => "NODE"

/-- What is observed when an operator has been executed: the type of the result, if it has one. -/
def observation (op : Operator) (source : Segment) (inputs : List String)
    (result : Except EvalError Value) : Observations :=
  match result with
  | .ok v => v.typeTag?.toList.map fun t => (⟨op.name, source, inputs⟩, t)
  | .error _ => []

/-- What is observed of a right operand that is evaluated if the result of the left one satisfies a
test. -/
def observedAfter (test : Value → Bool) (left : Except EvalError Value) (right : Observations) :
    Observations :=
  match left with
  | .ok v => if test v then right else []
  | .error _ => []

/-- Everything that is observed in a direct evaluation, the latest first: each operator that is
evaluated, and none besides. -/
def observed : Expression → Observations
  | constant _ _ => []
  | unary op source e =>
    observation op.operator source [e.typeName] (unary op source e).eval ++ e.observed
  | binary op source l r =>
    observation op.operator source [l.typeName, r.typeName] (binary op source l r).eval ++
      (observedAfter (fun _ => true) l.eval r.observed ++ l.observed)
  | connective op source l r =>
    observation op.operator source [l.typeName, r.typeName] (connective op source l r).eval ++
      (observedAfter (fun v => (op.decision? v).isNone) l.eval r.observed ++ l.observed)

/-- The token of an operator, with what the operator table asks for. -/
def token (op : Operator) (source : Segment) (operands : List Value) : OperatorToken Value :=
  { op, operands, source }

/-- Wires an expression from the leaves up, the left operand first. -/
def wire : Expression → ExceptT WiringError Eval Value
  | constant v _ => return v
  | unary op source e => do
    let v ← e.wire
    ExceptT.mk (Wiring.wire (token op.operator source [v]))
  | binary op source l r => do
    let v ← l.wire
    let v' ← r.wire
    ExceptT.mk (Wiring.wire (token op.operator source [v, v']))
  | connective op source l r => do
    let v ← l.wire
    let v' ← r.wire
    ExceptT.mk (Wiring.wire (token op.operator source [v, v']))

end Expression

/-- A node computes an operator of its inputs, wherever it is executed. -/
structure Node.Computes (n : Node) (op : Operator) (source : Segment) (inputs : List Value)
    (body : Body) : Prop where
  operation : n.operation = op.name
  source : n.source = source
  inputs : n.inputs = inputs
  body : n.body = body
  captured : n.captured = none
  trigger : n.trigger = .inputs
  newScope : n.flags.newScope = false

/-- A value is a node that computes an operator. -/
def World.Computes (w : World) (u : Value) (op : Operator) (source : Segment)
    (inputs : List Value) (body : Body) : Prop :=
  ∃ id n, u = .node ⟨id, op.name⟩ ∧ w.node? id = some n ∧ n.Computes op source inputs body

namespace Expression

/-- A value stands for an expression in a world: a constant for itself, and a node for an operator
that it computes of values that stand for the operands. -/
def Wired (w : World) : Expression → Value → Prop
  | constant v _, u => u = v
  | unary op source e, u =>
    ∃ v, w.Computes u op.operator source [v] (.unary op.operator) ∧ e.Wired w v
  | binary op source l r, u =>
    ∃ v v', w.Computes u op.operator source [v, v'] (.binary op.operator) ∧
      l.Wired w v ∧ r.Wired w v'
  | connective op source l r, u =>
    ∃ v v', w.Computes u op.operator source [v, v'] (.binary op.operator) ∧
      l.Wired w v ∧ r.Wired w v'

theorem typeName_of_wired {w : World} {e : Expression} {v : Value} (h : e.Wired w v) :
    v.typeName = e.typeName := by
  cases e with
  | constant u _ => exact congrArg Value.typeName h
  | unary op source e =>
    obtain ⟨v, ⟨id, n, rfl, -⟩, -⟩ := h
    rfl
  | binary op source l r =>
    obtain ⟨v, v', ⟨id, n, rfl, -⟩, -⟩ := h
    rfl
  | connective op source l r =>
    obtain ⟨v, v', ⟨id, n, rfl, -⟩, -⟩ := h
    rfl

end Expression
end ReactiveScript
