import ReactiveScript.Evaluation.Backend
import ReactiveScript.Evaluation.Forcing
import ReactiveScript.Value.Cast
import ReactiveScript.Value.Container

/-!
# Operations on deferred operands

Each operation of values forces the operands it looks at and then applies itself to the results.
The receiver of a binary operation is forced to a concrete value, its argument all the way down,
in this order, and the first result is held meanwhile. Conjunction and disjunction force their right
operand only if the left one does not decide.
-/

namespace ReactiveScript.Eval

/-- Applies a function to a value forced to a concrete one. -/
def onConcrete (f : Value → Value) (v : Value) : Eval Value := do return f (← fix v 1)

/-- Applies a partial operation to a concrete receiver and a settled argument. -/
def onOperands (f : Value → Value → Except EvalError Value) (l r : Value) : Eval Value := do
  let l ← fix l 1
  let r ← holding l.held (fixDeep r)
  ofExcept (f l r)

/-- Applies a function to two settled operands. -/
def onSettled (f : Value → Value → Value) (l r : Value) : Eval Value := do
  let l ← fixDeep l
  let r ← holding l.held (fixDeep r)
  return f l r

/-- The truth of an operand as a value; an error is passed on. -/
def truthOf (v : Value) : Eval Value := do
  let v ← fix v 1
  return if v.isError then v else .bool v.isTrue

def and (l r : Value) : Eval Value := do
  let l ← fix l 1
  if l.isError then return l
  if l.isTrue then holding l.held (truthOf r) else return .bool false

def or (l r : Value) : Eval Value := do
  let l ← fix l 1
  if l.isError then return l
  if l.isTrue then return .bool true else holding l.held (truthOf r)

/-- Equality of settled operands. -/
def equals (l r : Value) : Eval Bool := do
  let l ← fixDeep l
  let r ← holding l.held (fixDeep r)
  return l.same r

/-- The next item of a resource; any other value is read as itself. -/
def read (v : Value) : Eval Value := do
  let v ← fix v 1
  match v.asResource? with
  | some r => callBackend r.id (.read false true)
  | none => return v

def set (v key value : Value) : Eval Value := onOperands (fun v key => v.set key value) v key

def cast (v : Value) (target : TypeTag) : Eval Value := do ofExcept ((← fix v 1).cast target)

/-- An operator of one operand. -/
def evaluateUnary : Operator → Value → Eval Value
  | .negate, v => onConcrete Value.negate v
  | .not, v => onConcrete Value.logicalNot v
  | .fix, v => fixDeep v
  | .size, v => onConcrete Value.size v
  | .inc, v => onOperands Value.plus v (.int 1)
  | .dec, v => onOperands Value.minus v (.int 1)
  | .read, v => read v
  | op, _ => raise (EvalError.exception ("'" ++ op.name ++ "' is not a unary operator"))

/-- An operator of two operands. -/
def evaluateBinary : Operator → Value → Value → Eval Value
  | .plus, l, r => onOperands Value.plus l r
  | .minus, l, r => onOperands Value.minus l r
  | .multiply, l, r => onOperands Value.multiply l r
  | .divide, l, r => onOperands Value.divide l r
  | .modulus, l, r => onOperands Value.modulus l r
  | .lessThan, l, r => onSettled Value.lessThan l r
  | .greaterThan, l, r => onSettled Value.greaterThan l r
  | .lessEqual, l, r => onSettled Value.lessEqual l r
  | .greaterEqual, l, r => onSettled Value.greaterEqual l r
  | .equal, l, r => onSettled Value.equalTo l r
  | .notEqual, l, r => onSettled Value.notEqualTo l r
  | .and, l, r => and l r
  | .or, l, r => or l r
  | op, _, _ => raise (EvalError.exception ("'" ++ op.name ++ "' is not a value operator"))

end ReactiveScript.Eval
