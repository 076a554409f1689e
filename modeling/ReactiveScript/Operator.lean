import ReactiveScript.Source.Basic

/-!
# Operators

The fixed table of operators and the tokens that name them. A token carries its operands, its place
in the source and what it asks of the node that is built from it.
-/

namespace ReactiveScript

/-- The position of an operator among its operands. -/
inductive OperatorKind
  | prefixed
  | postfixed
  | binary
  | assignment
deriving DecidableEq, Repr, Inhabited

namespace OperatorKind

def name : OperatorKind → String
  | prefixed => "Prefix"
  | postfixed => "Postfix"
  | binary => "Binary"
  | assignment => "Assignment"

/-- The number of operands. -/
def arity : OperatorKind → Nat
  | prefixed | postfixed => 1
  | binary | assignment => 2

end OperatorKind

inductive Operator
  | negate
  | not
  | fix
  | size
  | read
  | inc
  | dec
  | multiply
  | divide
  | modulus
  | plus
  | minus
  | lessThan
  | greaterThan
  | lessEqual
  | greaterEqual
  | equal
  | notEqual
  | and
  | or
  | pipe
  | subscribe
  | listen
  | publish
  | write
  | declaration
  | assignment
  | whenAssign
  | subscribeAssign
deriving DecidableEq, Repr, Inhabited

namespace Operator

/-- Every operator, in the order of the table. -/
def all : List Operator :=
  [negate, not, fix, size, read, inc, dec, multiply, divide, modulus, plus, minus, lessThan,
    greaterThan, lessEqual, greaterEqual, equal, notEqual, and, or, pipe, subscribe, listen,
    publish, write, declaration, assignment, whenAssign, subscribeAssign]

/-- The stable name, which is also the name of the nodes that the operator builds. -/
def name : Operator → String
  | negate => "negate"
  | not => "not"
  | fix => "fix"
  | size => "size"
  | read => "read"
  | inc => "inc"
  | dec => "dec"
  | multiply => "multiply"
  | divide => "divide"
  | modulus => "modulus"
  | plus => "plus"
  | minus => "minus"
  | lessThan => "less-than"
  | greaterThan => "greater-than"
  | lessEqual => "less-than-equal"
  | greaterEqual => "greater-than-equal"
  | equal => "equal"
  | notEqual => "not-equal"
  | and => "and"
  | or => "or"
  | pipe => "pipe"
  | subscribe => "subscribe"
  | listen => "listen"
  | publish => "publish"
  | write => "write"
  | declaration => "declaration"
  | assignment => "assignment"
  | whenAssign => "when-assign"
  | subscribeAssign => "subscribe-assign"

def symbol : Operator → String
  | negate => "-"
  | not => "!"
  | fix => "&"
  | size => "#"
  | read => "<-"
  | inc => "++"
  | dec => "--"
  | multiply => "*"
  | divide => "/"
  | modulus => "%"
  | plus => "+"
  | minus => "-"
  | lessThan => "<"
  | greaterThan => ">"
  | lessEqual => "<="
  | greaterEqual => ">="
  | equal => "=="
  | notEqual => "!="
  | and => "&&"
  | or => "||"
  | pipe => "|"
  | subscribe => "<*"
  | listen => "=>"
  | publish => ">>"
  | write => "<<"
  | declaration => ":="
  | assignment => "="
  | whenAssign => "?="
  | subscribeAssign => "*="

def kind : Operator → OperatorKind
  | negate | not | fix | size | read => .prefixed
  | inc | dec => .postfixed
  | declaration | assignment | whenAssign | subscribeAssign => .assignment
  | _ => .binary

/-- Whether the operator builds a deferred node. -/
def reactive : Operator → Bool
  | fix => false
  | _ => true

/-- Whether an evaluation depends on the operands only and changes nothing. -/
def isPure : Operator → Bool
  | read | subscribe | listen | publish | write => false
  | declaration | assignment | whenAssign | subscribeAssign => false
  | _ => true

/-- How tightly the operator binds. -/
def priority : Operator → Nat
  | negate | not | fix | size | read => 900
  | inc | dec => 950
  | multiply | divide | modulus => 700
  | plus | minus => 600
  | lessThan | greaterThan | lessEqual | greaterEqual => 500
  | equal | notEqual => 450
  | and => 400
  | or => 350
  | pipe => 300
  | subscribe | listen | publish | write => 250
  | declaration | assignment | whenAssign | subscribeAssign => 100

/-- The place in the table. -/
def rank (op : Operator) : Nat := all.idxOf op

def ofName? (text : String) : Option Operator := all.find? fun op => op.name == text

/-- The operator with a symbol in a position; the symbol alone may be ambiguous. -/
def ofSymbol? (text : String) (position : OperatorKind) : Option Operator :=
  all.find? fun op => op.symbol == text && op.kind == position

/-- The name with the symbol in parentheses. -/
def text (op : Operator) : String := op.name ++ " (" ++ op.symbol ++ ")"

theorem mem_all (op : Operator) : op ∈ all := by cases op <;> decide

end Operator

/-- One occurrence of an operator in a script. -/
structure OperatorToken (α : Type) where
  op : Operator
  operands : List α
  source : Segment
  /-- Whether a deferred node is asked for. -/
  reactive : Bool := op.reactive
  /-- Whether a node without side effects is asked for. -/
  isPure : Bool := op.isPure

namespace OperatorToken

variable {α : Type}

def lhs (t : OperatorToken α) : Option α := t.operands[0]?

def rhs (t : OperatorToken α) : Option α := t.operands[1]?

def hasExpectedArity (t : OperatorToken α) : Bool := t.operands.length == t.op.kind.arity

end OperatorToken
end ReactiveScript
