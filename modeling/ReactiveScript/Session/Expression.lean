import ReactiveScript.Wiring

/-!
# Expressions of a session

What a session is asked to build: values with deferred parts, references to variables and to what
the session has named, operators, assignments, and nodes made by hand. An expression is plain data;
building it numbers its nodes in a fixed order, the parts before the whole and from left to right.
-/

namespace ReactiveScript.Session

/-- By which rule a token is wired. -/
inductive Route
  /-- The rule that the operator table gives. -/
  | table
  /-- The rule for one operand, whatever the operator. -/
  | unary
  /-- The rule for two operands, whatever the operator. -/
  | binary
deriving DecidableEq, Repr

/-- An operator token without its operands. -/
structure TokenForm where
  op : Operator
  source : Segment
  /-- The reactivity asked for, if not that of the table. -/
  reactive : Option Bool := none
  /-- The purity asked for, if not that of the table. -/
  isPure : Option Bool := none
  route : Route := .table

/-- An assignment without its values. -/
structure AssignmentForm where
  op : Operator
  target : String
  fingerprint : String
  declaredType : Option TypeTag
  mutability : Option Mutability
  exported : Bool
  source : Segment

/-- How a value is bound to a name, without the predicate of the constraint. -/
structure BindForm where
  declare : Bool
  flags : BindingFlags
  declaredType : Option TypeTag
  fingerprint : String

def BindForm.options (f : BindForm) (predicate : Option Value) : BindOptions where
  declare := f.declare
  flags := f.flags
  constraint := predicate.map fun p => ⟨p, f.fingerprint⟩
  declaredType := f.declaredType

/-- What a node made by hand computes. -/
inductive Recipe where
  /-- The value it was made with. -/
  | constant
  | fail (e : EvalError)
  /-- One value after the other at each run. -/
  | sequence
  /-- The first input as it is. -/
  | input
  /-- The first input, forced. -/
  | forced
  | inputs
  | scopeName
  | depths
  /-- The first input, forced and written into the log. -/
  | trace (label : String)
  /-- The value it was made with, bound in a named scope. -/
  | bind (scope name : String) (form : BindForm)
  /-- One, after two scopes were popped in the wrong order. -/
  | popOutOfOrder (first second : String)

/-- A node made by hand without its values. -/
structure NodeForm where
  operation : String
  recipe : Recipe
  flags : NodeFlags
  follows : Option String
  /-- The name under which the session keeps the node. -/
  name : Option String
  source : Segment

inductive Expr where
  | value (v : Value)
  | list (items : List Expr)
  /-- A key that is repeated keeps its first place and its last value. -/
  | map (entries : List (String × Expr))
  | tagged (e : Expr) (info : Metadata)
  /-- A node that gives the value of an expression without forcing it. -/
  | lazy (e : Expr)
  /-- A node that raises an error. -/
  | failing (e : EvalError)
  /-- A new queue. -/
  | queue (name : String)
  | variable (name : String) (source : Segment)
  /-- The value that the session keeps under a name. -/
  | register (name : String)
  /-- The resource that the session keeps under a name. -/
  | resource (name : String)
  | operator (form : TokenForm) (operands : List Expr)
  | assignment (form : AssignmentForm) (value : Expr) (condition constraint : Option Expr)
  /-- The last expressions are the further values that the recipe needs. -/
  | node (form : NodeForm) (inputs : List Expr) (value : Option Expr) (further : List Expr)

instance : Inhabited Expr := ⟨.value .void⟩

/-- What a callback made by hand does after it has written the delivery into the log. -/
inductive Reaction where
  | none
  | fail (e : EvalError)
  /-- Notifies the node that the session keeps under a name. -/
  | notify (register : String)
  /-- Binds the delivered value in a named scope. -/
  | bind (name scope : String)
  | evaluate (e : Expr)

/-- A callback made by hand; its deliveries are logged under the label. -/
structure Receiver where
  label : String
  reaction : Reaction

end ReactiveScript.Session
