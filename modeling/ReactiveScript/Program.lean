import ReactiveScript.Operator
import ReactiveScript.Value.Basic

/-!
# Programs of nodes and callbacks

What a node does when it is executed, what a callback does with the value it is given, and what an
error handler does with an error is held as data. A program is a list of actions; it runs on inputs
(the inputs of the node, the delivered value, the error), each action turns the result so far into
the next one, and the last result is that of the program.
-/

namespace ReactiveScript

abbrev NodeId := Nat
abbrev ScopeId := Nat
abbrev ResourceId := Nat
abbrev SubscriptionId := Nat

/-- The scopes that are active, the innermost one first. -/
abbrev ScopeStack := List ScopeId

structure BindingFlags where
  /-- Assigned once. -/
  isConst : Bool := false
  /-- May be written without a declaration. -/
  isVolatile : Bool := false
  /-- Introduced by a declaration. -/
  isDeclared : Bool := false
  /-- Bound by the runtime. -/
  isParameter : Bool := false
deriving DecidableEq, Repr, Inhabited

namespace BindingFlags

def union (a b : BindingFlags) : BindingFlags where
  isConst := a.isConst || b.isConst
  isVolatile := a.isVolatile || b.isVolatile
  isDeclared := a.isDeclared || b.isDeclared
  isParameter := a.isParameter || b.isParameter

end BindingFlags

/-- A predicate for the values of a variable. Constraints are told apart by their fingerprints. -/
structure Constraint where
  predicate : Value
  fingerprint : String
deriving Repr, Inhabited

/-- How a value is bound to a name. -/
structure BindOptions where
  /-- Bind in the given scope even if an outer one has the name. -/
  declare : Bool := false
  flags : BindingFlags := {}
  constraint : Option Constraint := none
  declaredType : Option TypeTag := none
deriving Repr, Inhabited

/-- Everything that an assignment needs to bind a value, now and in later deliveries. -/
structure Commit where
  target : String
  options : BindOptions
  /-- Whether the bound value is published outside the script. -/
  exported : Bool
  /-- The node on the right-hand side. -/
  source : Option NodeId
deriving Repr, Inhabited

/-- The place under which a subscription is kept. -/
inductive Slot
  | numbered (id : SubscriptionId)
  | assignment (scope : ScopeId) (target : String)
  | named (text : String)
deriving DecidableEq, Repr, Inhabited

/-- Under which heading a value is written into the log. -/
inductive Channel
  /-- A callback was given the value. -/
  | delivery
  /-- A node computed the value. -/
  | trace
deriving DecidableEq, Repr, Inhabited

mutual

/-- One step of a program. -/
inductive Action where
  /-- The result is a fixed value. -/
  | yield (v : Value)
  | raise (e : EvalError)
  /-- The result is the first input, void if there is none. -/
  | input
  /-- The result is the list of the inputs. -/
  | inputs
  /-- The result of the i-th run is the i-th value, and the last one from then on. -/
  | sequence (values : List Value)
  /-- Forces the result to a depth. -/
  | fix (depth : Nat)
  /-- Writes the result into the log. -/
  | record (channel : Channel) (label : String)
  /-- The result is the name of the current scope, void if there is none. -/
  | scopeName
  /-- The result holds the numbers of active scopes and of executions under way. -/
  | depths
  | notify (node : NodeId)
  /-- Notifies the node that is then kept under a name; the result is void if there is none. -/
  | notifyNamed (register : String)
  | listen (node : NodeId) (key : Option String) (callback : Callback)
  | unlisten (node : NodeId) (key : String)
  /-- Binds the result to a name. -/
  | bind (scope : ScopeId) (name : String) (options : BindOptions)
  | cancel (slot : Slot)
  | shutdown
  /-- Pushes two new root scopes and pops the first of them before the second. -/
  | popOutOfOrder (first second : String)
  /-- The result, an error value, is replaced by the name of its kind. -/
  | errorKind
  /-- Raises an exception with a message, whose cause is the result, an error value. -/
  | wrapError (message : String)
  /-- Raises the result, an error value. -/
  | raiseResult

/-- What is done with a delivered value. -/
inductive Callback where
  /-- Notifies a node downstream, as long as something holds the node. -/
  | relay (node : NodeId)
  | program (actions : List Action)
  /-- Delivers as long as a subscription is not cancelled. -/
  | guarded (subscription : SubscriptionId) (callback : Callback)
  /-- Evaluates an expression in the given scopes and a new one in which the value is bound. -/
  | evaluate (kind : String) (scopes : ScopeStack) (expr : Value)
  /-- Binds the right-hand side while the delivered condition is true, and void otherwise. -/
  | commitWhen (commit : Commit) (rhs : Value) (scopes : ScopeStack)
  /-- Binds the delivered value. -/
  | commit (commit : Commit) (scopes : ScopeStack)

end

instance : Inhabited Action := ⟨.input⟩

instance : Inhabited Callback := ⟨.program []⟩

/-- What a node computes from its inputs. -/
inductive Body where
  | program (actions : List Action)
  /-- The value of a variable in the current scope. -/
  | variable (name : String)
  /-- A value operator of one operand. -/
  | unary (op : Operator)
  /-- A value operator of two operands. -/
  | binary (op : Operator)
  /-- The second input, with the first one bound. -/
  | pipe
  /-- Evaluates the second input for everything that the first one delivers. -/
  | subscribe
  /-- Evaluates the second input whenever the first one notifies. -/
  | listen
  /-- Writes the first input to the second one. -/
  | publish
  /-- Writes the second input to the first one and waits for room. -/
  | write
  | assign (commit : Commit)
  | whenAssign (commit : Commit) (condition : Value)
  | subscribeAssign (commit : Commit)

instance : Inhabited Body := ⟨.program []⟩

/-- An error handler of a scope: its program runs on the error as its input. -/
structure Handler where
  label : String
  actions : List Action

end ReactiveScript
