import ReactiveScript.Program

/-!
# Scopes

A scope binds names to values and refers to its parent. Names are looked up from a scope outward
along its chain of parents. All scopes of a run are kept in one table, in which a parent stands
before its children.
-/

namespace ReactiveScript

/-- What a name is bound to. -/
structure Binding where
  value : Value
  constraint : Option Constraint := none
  declaredType : Option TypeTag := none
  flags : BindingFlags := {}
deriving Repr, Inhabited

structure Scope where
  name : String
  parent : Option ScopeId
  bindings : OrderedMap Binding := []
  /-- The callbacks under their keys, for each variable. -/
  listeners : OrderedMap (OrderedMap Callback) := []
  handler : Option Handler := none
  source : Option SourceText := none
deriving Inhabited

namespace Scope

def binding? (s : Scope) (name : String) : Option Binding := s.bindings.find? name

def hasLocal (s : Scope) (name : String) : Bool := s.bindings.containsKey name

def bind (s : Scope) (name : String) (b : Binding) : Scope :=
  { s with bindings := s.bindings.insert name b }

/-- The callbacks of a variable in the order in which they were first registered. -/
def callbacks (s : Scope) (name : String) : List Callback :=
  ((s.listeners.find? name).getD []).values

/-- Registers a callback; a key that is registered already gets the new callback. -/
def listen (s : Scope) (name key : String) (callback : Callback) : Scope :=
  { s with listeners :=
      s.listeners.insert name (((s.listeners.find? name).getD []).insert key callback) }

def unlisten (s : Scope) (name key : String) : Scope :=
  match s.listeners.find? name with
  | some callbacks => { s with listeners := s.listeners.insert name (callbacks.erase key) }
  | none => s

/-- The names bound in the scope, in order. -/
def variableNames (s : Scope) : List String := s.bindings.keys.mergeSort

/-- A new scope inside a scope; it has the same source. -/
def childOf (parent : Scope) (id : ScopeId) (name : String) : Scope where
  name := name
  parent := some id
  source := parent.source

end Scope

/-- All scopes, by their numbers. -/
abbrev ScopeTable := Array Scope

namespace ScopeTable

/-- The scopes from one outward, following parents that stand before their children. The fuel
bounds the length. -/
def chainFrom (t : ScopeTable) : Nat → ScopeId → List ScopeId
  | 0, _ => []
  | fuel + 1, id =>
    match t[id]? with
    | none => []
    | some s =>
      match s.parent with
      | none => [id]
      | some parent => id :: chainFrom t fuel parent

/-- The scope itself, its parent, and so on outward. -/
def chain (t : ScopeTable) (id : ScopeId) : List ScopeId := chainFrom t t.size id

/-- The binding of a name in a scope itself. -/
def localBinding? (t : ScopeTable) (id : ScopeId) (name : String) : Option Binding :=
  t[id]?.bind fun s => s.binding? name

def hasLocal (t : ScopeTable) (id : ScopeId) (name : String) : Bool :=
  (t.localBinding? id name).isSome

/-- The nearest scope outward that binds a name. -/
def declaring? (t : ScopeTable) (id : ScopeId) (name : String) : Option ScopeId :=
  (t.chain id).find? fun s => t.hasLocal s name

/-- The binding of a name in the nearest scope that has one. -/
def binding? (t : ScopeTable) (id : ScopeId) (name : String) : Option Binding :=
  (t.declaring? id name).bind fun s => t.localBinding? s name

/-- The value of a name. -/
def find? (t : ScopeTable) (id : ScopeId) (name : String) : Option Value :=
  (t.binding? id name).map Binding.value

/-- The scope that a name is bound or listened to in: the one that declares it, else the given
one. -/
def targetOf (t : ScopeTable) (id : ScopeId) (name : String) : ScopeId :=
  (t.declaring? id name).getD id

/-- The error handler of the nearest scope outward that has one. -/
def handler? (t : ScopeTable) (id : ScopeId) : Option Handler :=
  (t.chain id).findSome? fun s => t[s]?.bind Scope.handler

def name (t : ScopeTable) (id : ScopeId) : String := (t[id]?.map Scope.name).getD ""

/-- Binds a name in a scope, past all checks. -/
def bind (t : ScopeTable) (id : ScopeId) (name : String) (b : Binding) : ScopeTable :=
  t.modify id fun s => s.bind name b

end ScopeTable
end ReactiveScript
