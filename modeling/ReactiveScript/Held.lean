import ReactiveScript.Program

/-!
# What is held

A node, a scope or a resource exists as long as something holds it. What values and programs hold is
said here, each thing as often as it is held.
-/

namespace ReactiveScript

/-- What exists as long as it is held. -/
inductive Held where
  | node (id : NodeId)
  | scope (id : ScopeId)
  | resource (id : ResourceId)
deriving DecidableEq, Repr

mutual

/-- The nodes and resources inside a value. -/
def Value.held : Value → List Held
  | .node n => [.node n.id]
  | .resource r => [.resource r.id]
  | .list items => heldByItems items
  | .map entries => heldByEntries entries
  | .tagged v _ => v.held
  | _ => []

def heldByItems : List Value → List Held
  | [] => []
  | v :: rest => v.held ++ heldByItems rest

def heldByEntries : List (String × Value) → List Held
  | [] => []
  | (_, v) :: rest => v.held ++ heldByEntries rest

end

/-- What a stack of scopes holds. -/
def ScopeStack.held (s : ScopeStack) : List Held := s.map Held.scope

def Constraint.held (c : Constraint) : List Held := c.predicate.held

def heldByConstraint (c : Option Constraint) : List Held := (c.map Constraint.held).getD []

def BindOptions.held (o : BindOptions) : List Held := heldByConstraint o.constraint

def Commit.held (c : Commit) : List Held := c.options.held

mutual

/-- What an action holds. A node that is looked up by its name is not held. -/
def Action.held : Action → List Held
  | .yield v => v.held
  | .sequence values => heldByItems values
  | .notify n => [.node n]
  | .listen n _ callback => .node n :: callback.held
  | .unlisten n _ => [.node n]
  | .bind scope _ options => .scope scope :: options.held
  | _ => []

def heldByActions : List Action → List Held
  | [] => []
  | a :: rest => a.held ++ heldByActions rest

/-- What a callback holds; a relay holds nothing. -/
def Callback.held : Callback → List Held
  | .relay _ => []
  | .program actions => heldByActions actions
  | .guarded _ callback => callback.held
  | .evaluate _ scopes expr => scopes.held ++ expr.held
  | .commitWhen c rhs scopes => c.held ++ rhs.held ++ scopes.held
  | .commit c scopes => c.held ++ scopes.held

end

def heldByCallbacks (callbacks : List Callback) : List Held := callbacks.flatMap Callback.held

def Body.held : Body → List Held
  | .program actions => heldByActions actions
  | .assign c => c.held
  | .whenAssign c condition => c.held ++ condition.held
  | .subscribeAssign c => c.held
  | _ => []

end ReactiveScript
