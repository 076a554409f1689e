import ReactiveScript.Scope

/-!
# Execution contexts

A line of execution has a stack of active scopes, the set of the nodes marked as notifying with the
guards of the notifications under way, and the stack of the nodes that are executing, whose size it
keeps. Scopes are popped by naming the scope that is expected on top. A pop out of order removes the
named scope from where it is and leaves a corruption behind, the first of which is kept until it is
taken. A guard takes the mark of its node away when it goes; so does the guard of a notification
that is refused, which goes at once.
-/

namespace ReactiveScript

/-- The nodes whose execution is under way, the innermost first, and how many they are. -/
structure CallStack where
  nodes : List NodeId
  size : Nat
  size_eq : size = nodes.length

namespace CallStack

/-- The stack of a line of execution on which nothing runs yet. -/
def empty : CallStack := ⟨[], 0, rfl⟩

instance : Inhabited CallStack := ⟨empty⟩

def push (s : CallStack) (node : NodeId) : CallStack :=
  ⟨node :: s.nodes, s.size + 1, by simp [s.size_eq]⟩

def pop (s : CallStack) : CallStack := ⟨s.nodes.drop 1, s.size - 1, by simp [s.size_eq]⟩

@[ext] theorem ext {s t : CallStack} (h : s.nodes = t.nodes) : s = t := by
  obtain ⟨nodes, size, rfl⟩ := s
  obtain ⟨nodes', size', rfl⟩ := t
  cases h
  rfl

@[simp] theorem pop_push (s : CallStack) (node : NodeId) : (s.push node).pop = s := by
  ext
  simp [push, pop]

end CallStack

/-- What a notification under way has in hand: it takes the mark of its node away when it goes. -/
structure NotifyGuard where
  node : NodeId
  /-- Whether a notification of the node was refused since, so that the mark is gone already. -/
  overtaken : Bool := false
deriving DecidableEq, Repr, Inhabited

/-- The guard after a notification of a node was refused. -/
def NotifyGuard.overtake (node : NodeId) (g : NotifyGuard) : NotifyGuard :=
  { g with overtaken := g.overtaken || g.node == node }

structure Context where
  /-- The active scopes, the innermost first. -/
  scopes : ScopeStack := []
  /-- The nodes that are marked as notifying; the next notification of each is skipped. -/
  notifying : List NodeId := []
  /-- The guards of the notifications under way, the innermost first. -/
  guards : List NotifyGuard := []
  calls : CallStack := CallStack.empty
  /-- What the first pop out of order has left. -/
  corruption : Option EvalError := none
  /-- Whether warnings on this line of execution are written into the log. -/
  reports : Bool := true
  /-- Whether the line of execution was made to force the children of a container. -/
  isWorker : Bool := false
deriving Inhabited

namespace Context

def current? (c : Context) : Option ScopeId := c.scopes.head?

def push (c : Context) (scope : ScopeId) : Context := { c with scopes := scope :: c.scopes }

/-- The error of a pop that expected a scope on top and found another one or none. -/
def popError (names : ScopeId → String) (expected : ScopeId) (found : Option ScopeId) : EvalError :=
  EvalError.scopeStackCorrupted
    ("expected scope '" ++ names expected ++ "' on top, found " ++
      (match found with
        | some s => "'" ++ names s ++ "'"
        | none => "nothing"))

/-- Removes a scope from the stack, and answers with an error if it was not on top. -/
def pop (c : Context) (names : ScopeId → String) (expected : ScopeId) :
    Option EvalError × Context :=
  if c.current? = some expected then (none, { c with scopes := c.scopes.drop 1 })
  else (some (popError names expected c.current?), { c with scopes := c.scopes.erase expected })

/-- Keeps a corruption unless there is one already. -/
def noteCorruption (c : Context) (e : EvalError) : Context :=
  { c with corruption := c.corruption.or (some e) }

def isNotifying (c : Context) (node : NodeId) : Bool := c.notifying.contains node

/-- Takes the mark of a node away. -/
def unmark (c : Context) (node : NodeId) : Context :=
  { c with notifying := c.notifying.filter (· != node) }

def enterNotify (c : Context) (node : NodeId) : Context :=
  { c with notifying := node :: c.notifying, guards := { node } :: c.guards }

/-- Drops the guard of a notification that is refused. -/
def refuseNotify (c : Context) (node : NodeId) : Context :=
  { c.unmark node with guards := c.guards.map (NotifyGuard.overtake node) }

/-- Drops the guard of the innermost notification. -/
def leaveNotify (c : Context) (node : NodeId) : Context :=
  { c.unmark node with guards := c.guards.drop 1 }

def enterCall (c : Context) (node : NodeId) : Context := { c with calls := c.calls.push node }

def leaveCall (c : Context) : Context := { c with calls := c.calls.pop }

end Context
end ReactiveScript
