import ReactiveScript.Session.Construction

/-!
# Building and forcing in a session

Expressions are built with the root scope pushed unless a scope is active or the step is *bare*; the
root scope is popped again before anything is forced. What is built is held until the step is done.
-/

namespace ReactiveScript.SessionM

open Session

/-- Builds an expression in the root scope. -/
def buildInRoot (bare : Bool) (e : Expr) : SessionM Value := inRoot bare (build e)

/-- Builds an expression and keeps its value. -/
def define (bare : Bool) (name : String) (e : Expr) : SessionM Value := do
  let v ← buildInRoot bare e
  keep name v
  return v

/-- Builds all statements of a script and then runs them. -/
def runScript (bare : Bool) (statements : List Expr) : SessionM (Except EvalError Value) := do
  let statements ← inRoot bare (buildAll statements)
  eval (Script.run (← get).root statements)

/-- Builds an expression in the active scopes and resolves it in the root scope. -/
def enter (e : Expr) : SessionM (Except EvalError Value) := do
  let v ← build e
  withScope (← get).root (eval (Eval.holding v.held (Eval.fix v 1)))

/-- Builds an expression and forces it to a depth. -/
def force (bare : Bool) (e : Expr) (depth : Nat) (parallel : Bool) :
    SessionM (Except EvalError Value) := do
  let v ← buildInRoot bare e
  eval (Eval.holding v.held (Eval.force parallel v depth))

/-- Builds an expression and forces it until no node is left. -/
def forceDeep (bare : Bool) (e : Expr) (parallel : Bool) : SessionM (Except EvalError Value) := do
  let v ← buildInRoot bare e
  eval (Eval.holding v.held (Eval.forceDeep parallel v))

/-- Builds operands and applies an operation to them, with the root scope pushed during both. -/
def apply {α : Type} (bare : Bool) (operands : List Expr) (operation : List Value → Eval α) :
    SessionM (Except EvalError α) :=
  inRoot bare do
    let operands ← buildAll operands
    eval (Eval.holding (heldByItems operands) (operation operands))

end ReactiveScript.SessionM
