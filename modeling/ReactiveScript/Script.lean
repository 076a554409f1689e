import ReactiveScript.Evaluation.Forcing

/-!
# Running scripts

The statements of a script are forced one after the other in its root scope. A statement that raises
an error or leaves an error value has failed. If the settings say so, and always at a fatal error,
the first failure ends the script; otherwise the script goes on, and in the end the first failure is
raised with the later ones as causes.
-/

namespace ReactiveScript.Script

open Eval

/-- The outcome of a statement: an error that was left as a value is a failure too. -/
def outcomeOf : Except EvalError Value → Except EvalError Value
  | .ok v => match v.asError? with
    | some e => .error e
    | none => .ok v
  | .error e => .error e

/-- The outcome of a script with its last value and its failures, the first one first. -/
def conclude (last : Value) : List EvalError → Eval Value
  | [] => return last
  | first :: later => raise (later.foldl EvalError.withCause first)

/-- Forces statements, the first of which has the given index. -/
def runFrom (index : Nat) (last : Value) (failures : List EvalError) : List Value → Eval Value
  | [] => conclude last failures
  | statement :: rest => do
    let settings := (← world).settings
    let forced := holding last.held (force settings.parallel statement 1)
    match outcomeOf (← attempt forced) with
    | .ok v => runFrom (index + 1) v failures rest
    | .error e => do
      report .error ("unhandled error: " ++ e.report) [("statement", Text.ofNat index)]
      if settings.failFast || e.isFatal then raise e
      else runFrom (index + 1) last (failures ++ [e]) rest

/-- Runs the statements of a script, which are held meanwhile, in its root scope. -/
def run (root : ScopeId) (statements : List Value) : Eval Value :=
  withScope root (holding (heldByItems statements) (runFrom 0 .void [] statements))

end ReactiveScript.Script
