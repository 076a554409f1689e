import ReactiveScript.Evaluation.Execution

/-!
# Carrying out tasks

Each task is carried out by the function named after it, which may ask for further tasks. Fuel
bounds how deep tasks nest; a task that is asked for without fuel exhausts the evaluation.
-/

namespace ReactiveScript

namespace Eval

/-- What a task does. -/
def step : Task → Eval Value
  | .resolve node depth parallel => resolve node depth parallel
  | .settle v parallel => settle parallel v
  | .listen node key callback => listen node key callback
  | .notify node => notify node
  | .deliver callback v => deliver callback v
  | .signal resource s => signal resource s
  | .poll resource callback => poll resource callback

end Eval

/-- Carries out a task with fuel for a number of nested tasks. -/
def performWith : Nat → Task → Run Value
  | 0, _ => fun w => (.error .exhausted, w)
  | fuel + 1, task => Eval.step task (performWith fuel)

/-- Evaluates with fuel. -/
def Eval.run {α : Type} (fuel : Nat) (x : Eval α) (w : World) : Except Interrupt α × World :=
  x (performWith fuel) w

end ReactiveScript
