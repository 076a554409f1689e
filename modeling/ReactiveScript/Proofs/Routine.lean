import ReactiveScript.Evaluation.Step
import ReactiveScript.Proofs.Change
import ReactiveScript.Script

/-!
# Routines

What the evaluator is made of: reading the world, changing it, raising and catching errors, asking
for tasks, and evaluating for a while with something pushed or held. A routine is an evaluation that
is put together from these alone. What is shown of each part holds of every routine, and so of all
tasks; only a notification marks its node besides.
-/

namespace ReactiveScript
namespace Eval

variable {α β : Type}

/-- Evaluates between a change of the world and the one that ends it, which sees both worlds. -/
def bracket (enter : World → World) (leave : World → World → World) (x : Eval α) : Eval α :=
  fun perform w =>
    let (result, w') := x perform (enter w)
    (result, leave w w')

/-- What an evaluation can be put between. -/
inductive Bracketing : (World → World) → (World → World → World) → Prop where
  | scope (s : ScopeId) :
      Bracketing (fun w => w.modifyContext fun c => c.push s) fun _ w' => w'.popScope s
  | call (id : NodeId) :
      Bracketing (fun w => w.modifyContext fun c => c.enterCall id)
        fun _ w' => w'.modifyContext Context.leaveCall
  | hold (held : List Held) :
      Bracketing (fun w => { w with inUse := held ++ w.inUse })
        fun w w' => { w' with inUse := w.inUse }
  | line (isWorker : Bool) :
      Bracketing
        (fun w => { w with
          context := { reports := false, isWorker }
          inUse := w.context.scopes.held ++ w.inUse })
        fun w w' => { w' with context := w.context, inUse := w.inUse }

/-- The evaluations that are put together from the parts of the evaluator; their programs are
restricted by a predicate on actions. -/
inductive Routine (p : Action → Prop) : {α : Type} → Eval α → Prop where
  | pure {α : Type} (a : α) : Routine p (pure a)
  | raise {α : Type} (e : EvalError) : Routine p (raise e : Eval α)
  | exhausted {α : Type} : Routine p (exhausted : Eval α)
  | bind {α β : Type} {x : Eval α} {f : α → Eval β} (hx : Routine p x)
      (hf : ∀ a, Routine p (f a)) : Routine p (x >>= f)
  | look {α : Type} {f : World → Eval α} (hf : ∀ w, w.Allowed p → Routine p (f w)) :
      Routine p (world >>= f)
  | change {α : Type} {f : World → α × World}
      (hf : ∀ w, w.Allowed p → Change p w (f w).2) : Routine p (modifyGet f)
  | perform {t : Task} (ht : t.Allowed p) : Routine p (perform t)
  | attempt {α : Type} {x : Eval α} (hx : Routine p x) : Routine p (attempt x)
  | bracket {α : Type} {enter : World → World} {leave : World → World → World} {x : Eval α}
      (hb : Bracketing enter leave) (hx : Routine p x) : Routine p (bracket enter leave x)
  | takeCorruption : Routine p takeCorruption
  | popOutOfOrder {first second : String} (h : p (.popOutOfOrder first second)) :
      Routine p (popOutOfOrder first second)

namespace Routine

variable {p : Action → Prop}

theorem modify {f : World → World} (hf : ∀ w, w.Allowed p → Change p w (f w)) :
    Routine p (Eval.modify f) := Routine.change (f := fun w => ((), f w)) hf

theorem ofExcept (r : Except EvalError α) : Routine p (Eval.ofExcept r) := by
  cases r with
  | ok a => exact .pure a
  | error e => exact .raise e

theorem note (e : Event) : Routine p (Eval.note e) := modify fun w _ => .note w e

theorem holding (held : List Held) {x : Eval α} (hx : Routine p x) :
    Routine p (Eval.holding held x) := .bracket (.hold held) hx

theorem withScope (scope : ScopeId) {x : Eval α} (hx : Routine p x) :
    Routine p (Eval.withScope scope x) := .bracket (.scope scope) hx

end Routine
end Eval
end ReactiveScript
