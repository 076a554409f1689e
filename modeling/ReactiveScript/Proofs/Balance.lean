import ReactiveScript.Proofs.Reachability

/-!
# Balanced contexts

Scopes and executions are pushed and popped in pairs, however an evaluation ends. So every routine
whose programs never pop out of order leaves the stack of scopes and the stack of executions as it
has found them, and at no time is a corruption recorded: there is none unless one was pending.
-/

namespace ReactiveScript

open Eval

/-- Actions that do not pop scopes out of order. -/
def Action.Orderly : Action → Prop
  | .popOutOfOrder _ _ => False
  | _ => True

/-- The calls that the user of a runtime makes; inside `enter`, any routine can be run. -/
inductive Call (p : Action → Prop) : {α : Type} → Eval α → Prop where
  | fix (id : NodeId) (depth : Nat) (parallel : Bool) : Call p (resolve id depth parallel)
  | execute (id : NodeId) : Call p (execute id)
  | notify (id : NodeId) : Call p (perform (.notify id))
  | listen (id : NodeId) (key : Option String) {callback : Callback}
      (hc : callback.Allowed p) : Call p (listen id key callback)
  | set (scope : ScopeId) (name : String) (v : Value) (options : BindOptions) :
      Call p (bind scope name v options)
  | enter {α : Type} (root : ScopeId) {x : Eval α} (hx : Routine p x) :
      Call p (withScope root x)
  | wire (token : OperatorToken Value) : Call p (Wiring.wire token)
  | run (root : ScopeId) (statements : List Value) : Call p (Script.run root statements)

theorem Call.routine {α : Type} {p : Action → Prop} {x : Eval α} (h : Call p x) :
    Routine p x := by
  cases h with
  | fix id depth parallel => exact (Protocol.resolve id depth parallel).routine
  | execute id => exact (Protocol.execute id).routine
  | notify id => exact .perform trivial
  | listen id key hc => exact (Protocol.listen id key hc).routine
  | set scope name v options => exact (Protocol.bindName scope name v options).routine
  | enter root hx => exact Routine.withScope root hx
  | wire token => exact (Protocol.wire token).routine
  | run root statements => exact (Protocol.run root statements).routine

end ReactiveScript
