import ReactiveScript.Proofs.ListenerHistories
import ReactiveScript.Proofs.Listeners
import ReactiveScript.Proofs.Reachability
import ReactiveScript.Proofs.Waves

/-!
# Announcing a result

A notification executes its node once. When the result is there, the listeners that are registered
at this moment are called with it, each one once and in their order, until one of them fails; what
becomes of the registration while they are called does not matter to this notification any more.
-/

namespace ReactiveScript

open Eval

section deliveries

variable {perform other : Task → Run Value} {v : Value} {w : World}

end deliveries

section announce

variable {perform other : Task → Run Value} {id : NodeId} {w : World}

end announce

/-- A callback on a variable that listens to a node. -/
def latecomer : Callback :=
  .program [.input, .record .delivery "ran", .listen 1 (some "late") heard]

/-- A node whose function binds a variable. -/
def binding : World :=
  World.listened { nodes := #[{ steadyNode [] with body := .program [.yield (.int 5), .bind 0 "x" {}] }]
                   scopes := #[{ name := "root", parent := none }] } 0 "x" "v" latecomer

end ReactiveScript
