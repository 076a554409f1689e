import ReactiveScript.Value.Basic

/-!
# The lifecycle of a resource

A signal either leads to another state or is not valid in the present one. A valid signal runs an
action before its transition is made; an action that fails leads to `failed` instead. If the action
has the state changed meanwhile, the transition of the outer signal is dropped.
-/

namespace ReactiveScript

inductive LifecycleState
  | created
  | running
  | paused
  | stopped
  | failed
deriving DecidableEq, Repr, Inhabited

inductive Signal
  | start
  | stop
  | pause
  | unpause
  | destroy
  | error
deriving DecidableEq, Repr, Inhabited

def LifecycleState.name : LifecycleState → String
  | created => "Created"
  | running => "Running"
  | paused => "Paused"
  | stopped => "Stopped"
  | failed => "Failed"

def LifecycleState.all : List LifecycleState := [created, running, paused, stopped, failed]

def Signal.name : Signal → String
  | start => "Start"
  | stop => "Stop"
  | pause => "Pause"
  | unpause => "Unpause"
  | destroy => "Destroy"
  | error => "Error"

def Signal.all : List Signal := [start, stop, pause, unpause, destroy, error]

namespace LifecycleState

/-- The state that a signal leads to; none if it is not valid. -/
def transition? : LifecycleState → Signal → Option LifecycleState
  | created, .start | stopped, .start => some running
  | running, .stop | paused, .stop => some stopped
  | running, .pause => some paused
  | paused, .unpause => some running
  | _, .destroy => some stopped
  | _, .error => some failed
  | _, _ => none

/-- The state after a valid signal whose action is done: `before` is the state at the signal, `now`
the one that the action left, `target` where the signal leads. -/
def settle (before target now : LifecycleState) (succeeded : Bool) : LifecycleState :=
  if now = before then if succeeded then target else failed else now

/-- The answer to a signal that is not valid. -/
def refusal (state : LifecycleState) (name : String) (signal : Signal) : Value :=
  .error (EvalError.exception
    (signal.name ++ " is not valid for " ++ name ++ " while " ++ state.name))

end LifecycleState

/-- A signal together with what its action does: the action sends further signals to the same
lifecycle, in order, and then answers. -/
structure SignalPlan where
  signal : Signal
  nested : List SignalPlan
  answer : Value

namespace SignalPlan

/-- The answer, the state that the action saw if it ran, and the state afterwards. -/
structure Outcome where
  result : Value
  actionState : Option LifecycleState
  state : LifecycleState

mutual

/-- Applies a planned signal to a lifecycle in a state. -/
def apply (name : String) (state : LifecycleState) : SignalPlan → Outcome
  | ⟨signal, nested, answer⟩ =>
    match state.transition? signal with
    | none => ⟨state.refusal name signal, none, state⟩
    | some target =>
      ⟨answer, some state, state.settle target (applyAll name state nested) (!answer.isError)⟩

/-- The state after a sequence of planned signals. -/
def applyAll (name : String) (state : LifecycleState) : List SignalPlan → LifecycleState
  | [] => state
  | plan :: rest => applyAll name (apply name state plan).state rest

end

/-- A signal whose action does nothing and answers void. -/
def quiet (signal : Signal) : SignalPlan := ⟨signal, [], .void⟩

end SignalPlan
end ReactiveScript
