import ReactiveScript.Lifecycle
import ReactiveScript.Program

/-!
# Events

What a run leaves in the log, in the order in which it happens: deliveries, recorded values, handled
errors, calls of the hooks of a resource, and warnings.
-/

namespace ReactiveScript

/-- The calls that a resource backend receives. -/
inductive Hook
  | init
  | start
  | pause
  | unpause
  | stop
  | destroy
  | read
  | write
  | drain
  | all
  | size
  | subscribe
  | unsubscribe
deriving DecidableEq, Repr, Inhabited

namespace Hook

def name : Hook → String
  | init => "init"
  | start => "start"
  | pause => "pause"
  | unpause => "unpause"
  | stop => "stop"
  | destroy => "destroy"
  | read => "read"
  | write => "write"
  | drain => "drain"
  | all => "all"
  | size => "size"
  | subscribe => "subscribe"
  | unsubscribe => "unsubscribe"

/-- Every hook. -/
def every : List Hook :=
  [init, start, pause, unpause, stop, destroy, read, write, drain, all, size, subscribe,
    unsubscribe]

def ofName? (text : String) : Option Hook := every.find? fun h => h.name == text

end Hook

/-- What is known of the arguments of a hook. -/
inductive HookDetail
  | none
  | flags (blocking mutating : Bool)
  | written (v : Value) (blocking mutating : Bool)
  | identifier (id : String)

inductive Severity
  | warning
  | error
deriving DecidableEq, Repr

inductive Event where
  /-- A program wrote a value into the log under a label. -/
  | recorded (channel : Channel) (label : String) (v : Value)
  /-- An error handler ran. -/
  | handled (label : String) (error : String)
  /-- A backend that is recorded received a call. -/
  | hook (hook : Hook) (resource : String) (detail : HookDetail)
  /-- A backend sent a signal to itself. -/
  | reentered (signal : Signal) (result : Value)
  | report (severity : Severity) (message : String) (fields : List (String × String))

end ReactiveScript
