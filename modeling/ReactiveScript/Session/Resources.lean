import ReactiveScript.Session.Construction

/-!
# The resources and subscriptions of a session

Making resources, calling and signalling them, delivering what they hold, and following the
subscriptions that the session or the runtime keeps. Deliveries of a queue take place while the
session waits for them, and on another line of execution.
-/

namespace ReactiveScript.SessionM

open Session

/-- Makes a resource and keeps it. -/
def makeResource (name : String) (backend : Backend) : SessionM Unit := do
  let r ← addResource name backend
  modify fun s => { s with resources := s.resources.insert name r.id }

/-- Makes a queue. -/
def makeQueue (name : String) (capacity : Option Nat) : SessionM Unit :=
  makeResource name
    (.queue { queue := Queue.ofCapacity (capacity.getD Queue.defaultCapacity) })

/-- What a resource is asked by hand, besides the value that goes with it. -/
inductive Call where
  | plain (request : Request)
  | write (blocking mutating : Bool)
  | subscribe (id : String) (r : Receiver)

/-- Builds a request. -/
def request (value : Value) : Call → SessionM Request
  | .plain r => return r
  | .write blocking mutating => return .write value blocking mutating
  | .subscribe id r => do return .subscribe id (← callback r)

/-- Builds a value, whatever use the request has for it, and sends the request to the backend of a
resource. -/
def callResource (bare : Bool) (name : String) (value : Expr) (call : Call) :
    SessionM (Except EvalError Value) := do
  let id ← resource name
  let value ← inRoot bare (build value)
  let request ← holding value.held (request value call)
  eval (Eval.holding value.held (Eval.callBackend id request))

/-- Sends a signal to a resource. -/
def signal (name : String) (s : Signal) : SessionM (Except EvalError Value) := do
  eval (Eval.perform (.signal (← resource name) s))

/-- The resource kept under a name. -/
def inspectResource (name : String) : SessionM (Option Resource) := do
  return (← world).resource? (← resource name)

/-- The number of the items that a queue has delivered to subscribers. -/
def deliveredBy (id : ResourceId) : SessionM Nat := do
  match ((← world).resource? id).map Resource.backend with
  | some (.queue b) => return b.delivered
  | _ => return 0

/-- Lets the subscribers of a queue take what they can get; the result is how many items the queue
has delivered since it was made. -/
def settle (name : String) : SessionM Nat := do
  let id ← resource name
  match ((← world).resource? id).bind fun r => r.backend.subscribers.head? with
  | some (_, callback) => do
    let _ ← eval (Eval.onOtherLine [] (Eval.perform (.poll id callback)))
  | none => pure ()
  deliveredBy id

/-- Hands a value to callbacks one after the other; an error of one does not keep the value from the
next. -/
def deliverEach (otherLine : Bool) (v : Value) :
    List (String × Callback) → SessionM (List (String × Except EvalError Value))
  | [] => return []
  | (id, callback) :: rest => do
    let delivery : Eval Value := Eval.perform (.deliver callback v)
    let delivery := if otherLine then Eval.onOtherLine [] delivery else delivery
    let result ← eval (Eval.holding (v.held ++ callback.held) delivery)
    return (id, result) :: (← deliverEach otherLine v rest)

/-- Builds a value and hands it to every subscriber of a resource. -/
def deliver (bare : Bool) (name : String) (value : Expr) (otherLine : Bool) :
    SessionM (List (String × Except EvalError Value)) := do
  let id ← resource name
  let v ← inRoot bare (build value)
  let subscribers := (((← world).resource? id).map fun r => r.backend.subscribers).getD []
  deliverEach otherLine v subscribers

/-- Subscribes a callback to the value of an expression and keeps the subscription. -/
def subscribe (bare : Bool) (name : String) (source : Expr) (r : Receiver) :
    SessionM (Except EvalError SubscriptionId) := do
  let source ← inRoot bare (build source)
  let callback ← holding source.held (callback r)
  match ← inRoot bare (eval (Eval.subscribe source callback)) with
  | .ok id => do
    modify fun s => { s with subscriptions := s.subscriptions.insert name id }
    return .ok id
  | .error e => return .error e

/-- The subscription kept under a name. -/
def subscription (name : String) : SessionM SubscriptionId := do
  return ((← get).subscriptions.find? name).getD 0

/-- Cancels the subscription kept under a name. -/
def cancel (name : String) : SessionM (Except EvalError Unit) := do
  eval (Eval.cancel (← subscription name))

/-- What a subscription follows, as text. -/
def targetText (w : World) : SubscriptionTarget → String
  | .resource id => ((w.resource? id).map Resource.describe).getD ""
  | .node id => ((w.node? id).map fun n => NodeRef.text ⟨id, n.operation⟩).getD ""
  | .value => "value"

/-- What is known of a subscription. -/
structure SubscriptionReport where
  name : String
  /-- What it follows, as text. -/
  target : String
  /-- The resource that it follows. -/
  resource : Option String
  cancelled : Bool

def inspectSubscription (id : SubscriptionId) : SessionM SubscriptionReport := do
  let w ← world
  let s := (w.subscription? id).getD {}
  let resource := match s.target with
    | .resource r => (w.resource? r).map Resource.name
    | _ => none
  return ⟨subscriptionName id, targetText w s.target, resource, s.cancelled⟩

/-- Cancels the subscription that the runtime keeps in a slot. -/
def cancelSlot (slot : Slot) : SessionM (Except EvalError Bool) := eval (Eval.cancelSlot slot)

/-- The number of subscriptions that the runtime keeps. -/
def subscriptionCount : SessionM Nat := do return (← world).table.length

/-- Cancels everything that the runtime keeps. -/
def shutdown : SessionM (Except EvalError Unit) := eval Eval.shutdown

/-- The published bindings in the order of their names. -/
def exports : SessionM (List (String × Value)) := do
  let exports := (← world).exports
  return (exports.keys.mergeSort).map fun key => (key, (exports.find? key).getD .void)

/-- Builds a value and publishes it. -/
def publish (bare : Bool) (name : String) (value : Expr) : SessionM (Except EvalError Unit) := do
  let v ← inRoot bare (build value)
  eval (Eval.publishBinding name v)

end ReactiveScript.SessionM
