import ReactiveScript.Event
import ReactiveScript.Queue

/-!
# Resources

A resource is a backend with a lifecycle. There are two backends: the bounded queue, and a plain
list that records every call it receives and can be told to fail or to signal itself. What a backend
answers to a request, and what it holds afterwards, is said here; what happens around a call is a
matter of the engine.
-/

namespace ReactiveScript

/-- What a backend can be asked. -/
inductive Request where
  | init
  | start
  | pause
  | unpause
  | stop
  | destroy
  | read (blocking mutating : Bool)
  | write (v : Value) (blocking mutating : Bool)
  | drain
  | all
  | size
  | subscribe (id : String) (callback : Callback)
  | unsubscribe (id : String)

namespace Request

def hook : Request → Hook
  | init => .init
  | start => .start
  | pause => .pause
  | unpause => .unpause
  | stop => .stop
  | destroy => .destroy
  | read .. => .read
  | write .. => .write
  | drain => .drain
  | all => .all
  | size => .size
  | subscribe .. => .subscribe
  | unsubscribe .. => .unsubscribe

/-- What the log shows of the arguments. -/
def detail : Request → HookDetail
  | read blocking mutating => .flags blocking mutating
  | write v blocking mutating => .written v blocking mutating
  | subscribe id _ => .identifier id
  | unsubscribe id => .identifier id
  | _ => .none

/-- Whether the request belongs to the lifecycle. -/
def isLifecycle : Request → Bool
  | init | start | pause | unpause | stop | destroy => true
  | _ => false

end Request

/-- The number of elements as a value. -/
def sizeValue (items : List Value) : Value := .int (Int64.ofInt items.length)

/-- A queue with the callbacks of its subscribers. -/
structure QueueBackend where
  queue : Queue
  subscribers : OrderedMap Callback := []
  /-- How many items have been handed to subscribers. -/
  delivered : Nat := 0

namespace QueueBackend

/-- The answer to a request and the queue afterwards. -/
def answer (b : QueueBackend) : Request → Value × QueueBackend
  | .init | .start => (.void, b)
  | .pause => (.void, { b with queue := b.queue.pause })
  | .unpause => (.void, { b with queue := b.queue.unpause })
  | .stop => (.void, { b with subscribers := [] })
  | .destroy => (.void, { b with subscribers := [], queue := b.queue.clear })
  | .read _ mutating =>
    let (v, queue) := b.queue.read mutating
    (v, { b with queue })
  | .write v _ _ => (v, { b with queue := b.queue.write v })
  | .drain =>
    let (items, queue) := b.queue.drain
    (.list items, { b with queue })
  | .all => (.list b.queue.items, b)
  | .size => (sizeValue b.queue.items, b)
  | .subscribe id callback => (.void, { b with subscribers := b.subscribers.insert id callback })
  | .unsubscribe id => (.void, { b with subscribers := b.subscribers.erase id })

end QueueBackend

/-- A list that records the calls it receives. -/
structure RecordingBackend where
  items : List Value := []
  subscribers : OrderedMap Callback := []
  /-- The calls that fail, with their messages. -/
  failures : List (Hook × String) := []
  /-- The calls during which the backend signals itself. -/
  reentries : List (Hook × Signal) := []
  /-- Whether the calls of the lifecycle are left at doing nothing. -/
  minimal : Bool := false

namespace RecordingBackend

/-- The answer to a request that does not fail, and the list afterwards. -/
def answer (b : RecordingBackend) : Request → Value × RecordingBackend
  | .read _ mutating =>
    match b.items with
    | [] => (.void, b)
    | v :: rest => (v, if mutating then { b with items := rest } else b)
  | .write v _ _ => (v, { b with items := b.items ++ [v] })
  | .drain => (.list b.items, { b with items := [] })
  | .all => (.list b.items, b)
  | .size => (sizeValue b.items, b)
  | .subscribe id callback =>
    (.void, { b with subscribers := b.subscribers.insertLast id callback })
  | .unsubscribe id => (.void, { b with subscribers := b.subscribers.erase id })
  | _ => (.void, b)

end RecordingBackend

inductive Backend where
  | queue (b : QueueBackend)
  | recording (b : RecordingBackend)

namespace Backend

def answer (b : Backend) (request : Request) : Value × Backend :=
  match b with
  | queue q =>
    let (v, q) := q.answer request
    (v, queue q)
  | recording r =>
    let (v, r) := r.answer request
    (v, recording r)

def subscribers : Backend → OrderedMap Callback
  | queue b => b.subscribers
  | recording b => b.subscribers

/-- The values that wait to be read. -/
def items : Backend → List Value
  | queue b => b.queue.items
  | recording b => b.items

end Backend

structure Resource where
  name : String
  state : LifecycleState := .created
  backend : Backend

/-- The text of a resource with its state. -/
def Resource.describe (r : Resource) : String :=
  "<resource " ++ r.name ++ " " ++ r.state.name ++ ">"

end ReactiveScript
