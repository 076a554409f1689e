import ReactiveScript.Evaluation.Basic

/-!
# Calls of backends

A request to a resource, a signal that runs the hooks of its lifecycle, and the delivery of the
items of a queue. A recording backend writes each call into the log and may signal itself before it
answers; its failures are error values.
-/

namespace ReactiveScript.Eval

/-- Makes a change to the backend of a resource and gives its answer. -/
def answerRequest (id : ResourceId) (request : Request) : Eval Value :=
  modifyGet fun w =>
    match w.resource? id with
    | none => (.void, w)
    | some r =>
      let (v, backend) := r.backend.answer request
      (v, w.modifyResource id fun r => { r with backend })

/-- The request to a backend that records its calls. -/
def callRecording (id : ResourceId) (name : String) (b : RecordingBackend) (request : Request) :
    Eval Value := do
  if b.minimal && request.isLifecycle then return .void
  note (.hook request.hook name request.detail)
  match b.reentries.lookup request.hook with
  | some signal => do
    let result ← perform (.signal id signal)
    note (.reentered signal result)
  | none => pure ()
  match b.failures.lookup request.hook with
  | some message => return .error (EvalError.exception message)
  | none => answerRequest id request

/-- Sends a request to a resource. -/
def callBackend (id : ResourceId) (request : Request) : Eval Value := do
  match (← world).resource? id with
  | some ⟨name, _, .recording b⟩ => callRecording id name b request
  | _ => answerRequest id request

/-- Does the first thing and, unless it gave an error value, the second. -/
def unlessError (first second : Eval Value) : Eval Value := do
  let v ← first
  if v.isError then return v else second

/-- The hooks that a signal calls in a state in which it is valid. -/
def signalAction (id : ResourceId) (state : LifecycleState) : Signal → Eval Value
  | .start =>
    if state = .created then unlessError (callBackend id .init) (callBackend id .start)
    else callBackend id .start
  | .stop => callBackend id .stop
  | .pause => callBackend id .pause
  | .unpause => callBackend id .unpause
  | .destroy =>
    if state = .running ∨ state = .paused then
      unlessError (callBackend id .stop) (callBackend id .destroy)
    else callBackend id .destroy
  | .error => pure .void

/-- Sends a signal to a resource: an invalid one is answered by an error value, a valid one runs
its hooks and then makes its transition, unless the hooks have changed the state. -/
def signal (id : ResourceId) (s : Signal) : Eval Value := do
  match (← world).resource? id with
  | none => return .void
  | some r =>
    match r.state.transition? s with
    | none => return r.state.refusal r.name s
    | some target => do
      let result ← signalAction id r.state s
      modify fun w => w.modifyResource id fun now =>
        { now with state := r.state.settle target now.state (!result.isError) }
      return result

/-- Takes the next item that a queue has for its subscribers. -/
def takeItem (id : ResourceId) : Eval (Option Value) :=
  modifyGet fun w =>
    match w.resource? id with
    | some ⟨_, _, .queue b⟩ =>
      match b.queue.take? with
      | some (v, queue) =>
        (some v, w.modifyResource id fun r => { r with backend := .queue { b with queue } })
      | none => (none, w)
    | _ => (none, w)

/-- Counts an item as delivered. -/
def countDelivery (id : ResourceId) : Eval Unit :=
  modify fun w => w.modifyResource id fun r =>
    match r.backend with
    | .queue b => { r with backend := .queue { b with delivered := b.delivered + 1 } }
    | .recording _ => r

/-- Hands the items of a queue to a callback, in order, as long as there are any. A callback that
fails does not stop the delivery. -/
def poll (id : ResourceId) (callback : Callback) : Eval Value := do
  match ← takeItem id with
  | none => return .void
  | some v => do
    let _ ← attempt (holding (v.held ++ callback.held) (perform (.deliver callback v)))
    countDelivery id
    perform (.poll id callback)

end ReactiveScript.Eval
