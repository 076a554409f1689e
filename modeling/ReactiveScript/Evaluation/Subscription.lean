import ReactiveScript.Evaluation.Backend
import ReactiveScript.Evaluation.Forcing

/-!
# Subscriptions

A subscription follows a resource, which is started first if it never was, or a node; any other
value is delivered once at the time of subscribing. Cancelling sets a mark that is looked at before
each delivery, and it removes the callback from what it followed. The subscriptions that the runtime
keeps are in a table of slots; a slot that is taken again cancels the subscription it held.
-/

namespace ReactiveScript.Eval

/-- Raises an error that is given as a value. -/
def raiseErrorValue (v : Value) : Eval Unit := raiseIf v.asError?

/-- Takes the next subscription number. -/
def newSubscription : Eval SubscriptionId :=
  modifyGet fun w => (w.subscriptions.size + 1, { w with subscriptions := w.subscriptions.push {} })

/-- Starts a resource that was never started. -/
def startIfCreated (id : ResourceId) : Eval Unit := do
  if ((← world).resource? id).any fun r => r.state = .created then
    raiseErrorValue (← signal id .start)

/-- Connects a callback with what a value delivers. -/
def connect (source : Value) (name : String) (callback : Callback) : Eval SubscriptionTarget := do
  match source.untagged with
  | .resource r => do
    startIfCreated r.id
    raiseErrorValue (← callBackend r.id (.subscribe name callback))
    return .resource r.id
  | .node n => do
    let _ ← perform (.listen n.id (some name) callback)
    return .node n.id
  | other => do
    let _ ← perform (.deliver callback other)
    return .value

/-- Delivers every value that a source produces to a callback until the subscription is
cancelled. -/
def subscribe (source : Value) (callback : Callback) : Eval SubscriptionId := do
  let id ← newSubscription
  let target ← holding (source.held ++ callback.held)
    (connect source (subscriptionName id) (.guarded id callback))
  modify fun w => w.modifySubscription id fun s => { s with target }
  return id

/-- Removes the callback under a key from a node. -/
def unlisten (node : NodeId) (key : String) : Eval Unit :=
  modify fun w => w.modifyNode node fun n => { n with listeners := n.listeners.remove key }

/-- Stops the deliveries of a subscription. -/
def cancel (id : SubscriptionId) : Eval Unit := do
  match (← world).subscription? id with
  | none => pure ()
  | some s => do
    unless s.cancelled do
      modify fun w => w.modifySubscription id fun s => { s with cancelled := true }
      match s.target with
      | .resource r => do
        let _ ← callBackend r (.unsubscribe (subscriptionName id))
      | .node n => unlisten n (subscriptionName id)
      | .value => pure ()

/-- Takes the subscription of a slot out of the table. -/
def takeSlot (slot : Slot) : Eval (Option SubscriptionId) :=
  modifyGet fun w => (w.table.lookup slot, { w with table := w.table.filter fun e => e.1 ≠ slot })

/-- Keeps a subscription under a slot and cancels the one that the slot held. -/
def keep (slot : Slot) (id : SubscriptionId) : Eval Unit := do
  let previous ← takeSlot slot
  modify fun w => { w with table := w.table ++ [(slot, id)] }
  match previous with
  | some old => cancel old
  | none => pure ()

/-- Cancels the subscription of a slot and answers whether there was one. -/
def cancelSlot (slot : Slot) : Eval Bool := do
  match ← takeSlot slot with
  | some id => do
    cancel id
    return true
  | none => return false

/-- Cancels the subscriptions of slots and answers with the resources they followed. -/
def cancelSlots : List Slot → Eval (List ResourceId)
  | [] => pure []
  | slot :: rest => do
    match ← takeSlot slot with
    | none => cancelSlots rest
    | some id => do
      cancel id
      match ((← world).subscription? id).map Subscription.target with
      | some (.resource r) => return r :: (← cancelSlots rest)
      | _ => cancelSlots rest

/-- Stops a resource that runs or is paused; a failure is only reported. -/
def stopResource (id : ResourceId) : Eval Unit := do
  match (← world).resource? id with
  | none => pure ()
  | some r =>
    if r.state = .running ∨ r.state = .paused then
      let stopped ← signal id .stop
      match stopped.asError? with
      | some e =>
        report .warning "resource did not stop cleanly" [("resource", r.name), ("err", e.display)]
      | none => pure ()

def stopResources : List ResourceId → Eval Unit
  | [] => pure ()
  | id :: rest => do
    stopResource id
    stopResources rest

/-- Cancels every subscription that is kept and stops the resources that they followed. -/
def shutdown : Eval Unit := do
  let resources ← cancelSlots ((← world).table.map Prod.fst)
  stopResources resources.eraseDups

end ReactiveScript.Eval
