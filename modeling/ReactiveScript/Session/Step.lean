import ReactiveScript.Method
import ReactiveScript.Report.Values
import ReactiveScript.Report.World
import ReactiveScript.Session.Nodes
import ReactiveScript.Session.Resources
import ReactiveScript.Session.Scopes
import ReactiveScript.Session.Scripts
import ReactiveScript.Text.Quoted

/-!
# Steps

A session works through steps. Each step is answered by a report, by an error that was raised, or by
the reason why it was given up, and it leaves events in the log. A step may consist of further steps
that are carried out with the scopes of a snapshot pushed; each of them has an answer and events of
its own.

Nodes, scopes, resources, snapshots and subscriptions are given by their names in the session.
-/

namespace ReactiveScript.Session

/-- The place of a subscription, with its scope given by name. -/
inductive SlotName where
  | numbered (id : SubscriptionId)
  | assignment (scope target : String)
  | named (text : String)

inductive Step where
  | define (bare : Bool) (name : String) (e : Expr)
  | run (bare : Bool) (statements : List Expr)
  | enter (e : Expr)
  | force (bare : Bool) (e : Expr) (depth : Nat) (parallel : Bool)
  | forceDeep (bare : Bool) (e : Expr) (parallel : Bool)
  | call (bare : Bool) (method : Method) (operands : List Expr)
  | inspect (bare : Bool) (e : Expr)
  | listen (bare : Bool) (node : String) (key : Option String) (r : Receiver)
  | unlisten (node key : String)
  | notify (node : String)
  | constrain (node fingerprint : String)
  | execute (node : String)
  | annotate (node key text : String)
  | inspectNode (node : String)
  | predict (node : String)
  | predictKey (operation : String) (source : Segment) (inputs : List Expr)
  | checkType (node : String) (t : TypeTag) (threshold : Decimal)
  | addScope (name title : String) (parent : Option String) (source : Option SourceText)
  | set (bare : Bool) (scope name : String) (value : Expr) (form : BindForm)
      (constraint : Option Expr)
  | setParameter (bare : Bool) (scope name : String) (value : Expr)
  | lookup (scope name : String)
  | inspectBinding (scope name : String)
  | variableNames (scope : String)
  | bindings (scope : String)
  | listenVariable (scope name key : String) (r : Receiver)
  | unlistenVariable (scope name key : String)
  | setHandler (bare : Bool) (scope : String) (form : SessionM.HandlerForm) (value : Expr)
  | handleError (scope : String) (e : EvalError)
  | sameScope (a b : String)
  | describeScope (scope : String)
  | push (scope : String)
  | popLast
  | popAt (index : Nat)
  | locate
  | popScope (scope : String)
  | takeCorruption
  | snapshot (name : String) (of : Option String)
  /-- Carries out steps with the scopes of a snapshot pushed. -/
  | attach (snapshot : String) (steps : List Step)
  | makeQueue (name : String) (capacity : Option Nat)
  | makeRecording (name : String) (backend : RecordingBackend)
  | callResource (bare : Bool) (name : String) (value : Expr) (call : SessionM.Call)
  | signal (name : String) (s : Signal)
  | inspectResource (name : String)
  | settle (name : String)
  | deliver (bare : Bool) (name : String) (value : Expr) (otherLine : Bool)
  | subscribe (bare : Bool) (name : String) (source : Expr) (r : Receiver)
  | cancel (name : String)
  | inspectSubscription (name : String)
  | cancelSlot (slot : SlotName)
  | countSubscriptions
  | shutdown
  | exports
  | exported (name : String)
  | publish (bare : Bool) (name : String) (value : Expr)
  | rootTitle

/-- What a step is answered by. -/
inductive Answer where
  | outcome (r : Except EvalError Report)
  /-- The result of a signal and the state that it has left. -/
  | signalled (result : Except EvalError Value) (state : Option LifecycleState)
  | aborted (a : Abort)
  /-- The answers of further steps with their events. -/
  | nested (answers : List (Answer × List Event))

/-- The slot that a text names: that of a numbered subscription, or any other. -/
def slotOfText (text : String) : Slot :=
  let number := Text.natOfDigits (text.toList.drop 4)
  if subscriptionName number = text then .numbered number else .named text

end Session

namespace SessionM

open Session Report

/-- An outcome whose result is reported. -/
def reporting {α : Type} (tell : α → Report) (r : Except EvalError α) : Answer :=
  .outcome (r.map tell)

/-- The answer to a step that evaluates. -/
def evaluated (x : SessionM (Except EvalError Value)) : SessionM Answer := do
  return reporting value (← x)

/-- The answer to a step without a result of its own. -/
def done (x : SessionM (Except EvalError Unit)) : SessionM Answer := do
  return reporting (fun _ => nothing) (← x)

/-- The answer to a step that cannot fail. -/
def told (x : SessionM Report) : SessionM Answer := do return .outcome (.ok (← x))

def placeReport : SessionM Report := do
  let p ← place
  return record [
    ("current", ofOption text p.current),
    ("scopes", count p.scopes),
    ("calls", count p.calls)]

def bindingReport (r : BindingReport) : Report :=
  record [
    ("value", value r.binding.value),
    ("flags", r.binding.flags.report),
    ("type", tagName r.binding.declaredType),
    ("fingerprint", ofOption (fun c => text c.fingerprint) r.binding.constraint),
    ("constraint", ofOption (fun c => value c.predicate) r.binding.constraint),
    ("declaring", text r.declaring),
    ("local", truth r.isLocal),
    ("has", truth true)]

def snapshotReport (titles : List String) : Report :=
  record [
    ("empty", truth titles.isEmpty),
    ("top", ofOption text titles.getLast?),
    ("debug", text ("[" ++ ", ".intercalate (titles.map Text.quoted) ++ "]"))]

/-- The text of a subscription with what it follows. -/
def describeSubscription (r : SubscriptionReport) : String :=
  "Subscription \x7b id: " ++ Text.quoted r.name ++ ", target: " ++ Text.quoted r.target ++
    ", cancelled: " ++ (if r.cancelled then "true" else "false") ++ " \x7d"

/-- What is told of the subscription kept under a name. -/
def subscriptionReport (name : String) : SessionM Report := do
  let r ← inspectSubscription (← subscription name)
  return record [("cancelled", truth r.cancelled), ("debug", text (describeSubscription r))]

/-- What is told of a new subscription. -/
def newSubscriptionReport (id : SubscriptionId) : SessionM Report := do
  let r ← inspectSubscription id
  return record [("id", text r.name), ("resource", ofOption text r.resource)]

def resolveSlot : SlotName → SessionM Slot
  | .numbered id => return .numbered id
  | .assignment name target => do return .assignment (← scope name) target
  | .named name => return slotOfText name

/-- Continues with the result of something that may raise an error. -/
def thenTell {α : Type} (x : SessionM (Except EvalError α)) (tell : α → SessionM Report) :
    SessionM Answer := do
  match ← x with
  | .ok a => told (tell a)
  | .error e => return .outcome (.error e)

/-- Carries out a step that has no further steps in it. -/
def act : Step → SessionM Answer
  | .define bare name e => told do return value (← define bare name e)
  | .run bare statements => evaluated (runScript bare statements)
  | .enter e => evaluated (enter e)
  | .force bare e depth parallel => evaluated (force bare e depth parallel)
  | .forceDeep bare e parallel => evaluated (forceDeep bare e parallel)
  | .call bare method operands => evaluated (apply bare operands method.apply)
  | .inspect bare e => told do return (← buildInRoot bare e).report
  | .listen bare node key r => evaluated (listen bare node key r)
  | .unlisten node key => done (unlisten node key)
  | .notify node => evaluated (notify node)
  | .constrain node fingerprint => done (constrain node fingerprint)
  | .execute node => evaluated (execute node)
  | .annotate node key note => told do return info (← annotate node key note)
  | .inspectNode node => told do
    let (present, handmade) ← inspectNode node
    return Node.report present.ref present.node (handmade.map fun v => (v.ref, v.node))
  | .predict node => told do return ofOption TypePrediction.report (← predict node)
  | .predictKey operation source inputs =>
    told do return ofOption TypePrediction.report (← predictKey operation source inputs)
  | .checkType node t threshold =>
    told do return ofOption TypeWarning.report (← checkType node t threshold)
  | .addScope name title parent source => told do
    let s ← addScope name title parent source
    return s.report (← s.parent.mapM SessionM.title)
  | .set bare scope name v form constraint => evaluated (set bare scope name v form constraint)
  | .setParameter bare scope name v => done (setParameter bare scope name v)
  | .lookup scope name => evaluated (lookup scope name)
  | .inspectBinding scope name =>
    told do return ofOption bindingReport (← inspectBinding scope name)
  | .variableNames scope => told do return texts (← inspectScope scope).variableNames
  | .bindings scope => told do return bindings (← listBindings scope)
  | .listenVariable scope name key r => done (listenVariable scope name key r)
  | .unlistenVariable scope name key => done (unlistenVariable scope name key)
  | .setHandler bare scope form v => told do
    setHandler bare scope form v
    return nothing
  | .handleError scope e => evaluated (handleError scope e)
  | .sameScope a b => told do return truth ((← scope a) == (← scope b))
  | .describeScope scope => told do return text (← inspectScope scope).describe
  | .push scope => told do
    push scope
    placeReport
  | .popLast => told do
    popLast
    placeReport
  | .popAt index => told do
    popAt index
    placeReport
  | .locate => told placeReport
  | .popScope scope => done (popScope scope)
  | .takeCorruption => told do
    return ofOption (fun e => outcome (.error e)) (← takeCorruption)
  | .snapshot name of => told do return snapshotReport (← snapshot name of)
  | .attach _ _ => told (return nothing)
  | .makeQueue name capacity => told do
    makeQueue name capacity
    return nothing
  | .makeRecording name backend => told do
    makeResource name (.recording backend)
    return nothing
  | .callResource bare name v call => evaluated (callResource bare name v call)
  | .signal name s => do
    let result ← signal name s
    return .signalled result ((← inspectResource name).map Resource.state)
  | .inspectResource name => told do return ofOption Resource.report (← inspectResource name)
  | .settle name => told do return count (← settle name)
  | .deliver bare name v otherLine => told do
    let results ← deliver bare name v otherLine
    return list (results.map fun (id, result) => list [text id, outcome result])
  | .subscribe bare name source r => thenTell (subscribe bare name source r) newSubscriptionReport
  | .cancel name => thenTell (cancel name) fun _ => subscriptionReport name
  | .inspectSubscription name => told (subscriptionReport name)
  | .cancelSlot slot => do return reporting truth (← cancelSlot (← resolveSlot slot))
  | .countSubscriptions => told do return count (← subscriptionCount)
  | .shutdown => thenTell shutdown fun _ => do return count (← subscriptionCount)
  | .exports => told do return bindings (← exports)
  | .exported name => told do return found ((← world).exports.find? name)
  | .publish bare name v => done (publish bare name v)
  | .rootTitle => told do return text (← title (← get).root)

end SessionM

namespace Session

/-- Ends a step with its answer and its events. -/
def closeStep (answer : Answer) (s : Session) : Answer × List Event × Session :=
  let (events, s) := s.endStep
  (answer, events, s)

mutual

/-- Carries out a step: its answer, its events, and the session afterwards. -/
def carryOut (s : Session) : Step → Answer × List Event × Session
  | .attach snapshot steps =>
    let scopes := (s.snapshots.find? snapshot).getD []
    let (answers, s) := carryOutAll { s with world := s.world.attach scopes } steps
    closeStep (.nested answers) { s with world := s.world.detach scopes }
  | step =>
    match (SessionM.act step).run s with
    | (.ok answer, s) => closeStep answer s
    | (.error abort, s) => closeStep (.aborted abort) s

/-- Carries out steps one after the other. -/
def carryOutAll (s : Session) : List Step → List (Answer × List Event) × Session
  | [] => ([], s)
  | step :: rest =>
    let (answer, events, s) := carryOut s step
    let (answers, s) := carryOutAll s rest
    ((answer, events) :: answers, s)

end

end Session
end ReactiveScript
