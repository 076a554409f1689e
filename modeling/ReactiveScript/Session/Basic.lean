import ReactiveScript.Evaluation.Step
import ReactiveScript.Script
import ReactiveScript.Session.Expression

/-!
# Sessions

A session is a runtime together with what its user has named: nodes made by hand, scopes, resources,
stacks of scopes and subscriptions, and the scopes that were pushed by hand; values are kept by the
runtime. It works in *steps*. A step ends with an answer, or it is given up because an expression
cannot be wired or the fuel has run out; what it has changed until then stays.
-/

namespace ReactiveScript

structure Session where
  world : World := {}
  /-- The root scope of the script. -/
  root : ScopeId := 0
  /-- How deep tasks may nest. -/
  fuel : Nat := 0
  /-- The nodes made by hand that have a name. -/
  handmade : OrderedMap NodeRef := []
  scopes : OrderedMap ScopeId := []
  resources : OrderedMap ResourceId := []
  /-- The scopes pushed by hand, the latest last; a place is empty once its scope is popped. -/
  guards : List (Option ScopeId) := []
  snapshots : OrderedMap ScopeStack := []
  subscriptions : OrderedMap SubscriptionId := []
deriving Inhabited

namespace Session

/-- Why a step was given up. -/
inductive Abort where
  | wiring (e : WiringError)
  | exhausted

/-- A session with nothing named but the root scope, which is named after the file of the source if
there is one. -/
def start (fuel : Nat) (settings : Settings) (furtherReserved : List String)
    (source : Option SourceText) : Session :=
  let name := (source.bind (·.file)).getD "script"
  let world : World := { settings, reserved := reservedNames ++ furtherReserved }
  let (root, world) := world.addScope { name, parent := none, source }
  { world, root, fuel, scopes := [("root", root)] }

/-- What the session holds besides its runtime. -/
def held (s : Session) : List Held :=
  [.scope s.root] ++ s.handmade.values.map (fun n => .node n.id) ++
    s.scopes.values.map Held.scope ++ s.resources.values.map Held.resource ++
    s.guards.flatMap (fun g => g.toList.map Held.scope) ++
    s.snapshots.values.flatMap ScopeStack.held ++
    s.subscriptions.values.flatMap s.world.heldBySubscription

/-- Ends a step: its events are taken out of the log, the first one first. -/
def endStep (s : Session) : List Event × Session :=
  (s.world.log.reverse, { s with world := { s.world with log := [] } })

end Session

/-- A step of a session, or a part of one. -/
abbrev SessionM (α : Type) := ExceptT Session.Abort (StateM Session) α

namespace SessionM

variable {α : Type}

/-- Evaluates in the session, which holds what it has named meanwhile. -/
def eval (x : Eval α) : SessionM (Except EvalError α) := fun s =>
  match (Eval.holding s.held x).run s.fuel s.world with
  | (.ok a, world) => (.ok (.ok a), { s with world })
  | (.error (.raised e), world) => (.ok (.error e), { s with world })
  | (.error .exhausted, world) => (.error .exhausted, { s with world })

/-- Evaluates something that may turn out not to be wired. -/
def evalWiring (x : Eval (Except WiringError Value)) : SessionM Value := do
  match ← eval x with
  | .ok (.ok v) => return v
  | .ok (.error e) => throw (.wiring e)
  | .error e => return .error e

def world : SessionM World := do return (← get).world

def modifyWorld (f : World → World) : SessionM Unit := modify fun s => { s with world := f s.world }

/-- Does something between two changes of the world, the second of which is made in any case. -/
def between (before after : World → World) (x : SessionM α) : SessionM α := fun s =>
  let (result, s) := x { s with world := before s.world }
  (result, { s with world := after s.world })

/-- Does something while something is held besides what is held already. -/
def holding (held : List Held) (x : SessionM α) : SessionM α := do
  let inUse := (← world).inUse
  between (fun w => { w with inUse := held ++ inUse }) (fun w => { w with inUse }) x

/-- Does something with a scope pushed. -/
def withScope (scope : ScopeId) (x : SessionM α) : SessionM α :=
  between (fun w => w.modifyContext fun c => c.push scope) (fun w => w.popScope scope) x

/-- Does something with the root scope pushed, unless a scope is active or none is wanted. -/
def inRoot (bare : Bool) (x : SessionM α) : SessionM α := do
  let s ← get
  if bare || s.world.context.current?.isSome then x else withScope s.root x

/-- The value kept under a name, void if there is none. -/
def register (name : String) : SessionM Value := do
  return ((← world).registers.find? name).getD .void

/-- Keeps a value under a name. -/
def keep (name : String) (v : Value) : SessionM Unit :=
  modifyWorld fun w => { w with registers := w.registers.insert name v }

/-- The scope with a name. -/
def scope (name : String) : SessionM ScopeId := do
  let s ← get
  return (s.scopes.find? name).getD s.root

/-- The node kept under a name. -/
def node (name : String) : SessionM NodeRef := do
  return ((← world).registeredNode? name).getD default

def resource (name : String) : SessionM ResourceId := do
  return ((← get).resources.find? name).getD 0

end SessionM
end ReactiveScript
