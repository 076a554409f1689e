import ReactiveScript.VariableName
import ReactiveScript.World

/-!
# Evaluations

An evaluation reads and changes the world, and it ends with a result, with a raised error, or by
running out of fuel. The changes made before an error stay. Everything that can recur without bound
goes through one point, `Eval.perform`, which carries out a *task*; what an evaluation does besides
is plain recursion on data. How tasks are carried out is a parameter here and is closed, with fuel,
in `ReactiveScript.Evaluation.Step`.
-/

namespace ReactiveScript

/-- Why an evaluation has no result. -/
inductive Interrupt where
  | raised (e : EvalError)
  /-- The fuel did not suffice; nothing catches this. -/
  | exhausted

/-- What is evaluated by recurring into the evaluation itself. -/
inductive Task where
  /-- Executes a node and forces the result to a depth. -/
  | resolve (node : NodeId) (depth : Nat) (parallel : Bool)
  /-- Forces a value until it holds no node. -/
  | settle (v : Value) (parallel : Bool)
  /-- Registers a callback on a node. -/
  | listen (node : NodeId) (key : Option String) (callback : Callback)
  /-- Executes a node and delivers the result to its listeners. -/
  | notify (node : NodeId)
  /-- Hands a value to a callback. -/
  | deliver (callback : Callback) (v : Value)
  /-- Sends a signal to a resource. -/
  | signal (resource : ResourceId) (signal : Signal)
  /-- Hands the items of a queue to a callback until there are none. -/
  | poll (resource : ResourceId) (callback : Callback)

/-- A transition of the world with a result or an interruption. -/
abbrev Run (α : Type) := World → Except Interrupt α × World

/-- An evaluation, given how tasks are carried out. -/
def Eval (α : Type) := (Task → Run Value) → Run α

namespace Eval

variable {α β : Type}

instance : Monad Eval where
  pure a := fun _ w => (.ok a, w)
  bind x f := fun perform w =>
    match x perform w with
    | (.ok a, w) => f a perform w
    | (.error i, w) => (.error i, w)

instance : LawfulMonad Eval := LawfulMonad.mk' Eval
  (fun x => by
    funext perform w
    show (match x perform w with
      | (.ok a, w) => (.ok a, w)
      | (.error i, w) => (.error i, w)) = x perform w
    rcases x perform w with ⟨_ | _, _⟩ <;> rfl)
  (fun _ _ => rfl)
  (fun x f g => by
    funext perform w
    simp only [Bind.bind]
    rcases x perform w with ⟨_ | _, _⟩ <;> rfl)

@[simp] theorem pure_apply (a : α) (perform : Task → Run Value) (w : World) :
    (pure a : Eval α) perform w = (.ok a, w) := rfl

theorem bind_apply (x : Eval α) (f : α → Eval β) (perform : Task → Run Value) (w : World) :
    (x >>= f) perform w =
      match x perform w with
      | (.ok a, w) => f a perform w
      | (.error i, w) => (.error i, w) := rfl

/-- Carries out a task. -/
def perform (task : Task) : Eval Value := fun perform w => perform task w

/-- The present world. -/
def world : Eval World := fun _ w => (.ok w, w)

/-- Changes the world. -/
def modify (f : World → World) : Eval Unit := fun _ w => (.ok (), f w)

/-- Changes the world and answers with a part of the change. -/
def modifyGet (f : World → α × World) : Eval α := fun _ w => (.ok (f w).1, (f w).2)

def raise (e : EvalError) : Eval α := fun _ w => (.error (.raised e), w)

def exhausted : Eval α := fun _ w => (.error .exhausted, w)

/-- The result of a pure operation that may fail. -/
def ofExcept : Except EvalError α → Eval α
  | .ok a => pure a
  | .error e => raise e

/-- Turns a raised error into a result. -/
def attempt (x : Eval α) : Eval (Except EvalError α) := fun perform w =>
  match x perform w with
  | (.ok a, w) => (.ok (.ok a), w)
  | (.error (.raised e), w) => (.ok (.error e), w)
  | (.error .exhausted, w) => (.error .exhausted, w)

/-- Applies a change of the world at the end, however the evaluation ends. -/
def ensuring (x : Eval α) (cleanup : World → World) : Eval α := fun perform w =>
  let (result, w) := x perform w
  (result, cleanup w)

/-- Evaluates while something is held besides what is held already. -/
def holding (held : List Held) (x : Eval α) : Eval α := fun perform w =>
  let (result, w') := x perform { w with inUse := held ++ w.inUse }
  (result, { w' with inUse := w.inUse })

/-- Raises a recorded error unless there is none. -/
def raiseIf : Option EvalError → Eval Unit
  | some e => raise e
  | none => pure ()

/-- The context of the present line of execution. -/
def context : Eval Context := do return (← world).context

def currentScope? : Eval (Option ScopeId) := do return (← context).current?

/-- Writes an event into the log. -/
def note (e : Event) : Eval Unit := modify fun w => w.note e

def report (severity : Severity) (message : String) (fields : List (String × String)) : Eval Unit :=
  modify fun w => w.report severity message fields

/-- Evaluates with a scope pushed. -/
def withScope (scope : ScopeId) (x : Eval α) : Eval α := do
  modify fun w => w.modifyContext fun c => c.push scope
  x.ensuring fun w => w.popScope scope

/-- Evaluates with scopes pushed, the innermost one last. -/
def withScopes : ScopeStack → Eval α → Eval α
  | [], x => x
  | scope :: outer, x => withScopes outer (withScope scope x)

/-- Adds a scope inside the current one, or a root scope if none is active. -/
def addScope (name : String) : Eval ScopeId := do
  match ← currentScope? with
  | some parent => modifyGet fun w => w.addChild parent name
  | none => modifyGet fun w => w.addRoot name

/-- Binds a parameter in a scope, past constraints and mutability. -/
def bindParameter (scope : ScopeId) (name : String) (v : Value) : Eval Unit :=
  modify fun w =>
    { w with scopes := w.scopes.bind scope name { value := v, flags := { isParameter := true } } }

/-- Evaluates in a new scope in which `it` and the first positional parameter are an item. -/
def withItem (name : String) (item : Value) (x : Eval α) : Eval α := do
  let scope ← addScope name
  bindParameter scope "it" item
  bindParameter scope (VariableName.positional 1) item
  withScope scope x

/-- Evaluates on another line of execution, to which the given scopes are added. The scopes of the
present one stay held. -/
def onLine (line : Context) (scopes : ScopeStack) (x : Eval α) : Eval α := fun perform w =>
  let (result, w') :=
    holding w.context.scopes.held (withScopes scopes x) perform { w with context := line }
  (result, { w' with context := w.context })

/-- Evaluates on a line of execution of its own, which starts with the given scopes. -/
def onOtherLine (scopes : ScopeStack) (x : Eval α) : Eval α := onLine { reports := false } scopes x

/-- Evaluates on a line of execution for children of containers. -/
def onWorker (scopes : ScopeStack) (x : Eval α) : Eval α :=
  onLine { reports := false, isWorker := true } scopes x

end Eval
end ReactiveScript
