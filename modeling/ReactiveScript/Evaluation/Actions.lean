import ReactiveScript.Evaluation.Binding
import ReactiveScript.Evaluation.Subscription

/-!
# Running programs

The meaning of the actions that the programs of nodes, callbacks and error handlers consist of, and
the way of an error to a handler.
-/

namespace ReactiveScript.Eval

/-- The value of a sequence at the present run of a node, whose runs are counted. -/
def nextOf (self : Option NodeId) (values : List Value) : Eval Value :=
  modifyGet fun w =>
    let run := ((self.bind w.node?).map Node.runs).getD 0
    let v := (values[min run (values.length - 1)]?).getD .void
    (v, match self with
      | some id => w.modifyNode id fun n => { n with runs := n.runs + 1 }
      | none => w)

/-- Pushes two new root scopes and pops the first before the second. -/
def popOutOfOrder (first second : String) : Eval Unit := do
  let a ← modifyGet fun w => w.addRoot first
  modify fun w => w.modifyContext fun c => c.push a
  let b ← modifyGet fun w => w.addRoot second
  modify fun w => w.modifyContext fun c => c.push b
  modify fun w => w.popScope a
  modify fun w => w.popScope b

/-- Carries out one action: `result` is the result of the actions before it. -/
def runAction (self : Option NodeId) (inputs : List Value) (result : Value) : Action → Eval Value
  | .yield v => return v
  | .raise e => raise e
  | .input => return inputs.head?.getD .void
  | .inputs => return .list inputs
  | .sequence values => nextOf self values
  | .fix depth => fix result depth
  | .record channel label => do
    note (.recorded channel label result)
    return result
  | .scopeName => do
    let w ← world
    return (w.context.current?.elim .void fun s => .str (w.scopes.name s))
  | .depths => do
    let c ← context
    return .list [sizeOf c.scopes.length, sizeOf c.calls.size]
  | .notify node => perform (.notify node)
  | .notifyNamed register => do
    match (← world).registeredNode? register with
    | some n => holding [.node n.id] (perform (.notify n.id))
    | none => return .void
  | .listen node key callback => perform (.listen node key callback)
  | .unlisten node key => do
    unlisten node key
    return .void
  | .bind scope name options => bind scope name result options
  | .cancel slot => do return .bool (← cancelSlot slot)
  | .shutdown => do
    shutdown
    return .void
  | .popOutOfOrder first second => do
    popOutOfOrder first second
    return result
  | .errorKind => return result.asError?.elim .void fun e => .str e.kind.name
  | .wrapError message =>
    match result.asError? with
    | some e => raise ((EvalError.exception message).withCause e)
    | none => raise (EvalError.exception message)
  | .raiseResult =>
    match result.asError? with
    | some e => raise e
    | none => return result
where
  sizeOf (n : Nat) : Value := .int (Int64.ofInt n)

/-- Runs actions one after the other. -/
def runActions (self : Option NodeId) (inputs : List Value) : List Action → Value → Eval Value
  | [], result => pure result
  | action :: rest, result => do
    let result ← runAction self inputs result action
    runActions self inputs rest result

/-- Runs a program on its inputs. -/
def runProgram (self : Option NodeId) (inputs : List Value) (actions : List Action) : Eval Value :=
  runActions self inputs actions .void

/-- Gives an error that is not fatal to the handler of the nearest scope outward that has one; any
other error is raised. -/
def handleError (scope : ScopeId) (e : EvalError) : Eval Value := do
  if e.isFatal then raise e
  else match (← world).scopes.handler? scope with
    | none => raise e
    | some h => do
      note (.handled h.label e.display)
      runProgram none [.error e] h.actions

end ReactiveScript.Eval
