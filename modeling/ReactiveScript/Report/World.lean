import ReactiveScript.Report.Basic
import ReactiveScript.World

/-!
# Reports of nodes, scopes and resources

What is told of the parts of a run from outside. Flags are told by the names of those that are set.
-/

namespace ReactiveScript

open Report

/-- The names of the flags that are set. -/
def flagNames (flags : List (Bool × String)) : Report :=
  texts ((flags.filter Prod.fst).map Prod.snd)

def BindingFlags.report (f : BindingFlags) : Report :=
  flagNames [(f.isConst, "const"), (f.isVolatile, "volatile"), (f.isDeclared, "declared"),
    (f.isParameter, "parameter")]

def NodeFlags.report (f : NodeFlags) : Report :=
  flagNames [(f.isPure, "pure"), (f.newScope, "new_scope"), (f.scopeClosure, "scope_closure"),
    (f.reactive, "reactive")]

/-- What is told of a node, and from inside of a node made by hand: its flags, listeners and
inputs. -/
def Node.report (ref : NodeRef) (n : Node) (handmade : Option (NodeRef × Node)) : Report :=
  let inside (tell : NodeRef × Node → Report) : Report := ofOption tell handmade
  record [
    ("id", count ref.id),
    ("operation", text n.operation),
    ("source", text n.source.describe),
    ("meta", Report.info n.info),
    ("debug", text ref.text),
    ("flags", inside fun (_, n) => n.flags.report),
    ("listeners", inside fun (_, n) => count n.listeners.entries.length),
    ("inputs", inside fun (_, n) => list (n.inputs.map value)),
    ("own_debug", inside fun (ref, _) => text ref.text)]

/-- What is told of a scope inside a parent with a title. -/
def Scope.report (s : Scope) (parent : Option String) : Report :=
  record [
    ("name", text s.name),
    ("parent", ofOption text parent),
    ("source", ofOption (fun t => text t.text) s.source)]

/-- The title of a scope and the number of its bindings; its own number is left out. -/
def Scope.describe (s : Scope) : String :=
  "Scope(" ++ s.name ++ "#_, " ++ Text.ofNat s.bindings.length ++ " bindings)"

def Resource.report (r : Resource) : Report :=
  record [
    ("state", text r.state.name),
    ("debug", text r.describe),
    ("subscribers", count r.backend.subscribers.length)]

end ReactiveScript
