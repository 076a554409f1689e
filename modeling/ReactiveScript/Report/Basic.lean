import ReactiveScript.Value.Basic

/-!
# Reports

What is told of a value, a node, a prediction and so on: named parts and lists of values, made to be
read and not to be computed with.
-/

namespace ReactiveScript

inductive Report where
  | value (v : Value)
  /-- How many there are; no bound on it. -/
  | count (n : Nat)
  /-- A value that may be missing; void is not missing. -/
  | found (v : Option Value)
  | info (m : Metadata)
  | list (items : List Report)
  | record (parts : List (String × Report))
  /-- A result or a raised error. -/
  | outcome (r : Except EvalError Value)

instance : Inhabited Report := ⟨.value .void⟩

namespace Report

def nothing : Report := value .void

def text (s : String) : Report := value (.str s)

def truth (b : Bool) : Report := value (.bool b)

def texts (names : List String) : Report := list (names.map text)

/-- What is told of something that may be missing. -/
def ofOption {α : Type} (tell : α → Report) (a : Option α) : Report := a.elim nothing tell

def tagName (t : Option TypeTag) : Report := ofOption (fun t => text t.name) t

/-- Values under names. -/
def bindings (entries : List (String × Value)) : Report :=
  list (entries.map fun (name, v) => list [text name, value v])

end Report

end ReactiveScript
