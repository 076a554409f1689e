import ReactiveScript.EvalError
import ReactiveScript.TypeTag
import ReactiveScript.IntRange
import ReactiveScript.Metadata
import ReactiveScript.Decimal.Arithmetic

/-!
# Values

A value is concrete, or it is a node: a computation that has not run yet. Nodes and resources are
known here by their number and by the name they are shown with; what they do is a matter of the
engine. A tag attaches metadata to a value and is transparent to every operation.
-/

namespace ReactiveScript

/-- A computation node, by its number and the name of its operation. -/
structure NodeRef where
  id : Nat
  operation : String
deriving DecidableEq, Repr, Inhabited

/-- A resource, by its number and its name. -/
structure ResourceRef where
  id : Nat
  name : String
deriving DecidableEq, Repr, Inhabited

inductive Value where
  | int (n : Int64)
  | decimal (d : Decimal)
  | bool (b : Bool)
  /-- No value; it is neither true nor false. -/
  | void
  | str (s : String)
  | list (items : List Value)
  /-- A map of one entry also serves as a pair. -/
  | map (entries : List (String × Value))
  | range (r : IntRange)
  /-- An error held as a value; operations pass it on. -/
  | error (e : EvalError)
  | node (n : NodeRef)
  | resource (r : ResourceRef)
  | tagged (v : Value) (info : Metadata)
deriving Repr, Inhabited

/-- The name of a node with its number. -/
def NodeRef.text (n : NodeRef) : String := "<" ++ n.operation ++ "#" ++ Text.ofNat n.id ++ ">"

def ResourceRef.text (r : ResourceRef) : String := "<resource " ++ r.name ++ ">"

namespace Value

/-- The value inside all tags. -/
def untagged : Value → Value
  | tagged v _ => v.untagged
  | v => v

/-- The metadata of the outermost tag. -/
def metadata? : Value → Option Metadata
  | tagged _ m => some m
  | _ => none

/-- Attaches metadata; that of a value tagged already is extended. -/
def withMetadata (v : Value) (m : Metadata) : Value :=
  match v with
  | tagged inner old => tagged inner (old.extend m)
  | other => tagged other m

/-- A map of one entry. -/
def pair (key : String) (value : Value) : Value := map [(key, value)]

def infinity (positive : Bool) : Value := decimal (Decimal.infinity !positive)

/-- Removes the tags from the outside in, so that a match sees the case of the value. -/
@[simp] theorem untagged_tagged (v : Value) (m : Metadata) : (tagged v m).untagged = v.untagged :=
  rfl

theorem untagged_ne_tagged (v w : Value) (m : Metadata) : v.untagged ≠ tagged w m := by
  induction v using untagged.induct with
  | case1 v m' ih => simpa using ih
  | case2 v hv =>
    intro h
    cases v <;> simp [untagged] at h
    exact hv _ _ rfl

@[simp] theorem untagged_untagged (v : Value) : v.untagged.untagged = v.untagged := by
  induction v using untagged.induct with
  | case1 v m ih => simpa using ih
  | case2 v hv => cases v <;> simp_all [untagged]

def asInt? (v : Value) : Option Int64 :=
  match v.untagged with
  | int n => some n
  | _ => none

/-- Any number as a decimal. -/
def asDecimal? (v : Value) : Option Decimal :=
  match v.untagged with
  | int n => some (Decimal.ofInt64 n)
  | decimal d => some d
  | _ => none

def asBool? (v : Value) : Option Bool :=
  match v.untagged with
  | bool b => some b
  | _ => none

def asText? (v : Value) : Option String :=
  match v.untagged with
  | str s => some s
  | _ => none

def asList? (v : Value) : Option (List Value) :=
  match v.untagged with
  | list items => some items
  | _ => none

def asMap? (v : Value) : Option (List (String × Value)) :=
  match v.untagged with
  | map entries => some entries
  | _ => none

def asNode? (v : Value) : Option NodeRef :=
  match v.untagged with
  | node n => some n
  | _ => none

def asResource? (v : Value) : Option ResourceRef :=
  match v.untagged with
  | resource r => some r
  | _ => none

def asError? (v : Value) : Option EvalError :=
  match v.untagged with
  | error e => some e
  | _ => none

def isVoid (v : Value) : Bool :=
  match v.untagged with
  | void => true
  | _ => false

def isError (v : Value) : Bool := v.asError?.isSome

def isNode (v : Value) : Bool := v.asNode?.isSome

def isNumber (v : Value) : Bool := v.asDecimal?.isSome

def isPair (v : Value) : Bool := v.asMap?.any fun entries => entries.length == 1

def isInfinite (v : Value) : Bool :=
  match v.untagged with
  | decimal d => d.isInfinite
  | _ => false

/-- Whether the value is a number equal to zero. -/
def isZero (v : Value) : Bool := v.asDecimal?.any Decimal.isZero

mutual

/-- Whether a node is anywhere inside. -/
def containsNode : Value → Bool
  | node _ => true
  | list items => itemsContainNode items
  | map entries => entriesContainNode entries
  | tagged v _ => v.containsNode
  | _ => false

def itemsContainNode : List Value → Bool
  | [] => false
  | v :: rest => v.containsNode || itemsContainNode rest

def entriesContainNode : List (String × Value) → Bool
  | [] => false
  | (_, v) :: rest => v.containsNode || entriesContainNode rest

end

/-- The type of a concrete value; nodes and resources have none. -/
def typeTag? (v : Value) : Option TypeTag :=
  match v.untagged with
  | int _ => some .integer
  | decimal _ => some .decimal
  | bool _ => some .boolean
  | void => some .void
  | str _ => some .string
  | list _ => some .list
  | map _ => some .map
  | range _ => some .range
  | error _ => some .error
  | node _ | resource _ | tagged _ _ => none

/-- The name of the case of a value, as messages give it. -/
def typeName (v : Value) : String :=
  match v.untagged with
  | node _ => "NODE"
  | resource _ => "RESOURCE"
  | other => (other.typeTag?.getD .any).name

/-- A range is replaced by the list of its elements; other values stay. -/
def expandRange : Value → Value
  | range r => list (r.toList.map int)
  | v => v

end Value
end ReactiveScript
