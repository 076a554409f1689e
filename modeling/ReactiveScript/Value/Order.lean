import ReactiveScript.Value.Text

/-!
# Equality, order and truth of values

Values of one case are compared by content, integers and decimals with each other by value, nodes
and resources by identity. Values of different cases are equal if their texts are. Maps are equal
without regard to the order of their entries, and tags are ignored everywhere.
-/

namespace ReactiveScript.Value

/-- Values that are equal to none of another case. -/
def isOpaque : Value → Bool
  | void | node _ | resource _ => true
  | _ => false

/-- Equality across cases. -/
def sameText (v w : Value) : Bool := !v.isOpaque && !w.isOpaque && v.display == w.display

/-- Equality of decimals in which a NaN is equal to every NaN. -/
def sameDecimal (a b : Decimal) : Bool := a.numericEq b || (a.isNaN && b.isNaN)

mutual

/-- Equality of values. -/
def same : Value → Value → Bool
  | tagged v _, w => same v w
  | int a, w =>
    match w.untagged with
    | int b => a == b
    | decimal b => (Decimal.ofInt64 a).numericEq b
    | other => sameText (int a) other
  | decimal a, w =>
    match w.untagged with
    | int b => a.numericEq (Decimal.ofInt64 b)
    | decimal b => sameDecimal a b
    | other => sameText (decimal a) other
  | bool a, w =>
    match w.untagged with
    | bool b => a == b
    | other => sameText (bool a) other
  | void, w => w.isVoid
  | str a, w =>
    match w.untagged with
    | str b => a == b
    | other => sameText (str a) other
  | list items, w =>
    match w.untagged with
    | list items' => sameItems items items'
    | other => sameText (list items) other
  | map entries, w =>
    match w.untagged with
    | map entries' => entries.length == entries'.length && sameEntries entries entries'
    | other => sameText (map entries) other
  | range a, w =>
    match w.untagged with
    | range b => a == b
    | other => sameText (range a) other
  | error a, w =>
    match w.untagged with
    | error b => a.kind == b.kind && a.message == b.message
    | other => sameText (error a) other
  | node a, w => w.asNode?.any fun b => a.id == b.id
  | resource a, w => w.asResource?.any fun b => a.id == b.id

/-- Equality of lists, item by item. -/
def sameItems : List Value → List Value → Bool
  | [], [] => true
  | v :: vs, w :: ws => same v w && sameItems vs ws
  | _, _ => false

/-- Whether every entry has an equal one under its key among the others. -/
def sameEntries : List (String × Value) → List (String × Value) → Bool
  | [], _ => true
  | (key, v) :: rest, others =>
    (match OrderedMap.find? key others with
      | some w => same v w
      | none => false) && sameEntries rest others

end

/-- Ordering of concrete values: numbers by value, texts by their characters, containers by size,
and all else by text. Void is comparable with itself only. -/
def compare? (v w : Value) : Option Ordering :=
  match v.untagged, w.untagged with
  | int a, int b => some (compare a.toInt b.toInt)
  | int a, decimal b => (Decimal.ofInt64 a).compare? b
  | decimal a, int b => a.compare? (Decimal.ofInt64 b)
  | decimal a, decimal b => a.compare? b
  | str a, str b => some (compare a b)
  | bool a, bool b => some (compare a b)
  | void, void => some .eq
  | void, _ | _, void => none
  | list a, list b => some (compare a.length b.length)
  | map a, map b => some (compare a.length b.length)
  | range a, range b => some (compare a.length b.length)
  | a, b => some (compare a.display b.display)

/-- The value of a comparison of two forced operands; an error operand is passed on. -/
def comparison (test : Ordering → Bool) (l r : Value) : Value :=
  if l.isError then l
  else if r.isError then r
  else bool ((l.compare? r).any test)

def lessThan : Value → Value → Value := comparison (· == .lt)

def greaterThan : Value → Value → Value := comparison (· == .gt)

def lessEqual : Value → Value → Value := comparison (· != .gt)

def greaterEqual : Value → Value → Value := comparison (· != .lt)

/-- Equality of two forced operands as a value; a single error operand is passed on. -/
def equalTo (l r : Value) : Value :=
  if l.isError && !r.isError then l
  else if r.isError && !l.isError then r
  else bool (l.same r)

def notEqualTo (l r : Value) : Value :=
  match equalTo l r with
  | bool b => bool !b
  | other => other

/-- Whether a forced value counts as true: numbers by their whole part, texts and containers by
not being empty. -/
def isTrue (v : Value) : Bool :=
  match v.untagged with
  | int n => n != 0
  | decimal d => !d.isNaN && (d.isInfinite || d.truncate != 0)
  | bool b => b
  | str s => !s.isEmpty
  | list items => !items.isEmpty
  | map entries => !entries.isEmpty
  | range _ => true
  | _ => false

/-- Whether a forced value counts as false; void and errors are neither true nor false. -/
def isFalse (v : Value) : Bool :=
  match v.untagged with
  | int n => n == 0
  | decimal d => d.isFinite && d.truncate == 0
  | bool b => !b
  | str s => s.isEmpty
  | list items => items.isEmpty
  | map entries => entries.isEmpty
  | _ => false

/-- Negation of the truth of a forced value; void and errors stay. -/
def logicalNot (v : Value) : Value :=
  match v.untagged with
  | void | error _ => v
  | other => bool !other.isTrue

end ReactiveScript.Value
