import ReactiveScript.Value.Basic
import ReactiveScript.Json.Reading

/-!
# The text of values

A value is shown as plain text at the top and as JSON text inside lists and maps. JSON knows no
non-finite decimals, nodes and resources: they become texts. An error becomes the map of its kind
and its message, and a range the list of its elements.
-/

namespace ReactiveScript.Value

mutual

/-- The JSON tree of a value; tags are dropped. -/
def toJson : Value → JsonTree
  | int n => .int n.toInt
  | decimal d => if d.isFinite then .decimal d else .str d.display
  | bool b => .bool b
  | void => .null
  | str s => .str s
  | list items => .arr (itemsToJson items)
  | map entries => .obj (entriesToJson entries)
  | range r => .arr (r.toList.map fun n => .int n.toInt)
  | error e => .obj [("error", .str e.kind.name), ("message", .str e.message)]
  | node n => .str n.text
  | resource r => .str r.text
  | tagged v _ => v.toJson

def itemsToJson : List Value → List JsonTree
  | [] => []
  | v :: rest => v.toJson :: itemsToJson rest

def entriesToJson : List (String × Value) → List (String × JsonTree)
  | [] => []
  | (key, v) :: rest => (key, v.toJson) :: entriesToJson rest

end

mutual

/-- The value of a JSON tree; integers beyond 64 bits become decimals. -/
def ofJson : JsonTree → Value
  | .null => void
  | .bool b => bool b
  | .int n => if Text.fitsInt64 n then int (Int64.ofInt n) else decimal (Decimal.ofInt n)
  | .decimal d => decimal d
  | .str s => str s
  | .arr items => list (itemsOfJson items)
  | .obj entries => map (OrderedMap.ofPairs (entriesOfJson entries))

def itemsOfJson : List JsonTree → List Value
  | [] => []
  | t :: rest => ofJson t :: itemsOfJson rest

def entriesOfJson : List (String × JsonTree) → List (String × Value)
  | [] => []
  | (key, t) :: rest => (key, ofJson t) :: entriesOfJson rest

end

/-- The value of a JSON text; malformed text is a parse error. -/
def readJson (text : String) : Except EvalError Value :=
  match Json.read? text with
  | some tree => .ok (ofJson tree)
  | none => .error (EvalError.parseError "invalid JSON")

/-- The text of a value for people. -/
def display (v : Value) : String :=
  match v.untagged with
  | int n => Text.ofInt n.toInt
  | decimal d => d.display
  | bool b => if b then "true" else "false"
  | void => ""
  | str s => s
  | range r => r.text
  | error e => e.display
  | node n => n.text
  | resource r => r.text
  | other => other.toJson.text

@[simp] theorem toJson_tagged (v : Value) (m : Metadata) : (tagged v m).toJson = v.toJson := by
  rw [toJson]

@[simp] theorem display_tagged (v : Value) (m : Metadata) : (tagged v m).display = v.display := rfl

end ReactiveScript.Value
