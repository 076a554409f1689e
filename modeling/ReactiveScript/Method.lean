import ReactiveScript.Evaluation.Operation

/-!
# Methods of values

The operations that are called by name on a receiver with arguments. Those that go by the name of an
operator force their operands; a few look at the receiver as it is. An argument that is missing is
void.
-/

namespace ReactiveScript

inductive Method where
  | plus
  | minus
  | multiply
  | divide
  | modulus
  | get
  | append
  | prepend
  | set
  | containsKey
  | has
  | lessThan
  | greaterThan
  | lessEqual
  | greaterEqual
  | equalTo
  | notEqualTo
  | and
  | or
  | negate
  | abs
  | size
  | not
  | fixDeep
  | fix (depth : Nat)
  | cast (target : TypeTag)
  /-- Equality of the forced operands. -/
  | equals
  | truthy
  /-- Equality of the operands as they are. -/
  | same
  /-- The sign of the order of the operands as they are; void if they have none. -/
  | compare
  | untagged
  | tag (info : Metadata)
  | display
  | toJson
  /-- The value of the JSON tree of the receiver. -/
  | throughJson
  | readJson
deriving Repr, Inhabited

namespace Method

/-- The methods without parameters of their own, by name. Removal is subtraction. -/
def named : List (String × Method) :=
  [("plus", plus), ("minus", minus), ("multiply", multiply), ("divide", divide),
    ("modulus", modulus), ("get", get), ("append", append), ("prepend", prepend),
    ("remove", minus), ("set", set), ("contains_key", containsKey), ("has", has),
    ("less_than", lessThan), ("greater_than", greaterThan), ("less_equal", lessEqual),
    ("greater_equal", greaterEqual), ("equal_to", equalTo), ("not_equal_to", notEqualTo),
    ("and", and), ("or", or), ("negate", negate), ("abs", abs), ("size", size), ("not", not),
    ("fix_deep", fixDeep), ("equals", equals), ("truthy", truthy), ("eq", same),
    ("compare", compare), ("untagged", untagged), ("to_string", display), ("to_json", toJson),
    ("json_roundtrip", throughJson), ("parse_json", readJson)]

/-- The sign of an order. -/
def sign : Option Ordering → Value
  | none => .void
  | some .lt => .int (-1)
  | some .eq => .int 0
  | some .gt => .int 1

/-- Calls a method on a receiver with up to two arguments. -/
def call : Method → Value → Value → Value → Eval Value
  | plus, v, w, _ => Eval.onOperands Value.plus v w
  | minus, v, w, _ => Eval.onOperands Value.minus v w
  | multiply, v, w, _ => Eval.onOperands Value.multiply v w
  | divide, v, w, _ => Eval.onOperands Value.divide v w
  | modulus, v, w, _ => Eval.onOperands Value.modulus v w
  | get, v, key, _ => Eval.onOperands Value.get v key
  | append, v, item, _ => Eval.onConcrete (fun v => v.append item) v
  | prepend, v, item, _ => Eval.onConcrete (fun v => v.prepend item) v
  | set, v, key, w => Eval.set v key w
  | containsKey, v, key, _ => Eval.onOperands (fun v key => .ok (.bool (v.containsKey key))) v key
  | has, v, item, _ => Eval.onOperands (fun v item => .ok (.bool (v.has item))) v item
  | lessThan, v, w, _ => Eval.onSettled Value.lessThan v w
  | greaterThan, v, w, _ => Eval.onSettled Value.greaterThan v w
  | lessEqual, v, w, _ => Eval.onSettled Value.lessEqual v w
  | greaterEqual, v, w, _ => Eval.onSettled Value.greaterEqual v w
  | equalTo, v, w, _ => Eval.onSettled Value.equalTo v w
  | notEqualTo, v, w, _ => Eval.onSettled Value.notEqualTo v w
  | and, v, w, _ => Eval.and v w
  | or, v, w, _ => Eval.or v w
  | negate, v, _, _ => Eval.onConcrete Value.negate v
  | abs, v, _, _ => Eval.onConcrete Value.abs v
  | size, v, _, _ => Eval.onConcrete Value.size v
  | not, v, _, _ => Eval.onConcrete Value.logicalNot v
  | fixDeep, v, _, _ => Eval.fixDeep v
  | fix depth, v, _, _ => Eval.fix v depth
  | cast target, v, _, _ => Eval.cast v target
  | equals, v, w, _ => do return .bool (← Eval.equals v w)
  | truthy, v, _, _ => do return .bool (← Eval.truthy v)
  | same, v, w, _ => return .bool (v.same w)
  | compare, v, w, _ => return sign (v.compare? w)
  | untagged, v, _, _ => return v.untagged
  | tag info, v, _, _ => return v.withMetadata info
  | display, v, _, _ => return .str v.display
  | toJson, v, _, _ => return .str v.toJson.text
  | throughJson, v, _, _ => return Value.ofJson v.toJson
  | readJson, v, _, _ => Eval.ofExcept (Value.readJson (v.asText?.getD ""))

/-- Calls a method on the first of some operands with the others as arguments. -/
def apply (m : Method) (operands : List Value) : Eval Value :=
  m.call (operands[0]?.getD .void) (operands[1]?.getD .void) (operands[2]?.getD .void)

end Method
end ReactiveScript
