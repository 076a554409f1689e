import ReactiveScript.Value.Order
import ReactiveScript.Decimal.Reading

/-!
# Casts

The conversion of a forced value to a type. An error stays what it is. Casts to boolean, text, list,
map and void always succeed; those to numbers succeed for numbers, truth values, void and numerals;
nothing can be cast to a range, an error or `ANY`.
-/

namespace ReactiveScript.Value

/-- Whether a text is the word `false`, in any case of letters. -/
def isFalseWord (s : String) : Bool := s.toList.map Char.toLower == ['f', 'a', 'l', 's', 'e']

/-- The truth value of a value; the word `false` is false. -/
def toBool (v : Value) : Bool :=
  match v with
  | str s => !isFalseWord s && v.isTrue
  | _ => v.isTrue

/-- The items that a value becomes: the entries of a map as pairs, the elements of a range, and
any other value alone. -/
def toItems : Value → List Value
  | list items => items
  | void => []
  | map entries => entries.map fun (k, w) => pair k w
  | range r => r.toList.map int
  | other => [other]

/-- The entries that a value becomes: the items of a list under their positions, and any other
value under the key `value`. -/
def toEntries : Value → OrderedMap Value
  | map entries => entries
  | void => []
  | list items => items.zipIdx.map fun (w, i) => (OrderedMap.positionKey i, w)
  | other => [("value", other)]

/-- The decimal that a value becomes. -/
def toDecimal? : Value → Option Decimal
  | void => some Decimal.zero
  | bool b => some (if b then Decimal.one else Decimal.zero)
  | str s => Decimal.read? (Text.trim s.toList)
  | int n => some (Decimal.ofInt64 n)
  | decimal d => some d
  | _ => none

/-- The integer that a value becomes; fractions are cut off. -/
def toInteger? : Value → Option Int64
  | void => some 0
  | bool b => some (if b then 1 else 0)
  | int n => some n
  | decimal d => d.toInt64?
  | str s =>
    let cs := Text.trim s.toList
    (Text.readInt64? cs).or ((Decimal.read? cs).bind Decimal.toInt64?)
  | _ => none

/-- Converts a value to a type. -/
def cast (v : Value) (target : TypeTag) : Except EvalError Value :=
  let concrete := v.untagged
  let orFail (result : Option Value) : Except EvalError Value :=
    match result with
    | some w => .ok w
    | none => .error (EvalError.invalidCast concrete.typeName target.name)
  if concrete.isError then .ok concrete
  else match target with
    | .boolean => .ok (bool concrete.toBool)
    | .string => .ok (str concrete.display)
    | .list => .ok (list concrete.toItems)
    | .map => .ok (map concrete.toEntries)
    | .decimal => orFail (concrete.toDecimal?.map decimal)
    | .integer => orFail (concrete.toInteger?.map int)
    | .void => .ok void
    | .range | .error | .any => orFail none

end ReactiveScript.Value
