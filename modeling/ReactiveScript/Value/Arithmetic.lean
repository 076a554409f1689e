import ReactiveScript.Value.Order
import ReactiveScript.Text.Search

/-!
# Arithmetic of values

The operations on operands that are forced already: the left one to a concrete value, the right one
all the way down. An error operand is returned untouched, the left one first. Integers stay integers
as long as the exact result has 64 bits and become decimals otherwise; a decimal operand makes the
result a decimal. Division and remainder by zero or by infinity give the infinity with the sign of
the dividend.
-/

namespace ReactiveScript.Value

/-- The error among two operands, the left one first. -/
def errorOperand? (l r : Value) : Option Value :=
  if l.isError then some l else if r.isError then some r else none

/-- An integer if it has 64 bits, else the given decimal. -/
def ofExact (n : Int) (fallback : Decimal) : Value :=
  if Text.fitsInt64 n then int (Int64.ofInt n) else decimal fallback

/-- The infinity with the sign of a dividend. -/
def signedInfinity (dividend : Decimal) : Value := infinity !dividend.negative

/-- Applies an operation of decimals to two numbers. -/
def onDecimals (operation : String) (f : Decimal → Decimal → Value) (l r : Value) :
    Except EvalError Value :=
  match l.asDecimal?, r.asDecimal? with
  | some a, some b => .ok (f a b)
  | _, _ => .error (EvalError.typeMismatch operation l.typeName r.typeName)

/-- The sum of concrete operands that are not errors. -/
def sum : Value → Value → Except EvalError Value
  | map a, map b => .ok (map (OrderedMap.merged a b))
  | map a, str s => .ok (str ((map a).display ++ s))
  | map a, other => .ok (map (OrderedMap.insert (OrderedMap.freshKey a) other a))
  | void, other => .ok other
  | other, void => .ok other
  | list a, list b => .ok (list (a ++ b))
  | list a, other => .ok (list (a ++ [other]))
  | str a, other => .ok (str (a ++ other.display))
  | other, str b => .ok (str (other.display ++ b))
  | other, list b => .ok (list (other :: b))
  | int a, int b =>
    .ok (ofExact (a.toInt + b.toInt) (Decimal.add (Decimal.ofInt64 a) (Decimal.ofInt64 b)))
  | l, r => onDecimals "+" (fun a b => decimal (a.add b)) l r

/-- Addition, union of maps and joining of lists and texts. -/
def plus (lhs rhs : Value) : Except EvalError Value :=
  match errorOperand? lhs.untagged rhs.untagged with
  | some e => .ok e
  | none => sum lhs.untagged.expandRange rhs.untagged.expandRange

/-- The difference of concrete operands that are not errors. -/
def difference : Value → Value → Except EvalError Value
  | void, _ => .ok void
  | other, void => .ok other
  | map a, map b => .ok (map (OrderedMap.withoutKeys a (OrderedMap.keys b)))
  | map a, key => .ok (map (OrderedMap.erase key.display a))
  | list a, list b => .ok (list (a.filter fun v => !b.any fun w => w.same v))
  | list a, other => .ok (list (a.filter fun v => !v.same other))
  | str a, other => .ok (str (String.ofList (Text.removeAll other.display.toList a.toList)))
  | int a, int b =>
    .ok (ofExact (a.toInt - b.toInt) (Decimal.sub (Decimal.ofInt64 a) (Decimal.ofInt64 b)))
  | l, r => onDecimals "-" (fun a b => decimal (a.sub b)) l r

/-- Subtraction, and removal of keys, items and occurrences. -/
def minus (lhs rhs : Value) : Except EvalError Value :=
  match errorOperand? lhs.untagged rhs.untagged with
  | some e => .ok e
  | none => difference lhs.untagged.expandRange rhs.untagged

/-- The greatest length of a text or a list that a repetition makes. -/
def maxRepeatLength : Nat := 0x1000000

/-- The product of two lengths, if it has 64 bits. -/
def lengthProduct? (a b : Nat) : Option Nat := if a * b < UInt64.size then some (a * b) else none

/-- How often something of a length is repeated: a negative count repeats nothing, and a result
that is too long is refused. -/
def repeatCount (kind : String) (length : Nat) (n : Int64) : Except EvalError Nat :=
  let times := n.toInt.toNat
  if (lengthProduct? length times).any (· ≤ maxRepeatLength) then .ok times
  else .error (EvalError.exception
    (kind ++ " * " ++ Text.ofInt n.toInt ++ " exceeds " ++ Text.ofNat maxRepeatLength ++
      " elements"))

/-- A list joined to itself a number of times. -/
def repeatItems {α : Type} (times : Nat) (items : List α) : List α :=
  if items.isEmpty then [] else (List.replicate times items).flatten

/-- The product of decimals: a zero factor gives zero, and what is too large gives an infinity
with the sign of the product. -/
def decimalProduct (a b : Decimal) : Value :=
  if a.isZero || b.isZero then decimal Decimal.zero else decimal (a.mul b)

/-- The product of concrete operands that are not errors. -/
def product : Value → Value → Except EvalError Value
  | void, _ => .ok void
  | _, void => .ok void
  | map _, other => .error (EvalError.invalidMapOperation "*" other.typeName)
  | str s, int n => do
    let times ← repeatCount "string" s.utf8ByteSize n
    .ok (str (String.ofList (repeatItems times s.toList)))
  | list items, int n => do
    let times ← repeatCount "list" items.length n
    .ok (list (repeatItems times items))
  | int a, int b =>
    if Text.fitsInt64 (a.toInt * b.toInt) then .ok (int (Int64.ofInt (a.toInt * b.toInt)))
    else .ok (decimalProduct (Decimal.ofInt64 a) (Decimal.ofInt64 b))
  | l, r => onDecimals "*" decimalProduct l r

/-- Multiplication, and repetition of texts and lists. -/
def multiply (lhs rhs : Value) : Except EvalError Value :=
  match errorOperand? lhs.untagged rhs.untagged with
  | some e => .ok e
  | none => product lhs.untagged rhs.untagged

/-- Applies an operation to a dividend and a divisor other than zero and infinity. -/
def byDivisor (f : Decimal → Decimal → Decimal) (a b : Decimal) : Value :=
  if b.isZero || b.isInfinite then signedInfinity a else decimal (f a b)

/-- The quotient of concrete operands that are not errors. -/
def quotient : Value → Value → Except EvalError Value
  | void, _ => .ok void
  | _, void => .ok void
  | map _, other => .error (EvalError.invalidMapOperation "/" other.typeName)
  | int a, int b =>
    if b = 0 then .ok (signedInfinity (Decimal.ofInt64 a))
    else .ok (ofExact (a.toInt.tdiv b.toInt) (Decimal.div (Decimal.ofInt64 a) (Decimal.ofInt64 b)))
  | l, r => onDecimals "/" (byDivisor Decimal.div) l r

/-- Division, truncated towards zero between integers. -/
def divide (lhs rhs : Value) : Except EvalError Value :=
  match errorOperand? lhs.untagged rhs.untagged with
  | some e => .ok e
  | none => quotient lhs.untagged rhs.untagged

/-- The remainder of concrete operands that are not errors. -/
def remainder : Value → Value → Except EvalError Value
  | void, _ => .ok void
  | _, void => .ok void
  | map _, other => .error (EvalError.invalidMapOperation "%" other.typeName)
  | int a, int b =>
    if b = 0 then .ok (signedInfinity (Decimal.ofInt64 a))
    else .ok (int (Int64.ofInt (a.toInt.tmod b.toInt)))
  | l, r => onDecimals "%" (byDivisor Decimal.rem) l r

/-- The remainder of a division; it has the sign of the dividend. -/
def modulus (lhs rhs : Value) : Except EvalError Value :=
  match errorOperand? lhs.untagged rhs.untagged with
  | some e => .ok e
  | none => remainder lhs.untagged rhs.untagged

/-- The opposite number, the negation of a truth value, and the reverse of everything that has an
order. -/
def negate (v : Value) : Value :=
  match v.untagged with
  | int n => ofExact (-n.toInt) (Decimal.ofInt64 n).neg
  | decimal d => decimal d.neg
  | bool b => bool !b
  | str s => str (String.ofList s.toList.reverse)
  | list items => list items.reverse
  | map entries => map entries.reverse
  | range r => range r.reversed
  | other => other

/-- The magnitude of a number; other values stay. -/
def abs (v : Value) : Value :=
  match v.untagged with
  | int n => ofExact n.toInt.natAbs (Decimal.ofInt64 n).abs
  | decimal d => decimal d.abs
  | other => other

end ReactiveScript.Value
