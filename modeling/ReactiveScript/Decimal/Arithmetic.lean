import ReactiveScript.Decimal.Rounding

/-!
# Arithmetic of decimals

Each operation takes care of NaN, infinities and signed zeros first, and then rounds the exact
result once. An operand that is NaN is passed on, the left one before the right one.
-/

namespace ReactiveScript.Decimal

/-- The leftmost NaN among two operands. -/
def nanOperand? (a b : Decimal) : Option Decimal :=
  if a.isNaN then some a else if b.isNaN then some b else none

def add (a b : Decimal) : Decimal :=
  match nanOperand? a b with
  | some d => d
  | none =>
    if a.isInfinite then
      if b.isInfinite && a.negative != b.negative then invalid else a
    else if b.isInfinite then b
    else if a.isZero && b.isZero then { zero with negative := a.negative && b.negative }
    else ofSignedUnits (a.signedUnits + b.signedUnits)

def sub (a b : Decimal) : Decimal :=
  match nanOperand? a b with
  | some d => d
  | none => add a b.neg

def mul (a b : Decimal) : Decimal :=
  match nanOperand? a b with
  | some d => d
  | none =>
    let negative := a.negative != b.negative
    if a.isInfinite || b.isInfinite then
      if a.isZero || b.isZero then invalid else infinity negative
    else ofUnits negative (a.units * b.units) unitsPerOne

def div (a b : Decimal) : Decimal :=
  match nanOperand? a b with
  | some d => d
  | none =>
    let negative := a.negative != b.negative
    if a.isInfinite then
      if b.isInfinite then invalid else infinity negative
    else if b.isInfinite then { zero with negative := negative }
    else if b.isZero then
      if a.isZero then invalid else infinity negative
    else ofUnits negative (a.units * unitsPerOne) b.units

/-- The remainder of the division truncated towards zero; it has the sign of the dividend. -/
def rem (a b : Decimal) : Decimal :=
  match nanOperand? a b with
  | some d => d
  | none =>
    if a.isInfinite || b.isZero then invalid
    else if b.isInfinite then a
    else ofUnits a.negative (a.units % b.units) 1

/-- The whole part of a finite decimal, truncated towards zero. -/
def truncate (d : Decimal) : Int :=
  let whole : Nat := d.units / unitsPerOne
  if d.negative then -(whole : Int) else whole

/-- The 64-bit integer that a decimal truncates to, if its magnitude is no more than
the greatest of them. -/
def toInt64? (d : Decimal) : Option Int64 :=
  if d.isFinite && decide (d.truncate.natAbs ≤ Int64.maxValue.toInt) then
    some (Int64.ofInt d.truncate)
  else none

def ofInt64 (n : Int64) : Decimal := ofInt n.toInt

end ReactiveScript.Decimal
