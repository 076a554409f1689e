import ReactiveScript.Decimal.Arithmetic

/-!
# Shortest digits

The digits of a finite decimal are the fewest that read back as the same decimal, and among those
the nearest. A decimal is what every number of its *rounding interval* is read as; the interval
includes its ends exactly if the code is even. For one, two, … seventeen digits the two neighbours
of the number on that decimal grid are tested in exact arithmetic, and the first grid with a hit
gives the digits.
-/

namespace ReactiveScript.Decimal

/-- Which of two digit sequences of equal length and equal distance is taken. -/
inductive DigitTie
  | up
  | even
deriving DecidableEq, Repr

/-- The number `mantissa * 10 ^ exponent`. -/
structure Scientific where
  mantissa : Nat
  exponent : Int
deriving DecidableEq, Repr

/-- The exponent of the leading decimal digit of a positive finite decimal. -/
def leadingExponent (d : Decimal) : Int :=
  if unitsPerOne ≤ d.units then (Nat.toDigits 10 (d.units / unitsPerOne)).length - 1
  else -((Nat.toDigits 10 ((unitsPerOne - 1) / d.units)).length : Int)

/-- Twice the units of the lower end of the rounding interval. -/
def lowerEnd (d : Decimal) : Nat := unitsOfCode (d.code - 1) + d.units

/-- Twice the units of the upper end of the rounding interval. -/
def upperEnd (d : Decimal) : Nat := d.units + unitsOfCode (d.code + 1)

/-- Whether `num / den`, in half units, is read as `d`. -/
def reads (d : Decimal) (num den : Nat) : Bool :=
  if d.code % 2 == 0 then d.lowerEnd * den ≤ num && num ≤ d.upperEnd * den
  else d.lowerEnd * den < num && num < d.upperEnd * den

/-- The neighbour of `d` on the grid of multiples of `10 ^ exponent` that reads back as `d`, the
nearer one if both do. -/
def onGrid? (tie : DigitTie) (d : Decimal) (exponent : Int) : Option Nat :=
  let num := Nat.pow 10 exponent.toNat * (2 * unitsPerOne)
  let den := Nat.pow 10 (-exponent).toNat
  let target := 2 * d.units * den
  let below := target / num
  match d.reads (below * num) den, d.reads ((below + 1) * num) den with
  | true, false => some below
  | false, true => some (below + 1)
  | false, false => none
  | true, true =>
    let rest := 2 * (target % num)
    if rest < num then some below
    else if num < rest then some (below + 1)
    else match tie with
      | .up => some (below + 1)
      | .even => some (below + below % 2)

/-- Trailing zeros moved into the exponent. -/
def Scientific.normalize : Nat → Scientific → Scientific
  | 0, s => s
  | fuel + 1, s =>
    if s.mantissa != 0 && s.mantissa % 10 == 0 then
      normalize fuel ⟨s.mantissa / 10, s.exponent + 1⟩
    else s

/-- The fewest digits that read back as the positive finite decimal `d`. -/
def shortest (tie : DigitTie) (d : Decimal) : Scientific :=
  let leading := d.leadingExponent
  let grid? (places : Nat) : Option Scientific :=
    (onGrid? tie d (leading - places)).map fun mantissa => ⟨mantissa, leading - places⟩
  (((List.range 17).findSome? grid?).getD ⟨0, 0⟩).normalize 20

end ReactiveScript.Decimal
