import ReactiveScript.Decimal.Rounding
import ReactiveScript.Text.Numeral

/-!
# Reading decimals

The numerals that a cast reads: an optional sign, then a name of infinity or NaN in any case, or
digits with an optional point and an optional exponent. At least one digit is needed before or
after the point. The value is rounded once.
-/

namespace ReactiveScript.Decimal

open ReactiveScript.Text

/-- An exponent mark with its sign and digits; no text at all is the exponent `0`. -/
def readExponent? : List Char → Option Int
  | [] => some 0
  | mark :: rest =>
    let (negative, digits) := splitSign rest
    if (mark == 'e' || mark == 'E') && !digits.isEmpty && digits.all Char.isDigit then
      some (signed negative (natOfDigits digits))
    else none

/-- The digits after a point, if there is one, and what follows them. -/
def splitFraction : List Char → List Char × List Char
  | '.' :: rest => (rest.takeWhile Char.isDigit, rest.dropWhile Char.isDigit)
  | cs => ([], cs)

/-- Reads digits, an optional fraction and an optional exponent. -/
def readDigits? (negative : Bool) (cs : List Char) : Option Decimal :=
  let whole := cs.takeWhile Char.isDigit
  let (fraction, rest) := splitFraction (cs.dropWhile Char.isDigit)
  if whole.isEmpty && fraction.isEmpty then none
  else (readExponent? rest).map fun exponent =>
    ofScientific negative (natOfDigits (whole ++ fraction)) (exponent - fraction.length)

/-- Reads a decimal numeral. -/
def read? (cs : List Char) : Option Decimal :=
  let (negative, body) := splitSign cs
  let word := String.ofList (body.map Char.toLower)
  if word == "inf" || word == "infinity" then some (infinity negative)
  else if word == "nan" then some { nan with negative := negative }
  else readDigits? negative body

end ReactiveScript.Decimal
