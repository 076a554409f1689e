import ReactiveScript.Decimal.Basic

/-!
# Rounding to a decimal

One function, `Decimal.ofUnits`, turns an exact quotient of units into the nearest decimal, a tie
going to the even code. Readers, conversions and all arithmetic go through it, so that each
operation rounds once. Above the greatest finite magnitude the result is an infinity.
-/

namespace ReactiveScript

/-- The quotient rounded to the nearest natural number, a half to the even neighbour. -/
def roundHalfEven (num den : Nat) : Nat :=
  let quotient := num / den
  let rest := 2 * (num % den)
  if rest < den then quotient
  else if den < rest then quotient + 1
  else quotient + quotient % 2

namespace Decimal

/-- The low bits of a quotient of units that do not fit into a significand of 53 bits. -/
def excessBits (num den : Nat) : Nat := (num / den).log2 - 52

/-- The code nearest to `num / den` units. -/
def roundCode (num den : Nat) : Nat :=
  let excess := excessBits num den
  min (excess * binade + roundHalfEven num (den * Nat.pow 2 excess)) infinityCode

theorem roundCode_le (num den : Nat) : roundCode num den ≤ infinityCode := Nat.min_le_right _ _

/-- The decimal nearest to `num / den` units with the given sign. -/
def ofUnits (negative : Bool) (num den : Nat) : Decimal :=
  ⟨negative, roundCode num den, Nat.lt_of_le_of_lt (roundCode_le num den) infinityCode_lt⟩

/-- The decimal nearest to a signed number of units; zero is positive. -/
def ofSignedUnits (n : Int) : Decimal := ofUnits (decide (n < 0)) n.natAbs 1

/-- The decimal nearest to an integer. -/
def ofInt (n : Int) : Decimal := ofUnits (decide (n < 0)) (n.natAbs * unitsPerOne) 1

/-- The decimal nearest to `mantissa * 10 ^ exponent`. Exponents that lie beyond the range of every
decimal are answered without computing the power. -/
def ofScientific (negative : Bool) (mantissa : Nat) (exponent : Int) : Decimal :=
  let leading := exponent + (Nat.toDigits 10 mantissa).length
  if mantissa = 0 then { zero with negative := negative }
  else if 310 < leading then infinity negative
  else if leading < -330 then { zero with negative := negative }
  else if 0 ≤ exponent then ofUnits negative (mantissa * Nat.pow 10 exponent.toNat * unitsPerOne) 1
  else ofUnits negative (mantissa * unitsPerOne) (Nat.pow 10 (-exponent).toNat)

end Decimal
end ReactiveScript
