import ReactiveScript.Decimal.Digits

/-!
# The text of a decimal

Two layouts of the shortest digits: the one that people read never uses an exponent, the one in
JSON text uses it for very large and very small numbers. A third form has a fixed number of places.
-/

namespace ReactiveScript.Decimal

/-- How the shortest digits of a decimal are written. The conditions are on the exponent of the
leading digit. -/
structure Layout where
  tie : DigitTie
  /-- Numbers written without an exponent. -/
  positional : Int → Bool
  /-- Whole numbers written positionally that end in a zero after the point. -/
  pointZero : Int → Bool

/-- The layout that people read: no exponent, and a point in whole numbers of up to 15 digits. -/
def Layout.plain : Layout := ⟨.up, fun _ => true, fun e => e < 15⟩

/-- The layout in JSON text: an exponent from `1e+16` and below `0.00001`. -/
def Layout.json : Layout := ⟨.even, fun e => -5 ≤ e && e < 16, fun _ => true⟩

/-- Writes `digits * 10 ^ exponent` without an exponent; a whole number gets `whole` at its end. -/
def positionalText (digits : List Char) (exponent : Int) (whole : List Char) : List Char :=
  let places := (-exponent).toNat
  if places == 0 then digits ++ List.replicate exponent.toNat '0' ++ whole
  else if places < digits.length then
    digits.take (digits.length - places) ++ '.' :: digits.drop (digits.length - places)
  else '0' :: '.' :: List.replicate (places - digits.length) '0' ++ digits

/-- Writes digits with a point after the first one and the exponent of the leading digit. -/
def exponentText (digits : List Char) (leading : Int) : List Char :=
  let fraction := match digits.drop 1 with
    | [] => []
    | rest => '.' :: rest
  digits.take 1 ++ fraction ++ 'e' :: (if leading < 0 then '-' else '+') ::
    Nat.toDigits 10 leading.natAbs

/-- The magnitude of a finite decimal in a layout. -/
def Layout.magnitude (layout : Layout) (d : Decimal) : List Char :=
  if d.isZero then ['0', '.', '0']
  else
    let s := d.shortest layout.tie
    let digits := Nat.toDigits 10 s.mantissa
    let leading := s.exponent + digits.length - 1
    if layout.positional leading then
      positionalText digits s.exponent (if layout.pointZero leading then ['.', '0'] else [])
    else exponentText digits leading

/-- A finite decimal in a layout, the sign of a zero included. -/
def Layout.write (layout : Layout) (d : Decimal) : String :=
  String.ofList ((if d.negative then ['-'] else []) ++ layout.magnitude d)

/-- The text of any decimal for people. -/
def display (d : Decimal) : String :=
  if d.isNaN then "NaN"
  else if d.isInfinite then if d.negative then "-Infinity" else "Infinity"
  else Layout.plain.write d

/-- A finite decimal with a fixed number of places, the exact value rounded half to even. -/
def fixed (places : Nat) (d : Decimal) : String :=
  let n := roundHalfEven (d.units * Nat.pow 10 places) unitsPerOne
  let digits := Nat.toDigits 10 n
  let padded := List.replicate (places + 1 - digits.length) '0' ++ digits
  let whole := padded.take (padded.length - places)
  String.ofList ((if d.negative then ['-'] else []) ++ whole ++
    (if places == 0 then [] else '.' :: padded.drop (padded.length - places)))

end ReactiveScript.Decimal
