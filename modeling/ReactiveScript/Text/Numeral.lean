/-!
# Numerals

Decimal numerals of natural numbers and of 64-bit integers. Reading accepts a single sign and
leading zeros, and refuses everything else.
-/

namespace ReactiveScript.Text

/-- The value of a character between `0` and `9`. -/
def digitValue (c : Char) : Nat := c.toNat - '0'.toNat

/-- The number that a sequence of digits denotes, most significant digit first. -/
def natOfDigits (ds : List Char) : Nat := ds.foldl (fun n c => 10 * n + digitValue c) 0

/-- The sign in front of a numeral, `true` for a minus, and what follows it. -/
def splitSign : List Char → Bool × List Char
  | '-' :: rest => (true, rest)
  | '+' :: rest => (false, rest)
  | cs => (false, cs)

/-- The integer that a sign and a sequence of digits denote. -/
def signed (negative : Bool) (n : Nat) : Int := if negative then -(n : Int) else n

/-- An integer within the range of 64 bits. -/
def fitsInt64 (n : Int) : Bool :=
  decide (Int64.minValue.toInt ≤ n) && decide (n ≤ Int64.maxValue.toInt)

/-- Reads an optional sign and at least one digit; the number has to fit into 64 bits. -/
def readInt64? (cs : List Char) : Option Int64 :=
  let (negative, digits) := splitSign cs
  if digits.isEmpty || !digits.all Char.isDigit then none
  else
    let n := signed negative (natOfDigits digits)
    if fitsInt64 n then some (Int64.ofInt n) else none

/-- The numeral of an integer: its decimal digits, after a minus sign if it is negative. -/
def ofInt (n : Int) : String :=
  String.ofList (if n < 0 then '-' :: Nat.toDigits 10 n.natAbs else Nat.toDigits 10 n.natAbs)

/-- The numeral of a natural number. -/
def ofNat (n : Nat) : String := String.ofList (Nat.toDigits 10 n)

theorem natOfDigits_toDigits (n : Nat) : natOfDigits (Nat.toDigits 10 n) = n :=
  Nat.ofDigitChars_ten_toDigits

theorem ofNat_injective {n m : Nat} (h : ofNat n = ofNat m) : n = m := by
  have digits : Nat.toDigits 10 n = Nat.toDigits 10 m := String.ofList_injective h
  rw [← natOfDigits_toDigits n, digits, natOfDigits_toDigits]

end ReactiveScript.Text
