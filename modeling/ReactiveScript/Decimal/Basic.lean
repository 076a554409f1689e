/-!
# Decimals

A decimal is a binary64 number: a sign and a *magnitude code*, the low 63 bits of its IEEE-754 word.
Codes are ordered as the magnitudes they stand for, so that numbers are compared through one
integer, `Decimal.key`, in which both zeros are `0`. Above the code of infinity lie the NaNs, which
are comparable with nothing.

Every finite magnitude is a whole number of *units* of `2 ^ (-1074)`. The function `Decimal.units`
gives that number, and the arithmetic of the library is exact arithmetic on units followed by a
single rounding.
-/

namespace ReactiveScript

/-- The weight of the sign bit in a word, `2 ^ 63`; every magnitude code lies below it. -/
def Decimal.signWeight : Nat := 0x8000000000000000

/-- The number of codes that share an exponent, `2 ^ 52`. -/
def Decimal.binade : Nat := 0x10000000000000

/-- A binary64 number: its sign and the remaining 63 bits of its word. -/
structure Decimal where
  negative : Bool
  code : Nat
  code_lt : code < Decimal.signWeight
deriving DecidableEq, Repr

namespace Decimal

/-- The code of an infinite magnitude; the codes above it are those of NaN. -/
def infinityCode : Nat := 2047 * binade

/-- The code of the quiet NaN without payload. -/
def quietCode : Nat := infinityCode + binade / 2

theorem infinityCode_lt : infinityCode < signWeight := by decide

theorem quietCode_lt : quietCode < signWeight := by decide

/-- The number `1` in units. -/
def unitsPerOne : Nat := Nat.pow 2 1074

def zero : Decimal := ⟨false, 0, by decide⟩

def one : Decimal := ⟨false, 1023 * binade, by decide⟩

/-- An infinity of either sign. -/
def infinity (negative : Bool) : Decimal := ⟨negative, infinityCode, infinityCode_lt⟩

/-- The NaN that its name in a text stands for. -/
def nan : Decimal := ⟨false, quietCode, quietCode_lt⟩

/-- The NaN that an invalid operation on ordinary operands gives; its sign bit is set. -/
def invalid : Decimal := ⟨true, quietCode, quietCode_lt⟩

instance : Inhabited Decimal := ⟨zero⟩

def isNaN (d : Decimal) : Bool := decide (infinityCode < d.code)

def isInfinite (d : Decimal) : Bool := decide (d.code = infinityCode)

def isFinite (d : Decimal) : Bool := decide (d.code < infinityCode)

/-- Both zeros, the negative one included. -/
def isZero (d : Decimal) : Bool := decide (d.code = 0)

@[simp] theorem isNaN_eq_true {d : Decimal} : d.isNaN = true ↔ infinityCode < d.code := by
  simp [isNaN]

@[simp] theorem isFinite_eq_true {d : Decimal} : d.isFinite = true ↔ d.code < infinityCode := by
  simp [isFinite]

/-- The 64-bit word of a decimal. -/
def toBits (d : Decimal) : UInt64 :=
  UInt64.ofNat ((if d.negative then signWeight else 0) + d.code)

/-- The decimal with a given 64-bit word. -/
def ofBits (word : UInt64) : Decimal :=
  ⟨decide (signWeight ≤ word.toNat), word.toNat % signWeight, Nat.mod_lt _ (by decide)⟩

/-- The units that a magnitude code stands for. -/
def unitsOfCode (code : Nat) : Nat :=
  if code < binade then code else (binade + code % binade) * Nat.pow 2 (code / binade - 1)

/-- The magnitude of a finite decimal in units of `2 ^ (-1074)`. -/
def units (d : Decimal) : Nat := unitsOfCode d.code

/-- The signed number of units of a finite decimal. -/
def signedUnits (d : Decimal) : Int := if d.negative then -(d.units : Int) else d.units

/-- The integer through which decimals that are not NaN are compared. -/
def key (d : Decimal) : Int := if d.negative then -(d.code : Int) else d.code

/-- Ordering by value; NaN is not comparable. -/
def compare? (a b : Decimal) : Option Ordering :=
  if a.isNaN || b.isNaN then none else some (compare a.key b.key)

/-- Equality by value: NaN equals nothing, and the two zeros are equal. -/
def numericEq (a b : Decimal) : Bool := !a.isNaN && !b.isNaN && a.key == b.key

/-- The sign changed, that of a zero, an infinity or a NaN too. -/
def neg (d : Decimal) : Decimal := { d with negative := !d.negative }

/-- The sign cleared. -/
def abs (d : Decimal) : Decimal := { d with negative := false }

@[simp] theorem neg_neg (d : Decimal) : d.neg.neg = d := by simp [neg]

@[simp] theorem units_neg (d : Decimal) : d.neg.units = d.units := rfl

@[simp] theorem key_neg (d : Decimal) : d.neg.key = -d.key := by
  cases h : d.negative <;> simp [key, neg, h]

@[simp] theorem key_eq_zero_iff {d : Decimal} : d.key = 0 ↔ d.code = 0 := by
  cases h : d.negative <;> simp [key, h]

end Decimal
end ReactiveScript
