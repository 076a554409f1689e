import ReactiveScript.Decimal.Arithmetic
import Mathlib.Algebra.Order.Field.Power
import Mathlib.Data.Rat.Floor
import Mathlib.Tactic.Positivity
import Mathlib.Tactic.Ring

/-!
# What decimals denote

The number that the fields of a word of 64 bits denote is the signed number of units, as a part of
the units of one. Truncation is that of this number towards zero.
-/

namespace ReactiveScript.Decimal

/-- The number that the word of a finite decimal denotes: a sign bit, eleven bits of a biased
exponent and the low 52 bits of a significand, whose leading bit is missing if the biased exponent
is zero. -/
def wordValue (word : UInt64) : ℚ :=
  let exponent : ℕ := word.toNat / 2 ^ 52 % 2 ^ 11
  let fraction : ℕ := word.toNat % 2 ^ 52
  let significand : ℕ := if exponent = 0 then fraction else 2 ^ 52 + fraction
  (-1) ^ (word.toNat / 2 ^ 63) * significand * 2 ^ ((max exponent 1 : ℤ) - 1075)

/-- The number that a finite decimal denotes. -/
def toRat (d : Decimal) : ℚ := wordValue d.toBits

/-- The part of a number before the point. -/
def wholePart (q : ℚ) : ℤ := if 0 ≤ q then ⌊q⌋ else ⌈q⌉

theorem wholePart_neg (q : ℚ) : wholePart (-q) = -wholePart q := by
  rw [wholePart, wholePart, Int.floor_neg, Int.ceil_neg]
  rcases lt_trichotomy q 0 with h | rfl | h
  · rw [if_pos (neg_nonneg.mpr h.le), if_neg (not_le.mpr h)]
  · simp
  · rw [if_neg (not_le.mpr (neg_neg_of_pos h)), if_pos h.le]

theorem wholePart_natCast_div (n u : ℕ) : wholePart (n / u : ℚ) = (n / u : ℕ) := by
  rw [wholePart, if_pos (by positivity)]
  exact Rat.floor_natCast_div_natCast n u

/-- The exponent is a variable so that nothing computes the power. -/
theorem exists_unitsPerOne_eq : ∃ k, k = 1074 ∧ unitsPerOne = 2 ^ k := by
  have power {k : ℕ} (hk : 1074 = k) : unitsPerOne = 2 ^ k := by
    delta unitsPerOne
    rw [hk]
    rfl
  exact ⟨_, rfl, power rfl⟩

theorem unitsPerOne_pos : 0 < unitsPerOne := by
  obtain ⟨k, -, power⟩ := exists_unitsPerOne_eq
  rw [power]
  exact Nat.two_pow_pos k

theorem toNat_toBits (d : Decimal) :
    d.toBits.toNat = (if d.negative then 2 ^ 63 else 0) + d.code := by
  have weight : signWeight = 2 ^ 63 := by decide
  have small := d.code_lt
  rw [weight] at small
  rw [toBits, UInt64.toNat_ofNat', weight, Nat.mod_eq_of_lt]
  split <;> omega

section codes

/-- The units of a code whose significand has its leading bit. -/
theorem unitsOfCode_normal {e f : ℕ} (hf : f < binade) :
    unitsOfCode ((e + 1) * binade + f) = (binade + f) * 2 ^ e := by
  have width : binade = 4503599627370496 := by decide
  have quotient : ((e + 1) * binade + f) / binade = e + 1 := by
    rw [width] at hf ⊢
    omega
  have rest : ((e + 1) * binade + f) % binade = f := by
    rw [width] at hf ⊢
    omega
  have above : ¬ (e + 1) * binade + f < binade := by
    rw [width]
    omega
  rw [unitsOfCode, if_neg above, quotient, rest]
  rfl

/-- A code counts on from a significand of up to 53 bits into the next exponent. -/
theorem unitsOfCode_add {e m : ℕ} (normal : e = 0 ∨ binade ≤ m) (le : m ≤ 2 * binade) :
    unitsOfCode (e * binade + m) = m * 2 ^ e := by
  have width : 0 < binade := by decide
  rcases Nat.lt_or_ge m binade with small | large
  · obtain rfl : e = 0 := normal.resolve_right (Nat.not_le_of_gt small)
    rw [Nat.zero_mul, Nat.zero_add, unitsOfCode, if_pos small, Nat.pow_zero, Nat.mul_one]
  · rcases Nat.lt_or_eq_of_le le with below | rfl
    · have next : e * binade + m = (e + 1) * binade + (m - binade) := by
        rw [Nat.succ_mul]
        omega
      rw [next, unitsOfCode_normal (by omega), Nat.add_sub_cancel' large]
    · have next : e * binade + 2 * binade = (e + 1 + 1) * binade + 0 := by ring
      rw [next, unitsOfCode_normal width]
      ring

theorem exists_significand (code : ℕ) :
    ∃ e m, code = e * binade + m ∧ (e = 0 ∨ binade ≤ m) ∧ m < 2 * binade := by
  have width : binade = 4503599627370496 := by decide
  by_cases h : code < binade
  · exact ⟨0, code, by omega, .inl rfl, by omega⟩
  · refine ⟨code / binade - 1, binade + code % binade, ?_, .inr ?_, ?_⟩ <;> rw [width] at h ⊢ <;>
      omega

/-- Codes are ordered as their magnitudes. -/
theorem unitsOfCode_strictMono : StrictMono unitsOfCode := by
  refine strictMono_nat_of_lt_succ fun code => ?_
  obtain ⟨e, m, rfl, normal, small⟩ := exists_significand code
  rw [Nat.add_assoc, unitsOfCode_add normal small.le,
    unitsOfCode_add (normal.imp_right (Nat.le_succ_of_le ·)) small]
  exact Nat.mul_lt_mul_of_pos_right (Nat.lt_succ_self m) (Nat.two_pow_pos e)

/-- A magnitude code is a biased exponent and the low bits of a significand. -/
theorem unitsOfCode_eq (code : ℕ) :
    unitsOfCode code =
      (if code / 2 ^ 52 = 0 then code % 2 ^ 52 else 2 ^ 52 + code % 2 ^ 52) *
        2 ^ (max (code / 2 ^ 52) 1 - 1) := by
  have width : binade = 2 ^ 52 := by decide
  rw [unitsOfCode, width]
  by_cases h : code < 2 ^ 52
  · rw [if_pos h, if_pos (Nat.div_eq_of_lt h), Nat.mod_eq_of_lt h, Nat.div_eq_of_lt h]
    exact (Nat.mul_one code).symm
  · have normal : code / 2 ^ 52 ≠ 0 := by omega
    rw [if_neg h, if_neg normal, Nat.max_eq_left (Nat.pos_of_ne_zero normal)]
    rfl

end codes

theorem signedUnits_eq (d : Decimal) :
    (d.signedUnits : ℚ) = (-1) ^ (if d.negative then 1 else 0) * d.units := by
  rw [signedUnits]
  cases d.negative <;> simp

/-- The number that a word denotes is a whole number of units. -/
theorem toRat_eq (d : Decimal) : d.toRat = d.signedUnits / unitsPerOne := by
  have small : d.code < 2 ^ 63 := d.code_lt
  have sign : d.toBits.toNat / 2 ^ 63 = if d.negative then 1 else 0 := by
    rw [toNat_toBits]
    split <;> omega
  have exponent : d.toBits.toNat / 2 ^ 52 % 2 ^ 11 = d.code / 2 ^ 52 := by
    rw [toNat_toBits]
    split <;> omega
  have fraction : d.toBits.toNat % 2 ^ 52 = d.code % 2 ^ 52 := by
    rw [toNat_toBits]
    split <;> omega
  have scale (e : ℕ) :
      (2 : ℚ) ^ ((max e 1 : ℤ) - 1075) = 2 ^ (max e 1 - 1) / (unitsPerOne : ℕ) := by
    have positive : 1 ≤ max e 1 := Nat.le_max_right e 1
    obtain ⟨k, hk, power⟩ := exists_unitsPerOne_eq
    have shifted : (max e 1 : ℤ) - 1075 = (max e 1 - 1 : ℕ) - (k : ℤ) := by
      rw [Nat.cast_sub positive, hk]
      push_cast
      ring
    rw [power, Nat.cast_pow, Nat.cast_ofNat, shifted, zpow_sub₀ two_ne_zero, zpow_natCast,
      zpow_natCast]
  rw [toRat, wordValue, sign, exponent, fraction, signedUnits_eq, units, unitsOfCode_eq, scale]
  push_cast
  ring

theorem toRat_eq_intCast {d : Decimal} {n : ℤ} (whole : d.signedUnits = n * unitsPerOne) :
    d.toRat = n := by
  have scale : (unitsPerOne : ℚ) ≠ 0 := Nat.cast_ne_zero.mpr unitsPerOne_pos.ne'
  rw [toRat_eq, whole, Int.cast_mul, Int.cast_natCast]
  exact mul_div_cancel_right₀ _ scale

/-- Truncation is that of the number that a decimal denotes. -/
theorem truncate_eq_wholePart (d : Decimal) : d.truncate = wholePart d.toRat := by
  have whole : wholePart (d.units / unitsPerOne : ℚ) = (d.units / unitsPerOne : ℕ) :=
    wholePart_natCast_div _ _
  rw [toRat_eq, signedUnits_eq, truncate]
  cases d.negative with
  | false =>
    simp only [Bool.false_eq_true, if_false, pow_zero, one_mul]
    exact whole.symm
  | true =>
    have negated := (wholePart_neg (d.units / unitsPerOne : ℚ)).trans (congrArg _ whole)
    simp only [if_true, pow_one, neg_one_mul, neg_div]
    exact negated.symm

end ReactiveScript.Decimal
