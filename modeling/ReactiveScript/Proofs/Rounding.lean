import ReactiveScript.Proofs.Denotation
import Mathlib.Tactic.Linarith

/-!
# Rounding errors

An exact quotient of units is rounded to a multiple of a power of two that is at most half as far
away. As long as the result is finite and has all its 53 bits, or the quotient is a whole number of
units, this is at most one part in `2 ^ 53`. Such relative errors add up along sums of numbers of
one sign and along products.
-/

namespace ReactiveScript

section halves

variable {num den k : ℕ}

/-- A rounded quotient is off by at most one half. -/
theorem roundHalfEven_error (num : ℕ) (pos : 0 < den) :
    2 * num ≤ (2 * roundHalfEven num den + 1) * den ∧
      2 * roundHalfEven num den * den ≤ 2 * num + den := by
  have parts := Nat.div_add_mod num den
  have rest := Nat.mod_lt num pos
  have upper : (2 * roundHalfEven num den + 1) * den = 2 * roundHalfEven num den * den + den := by
    ring
  rw [upper]
  unfold roundHalfEven
  dsimp only
  generalize num / den = q at *
  generalize num % den = r at *
  subst parts
  have next : 2 * (q + 1) * den = 2 * (den * q) + 2 * den := by ring
  have here : 2 * q * den = 2 * (den * q) := by ring
  split
  · omega
  split
  · omega
  · rcases Nat.mod_two_eq_zero_or_one q with even | odd
    · rw [even, Nat.add_zero]
      omega
    · rw [odd]
      omega

theorem le_roundHalfEven (pos : 0 < den) (h : k * den ≤ num) : k ≤ roundHalfEven num den := by
  obtain ⟨above, -⟩ := roundHalfEven_error num pos
  have le : 2 * k * den ≤ (2 * roundHalfEven num den + 1) * den := by linarith
  have := Nat.le_of_mul_le_mul_right le pos
  omega

theorem roundHalfEven_le (pos : 0 < den) (h : num ≤ k * den) : roundHalfEven num den ≤ k := by
  obtain ⟨-, below⟩ := roundHalfEven_error num pos
  have le : 2 * roundHalfEven num den * den ≤ (2 * k + 1) * den := by linarith
  have := Nat.le_of_mul_le_mul_right le pos
  omega

theorem roundHalfEven_one (n : ℕ) : roundHalfEven n 1 = n :=
  Nat.le_antisymm (roundHalfEven_le Nat.one_pos (Nat.mul_one n).ge)
    (le_roundHalfEven Nat.one_pos (Nat.mul_one n).le)

end halves

/-- A number approximates another one up to a relative error. -/
def Near (ε x y : ℚ) : Prop := |x - y| ≤ ε * |y|

namespace Near

variable {ε δ x x' y y' z : ℚ}

theorem mono (h : Near ε x y) (le : ε ≤ δ) : Near δ x y :=
  le_trans h (mul_le_mul_of_nonneg_right le (abs_nonneg y))

theorem neg (h : Near ε x y) : Near ε (-x) (-y) := by
  rw [Near, neg_sub_neg, abs_sub_comm, abs_neg]
  exact h

theorem abs (h : Near ε x y) : Near ε |x| |y| := by
  rw [Near, abs_abs]
  exact (abs_abs_sub_abs_le x y).trans h

theorem abs_le (h : Near ε x y) : |x| ≤ (1 + ε) * |y| := by
  have split := abs_sub_abs_le_abs_sub x y
  rw [Near] at h
  linarith

theorem le_abs (h : Near ε x y) : (1 - ε) * |y| ≤ |x| := by
  have split := abs_sub_abs_le_abs_sub y x
  rw [Near, abs_sub_comm] at h
  linarith

/-- Errors of numbers of one sign are errors of their sum. -/
theorem add (h : Near ε x y) (h' : Near ε x' y') (same : 0 ≤ y ∧ 0 ≤ y' ∨ y ≤ 0 ∧ y' ≤ 0) :
    Near ε (x + x') (y + y') := by
  calc |x + x' - (y + y')| = |x - y + (x' - y')| := by ring_nf
    _ ≤ |x - y| + |x' - y'| := abs_add_le _ _
    _ ≤ ε * |y| + ε * |y'| := add_le_add h h'
    _ = ε * |y + y'| := by rw [(abs_add_eq_add_abs_iff y y').mpr same, mul_add]

theorem trans (h : Near ε x y) (h' : Near δ y z) (nonneg : 0 ≤ ε) :
    Near (ε + δ + ε * δ) x z := by
  calc |x - z| ≤ |x - y| + |y - z| := abs_sub_le x y z
    _ ≤ ε * ((1 + δ) * |z|) + δ * |z| :=
      add_le_add (le_trans h (mul_le_mul_of_nonneg_left h'.abs_le nonneg)) h'
    _ = (ε + δ + ε * δ) * |z| := by ring

theorem mul (h : Near ε x y) (h' : Near δ x' y') (nonneg : 0 ≤ ε) :
    Near (ε + δ + ε * δ) (x * x') (y * y') := by
  calc |x * x' - y * y'| = |(x - y) * x' + y * (x' - y')| := by ring_nf
    _ ≤ |x - y| * |x'| + |y| * |x' - y'| := by
      rw [← abs_mul, ← abs_mul]
      exact abs_add_le _ _
    _ ≤ ε * |y| * ((1 + δ) * |y'|) + |y| * (δ * |y'|) := by
      refine add_le_add (mul_le_mul h h'.abs_le (abs_nonneg _) (by positivity)) ?_
      exact mul_le_mul_of_nonneg_left h' (abs_nonneg y)
    _ = (ε + δ + ε * δ) * |y * y'| := by
      rw [abs_mul]
      ring

end Near

namespace Decimal

variable {a b d : Decimal} {negative : Bool} {num den e : ℕ}

section rounding

theorem lt_excessBits (num : ℕ) (pos : 0 < den) : num < den * 2 ^ (excessBits num den + 53) := by
  have bits : (num / den).log2 + 1 ≤ excessBits num den + 53 := by
    rw [excessBits]
    omega
  have quotient : num / den < 2 ^ (excessBits num den + 53) :=
    Nat.lt_log2_self.trans_le (Nat.pow_le_pow_right Nat.two_pos bits)
  rw [Nat.mul_comm]
  exact (Nat.div_lt_iff_lt_mul pos).mp quotient

/-- What does not fit into the significand leaves it with its leading bit. -/
theorem excessBits_eq_zero_or_le (num : ℕ) (pos : 0 < den) :
    excessBits num den = 0 ∨ den * 2 ^ excessBits num den * 2 ^ 52 ≤ num := by
  by_cases h : (num / den).log2 ≤ 52
  · exact .inl (Nat.sub_eq_zero_of_le h)
  · have bits : excessBits num den + 52 = (num / den).log2 := by
      rw [excessBits]
      omega
    have nonzero : num / den ≠ 0 := by
      intro zero
      rw [zero, Nat.log2_zero] at h
      exact h (Nat.zero_le 52)
    have quotient := Nat.log2_self_le nonzero
    rw [← bits] at quotient
    refine .inr ?_
    rw [Nat.mul_assoc, ← Nat.pow_add, Nat.mul_comm]
    exact (Nat.le_div_iff_mul_le pos).mp quotient

theorem excessBits_le (h : num < den * 2 ^ (e + 53)) : excessBits num den ≤ e := by
  have quotient : num / den < 2 ^ (e + 53) := Nat.div_lt_of_lt_mul h
  rw [excessBits]
  rcases Nat.eq_zero_or_pos (num / den) with zero | positive
  · simp [zero]
  · have bits := (Nat.log2_lt positive.ne').mpr quotient
    omega

/-- A quotient that is not too large is rounded to a finite decimal, whose significand is the
quotient rounded without its excess bits. -/
theorem units_ofUnits (negative : Bool) (pos : 0 < den) (bound : num < den * 2 ^ (e + 53))
    (small : e < 2045) :
    (ofUnits negative num den).isFinite ∧
      (ofUnits negative num den).units =
        roundHalfEven num (den * 2 ^ excessBits num den) * 2 ^ excessBits num den := by
  have width : binade = 2 ^ 52 := by decide
  have scaled : 0 < den * 2 ^ excessBits num den := Nat.mul_pos pos (Nat.two_pow_pos _)
  have upper : roundHalfEven num (den * 2 ^ excessBits num den) ≤ 2 * binade := by
    refine roundHalfEven_le scaled (Nat.le_of_lt ?_)
    calc num < den * 2 ^ (excessBits num den + 53) := lt_excessBits num pos
      _ = 2 * binade * (den * 2 ^ excessBits num den) := by rw [width, pow_add]; ring
  have lower : excessBits num den = 0 ∨
      binade ≤ roundHalfEven num (den * 2 ^ excessBits num den) := by
    refine (excessBits_eq_zero_or_le num pos).imp_right fun h => le_roundHalfEven scaled ?_
    rw [width, Nat.mul_comm]
    exact h
  have few := excessBits_le bound
  have below : excessBits num den * binade +
      roundHalfEven num (den * 2 ^ excessBits num den) < infinityCode := by
    have limit : infinityCode = 2047 * binade := rfl
    rw [limit]
    rw [width] at upper ⊢
    omega
  have code : (ofUnits negative num den).code = excessBits num den * binade +
      roundHalfEven num (den * 2 ^ excessBits num den) := Nat.min_eq_left below.le
  exact ⟨isFinite_eq_true.mpr (code ▸ below), by rw [units, code, unitsOfCode_add lower upper]⟩

/-- The error of rounding is at most one part in `2 ^ 53` if nothing of the significand is lost. -/
theorem abs_units_sub_le (negative : Bool) (pos : 0 < den) (bound : num < den * 2 ^ (e + 53))
    (small : e < 2045) (full : den = 1 ∨ den * 2 ^ 52 ≤ num) :
    |((ofUnits negative num den).units : ℚ) - num / den| ≤ 1 / 2 ^ 53 * (num / den) := by
  have nonneg : (0 : ℚ) ≤ num / den := div_nonneg (Nat.cast_nonneg _) (Nat.cast_nonneg _)
  rw [(units_ofUnits negative pos bound small).2]
  by_cases exact : excessBits num den = 0 ∧ den = 1
  · obtain ⟨none, rfl⟩ := exact
    rw [none, Nat.pow_zero, Nat.mul_one, roundHalfEven_one]
    simp
  · have significant : den * 2 ^ excessBits num den * 2 ^ 52 ≤ num := by
      rcases excessBits_eq_zero_or_le num pos with none | some
      · rw [none, Nat.pow_zero, Nat.mul_one]
        exact full.resolve_left fun one => exact ⟨none, one⟩
      · exact some
    have half := roundHalfEven_error num (Nat.mul_pos pos (Nat.two_pow_pos (excessBits num den)))
    generalize roundHalfEven num (den * 2 ^ excessBits num den) = m at *
    generalize 2 ^ excessBits num den = scale at *
    have above : (2 : ℚ) * num ≤ (2 * m + 1) * (den * scale) := by exact_mod_cast half.1
    have below : (2 : ℚ) * m * (den * scale) ≤ 2 * num + den * scale := by exact_mod_cast half.2
    have part : (den : ℚ) * scale * 2 ^ 52 ≤ num := by exact_mod_cast significant
    have positive : (0 : ℚ) < den := Nat.cast_pos.mpr pos
    have difference : ((m * scale : ℕ) : ℚ) - num / den = (m * scale * den - num) / den := by
      push_cast
      field_simp
    have error : |(m : ℚ) * scale * den - num| ≤ 1 / 2 ^ 53 * num := by
      rw [abs_le]
      constructor <;> linarith
    rw [difference, abs_div, abs_of_pos positive, ← mul_div_assoc]
    exact div_le_div_of_nonneg_right error positive.le

/-- What is rounded, with its sign, is approximated. -/
theorem ofUnits_near (negative : Bool) (pos : 0 < den) (bound : num < den * 2 ^ (e + 53))
    (small : e < 2045) (full : den = 1 ∨ den * 2 ^ 52 ≤ num) :
    (ofUnits negative num den).isFinite ∧ Near (1 / 2 ^ 53) (ofUnits negative num den).toRat
      ((-1) ^ (if negative then 1 else 0) * (num / den / unitsPerOne)) := by
  refine ⟨(units_ofUnits negative pos bound small).1, ?_⟩
  have scale : (0 : ℚ) < unitsPerOne := Nat.cast_pos.mpr unitsPerOne_pos
  have error := abs_units_sub_le negative pos bound small full
  have sign : (ofUnits negative num den).negative = negative := rfl
  have nonneg : (0 : ℚ) ≤ num / den := div_nonneg (Nat.cast_nonneg _) (Nat.cast_nonneg _)
  rw [Near, toRat_eq, signedUnits_eq, sign, mul_div_assoc, ← mul_sub, abs_mul, abs_mul,
    abs_neg_one_pow, one_mul, one_mul, ← sub_div, abs_div, abs_div, abs_of_pos scale,
    abs_of_nonneg nonneg, ← mul_div_assoc]
  exact div_le_div_of_nonneg_right error scale.le

end rounding

section operations

theorem abs_toRat (d : Decimal) : |d.toRat| = d.units / unitsPerOne := by
  rw [toRat_eq, signedUnits_eq, abs_div, abs_mul, abs_neg_one_pow, one_mul, Nat.abs_cast,
    Nat.abs_cast]

theorem units_le_of_abs_le {k : ℕ} (h : |d.toRat| ≤ 2 ^ k) : d.units ≤ 2 ^ k * unitsPerOne := by
  rw [abs_toRat, div_le_iff₀ (Nat.cast_pos.mpr unitsPerOne_pos)] at h
  exact_mod_cast h

theorem unitsPerOne_le_of_half_le (h : 1 / 2 ≤ |d.toRat|) : unitsPerOne ≤ 2 * d.units := by
  rw [abs_toRat, le_div_iff₀ (Nat.cast_pos.mpr unitsPerOne_pos)] at h
  have doubled : (unitsPerOne : ℚ) ≤ 2 * d.units := by linarith
  exact_mod_cast doubled

theorem signedUnits_neg (d : Decimal) : d.neg.signedUnits = -d.signedUnits := by
  rw [signedUnits, signedUnits, units_neg, neg]
  cases d.negative <;> simp

theorem toRat_neg (d : Decimal) : d.neg.toRat = -d.toRat := by
  rw [toRat_eq, toRat_eq, signedUnits_neg, Int.cast_neg, neg_div]

theorem toRat_abs (d : Decimal) : d.abs.toRat = |d.toRat| := by
  rw [abs_toRat, toRat_eq, signedUnits]
  rfl

theorem isFinite_neg (finite : d.isFinite) : d.neg.isFinite := finite

theorem isFinite_abs (finite : d.isFinite) : d.abs.isFinite := finite

theorem units_eq_zero_iff : d.units = 0 ↔ d.isZero := by
  have zero : unitsOfCode 0 = 0 := rfl
  rw [units, ← zero, unitsOfCode_strictMono.injective.eq_iff, isZero, decide_eq_true_iff]

theorem toRat_eq_zero (h : d.isZero) : d.toRat = 0 := by
  rw [← abs_eq_zero, abs_toRat, units_eq_zero_iff.mpr h, Nat.cast_zero, zero_div]

theorem natAbs_signedUnits (d : Decimal) : d.signedUnits.natAbs = d.units := by
  rw [signedUnits]
  split
  · rw [Int.natAbs_neg, Int.natAbs_natCast]
  · exact Int.natAbs_natCast _

theorem isNaN_eq_false (h : d.isFinite) : d.isNaN = false :=
  decide_eq_false (Nat.not_lt_of_gt (isFinite_eq_true.mp h))

theorem nanOperand?_eq_none (ha : a.isFinite) (hb : b.isFinite) : nanOperand? a b = none := by
  rw [nanOperand?, isNaN_eq_false ha, isNaN_eq_false hb]
  rfl

theorem isInfinite_eq_false (h : d.isFinite) : d.isInfinite = false :=
  decide_eq_false (Nat.ne_of_lt (isFinite_eq_true.mp h))

/-- A signed number of units is rounded with a small error, unless it is too large. -/
theorem ofSignedUnits_near {n : ℤ} (bound : n.natAbs ≤ 2 ^ 100 * unitsPerOne) :
    (ofSignedUnits n).isFinite ∧ Near (1 / 2 ^ 53) (ofSignedUnits n).toRat (n / unitsPerOne) := by
  obtain ⟨k, hk, power⟩ := exists_unitsPerOne_eq
  have magnitude : n.natAbs < 1 * 2 ^ (k + 48 + 53) := by
    rw [power, ← pow_add] at bound
    refine Nat.one_mul _ ▸ bound.trans_lt (Nat.pow_lt_pow_right Nat.one_lt_two (by omega))
  have value : (-1) ^ (if decide (n < 0) then 1 else 0) * ((n.natAbs : ℚ) / (1 : ℕ)) = n := by
    rw [Nat.cast_one, div_one, Nat.cast_natAbs]
    rcases lt_or_ge n 0 with h | h
    · simp [h, abs_of_neg h]
    · simp [not_lt.mpr h, abs_of_nonneg h]
  have near := ofUnits_near (decide (n < 0)) Nat.one_pos magnitude (by omega) (.inl rfl)
  rw [← mul_div_assoc, value] at near
  exact near

theorem ofInt_near {n : ℤ} (bound : n.natAbs ≤ 2 ^ 100) :
    (ofInt n).isFinite ∧ Near (1 / 2 ^ 53) (ofInt n).toRat n := by
  have positive : (0 : ℤ) < unitsPerOne := Int.natCast_pos.mpr unitsPerOne_pos
  have same : ofInt n = ofSignedUnits (n * unitsPerOne) := by
    have sign : n * unitsPerOne < 0 ↔ n < 0 := by
      constructor
      · exact fun h => neg_of_mul_neg_left h positive.le
      · exact fun h => mul_neg_of_neg_of_pos h positive
    rw [ofInt, ofSignedUnits, Int.natAbs_mul, Int.natAbs_natCast, decide_eq_decide.mpr sign]
  have value : ((n * unitsPerOne : ℤ) : ℚ) / unitsPerOne = n := by
    push_cast
    exact mul_div_cancel_right₀ _ (Nat.cast_ne_zero.mpr unitsPerOne_pos.ne')
  have near := ofSignedUnits_near (n := n * unitsPerOne)
    (by rw [Int.natAbs_mul, Int.natAbs_natCast]; exact Nat.mul_le_mul_right _ bound)
  rw [value] at near
  exact same ▸ near

/-- A sum is rounded once. -/
theorem add_near (ha : a.isFinite) (hb : b.isFinite) (small : |a.toRat| ≤ 2 ^ 64)
    (small' : |b.toRat| ≤ 2 ^ 64) :
    (a.add b).isFinite ∧ Near (1 / 2 ^ 53) (a.add b).toRat (a.toRat + b.toRat) := by
  have sum : a.toRat + b.toRat = (a.signedUnits + b.signedUnits : ℤ) / unitsPerOne := by
    rw [toRat_eq, toRat_eq, ← add_div]
    push_cast
    rfl
  simp only [add, nanOperand?_eq_none ha hb, isInfinite_eq_false ha, isInfinite_eq_false hb,
    Bool.false_eq_true, if_false]
  split
  · next zeros =>
    obtain ⟨za, zb⟩ := (Bool.and_eq_true _ _).mp zeros
    rw [toRat_eq_zero za, toRat_eq_zero zb, toRat_eq_zero rfl, Near]
    exact ⟨rfl, by simp⟩
  · rw [sum]
    refine ofSignedUnits_near ((Int.natAbs_add_le _ _).trans ?_)
    have ua := units_le_of_abs_le small
    have ub := units_le_of_abs_le small'
    rw [natAbs_signedUnits, natAbs_signedUnits]
    omega

theorem sub_near (ha : a.isFinite) (hb : b.isFinite) (small : |a.toRat| ≤ 2 ^ 64)
    (small' : |b.toRat| ≤ 2 ^ 64) :
    (a.sub b).isFinite ∧ Near (1 / 2 ^ 53) (a.sub b).toRat (a.toRat - b.toRat) := by
  have opposite : a.sub b = a.add b.neg := by rw [sub, nanOperand?_eq_none ha hb]
  rw [opposite, sub_eq_add_neg, ← toRat_neg]
  exact add_near ha (isFinite_neg hb) small (by rwa [toRat_neg, abs_neg])

/-- A product of numbers that are not too small is rounded once. -/
theorem mul_near (ha : a.isFinite) (hb : b.isFinite) (large : 1 / 2 ≤ |a.toRat|)
    (large' : 1 / 2 ≤ |b.toRat|) (small : |a.toRat| ≤ 2 ^ 64) (small' : |b.toRat| ≤ 2 ^ 64) :
    (a.mul b).isFinite ∧ Near (1 / 2 ^ 53) (a.mul b).toRat (a.toRat * b.toRat) := by
  obtain ⟨k, hk, power⟩ := exists_unitsPerOne_eq
  have product : a.mul b = ofUnits (a.negative != b.negative) (a.units * b.units) unitsPerOne := by
    simp only [mul, nanOperand?_eq_none ha hb, isInfinite_eq_false ha, isInfinite_eq_false hb,
      Bool.or_self, Bool.false_eq_true, if_false]
  have value : a.toRat * b.toRat = (-1) ^ (if (a.negative != b.negative) = true then 1 else 0) *
      (((a.units * b.units : ℕ) : ℚ) / unitsPerOne / unitsPerOne) := by
    rw [toRat_eq, toRat_eq, signedUnits_eq, signedUnits_eq]
    generalize (unitsPerOne : ℚ) = u
    cases a.negative <;> cases b.negative <;> push_cast <;> ring_nf <;> simp
  have upper : a.units * b.units < unitsPerOne * 2 ^ (k + 100 + 53) := by
    have room : 2 ^ 128 * unitsPerOne < 2 ^ (k + 100 + 53) := by
      rw [power, ← pow_add]
      exact Nat.pow_lt_pow_right Nat.one_lt_two (by omega)
    calc a.units * b.units ≤ 2 ^ 64 * unitsPerOne * (2 ^ 64 * unitsPerOne) :=
          Nat.mul_le_mul (units_le_of_abs_le small) (units_le_of_abs_le small')
      _ = unitsPerOne * (2 ^ 128 * unitsPerOne) := by ring
      _ < unitsPerOne * 2 ^ (k + 100 + 53) := Nat.mul_lt_mul_of_pos_left room unitsPerOne_pos
  have lower : unitsPerOne * 2 ^ 52 ≤ a.units * b.units := by
    have room : 2 ^ 54 ≤ unitsPerOne := by
      rw [power]
      exact Nat.pow_le_pow_right Nat.two_pos (by omega)
    have squares : unitsPerOne * unitsPerOne ≤ 2 * a.units * (2 * b.units) :=
      Nat.mul_le_mul (unitsPerOne_le_of_half_le large) (unitsPerOne_le_of_half_le large')
    have scaled := Nat.mul_le_mul_left unitsPerOne room
    linarith
  rw [product, value]
  exact ofUnits_near _ unitsPerOne_pos upper (by omega) (.inr lower)

end operations

end Decimal

end ReactiveScript
