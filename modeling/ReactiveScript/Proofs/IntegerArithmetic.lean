import ReactiveScript.Proofs.ContainerLaws
import ReactiveScript.Proofs.JsonForms
import ReactiveScript.Proofs.Methods
import ReactiveScript.Proofs.Rounding

/-!
# Arithmetic of integers

Operations on integers of 64 bits give the exact result if it has 64 bits too, and else a decimal
near to it: nothing wraps round. Division and remainder decompose the dividend, with a quotient that
fits except in one case.
-/

namespace ReactiveScript

open Eval

theorem toInt_bounds (n : Int64) : -2 ^ 63 ≤ n.toInt ∧ n.toInt < 2 ^ 63 := ⟨n.le_toInt, n.toInt_lt⟩

namespace Decimal

variable {a b : Int64}

theorem ofInt64_near (n : Int64) :
    (ofInt64 n).isFinite ∧ Near (1 / 2 ^ 53) (ofInt64 n).toRat n.toInt := by
  have bounds := toInt_bounds n
  exact ofInt_near (by omega)

theorem abs_toRat_ofInt64_le (n : Int64) : |(ofInt64 n).toRat| ≤ 2 ^ 64 := by
  have bounds := toInt_bounds n
  have magnitude : |(n.toInt : ℚ)| ≤ 2 ^ 63 := by
    rw [abs_le]
    constructor <;> exact_mod_cast (by omega)
  calc |(ofInt64 n).toRat| ≤ (1 + 1 / 2 ^ 53) * |(n.toInt : ℚ)| := (ofInt64_near n).2.abs_le
    _ ≤ (1 + 1 / 2 ^ 53) * 2 ^ 63 := mul_le_mul_of_nonneg_left magnitude (by norm_num)
    _ ≤ 2 ^ 64 := by norm_num

theorem half_le_abs_toRat_ofInt64 {n : Int64} (h : n.toInt ≠ 0) :
    1 / 2 ≤ |(ofInt64 n).toRat| := by
  have magnitude : (1 : ℚ) ≤ |(n.toInt : ℚ)| := by exact_mod_cast Int.one_le_abs h
  calc (1 / 2 : ℚ) ≤ (1 - 1 / 2 ^ 53) * 1 := by norm_num
    _ ≤ (1 - 1 / 2 ^ 53) * |(n.toInt : ℚ)| := mul_le_mul_of_nonneg_left magnitude (by norm_num)
    _ ≤ |(ofInt64 n).toRat| := (ofInt64_near n).2.le_abs

theorem add_ofInt64_near
    (same : 0 ≤ a.toInt ∧ 0 ≤ b.toInt ∨ a.toInt ≤ 0 ∧ b.toInt ≤ 0) :
    ((ofInt64 a).add (ofInt64 b)).isFinite ∧
      Near (1 / 2 ^ 51) ((ofInt64 a).add (ofInt64 b)).toRat (a.toInt + b.toInt : ℤ) := by
  have rounded := add_near (ofInt64_near a).1 (ofInt64_near b).1 (abs_toRat_ofInt64_le a)
    (abs_toRat_ofInt64_le b)
  have summands := (ofInt64_near a).2.add (ofInt64_near b).2 (by exact_mod_cast same)
  rw [Int.cast_add]
  exact ⟨rounded.1, (rounded.2.trans summands (by norm_num)).mono (by norm_num)⟩

theorem sub_ofInt64_near
    (opposite : 0 ≤ a.toInt ∧ b.toInt ≤ 0 ∨ a.toInt ≤ 0 ∧ 0 ≤ b.toInt) :
    ((ofInt64 a).sub (ofInt64 b)).isFinite ∧
      Near (1 / 2 ^ 51) ((ofInt64 a).sub (ofInt64 b)).toRat (a.toInt - b.toInt : ℤ) := by
  have rounded := sub_near (ofInt64_near a).1 (ofInt64_near b).1 (abs_toRat_ofInt64_le a)
    (abs_toRat_ofInt64_le b)
  have same : (0 : ℚ) ≤ a.toInt ∧ (0 : ℚ) ≤ -b.toInt ∨ (a.toInt : ℚ) ≤ 0 ∧ -(b.toInt : ℚ) ≤ 0 := by
    rw [neg_nonneg, neg_nonpos]
    exact_mod_cast opposite
  have summands := (ofInt64_near a).2.add (ofInt64_near b).2.neg same
  rw [sub_eq_add_neg] at rounded
  rw [Int.cast_sub, sub_eq_add_neg]
  exact ⟨rounded.1, (rounded.2.trans summands (by norm_num)).mono (by norm_num)⟩

theorem mul_ofInt64_near (ha : a.toInt ≠ 0) (hb : b.toInt ≠ 0) :
    ((ofInt64 a).mul (ofInt64 b)).isFinite ∧
      Near (1 / 2 ^ 51) ((ofInt64 a).mul (ofInt64 b)).toRat (a.toInt * b.toInt : ℤ) := by
  have rounded := mul_near (ofInt64_near a).1 (ofInt64_near b).1 (half_le_abs_toRat_ofInt64 ha)
    (half_le_abs_toRat_ofInt64 hb) (abs_toRat_ofInt64_le a) (abs_toRat_ofInt64_le b)
  have factors := (ofInt64_near a).2.mul (ofInt64_near b).2 (by norm_num)
  rw [Int.cast_mul]
  exact ⟨rounded.1, (rounded.2.trans factors (by norm_num)).mono (by norm_num)⟩

theorem isZero_ofInt64_eq_false {n : Int64} (h : n.toInt ≠ 0) : (ofInt64 n).isZero = false := by
  refine Bool.eq_false_iff.mpr fun zero => ?_
  have large := half_le_abs_toRat_ofInt64 h
  rw [toRat_eq_zero zero, abs_zero] at large
  exact absurd large (by norm_num)

end Decimal

theorem Text.fitsInt64_iff {n : ℤ} : Text.fitsInt64 n ↔ -2 ^ 63 ≤ n ∧ n < 2 ^ 63 := by
  have least : Int64.minValue.toInt = -2 ^ 63 := by decide
  have greatest : Int64.maxValue.toInt = 2 ^ 63 - 1 := by decide
  rw [Text.fitsInt64, least, greatest, Bool.and_eq_true, decide_eq_true_iff, decide_eq_true_iff,
    Int.le_sub_one_iff]

namespace Value

/-- The integer itself if it has 64 bits, and else a finite decimal that is off by no more than one
part in `2 ^ 51`. -/
def ExactOrNear (v : Value) (n : ℤ) : Prop :=
  if -2 ^ 63 ≤ n ∧ n < 2 ^ 63 then ∃ m : Int64, v = int m ∧ m.toInt = n
  else ∃ d : Decimal, v = decimal d ∧ d.isFinite ∧ Near (1 / 2 ^ 51) d.toRat n

theorem exactOrNear_int {n : ℤ} (fits : -2 ^ 63 ≤ n ∧ n < 2 ^ 63) :
    (int (Int64.ofInt n)).ExactOrNear n := by
  rw [ExactOrNear, if_pos fits]
  exact ⟨_, rfl, Int64.toInt_ofInt_of_le fits.1 fits.2⟩

theorem exactOrNear_ofExact {n : ℤ} {d : Decimal}
    (near : ¬ (-2 ^ 63 ≤ n ∧ n < 2 ^ 63) → d.isFinite ∧ Near (1 / 2 ^ 51) d.toRat n) :
    (ofExact n d).ExactOrNear n := by
  by_cases fits : -2 ^ 63 ≤ n ∧ n < 2 ^ 63
  · rw [ofExact, if_pos (Text.fitsInt64_iff.mpr fits)]
    exact exactOrNear_int fits
  · rw [ofExact, if_neg (mt Text.fitsInt64_iff.mp fits), ExactOrNear, if_neg fits]
    exact ⟨d, rfl, near fits⟩

section operations

variable {a b : Int64} {l r : Value}

theorem plus_int (hl : l.untagged = int a) (hr : r.untagged = int b) :
    ∃ u : Value, l.plus r = .ok u ∧ u.ExactOrNear (a.toInt + b.toInt) := by
  refine ⟨ofExact (a.toInt + b.toInt) ((Decimal.ofInt64 a).add (Decimal.ofInt64 b)), ?_,
    exactOrNear_ofExact fun outside => Decimal.add_ofInt64_near ?_⟩
  · rw [plus, hl, hr]
    rfl
  · have left := toInt_bounds a
    have right := toInt_bounds b
    omega

theorem minus_int (hl : l.untagged = int a) (hr : r.untagged = int b) :
    ∃ u : Value, l.minus r = .ok u ∧ u.ExactOrNear (a.toInt - b.toInt) := by
  refine ⟨ofExact (a.toInt - b.toInt) ((Decimal.ofInt64 a).sub (Decimal.ofInt64 b)), ?_,
    exactOrNear_ofExact fun outside => Decimal.sub_ofInt64_near ?_⟩
  · rw [minus, hl, hr]
    rfl
  · have left := toInt_bounds a
    have right := toInt_bounds b
    omega

theorem multiply_int (hl : l.untagged = int a) (hr : r.untagged = int b) :
    ∃ u : Value, l.multiply r = .ok u ∧ u.ExactOrNear (a.toInt * b.toInt) := by
  have none : errorOperand? (int a) (int b) = none := rfl
  rw [multiply, hl, hr, none]
  simp only [product]
  by_cases fits : -2 ^ 63 ≤ a.toInt * b.toInt ∧ a.toInt * b.toInt < 2 ^ 63
  · rw [if_pos (Text.fitsInt64_iff.mpr fits)]
    exact ⟨_, rfl, exactOrNear_int fits⟩
  · have ha : a.toInt ≠ 0 := by
      intro zero
      rw [zero, zero_mul] at fits
      exact fits (by decide)
    have hb : b.toInt ≠ 0 := by
      intro zero
      rw [zero, mul_zero] at fits
      exact fits (by decide)
    rw [if_neg (mt Text.fitsInt64_iff.mp fits)]
    refine ⟨_, rfl, ?_⟩
    rw [decimalProduct, Decimal.isZero_ofInt64_eq_false ha, Decimal.isZero_ofInt64_eq_false hb,
      ExactOrNear, if_neg fits]
    exact ⟨_, rfl, Decimal.mul_ofInt64_near ha hb⟩

theorem negate_int (hl : l.untagged = int a) : l.negate.ExactOrNear (-a.toInt) := by
  have near := Decimal.ofInt64_near a
  rw [negate, hl]
  refine exactOrNear_ofExact fun _ => ⟨Decimal.isFinite_neg near.1, ?_⟩
  rw [Decimal.toRat_neg, Int.cast_neg]
  exact near.2.neg.mono (by norm_num)

theorem abs_int (hl : l.untagged = int a) : l.abs.ExactOrNear |a.toInt| := by
  have near := Decimal.ofInt64_near a
  have magnitude : l.abs = ofExact |a.toInt| (Decimal.ofInt64 a).abs := by
    rw [abs, hl, Int.abs_eq_natAbs]
  rw [magnitude]
  refine exactOrNear_ofExact fun _ => ⟨Decimal.isFinite_abs near.1, ?_⟩
  rw [Decimal.toRat_abs, Int.cast_abs]
  exact near.2.abs.mono (by norm_num)

/-- By zero an integer is divided into the infinity with its sign, and so is the remainder. -/
theorem divide_zero (hl : l.untagged = int a) (hr : r.untagged = int 0) :
    l.divide r = .ok (infinity (decide (0 ≤ a.toInt))) ∧
      l.modulus r = .ok (infinity (decide (0 ≤ a.toInt))) := by
  have sign : signedInfinity (Decimal.ofInt64 a) = infinity (decide (0 ≤ a.toInt)) := by
    show infinity (!decide (a.toInt < 0)) = _
    rw [← decide_not, decide_eq_decide.mpr not_lt]
  constructor
  · rw [divide, hl, hr, ← sign]
    rfl
  · rw [modulus, hl, hr, ← sign]
    rfl

theorem divide_int (hl : l.untagged = int a) (hr : r.untagged = int b) (hb : b ≠ 0) :
    l.divide r = .ok (ofExact (a.toInt.tdiv b.toInt)
      ((Decimal.ofInt64 a).div (Decimal.ofInt64 b))) := by
  have none : errorOperand? (int a) (int b) = none := rfl
  rw [divide, hl, hr, none]
  exact if_neg hb

theorem modulus_int (hl : l.untagged = int a) (hr : r.untagged = int b) (hb : b ≠ 0) :
    l.modulus r = .ok (int (Int64.ofInt (a.toInt.tmod b.toInt))) := by
  have none : errorOperand? (int a) (int b) = none := rfl
  rw [modulus, hl, hr, none]
  exact if_neg hb

end operations

end Value

section division

variable {a b : Int64}

theorem toInt_ne_zero (hb : b ≠ 0) : b.toInt ≠ 0 := fun zero => hb (Int64.toInt_inj.mp zero)

/-- A remainder is smaller than the divisor, and so it has 64 bits. -/
theorem toInt_ofInt_tmod (hb : b ≠ 0) :
    (Int64.ofInt (a.toInt.tmod b.toInt)).toInt = a.toInt.tmod b.toInt ∧
      |a.toInt.tmod b.toInt| < |b.toInt| := by
  have nonzero := toInt_ne_zero hb
  have magnitude := Int.natAbs_tmod a.toInt b.toInt
  have smaller : a.toInt.natAbs % b.toInt.natAbs < b.toInt.natAbs := Nat.mod_lt _ (by omega)
  have bounds := toInt_bounds b
  refine ⟨Int64.toInt_ofInt_of_le (by omega) (by omega), ?_⟩
  rw [Int.abs_eq_natAbs, Int.abs_eq_natAbs]
  omega

/-- Only the quotient of the least integer by `-1` does not fit. -/
theorem tdiv_fits (hb : b ≠ 0) (usual : ¬ (a.toInt = -2 ^ 63 ∧ b.toInt = -1)) :
    -2 ^ 63 ≤ a.toInt.tdiv b.toInt ∧ a.toInt.tdiv b.toInt < 2 ^ 63 := by
  have nonzero := toInt_ne_zero hb
  have bounds := toInt_bounds a
  by_cases unit : b.toInt.natAbs = 1
  · rcases Int.natAbs_eq_iff.mp unit with one | one
    · rw [one]
      simp
      omega
    · rw [one] at usual ⊢
      simp
      omega
  · have halved : (a.toInt.tdiv b.toInt).natAbs ≤ a.toInt.natAbs / 2 := by
      rw [Int.natAbs_tdiv]
      exact Nat.div_le_div_left (by omega) Nat.two_pos
    omega

end division

namespace Method

variable {v w : Value} {a b : Int64}

/-- A tagged integer is forced to an integer. -/
theorem fixDeep_int (hw : w.untagged = .int b) :
    ∃ u : Value, Eval.fixDeep w = pure u ∧ u.untagged = .int b := by
  have free : w.NodeFree := Value.nodeFree_untagged.mp (hw ▸ rfl)
  obtain ⟨u, forced, same⟩ := (Returns.fixDeep free).exists_eq_pure
  have number : u.asInt? = some b := by
    rw [← Value.asInt?_bare, same, Value.asInt?_bare, Value.asInt?, hw]
  refine ⟨u, forced, ?_⟩
  unfold Value.asInt? at number
  split at number
  · next n h => rw [h, Option.some.inj number]
  · cases number

theorem onOperands_int {f : Value → Value → Except EvalError Value} {P : Value → Prop}
    (hv : v.untagged = .int a) (hw : w.untagged = .int b)
    (hf : ∀ l r : Value, l.untagged = .int a → r.untagged = .int b →
      ∃ u, f l r = .ok u ∧ P u) : ∃ u, onOperands f v w = pure u ∧ P u := by
  obtain ⟨r, settles, hr⟩ := fixDeep_int hw
  obtain ⟨u, given, hu⟩ := hf v.joined r (v.untagged_joined.trans hv) hr
  refine ⟨u, ?_, hu⟩
  rw [onOperands_eq_ofExcept (Value.isNode_of_untagged hv rfl) settles, given]
  rfl

end Method

/-- An integer is divided by another one that is not zero: quotient and remainder decompose it, and
both are integers of 64 bits, except for one quotient. -/
structure Divides (v w x : Value) (a b : Int64) (q : ℤ) (r : Int64) : Prop where
  modulus : Method.modulus.call v w x = pure (.int r)
  divide : ¬ (a = Int64.minValue ∧ b = -1) →
    ∃ m : Int64, m.toInt = q ∧ Method.divide.call v w x = pure (.int m)
  divide_least : a = Int64.minValue → b = -1 →
    q = 2 ^ 63 ∧ ∃ d : Decimal, d.toRat = 2 ^ 63 ∧ Method.divide.call v w x = pure (.decimal d)
  truncated : q = a.toInt.tdiv b.toInt
  decomposed : a.toInt = q * b.toInt + r.toInt
  smaller : |r.toInt| < |b.toInt|
  sign : r.toInt = 0 ∨ r.toInt.sign = a.toInt.sign

/-- The decimal quotient of the least integer by `-1`. -/
theorem toRat_div_least :
    ((Decimal.ofInt64 Int64.minValue).div (Decimal.ofInt64 (-1))).toRat = 2 ^ 63 := by
  have units : ((Decimal.ofInt64 Int64.minValue).div (Decimal.ofInt64 (-1))).signedUnits =
      2 ^ 63 * Decimal.unitsPerOne := by decide +kernel
  rw [Decimal.toRat_eq_intCast units, Int.cast_pow, Int.cast_ofNat]

theorem divides {v w : Value} {a b : Int64} (hv : v.untagged = .int a) (hw : w.untagged = .int b)
    (hb : b ≠ 0) (x : Value) :
    Divides v w x a b (a.toInt.tdiv b.toInt) (Int64.ofInt (a.toInt.tmod b.toInt)) := by
  obtain ⟨remainder, smaller⟩ := toInt_ofInt_tmod (a := a) hb
  have quotient : Method.divide.call v w x = pure (.ofExact (a.toInt.tdiv b.toInt)
      ((Decimal.ofInt64 a).div (Decimal.ofInt64 b))) := by
    obtain ⟨u, given, rfl⟩ := Method.onOperands_int (f := Value.divide) hv hw fun l r hl hr =>
      ⟨_, Value.divide_int hl hr hb, rfl⟩
    exact given
  constructor
  case modulus =>
    obtain ⟨u, given, rfl⟩ := Method.onOperands_int (f := Value.modulus) hv hw fun l r hl hr =>
      ⟨_, Value.modulus_int hl hr hb, rfl⟩
    exact given
  case divide =>
    intro usual
    have fits := tdiv_fits (a := a) hb fun ⟨least, minus⟩ =>
      usual ⟨Int64.toInt_inj.mp least, Int64.toInt_inj.mp minus⟩
    refine ⟨_, Int64.toInt_ofInt_of_le fits.1 fits.2, ?_⟩
    rw [quotient, Value.ofExact, if_pos (Text.fitsInt64_iff.mpr fits)]
  case divide_least =>
    rintro rfl rfl
    exact ⟨by decide, _, toRat_div_least, quotient⟩
  case truncated => rfl
  case decomposed =>
    rw [remainder]
    exact (Int.tdiv_mul_add_tmod _ _).symm
  case smaller =>
    rw [remainder]
    exact smaller
  case sign =>
    rw [remainder]
    have sign := Int.sign_tmod a.toInt b.toInt
    split at sign
    · exact .inl (Int.sign_eq_zero_iff_zero.mp sign)
    · exact .inr sign

/-- Sums, differences, products, opposites and magnitudes of integers are exact if they have 64
bits, and else decimals near to the exact result. By zero an integer is divided into the infinity
with its sign. By any other integer it is divided into an integer, truncated towards zero, but for
one quotient, which is the decimal `2 ^ 63`, and into a remainder that is always an integer; together
they decompose the dividend. -/
theorem integer_arithmetic_never_wraps {v w : Value} {a b : Int64} (hv : v.untagged = .int a)
    (hw : w.untagged = .int b) (x : Value) :
    (∃ u, Method.plus.call v w x = pure u ∧ u.ExactOrNear (a.toInt + b.toInt)) ∧
    (∃ u, Method.minus.call v w x = pure u ∧ u.ExactOrNear (a.toInt - b.toInt)) ∧
    (∃ u, Method.multiply.call v w x = pure u ∧ u.ExactOrNear (a.toInt * b.toInt)) ∧
    (∃ u, Method.negate.call v w x = pure u ∧ u.ExactOrNear (-a.toInt)) ∧
    (∃ u, Method.abs.call v w x = pure u ∧ u.ExactOrNear |a.toInt|) ∧
    (b = 0 → Method.divide.call v w x = pure (.infinity (decide (0 ≤ a.toInt))) ∧
      Method.modulus.call v w x = pure (.infinity (decide (0 ≤ a.toInt)))) ∧
    (b ≠ 0 → ∃ q r, Divides v w x a b q r) := by
  have plain : v.isNode = false := Value.isNode_of_untagged hv rfl
  have joined : v.joined.untagged = .int a := v.untagged_joined.trans hv
  refine ⟨Method.onOperands_int hv hw fun l r hl hr => Value.plus_int hl hr,
    Method.onOperands_int hv hw fun l r hl hr => Value.minus_int hl hr,
    Method.onOperands_int hv hw fun l r hl hr => Value.multiply_int hl hr,
    ⟨_, Method.onConcrete_eq_pure plain, Value.negate_int joined⟩,
    ⟨_, Method.onConcrete_eq_pure plain, Value.abs_int joined⟩, ?_,
    fun hb => ⟨_, _, divides hv hw hb x⟩⟩
  rintro rfl
  constructor
  · obtain ⟨u, given, rfl⟩ := Method.onOperands_int (f := Value.divide) hv hw fun l r hl hr =>
      ⟨_, (Value.divide_zero hl hr).1, rfl⟩
    exact given
  · obtain ⟨u, given, rfl⟩ := Method.onOperands_int (f := Value.modulus) hv hw fun l r hl hr =>
      ⟨_, (Value.divide_zero hl hr).2, rfl⟩
    exact given

/-- The least integer, with a tag. -/
def taggedLeast : Value := .tagged (.int Int64.minValue) { note := some "least" }

theorem least_integer_overflows :
    taggedLeast.untagged = .int Int64.minValue ∧ (Value.int (-1)).untagged = .int (-1) ∧
      (∃ u, Method.plus.call taggedLeast (.int (-1)) .void = pure u ∧
        u.ExactOrNear (-2 ^ 63 - 1)) ∧
      (∃ d : Decimal, d.toRat = 2 ^ 63 ∧
        Method.divide.call taggedLeast (.int (-1)) .void = pure (.decimal d)) := by
  obtain ⟨plus, -, -, -, -, -, division⟩ :=
    integer_arithmetic_never_wraps (v := taggedLeast) (w := .int (-1)) rfl rfl .void
  obtain ⟨q, r, divides⟩ := division (by decide)
  have sum : Int64.minValue.toInt + (-1 : Int64).toInt = -2 ^ 63 - 1 := by decide
  exact ⟨rfl, rfl, sum ▸ plus, (divides.divide_least rfl rfl).2⟩

end ReactiveScript
