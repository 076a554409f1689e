import ReactiveScript.Proofs.ContainerLaws
import ReactiveScript.Proofs.Denotation
import ReactiveScript.Proofs.JsonForms

/-!
# Casts of numbers to integers

A decimal is cast to the whole part of the number that it denotes. The test of the range is the
same on both sides of zero, so that the least integer of 64 bits, which a decimal can denote, is
refused with those that do not fit. The numeral of any integer is read back.
-/

namespace ReactiveScript

open Eval

namespace Text

theorem isBlank_eq_false {c : Char} (h : c.isDigit ∨ c = '-') : isBlank c = false := by
  rcases h with h | rfl
  · have digit : 48 ≤ c.toNat ∧ c.toNat ≤ 57 := by
      simpa [Char.isDigit, UInt32.le_iff_toNat_le] using h
    simp [isBlank]
    omega
  · decide

theorem trim_eq_self {cs : List Char} (h : ∀ c ∈ cs, isBlank c = false) : trim cs = cs := by
  have kept {cs : List Char} (h : ∀ c ∈ cs, isBlank c = false) : cs.dropWhile isBlank = cs := by
    cases cs with
    | nil => rfl
    | cons c rest => rw [List.dropWhile_cons, h c List.mem_cons_self]; rfl
  rw [trim, kept h, kept (by simpa using h), List.reverse_reverse]

theorem mem_ofInt {n : Int} {c : Char} (h : c ∈ (ofInt n).toList) : c.isDigit ∨ c = '-' := by
  rw [ofInt, String.toList_ofList] at h
  split at h
  · rcases List.mem_cons.mp h with rfl | h
    · exact .inr rfl
    · exact .inl (isDigit_of_mem_toDigits h)
  · exact .inl (isDigit_of_mem_toDigits h)

theorem splitSign_of_isDigit {c : Char} (h : c.isDigit) (cs : List Char) :
    splitSign (c :: cs) = (false, c :: cs) := by
  have minus : c ≠ '-' := by rintro rfl; cases h
  have plus : c ≠ '+' := by rintro rfl; cases h
  unfold splitSign
  split <;> simp_all

theorem splitSign_ofInt (n : Int) :
    splitSign (ofInt n).toList = (decide (n < 0), Nat.toDigits 10 n.natAbs) := by
  rw [ofInt, String.toList_ofList]
  split
  · next h => rw [splitSign, decide_eq_true h]
  · next h =>
    cases digits : Nat.toDigits 10 n.natAbs with
    | nil => exact absurd digits Nat.toDigits_ne_nil
    | cons c cs =>
      have first : c ∈ Nat.toDigits 10 n.natAbs := digits ▸ List.mem_cons_self
      rw [splitSign_of_isDigit (isDigit_of_mem_toDigits first), decide_eq_false h]

/-- The numeral of an integer of 64 bits is read as the integer. -/
theorem readInt64?_ofInt (n : Int64) : readInt64? (ofInt n.toInt).toList = some n := by
  have nonempty : (Nat.toDigits 10 n.toInt.natAbs).isEmpty = false := by simp
  have digits : (Nat.toDigits 10 n.toInt.natAbs).all Char.isDigit = true :=
    List.all_eq_true.mpr fun _ => isDigit_of_mem_toDigits
  have value : signed (decide (n.toInt < 0)) n.toInt.natAbs = n.toInt := by
    rw [signed]
    split
    · next h =>
      have negative := of_decide_eq_true h
      omega
    · next h =>
      have positive : ¬ n.toInt < 0 := fun negative => h (decide_eq_true negative)
      omega
  simp only [readInt64?, splitSign_ofInt, nonempty, digits, Bool.not_true, Bool.or_self,
    Bool.false_eq_true, if_false, natOfDigits_toDigits, value, fitsInt64_toInt, if_true,
    Int64.ofInt_toInt]

end Text

namespace Decimal

theorem toInt64?_eq_some {d : Decimal} (finite : d.isFinite) (low : -2 ^ 63 < d.truncate)
    (high : d.truncate < 2 ^ 63) : d.toInt64? = some (Int64.ofInt d.truncate) := by
  have greatest : Int64.maxValue.toInt = 2 ^ 63 - 1 := by decide
  have fits : (d.truncate.natAbs : ℤ) ≤ Int64.maxValue.toInt := by omega
  rw [toInt64?, finite, decide_eq_true fits]
  rfl

theorem toInt64?_eq_none {d : Decimal}
    (outside : d.isFinite → d.truncate ≤ -2 ^ 63 ∨ 2 ^ 63 ≤ d.truncate) : d.toInt64? = none := by
  have greatest : Int64.maxValue.toInt = 2 ^ 63 - 1 := by decide
  refine if_neg fun h => ?_
  obtain ⟨finite, fits⟩ := (Bool.and_eq_true _ _).mp h
  have fits := of_decide_eq_true fits
  have outside := outside finite
  omega

/-- Between `2 ^ 63` and the next integer there is no other decimal. -/
theorem units_eq_of_between {d : Decimal} (low : 2 ^ 63 * unitsPerOne ≤ d.units)
    (high : d.units < (2 ^ 63 + 1) * unitsPerOne) : d.units = 2 ^ 63 * unitsPerOne := by
  obtain ⟨k, -, power⟩ := exists_unitsPerOne_eq
  have width : binade = 2 ^ 52 := by decide
  have here : unitsOfCode ((k + 11) * binade + binade) = 2 ^ 63 * unitsPerOne := by
    rw [unitsOfCode_add (.inr le_rfl) (by omega), power, width]
    ring
  have next : (2 ^ 63 + 1) * unitsPerOne ≤ unitsOfCode ((k + 11) * binade + binade + 1) := by
    rw [Nat.add_assoc, unitsOfCode_add (.inr (Nat.le_succ _)) (by rw [width]; omega), power, width,
      pow_add]
    nlinarith [Nat.two_pow_pos k]
  have from_here := unitsOfCode_strictMono.le_iff_le.mp (here.le.trans low)
  have before_next := unitsOfCode_strictMono.lt_iff_lt.mp (high.trans_le next)
  rw [← here, units, Nat.le_antisymm (Nat.le_of_lt_succ before_next) from_here]

/-- The least integer of 64 bits is the whole part of one decimal only. -/
theorem toRat_eq_of_wholePart {d : Decimal} (h : wholePart d.toRat = -2 ^ 63) :
    d.toRat = -2 ^ 63 := by
  rw [← truncate_eq_wholePart, truncate] at h
  obtain ⟨sign, whole⟩ : d.negative = true ∧ d.units / unitsPerOne = 2 ^ 63 := by
    generalize d.units / unitsPerOne = whole at h ⊢
    split at h
    · next sign => exact ⟨sign, by omega⟩
    · omega
  have low : 2 ^ 63 * unitsPerOne ≤ d.units := (Nat.le_div_iff_mul_le unitsPerOne_pos).mp whole.ge
  have high : d.units < (2 ^ 63 + 1) * unitsPerOne :=
    (Nat.div_lt_iff_lt_mul unitsPerOne_pos).mp (by rw [whole]; exact Nat.lt_succ_self _)
  have signed : d.signedUnits = -2 ^ 63 * unitsPerOne := by
    rw [signedUnits, sign, if_pos rfl, units_eq_of_between low high]
    push_cast
    ring
  rw [toRat_eq_intCast signed, Int.cast_neg, Int.cast_pow, Int.cast_ofNat]

end Decimal

namespace Method

variable {v : Value}

theorem cast_call (hv : v.isNode = false) (target : TypeTag) (w u : Value) :
    (cast target).call v w u = Eval.ofExcept (v.joined.cast target) := by
  show Eval.cast v target = _
  rw [Eval.cast, Eval.fix, force_eq_joined false hv, pure_bind]

/-- A cast to an integer gives the integer that there is, or refuses. -/
theorem cast_integer_call {c : Value} (hv : v.untagged = c) (plain : c.isNode = false)
    (receiver : c.isError = false) (w u : Value) :
    (cast .integer).call v w u = match c.toInteger? with
      | some n => pure (.int n)
      | none => raise (EvalError.invalidCast c.typeName "INTEGER") := by
  rw [cast_call (Value.isNode_of_untagged hv plain), Value.cast, v.untagged_joined, hv, receiver]
  cases c.toInteger? <;> rfl

theorem cast_string_call {n : Int64} (hv : v.untagged = .int n) (w u : Value) :
    (cast .string).call v w u = pure (.str (Text.ofInt n.toInt)) := by
  rw [cast_call (Value.isNode_of_untagged hv rfl), Value.cast, v.untagged_joined, hv]
  rfl

end Method

theorem toInteger?_numeral (n : Int64) :
    (Value.str (Text.ofInt n.toInt)).toInteger? = some n := by
  have trimmed : Text.trim (Text.ofInt n.toInt).toList = (Text.ofInt n.toInt).toList :=
    Text.trim_eq_self fun _ hc => Text.isBlank_eq_false (Text.mem_ofInt hc)
  rw [Value.toInteger?, trimmed, Text.readInt64?_ofInt]
  rfl

/-- A finite decimal is cast to the whole part of the number that it denotes if that lies above
`-2 ^ 63` and below `2 ^ 63`; any other is refused, NaN and the infinities too, and among those
refused is `-2 ^ 63` itself, the only decimal with that whole part. An integer that is cast to a
text and back comes back. -/
theorem integer_cast_exact_above_least (v w u : Value) :
    (∀ d : Decimal, v.untagged = .decimal d →
      (d.isFinite → -2 ^ 63 < Decimal.wholePart d.toRat → Decimal.wholePart d.toRat < 2 ^ 63 →
        ∃ n : Int64, n.toInt = Decimal.wholePart d.toRat ∧
          (Method.cast .integer).call v w u = pure (.int n)) ∧
      ((d.isFinite → Decimal.wholePart d.toRat ≤ -2 ^ 63 ∨ 2 ^ 63 ≤ Decimal.wholePart d.toRat) →
        (Method.cast .integer).call v w u = raise (EvalError.invalidCast "DECIMAL" "INTEGER")) ∧
      (Decimal.wholePart d.toRat = -2 ^ 63 → d.toRat = -2 ^ 63)) ∧
    (∀ n : Int64, v.untagged = .int n →
      (Method.cast .integer).call v w u = pure (.int n) ∧
      ((Method.cast .string).call v w u >>= fun s => (Method.cast .integer).call s w u) =
        pure (.int n)) := by
  refine ⟨fun d hv => ⟨fun finite low high => ?_, fun outside => ?_,
    Decimal.toRat_eq_of_wholePart⟩, fun n hv => ⟨?_, ?_⟩⟩
  · rw [← Decimal.truncate_eq_wholePart] at low high ⊢
    refine ⟨Int64.ofInt d.truncate, Int64.toInt_ofInt_of_le low.le high, ?_⟩
    rw [Method.cast_integer_call hv rfl rfl, Value.toInteger?,
      Decimal.toInt64?_eq_some finite low high]
  · rw [← Decimal.truncate_eq_wholePart] at outside
    rw [Method.cast_integer_call hv rfl rfl, Value.toInteger?, Decimal.toInt64?_eq_none outside]
    rfl
  · rw [Method.cast_integer_call hv rfl rfl, Value.toInteger?]
  · have numeral : (Value.str (Text.ofInt n.toInt)).untagged = .str (Text.ofInt n.toInt) := rfl
    rw [Method.cast_string_call hv, pure_bind, Method.cast_integer_call numeral rfl rfl,
      toInteger?_numeral]

/-- The decimal `-2.5`. -/
def twoAndHalfBelow : Decimal := Decimal.ofBits 0xC004000000000000

theorem half_cut_off :
    twoAndHalfBelow.isFinite ∧ -2 ^ 63 < Decimal.wholePart twoAndHalfBelow.toRat ∧
      Decimal.wholePart twoAndHalfBelow.toRat < 2 ^ 63 ∧
      ∃ n : Int64, n.toInt = -2 ∧
        (Method.cast .integer).call (.decimal twoAndHalfBelow) .void .void = pure (.int n) := by
  have whole : Decimal.wholePart twoAndHalfBelow.toRat = -2 := by
    rw [← Decimal.truncate_eq_wholePart]
    decide +kernel
  have finite : twoAndHalfBelow.isFinite = true := by decide
  have low : -2 ^ 63 < Decimal.wholePart twoAndHalfBelow.toRat := by rw [whole]; decide
  have high : Decimal.wholePart twoAndHalfBelow.toRat < 2 ^ 63 := by rw [whole]; decide
  obtain ⟨cast, -⟩ :=
    (integer_cast_exact_above_least (.decimal twoAndHalfBelow) .void .void).1 _ rfl
  exact ⟨finite, low, high, whole ▸ cast finite low high⟩

/-- The decimal that denotes the least integer of 64 bits. -/
def leastDecimal : Decimal := Decimal.ofBits 0xC3E0000000000000

/-- The least integer of 64 bits is refused as a decimal, though not as a text. -/
theorem least_decimal_refused :
    leastDecimal.isFinite ∧ Decimal.wholePart leastDecimal.toRat = Int64.minValue.toInt ∧
      (Method.cast .integer).call (.decimal leastDecimal) .void .void =
        raise (EvalError.invalidCast "DECIMAL" "INTEGER") ∧
      (Method.cast .integer).call (.str "-9223372036854775808") .void .void =
        pure (.int Int64.minValue) := by
  have whole : Decimal.wholePart leastDecimal.toRat = Int64.minValue.toInt := by
    rw [← Decimal.truncate_eq_wholePart]
    decide +kernel
  have refused : leastDecimal.toInt64? = none := by decide +kernel
  have read : (Value.str "-9223372036854775808").toInteger? = some Int64.minValue :=
    toInteger?_numeral Int64.minValue
  refine ⟨by decide, whole, ?_, ?_⟩
  · rw [Method.cast_integer_call (c := .decimal leastDecimal) rfl rfl rfl, Value.toInteger?, refused]
    rfl
  · rw [Method.cast_integer_call (c := .str "-9223372036854775808") rfl rfl rfl, read]

end ReactiveScript
