import ReactiveScript.Proofs.Equality
import ReactiveScript.Proofs.Extension
import ReactiveScript.Proofs.IntegerArithmetic
import ReactiveScript.Proofs.MapEdits

/-!
# Negation

Negation changes the sign of a number and turns round what has an order. Either of them twice is
nothing at all, but for the least integer, whose opposite is a decimal and stays one.
-/

namespace ReactiveScript

open OrderedMap

namespace IntRange

theorem step_eq (r : IntRange) (i : Nat) : r.step i =
    if r.start.toInt ≤ r.stop.toInt then r.start.toInt + i else r.start.toInt - i := by
  simp only [step, isAscending, decide_eq_true_eq]

/-- Counted from the other end, the same integer is as many steps away as are left. -/
theorem step_reversed {r : IntRange} {i : Nat} (h : i < r.count) :
    r.reversed.step i = r.step (r.count - 1 - i) := by
  rw [count] at h ⊢
  rw [step_eq, step_eq]
  show (if r.stop.toInt ≤ r.start.toInt then r.stop.toInt + (i : ℤ) else r.stop.toInt - i) = _
  split <;> split <;> omega

theorem toList_eq (r : IntRange) :
    r.toList = (List.range r.count).map fun i => Int64.ofInt (r.step i) := by
  rw [toList, take, Nat.min_self]

/-- A range with its bounds exchanged has the same elements in reverse. -/
theorem toList_reversed (r : IntRange) : r.reversed.toList = r.toList.reverse := by
  rw [toList_eq, toList_eq, count_reversed, ← List.map_reverse]
  refine List.ext_getElem (by simp) fun i h _ => ?_
  have inside : i < r.count := by simpa using h
  simp [step_reversed inside]

end IntRange

namespace Value

/-- What negation makes of a value in each case. -/
inductive Turned : Value → Value → Prop
  | int {a b : Int64} (opposite : b.toInt = -a.toInt) : Turned (int a) (int b)
  | leastInt {d : Decimal} (opposite : d.toRat = 2 ^ 63) : Turned (int Int64.minValue) (decimal d)
  | decimal (d : Decimal) : Turned (decimal d) (decimal d.neg)
  | bool (b : Bool) : Turned (bool b) (bool !b)
  | str {s t : String} (mirrored : t.toList = s.toList.reverse) : Turned (str s) (str t)
  | list (items : List Value) : Turned (list items) (list items.reverse)
  | map (entries : OrderedMap Value) : Turned (map entries) (map entries.reversed)
  | range {r s : IntRange} (start : s.start = r.stop) (stop : s.stop = r.start)
      (mirrored : s.toList = r.toList.reverse) : Turned (range r) (range s)
  | void : Turned void void
  | error (e : EvalError) : Turned (error e) (error e)
  | resource (r : ResourceRef) : Turned (resource r) (resource r)

section integers

variable {n : Int64}

theorem ne_minValue_iff : n ≠ Int64.minValue ↔ n.toInt ≠ -2 ^ 63 := by
  have least : Int64.minValue.toInt = -2 ^ 63 := by decide
  rw [← least, Ne, Ne, Int64.toInt_inj]

theorem negate_int_of_ne (h : n ≠ Int64.minValue) :
    ∃ m : Int64, (int n).negate = int m ∧ m.toInt = -n.toInt := by
  have bounds := toInt_bounds n
  have fits : -2 ^ 63 ≤ -n.toInt ∧ -n.toInt < 2 ^ 63 := by
    have other := ne_minValue_iff.mp h
    omega
  have exact := negate_int (l := int n) rfl
  rwa [ExactOrNear, if_pos fits] at exact

theorem negate_minValue :
    (int Int64.minValue).negate = decimal (Decimal.ofInt64 Int64.minValue).neg := by
  have outside : Text.fitsInt64 (-Int64.minValue.toInt) = false := by decide
  show ofExact (-Int64.minValue.toInt) _ = _
  rw [ofExact, outside]
  rfl

theorem toRat_minValue : (Decimal.ofInt64 Int64.minValue).toRat = -2 ^ 63 := by
  have units : (Decimal.ofInt64 Int64.minValue).signedUnits = -2 ^ 63 * Decimal.unitsPerOne := by
    decide +kernel
  rw [Decimal.toRat_eq_intCast units, Int.cast_neg, Int.cast_pow, Int.cast_ofNat]

theorem negate_negate_int (h : n ≠ Int64.minValue) : (int n).negate.negate = int n := by
  obtain ⟨m, once, opposite⟩ := negate_int_of_ne h
  have other : m ≠ Int64.minValue := by
    have bounds := toInt_bounds n
    rw [ne_minValue_iff]
    omega
  obtain ⟨k, twice, restored⟩ := negate_int_of_ne other
  rw [opposite, Int.neg_neg] at restored
  rw [once, twice, Int64.toInt_inj.mp restored]

theorem negate_negate_minValue :
    (int Int64.minValue).negate.negate = decimal (Decimal.ofInt64 Int64.minValue) := by
  rw [negate_minValue]
  exact congrArg decimal (Decimal.neg_neg _)

end integers

section concrete

variable {v : Value}

theorem negate_untagged (v : Value) : v.untagged.negate = v.negate := by
  rw [negate, untagged_untagged, negate]

theorem negate_joined (v : Value) : v.joined.negate = v.negate := by
  rw [← negate_untagged, untagged_joined, negate_untagged]

theorem turned_negate_int (n : Int64) : Turned (int n) (int n).negate := by
  by_cases least : n = Int64.minValue
  · rw [least, negate_minValue]
    refine .leastInt ?_
    rw [Decimal.toRat_neg, toRat_minValue, neg_neg]
  · obtain ⟨m, negated, opposite⟩ := negate_int_of_ne least
    rw [negated]
    exact .int opposite

theorem turned_negate (keyed : v.WellKeyed) (plain : v.isNode = false) :
    Turned v.untagged v.negate := by
  have keyed : v.untagged.WellKeyed := wellKeyed_hereditary.untagged.mpr keyed
  have concrete : ∀ w m, v.untagged ≠ tagged w m := fun w m => untagged_ne_tagged v w m
  rw [← isNode_untagged] at plain
  rw [← negate_untagged v]
  generalize v.untagged = u at keyed concrete plain ⊢
  cases u with
  | int n => exact turned_negate_int n
  | decimal d => exact .decimal d
  | bool b => exact .bool b
  | void => exact .void
  | str s => exact .str String.toList_ofList
  | list items => exact .list items
  | map entries =>
    rw [negate_map rfl, ← reversed_eq_reverse (wellKeyed_map.mp keyed).1]
    exact .map entries
  | range r => exact .range rfl rfl r.toList_reversed
  | error e => exact .error e
  | resource r => exact .resource r
  | node n => cases plain
  | tagged w m => exact absurd rfl (concrete w m)

/-- What is turned round twice is as it was, but without its tags. -/
theorem negate_negate (h : v.untagged ≠ int Int64.minValue) : v.negate.negate = v.untagged := by
  have concrete : ∀ w m, v.untagged ≠ tagged w m := fun w m => untagged_ne_tagged v w m
  rw [← negate_untagged v]
  generalize v.untagged = u at h concrete ⊢
  cases u with
  | int n => exact negate_negate_int fun least => h (congrArg int least)
  | decimal d => exact congrArg decimal d.neg_neg
  | bool b => exact congrArg bool b.not_not
  | str s =>
    show str (String.ofList (String.ofList s.toList.reverse).toList.reverse) = str s
    rw [String.toList_ofList, List.reverse_reverse, String.ofList_toList]
  | list items => exact congrArg list items.reverse_reverse
  | map entries => exact congrArg map entries.reverse_reverse
  | range r => exact congrArg range r.reversed_reversed
  | void | error _ | node _ | resource _ => rfl
  | tagged w m => exact absurd rfl (concrete w m)

theorem Turned.isNode_eq_false {u : Value} (h : Turned v u) : u.isNode = false := by
  cases h <;> rfl

end concrete

end Value

open Value

/-- Negation of anything but a node succeeds, and negation of what it gives restores the value: the
same number, the same characters, items and entries in the same order, and the same bounds. Only the
least integer comes back in another case, as the decimal that denotes it, and this is equal to it
too. -/
theorem negation_involutive {v : Value} (keyed : v.WellKeyed) (plain : v.isNode = false)
    (x y : Value) :
    ∃ turned restored, Method.negate.call v x y = pure turned ∧ Turned v.untagged turned ∧
      Method.negate.call turned x y = pure restored ∧ restored.same v = true ∧
      (v.untagged ≠ .int Int64.minValue → restored = v.untagged) ∧
      (v.untagged = .int Int64.minValue →
        ∃ d : Decimal, restored = .decimal d ∧ d.toRat = Int64.minValue.toInt) := by
  have turned : Turned v.untagged v.negate := turned_negate keyed plain
  refine ⟨v.negate, v.negate.negate, ?_, turned, ?_, ?_, negate_negate, fun least => ?_⟩
  · rw [Method.negate_call plain, negate_joined]
  · rw [Method.negate_call turned.isNode_eq_false, negate_joined]
  · by_cases least : v.untagged = .int Int64.minValue
    · rw [← negate_untagged v, ← same_untagged, least, negate_negate_minValue]
      exact Decimal.numericEq_self (Decimal.isNaN_eq_false (Decimal.ofInt64_near _).1)
    · rw [negate_negate least, untagged_same, same_self keyed]
  · rw [← negate_untagged v, least, negate_negate_minValue]
    exact ⟨_, rfl, toRat_minValue⟩

/-- The least integer with a tag. -/
def leastInteger : Value := .tagged (.int Int64.minValue) { note := some "least" }

/-- Two entries, one of them a range. -/
def entriesInOrder : Value := .map [("b", .int 1), ("a", .range ⟨3, 1⟩)]

theorem least_integer_comes_back_as_decimal :
    leastInteger.WellKeyed ∧ leastInteger.isNode = false ∧ entriesInOrder.WellKeyed ∧
      entriesInOrder.isNode = false ∧
      (∃ turned restored, Method.negate.call leastInteger .void .void = pure turned ∧
        Method.negate.call turned .void .void = pure restored ∧
        restored.same leastInteger = true ∧
        ∃ d : Decimal, restored = .decimal d ∧ d.toRat = Int64.minValue.toInt) ∧
      ∃ turned, Method.negate.call entriesInOrder .void .void = pure turned ∧
        Method.negate.call turned .void .void = pure entriesInOrder := by
  have least : leastInteger.WellKeyed := .tagged _ (.atom trivial)
  have entries : entriesInOrder.WellKeyed := by
    refine .map (by decide) fun v hv => ?_
    rcases List.mem_cons.mp hv with rfl | hv
    · exact .atom trivial
    · exact List.mem_singleton.mp hv ▸ .atom trivial
  obtain ⟨turned, restored, once, -, twice, same, -, decimal⟩ :=
    negation_involutive least rfl .void .void
  obtain ⟨turned', restored', once', -, twice', -, unchanged, -⟩ :=
    negation_involutive entries rfl .void .void
  exact ⟨least, rfl, entries, rfl, ⟨turned, restored, once, twice, same, decimal rfl⟩,
    turned', once', twice'.trans (congrArg pure (unchanged nofun))⟩

end ReactiveScript
