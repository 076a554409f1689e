import ReactiveScript.Proofs.Casts
import ReactiveScript.Proofs.Negation

/-!
# Ranges and the lists of their elements

A range stands for the list of the integers between its bounds. Its length, membership and look-up
are computed from the bounds alone, and they agree with the list, but for look-up at an index of
more than 63 bits. The operations of values see no such index, and each of them does to a range
what it does to the list.
-/

namespace ReactiveScript

open Eval

namespace IntRange

variable {r : IntRange} {i : Nat} {n : Int64}

/-- An integer lies between the bounds, of which either may be the greater one. -/
def Spans (r : IntRange) (n : Int64) : Prop :=
  min r.start.toInt r.stop.toInt ≤ n.toInt ∧ n.toInt ≤ max r.start.toInt r.stop.toInt

/-- A list holds all integers between the bounds of a range, from the start to the other bound. -/
structure Enumerates (r : IntRange) (l : List Int64) : Prop where
  mem_iff : ∀ n, n ∈ l ↔ r.Spans n
  upward : r.start.toInt ≤ r.stop.toInt → l.Pairwise fun m n => m.toInt < n.toInt
  downward : r.stop.toInt ≤ r.start.toInt → l.Pairwise fun m n => n.toInt < m.toInt

theorem count_le (r : IntRange) : r.count ≤ 2 ^ 64 := by
  have start := toInt_bounds r.start
  have stop := toInt_bounds r.stop
  rw [count]
  omega

theorem length_eq (r : IntRange) : r.length = min r.count (2 ^ 64 - 1) := rfl

theorem length_toList (r : IntRange) : r.toList.length = r.count := by
  rw [toList_eq, List.length_map, List.length_range]

/-- As many steps as there are elements do not leave the bounds, so that nothing wraps round. -/
theorem toInt_step (h : i < r.count) : (Int64.ofInt (r.step i)).toInt = r.step i := by
  have start := toInt_bounds r.start
  have stop := toInt_bounds r.stop
  have fits : -2 ^ 63 ≤ r.step i ∧ r.step i < 2 ^ 63 := by
    rw [count] at h
    rw [step_eq]
    split <;> omega
  exact Int64.toInt_ofInt_of_le fits.1 fits.2

theorem getElem?_toList (h : i < r.count) : r.toList[i]? = some (Int64.ofInt (r.step i)) := by
  rw [toList_eq, List.getElem?_map, List.getElem?_range h]
  rfl

theorem spans_iff : r.Spans n ↔ ∃ i < r.count, r.step i = n.toInt := by
  simp only [Spans, count, step_eq]
  constructor
  · intro inside
    refine ⟨(r.start.toInt - n.toInt).natAbs, ?_, ?_⟩
    · omega
    · split <;> omega
  · rintro ⟨i, h, reached⟩
    split at reached <;> omega

theorem mem_toList : n ∈ r.toList ↔ r.Spans n := by
  rw [spans_iff, toList_eq]
  simp only [List.mem_map, List.mem_range]
  refine exists_congr fun i => and_congr_right fun h => ?_
  rw [← Int64.toInt_inj, toInt_step h]

theorem contains_iff : r.contains n = true ↔ r.Spans n := by
  rw [contains, Bool.and_eq_true, decide_eq_true_iff, decide_eq_true_iff, bounds, isAscending,
    Spans]
  by_cases up : r.start.toInt ≤ r.stop.toInt
  · rw [if_pos (decide_eq_true up), min_eq_left up, max_eq_right up]
  · have down : r.stop.toInt ≤ r.start.toInt := by omega
    rw [if_neg (by simpa using up), min_eq_right down, max_eq_left down]

/-- The elements are enumerated once each, in the direction from the start to the other bound. -/
theorem enumerates_toList (r : IntRange) : r.Enumerates r.toList := by
  have steps {R : Int64 → Int64 → Prop}
      (h : ∀ i j, i < j → j < r.count → R (Int64.ofInt (r.step i)) (Int64.ofInt (r.step j))) :
      r.toList.Pairwise R := by
    rw [toList_eq, List.pairwise_map]
    exact List.pairwise_lt_range.imp_of_mem fun _ hj lt => h _ _ lt (List.mem_range.mp hj)
  refine ⟨fun n => mem_toList, fun up => steps fun i j lt hj => ?_,
    fun down => steps fun i j lt hj => ?_⟩
  · rw [toInt_step hj, toInt_step (lt.trans hj), step_eq, step_eq, if_pos up, if_pos up]
    omega
  · rw [toInt_step hj, toInt_step (lt.trans hj), step_eq, step_eq]
    rw [count] at hj
    split <;> omega

/-- Look-up at an index of 63 bits finds the element at the place in the list. -/
theorem get?_eq_getElem? (narrow : i < 2 ^ 63) : r.get? i = r.toList[i]? := by
  have greatest : Int64.maxValue.toInt = 2 ^ 63 - 1 := by decide
  have few := r.count_le
  by_cases h : i < r.count
  · have found : i < r.length ∧ (i : Int) ≤ Int64.maxValue.toInt := by
      rw [length_eq]
      omega
    rw [getElem?_toList h, get?, if_pos (by simpa using found)]
  · rw [List.getElem?_eq_none (by rw [length_toList]; omega), get?, if_neg]
    rw [Bool.and_eq_true, decide_eq_true_iff, length_eq]
    omega

/-- Look-up at any other index finds nothing, although there are ranges with so many elements. -/
theorem get?_of_wide (wide : 2 ^ 63 ≤ i) : r.get? i = none := by
  have greatest : Int64.maxValue.toInt = 2 ^ 63 - 1 := by decide
  rw [get?, if_neg]
  rw [Bool.and_eq_true, decide_eq_true_iff, decide_eq_true_iff]
  omega

theorem isSome_get? : (r.get? i).isSome = true ↔ i < 2 ^ 63 ∧ i < r.count := by
  rcases Nat.lt_or_ge i (2 ^ 63) with narrow | wide
  · rw [get?_eq_getElem? narrow, isSome_getElem?, length_toList, and_iff_right narrow]
  · rw [get?_of_wide wide]
    exact iff_of_false Bool.false_ne_true fun h => absurd h.1 (Nat.not_lt.mpr wide)

/-- The elements of the reversed range are looked up from the other end, if both indices have 63
bits. -/
theorem get?_reversed (h : i < r.count) :
    r.reversed.get? i = r.get? (r.count - 1 - i) ↔ i < 2 ^ 63 ∧ r.count - 1 - i < 2 ^ 63 := by
  have few := r.count_le
  have other : r.count - 1 - i < r.count := by omega
  constructor
  · intro same
    have found := congrArg Option.isSome same
    rw [Bool.eq_iff_iff, isSome_get?, isSome_get?, count_reversed] at found
    omega
  · rintro ⟨narrow, narrow'⟩
    rw [get?_eq_getElem? narrow, get?_eq_getElem? narrow', getElem?_toList other,
      getElem?_toList (r.count_reversed.symm ▸ h), step_reversed h]

end IntRange

open IntRange

/-- A range has its length, capped at the greatest number of 64 bits, and contains exactly what it
enumerates. Look-up at an index of 63 bits finds the element at this place and nothing beyond the
last one, and this is so from the other end as well. Look-up at a wider index finds nothing, even
where the range has an element. -/
theorem index_finds_element_unless_wide (r : IntRange) (i : UInt64) (n : Int64) :
    r.Enumerates r.toList ∧
    r.length = min r.toList.length (2 ^ 64 - 1) ∧
    (r.contains n = true ↔ n ∈ r.toList) ∧
    (i.toNat < 2 ^ 63 →
      (∀ h : i.toNat < r.toList.length,
        i.toNat < r.length ∧ r.get? i.toNat = some r.toList[i.toNat]) ∧
      (r.toList.length ≤ i.toNat → r.length ≤ i.toNat ∧ r.get? i.toNat = none)) ∧
    (2 ^ 63 ≤ i.toNat → r.get? i.toNat = none) ∧
    (i.toNat < r.toList.length →
      (r.reversed.get? i.toNat = r.get? (r.toList.length - 1 - i.toNat) ↔
        i.toNat < 2 ^ 63 ∧ r.toList.length - 1 - i.toNat < 2 ^ 63)) ∧
    (r.toList.length ≤ i.toNat → r.reversed.get? i.toNat = none) := by
  have narrowLength (h : i.toNat < 2 ^ 63) : i.toNat < r.length ↔ i.toNat < r.count := by
    rw [length_eq]
    omega
  refine ⟨r.enumerates_toList, ?_, contains_iff.trans mem_toList.symm, fun narrow => ⟨fun h => ?_,
    fun beyond => ?_⟩, get?_of_wide, ?_, fun beyond => ?_⟩
  · rw [length_toList, length_eq]
  · refine ⟨(narrowLength narrow).mpr (r.length_toList ▸ h), ?_⟩
    rw [get?_eq_getElem? narrow, List.getElem?_eq_getElem h]
  · refine ⟨Nat.not_lt.mp fun h => ?_, ?_⟩
    · rw [length_toList] at beyond
      exact Nat.not_lt.mpr beyond ((narrowLength narrow).mp h)
    · rw [get?_eq_getElem? narrow, List.getElem?_eq_none beyond]
  · rw [length_toList]
    exact get?_reversed
  · rw [length_toList, ← count_reversed] at beyond
    exact Option.not_isSome_iff_eq_none.mp fun found =>
      Nat.not_lt.mpr beyond (isSome_get?.mp found).2

/-- All integers of 64 bits. -/
def allIntegers : IntRange := ⟨Int64.minValue, Int64.maxValue⟩

/-- The middle of the integers is counted and enumerated, and it is not found at its place; nor does
the last place give what the reversed range has first. -/
theorem middle_integer_not_found :
    2 ^ 63 < allIntegers.length ∧ allIntegers.toList[2 ^ 63]? = some 0 ∧
      allIntegers.get? (2 ^ 63) = none ∧ allIntegers.get? (2 ^ 63 - 1) = some (-1) ∧
      allIntegers.reversed.get? 0 = some Int64.maxValue ∧
      allIntegers.get? (allIntegers.count - 1 - 0) = none := by
  have middle : allIntegers.toList[2 ^ 63]? = some (Int64.ofInt (allIntegers.step (2 ^ 63))) :=
    getElem?_toList (by decide)
  exact ⟨by decide, middle.trans rfl, get?_of_wide le_rfl, by decide, by decide, by decide⟩

namespace Value

variable {v k : Value} {r : IntRange} {n : Int64}

theorem held_untagged (v : Value) : v.untagged.held = v.held := by
  induction v using untagged.induct with
  | case1 v m ih => rw [untagged_tagged, ih, held]
  | case2 v plain => rw [untagged.eq_2 v plain]

theorem toJson_untagged (v : Value) : v.untagged.toJson = v.toJson := by
  rw [← toJson_bare, bare_untagged, toJson_bare]

/-- The list of the elements of a range. -/
def elements (r : IntRange) : Value := list (r.toList.map int)

theorem elements_reversed (r : IntRange) : (elements r).negate = elements r.reversed := by
  rw [elements, negate_list rfl, elements, IntRange.toList_reversed, List.map_reverse]

theorem held_elements (r : IntRange) : (elements r).held = [] := by
  rw [elements, held]
  induction r.toList with
  | nil => rfl
  | cons n rest ih => exact ih

theorem cast_range (hv : v.untagged = range r) : v.cast .list = .ok (elements r) := by
  rw [← cast_untagged, hv]
  rfl

/-- A size is the number itself or the greatest integer. -/
theorem exists_ofSize (n : Nat) :
    ∃ m : Int64, ofSize n = int m ∧ m.toInt = min (n : Int) (2 ^ 63 - 1) := by
  have greatest : Int64.maxValue.toInt = 2 ^ 63 - 1 := by decide
  have nonneg : 0 ≤ (n : Int) := Int.natCast_nonneg n
  refine ⟨_, rfl, ?_⟩
  rw [greatest]
  exact Int64.toInt_ofInt_of_le (by omega) (by omega)

/-- The length of a range is capped further on than a size is. -/
theorem size_range (hv : v.untagged = range r) : v.size = (elements r).size := by
  have greatest : Int64.maxValue.toInt = 2 ^ 63 - 1 := by decide
  have capped :
      min (r.length : Int) Int64.maxValue.toInt = min (r.count : Int) Int64.maxValue.toInt := by
    rw [IntRange.length_eq]
    omega
  rw [size, hv, elements, size_list rfl, List.length_map, IntRange.length_toList]
  show ofSize r.length = ofSize r.count
  rw [ofSize, capped, ofSize]

theorem position?_lt {p : Nat} (h : k.position? = some p) : p < 2 ^ 63 := by
  obtain ⟨n, -, hn⟩ := Option.bind_eq_some_iff.mp h
  have bounds := toInt_bounds n
  split at hn
  · cases hn
    omega
  · cases hn

/-- No position is wide, so that a range finds under a key what the list finds. -/
theorem get_range (hv : v.untagged = range r) (k : Value) : v.get k = (elements r).get k := by
  rw [get, hv, elements, get_list rfl]
  cases hk : k.position? with
  | none => rfl
  | some p =>
    show Except.ok ((r.get? p).elim void int) = .ok ((r.toList.map int)[p]?.getD void)
    rw [IntRange.get?_eq_getElem? (position?_lt hk), List.getElem?_map]
    cases r.toList[p]? <;> rfl

theorem same_int (hk : k.asInt? = some n) (m : Int64) : (int m).same k = (m == n) := by
  have concrete : k.untagged = int n := by
    unfold asInt? at hk
    split at hk
    · next m' h => rw [h, Option.some.inj hk]
    · cases hk
  rw [same, concrete]

theorem has_range (hv : v.untagged = range r) (hk : k.asInt? = some n) :
    v.has k = decide (n ∈ r.toList) := by
  rw [has, hv]
  show k.asInt?.any r.contains = _
  rw [hk, Option.any_some, Bool.eq_iff_iff, IntRange.contains_iff, decide_eq_true_iff,
    IntRange.mem_toList]

theorem has_elements (hk : k.asInt? = some n) : (elements r).has k = decide (n ∈ r.toList) := by
  rw [elements, has_list rfl, List.any_map, Bool.eq_iff_iff, List.any_eq_true, decide_eq_true_iff]
  simp only [Function.comp_apply, same_int hk, beq_iff_eq, exists_eq_right]

theorem negate_range (hv : v.untagged = range r) : v.negate = range r.reversed := by
  rw [negate, hv]

theorem plus_range (hv : v.untagged = range r) : v.plus = (elements r).plus := by
  funext w
  rw [plus, hv]
  rfl

theorem minus_range (hv : v.untagged = range r) : v.minus = (elements r).minus := by
  funext w
  rw [minus, hv]
  rfl

theorem toJson_range (hv : v.untagged = range r) : v.toJson = (elements r).toJson := by
  rw [← toJson_untagged, hv, elements, toJson, toJson, itemsToJson_eq, List.map_map]
  rfl

end Value

open Value

namespace Method

variable {v : Value} {r : IntRange}

/-- An operation that does to a range what it does to the list is the same evaluation of both, since
neither of them holds anything meanwhile. -/
theorem onOperands_range {f : Value → Value → Except EvalError Value} (hv : v.untagged = .range r)
    (hf : ∀ u : Value, u.untagged = .range r → f u = f (elements r)) (w : Value) :
    onOperands f v w = onOperands f (elements r) w := by
  have held : v.joined.held = (elements r).held := by
    rw [held_joined, ← held_untagged, hv, held_elements]
    rfl
  rw [onOperands, onOperands, Eval.fix, Eval.fix, force_eq_joined false (isNode_of_untagged hv rfl),
    force_eq_joined false (v := elements r) rfl, pure_bind, pure_bind]
  show (holding v.joined.held (Eval.fixDeep w) >>= fun w => ofExcept (f v.joined w)) =
    (holding (elements r).held (Eval.fixDeep w) >>= fun w => ofExcept (f (elements r) w))
  rw [held, hf _ (v.untagged_joined.trans hv)]

theorem size_call (hv : v.isNode = false) (x y : Value) :
    size.call v x y = pure v.joined.size := onConcrete_eq_pure hv

end Method

/-- A range, whatever its tags, is cast to the list of its elements, and from then on it makes no
difference: both have the same size, give the same element under every key, have the same integers,
are joined with and freed from any operand in the same evaluation, and have the same JSON tree; and
the negated range is cast to the negated list. -/
theorem range_operates_as_list {v : Value} {r : IntRange} (hv : v.untagged = .range r)
    (x y : Value) :
    (Method.cast .list).call v x y = pure (elements r) ∧
    (∃ n : Int64, n.toInt = min (r.toList.length : Int) (2 ^ 63 - 1) ∧
      Method.size.call v x y = pure (.int n) ∧
      Method.size.call (elements r) x y = pure (.int n)) ∧
    (∀ key, Method.get.call v key x = Method.get.call (elements r) key x) ∧
    (∀ (k : Value) (n : Int64), k.asInt? = some n →
      Method.has.Answers v k x (.ok (.bool (decide (n ∈ r.toList)))) ∧
      Method.has.Answers (elements r) k x (.ok (.bool (decide (n ∈ r.toList))))) ∧
    (do (Method.cast .list).call (← Method.negate.call v x y) x y) =
      Method.negate.call (elements r) x y ∧
    (∀ w, Method.plus.call v w x = Method.plus.call (elements r) w x ∧
      Method.minus.call v w x = Method.minus.call (elements r) w x) ∧
    v.toJson = (elements r).toJson ∧
    Method.toJson.call v x y = Method.toJson.call (elements r) x y := by
  have plain : v.isNode = false := isNode_of_untagged hv rfl
  have joined : v.joined.untagged = .range r := v.untagged_joined.trans hv
  refine ⟨?_, ?_, fun key => ?_, fun k n hk => ⟨?_, ?_⟩, ?_, fun w => ⟨?_, ?_⟩, toJson_range hv, ?_⟩
  · rw [Method.cast_call_eq plain, cast_range hv]
    rfl
  · obtain ⟨n, sized, capped⟩ := exists_ofSize r.toList.length
    have list : (elements r).size = .int n := by
      rw [← sized, elements, size_list rfl, List.length_map]
    refine ⟨n, capped, ?_, ?_⟩
    · rw [Method.size_call plain, size_range joined, list]
    · rw [Method.size_call rfl]
      exact congrArg pure list
  · exact Method.onOperands_range (f := Value.get) hv (fun u hu => funext (get_range hu)) key
  · exact .of_case hv rfl (fun _ => rfl) fun u hu => by rw [has_range hu hk]
  · exact .of_case (c := elements r) rfl rfl (fun _ => rfl) fun u hu => by
      rw [has_list hu, ← has_list (v := elements r) rfl, has_elements hk]
  · rw [Method.negate_call plain, pure_bind, negate_range joined, Method.cast_call_eq rfl,
      cast_range rfl, Method.negate_call rfl]
    exact congrArg pure (elements_reversed r).symm
  · exact Method.onOperands_range (f := Value.plus) hv (fun u hu => plus_range hu) w
  · exact Method.onOperands_range (f := Value.minus) hv (fun u hu => minus_range hu) w
  · show (pure (.str v.toJson.text) : Eval Value) = _
    rw [toJson_range hv]
    rfl

/-- A descending range with a tag. -/
def countdown : Value := .tagged (.range ⟨3, 1⟩) { integer := some 3 }

theorem countdown_operates_as_list :
    countdown.untagged = .range ⟨3, 1⟩ ∧
      (Method.cast .list).call countdown .void .void = pure (.list [.int 3, .int 2, .int 1]) ∧
      Method.size.call countdown .void .void = pure (.int 3) ∧
      Method.has.Answers countdown (.int 2) .void (.ok (.bool true)) ∧
      Method.get.call countdown (.int 0) .void =
        Method.get.call (.list [.int 3, .int 2, .int 1]) (.int 0) .void ∧
      Method.plus.call countdown (.node ⟨7, "sum"⟩) .void =
        Method.plus.call (.list [.int 3, .int 2, .int 1]) (.node ⟨7, "sum"⟩) .void := by
  have listed : elements ⟨3, 1⟩ = .list [.int 3, .int 2, .int 1] := rfl
  obtain ⟨cast, ⟨n, sized, size, -⟩, get, has, -, plus, -⟩ :=
    range_operates_as_list (v := countdown) (r := ⟨3, 1⟩) rfl .void .void
  have three : n = 3 := Int64.toInt_inj.mp (sized.trans rfl)
  exact ⟨rfl, cast, three ▸ size, (has (.int 2) 2 rfl).1, get _, (plus _).1⟩

end ReactiveScript
