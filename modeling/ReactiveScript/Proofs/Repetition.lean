import ReactiveScript.Proofs.IntegerArithmetic
import ReactiveScript.Proofs.Levels

/-!
# Repetition of texts and lists

Multiplied by an integer, a text or a list is joined to itself that often; a negative integer counts
as zero. The length of the result is computed first, in 64 bits, and a result that is too long is
refused, whether or not its length has 64 bits. So no multiplication gives a long text or list, and
within the limit repetition turns sums of integers into sums of texts and lists.
-/

namespace ReactiveScript

open Eval

namespace Value

variable {v w u : Value} {length times : Nat} {n : Int64}

/-- The length of a text in bytes, and that of a list in elements. -/
def extent? (v : Value) : Option Nat :=
  match v.untagged with
  | str s => some s.utf8ByteSize
  | list items => some items.length
  | _ => none

/-- A text or a list, joined to itself a number of times. -/
def repeated (times : Nat) (v : Value) : Value :=
  match v.untagged with
  | str s => str (String.join (List.replicate times s))
  | list items => list (List.replicate times items).flatten
  | other => other

/-- A value without length, or one that is short enough. -/
def WithinLimit (v : Value) : Prop := ∀ length, v.extent? = some length → length ≤ 2 ^ 24

theorem extent?_cases (h : v.extent? = some length) :
    (∃ s, v.untagged = str s ∧ s.utf8ByteSize = length) ∨
      ∃ items, v.untagged = list items ∧ items.length = length := by
  unfold extent? at h
  split at h
  · next s hs => exact .inl ⟨s, hs, Option.some.inj h⟩
  · next items hi => exact .inr ⟨items, hi, Option.some.inj h⟩
  · cases h

@[simp] theorem extent?_joined (v : Value) : v.joined.extent? = v.extent? := by
  rw [extent?, untagged_joined, extent?]

@[simp] theorem repeated_joined (times : Nat) (v : Value) :
    v.joined.repeated times = v.repeated times := by
  rw [repeated, untagged_joined, repeated]

theorem isNode_of_extent? (h : v.extent? = some length) : v.isNode = false := by
  obtain ⟨s, hs, -⟩ | ⟨items, hi, -⟩ := extent?_cases h
  · exact isNode_of_untagged hs rfl
  · exact isNode_of_untagged hi rfl

theorem repeatItems_eq_flatten {α : Type} (times : Nat) (items : List α) :
    repeatItems times items = (List.replicate times items).flatten := by
  rw [repeatItems]
  split
  · next h => rw [List.isEmpty_iff.mp h, List.flatten_replicate_nil]
  · rfl

theorem ofList_repeatItems (times : Nat) (s : String) :
    String.ofList (repeatItems times s.toList) = String.join (List.replicate times s) := by
  rw [repeatItems_eq_flatten, ← String.toList_inj, String.toList_ofList, String.toList_join,
    ← List.flatMap_id, List.flatMap_replicate, List.flatMap_replicate]
  rfl

theorem utf8ByteSize_join_replicate (times : Nat) (s : String) :
    (String.join (List.replicate times s)).utf8ByteSize = s.utf8ByteSize * times := by
  induction times with
  | zero => rfl
  | succ times ih =>
    rw [List.replicate_succ, String.join_cons, String.utf8ByteSize_append, ih]
    ring

theorem length_flatten_replicate {α : Type} (times : Nat) (items : List α) :
    (List.replicate times items).flatten.length = items.length * times := by
  rw [List.length_flatten, List.map_replicate, List.sum_replicate_nat, Nat.mul_comm]

theorem extent?_repeated (h : v.extent? = some length) (times : Nat) :
    (v.repeated times).extent? = some (length * times) := by
  obtain ⟨s, hs, rfl⟩ | ⟨items, hi, rfl⟩ := extent?_cases h
  · rw [repeated, hs]
    exact congrArg some (utf8ByteSize_join_replicate times s)
  · rw [repeated, hi]
    exact congrArg some (length_flatten_replicate times items)

section count

variable (kind : String)

/-- A length that is short enough has 64 bits, so that the check does not miss it. -/
theorem lengthProduct?_any_iff (a b : Nat) :
    (lengthProduct? a b).any (· ≤ maxRepeatLength) ↔ a * b ≤ 2 ^ 24 := by
  have limit : maxRepeatLength = 2 ^ 24 := rfl
  have word : UInt64.size = 2 ^ 64 := rfl
  rw [lengthProduct?]
  split
  · rw [Option.any_some, limit, decide_eq_true_iff]
  · exact iff_of_false Bool.false_ne_true (by omega)

theorem repeatCount_of_le (h : length * n.toInt.toNat ≤ 2 ^ 24) :
    repeatCount kind length n = .ok n.toInt.toNat :=
  if_pos ((lengthProduct?_any_iff _ _).mpr h)

theorem repeatCount_of_lt (h : 2 ^ 24 < length * n.toInt.toNat) :
    ∃ e : EvalError, e.kind = .exception ∧ repeatCount kind length n = .error e :=
  ⟨_, rfl, if_neg (mt (lengthProduct?_any_iff _ _).mp (Nat.not_le_of_lt h))⟩

end count

/-- What is multiplied by an integer is repeated, unless it gets too long. -/
theorem multiply_eq_map_repeatCount (hv : v.extent? = some length) (hw : w.untagged = int n) :
    ∃ kind, v.multiply w = (repeatCount kind length n).map fun times => v.repeated times := by
  obtain ⟨s, hs, rfl⟩ | ⟨items, hi, rfl⟩ := extent?_cases hv
  · refine ⟨"string", ?_⟩
    have none : errorOperand? (str s) (int n) = none := rfl
    simp only [multiply, repeated, hs, hw, none, product, ← ofList_repeatItems]
    cases repeatCount "string" s.utf8ByteSize n <;> rfl
  · refine ⟨"list", ?_⟩
    have none : errorOperand? (list items) (int n) = none := rfl
    simp only [multiply, repeated, hi, hw, none, product, ← repeatItems_eq_flatten]
    cases repeatCount "list" items.length n <;> rfl

theorem multiply_of_le (hv : v.extent? = some length) (hw : w.untagged = int n)
    (h : length * n.toInt.toNat ≤ 2 ^ 24) : v.multiply w = .ok (v.repeated n.toInt.toNat) := by
  obtain ⟨kind, multiplied⟩ := multiply_eq_map_repeatCount hv hw
  rw [multiplied, repeatCount_of_le kind h]
  rfl

theorem multiply_of_lt (hv : v.extent? = some length) (hw : w.untagged = int n)
    (h : 2 ^ 24 < length * n.toInt.toNat) :
    ∃ e : EvalError, e.kind = .exception ∧ v.multiply w = .error e := by
  obtain ⟨kind, multiplied⟩ := multiply_eq_map_repeatCount hv hw
  obtain ⟨e, exception, refused⟩ := repeatCount_of_lt kind h
  rw [multiplied, refused]
  exact ⟨e, exception, rfl⟩

section limit

theorem withinLimit_of_isNone (h : v.extent? = none) : v.WithinLimit := by
  intro length hl
  rw [h] at hl
  cases hl

theorem withinLimit_repetition {kind : String} {f : Nat → Value}
    (hf : ∀ times, (f times).extent? = some (length * times)) :
    Yields WithinLimit (do
      let times ← repeatCount kind length n
      .ok (f times)) := by
  rcases Nat.lt_or_ge (2 ^ 24) (length * n.toInt.toNat) with long | short
  · obtain ⟨e, -, refused⟩ := repeatCount_of_lt kind long
    rw [refused]
    exact .error e
  · rw [repeatCount_of_le kind short]
    refine .ok fun total h => ?_
    rw [hf] at h
    cases h
    exact short

theorem withinLimit_decimalProduct (a b : Decimal) : (decimalProduct a b).WithinLimit := by
  unfold decimalProduct
  split <;> exact withinLimit_of_isNone rfl

theorem withinLimit_product (v w : Value) : Yields WithinLimit (product v w) := by
  unfold product
  split
  · exact .ok (withinLimit_of_isNone rfl)
  · exact .ok (withinLimit_of_isNone rfl)
  · exact .error _
  · next s n =>
    refine withinLimit_repetition fun times => ?_
    rw [ofList_repeatItems]
    exact congrArg some (utf8ByteSize_join_replicate times s)
  · next items n =>
    refine withinLimit_repetition fun times => ?_
    rw [repeatItems_eq_flatten]
    exact congrArg some (length_flatten_replicate times items)
  · split
    · exact .ok (withinLimit_of_isNone rfl)
    · exact .ok (withinLimit_decimalProduct _ _)
  · exact .onDecimals "*" withinLimit_decimalProduct _ _

/-- An error operand, which is passed on, has no length. -/
theorem withinLimit_errorOperand (h : errorOperand? v w = some u) : u.WithinLimit := by
  have error : u.isError := by
    unfold errorOperand? at h
    split at h
    · next left => cases h; exact left
    · split at h
      · next right => cases h; exact right
      · cases h
  refine withinLimit_of_isNone ?_
  obtain ⟨e, he⟩ := Option.isSome_iff_exists.mp error
  rw [extent?, untagged_of_asError? he]

theorem withinLimit_multiply (v w : Value) : Yields WithinLimit (v.multiply w) := by
  unfold multiply
  split
  · next e h => exact .ok (withinLimit_errorOperand h)
  · exact withinLimit_product _ _

end limit

section sums

theorem repeated_nodeFree (free : v.NodeFree) (times : Nat) : (v.repeated times).NodeFree := by
  have inside := nodeFree_untagged.mpr free
  unfold repeated
  split
  · exact nodeFree_hereditary.datum trivial
  · next items hi =>
    rw [hi] at inside
    exact repeatItems_eq_flatten times items ▸ nodeFree_hereditary.repeatItems times inside
  · exact inside

theorem repeated_tagsJoined (joined : v.TagsJoined) (times : Nat) :
    (v.repeated times).TagsJoined := by
  have inside := joined.untagged
  unfold repeated
  split
  · exact .datum trivial
  · next items hi =>
    rw [hi] at inside
    refine .list fun u hu => ?_
    obtain ⟨copy, hc, hu⟩ := List.mem_flatten.mp hu
    rw [List.eq_of_mem_replicate hc] at hu
    cases inside with
    | datum h => exact h.elim
    | list h => exact h u hu
  · exact inside

/-- Repetitions of one text or list add up. -/
theorem plus_repeated (hv : v.extent? = some length) (a b : Nat) :
    (v.repeated a).plus (v.repeated b) = .ok (v.repeated (a + b)) := by
  obtain ⟨s, hs, -⟩ | ⟨items, hi, -⟩ := extent?_cases hv
  · simp only [repeated, hs, List.replicate_add, String.join_append]
    rfl
  · simp only [repeated, hi, List.replicate_add, List.flatten_append]
    rfl

/-- A repetition has no tag, and so there is none to join. -/
theorem joined_repeated (hv : v.extent? = some length) (times : Nat) :
    (v.repeated times).joined = v.repeated times := by
  obtain ⟨s, hs, -⟩ | ⟨items, hi, -⟩ := extent?_cases hv
  · rw [repeated, hs]
    rfl
  · rw [repeated, hi]
    rfl

/-- A sum of counts is exact, if it has 64 bits. -/
theorem plus_counts {p q : Value} {m : Int64} (hp : p.untagged = int m) (hq : q.untagged = int n)
    (hm : 0 ≤ m.toInt) (hn : 0 ≤ n.toInt) (fits : m.toInt + n.toInt < 2 ^ 63) :
    ∃ u, p.plus q = .ok u ∧ ∃ k : Int64, u = int k ∧ k.toInt = m.toInt + n.toInt := by
  obtain ⟨u, added, sum⟩ := plus_int hp hq
  rw [ExactOrNear, if_pos ⟨by omega, fits⟩] at sum
  exact ⟨u, added, sum⟩

end sums

end Value

namespace Method

variable {v w : Value} {length : Nat} {n : Int64}

/-- What is multiplied is forced no further than to its case, and so is the integer. -/
theorem multiply_call (hv : v.isNode = false) (hw : w.untagged = .int n) (x : Value) :
    ∃ u : Value, u.untagged = .int n ∧
      multiply.call v w x = Eval.ofExcept (v.joined.multiply u) := by
  obtain ⟨u, settles, hu⟩ := fixDeep_int hw
  exact ⟨u, hu, onOperands_eq_ofExcept hv settles⟩

theorem multiply_call_of_le (hv : v.extent? = some length) (hw : w.untagged = .int n)
    (h : length * n.toInt.toNat ≤ 2 ^ 24) (x : Value) :
    multiply.call v w x = pure (v.repeated n.toInt.toNat) := by
  obtain ⟨u, hu, called⟩ := multiply_call (Value.isNode_of_extent? hv) hw x
  rw [called, Value.multiply_of_le ((Value.extent?_joined v).trans hv) hu h, Value.repeated_joined]
  rfl

theorem multiply_call_of_lt (hv : v.extent? = some length) (hw : w.untagged = .int n)
    (h : 2 ^ 24 < length * n.toInt.toNat) (x : Value) :
    ∃ e : EvalError, e.kind = .exception ∧ multiply.call v w x = raise e := by
  obtain ⟨u, hu, called⟩ := multiply_call (Value.isNode_of_extent? hv) hw x
  obtain ⟨e, kind, refused⟩ :=
    Value.multiply_of_lt ((Value.extent?_joined v).trans hv) hu h
  refine ⟨e, kind, ?_⟩
  rw [called, refused]
  rfl

/-- Whatever the operands are forced to, the result is within the limit. -/
theorem withinLimit_of_multiply_call {x u : Value} {world world' : World}
    (h : (multiply.call v w x).Ends world (.ok u) world') : u.WithinLimit := by
  obtain ⟨fuel, run⟩ := h
  obtain ⟨l, w₁, -, rest⟩ := Eval.exists_of_bind_ok run
  obtain ⟨r, w₂, -, last⟩ := Eval.exists_of_bind_ok rest
  refine Value.withinLimit_multiply l r u ?_
  cases hm : l.multiply r with
  | error e => rw [hm] at last; cases last
  | ok v => rw [hm] at last; cases last; rfl

theorem plus_call_repeated (hv : v.extent? = some length) (free : v.NodeFree)
    (joined : v.TagsJoined) (a b : Nat) (x : Value) :
    plus.call (v.repeated a) (v.repeated b) x = pure (v.repeated (a + b)) := by
  have plain := Value.isNode_of_extent? (Value.extent?_repeated hv a)
  have settles := fixDeep_eq_pure (Value.repeated_tagsJoined joined b)
    (Value.repeated_nodeFree free b)
  have called : plus.call (v.repeated a) (v.repeated b) x = _ :=
    onOperands_eq_ofExcept (f := Value.plus) plain settles
  rw [called, Value.joined_repeated hv, Value.plus_repeated hv]
  rfl

end Method

section distribution

variable {v p q : Value} {length : Nat} {m n : Int64}

/-- Within the limit, multiplication distributes over the sum of two counts. -/
theorem Value.multiply_plus (hv : v.extent? = some length) (hp : p.untagged = .int m)
    (hq : q.untagged = .int n) (hm : 0 ≤ m.toInt) (hn : 0 ≤ n.toInt)
    (fits : m.toInt + n.toInt < 2 ^ 63) (short : length * (m.toInt + n.toInt).toNat ≤ 2 ^ 24) :
    (do v.multiply (← p.plus q)) = .ok (v.repeated (m.toInt + n.toInt).toNat) ∧
      (do (← v.multiply p).plus (← v.multiply q)) =
        .ok (v.repeated (m.toInt + n.toInt).toNat) := by
  have parts := Int.toNat_add hm hn
  rw [parts, Nat.mul_add] at short
  constructor
  · obtain ⟨_, added, k, rfl, sum⟩ := plus_counts hp hq hm hn fits
    rw [added, ← sum]
    refine multiply_of_le hv rfl ?_
    rwa [sum, parts, Nat.mul_add]
  · rw [multiply_of_le hv hp (by omega), multiply_of_le hv hq (by omega), parts]
    exact plus_repeated hv _ _

/-- That holds of the methods as well. -/
theorem Method.multiply_plus_call (hv : v.extent? = some length) (free : v.NodeFree)
    (joined : v.TagsJoined) (hp : p.untagged = .int m) (hq : q.untagged = .int n)
    (hm : 0 ≤ m.toInt) (hn : 0 ≤ n.toInt) (fits : m.toInt + n.toInt < 2 ^ 63)
    (short : length * (m.toInt + n.toInt).toNat ≤ 2 ^ 24) (x : Value) :
    (do multiply.call v (← plus.call p q x) x) =
        pure (v.repeated (m.toInt + n.toInt).toNat) ∧
      (do plus.call (← multiply.call v p x) (← multiply.call v q x) x) =
        pure (v.repeated (m.toInt + n.toInt).toNat) := by
  have parts := Int.toNat_add hm hn
  rw [parts, Nat.mul_add] at short
  constructor
  · obtain ⟨_, added, k, rfl, sum⟩ := onOperands_int hp hq fun l r hl hr =>
      Value.plus_counts hl hr hm hn fits
    have called : plus.call p q x = pure (.int k) := added
    rw [called, pure_bind, ← sum]
    refine multiply_call_of_le hv rfl ?_ x
    rwa [sum, parts, Nat.mul_add]
  · rw [multiply_call_of_le hv hp (by omega), multiply_call_of_le hv hq (by omega), parts]
    exact plus_call_repeated hv free joined _ _ x

end distribution

/-- A text or a list that is multiplied by an integer is repeated that often, and not at all if the
integer is negative; it is refused if the result gets longer than the limit, however large the
product of its length and the count is. So no product is longer than the limit. If the sum of two
counts has 64 bits and leads to no longer result, the product with it is the sum of the products. -/
theorem repetition_exact_and_bounded (v x : Value) :
    (∀ length w (n : Int64), v.extent? = some length → w.untagged = .int n →
      (length * n.toInt.toNat ≤ 2 ^ 24 →
        v.multiply w = .ok (v.repeated n.toInt.toNat) ∧
          Method.multiply.call v w x = pure (v.repeated n.toInt.toNat)) ∧
      (2 ^ 24 < length * n.toInt.toNat →
        (∃ e : EvalError, e.kind = .exception ∧ v.multiply w = .error e) ∧
          ∃ e : EvalError, e.kind = .exception ∧ Method.multiply.call v w x = raise e)) ∧
    (∀ w u, v.multiply w = .ok u → u.WithinLimit) ∧
    (∀ w world u world', (Method.multiply.call v w x).Ends world (.ok u) world' →
      u.WithinLimit) ∧
    (∀ length p q (m n : Int64), v.extent? = some length → p.untagged = .int m →
      q.untagged = .int n → 0 ≤ m.toInt → 0 ≤ n.toInt → m.toInt + n.toInt < 2 ^ 63 →
      length * (m.toInt + n.toInt).toNat ≤ 2 ^ 24 →
        ((do v.multiply (← p.plus q)) = .ok (v.repeated (m.toInt + n.toInt).toNat) ∧
          (do (← v.multiply p).plus (← v.multiply q)) =
            .ok (v.repeated (m.toInt + n.toInt).toNat)) ∧
        (v.NodeFree → v.TagsJoined →
          (do Method.multiply.call v (← Method.plus.call p q x) x) =
              pure (v.repeated (m.toInt + n.toInt).toNat) ∧
            (do Method.plus.call (← Method.multiply.call v p x) (← Method.multiply.call v q x) x) =
              pure (v.repeated (m.toInt + n.toInt).toNat))) := by
  refine ⟨fun length w n hv hw => ⟨fun short => ?_, fun long => ?_⟩, fun w u h => ?_,
    fun w world u world' h => Method.withinLimit_of_multiply_call h, ?_⟩
  · exact ⟨Value.multiply_of_le hv hw short, Method.multiply_call_of_le hv hw short x⟩
  · exact ⟨Value.multiply_of_lt hv hw long, Method.multiply_call_of_lt hv hw long x⟩
  · exact Value.withinLimit_multiply v w u h
  · intro length p q m n hv hp hq hm hn fits short
    exact ⟨Value.multiply_plus hv hp hq hm hn fits short, fun free joined =>
      Method.multiply_plus_call hv free joined hp hq hm hn fits short x⟩

/-- A list with a tag. -/
def taggedPair : Value := .tagged (.list [.str "a", .int 1]) { note := some "pair" }

theorem pair_repeated :
    taggedPair.extent? = some 2 ∧
      Method.multiply.call taggedPair (.int 2) .void =
        pure (.list [.str "a", .int 1, .str "a", .int 1]) ∧
      (∃ e : EvalError, e.kind = .exception ∧
        Method.multiply.call taggedPair (.int Int64.maxValue) .void = raise e) ∧
      (do
        let none ← Method.multiply.call taggedPair (.int 0) .void
        let one ← Method.multiply.call taggedPair (.int 1) .void
        Method.plus.call none one .void) = pure (.list [.str "a", .int 1]) := by
  obtain ⟨product, -, -, distributes⟩ := repetition_exact_and_bounded taggedPair .void
  have joined : taggedPair.TagsJoined := .tagged _ rfl (.list fun v hv => by
    rcases List.mem_pair.mp hv with rfl | rfl <;> exact .datum trivial)
  refine ⟨rfl, ((product 2 (.int 2) 2 rfl rfl).1 (by decide)).2,
    ((product 2 (.int Int64.maxValue) Int64.maxValue rfl rfl).2 (by decide)).2, ?_⟩
  have sum := distributes 2 (.int 0) (.int 1) 0 1 rfl rfl rfl (by decide) (by decide) (by decide)
    (by decide)
  exact (sum.2 rfl joined).2

end ReactiveScript
