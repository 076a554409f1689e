import ReactiveScript.Proofs.Equality
import ReactiveScript.Proofs.Executions
import ReactiveScript.Proofs.Methods

/-!
# The order of values

Order and equality of values are two tables of cases. They agree: values that are equal are of equal
rank, errors and NaN apart, and to look at two values the other way round reverses their order. What
cannot be ordered cannot be ordered either way.
-/

namespace ReactiveScript

open Eval Value

namespace Decimal

variable {a b : Decimal}

theorem compare?_swap (a b : Decimal) : b.compare? a = (a.compare? b).map Ordering.swap := by
  rw [compare?, compare?, Bool.or_comm b.isNaN]
  split
  · rfl
  · exact congrArg some Std.OrientedOrd.eq_swap

theorem compare?_of_numericEq (h : a.numericEq b = true) : a.compare? b = some .eq := by
  simp only [numericEq, Bool.and_eq_true, Bool.not_eq_true', beq_iff_eq] at h
  obtain ⟨⟨ha, hb⟩, keys⟩ := h
  rw [compare?, ha, hb, keys, Std.compare_self]
  rfl

theorem numericEq_of_compare? (h : a.compare? b = some .eq) : a.numericEq b = true := by
  rw [compare?] at h
  split at h
  · cases h
  · next numbers =>
    rw [Bool.or_eq_true, not_or, Bool.not_eq_true, Bool.not_eq_true] at numbers
    rw [numericEq, numbers.1, numbers.2, Std.compare_eq_iff_eq.mp (Option.some.inj h)]
    exact beq_self_eq_true _

end Decimal

namespace Value

variable {v w : Value}

theorem compare?_untagged (v w : Value) : v.untagged.compare? w.untagged = v.compare? w := by
  rw [compare?, untagged_untagged, untagged_untagged, compare?]

@[simp] theorem isVoid_untagged (v : Value) : v.untagged.isVoid = v.isVoid := by
  rw [isVoid, untagged_untagged, isVoid]

/-- Values of different kinds are ordered by their texts, but void has no place among others. -/
theorem compare?_of_kind_ne (h : v.kind ≠ w.kind) : v.compare? w =
    if v.isVoid || w.isVoid then none else some (compare v.display w.display) := by
  rw [← kind_untagged v, ← kind_untagged w] at h
  rw [← compare?_untagged, ← isVoid_untagged v, ← isVoid_untagged w, ← display_untagged v,
    ← display_untagged w]
  revert h
  refine of_concrete (P := fun v w => v.kind ≠ w.kind → v.compare? w =
    if v.isVoid || w.isVoid then none else some (compare v.display w.display))
    (fun v w hv hw h => ?_) v w
  cases v with
  | tagged v m => exact absurd hv (untagged_ne_tagged _ _ _)
  | _ =>
    cases w with
    | tagged w m => exact absurd hw (untagged_ne_tagged _ _ _)
    | _ => first | exact absurd rfl h | rfl

/-- Two values the other way round are in the opposite order, or in none. -/
theorem compare?_swap (v w : Value) : w.compare? v = (v.compare? w).map Ordering.swap := by
  by_cases kinds : v.kind = w.kind
  · have alike := alike_of_kind_eq kinds
    rw [← compare?_untagged v w, ← compare?_untagged w v]
    generalize v.untagged = v at alike ⊢
    generalize w.untagged = w at alike ⊢
    cases alike with
    | intDecimal a b => exact Decimal.compare?_swap _ _
    | decimalInt a b => exact Decimal.compare?_swap _ _
    | decimals a b => exact Decimal.compare?_swap _ _
    | voids => rfl
    | _ => exact congrArg some Std.OrientedOrd.eq_swap
  · rw [compare?_of_kind_ne kinds, compare?_of_kind_ne (Ne.symm kinds), Bool.or_comm w.isVoid]
    split
    · rfl
    · exact congrArg some Std.OrientedOrd.eq_swap

/-- A value that is neither an error nor a NaN. -/
structure Ordinary (v : Value) : Prop where
  noError : v.isError = false
  noNaN : ∀ d, v.untagged = decimal d → d.isNaN = false

/-- If two values stand for the same node or resource, they call it by the same name. -/
structure NamesAgree (v w : Value) : Prop where
  nodes : ∀ a b, v.asNode? = some a → w.asNode? = some b → a.id = b.id →
    a.operation = b.operation
  resources : ∀ a b, v.asResource? = some a → w.asResource? = some b → a.id = b.id →
    a.name = b.name

theorem Ordinary.untagged (h : v.Ordinary) : v.untagged.Ordinary where
  noError := v.isError_untagged.trans h.noError
  noNaN d hd := h.noNaN d ((untagged_untagged v).symm.trans hd)

theorem NamesAgree.untagged (h : NamesAgree v w) : NamesAgree v.untagged w.untagged := by
  constructor <;> simp only [asNode?, asResource?, untagged_untagged]
  · exact h.nodes
  · exact h.resources

theorem length_eq_of_sameItems {items others : List Value} (h : sameItems items others = true) :
    items.length = others.length := by
  induction items generalizing others with
  | nil =>
    cases others with
    | nil => rfl
    | cons => cases h
  | cons v rest ih =>
    cases others with
    | nil => cases h
    | cons w others =>
      rw [sameItems, Bool.and_eq_true] at h
      rw [List.length_cons, List.length_cons, ih h.2]

theorem isVoid_of_isOpaque (h : v.untagged.isOpaque = false) : v.isVoid = false := by
  rw [isVoid]
  generalize v.untagged = u at h ⊢
  cases u <;> first | rfl | cases h

/-- Values that are equal by their texts have the same place in the order. -/
theorem compare?_of_sameText (kinds : v.kind ≠ w.kind)
    (h : sameText v.untagged w.untagged = true) : v.compare? w = some .eq := by
  simp only [sameText, Bool.and_eq_true, Bool.not_eq_true', beq_iff_eq, display_untagged] at h
  obtain ⟨⟨hv, hw⟩, texts⟩ := h
  rw [compare?_of_kind_ne kinds, isVoid_of_isOpaque hv, isVoid_of_isOpaque hw, texts,
    Std.compare_self]
  rfl

/-- Values that are equal by what they hold have the same place in the order. -/
theorem compare?_of_alike (alike : Alike v w) (hv : v.Ordinary) (names : NamesAgree v w)
    (h : v.same w = true) : v.compare? w = some .eq := by
  cases alike with
  | ints a b | bools a b | texts a b | ranges a b =>
    cases eq_of_beq h
    exact congrArg some Std.compare_self
  | intDecimal a b => exact Decimal.compare?_of_numericEq h
  | decimalInt a b => exact Decimal.compare?_of_numericEq h
  | decimals a b =>
    refine Decimal.compare?_of_numericEq ?_
    have number : a.isNaN = false := hv.noNaN a rfl
    replace h : sameDecimal a b = true := h
    rwa [sameDecimal, number, Bool.false_and, Bool.or_false] at h
  | voids => rfl
  | lists a b =>
    have length : a.length = b.length := length_eq_of_sameItems h
    exact congrArg some (length ▸ Std.compare_self)
  | maps a b =>
    replace h : (a.length == b.length && sameEntries a b) = true := h
    have length : a.length = b.length := eq_of_beq (Bool.and_eq_true_iff.mp h).1
    exact congrArg some (length ▸ Std.compare_self)
  | errors a b => cases hv.noError
  | nodes a b =>
    have ids : a.id = b.id := eq_of_beq h
    have texts : a.text = b.text := by
      rw [NodeRef.text, NodeRef.text, ids, names.nodes a b rfl rfl ids]
    exact congrArg some ((congrArg (compare a.text) texts.symm).trans Std.compare_self)
  | resources a b =>
    have ids : a.id = b.id := eq_of_beq h
    have texts : a.text = b.text := by
      rw [ResourceRef.text, ResourceRef.text, names.resources a b rfl rfl ids]
    exact congrArg some ((congrArg (compare a.text) texts.symm).trans Std.compare_self)

/-- Equal values are of equal rank. -/
theorem compare?_of_same (hv : v.Ordinary) (names : NamesAgree v w) (h : v.same w = true) :
    v.compare? w = some .eq := by
  by_cases kinds : v.kind = w.kind
  · rw [← untagged_same, ← same_untagged] at h
    rw [← compare?_untagged]
    exact compare?_of_alike (alike_of_kind_eq kinds) hv.untagged names.untagged h
  · exact compare?_of_sameText kinds (same_of_kind_ne kinds ▸ h)

/-- Numbers, truth values, texts and void are of equal rank only if they are equal. -/
theorem same_of_compare? (kinds : v.kind = w.kind)
    (simple : v.kind ∈ [Kind.number, .bool, .void, .text]) (h : v.compare? w = some .eq) :
    v.same w = true := by
  have alike := alike_of_kind_eq kinds
  rw [← kind_untagged] at simple
  rw [← compare?_untagged] at h
  rw [← untagged_same, ← same_untagged]
  generalize v.untagged = v at alike simple h ⊢
  generalize w.untagged = w at alike h ⊢
  cases alike with
  | ints a b =>
    have values : a.toInt = b.toInt := Std.compare_eq_iff_eq.mp (Option.some.inj h)
    exact beq_iff_eq.mpr (Int64.toInt_inj.mp values)
  | bools a b | texts a b => exact beq_iff_eq.mpr (Std.compare_eq_iff_eq.mp (Option.some.inj h))
  | intDecimal a b | decimalInt a b => exact Decimal.numericEq_of_compare? h
  | decimals a b =>
    have equal : a.numericEq b = true := Decimal.numericEq_of_compare? h
    show sameDecimal a b = true
    rw [sameDecimal, equal, Bool.true_or]
  | voids => rfl
  | _ => simp [kind] at simple

/-- A comparison of two forced operands, neither of them an error, tests their order. -/
theorem comparison_eq (hv : v.isError = false) (hw : w.isError = false) (test : Ordering → Bool) :
    comparison test v w = bool ((v.compare? w).any test) := by
  rw [comparison, hv, hw]
  rfl

theorem equalTo_eq (hv : v.isError = false) (hw : w.isError = false) :
    v.equalTo w = bool (v.same w) := by
  rw [equalTo, hv, hw]
  rfl

end Value

namespace Eval

variable {l r l' r' u : Value} {w w' : World}

/-- Two operands are forced all the way down, the left one first. -/
def Settle (l r l' r' : Value) (w w' : World) : Prop :=
  ∃ w₁, (fixDeep l).Ends w (.ok l') w₁ ∧ (holding l'.held (fixDeep r)).Ends w₁ (.ok r') w'

/-- Whatever compares two settled operands forces them in the same way. -/
theorem Settle.onSettled (h : Settle l r l' r' w w') (f : Value → Value → Value) :
    (onSettled f l r).Ends w (.ok (f l' r')) w' := by
  obtain ⟨w₁, left, right⟩ := h
  have given (l' : Value) (v : Value) : (Pure.pure (f l' v) : Eval Value).Plain :=
    (Protocol.pure _).routine
  have plain (l' : Value) : (holding l'.held (fixDeep r)).Plain :=
    (Protocol.holding _ (.fixDeep r)).routine
  exact .bind (Protocol.fixDeep l).routine (fun l' => .bind (plain l') (given l')) left
    (.bind (plain l') (given l') right (.pure _ _))

/-- A comparison that ends with a value has settled both operands. -/
theorem Settle.of_ends {f : Value → Value → Value} (h : (Eval.onSettled f l r).Ends w (.ok u) w') :
    ∃ l' r', Settle l r l' r' w w' ∧ u = f l' r' := by
  rcases h.bind_cases with ⟨e, -, failed⟩ | ⟨l', w₁, left, rest⟩
  · cases failed
  rcases rest.bind_cases with ⟨e, -, failed⟩ | ⟨r', w₂, right, given⟩
  · cases failed
  obtain ⟨same, rfl⟩ := Ends.unique (Protocol.pure _).routine given (.pure _ _)
  exact ⟨l', r', ⟨w₁, left, right⟩, Except.ok.inj same⟩

theorem Settle.unique {l'' r'' : Value} {w'' : World} (h : Settle l r l' r' w w')
    (h' : Settle l r l'' r'' w w'') : l' = l'' ∧ r' = r'' := by
  obtain ⟨w₁, left, right⟩ := h
  obtain ⟨w₂, left', right'⟩ := h'
  obtain ⟨same, rfl⟩ := Ends.unique (Protocol.fixDeep l).routine left left'
  cases same
  have plain : (holding l'.held (fixDeep r)).Plain := (Protocol.holding _ (.fixDeep r)).routine
  exact ⟨rfl, Except.ok.inj (Ends.unique plain right right').1⟩

/-- Operands without nodes are settled already, but for tags. -/
theorem Settle.bare (h : Settle l r l' r' w w') (hl : l.NodeFree) (hr : r.NodeFree) :
    l'.bare = l.bare ∧ r'.bare = r.bare := by
  obtain ⟨u, left, hu⟩ := (Returns.fixDeep hl).exists_eq_pure
  obtain ⟨u', right, hu'⟩ := ((Returns.fixDeep hr).holding u.held).exists_eq_pure
  have settled : Settle l r u u' w w := ⟨w, left ▸ .pure u w, right ▸ .pure u' w⟩
  obtain ⟨rfl, rfl⟩ := h.unique settled
  exact ⟨hu, hu'⟩

/-- Operands without nodes are compared as they are, but for tags. -/
theorem onSettled_eq_pure {f : Value → Value → Value} (hl : l.NodeFree)
    (hr : r.NodeFree) (hf : ∀ l' r', l'.bare = l.bare → r'.bare = r.bare → f l' r' = u) :
    onSettled f l r = pure u := by
  obtain ⟨l', left, hl'⟩ := (Returns.fixDeep hl).exists_eq_pure
  obtain ⟨r', right, hr'⟩ := (Returns.fixDeep hr).exists_eq_pure
  rw [onSettled, left, right, ← hf l' r' hl' hr']
  rfl

end Eval

theorem Method.comparison_call {test : Ordering → Bool} {l r : Value} (hl : l.NodeFree)
    (hr : r.NodeFree) (noError : l.isError = false) (noError' : r.isError = false) :
    onSettled (Value.comparison test) l r = pure (.bool ((l.compare? r).any test)) := by
  refine onSettled_eq_pure hl hr fun l' r' hl' hr' => ?_
  rw [Value.comparison_eq ((Value.isError_congr hl').trans noError)
    ((Value.isError_congr hr').trans noError'), ← Value.compare?_bare, hl', hr', Value.compare?_bare]

/-- Two values the other way round are in the opposite order, or in none, so that less and greater,
with or without equality, are converse to each other. Values that are equal are of equal rank; a NaN
is equal to itself without being ordered, and errors are equal by less than their texts. Conversely,
what is of equal rank is equal unless it is ranked by its size or its text. So when equality of two
operands ends with true, they were settled, and if what they were settled to is ordinary, each is at
most and at least the other, and neither less nor greater. -/
theorem order_antisymmetric_and_coherent (l r x : Value) :
    ((l.compare? r = none ↔ r.compare? l = none) ∧
      ∀ o, l.compare? r = some o → r.compare? l = some o.swap) ∧
    (l.NodeFree → r.NodeFree → l.isError = false → r.isError = false → ∃ less atMost : Bool,
      Method.lessThan.call l r x = pure (.bool less) ∧
      Method.greaterThan.call r l x = pure (.bool less) ∧
      Method.lessEqual.call l r x = pure (.bool atMost) ∧
      Method.greaterEqual.call r l x = pure (.bool atMost)) ∧
    (l.Ordinary → r.Ordinary → NamesAgree l r → l.same r = true → l.compare? r = some .eq) ∧
    (l.kind = r.kind → l.kind ∈ [Kind.number, .bool, .void, .text] → l.compare? r = some .eq →
      l.same r = true) ∧
    ∀ w w', (Method.equalTo.call l r x).Ends w (.ok (.bool true)) w' →
      ∃ l' r', Settle l r l' r' w w' ∧
        (l.NodeFree → r.NodeFree → l'.bare = l.bare ∧ r'.bare = r.bare) ∧
        (l'.Ordinary → r'.Ordinary → NamesAgree l' r' →
          (Method.lessEqual.call l r x).Ends w (.ok (.bool true)) w' ∧
          (Method.greaterEqual.call l r x).Ends w (.ok (.bool true)) w' ∧
          (Method.lessThan.call l r x).Ends w (.ok (.bool false)) w' ∧
          (Method.greaterThan.call l r x).Ends w (.ok (.bool false)) w') := by
  have swapped := compare?_swap l r
  refine ⟨⟨?_, fun o ho => ?_⟩, fun hl hr noError noError' => ?_,
    fun ordinary _ names => compare?_of_same ordinary names, same_of_compare?,
    fun w w' equal => ?_⟩
  · rw [swapped, Option.map_eq_none_iff]
  · rw [swapped, ho, Option.map_some]
  · have less : (r.compare? l).any (· == .gt) = (l.compare? r).any (· == .lt) := by
      rw [swapped]
      rcases l.compare? r with _ | (_ | _ | _) <;> rfl
    have atMost : (r.compare? l).any (· != .lt) = (l.compare? r).any (· != .gt) := by
      rw [swapped]
      rcases l.compare? r with _ | (_ | _ | _) <;> rfl
    exact ⟨_, _, Method.comparison_call hl hr noError noError',
      (Method.comparison_call hr hl noError' noError).trans (congrArg (pure ∘ Value.bool) less),
      Method.comparison_call hl hr noError noError',
      (Method.comparison_call hr hl noError' noError).trans (congrArg (pure ∘ Value.bool) atMost)⟩
  · obtain ⟨l', r', settle, told⟩ := Settle.of_ends equal
    refine ⟨l', r', settle, settle.bare, fun ordinary ordinary' names => ?_⟩
    rw [equalTo_eq ordinary.noError ordinary'.noError] at told
    have same : l'.same r' = true := by
      injection told with told
      exact told.symm
    have ranked (test : Ordering → Bool) : comparison test l' r' = .bool (test .eq) := by
      rw [comparison_eq ordinary.noError ordinary'.noError, compare?_of_same ordinary names same]
      rfl
    have answers (test : Ordering → Bool) :
        (onSettled (comparison test) l r).Ends w (.ok (.bool (test .eq))) w' :=
      ranked test ▸ settle.onSettled (comparison test)
    exact ⟨answers _, answers _, answers _, answers _⟩

/-- The least odd integer that no decimal denotes, with a tag. -/
def oddInteger : Value := .tagged (.int 9007199254740993) { note := some "odd" }

/-- The decimal nearest to it, which is one less. -/
def evenDecimal : Value := .decimal (Decimal.ofBits 0x4340000000000000)

theorem odd_integer_ranks_as_decimal :
    oddInteger.NodeFree ∧ evenDecimal.NodeFree ∧ oddInteger.isError = false ∧
      evenDecimal.isError = false ∧ oddInteger.Ordinary ∧ evenDecimal.Ordinary ∧
      NamesAgree oddInteger evenDecimal ∧ oddInteger.same evenDecimal = true ∧
      oddInteger.compare? evenDecimal = some .eq ∧
      (Method.equalTo.call oddInteger evenDecimal .void).Ends {} (.ok (.bool true)) {} ∧
      (Method.lessEqual.call oddInteger evenDecimal .void).Ends {} (.ok (.bool true)) {} ∧
      ∃ less : Bool, Method.lessThan.call oddInteger evenDecimal .void = pure (.bool less) ∧
        Method.greaterThan.call evenDecimal oddInteger .void = pure (.bool less) := by
  have ordinary : oddInteger.Ordinary := ⟨rfl, nofun⟩
  have ordinary' : evenDecimal.Ordinary := ⟨rfl, fun d hd => by cases hd; decide⟩
  have names : NamesAgree oddInteger evenDecimal := ⟨nofun, nofun⟩
  have same : oddInteger.same evenDecimal = true := by decide +kernel
  have settle : Settle oddInteger evenDecimal oddInteger evenDecimal {} {} :=
    ⟨{}, ⟨0, rfl⟩, ⟨0, rfl⟩⟩
  have told : (Method.equalTo.call oddInteger evenDecimal .void).Ends {} (.ok (.bool true)) {} :=
    (equalTo_eq (v := oddInteger) (w := evenDecimal) rfl rfl).trans (congrArg Value.bool same) ▸
      settle.onSettled Value.equalTo
  obtain ⟨-, converse, rank, -, ends⟩ :=
    order_antisymmetric_and_coherent oddInteger evenDecimal .void
  obtain ⟨less, atMost, lessThan, greaterThan, -⟩ := converse rfl rfl rfl rfl
  obtain ⟨l', r', settled, -, answers⟩ := ends _ _ told
  obtain ⟨rfl, rfl⟩ := settle.unique settled
  exact ⟨rfl, rfl, rfl, rfl, ordinary, ordinary', names, same, rank ordinary ordinary' names same,
    told, (answers ordinary ordinary' names).1, less, lessThan, greaterThan⟩

end ReactiveScript
