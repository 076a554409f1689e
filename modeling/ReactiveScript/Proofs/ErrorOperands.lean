import ReactiveScript.Proofs.Methods

/-!
# Errors among operands

Arithmetic and the four orderings pass an error operand on, the left one before the right one, and
make no error value themselves. So a tree of these operations gives the leftmost error among its
leaves, if it gives a value, and an error is raised only in a part without errors among its leaves.
-/

namespace ReactiveScript

open Eval

namespace Value

/-- A result is no error value, if there is one. -/
abbrev Sound : Except EvalError Value → Prop := Yields fun v => v.asError? = none

@[simp] theorem asError?_ofExact (n : Int) (d : Decimal) : (ofExact n d).asError? = none := by
  unfold ofExact
  split <;> rfl

@[simp] theorem asError?_decimalProduct (a b : Decimal) :
    (decimalProduct a b).asError? = none := by
  unfold decimalProduct
  split <;> rfl

@[simp] theorem asError?_byDivisor (f : Decimal → Decimal → Decimal) (a b : Decimal) :
    (byDivisor f a b).asError? = none := by
  unfold byDivisor
  split <;> rfl

@[simp] theorem asError?_untagged (v : Value) : v.untagged.asError? = v.asError? := by
  rw [asError?, untagged_untagged, asError?]

@[simp] theorem isError_untagged (v : Value) : v.untagged.isError = v.isError := by
  rw [isError, asError?_untagged, isError]

@[simp] theorem asError?_expandRange (v : Value) : v.expandRange.asError? = v.asError? := by
  cases v <;> rfl

section operators

variable {a b l r : Value}

theorem sound_sum (ha : a.asError? = none) (hb : b.asError? = none) : Sound (sum a b) := by
  unfold sum
  split
  · exact .ok rfl
  · exact .ok rfl
  · exact .ok rfl
  · exact .ok hb
  · exact .ok ha
  · exact .ok rfl
  · exact .ok rfl
  · exact .ok rfl
  · exact .ok rfl
  · exact .ok rfl
  · exact .ok (asError?_ofExact _ _)
  · exact .onDecimals (P := fun v => v.asError? = none) "+" (fun _ _ => rfl) _ _

theorem sound_difference (ha : a.asError? = none) : Sound (difference a b) := by
  unfold difference
  split
  · exact .ok rfl
  · exact .ok ha
  · exact .ok rfl
  · exact .ok rfl
  · exact .ok rfl
  · exact .ok rfl
  · exact .ok rfl
  · exact .ok (asError?_ofExact _ _)
  · exact .onDecimals (P := fun v => v.asError? = none) "-" (fun _ _ => rfl) _ _

theorem sound_product : Sound (product a b) := by
  unfold product
  split
  · exact .ok rfl
  · exact .ok rfl
  · exact .error _
  · exact .bind fun _ => .ok rfl
  · exact .bind fun _ => .ok rfl
  · split
    · exact .ok rfl
    · exact .ok (asError?_decimalProduct _ _)
  · exact .onDecimals "*" asError?_decimalProduct _ _

theorem sound_quotient : Sound (quotient a b) := by
  unfold quotient
  split
  · exact .ok rfl
  · exact .ok rfl
  · exact .error _
  · split
    · exact .ok rfl
    · exact .ok (asError?_ofExact _ _)
  · exact .onDecimals "/" (asError?_byDivisor _) _ _

theorem sound_remainder : Sound (remainder a b) := by
  unfold remainder
  split
  · exact .ok rfl
  · exact .ok rfl
  · exact .error _
  · split <;> exact .ok rfl
  · exact .onDecimals "%" (asError?_byDivisor _) _ _

/-- What an operation that passes errors on gives: the error among its operands, the left one
first, if there is one; otherwise no error value, though an error may be raised. -/
structure PassesError (l r : Value) (result : Except EvalError Value) : Prop where
  value : ∀ v, result = .ok v → v.asError? = l.asError?.or r.asError?
  raised : ∀ e, result = .error e → l.asError?.or r.asError? = none

theorem PassesError.of_left {e : Value} (h : l.isError) (he : e.asError? = l.asError?) :
    PassesError l r (.ok e) := by
  refine ⟨fun v hv => ?_, fun e he => by cases he⟩
  obtain ⟨err, herr⟩ := Option.isSome_iff_exists.mp h
  rw [← Except.ok.inj hv, he, herr, Option.some_or]

theorem PassesError.of_right {e : Value} (hl : l.asError? = none) (he : e.asError? = r.asError?) :
    PassesError l r (.ok e) := by
  refine ⟨fun v hv => ?_, fun e he => by cases he⟩
  rw [← Except.ok.inj hv, he, hl, Option.none_or]

theorem PassesError.of_sound {result : Except EvalError Value} (hl : l.asError? = none)
    (hr : r.asError? = none) (h : Sound result) : PassesError l r result := by
  refine ⟨fun v hv => ?_, fun e _ => ?_⟩
  · rw [h v hv, hl, hr, Option.none_or]
  · rw [hl, hr, Option.none_or]

theorem asError?_of_not_isError {v : Value} (h : ¬ v.isError) : v.asError? = none :=
  Option.not_isSome_iff_eq_none.mp h

/-- The operations of arithmetic look for an error operand first. -/
theorem passesError_passing {f : Value → Value → Except EvalError Value}
    (hf : l.asError? = none → r.asError? = none → Sound (f l.untagged r.untagged)) :
    PassesError l r (match errorOperand? l.untagged r.untagged with
      | some e => .ok e
      | none => f l.untagged r.untagged) := by
  simp only [errorOperand?, isError_untagged]
  by_cases hl : l.isError
  · rw [if_pos hl]
    exact .of_left hl (asError?_untagged l)
  · rw [if_neg hl]
    have hl := asError?_of_not_isError hl
    by_cases hr : r.isError
    · rw [if_pos hr]
      exact .of_right hl (asError?_untagged r)
    · rw [if_neg hr]
      have hr := asError?_of_not_isError hr
      exact .of_sound hl hr (hf hl hr)

theorem passesError_comparison (test : Ordering → Bool) :
    PassesError l r (.ok (comparison test l r)) := by
  unfold comparison
  by_cases hl : l.isError
  · rw [if_pos hl]
    exact .of_left hl rfl
  · rw [if_neg hl]
    have hl := asError?_of_not_isError hl
    by_cases hr : r.isError
    · rw [if_pos hr]
      exact .of_right hl rfl
    · rw [if_neg hr]
      exact .of_sound hl (asError?_of_not_isError hr) (.ok rfl)

end operators

end Value

open Value

namespace BinaryOperator

/-- Whether an error operand is always the result. Equality is a test of errors, too. -/
def PassesErrors : BinaryOperator → Prop
  | equal | notEqual => False
  | _ => True

theorem passesError_apply {op : BinaryOperator} (h : op.PassesErrors) (l r : Value) :
    PassesError l r (op.apply l r) := by
  cases op with
  | plus =>
    refine passesError_passing (f := fun a b => sum a.expandRange b.expandRange) fun hl hr => ?_
    exact sound_sum (by simpa using hl) (by simpa using hr)
  | minus =>
    refine passesError_passing (f := fun a b => difference a.expandRange b) fun hl _ => ?_
    exact sound_difference (by simpa using hl)
  | multiply => exact passesError_passing fun _ _ => sound_product
  | divide => exact passesError_passing fun _ _ => sound_quotient
  | modulus => exact passesError_passing fun _ _ => sound_remainder
  | equal | notEqual => exact h.elim
  | _ => exact passesError_comparison _

/-- The method that goes by the name of an operator. -/
def method : BinaryOperator → Method
  | plus => .plus
  | minus => .minus
  | multiply => .multiply
  | divide => .divide
  | modulus => .modulus
  | lessThan => .lessThan
  | greaterThan => .greaterThan
  | lessEqual => .lessEqual
  | greaterEqual => .greaterEqual
  | equal => .equalTo
  | notEqual => .notEqualTo

theorem outcome_method (op : BinaryOperator) (v w u : Value) :
    op.method.outcome v w u = op.apply v w := by
  cases op <;> rfl

end BinaryOperator

/-- A tree of operations that pass errors on, over values without nodes. -/
inductive Calculation where
  | leaf (v : Value) (settled : v.NodeFree)
  | operation (op : BinaryOperator) (passes : op.PassesErrors) (left right : Calculation)

namespace Calculation

/-- Evaluates a tree by the methods of values, the left operand before the right one. -/
def eval : Calculation → Eval Value
  | leaf v _ => return v
  | operation op _ l r => do
    let v ← l.eval
    let w ← holding v.held r.eval
    op.method.call v w .void

/-- The leaves from left to right. -/
def leaves : Calculation → List Value
  | leaf v _ => [v]
  | operation _ _ l r => l.leaves ++ r.leaves

/-- The tree and all trees inside it. -/
def parts : Calculation → List Calculation
  | leaf v settled => [leaf v settled]
  | operation op passes l r => operation op passes l r :: (l.parts ++ r.parts)

/-- The leftmost error among the leaves. -/
def firstError? (t : Calculation) : Option EvalError := t.leaves.findSome? asError?

theorem firstError?_operation {op : BinaryOperator} {passes : op.PassesErrors}
    {l r : Calculation} :
    (operation op passes l r).firstError? = l.firstError?.or r.firstError? :=
  List.findSome?_append

/-- An error is raised in a part without errors among its leaves. -/
def Raises (t : Calculation) (e : EvalError) : Prop :=
  ∃ part ∈ t.parts, part.firstError? = none ∧ part.eval = raise e

theorem Raises.left {op : BinaryOperator} {passes : op.PassesErrors} {l r : Calculation}
    {e : EvalError} (h : l.Raises e) : (operation op passes l r).Raises e := by
  obtain ⟨part, inside, rest⟩ := h
  exact ⟨part, List.mem_cons_of_mem _ (List.mem_append_left _ inside), rest⟩

theorem Raises.right {op : BinaryOperator} {passes : op.PassesErrors} {l r : Calculation}
    {e : EvalError} (h : r.Raises e) : (operation op passes l r).Raises e := by
  obtain ⟨part, inside, rest⟩ := h
  exact ⟨part, List.mem_cons_of_mem _ (List.mem_append_right _ inside), rest⟩

/-- What the evaluation of a tree comes to. -/
structure ComesTo (t : Calculation) (r : Except EvalError Value) : Prop where
  evaluated : t.eval = ofExcept r
  settled : Settled r
  value : ∀ v, r = .ok v → v.asError? = t.firstError?
  raised : ∀ e, r = .error e → t.Raises e

section operation

variable {op : BinaryOperator} {passes : op.PassesErrors} {l r : Calculation} {v w : Value}
  {e : EvalError}

theorem ComesTo.left_error (hl : l.ComesTo (.error e)) :
    (operation op passes l r).ComesTo (.error e) where
  evaluated := by
    rw [eval, hl.evaluated]
    rfl
  settled := settled_error e
  value := nofun
  raised e' h := Except.error.inj h ▸ (hl.raised e rfl).left

theorem ComesTo.right_error (hl : l.ComesTo (.ok v)) (hr : r.ComesTo (.error e)) :
    (operation op passes l r).ComesTo (.error e) where
  evaluated := by
    rw [eval, hl.evaluated, hr.evaluated]
    rfl
  settled := settled_error e
  value := nofun
  raised e' h := Except.error.inj h ▸ (hr.raised e rfl).right

/-- Where both operands have values the operation decides, and it sees an error among them just if
there is one among the leaves. -/
theorem ComesTo.operation (hl : l.ComesTo (.ok v)) (hr : r.ComesTo (.ok w)) :
    ∃ s, (operation op passes l r).ComesTo s := by
  obtain ⟨s, called, alike⟩ :=
    op.method.call_returns (u := .void) (hl.settled v rfl) (hr.settled w rfl)
  rw [op.outcome_method] at alike
  have evaluated : (Calculation.operation op passes l r).eval = ofExcept s := by
    rw [eval, hl.evaluated, hr.evaluated]
    exact called
  have first : (Calculation.operation op passes l r).firstError? = v.asError?.or w.asError? := by
    rw [firstError?_operation, hl.value v rfl, hr.value w rfl]
  have passed := BinaryOperator.passesError_apply passes v w
  have settled := op.settled_apply (hl.settled v rfl) (hr.settled w rfl)
  cases applied : op.apply v w with
  | error e =>
    rw [applied] at alike
    cases s with
    | ok u => cases alike
    | error e' =>
      cases Except.error.inj alike
      have sound := first.trans (passed.raised e applied)
      exact ⟨_, evaluated, settled_error e, nofun, fun e' h =>
        ⟨_, List.mem_cons_self, sound, Except.error.inj h ▸ evaluated⟩⟩
  | ok u =>
    rw [applied] at alike
    cases s with
    | error e => cases alike
    | ok u' =>
      have same : u'.bare = u.bare := Except.ok.inj alike
      refine ⟨_, evaluated, settled_ok (.of_bare same (settled u applied)), fun x hx => ?_, nofun⟩
      rw [← Except.ok.inj hx, ← asError?_bare, same, asError?_bare, passed.value u applied, first]

end operation

theorem exists_comesTo (t : Calculation) : ∃ r, t.ComesTo r := by
  induction t with
  | leaf v settled =>
    refine ⟨.ok v, rfl, settled_ok settled, fun u hu => ?_, nofun⟩
    cases hu
    simp [firstError?, leaves]
  | operation op passes l r ihl ihr =>
    obtain ⟨rl, hl⟩ := ihl
    obtain ⟨rr, hr⟩ := ihr
    cases rl with
    | error e => exact ⟨_, hl.left_error⟩
    | ok v =>
      cases rr with
      | error e => exact ⟨_, hl.right_error hr⟩
      | ok w => exact hl.operation hr

/-- A tree either gives a value, which is the leftmost error among the leaves as it is there, and no
error if none of them is one; or an error is raised by a part without errors among its leaves. -/
theorem leftmost_error_passes (t : Calculation) :
    ∃ r, t.eval = ofExcept r ∧
      (∀ v, r = .ok v → v.asError? = t.leaves.findSome? asError?) ∧
      (∀ e, r = .error e → ∃ part ∈ t.parts,
        (∀ leaf ∈ part.leaves, leaf.asError? = none) ∧ part.eval = raise e) := by
  obtain ⟨r, comes⟩ := t.exists_comesTo
  refine ⟨r, comes.evaluated, comes.value, fun e he => ?_⟩
  obtain ⟨part, inside, sound, raised⟩ := comes.raised e he
  exact ⟨part, inside, List.findSome?_eq_none_iff.mp sound, raised⟩

end Calculation
end ReactiveScript
