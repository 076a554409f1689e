import ReactiveScript.Method
import ReactiveScript.Proofs.Containers
import ReactiveScript.Proofs.Outcomes
import ReactiveScript.Proofs.WellKeyed

/-!
# Methods of values without nodes

On values without nodes a method does nothing but give a result, which is that of a plain function
of the operands (`Method.outcome`). Up to tags the result is determined by the operands up to tags:
metadata never influences what a method gives.
-/

namespace ReactiveScript

open Eval Value

/-- An evaluation gives a result up to tags and does nothing besides: it carries out no task and
leaves the world as it is. -/
def Eval.Returns (x : Eval Value) (r : Except EvalError Value) : Prop :=
  ∃ s, x = Eval.ofExcept s ∧ s.map bare = r.map bare

namespace Eval.Returns

variable {x : Eval Value} {r : Except EvalError Value} {v w u : Value}

theorem ofExcept {s : Except EvalError Value} (h : s.map bare = r.map bare) :
    (Eval.ofExcept s).Returns r := ⟨s, rfl, h⟩

theorem pure (h : u.bare = v.bare) : (Pure.pure u : Eval Value).Returns (.ok v) :=
  ofExcept (s := .ok u) (congrArg Except.ok h)

theorem holding (held : List Held) (h : x.Returns r) : (Eval.holding held x).Returns r := by
  obtain ⟨s, rfl, hs⟩ := h
  cases s <;> exact ⟨_, rfl, hs⟩

theorem exists_eq_pure (h : x.Returns (.ok v)) : ∃ u, x = Pure.pure u ∧ u.bare = v.bare := by
  obtain ⟨s, rfl, hs⟩ := h
  cases s with
  | error e => cases hs
  | ok u => exact ⟨u, rfl, Except.ok.inj hs⟩

/-- What is done with a result up to tags may depend on its tags. -/
theorem bind {f : Value → Eval Value} (h : x.Returns (.ok v))
    (hf : ∀ u, u.bare = v.bare → (f u).Returns r) : (x >>= f).Returns r := by
  obtain ⟨u, rfl, hu⟩ := h.exists_eq_pure
  exact hf u hu

theorem fix (hv : v.NodeFree) (depth : Nat) : (Eval.fix v depth).Returns (.ok v) := by
  obtain ⟨u, forced, hu⟩ := force_nodeFree false v hv depth
  rw [Eval.fix, forced]
  exact .pure hu

theorem fixDeep (hv : v.NodeFree) : (Eval.fixDeep v).Returns (.ok v) := by
  refine .bind (.fix hv unboundedDepth) fun u hu => ?_
  have settled : u.containsNode = false := NodeFree.of_bare hu hv
  rw [settled]
  exact .pure hu

theorem onConcrete {f : Value → Value} (hv : v.NodeFree)
    (hf : ∀ u, u.bare = v.bare → (Except.ok (f u)).map bare = r.map bare) :
    (Eval.onConcrete f v).Returns r :=
  .bind (.fix hv 1) fun u hu => .ofExcept (s := .ok (f u)) (hf u hu)

theorem onOperands {f : Value → Value → Except EvalError Value} (hv : v.NodeFree) (hw : w.NodeFree)
    (hf : ∀ u u', u.bare = v.bare → u'.bare = w.bare → (f u u').map bare = r.map bare) :
    (Eval.onOperands f v w).Returns r :=
  .bind (.fix hv 1) fun u hu =>
    .bind (.holding _ (.fixDeep hw)) fun u' hu' => .ofExcept (hf u u' hu hu')

theorem onSettled {f : Value → Value → Value} (hv : v.NodeFree) (hw : w.NodeFree)
    (hf : ∀ u u', u.bare = v.bare → u'.bare = w.bare →
      (Except.ok (f u u')).map bare = r.map bare) :
    (Eval.onSettled f v w).Returns r :=
  .bind (.fixDeep hv) fun u hu =>
    .bind (.holding _ (.fixDeep hw)) fun u' hu' => .ofExcept (s := .ok (f u u')) (hf u u' hu hu')

end Eval.Returns

/-- The result of a connective of two values. -/
def Connective.apply (op : Connective) (l r : Value) : Value := (op.decision? l).getD (truthOf r)

theorem Connective.apply_bare (op : Connective) (l r : Value) :
    op.apply l.bare r.bare = (op.apply l r).bare := by
  rw [apply, decision?_bare, truthOf_bare, apply]
  cases op.decision? l <;> rfl

theorem Value.Hereditary.connective {keyed : Prop} {P : Value → Prop} (hP : Hereditary keyed P)
    (op : Connective) {v w : Value} (hv : P v) (hw : P w) : P (op.apply v w) := by
  unfold Connective.apply
  cases h : op.decision? v with
  | none => exact hP.truthOf hw
  | some result => exact hP.decision hv h

namespace Method

/-- The result of a method on values without nodes. -/
def outcome : Method → Value → Value → Value → Except EvalError Value
  | plus, v, w, _ => v.plus w
  | minus, v, w, _ => v.minus w
  | multiply, v, w, _ => v.multiply w
  | divide, v, w, _ => v.divide w
  | modulus, v, w, _ => v.modulus w
  | get, v, key, _ => v.get key
  | append, v, item, _ => .ok (v.append item)
  | prepend, v, item, _ => .ok (v.prepend item)
  | set, v, key, w => v.set key w
  | containsKey, v, key, _ => .ok (.bool (v.containsKey key))
  | has, v, item, _ => .ok (.bool (v.has item))
  | lessThan, v, w, _ => .ok (v.lessThan w)
  | greaterThan, v, w, _ => .ok (v.greaterThan w)
  | lessEqual, v, w, _ => .ok (v.lessEqual w)
  | greaterEqual, v, w, _ => .ok (v.greaterEqual w)
  | equalTo, v, w, _ => .ok (v.equalTo w)
  | notEqualTo, v, w, _ => .ok (v.notEqualTo w)
  | and, v, w, _ => .ok (Connective.and.apply v w)
  | or, v, w, _ => .ok (Connective.or.apply v w)
  | negate, v, _, _ => .ok v.negate
  | abs, v, _, _ => .ok v.abs
  | size, v, _, _ => .ok v.size
  | not, v, _, _ => .ok v.logicalNot
  | fixDeep, v, _, _ => .ok v
  | fix _, v, _, _ => .ok v
  | cast target, v, _, _ => v.cast target
  | equals, v, w, _ => .ok (.bool (v.same w))
  | truthy, v, _, _ => .ok (.bool v.isTrue)
  | same, v, w, _ => .ok (.bool (v.same w))
  | compare, v, w, _ => .ok (sign (v.compare? w))
  | untagged, v, _, _ => .ok v.untagged
  | tag info, v, _, _ => .ok (v.withMetadata info)
  | display, v, _, _ => .ok (.str v.display)
  | toJson, v, _, _ => .ok (.str v.toJson.text)
  | throughJson, v, _, _ => .ok (ofJson v.toJson)
  | readJson, v, _, _ => Value.readJson (v.asText?.getD "")

theorem outcome_bare (m : Method) (v w u : Value) :
    (m.outcome v.bare w.bare u.bare).map bare = (m.outcome v w u).map bare := by
  have done {r s : Except EvalError Value} (h : r = s.map bare) : r.map bare = s.map bare := by
    subst h
    cases s <;> simp [map_bare_ok, map_bare_error]
  cases m with
  | plus => exact done (plus_bare v w)
  | minus => exact done (minus_bare v w)
  | multiply => exact done (multiply_bare v w)
  | divide => exact done (divide_bare v w)
  | modulus => exact done (modulus_bare v w)
  | get => exact done (get_bare v w)
  | append => exact done (congrArg Except.ok (append_bare v w))
  | prepend => exact done (congrArg Except.ok (prepend_bare v w))
  | set => exact done (set_bare v w u)
  | containsKey => exact done (congrArg (Except.ok ∘ bool) (containsKey_bare v w))
  | has => exact done (congrArg (Except.ok ∘ bool) (has_bare v w))
  | lessThan | greaterThan | lessEqual | greaterEqual =>
    exact done (congrArg Except.ok (comparison_bare _ v w))
  | equalTo => exact done (congrArg Except.ok (equalTo_bare v w))
  | notEqualTo => exact done (congrArg Except.ok (notEqualTo_bare v w))
  | and | or => exact done (congrArg Except.ok (Connective.apply_bare _ v w))
  | negate => exact done (congrArg Except.ok (negate_bare v))
  | abs => exact done (congrArg Except.ok (abs_bare v))
  | size => exact done (congrArg Except.ok (size_bare v))
  | not => exact done (congrArg Except.ok (logicalNot_bare v))
  | fixDeep | fix _ => exact done rfl
  | cast target => exact done (cast_bare v target)
  | equals | same => exact done (congrArg (Except.ok ∘ bool) (same_bare v w))
  | truthy => exact done (congrArg (Except.ok ∘ bool) (isTrue_bare v))
  | compare => exact congrArg (fun o => (Except.ok (sign o)).map bare) (compare?_bare v w)
  | untagged => exact done (congrArg Except.ok ((untagged_bare v).trans (bare_untagged v).symm))
  | tag info => exact congrArg Except.ok (by simp)
  | display => exact done (congrArg (Except.ok ∘ str) (display_bare v))
  | toJson => exact congrArg (fun t : JsonTree => Except.ok (str t.text)) (toJson_bare v)
  | throughJson => exact congrArg (fun t => (Except.ok (ofJson t)).map bare) (toJson_bare v)
  | readJson =>
    simp only [outcome]
    rw [asText?_bare]

theorem outcome_congr (m : Method) {v v' w w' u u' : Value} (hv : v.bare = v'.bare)
    (hw : w.bare = w'.bare) (hu : u.bare = u'.bare) :
    (m.outcome v w u).map bare = (m.outcome v' w' u').map bare := by
  rw [← outcome_bare, hv, hw, hu, outcome_bare]

/-- A method hands on what lists, maps and tagged values have by what is in them. -/
theorem outcome_hereditary {keyed : Prop} {P : Value → Prop} (hP : Hereditary keyed P) (m : Method)
    {v w u : Value} (hv : P v) (hw : P w) (hu : P u) : Yields P (m.outcome v w u) := by
  cases m with
  | plus => exact hP.plus hv hw
  | minus => exact hP.minus hv hw
  | multiply => exact hP.multiply hv hw
  | divide => exact hP.divide hv hw
  | modulus => exact hP.modulus hv hw
  | get => exact hP.get hv w
  | append => exact .ok (hP.appended hv hw)
  | prepend => exact .ok (hP.prepended hv hw)
  | set => exact hP.set hv w hu
  | lessThan | greaterThan | lessEqual | greaterEqual => exact .ok (hP.comparison _ hv hw)
  | equalTo => exact .ok (hP.equalTo hv hw)
  | notEqualTo => exact .ok (hP.notEqualTo hv hw)
  | and | or => exact .ok (hP.connective _ hv hw)
  | negate => exact .ok (hP.negate hv)
  | abs => exact .ok (hP.abs hv)
  | size => exact .ok (hP.size hv)
  | not => exact .ok (hP.logicalNot hv)
  | fixDeep | fix _ => exact .ok hv
  | cast target => exact hP.cast hv target
  | untagged => exact .ok (hP.untagged.mpr hv)
  | tag info => exact .ok (hP.withMetadata hv info)
  | throughJson => exact .ok (hP.ofJson _)
  | readJson => exact hP.readJson _
  | compare =>
    refine .ok ?_
    rcases v.compare? w with _ | (_ | _ | _) <;> exact hP.datum trivial
  | _ => exact .ok (hP.datum trivial)

/-- No method makes a key of a map occur twice. -/
theorem outcome_wellKeyed (m : Method) {v w u r : Value} (hv : v.WellKeyed) (hw : w.WellKeyed)
    (hu : u.WellKeyed) (h : m.outcome v w u = .ok r) : r.WellKeyed :=
  m.outcome_hereditary wellKeyed_hereditary hv hw hu r h

/-- A connective of values without nodes gives its result, whether or not it forces the right one. -/
theorem connective_returns (op : Connective) {v w : Value} (hv : v.NodeFree) (hw : w.NodeFree) :
    (evaluateBinary op.operator v w).Returns (.ok (op.apply v w)) := by
  rw [evaluateBinary_connective]
  refine .bind (.fix hv 1) fun l hl => ?_
  have decided : (op.decision? l).map bare = (op.decision? v).map bare := by
    rw [← op.decision?_bare, hl, op.decision?_bare]
  rw [Connective.apply]
  cases hd : op.decision? v with
  | some result =>
    rw [hd] at decided
    obtain ⟨result', hl', hb⟩ := Option.map_eq_some_iff.mp decided
    rw [hl']
    exact .pure hb
  | none =>
    rw [hd, Option.map_none, Option.map_eq_none_iff] at decided
    rw [decided]
    refine .holding _ (.onConcrete hw fun r hr => congrArg Except.ok ?_)
    rw [← Connective.truthOf_bare, hr, Connective.truthOf_bare]
    rfl

/-- A method of values without nodes only gives its outcome. -/
theorem call_returns (m : Method) {v w u : Value} (hv : v.NodeFree) (hw : w.NodeFree) :
    (m.call v w u).Returns (m.outcome v w u) := by
  have congr (l l' : Value) (hl : l.bare = v.bare) (hl' : l'.bare = w.bare) :
      (m.outcome l l' u).map bare = (m.outcome v w u).map bare := m.outcome_congr hl hl' rfl
  have congr₁ (l : Value) (hl : l.bare = v.bare) :
      (m.outcome l w u).map bare = (m.outcome v w u).map bare := congr l w hl rfl
  cases m with
  | plus | minus | multiply | divide | modulus | get | set | containsKey | has =>
    exact .onOperands hv hw congr
  | lessThan | greaterThan | lessEqual | greaterEqual | equalTo | notEqualTo =>
    exact .onSettled hv hw congr
  | append | prepend | negate | abs | size | not => exact .onConcrete hv congr₁
  | cast target => exact .bind (.fix hv 1) fun l hl => .ofExcept (congr₁ l hl)
  | truthy =>
    simp only [call, Eval.truthy, bind_assoc, pure_bind]
    exact .bind (.fix hv 1) fun l hl => .ofExcept (congr₁ l hl)
  | equals =>
    simp only [call, Eval.equals, bind_assoc, pure_bind]
    exact .bind (.fixDeep hv) fun l hl =>
      .bind (.holding _ (.fixDeep hw)) fun l' hl' => .ofExcept (congr l l' hl hl')
  | fixDeep => exact .fixDeep hv
  | fix depth => exact .fix hv depth
  | and => exact connective_returns .and hv hw
  | or => exact connective_returns .or hv hw
  | same | compare | untagged | tag _ | display | toJson | throughJson =>
    exact .pure rfl
  | readJson => exact .ofExcept rfl

/-- Operands that differ only in tags, anywhere inside them, give results that differ only in tags,
or the same error; the JSON trees of the operands are the same. -/
theorem apply_ignores_tags (m : Method) {operands operands' : List Value}
    (settled : ∀ v ∈ operands, v.NodeFree) (alike : operands.map bare = operands'.map bare) :
    ∃ r r', m.apply operands = Eval.ofExcept r ∧ m.apply operands' = Eval.ofExcept r' ∧
      r.map bare = r'.map bare ∧
      operands.map Value.toJson = operands'.map Value.toJson := by
  have bare_nth (vs : List Value) (i : Nat) :
      (vs[i]?.getD void).bare = (vs.map bare)[i]?.getD void := by
    rw [List.getElem?_map]
    exact (Option.getD_map bare void vs[i]?).symm
  have operand (i : Nat) : (operands[i]?.getD void).bare = (operands'[i]?.getD void).bare := by
    rw [bare_nth, alike, bare_nth]
  have free (i : Nat) : (operands[i]?.getD void).NodeFree := by
    cases h : operands[i]? with
    | none => rfl
    | some v => exact settled v (List.mem_of_getElem? h)
  have free' (i : Nat) : (operands'[i]?.getD void).NodeFree := .of_bare (operand i).symm (free i)
  obtain ⟨r, given, hr⟩ := m.call_returns (u := operands[2]?.getD void) (free 0) (free 1)
  obtain ⟨r', given', hr'⟩ := m.call_returns (u := operands'[2]?.getD void) (free' 0) (free' 1)
  refine ⟨r, r', given, given', ?_, ?_⟩
  · rw [hr, hr']
    exact m.outcome_congr (operand 0) (operand 1) (operand 2)
  · have trees := congrArg (List.map Value.toJson) alike
    simpa only [List.map_map, Function.comp_def, toJson_bare] using trees

/-- A list and one of its items, with notes on the list, on an item inside it and on the item. -/
def notedOperands : List Value :=
  let note : Metadata := { note := some "checked" }
  [.tagged (.list [.tagged (.int 1) note, .map [("a", .tagged .void note)], .str "b"]) note,
    .tagged (.str "b") note]

/-- The same operands with another note, and that elsewhere. -/
def renotedOperands : List Value :=
  [.list [.int 1, .tagged (.map [("a", .void)]) { integer := some 3 }, .str "b"], .str "b"]

theorem notes_do_not_show_in_difference :
    (∀ v ∈ notedOperands, v.NodeFree) ∧ notedOperands.map bare = renotedOperands.map bare ∧
      ∃ r r', minus.apply notedOperands = Eval.ofExcept r ∧
        minus.apply renotedOperands = Eval.ofExcept r' ∧ r.map bare = r'.map bare ∧
        notedOperands.map Value.toJson = renotedOperands.map Value.toJson := by
  have settled : ∀ v ∈ notedOperands, v.NodeFree := by
    intro v hv
    simp only [notedOperands, List.mem_cons, List.not_mem_nil, or_false] at hv
    rcases hv with rfl | rfl <;> rfl
  have alike : notedOperands.map bare = renotedOperands.map bare := rfl
  exact ⟨settled, alike, minus.apply_ignores_tags settled alike⟩

end Method
end ReactiveScript
