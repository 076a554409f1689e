import ReactiveScript.Proofs.Equality
import ReactiveScript.Proofs.IntegerCasts

/-!
# The types of casts

A cast gives a value of the type that it names, or it is refused. A value that has this type already
is left as it is, and so casts are idempotent. Only an error is passed on in place of a value of the
type.
-/

namespace ReactiveScript

open Eval

namespace OrderedMap

variable {α : Type}

/-- The items of a list, each under the key of its position, one after the other. -/
def ofItems (items : List α) : OrderedMap α :=
  ofPairs (items.zipIdx.map fun (a, i) => (positionKey i, a))

/-- No two positions have the same key, so that no item displaces another one. -/
theorem ofItems_eq (items : List α) :
    ofItems items = items.zipIdx.map fun (a, i) => (positionKey i, a) :=
  ofPairs_of_uniqueKeys (uniqueKeys_zipIdx items)

theorem values_ofItems (items : List α) : (ofItems items).values = items := by
  rw [ofItems_eq, values, List.map_map]
  exact List.zipIdx_map_fst 0 items

end OrderedMap

namespace Value

variable {v u : Value} {target : TypeTag}

theorem typeTag?_untagged (v : Value) : v.untagged.typeTag? = v.typeTag? := by
  rw [typeTag?, untagged_untagged, typeTag?]

theorem typeName_untagged (v : Value) : v.untagged.typeName = v.typeName := by
  rw [typeName, untagged_untagged, typeName]

theorem cast_untagged (v : Value) (target : TypeTag) : v.untagged.cast target = v.cast target := by
  cases target <;> rw [cast, untagged_untagged, cast]

theorem cast_error (h : v.isError = true) (target : TypeTag) : v.cast target = .ok v.untagged :=
  if_pos ((isError_untagged v).trans h)

/-- To some types everything can be cast. -/
theorem cast_total (h : v.isError = false)
    (total : target ∈ [TypeTag.boolean, .string, .list, .map, .void]) :
    ∃ u, v.cast target = .ok u ∧ u.untagged = u ∧ u.typeTag? = some target := by
  have other : ¬ v.untagged.isError = true := by rw [isError_untagged, h]; exact Bool.false_ne_true
  cases target with
  | boolean => exact ⟨bool v.untagged.toBool, if_neg other, rfl, rfl⟩
  | string => exact ⟨str v.untagged.display, if_neg other, rfl, rfl⟩
  | list => exact ⟨list v.untagged.toItems, if_neg other, rfl, rfl⟩
  | map => exact ⟨map v.untagged.toEntries, if_neg other, rfl, rfl⟩
  | void => exact ⟨void, if_neg other, rfl, rfl⟩
  | _ => exact absurd total (by decide)

theorem cast_refused (h : v.isError = false) (refused : target.isCastTarget = false) :
    v.cast target = .error (EvalError.invalidCast v.typeName target.name) := by
  rw [← isError_untagged] at h
  rw [← typeName_untagged]
  cases target with
  | range | error | any =>
    rw [cast, h]
    rfl
  | _ => cases refused

/-- A cast of anything but an error gives a value of the type or is refused. -/
theorem cast_cases (h : v.isError = false) (target : TypeTag) :
    (∃ u, v.cast target = .ok u ∧ u.untagged = u ∧ u.typeTag? = some target) ∨
      v.cast target = .error (EvalError.invalidCast v.typeName target.name) := by
  cases target with
  | boolean | string | list | map | void => exact .inl (cast_total h (by decide))
  | range | error | any => exact .inr (cast_refused h rfl)
  | decimal =>
    rw [← isError_untagged] at h
    rw [← typeName_untagged, cast, h]
    cases v.untagged.toDecimal? with
    | none => exact .inr rfl
    | some d => exact .inl ⟨decimal d, rfl, rfl, rfl⟩
  | integer =>
    rw [← isError_untagged] at h
    rw [← typeName_untagged, cast, h]
    cases v.untagged.toInteger? with
    | none => exact .inr rfl
    | some n => exact .inl ⟨int n, rfl, rfl, rfl⟩

/-- A value of the type is left as it is; only to a range not even a range can be cast. -/
theorem cast_of_typeTag? (type : v.typeTag? = some target) (castable : target.isCastTarget = true) :
    v.cast target = .ok v.untagged := by
  rw [← typeTag?_untagged] at type
  rw [← cast_untagged]
  have concrete := v.untagged_untagged
  generalize v.untagged = u at type concrete ⊢
  cases u with
  | range _ | error _ =>
    cases type
    cases castable
  | tagged w m => exact absurd concrete (untagged_ne_tagged _ _ _)
  | node _ | resource _ => cases type
  | _ =>
    cases type
    rfl

/-- What a cast gives is the error that was there, or a value of the type. -/
theorem cast_ok (h : v.cast target = .ok u) : v.isError = true ∧ u = v.untagged ∨
    target.isCastTarget = true ∧ u.untagged = u ∧ u.typeTag? = some target := by
  cases noError : v.isError with
  | true =>
    cases (cast_error noError target).symm.trans h
    exact .inl ⟨rfl, rfl⟩
  | false =>
    cases castable : target.isCastTarget with
    | false => cases (cast_refused noError castable).symm.trans h
    | true =>
      rcases cast_cases noError target with ⟨w, given, typed⟩ | refused
      · cases given.symm.trans h
        exact .inr ⟨rfl, typed⟩
      · cases refused.symm.trans h

/-- What a cast gives is left as it is by the same cast. -/
theorem cast_cast (h : v.cast target = .ok u) : u.cast target = .ok u := by
  rcases cast_ok h with ⟨error, rfl⟩ | ⟨castable, concrete, type⟩
  · rw [cast_untagged, cast_error error]
  · rw [cast_of_typeTag? type castable, concrete]

theorem isNode_of_cast (plain : v.isNode = false) (h : v.cast target = .ok u) :
    u.isNode = false := by
  rcases cast_ok h with ⟨-, rfl⟩ | ⟨-, concrete, type⟩
  · rw [isNode_untagged, plain]
  · cases u with
    | node n => cases type
    | tagged w m => exact absurd concrete (untagged_ne_tagged _ _ _)
    | _ => rfl

theorem cast_list {items : List Value} (hv : v.untagged = list items) :
    v.cast .map = .ok (map (OrderedMap.ofItems items)) := by
  rw [cast, hv, OrderedMap.ofItems_eq]
  rfl

end Value

open Value

/-- An evaluation that gives a value has not failed. -/
theorem Eval.ofExcept_eq_pure {α : Type} {r : Except EvalError α} {a : α}
    (h : ofExcept r = pure a) : r = .ok a := by
  have ends := congrFun (congrFun h fun _ w => (.error .exhausted, w)) {}
  cases r with
  | ok b =>
    cases ends
    rfl
  | error e => cases ends

theorem Method.cast_call_eq {v : Value} (plain : v.isNode = false) (target : TypeTag) (x y : Value) :
    (cast target).call v x y = ofExcept (v.cast target) := by
  rw [cast_call plain, ← cast_untagged, untagged_joined, cast_untagged]

/-- A cast of an error gives the error. Any other cast gives a value of the type, or it is refused:
never if the type is one of five, and always if it is one of three others. A value that has the type
already is left as it is, so that the same cast changes nothing in what a cast gives. A list becomes
a map whose entries are its items in their order, each under a key of its own. -/
theorem casts_typed_and_idempotent {v : Value} (keyed : v.WellKeyed) (plain : v.isNode = false)
    (target : TypeTag) (x y : Value) :
    (v.isError = true → (Method.cast target).call v x y = pure v.untagged ∧
      v.untagged.same v = true) ∧
    (v.isError = false →
      ((∃ u, (Method.cast target).call v x y = pure u ∧ u.typeTag? = some target) ∨
        (Method.cast target).call v x y =
          raise (EvalError.invalidCast v.typeName target.name)) ∧
      (target ∈ [TypeTag.boolean, .string, .list, .map, .void] →
        ∃ u, (Method.cast target).call v x y = pure u ∧ u.typeTag? = some target) ∧
      (target ∈ [TypeTag.range, .error, .any] → (Method.cast target).call v x y =
        raise (EvalError.invalidCast v.typeName target.name))) ∧
    (target.isCastTarget = true → v.typeTag? = some target →
      (Method.cast target).call v x y = pure v.untagged) ∧
    (∀ u, (Method.cast target).call v x y = pure u →
      (Method.cast target).call u x y = pure u ∧ u.same u = true) ∧
    ∀ items : List Value, v.untagged = .list items →
      ∃ entries : OrderedMap Value, (Method.cast .map).call v x y = pure (.map entries) ∧
        entries = OrderedMap.ofItems items ∧ entries.UniqueKeys ∧ entries.values = items := by
  have calls := Method.cast_call_eq plain target x y
  refine ⟨fun error => ⟨?_, ?_⟩, fun noError => ⟨?_, fun total => ?_, fun refused => ?_⟩,
    fun castable type => ?_, fun u given => ?_,
    fun items list => ⟨OrderedMap.ofItems items, ?_, rfl, ?_, ?_⟩⟩
  · rw [calls, cast_error error]
    rfl
  · rw [untagged_same, same_self keyed]
  · rw [calls]
    rcases cast_cases noError target with ⟨u, given, -, type⟩ | refused
    · exact .inl ⟨u, given ▸ rfl, type⟩
    · exact .inr (refused ▸ rfl)
  · obtain ⟨u, given, -, type⟩ := cast_total noError total
    exact ⟨u, calls.trans (given ▸ rfl), type⟩
  · have castable : target.isCastTarget = false := by
      cases target <;> first | rfl | exact absurd refused (by decide)
    rw [calls, cast_refused noError castable]
    rfl
  · rw [calls, cast_of_typeTag? type castable]
    rfl
  · have result := ofExcept_eq_pure (calls.symm.trans given)
    have keyed' : u.WellKeyed := wellKeyed_hereditary.cast keyed target u result
    refine ⟨?_, same_self keyed'⟩
    rw [Method.cast_call_eq (isNode_of_cast plain result), cast_cast result]
    rfl
  · rw [Method.cast_call_eq plain, cast_list list]
    rfl
  · rw [OrderedMap.ofItems_eq]
    exact OrderedMap.uniqueKeys_zipIdx items
  · exact OrderedMap.values_ofItems items

/-- A list with a tag, whose items are a text and a node. -/
def textAndNode : Value := .tagged (.list [.str "a", .node ⟨7, "sum"⟩]) { integer := some 2 }

theorem text_and_node_cast :
    textAndNode.WellKeyed ∧ textAndNode.isNode = false ∧ textAndNode.isError = false ∧
      (∃ u, (Method.cast .string).call textAndNode .void .void = pure u ∧
        u.typeTag? = some .string ∧ (Method.cast .string).call u .void .void = pure u) ∧
      (Method.cast .range).call textAndNode .void .void =
        raise (EvalError.invalidCast "LIST" "RANGE") ∧
      ∃ entries : OrderedMap Value,
        (Method.cast .map).call textAndNode .void .void = pure (.map entries) ∧
        entries.UniqueKeys ∧ entries.values = [.str "a", .node ⟨7, "sum"⟩] := by
  have keyed : textAndNode.WellKeyed := by
    refine .tagged _ (.list fun v hv => ?_)
    rcases List.mem_cons.mp hv with rfl | hv
    · exact .atom trivial
    · exact List.mem_singleton.mp hv ▸ .atom trivial
  obtain ⟨-, typed, -, again, -⟩ := casts_typed_and_idempotent keyed rfl .string .void .void
  obtain ⟨-, refused, -, -, lists⟩ := casts_typed_and_idempotent keyed rfl .range .void .void
  obtain ⟨u, given, type⟩ := (typed rfl).2.1 (by decide)
  obtain ⟨entries, made, -, unique, values⟩ := lists _ rfl
  exact ⟨keyed, rfl, rfl, ⟨u, given, type, (again u given).1⟩, (refused rfl).2.2 (by decide),
    entries, made, unique, values⟩

end ReactiveScript
