import ReactiveScript.Proofs.Extension
import Mathlib.Order.Bounds.Basic

/-!
# Free keys

An item without a key of its own is entered into a map under the key of a position. The positions
from the size of the map on are tried one after the other, without a bound. Each one that is taken
costs one entry of the map, so that the search ends after at most one more attempt than there are
entries, at the least position whose key is free. What is entered under it displaces nothing.
-/

namespace ReactiveScript

open Eval

namespace OrderedMap

variable {α : Type} {m : OrderedMap α} {index count found : Nat}

/-- The search from a position looks up a number of keys and ends at a position. -/
inductive Probes (m : OrderedMap α) : Nat → Nat → Nat → Prop
  | free {index : Nat} (absent : positionKey index ∉ m.keys) : Probes m index 1 index
  | taken {index count found : Nat} (present : positionKey index ∈ m.keys)
      (later : Probes m (index + 1) count found) : Probes m index (count + 1) found

/-- By induction on the search: it has looked at every position before the one it ends at. -/
theorem Probes.isLeast (h : Probes m index count found) :
    IsLeast {i | index ≤ i ∧ positionKey i ∉ m.keys} found := by
  induction h with
  | free absent => exact ⟨⟨Nat.le_refl _, absent⟩, fun i hi => hi.1⟩
  | @taken index count found present later ih =>
    obtain ⟨⟨after, absent⟩, least⟩ := ih
    refine ⟨⟨Nat.le_of_succ_le after, absent⟩, fun i hi => ?_⟩
    have other : i ≠ index := by
      rintro rfl
      exact hi.2 present
    have from_index : index ≤ i := hi.1
    exact least ⟨by omega, hi.2⟩

/-- Every key that is found taken leaves one entry less that can be in the way. -/
theorem exists_probes (m : OrderedMap α) (index : Nat) :
    ∃ count ≤ countFrom index m + 1, Probes m index count (m.freeFrom index) := by
  induction index using freeFrom.induct m with
  | case1 index taken ih =>
    obtain ⟨count, few, probes⟩ := ih
    have fewer := countFrom_succ_lt taken
    rw [freeFrom_of_taken taken]
    exact ⟨count + 1, by omega, .taken (containsKey_iff.mp taken) probes⟩
  | case2 index free =>
    rw [freeFrom_of_free (Bool.eq_false_iff.mpr free)]
    exact ⟨1, Nat.le_add_left _ _, .free (mt containsKey_iff.mpr free)⟩

theorem countFrom_le_length (index : Nat) (m : OrderedMap α) : countFrom index m ≤ m.length :=
  List.countP_le_length

end OrderedMap

open OrderedMap

namespace Value

variable {v w item : Value} {entries : OrderedMap Value}

theorem prepend_other (hv : v.untagged = map entries)
    (h : ∀ key w, item.untagged ≠ map [(key, w)]) :
    v.prepend item = map ((entries.freshKey, item.untagged) :: entries) := by
  rw [prepend_map hv, addEntry_other h, insertFirst, erase_of_notMem entries.freshKey_notMem]

/-- What is added to a map and has neither entries nor a text is entered under a free key. -/
theorem sum_map_other (entries : OrderedMap Value) (concrete : w.untagged = w)
    (noMap : w.asMap? = none) (noText : w.asText? = none) :
    sum (map entries) w.expandRange =
      .ok (map (entries.insert entries.freshKey w.expandRange)) := by
  cases w with
  | tagged w m => exact absurd concrete (untagged_ne_tagged _ _ _)
  | map others => cases noMap
  | str s => cases noText
  | _ => rfl

theorem plus_other (hv : v.untagged = map entries) (noError : w.asError? = none)
    (noMap : w.asMap? = none) (noText : w.asText? = none) :
    v.plus w = .ok (map (entries ++ [(entries.freshKey, w.untagged.expandRange)])) := by
  have passed : errorOperand? (map entries) w.untagged = none :=
    errorOperand?_eq_none rfl (by rw [asError?_untagged, noError])
  have concrete := sum_map_other entries (untagged_untagged w)
    (by rw [asMap?, untagged_untagged, ← asMap?, noMap])
    (by rw [asText?, untagged_untagged, ← asText?, noText])
  rw [plus, hv, passed, ← insert_of_notMem entries.freshKey_notMem]
  exact concrete

end Value

/-- The search for a free key ends after at most one look-up more than the map has entries, at the
key of the least position from the size of the map on that the map does not have. So an item that is
appended or prepended and is no pair, and a summand that has neither entries nor a text and is no
error, become one more entry, and all others stay. -/
theorem fresh_key_found_and_added (entries : OrderedMap Value) :
    (∃ count ≤ entries.length + 1, ∃ i, Probes entries entries.length count i ∧
      IsLeast {i | entries.length ≤ i ∧ positionKey i ∉ entries.keys} i ∧
      entries.freshKey = positionKey i) ∧
    ∀ v x, v.untagged = .map entries →
      (∀ item, (∀ key w, item.untagged ≠ .map [(key, w)]) →
        Method.append.call v item x =
          pure (.map (entries ++ [(entries.freshKey, item.untagged)])) ∧
        Method.prepend.call v item x =
          pure (.map ((entries.freshKey, item.untagged) :: entries))) ∧
      (∀ summand, summand.asMap? = none → summand.asText? = none → summand.asError? = none →
        Method.plus.Answers v summand x
          (.ok (.map (entries ++ [(entries.freshKey, summand.untagged.expandRange)])))) := by
  refine ⟨?_, fun v x hv => ⟨fun item single => ?_, fun summand noMap noText noError => ?_⟩⟩
  · obtain ⟨count, few, probes⟩ := entries.exists_probes entries.length
    have bound := countFrom_le_length entries.length entries
    exact ⟨count, by omega, entries.freshIndex, probes, probes.isLeast, rfl⟩
  · have plain : v.isNode = false := Value.isNode_of_untagged hv rfl
    have joined : v.joined.untagged = .map entries := v.untagged_joined.trans hv
    constructor
    · rw [Method.append_call plain, Value.append_other joined single]
    · rw [Method.prepend_call plain, Value.prepend_other joined single]
  · exact .of_case hv rfl (fun _ => rfl) fun u hu => Value.plus_other hu noError noMap noText

/-- Two entries, which have the keys of the two positions that are tried first. -/
def occupiedEntries : OrderedMap Value := [("_3", .int 1), ("_2", .void)]

/-- Three keys are looked up, which is as many as there may be. -/
theorem occupied_keys_passed :
    Probes occupiedEntries occupiedEntries.length (occupiedEntries.length + 1) 4 ∧
      (∀ key w, (Value.list []).untagged ≠ .map [(key, w)]) ∧
      Method.prepend.call (.map occupiedEntries) (.list []) .void =
        pure (.map (("_4", .list []) :: occupiedEntries)) ∧
      (Method.plus.call (.map occupiedEntries) .void .void).Ends {}
        (.ok (.map (occupiedEntries ++ [("_4", .void)]))) {} := by
  have probes : Probes occupiedEntries occupiedEntries.length (occupiedEntries.length + 1) 4 :=
    .taken (by decide) (.taken (by decide) (.free (by decide)))
  obtain ⟨⟨count, -, i, -, least, fresh⟩, added⟩ := fresh_key_found_and_added occupiedEntries
  obtain ⟨extended, summed⟩ := added (.map occupiedEntries) .void rfl
  have single : ∀ key w, (Value.list []).untagged ≠ .map [(key, w)] := fun _ _ => nofun
  have key : occupiedEntries.freshKey = "_4" := by
    rw [fresh, IsLeast.unique least probes.isLeast]
    decide
  rw [key] at extended summed
  exact ⟨probes, single, (extended (.list []) single).2,
    summed .void rfl rfl rfl .void {} {} ⟨0, rfl⟩⟩

end ReactiveScript
