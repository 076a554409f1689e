import ReactiveScript.Proofs.Transparency
import ReactiveScript.Value.Cast

/-!
# Tags in containers and casts

Access to containers and casts do to bare values what they do to tagged ones, as the operators do:
the result for bare operands is the bare result.
-/

namespace ReactiveScript

namespace OrderedMap

variable {α β : Type} (f : α → β)

theorem mapValues_insertFirst (m : OrderedMap α) (key : String) (value : α) :
    (m.insertFirst key value).mapValues f = (m.mapValues f).insertFirst key (f value) := by
  rw [insertFirst, insertFirst, ← mapValues_erase]
  rfl

theorem mapValues_insertLast (m : OrderedMap α) (key : String) (value : α) :
    (m.insertLast key value).mapValues f = (m.mapValues f).insertLast key (f value) := by
  rw [insertLast, insertLast, ← mapValues_erase]
  exact List.map_append

theorem values_mapValues (m : OrderedMap α) : (m.mapValues f).values = m.values.map f := by
  simp [values, mapValues]

end OrderedMap

namespace Value

@[simp] theorem asInt?_bare (v : Value) : v.bare.asInt? = v.asInt? := by
  refine bare_of_untagged (fun _ _ => rfl) (fun v hv => ?_) v
  cases v <;> first | rfl | exact absurd hv (untagged_ne_tagged _ _ _)

@[simp] theorem asText?_bare (v : Value) : v.bare.asText? = v.asText? := by
  refine bare_of_untagged (fun _ _ => rfl) (fun v hv => ?_) v
  cases v <;> first | rfl | exact absurd hv (untagged_ne_tagged _ _ _)

@[simp] theorem typeName_bare (v : Value) : v.bare.typeName = v.typeName := by
  refine bare_of_untagged (fun _ _ => rfl) (fun v hv => ?_) v
  cases v <;> first | rfl | exact absurd hv (untagged_ne_tagged _ _ _)

@[simp] theorem position?_bare (key : Value) : position? key.bare = position? key := by
  rw [position?, asInt?_bare, position?]

theorem bare_pair (key : String) (v : Value) : (pair key v).bare = pair key v.bare := rfl

theorem abs_bare (v : Value) : v.bare.abs = v.abs.bare := by
  refine bare_of_untagged (f := abs) (g := fun v => v.abs.bare) (fun _ _ => rfl)
    (fun v hv => ?_) v
  cases v with
  | tagged v m => exact absurd hv (untagged_ne_tagged _ _ _)
  | int n => exact (bare_ofExact _ _).symm
  | list items => simp [abs, untagged]
  | map entries => simp [abs, untagged]
  | _ => rfl

theorem get_bare (v key : Value) : get v.bare key.bare = (get v key).map bare := by
  refine bare_of_untagged (f := fun v => get v key.bare) (g := fun v => (get v key).map bare)
    (fun v m => ?_) (fun v hv => ?_) v
  · simp only [get, untagged_tagged]
    split <;> simp [map_bare_ok]
  · cases v with
    | tagged v m => exact absurd hv (untagged_ne_tagged _ _ _)
    | list items =>
      simp only [get, bare_list, untagged, position?_bare, map_bare_ok, List.getElem?_map]
      cases position? key with
      | none => rfl
      | some i => cases h : items[i]? <;> simp [h, bare]
    | map entries =>
      simp only [get, bare_map, untagged, position?_bare, asInt?_bare, display_bare]
      cases key.asInt? with
      | none =>
        simp only [OrderedMap.find?_mapValues, map_bare_ok]
        cases OrderedMap.find? key.display entries <;> rfl
      | some n =>
        simp only [map_bare_ok, OrderedMap.mapValues, List.getElem?_map]
        cases position? key with
        | none => rfl
        | some i => cases h : entries[i]? <;> simp [h, bare_pair, bare]
    | str s =>
      simp only [get, bare, untagged, position?_bare, map_bare_ok]
      cases (position? key).bind fun i => s.toList[i]? <;> rfl
    | range r =>
      simp only [get, bare, untagged, position?_bare, map_bare_ok]
      cases (position? key).bind r.get? <;> rfl
    | _ => simp only [get, bare, untagged, typeName_bare, map_bare_ok, map_bare_error]

/-- Whether an item is an entry does not depend on its tags, nor does the key that is free. -/
theorem addEntry_bare {add : String → Value → OrderedMap Value → OrderedMap Value}
    (hadd : ∀ key w entries, OrderedMap.mapValues bare (add key w entries) =
      add key w.bare (OrderedMap.mapValues bare entries))
    (entries : OrderedMap Value) (item : Value) :
    addEntry add (OrderedMap.mapValues bare entries) item.bare =
      (addEntry add entries item).bare := by
  have added (key : String) (w : Value) :
      map (add key w.bare (OrderedMap.mapValues bare entries)) = (map (add key w entries)).bare := by
    rw [bare_map, hadd]
  have addedFresh (w : Value) :
      map (add (OrderedMap.mapValues bare entries).freshKey w.bare
        (OrderedMap.mapValues bare entries)) = (map (add entries.freshKey w entries)).bare := by
    rw [OrderedMap.freshKey_mapValues, added]
  refine bare_of_untagged (f := addEntry add (OrderedMap.mapValues bare entries))
    (g := fun item => (addEntry add entries item).bare) (fun _ _ => rfl) (fun v hv => ?_) item
  rw [addEntry, addEntry, untagged_bare, hv]
  cases v with
  | tagged v m => exact absurd hv (untagged_ne_tagged _ _ _)
  | map others =>
    match others with
    | [(key, w)] => exact added key w
    | [] => exact addedFresh (map [])
    | a :: b :: rest => exact addedFresh (map (a :: b :: rest))
  | list items => exact addedFresh (list items)
  | _ => exact addedFresh _

theorem append_bare (v item : Value) : append v.bare item.bare = (append v item).bare := by
  refine bare_of_untagged (f := fun v => append v item.bare)
    (g := fun v => (append v item).bare) (fun _ _ => rfl) (fun v hv => ?_) v
  cases v with
  | tagged v m => exact absurd hv (untagged_ne_tagged _ _ _)
  | map entries =>
    simp only [append, bare_map, untagged]
    exact addEntry_bare (fun _ _ _ => OrderedMap.mapValues_insertLast _ _ _ _) entries item
  | _ => simp [append, untagged, bare, bareItems_eq]

theorem prepend_bare (v item : Value) : prepend v.bare item.bare = (prepend v item).bare := by
  refine bare_of_untagged (f := fun v => prepend v item.bare)
    (g := fun v => (prepend v item).bare) (fun _ _ => rfl) (fun v hv => ?_) v
  cases v with
  | tagged v m => exact absurd hv (untagged_ne_tagged _ _ _)
  | map entries =>
    simp only [prepend, bare_map, untagged]
    exact addEntry_bare (fun _ _ _ => OrderedMap.mapValues_insertFirst _ _ _ _) entries item
  | _ => simp [prepend, untagged, bare, bareItems_eq]

theorem set_bare (v key w : Value) : set v.bare key.bare w.bare = (set v key w).map bare := by
  refine bare_of_untagged (f := fun v => set v key.bare w.bare)
    (g := fun v => (set v key w).map bare) (fun _ _ => rfl) (fun v hv => ?_) v
  cases v with
  | tagged v m => exact absurd hv (untagged_ne_tagged _ _ _)
  | list items =>
    simp only [set, bare_list, untagged, position?_bare, List.length_map, typeName_bare]
    cases position? key with
    | none => rfl
    | some i =>
      simp only [apply_ite (Except.map bare), map_bare_ok, map_bare_error, bare_list,
        List.map_set, List.map_append, List.map_cons, List.map_nil]
  | map entries =>
    simp only [set, bare_map, untagged, display_bare, map_bare_ok, OrderedMap.mapValues_insert]
  | void => simp only [set, bare, untagged, display_bare, map_bare_ok, bare_pair]
  | _ => rfl

@[simp] theorem containsKey_bare (v key : Value) :
    containsKey v.bare key.bare = containsKey v key := by
  refine bare_of_untagged (f := fun v => containsKey v key.bare)
    (g := fun v => containsKey v key) (fun _ _ => rfl) (fun v hv => ?_) v
  cases v with
  | tagged v m => exact absurd hv (untagged_ne_tagged _ _ _)
  | _ => simp [containsKey, untagged, bare, bareItems_eq, bareEntries_eq]

@[simp] theorem has_bare (v item : Value) : has v.bare item.bare = has v item := by
  refine bare_of_untagged (f := fun v => has v item.bare) (g := fun v => has v item)
    (fun _ _ => rfl) (fun v hv => ?_) v
  cases v with
  | tagged v m => exact absurd hv (untagged_ne_tagged _ _ _)
  | list items =>
    simp only [has, bare_list, untagged, List.any_map, Function.comp_def, same_bare]
  | map entries =>
    simp only [has, bare_map, untagged, OrderedMap.values_mapValues, List.any_map,
      Function.comp_def, same_bare]
  | _ => simp only [has, untagged, bare, same_bare_right, display_bare, asInt?_bare]

section casts

theorem toBool_bare {v : Value} (hv : v.untagged = v) : v.bare.toBool = v.toBool := by
  cases v with
  | tagged v m => exact absurd hv (untagged_ne_tagged _ _ _)
  | list items => exact isTrue_bare (list items)
  | map entries => exact isTrue_bare (map entries)
  | _ => rfl

theorem toItems_bare {v : Value} (hv : v.untagged = v) :
    v.bare.toItems = v.toItems.map bare := by
  cases v with
  | tagged v m => exact absurd hv (untagged_ne_tagged _ _ _)
  | _ => simp [toItems, bare, bareItems_eq, bareEntries_eq, OrderedMap.mapValues, bare_pair]

theorem toEntries_bare {v : Value} (hv : v.untagged = v) :
    v.bare.toEntries = OrderedMap.mapValues bare v.toEntries := by
  cases v with
  | tagged v m => exact absurd hv (untagged_ne_tagged _ _ _)
  | list items =>
    simp [toEntries, bare, bareItems_eq, OrderedMap.mapValues, List.zipIdx_map, Function.comp_def]
  | _ => simp [toEntries, bare, bareEntries_eq, OrderedMap.mapValues]

theorem toDecimal?_bare {v : Value} (hv : v.untagged = v) : v.bare.toDecimal? = v.toDecimal? := by
  cases v <;> first | rfl | exact absurd hv (untagged_ne_tagged _ _ _)

theorem toInteger?_bare {v : Value} (hv : v.untagged = v) : v.bare.toInteger? = v.toInteger? := by
  cases v <;> first | rfl | exact absurd hv (untagged_ne_tagged _ _ _)

theorem cast_bare (v : Value) (target : TypeTag) :
    cast v.bare target = (cast v target).map bare := by
  have hv := untagged_untagged v
  simp only [cast, untagged_bare, ← bare_untagged v, isError_bare, typeName_bare]
  cases v.untagged.isError with
  | true => rfl
  | false =>
    cases target with
    | boolean => simp [toBool_bare hv, map_bare_ok, bare]
    | string => simp [map_bare_ok, bare]
    | list => simp [toItems_bare hv, map_bare_ok]
    | map => simp [toEntries_bare hv, map_bare_ok]
    | decimal =>
      rw [toDecimal?_bare hv]
      cases v.untagged.toDecimal? <;> rfl
    | integer =>
      rw [toInteger?_bare hv]
      cases v.untagged.toInteger? <;> rfl
    | _ => rfl

end casts

end Value
end ReactiveScript
