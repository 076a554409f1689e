import ReactiveScript.Proofs.Containers
import ReactiveScript.Proofs.WellKeyed

/-!
# JSON forms of values

What comes back of a value that was turned into a JSON tree is its JSON form: it has no tags, its
ranges are written out, and what JSON does not know has become texts and maps. Lists and maps keep
their order, integers stay integers and decimals stay decimals, so that a value which JSON knows
comes back as it was.
-/

namespace ReactiveScript

theorem Text.fitsInt64_toInt (n : Int64) : Text.fitsInt64 n.toInt = true := by
  simp only [Text.fitsInt64, Bool.and_eq_true, decide_eq_true_eq]
  exact ⟨n.minValue_le_toInt, n.toInt_le⟩

/-- The elements of a range are the integers that follow one another from its start. -/
theorem IntRange.toInt_toList (r : IntRange) :
    r.toList.map Int64.toInt = (List.range r.count).map r.step := by
  simp only [toList, take, Nat.min_self, List.map_map]
  refine List.map_congr_left fun index h => ?_
  have start := r.start.le_toInt
  have start' := r.start.toInt_lt
  have stop := r.stop.le_toInt
  have stop' := r.stop.toInt_lt
  rw [List.mem_range, count] at h
  have low : -2 ^ 63 ≤ r.step index := by
    unfold step isAscending
    split <;> simp_all <;> omega
  have high : r.step index < 2 ^ 63 := by
    unfold step isAscending
    split <;> simp_all <;> omega
  exact Int64.toInt_ofInt_of_le low high

namespace Value

mutual

/-- What comes back of a value that is turned into a JSON tree. -/
@[simp] def jsonForm : Value → Value
  | int n => int n
  | bool b => bool b
  | void => void
  | str s => str s
  | decimal d =>
    if d.isFinite then decimal d
    else if d.isNaN then str "NaN"
    else if d.negative then str "-Infinity" else str "Infinity"
  | list items => list (jsonFormItems items)
  | map entries => map (jsonFormEntries entries)
  | range r => list (r.toList.map int)
  | error e => map [("error", str e.kind.name), ("message", str e.message)]
  | node n => str (node n).display
  | resource r => str (resource r).display
  | tagged v _ => v.jsonForm

@[simp] def jsonFormItems : List Value → List Value
  | [] => []
  | v :: rest => v.jsonForm :: jsonFormItems rest

@[simp] def jsonFormEntries : List (String × Value) → List (String × Value)
  | [] => []
  | (key, v) :: rest => (key, v.jsonForm) :: jsonFormEntries rest

end

@[simp] theorem jsonFormItems_eq (items : List Value) :
    jsonFormItems items = items.map jsonForm := by
  induction items with
  | nil => rfl
  | cons v rest ih => rw [jsonFormItems, ih]; rfl

@[simp] theorem jsonFormEntries_eq (entries : OrderedMap Value) :
    jsonFormEntries entries = OrderedMap.mapValues jsonForm entries := by
  induction entries with
  | nil => rfl
  | cons e rest ih => obtain ⟨k, v⟩ := e; rw [jsonFormEntries, ih]; rfl

theorem jsonForm_list (items : List Value) :
    (list items).jsonForm = list (items.map jsonForm) := by
  rw [jsonForm, jsonFormItems_eq]

theorem jsonForm_map (entries : OrderedMap Value) :
    (map entries).jsonForm = map (OrderedMap.mapValues jsonForm entries) := by
  rw [jsonForm, jsonFormEntries_eq]

/-- What JSON knows besides lists and maps: decimals too, if they are finite. -/
def IsJsonAtom : Value → Prop
  | int _ | bool _ | void | str _ => True
  | decimal d => d.isFinite
  | _ => False

variable {v : Value}

theorem IsJsonAtom.isAtom (h : v.IsJsonAtom) : v.IsAtom := by
  cases v <;> trivial

theorem itemsToJson_eq (items : List Value) : itemsToJson items = items.map toJson := by
  induction items with
  | nil => rfl
  | cons v rest ih => rw [itemsToJson, ih]; rfl

theorem entriesToJson_eq (entries : OrderedMap Value) :
    entriesToJson entries = OrderedMap.mapValues toJson entries := by
  induction entries with
  | nil => rfl
  | cons e rest ih => obtain ⟨k, v⟩ := e; rw [entriesToJson, ih]; rfl

theorem itemsOfJson_eq (trees : List JsonTree) : itemsOfJson trees = trees.map ofJson := by
  induction trees with
  | nil => rfl
  | cons t rest ih => rw [itemsOfJson, ih]; rfl

theorem entriesOfJson_eq (entries : OrderedMap JsonTree) :
    entriesOfJson entries = OrderedMap.mapValues ofJson entries := by
  induction entries with
  | nil => rfl
  | cons e rest ih => obtain ⟨k, t⟩ := e; rw [entriesOfJson, ih]; rfl

/-- An integer of 64 bits stays an integer. -/
theorem ofJson_int (n : Int64) : ofJson (.int n.toInt) = int n := by
  rw [ofJson, if_pos (Text.fitsInt64_toInt n), Int64.ofInt_toInt]

theorem ofJson_arr (items : List Value) (h : ∀ v ∈ items, ofJson v.toJson = v.jsonForm) :
    ofJson (list items).toJson = (list items).jsonForm := by
  rw [toJson, ofJson, itemsToJson_eq, itemsOfJson_eq, List.map_map, jsonForm_list]
  exact congrArg list (List.map_congr_left h)

/-- Keys that differ are not joined, and stay in their order. -/
theorem ofJson_obj (entries : OrderedMap Value) (unique : entries.UniqueKeys)
    (h : ∀ v ∈ entries.values, ofJson v.toJson = v.jsonForm) :
    ofJson (map entries).toJson = (map entries).jsonForm := by
  have forms : OrderedMap.mapValues ofJson (OrderedMap.mapValues toJson entries) =
      OrderedMap.mapValues jsonForm entries := by
    simp only [OrderedMap.mapValues, List.map_map]
    exact List.map_congr_left fun e he => congrArg (Prod.mk e.1) (h e.2 (List.mem_map_of_mem he))
  have kept : (OrderedMap.mapValues jsonForm entries).UniqueKeys := by
    rw [OrderedMap.UniqueKeys, OrderedMap.keys_mapValues]
    exact unique
  rw [toJson, ofJson, entriesToJson_eq, entriesOfJson_eq, forms, jsonForm_map,
    OrderedMap.ofPairs_of_uniqueKeys kept]

/-- A non-finite decimal becomes its name. -/
theorem ofJson_decimal (d : Decimal) : ofJson (decimal d).toJson = (decimal d).jsonForm := by
  rw [toJson, jsonForm]
  split
  · rw [ofJson]
  · next h =>
    rw [ofJson, Decimal.display]
    split
    · rfl
    · next nan =>
      have infinite : d.isInfinite = true := by
        simp only [Decimal.isFinite, Decimal.isNaN, Decimal.isInfinite, decide_eq_true_eq] at *
        omega
      rw [if_pos infinite]
      split <;> rfl

theorem ofJson_range (r : IntRange) : ofJson (range r).toJson = (range r).jsonForm := by
  rw [toJson, ofJson, itemsOfJson_eq, List.map_map, jsonForm]
  exact congrArg list (List.map_congr_left fun n _ => ofJson_int n)

theorem ofJson_error (e : EvalError) : ofJson (error e).toJson = (error e).jsonForm := by
  have unique : OrderedMap.UniqueKeys
      [("error", str e.kind.name), ("message", str e.message)] := by
    simp [OrderedMap.UniqueKeys, OrderedMap.keys]
  rw [toJson, ofJson, jsonForm, ← OrderedMap.ofPairs_of_uniqueKeys unique]
  rfl

theorem ofJson_toJson (h : v.WellKeyed) : ofJson v.toJson = v.jsonForm := by
  induction h with
  | @atom v h =>
    cases v with
    | int n => rw [toJson, ofJson_int, jsonForm]
    | decimal d => exact ofJson_decimal d
    | range r => exact ofJson_range r
    | error e => exact ofJson_error e
    | list | map | tagged => exact h.elim
    | _ => rfl
  | list _ ih => exact ofJson_arr _ ih
  | map unique _ ih => exact ofJson_obj _ unique ih
  | tagged m _ ih => rw [toJson_tagged, ih, jsonForm]

/-- A JSON form holds nothing but what JSON knows. -/
theorem builtFrom_jsonForm (h : v.WellKeyed) : v.jsonForm.BuiltFrom IsJsonAtom := by
  induction h with
  | @atom v h =>
    cases v with
    | decimal d =>
      rw [jsonForm]
      split
      · next finite => exact .atom finite
      · split
        · exact .atom trivial
        · split <;> exact .atom trivial
    | range r =>
      rw [jsonForm]
      refine .list fun v hv => ?_
      obtain ⟨n, _, rfl⟩ := List.mem_map.mp hv
      exact .atom trivial
    | error e =>
      rw [jsonForm]
      refine .map (by simp [OrderedMap.UniqueKeys, OrderedMap.keys]) fun v hv => ?_
      simp only [OrderedMap.values, List.map_cons, List.map_nil, List.mem_cons, List.not_mem_nil,
        or_false] at hv
      rcases hv with rfl | rfl <;> exact .atom trivial
    | list | map | tagged => exact h.elim
    | _ => exact .atom trivial
  | list _ ih =>
    rw [jsonForm_list]
    refine .list fun v hv => ?_
    obtain ⟨u, hu, rfl⟩ := List.mem_map.mp hv
    exact ih u hu
  | @map entries unique _ ih =>
    rw [jsonForm_map]
    refine .map ?_ fun v hv => ?_
    · rw [OrderedMap.UniqueKeys, OrderedMap.keys_mapValues]
      exact unique
    · rw [OrderedMap.values_mapValues] at hv
      obtain ⟨u, hu, rfl⟩ := List.mem_map.mp hv
      exact ih u hu
  | tagged m _ ih =>
    rw [jsonForm]
    exact ih

/-- What JSON knows is its own JSON form. -/
theorem jsonForm_of_builtFrom (h : v.BuiltFrom IsJsonAtom) : v.jsonForm = v := by
  induction h with
  | @atom v h =>
    cases v with
    | decimal d =>
      have finite : d.isFinite = true := h
      rw [jsonForm, if_pos finite]
    | int | bool | void | str => rfl
    | _ => exact h.elim
  | list _ ih =>
    rw [jsonForm_list]
    exact congrArg list ((List.map_congr_left ih).trans (List.map_id _))
  | @map entries _ _ ih =>
    rw [jsonForm_map]
    refine congrArg map ((List.map_congr_left fun e he => ?_).trans (List.map_id entries))
    exact congrArg (Prod.mk e.1) (ih e.2 (List.mem_map_of_mem he))

/-- A value that is turned into a JSON tree comes back as its JSON form. That is the value itself
if JSON knows everything in it, and a second time nothing changes any more. -/
theorem ofJson_toJson_normal (h : v.WellKeyed) :
    ofJson v.toJson = v.jsonForm ∧ (v.BuiltFrom IsJsonAtom → ofJson v.toJson = v) ∧
      ofJson (ofJson v.toJson).toJson = ofJson v.toJson := by
  have form := builtFrom_jsonForm h
  refine ⟨ofJson_toJson h, fun known => ?_, ?_⟩
  · rw [ofJson_toJson h, jsonForm_of_builtFrom known]
  · rw [ofJson_toJson h, ofJson_toJson (form.wellKeyed fun _ => IsJsonAtom.isAtom),
      jsonForm_of_builtFrom form]

/-- A map with a note, in it a falling range, and a list of a decimal, an error and a node. -/
def mixedValue : Value :=
  tagged (map [("range", range ⟨2, 0⟩), ("list", list [decimal (Decimal.infinity true),
    error (EvalError.parseError "invalid JSON"), node ⟨7, "plus"⟩])]) { note := some "checked" }

theorem mixedValue_normal :
    mixedValue.WellKeyed ∧
      ofJson mixedValue.toJson = map [("range", list [int 2, int 1, int 0]),
        ("list", list [str "-Infinity",
          map [("error", str "PARSE_ERROR"), ("message", str "invalid JSON")],
          str "<plus#7>"])] ∧
      ofJson (ofJson mixedValue.toJson).toJson = ofJson mixedValue.toJson := by
  have wellKeyed : mixedValue.WellKeyed := by
    refine .tagged _ (.map (by decide) (List.forall_mem_cons.mpr ⟨.atom trivial, ?_⟩))
    refine List.forall_mem_singleton.mpr (.list ?_)
    simpa using ⟨.atom trivial, .atom trivial, .atom trivial⟩
  obtain ⟨form, -, again⟩ := ofJson_toJson_normal wellKeyed
  exact ⟨wellKeyed, form.trans rfl, again⟩

end Value
end ReactiveScript
