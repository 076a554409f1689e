import ReactiveScript.Proofs.ContainerLaws
import ReactiveScript.Proofs.Hereditary
import ReactiveScript.Proofs.MapLaws

/-!
# Extension at both ends

Adding an item in front of a container is adding it at the end of the container turned round. What
is in the container stays as it is and where it is; only a pair displaces the entry under its own
key, and the key that any other item is given is free.
-/

namespace ReactiveScript

open Eval

namespace OrderedMap

variable {α : Type} {m : OrderedMap α}

theorem freshKey_notMem (m : OrderedMap α) : m.freshKey ∉ m.keys := by
  rw [← containsKey_iff, Bool.not_eq_true]
  exact m.containsKey_freeFrom m.length

theorem containsKey_reverse (m : OrderedMap α) (key : String) :
    containsKey m.reverse key = m.containsKey key := by
  rw [Bool.eq_iff_iff, containsKey_iff, containsKey_iff, keys, List.map_reverse, List.mem_reverse]
  rfl

theorem freshKey_reverse (m : OrderedMap α) : freshKey m.reverse = m.freshKey := by
  rw [freshKey, freshIndex, List.length_reverse, freeFrom_congr (containsKey_reverse m)]
  rfl

theorem erase_of_notMem {key : String} (h : key ∉ m.keys) : m.erase key = m :=
  List.filter_eq_self.mpr fun _ he => decide_eq_true (ne_of_mem_of_not_mem (mem_keys he) h)

theorem insertFirst_reverse (m : OrderedMap α) (key : String) (v : α) :
    (m.insertFirst key v).reverse = insertLast key v m.reverse := by
  rw [insertFirst, insertLast, erase, erase, List.reverse_cons, List.filter_reverse]

end OrderedMap

open OrderedMap

namespace Value

variable {v item : Value} {items : List Value} {entries : OrderedMap Value}

theorem addEntry_pair {key : String} {w : Value} (h : item.untagged = map [(key, w)])
    (add : String → Value → OrderedMap Value → OrderedMap Value) (entries : OrderedMap Value) :
    addEntry add entries item = map (add key w entries) := by
  rw [addEntry, h]

theorem addEntry_other (h : ∀ key w, item.untagged ≠ map [(key, w)])
    (add : String → Value → OrderedMap Value → OrderedMap Value) (entries : OrderedMap Value) :
    addEntry add entries item = map (add entries.freshKey item.untagged entries) := by
  unfold addEntry
  split
  · next key w hp => exact absurd hp (h key w)
  · rfl

/-- The direction in which a map is read does not matter for the entry that an item becomes. -/
theorem addEntry_reverse (entries : OrderedMap Value) (item : Value) :
    ∃ key w, addEntry insertFirst entries item = map (entries.insertFirst key w) ∧
      addEntry insertLast entries.reverse item = map (insertLast key w entries.reverse) := by
  by_cases h : ∃ key w, item.untagged = map [(key, w)]
  · obtain ⟨key, w, h⟩ := h
    exact ⟨key, w, addEntry_pair h _ _, addEntry_pair h _ _⟩
  · push Not at h
    refine ⟨entries.freshKey, item.untagged, addEntry_other h _ _, ?_⟩
    rw [addEntry_other h, freshKey_reverse]

theorem append_list (hv : v.untagged = list items) (item : Value) :
    v.append item = list (items ++ [item]) := by rw [append, hv]

theorem append_map (hv : v.untagged = map entries) (item : Value) :
    v.append item = addEntry insertLast entries item := by rw [append, hv]

theorem prepend_list (hv : v.untagged = list items) (item : Value) :
    v.prepend item = list (item :: items) := by rw [prepend, hv]

theorem prepend_map (hv : v.untagged = map entries) (item : Value) :
    v.prepend item = addEntry insertFirst entries item := by rw [prepend, hv]

theorem negate_list (hv : v.untagged = list items) : v.negate = list items.reverse := by
  rw [negate, hv]

theorem negate_map (hv : v.untagged = map entries) : v.negate = map entries.reverse := by
  rw [negate, hv]

/-- A pair that is added to a map takes the place of the entry under its key. -/
theorem append_pair (hv : v.untagged = map entries) {key : String} {w : Value}
    (h : item.untagged = map [(key, w)]) :
    v.append item = map ((entries.filter fun e => e.1 ≠ key) ++ [(key, w)]) := by
  rw [append_map hv, addEntry_pair h]
  rfl

/-- Any other item that is added to a map displaces nothing. -/
theorem append_other (hv : v.untagged = map entries) (h : ∀ key w, item.untagged ≠ map [(key, w)]) :
    v.append item = map (entries ++ [(entries.freshKey, item.untagged)]) := by
  rw [append_map hv, addEntry_other h, insertLast, erase_of_notMem entries.freshKey_notMem]

end Value

namespace Method

variable {c : Value} {items : List Value} {entries : OrderedMap Value}

/-- An item is added in front and the container turned round. -/
def negateOfPrepend (c item x y : Value) : Eval Value := do
  let extended ← prepend.call c item x
  negate.call extended x y

/-- A container is turned round and an item added at its end. -/
def appendToNegate (c item x y : Value) : Eval Value := do
  let reversed ← negate.call c x y
  append.call reversed item x

theorem append_call (hc : c.isNode = false) (item x : Value) :
    append.call c item x = pure (c.joined.append item) := onConcrete_eq_pure hc

theorem prepend_call (hc : c.isNode = false) (item x : Value) :
    prepend.call c item x = pure (c.joined.prepend item) := onConcrete_eq_pure hc

theorem negate_call (hc : c.isNode = false) (x y : Value) :
    negate.call c x y = pure c.joined.negate := onConcrete_eq_pure hc

theorem negateOfPrepend_eq {extended : Value} (hc : c.isNode = false)
    (prepended : c.joined.prepend item = extended) (plain : extended.isNode = false)
    (joined : extended.joined = extended) (x y : Value) :
    negateOfPrepend c item x y = pure extended.negate := by
  rw [negateOfPrepend, prepend_call hc, prepended, pure_bind, negate_call plain, joined]

theorem appendToNegate_eq {reversed : Value} (hc : c.isNode = false)
    (negated : c.joined.negate = reversed) (plain : reversed.isNode = false)
    (joined : reversed.joined = reversed) (x y : Value) :
    appendToNegate c item x y = pure (reversed.append item) := by
  rw [appendToNegate, negate_call hc, negated, pure_bind, append_call plain, joined]

theorem list_mirrored (hc : c.untagged = .list items) (item x y : Value) :
    negateOfPrepend c item x y = pure (.list (items.reverse ++ [item])) ∧
      appendToNegate c item x y = pure (.list (items.reverse ++ [item])) := by
  have plain : c.isNode = false := Value.isNode_of_untagged hc rfl
  have joined : c.joined.untagged = .list items := c.untagged_joined.trans hc
  refine ⟨negateOfPrepend_eq plain (Value.prepend_list joined item) rfl rfl x y |>.trans ?_,
    appendToNegate_eq plain (Value.negate_list joined) rfl rfl x y |>.trans ?_⟩
  · rw [Value.negate_list rfl, List.reverse_cons]
  · rw [Value.append_list rfl]

/-- The entry that an item becomes stands behind the reverse of what is left of the others. -/
theorem map_mirrored (hc : c.untagged = .map entries) (item x y : Value) :
    ∃ key w, negateOfPrepend c item x y = pure (.map (insertLast key w entries.reverse)) ∧
      appendToNegate c item x y = pure (.map (insertLast key w entries.reverse)) := by
  have plain : c.isNode = false := Value.isNode_of_untagged hc rfl
  have joined : c.joined.untagged = .map entries := c.untagged_joined.trans hc
  obtain ⟨key, w, first, last⟩ := Value.addEntry_reverse entries item
  refine ⟨key, w,
    negateOfPrepend_eq plain ((Value.prepend_map joined item).trans first) rfl rfl x y |>.trans ?_,
    appendToNegate_eq plain (Value.negate_map joined) rfl rfl x y |>.trans ?_⟩
  · rw [Value.negate_map rfl, insertFirst_reverse]
  · rw [Value.append_map rfl, last]

end Method

/-- Adding in front and at the end are mirror images, and nothing is lost: the elements of a list
and the entries of a map stay as they are and in their order, with one more at the end, except that
a pair takes the place of the entry under its key. The key under which any other item is added to a
map is one that the map does not have. -/
theorem prepend_mirrors_append (c item x y : Value) :
    (∀ items : List Value, c.untagged = .list items →
      Method.append.call c item x = pure (.list (items ++ [item])) ∧
      ∃ after : List Value, Method.negateOfPrepend c item x y = pure (.list after) ∧
        Method.appendToNegate c item x y = pure (.list after)) ∧
    (∀ entries : OrderedMap Value, c.untagged = .map entries →
      (∀ key w, item.untagged = .map [(key, w)] → Method.append.call c item x =
        pure (.map ((entries.filter fun e => e.1 ≠ key) ++ [(key, w)]))) ∧
      ((∀ key w, item.untagged ≠ .map [(key, w)]) → ∃ key ∉ entries.keys,
        Method.append.call c item x = pure (.map (entries ++ [(key, item.untagged)]))) ∧
      ∃ after : OrderedMap Value, Method.negateOfPrepend c item x y = pure (.map after) ∧
        Method.appendToNegate c item x y = pure (.map after)) := by
  refine ⟨fun items hc => ?_, fun entries hc => ?_⟩
  · have plain : c.isNode = false := Value.isNode_of_untagged hc rfl
    refine ⟨?_, _, Method.list_mirrored hc item x y⟩
    rw [Method.append_call plain, Value.append_list (c.untagged_joined.trans hc)]
  · have plain : c.isNode = false := Value.isNode_of_untagged hc rfl
    have joined : c.joined.untagged = .map entries := c.untagged_joined.trans hc
    obtain ⟨key, w, mirrored⟩ := Method.map_mirrored hc item x y
    refine ⟨fun key w pair => ?_, fun other => ⟨entries.freshKey, entries.freshKey_notMem, ?_⟩,
      _, mirrored⟩
    · rw [Method.append_call plain, Value.append_pair joined pair]
    · rw [Method.append_call plain, Value.append_other joined other]

/-- Two entries, of which the first has the key that a third one would be given. -/
def crowdedEntries : OrderedMap Value := [("_2", .int 1), ("a", .node ⟨7, "sum"⟩)]

theorem crowded_map_extended :
    (∀ key w, (Value.str "b").untagged ≠ .map [(key, w)]) ∧
      (∃ key ∉ crowdedEntries.keys, Method.append.call (.map crowdedEntries) (.str "b") .void =
        pure (.map (crowdedEntries ++ [(key, .str "b")]))) ∧
      Method.append.call (.map crowdedEntries) (.map [("_2", .int 5)]) .void =
        pure (.map [("a", .node ⟨7, "sum"⟩), ("_2", .int 5)]) := by
  have single : ∀ key w, (Value.str "b").untagged ≠ .map [(key, w)] := fun _ _ => nofun
  obtain ⟨-, other, -⟩ := (prepend_mirrors_append (.map crowdedEntries) (.str "b") .void
    .void).2 _ rfl
  obtain ⟨pair, -⟩ := (prepend_mirrors_append (.map crowdedEntries) (.map [("_2", .int 5)]) .void
    .void).2 _ rfl
  exact ⟨single, other single, (pair "_2" (.int 5) rfl).trans rfl⟩

end ReactiveScript
