import ReactiveScript.OrderedMap
import Mathlib.Data.List.Nodup

/-!
# Keys of ordered maps

No operation on ordered maps makes a key occur twice. A list of pairs without a repeated key is the
map that is made of it.
-/

namespace ReactiveScript.OrderedMap

variable {α : Type} {m : OrderedMap α} {key : String} {v : α} {e : String × α}

instance (m : OrderedMap α) : Decidable m.UniqueKeys := inferInstanceAs (Decidable m.keys.Nodup)

theorem mem_keys (h : e ∈ m) : e.1 ∈ m.keys := List.mem_map_of_mem h

@[simp] theorem uniqueKeys_nil : UniqueKeys ([] : OrderedMap α) := List.nodup_nil

theorem uniqueKeys_cons : UniqueKeys (e :: m) ↔ e.1 ∉ m.keys ∧ m.UniqueKeys := List.nodup_cons

theorem uniqueKeys_append_singleton :
    UniqueKeys (m ++ [(key, v)]) ↔ key ∉ m.keys ∧ m.UniqueKeys := by
  rw [UniqueKeys, keys, List.map_append, List.map_singleton, ← List.concat_eq_append]
  exact List.nodup_concat _ _

/-- A new key is written behind all others. -/
theorem insert_of_notMem (fresh : key ∉ m.keys) (v : α) : m.insert key v = m ++ [(key, v)] := by
  induction m with
  | nil => rfl
  | cons first rest ih =>
    obtain ⟨other, later⟩ := List.ne_and_not_mem_of_not_mem_cons fresh
    rw [insert, if_neg (Ne.symm other), ih later, List.cons_append]

theorem keys_insert_of_mem (h : key ∈ m.keys) (v : α) : (m.insert key v).keys = m.keys := by
  induction m with
  | nil => cases h
  | cons first rest ih =>
    obtain ⟨k, u⟩ := first
    by_cases hk : k = key
    · rw [insert, if_pos hk, ← hk]
      rfl
    · rw [insert, if_neg hk]
      exact congrArg (k :: ·) (ih ((List.mem_cons.mp h).resolve_left (Ne.symm hk)))

theorem containsKey_iff : m.containsKey key ↔ key ∈ m.keys := by
  induction m with
  | nil => simp [containsKey, keys]
  | cons e rest ih =>
    obtain ⟨k, u⟩ := e
    rw [containsKey, keys] at ih ⊢
    by_cases hk : k = key
    · simp [find?, hk]
    · simp [find?, hk, Ne.symm hk, ih]

theorem insert_of_mem (unique : m.UniqueKeys) (h : key ∈ m.keys) (v : α) :
    m.insert key v = m.map fun e => if e.1 = key then (key, v) else e := by
  induction m with
  | nil => cases h
  | cons e rest ih =>
    obtain ⟨k, u⟩ := e
    obtain ⟨fresh, unique⟩ := List.nodup_cons.mp unique
    by_cases hk : k = key
    · subst hk
      have untouched (e) (he : e ∈ rest) : (if e.1 = k then (k, v) else e) = id e :=
        if_neg (ne_of_mem_of_not_mem (mem_keys he) fresh)
      rw [insert, if_pos rfl, List.map_cons, if_pos rfl, List.map_congr_left untouched,
        List.map_id]
    · rw [insert, if_neg hk, List.map_cons, if_neg hk,
        ih unique ((List.mem_cons.mp h).resolve_left (Ne.symm hk))]

theorem uniqueKeys_insert (unique : m.UniqueKeys) (key : String) (v : α) :
    (m.insert key v).UniqueKeys := by
  by_cases h : key ∈ m.keys
  · rw [UniqueKeys, keys_insert_of_mem h]
    exact unique
  · rw [insert_of_notMem h]
    exact uniqueKeys_append_singleton.mpr ⟨h, unique⟩

theorem mem_insert (unique : m.UniqueKeys) :
    e ∈ m.insert key v ↔ e = (key, v) ∨ e ∈ m ∧ e.1 ≠ key := by
  induction m with
  | nil => simp [insert]
  | cons first rest ih =>
    obtain ⟨k, u⟩ := first
    obtain ⟨fresh, unique⟩ := List.nodup_cons.mp unique
    by_cases hk : k = key
    · subst hk
      have others : e ∈ rest → e.1 ≠ k := fun he => ne_of_mem_of_not_mem (mem_keys he) fresh
      rw [insert, if_pos rfl, List.mem_cons, List.mem_cons]
      constructor
      · rintro (rfl | he)
        · exact .inl rfl
        · exact .inr ⟨.inr he, others he⟩
      · rintro (rfl | ⟨rfl | he, other⟩)
        · exact .inl rfl
        · exact absurd rfl other
        · exact .inr he
    · rw [insert, if_neg hk, List.mem_cons, List.mem_cons, ih unique]
      constructor
      · rintro (rfl | rfl | ⟨he, other⟩)
        · exact .inr ⟨.inl rfl, hk⟩
        · exact .inl rfl
        · exact .inr ⟨.inr he, other⟩
      · rintro (rfl | ⟨rfl | he, other⟩)
        · exact .inr (.inl rfl)
        · exact .inl rfl
        · exact .inr (.inr ⟨he, other⟩)

theorem uniqueKeys_of_sublist {m' : OrderedMap α} (h : m'.Sublist m) (unique : m.UniqueKeys) :
    m'.UniqueKeys :=
  List.Nodup.sublist (h.map Prod.fst) unique

theorem uniqueKeys_erase (unique : m.UniqueKeys) (key : String) : (m.erase key).UniqueKeys :=
  uniqueKeys_of_sublist List.filter_sublist unique

theorem notMem_keys_erase (m : OrderedMap α) (key : String) : key ∉ (m.erase key).keys := by
  simp [keys, erase]

theorem uniqueKeys_insertFirst (unique : m.UniqueKeys) (key : String) (v : α) :
    (m.insertFirst key v).UniqueKeys :=
  uniqueKeys_cons.mpr ⟨m.notMem_keys_erase key, uniqueKeys_erase unique key⟩

theorem uniqueKeys_insertLast (unique : m.UniqueKeys) (key : String) (v : α) :
    (m.insertLast key v).UniqueKeys :=
  uniqueKeys_append_singleton.mpr ⟨m.notMem_keys_erase key, uniqueKeys_erase unique key⟩

theorem uniqueKeys_merged (unique : m.UniqueKeys) (other : OrderedMap α) :
    (m.merged other).UniqueKeys := by
  induction other generalizing m with
  | nil => exact unique
  | cons e rest ih => exact ih (uniqueKeys_insert unique e.1 e.2)

theorem uniqueKeys_withoutKeys (unique : m.UniqueKeys) (removed : List String) :
    (m.withoutKeys removed).UniqueKeys := by
  induction removed generalizing m with
  | nil => exact unique
  | cons key rest ih => exact ih (uniqueKeys_erase unique key)

theorem uniqueKeys_reverse (unique : m.UniqueKeys) : UniqueKeys m.reverse := by
  rw [UniqueKeys, keys, List.map_reverse, List.nodup_reverse]
  exact unique

theorem uniqueKeys_ofPairs (pairs : List (String × α)) : (ofPairs pairs).UniqueKeys :=
  uniqueKeys_merged uniqueKeys_nil pairs

/-- New keys are written behind all others, in their order. -/
theorem merged_eq_append {other : OrderedMap α} (unique : UniqueKeys (m ++ other)) :
    m.merged other = m ++ other := by
  induction other generalizing m with
  | nil => exact (List.append_nil m).symm
  | cons e rest ih =>
    have unique' : UniqueKeys ((m ++ [e]) ++ rest) := by simpa using unique
    have fresh : e.1 ∉ m.keys :=
      (uniqueKeys_append_singleton.mp
        (uniqueKeys_of_sublist (List.sublist_append_left _ rest) unique')).1
    show (m.insert e.1 e.2).merged rest = _
    rw [insert_of_notMem fresh, ih unique', List.append_assoc, List.singleton_append]

theorem ofPairs_of_uniqueKeys (unique : m.UniqueKeys) : ofPairs m = m :=
  merged_eq_append (m := []) unique

end ReactiveScript.OrderedMap
