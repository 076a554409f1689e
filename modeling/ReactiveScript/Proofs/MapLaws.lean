import ReactiveScript.Proofs.Keys

/-!
# Laws of ordered maps

A map without a repeated key is determined by its keys in order and by what is found under them. So
the laws of union and removal are laws of lists of keys and of look-up: a union has the left keys,
then those of the right that are new, and finds what is on the right first.
-/

namespace ReactiveScript.OrderedMap

variable {α : Type} {a b c m m' : OrderedMap α} {key : String}

theorem find?_eq_none_iff : m.find? key = none ↔ key ∉ m.keys := by
  rw [← containsKey_iff, containsKey, Option.not_isSome_iff_eq_none]

theorem find?_eq_lookup (m : OrderedMap α) (key : String) : m.find? key = m.lookup key := by
  induction m with
  | nil => rfl
  | cons e rest ih =>
    obtain ⟨k, v⟩ := e
    by_cases hk : k = key
    · simp [find?, hk]
    · rw [find?, if_neg hk, ih, List.lookup_cons, beq_false_of_ne (Ne.symm hk)]

/-- Maps with the same keys in the same order, under which they have the same values, are equal. -/
theorem ext_find? (unique : m.UniqueKeys) (keys : m.keys = m'.keys)
    (found : ∀ key ∈ m.keys, m.find? key = m'.find? key) : m = m' := by
  induction m generalizing m' with
  | nil => exact (List.map_eq_nil_iff.mp keys.symm).symm
  | cons e rest ih =>
    obtain ⟨k, v⟩ := e
    cases m' with
    | nil => cases keys
    | cons e' rest' =>
      obtain ⟨k', v'⟩ := e'
      obtain rfl : k = k' := (List.cons.inj keys).1
      have tail : OrderedMap.keys rest = OrderedMap.keys rest' := (List.cons.inj keys).2
      obtain ⟨fresh, unique⟩ := uniqueKeys_cons.mp unique
      have first := found k List.mem_cons_self
      simp only [find?, if_true] at first
      refine congrArg₂ List.cons (congrArg (Prod.mk k) (Option.some.inj first)) ?_
      refine ih unique tail fun key hkey => ?_
      have other : k ≠ key := (ne_of_mem_of_not_mem hkey fresh).symm
      simpa only [find?, if_neg other] using found key (List.mem_cons_of_mem _ hkey)

section restriction

theorem keys_filter (m : OrderedMap α) (p : String → Bool) :
    keys (m.filter fun e => p e.1) = m.keys.filter p :=
  (List.filter_map (f := Prod.fst) (p := p) (l := m)).symm

theorem find?_filter (m : OrderedMap α) (p : String → Bool) (key : String) :
    find? key (m.filter fun e => p e.1) = if p key then m.find? key else none := by
  induction m with
  | nil => simp
  | cons e rest ih =>
    obtain ⟨k, v⟩ := e
    by_cases hk : k = key
    · subst hk
      by_cases hp : p k <;> simp_all [find?]
    · by_cases hp : p k <;> simp_all [find?]

end restriction

section union

theorem keys_append (m m' : OrderedMap α) : keys (m ++ m') = m.keys ++ m'.keys := List.map_append

theorem find?_append (m m' : OrderedMap α) (key : String) :
    find? key (m ++ m') = (m.find? key).or (m'.find? key) := by
  rw [find?_eq_lookup, List.lookup_append, find?_eq_lookup, find?_eq_lookup]

theorem find?_map_entries (m : OrderedMap α) (f : String → α → α) (key : String) :
    find? key (m.map fun e => (e.1, f e.1 e.2)) = (m.find? key).map (f key) := by
  induction m with
  | nil => rfl
  | cons e rest ih =>
    obtain ⟨k, v⟩ := e
    by_cases hk : k = key
    · simp [find?, hk]
    · simpa [find?, hk] using ih

theorem keys_insert (m : OrderedMap α) (key : String) (v : α) :
    (m.insert key v).keys = m.keys ++ if key ∈ m.keys then [] else [key] := by
  split
  · next h => rw [keys_insert_of_mem h, List.append_nil]
  · next h => rw [insert_of_notMem h, keys, List.map_append]; rfl

/-- The keys of a union: the left ones, then those of the right that are new. -/
theorem keys_merged (a : OrderedMap α) (unique : b.UniqueKeys) :
    (a.merged b).keys = a.keys ++ b.keys.filter (· ∉ a.keys) := by
  induction b generalizing a with
  | nil => exact (List.append_nil _).symm
  | cons e rest ih =>
    obtain ⟨fresh, unique⟩ := uniqueKeys_cons.mp unique
    have rest_keys : ((a.insert e.1 e.2).merged rest).keys = _ := ih (a.insert e.1 e.2) unique
    have next : keys (e :: rest) = e.1 :: keys rest := rfl
    show ((a.insert e.1 e.2).merged rest).keys = _
    rw [rest_keys, keys_insert, next]
    by_cases h : e.1 ∈ a.keys
    · simp [h]
    · -- the new key does not occur again, so that it makes no difference to what follows
      have later : ∀ k ∈ keys rest, (decide (k ∉ a.keys ++ [e.1])) = decide (k ∉ a.keys) := by
        intro k hk
        have other : k ≠ e.1 := ne_of_mem_of_not_mem hk fresh
        simp [other]
      rw [if_neg h, List.filter_congr later, List.filter_cons_of_pos (by simpa using h),
        List.append_assoc]
      rfl

/-- In a union the right map is looked up first. -/
theorem find?_merged (a : OrderedMap α) (unique : b.UniqueKeys) (key : String) :
    (a.merged b).find? key = (b.find? key).or (a.find? key) := by
  induction b generalizing a with
  | nil => rfl
  | cons e rest ih =>
    obtain ⟨k, v⟩ := e
    obtain ⟨fresh, unique⟩ := uniqueKeys_cons.mp unique
    show ((a.insert k v).merged rest).find? key = _
    rw [ih (a.insert k v) unique, find?_insert]
    by_cases hk : k = key
    · subst hk
      rw [find?_eq_none_iff.mpr fresh]
      simp [find?]
    · simp [find?, hk]

/-- A map is the union of two others: it has the left keys and then those of the right that are new,
and what is on the right is found first. -/
structure IsUnion (a b ab : OrderedMap α) : Prop where
  unique : ab.UniqueKeys
  keys : ab.keys = a.keys ++ b.keys.filter (· ∉ a.keys)
  find? : ∀ key, ab.find? key = (b.find? key).or (a.find? key)

theorem isUnion_merged (ha : a.UniqueKeys) (hb : b.UniqueKeys) : IsUnion a b (a.merged b) :=
  ⟨uniqueKeys_merged ha b, keys_merged a hb, find?_merged a hb⟩

theorem nil_merged (unique : m.UniqueKeys) : merged [] m = m := ofPairs_of_uniqueKeys unique

theorem merged_self (unique : m.UniqueKeys) : m.merged m = m := by
  refine ext_find? (uniqueKeys_merged unique m) ?_ fun key _ => ?_
  · rw [keys_merged m unique, List.filter_eq_nil_iff.mpr (by simp), List.append_nil]
  · rw [find?_merged m unique, Option.or_self]

theorem merged_assoc (ha : a.UniqueKeys) (hb : b.UniqueKeys) (hc : c.UniqueKeys) :
    (a.merged b).merged c = a.merged (b.merged c) := by
  have hbc : (b.merged c).UniqueKeys := uniqueKeys_merged hb c
  refine ext_find? (uniqueKeys_merged (uniqueKeys_merged ha b) c) ?_ fun key _ => ?_
  · rw [keys_merged _ hc, keys_merged a hb, keys_merged a hbc, keys_merged b hc, List.filter_append,
      List.filter_filter, List.append_assoc]
    refine congrArg (fun later => a.keys ++ (b.keys.filter (· ∉ a.keys) ++ later)) ?_
    refine List.filter_congr fun key _ => ?_
    by_cases h : key ∈ a.keys <;> simp [h]
  · rw [find?_merged _ hc, find?_merged a hb, find?_merged a hbc, find?_merged b hc, Option.or_assoc]

/-- The entries of a union: the left ones with the values that the right map has for them, then those
of the right that are new. -/
theorem merged_eq_map_append (ha : a.UniqueKeys) (hb : b.UniqueKeys) :
    a.merged b = a.map (fun e => (e.1, (b.find? e.1).getD e.2)) ++
      b.filter fun e => e.1 ∉ a.keys := by
  refine ext_find? (uniqueKeys_merged ha b) ?_ fun key _ => ?_
  · have left : keys (a.map fun e => (e.1, (b.find? e.1).getD e.2)) = a.keys := by
      rw [keys, List.map_map]
      rfl
    have right : keys (b.filter fun e => e.1 ∉ a.keys) = b.keys.filter (· ∉ a.keys) :=
      keys_filter b (· ∉ a.keys)
    rw [keys_merged a hb, keys_append, left, right]
  · have right : find? key (b.filter fun e => e.1 ∉ a.keys) =
        if decide (key ∉ a.keys) then b.find? key else none := find?_filter b (· ∉ a.keys) key
    rw [find?_merged a hb, find?_append, find?_map_entries a fun k v => (b.find? k).getD v, right]
    by_cases h : key ∈ a.keys
    · obtain ⟨v, hv⟩ := Option.isSome_iff_exists.mp (containsKey_iff.mpr h)
      rw [hv]
      cases b.find? key <;> simp
    · rw [find?_eq_none_iff.mpr h]
      simp [h]

end union

section removal

/-- A key that occurs once is taken out where it is met. -/
theorem erase_eq_eraseP (unique : m.UniqueKeys) (key : String) :
    m.erase key = m.eraseP (·.1 = key) := by
  induction m with
  | nil => rfl
  | cons e rest ih =>
    obtain ⟨k, v⟩ := e
    obtain ⟨fresh, unique⟩ := uniqueKeys_cons.mp unique
    by_cases hk : k = key
    · subst hk
      have others : ∀ e ∈ rest, (e.1 ≠ k : Bool) := fun e he =>
        decide_eq_true (ne_of_mem_of_not_mem (mem_keys he) fresh)
      rw [erase, List.filter_cons_of_neg (by simp), List.filter_eq_self.mpr others,
        List.eraseP_cons_of_pos (by simp)]
    · rw [erase, List.filter_cons_of_pos (by simpa using hk),
        List.eraseP_cons_of_neg (by simpa using hk), ← ih unique]
      rfl

theorem withoutKeys_eq_filter (m : OrderedMap α) (removed : List String) :
    m.withoutKeys removed = m.filter fun e => e.1 ∉ removed := by
  induction removed generalizing m with
  | nil => simp [withoutKeys]
  | cons key rest ih =>
    show (m.erase key).withoutKeys rest = _
    rw [ih, erase, List.filter_filter]
    refine List.filter_congr fun e _ => ?_
    simp [Bool.and_comm]

theorem keys_withoutKeys (m : OrderedMap α) (removed : List String) :
    (m.withoutKeys removed).keys = m.keys.filter (· ∉ removed) := by
  rw [withoutKeys_eq_filter]
  exact keys_filter m (· ∉ removed)

theorem find?_withoutKeys (m : OrderedMap α) (removed : List String) (key : String) :
    (m.withoutKeys removed).find? key = if key ∈ removed then none else m.find? key := by
  rw [withoutKeys_eq_filter]
  exact (find?_filter m (· ∉ removed) key).trans (by simp)

/-- What is added to a map and taken away again leaves of the map what it had apart from that. -/
theorem merged_withoutKeys (ha : a.UniqueKeys) (hb : b.UniqueKeys) :
    (a.merged b).withoutKeys b.keys = a.withoutKeys b.keys := by
  have unique := uniqueKeys_withoutKeys (uniqueKeys_merged ha b) b.keys
  refine ext_find? unique ?_ fun key _ => ?_
  · have none_left : (b.keys.filter (· ∉ a.keys)).filter (· ∉ b.keys) = [] := by
      refine List.filter_eq_nil_iff.mpr fun k hk => ?_
      simp [(List.mem_filter.mp hk).1]
    rw [keys_withoutKeys, keys_withoutKeys, keys_merged a hb, List.filter_append, none_left,
      List.append_nil]
  · rw [find?_withoutKeys, find?_withoutKeys]
    split
    · rfl
    · next h => rw [find?_merged a hb, find?_eq_none_iff.mpr h, Option.none_or]

end removal
end ReactiveScript.OrderedMap
