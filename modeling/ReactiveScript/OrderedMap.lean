import ReactiveScript.Text.Numeral

/-!
# Ordered maps

A map is the list of its entries in order; every operation keeps keys unique (`UniqueKeys`). A key
that is written again keeps its place, except by `insertFirst`, which moves it to the front.
Equality of maps is not defined here: it does not look at the order.
-/

namespace ReactiveScript

/-- Entries of text keys in order. -/
abbrev OrderedMap (α : Type) := List (String × α)

namespace OrderedMap

variable {α β : Type}

def keys (m : OrderedMap α) : List String := m.map Prod.fst

def values (m : OrderedMap α) : List α := m.map Prod.snd

/-- No key occurs twice. -/
def UniqueKeys (m : OrderedMap α) : Prop := m.keys.Nodup

/-- The value under a key. -/
def find? (key : String) : OrderedMap α → Option α
  | [] => none
  | (k, v) :: rest => if k = key then some v else find? key rest

def containsKey (m : OrderedMap α) (key : String) : Bool := (find? key m).isSome

/-- Binds a key; a key that is present keeps its place. -/
def insert (key : String) (value : α) : OrderedMap α → OrderedMap α
  | [] => [(key, value)]
  | (k, v) :: rest => if k = key then (key, value) :: rest else (k, v) :: insert key value rest

/-- Removes a key; the others keep their order. -/
def erase (key : String) (m : OrderedMap α) : OrderedMap α := m.filter fun (k, _) => k ≠ key

/-- Binds a key in front of all others. -/
def insertFirst (key : String) (value : α) (m : OrderedMap α) : OrderedMap α :=
  (key, value) :: m.erase key

/-- Binds a key behind all others. -/
def insertLast (key : String) (value : α) (m : OrderedMap α) : OrderedMap α :=
  m.erase key ++ [(key, value)]

/-- The map of a list of pairs: a repeated key keeps its first place and its last value. -/
def ofPairs (pairs : List (String × α)) : OrderedMap α :=
  pairs.foldl (fun m (k, v) => m.insert k v) []

/-- The entries of `other` written over those of `m`. -/
def merged (m other : OrderedMap α) : OrderedMap α :=
  other.foldl (fun m (k, v) => m.insert k v) m

/-- The entries whose keys are not listed. -/
def withoutKeys (m : OrderedMap α) (removed : List String) : OrderedMap α :=
  removed.foldl (fun m k => m.erase k) m

/-- The key that stands for a position. -/
def positionKey (index : Nat) : String := "_" ++ Text.ofNat index

/-- The position that a key stands for, if it stands for one. -/
def positionOf (key : String) : Nat := Text.natOfDigits (key.toList.drop 1)

theorem positionOf_positionKey (index : Nat) : positionOf (positionKey index) = index := by
  have text : (positionKey index).toList = '_' :: Nat.toDigits 10 index := by
    rw [positionKey, String.toList_append]
    exact congrArg ('_' :: ·) String.toList_ofList
  rw [positionOf, text]
  exact Text.natOfDigits_toDigits index

theorem positionKey_injective {i j : Nat} (h : positionKey i = positionKey j) : i = j := by
  rw [← positionOf_positionKey i, h, positionOf_positionKey]

/-- Whether a key stands for a position from one on. -/
def isPositionFrom (index : Nat) (key : String) : Bool :=
  decide (index ≤ positionOf key) && positionKey (positionOf key) == key

theorem isPositionFrom_positionKey (index i : Nat) :
    isPositionFrom index (positionKey i) = decide (index ≤ i) := by
  rw [isPositionFrom, positionOf_positionKey, beq_self_eq_true, Bool.and_true]

theorem isPositionFrom_of_succ {index : Nat} {key : String} (h : isPositionFrom (index + 1) key) :
    isPositionFrom index key := by
  simp only [isPositionFrom, Bool.and_eq_true, decide_eq_true_eq] at h ⊢
  exact h.imp_left Nat.le_of_succ_le

/-- How many entries have the key of a position from one on. -/
def countFrom (index : Nat) (m : OrderedMap α) : Nat := m.countP fun e => isPositionFrom index e.1

theorem countFrom_cons (index : Nat) (e : String × α) (m : OrderedMap α) :
    countFrom index (e :: m) = countFrom index m + (isPositionFrom index e.1).toNat := by
  cases h : isPositionFrom index e.1 <;> simp [countFrom, h]

theorem countFrom_succ_le (index : Nat) (m : OrderedMap α) :
    countFrom (index + 1) m ≤ countFrom index m :=
  List.countP_mono_left fun _ _ => isPositionFrom_of_succ

/-- Behind a taken position there is one entry less that has the key of a position. -/
theorem countFrom_succ_lt {m : OrderedMap α} {index : Nat}
    (taken : m.containsKey (positionKey index)) : countFrom (index + 1) m < countFrom index m := by
  induction m with
  | nil => cases taken
  | cons e rest ih =>
    obtain ⟨k, v⟩ := e
    rw [countFrom_cons, countFrom_cons]
    by_cases hk : k = positionKey index
    · rw [hk, isPositionFrom_positionKey, isPositionFrom_positionKey,
        decide_eq_false (Nat.not_succ_le_self index), decide_eq_true (Nat.le_refl index)]
      exact Nat.lt_succ_of_le (countFrom_succ_le index rest)
    · have later : containsKey rest (positionKey index) := by
        rwa [containsKey, find?, if_neg hk] at taken
      have first : (isPositionFrom (index + 1) k).toNat ≤ (isPositionFrom index k).toNat := by
        cases h : isPositionFrom (index + 1) k with
        | false => exact Nat.zero_le _
        | true => exact Nat.le_of_eq (congrArg Bool.toNat (isPositionFrom_of_succ h)).symm
      exact Nat.add_lt_add_of_lt_of_le (ih later) first

/-- The first position from one on whose key is free. Each taken position leaves one entry less that
can be in the way. -/
def freeFrom (m : OrderedMap α) (index : Nat) : Nat :=
  if m.containsKey (positionKey index) then m.freeFrom (index + 1) else index
termination_by countFrom index m
decreasing_by exact countFrom_succ_lt ‹_›

/-- The least position from the size of the map on whose key is free. -/
def freshIndex (m : OrderedMap α) : Nat := m.freeFrom m.length

/-- A key that is not in the map. -/
def freshKey (m : OrderedMap α) : String := positionKey m.freshIndex

theorem freeFrom_of_taken {m : OrderedMap α} {index : Nat}
    (taken : m.containsKey (positionKey index) = true) :
    m.freeFrom index = m.freeFrom (index + 1) := by
  rw [freeFrom, if_pos taken]

theorem freeFrom_of_free {m : OrderedMap α} {index : Nat}
    (free : m.containsKey (positionKey index) = false) : m.freeFrom index = index := by
  rw [freeFrom, free, if_neg Bool.false_ne_true]

/-- The search ends at a key that is free. -/
theorem containsKey_freeFrom (m : OrderedMap α) (index : Nat) :
    m.containsKey (positionKey (m.freeFrom index)) = false := by
  induction index using freeFrom.induct m with
  | case1 index taken ih => rwa [freeFrom_of_taken taken]
  | case2 index free =>
    have free : m.containsKey (positionKey index) = false := Bool.eq_false_iff.mpr free
    rwa [freeFrom_of_free free]

/-- Which position is free depends on the keys only. -/
theorem freeFrom_congr {m : OrderedMap α} {m' : OrderedMap β}
    (same : ∀ key, m.containsKey key = m'.containsKey key) (index : Nat) :
    m.freeFrom index = m'.freeFrom index := by
  induction index using freeFrom.induct m with
  | case1 index taken ih =>
    have taken' : m'.containsKey (positionKey index) = true := same _ ▸ taken
    rw [freeFrom_of_taken taken, ih, freeFrom_of_taken taken']
  | case2 index free =>
    have free : m.containsKey (positionKey index) = false := Bool.eq_false_iff.mpr free
    have free' : m'.containsKey (positionKey index) = false := same _ ▸ free
    rw [freeFrom_of_free free, freeFrom_of_free free']

@[simp] theorem find?_nil (key : String) : find? key ([] : OrderedMap α) = none := rfl

theorem find?_insert (m : OrderedMap α) (key key' : String) (value : α) :
    (m.insert key value).find? key' = if key = key' then some value else m.find? key' := by
  induction m with
  | nil => simp [insert, find?]
  | cons e rest ih =>
    obtain ⟨k, v⟩ := e
    by_cases hk : k = key
    · subst hk
      by_cases hk' : k = key' <;> simp [insert, find?, hk']
    · by_cases hk' : k = key'
      · subst hk'
        simp [insert, find?, hk, Ne.symm hk]
      · simp [insert, find?, hk, hk', ih]

theorem find?_erase (m : OrderedMap α) (key key' : String) :
    (m.erase key).find? key' = if key = key' then none else m.find? key' := by
  induction m with
  | nil => simp [erase]
  | cons e rest ih =>
    obtain ⟨k, v⟩ := e
    simp only [erase] at ih
    by_cases hk : k = key
    · subst hk
      by_cases hk' : k = key' <;> simp_all [erase, find?]
    · by_cases hk' : k = key'
      · subst hk'
        simp [erase, find?, hk, Ne.symm hk]
      · simp_all [erase, find?]

theorem mem_values_of_find? {m : OrderedMap α} {key : String} {value : α}
    (h : m.find? key = some value) : value ∈ m.values := by
  induction m with
  | nil => simp at h
  | cons e rest ih =>
    obtain ⟨k, v⟩ := e
    by_cases hk : k = key
    · simp only [find?, if_pos hk, Option.some.injEq] at h
      simp [values, h]
    · simp only [find?, if_neg hk] at h
      exact List.mem_cons_of_mem _ (ih h)

theorem eq_or_mem_of_mem_values_insert {m : OrderedMap α} {key : String} {value a : α}
    (h : a ∈ (m.insert key value).values) : a = value ∨ a ∈ m.values := by
  induction m with
  | nil => exact .inl (by simpa [insert, values] using h)
  | cons e rest ih =>
    obtain ⟨k, v⟩ := e
    by_cases hk : k = key
    · simp only [insert, if_pos hk, values, List.map_cons, List.mem_cons] at h ⊢
      exact h.imp_right .inr
    · simp only [insert, if_neg hk, values, List.map_cons, List.mem_cons] at h ih ⊢
      rcases h with rfl | h
      · exact .inr (.inl rfl)
      · exact (ih h).imp_right .inr

theorem mem_values_of_mem_erase {m : OrderedMap α} {key : String} {a : α}
    (h : a ∈ (m.erase key).values) : a ∈ m.values := by
  simp only [values, erase, List.mem_map, List.mem_filter] at h ⊢
  obtain ⟨e, ⟨he, _⟩, rfl⟩ := h
  exact ⟨e, he, rfl⟩

theorem eq_or_mem_of_mem_values_insertLast {m : OrderedMap α} {key : String} {value a : α}
    (h : a ∈ (m.insertLast key value).values) : a = value ∨ a ∈ m.values := by
  simp only [insertLast, values, List.map_append, List.mem_append, List.map_cons, List.map_nil,
    List.mem_singleton] at h
  exact h.symm.imp_right mem_values_of_mem_erase

end OrderedMap
end ReactiveScript
