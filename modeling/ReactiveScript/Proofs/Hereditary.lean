import ReactiveScript.Proofs.Keys
import ReactiveScript.Proofs.Numerals
import ReactiveScript.Value.Cast
import ReactiveScript.Value.Container

/-!
# Hereditary properties of values

A property that lists, maps and tagged values have by what is in them, and that everything without
parts has, is handed on by the operations: if the operands have it, so has the result. It may also
ask that no map has a key twice, for no operation writes a key twice.
-/

namespace ReactiveScript

namespace OrderedMap

variable {α : Type} {m other : OrderedMap α} {a : α}

theorem mem_values_of_mem_values_merged (h : a ∈ (m.merged other).values) :
    a ∈ m.values ∨ a ∈ other.values := by
  induction other generalizing m with
  | nil => exact .inl h
  | cons e rest ih =>
    rcases ih (m := m.insert e.1 e.2) h with h | h
    · rcases eq_or_mem_of_mem_values_insert h with rfl | h
      · exact .inr List.mem_cons_self
      · exact .inl h
    · exact .inr (List.mem_cons_of_mem _ h)

theorem mem_values_of_mem_values_withoutKeys {removed : List String}
    (h : a ∈ (m.withoutKeys removed).values) : a ∈ m.values := by
  induction removed generalizing m with
  | nil => exact h
  | cons key rest ih => exact mem_values_of_mem_erase (ih h)

theorem eq_or_mem_of_mem_values_insertFirst {key : String} {value : α}
    (h : a ∈ (m.insertFirst key value).values) : a = value ∨ a ∈ m.values :=
  (List.mem_cons.mp h).imp_right mem_values_of_mem_erase

/-- Positions are keys that differ. -/
theorem uniqueKeys_zipIdx (items : List α) :
    UniqueKeys (items.zipIdx.map fun (a, i) => (positionKey i, a)) := by
  have positions : keys (items.zipIdx.map fun (a, i) => (positionKey i, a)) =
      (List.range' 0 items.length).map positionKey := by
    rw [keys, List.map_map, ← List.zipIdx_map_snd, List.map_map]
    rfl
  rw [UniqueKeys, positions]
  exact List.Nodup.map (fun _ _ => positionKey_injective) List.nodup_range'

end OrderedMap

namespace Value

/-- A value that is no node and has no parts. -/
def IsDatum : Value → Prop
  | list _ | map _ | tagged _ _ | node _ => False
  | _ => True

/-- A property that a value has by what is in it. If `keyed` holds, the keys of maps differ too. -/
structure Hereditary (keyed : Prop) (P : Value → Prop) : Prop where
  datum : ∀ {v : Value}, v.IsDatum → P v
  list : ∀ {items : List Value}, P (list items) ↔ ∀ v ∈ items, P v
  map : ∀ {entries : OrderedMap Value},
    P (map entries) ↔ (keyed → entries.UniqueKeys) ∧ ∀ v ∈ entries.values, P v
  tagged : ∀ {v : Value} {m : Metadata}, P (tagged v m) ↔ P v

/-- A result has a property, if there is one. -/
def Yields (P : Value → Prop) (r : Except EvalError Value) : Prop := ∀ v, r = .ok v → P v

theorem isDatum_ofExact (n : Int) (d : Decimal) : (ofExact n d).IsDatum := by
  unfold ofExact
  split <;> trivial

theorem isDatum_decimalProduct (a b : Decimal) : (decimalProduct a b).IsDatum := by
  unfold decimalProduct
  split <;> trivial

theorem isDatum_byDivisor (f : Decimal → Decimal → Decimal) (a b : Decimal) :
    (byDivisor f a b).IsDatum := by
  unfold byDivisor
  split <;> trivial

namespace Yields

variable {P : Value → Prop}

theorem ok {v : Value} (h : P v) : Yields P (.ok v) := by
  intro w hw
  cases hw
  exact h

theorem error (e : EvalError) : Yields P (.error e) := by
  intro v h
  cases h

theorem bind {α : Type} {x : Except EvalError α} {f : α → Except EvalError Value}
    (h : ∀ a, Yields P (f a)) : Yields P (x >>= f) := by
  cases x with
  | error e => exact error e
  | ok a => exact h a

theorem onDecimals (operation : String) {f : Decimal → Decimal → Value} (hf : ∀ a b, P (f a b))
    (v w : Value) : Yields P (onDecimals operation f v w) := by
  unfold Value.onDecimals
  split
  · exact ok (hf _ _)
  · exact error _

end Yields

namespace Hereditary

variable {keyed : Prop} {P : Value → Prop} {v w u : Value}
variable {items others : List Value} {entries : OrderedMap Value}
variable (hP : Hereditary keyed P)
include hP

theorem untagged : P v.untagged ↔ P v := by
  induction v using Value.untagged.induct with
  | case1 v m ih => exact ih.trans hP.tagged.symm
  | case2 v hv => cases v <;> first | rfl | exact absurd rfl (hv _ _)

theorem withMetadata (hv : P v) (m : Metadata) : P (v.withMetadata m) := by
  cases v with
  | tagged v old => exact hP.tagged.mpr (hP.tagged.mp hv)
  | _ => exact hP.tagged.mpr hv

theorem ints (ns : List Int64) : P (.list (ns.map int)) := by
  refine hP.list.mpr fun v hv => ?_
  obtain ⟨n, -, rfl⟩ := List.mem_map.mp hv
  exact hP.datum trivial

theorem expandRange (hv : P v) : P v.expandRange := by
  unfold Value.expandRange
  split
  · exact hP.ints _
  · exact hv

theorem cons (hv : P v) (hi : P (.list items)) : P (.list (v :: items)) :=
  hP.list.mpr (List.forall_mem_cons.mpr ⟨hv, hP.list.mp hi⟩)

theorem append (hi : P (.list items)) (ho : P (.list others)) : P (.list (items ++ others)) :=
  hP.list.mpr (List.forall_mem_append.mpr ⟨hP.list.mp hi, hP.list.mp ho⟩)

theorem nil : P (.list []) := hP.list.mpr fun _ h => nomatch h

theorem concat (hi : P (.list items)) (hv : P v) : P (.list (items ++ [v])) :=
  hP.append hi (hP.cons hv hP.nil)

theorem filter (p : Value → Bool) (hi : P (.list items)) : P (.list (items.filter p)) :=
  hP.list.mpr fun v hv => hP.list.mp hi v (List.mem_filter.mp hv).1

theorem repeatItems (times : Nat) (hi : P (.list items)) :
    P (.list (repeatItems times items)) := by
  refine hP.list.mpr fun v hv => ?_
  unfold Value.repeatItems at hv
  split at hv
  · cases hv
  · obtain ⟨copy, hc, hv⟩ := List.mem_flatten.mp hv
    rw [List.eq_of_mem_replicate hc] at hv
    exact hP.list.mp hi v hv

theorem insert (he : P (.map entries)) (hv : P v) (key : String) :
    P (.map (OrderedMap.insert key v entries)) := by
  obtain ⟨unique, inside⟩ := hP.map.mp he
  refine hP.map.mpr ⟨fun k => OrderedMap.uniqueKeys_insert (unique k) key v, fun u hu => ?_⟩
  rcases OrderedMap.eq_or_mem_of_mem_values_insert hu with rfl | hu
  · exact hv
  · exact inside u hu

theorem insertFirst (he : P (.map entries)) (hv : P v) (key : String) :
    P (.map (OrderedMap.insertFirst key v entries)) := by
  obtain ⟨unique, inside⟩ := hP.map.mp he
  refine hP.map.mpr ⟨fun k => OrderedMap.uniqueKeys_insertFirst (unique k) key v, fun u hu => ?_⟩
  rcases OrderedMap.eq_or_mem_of_mem_values_insertFirst hu with rfl | hu
  · exact hv
  · exact inside u hu

theorem insertLast (he : P (.map entries)) (hv : P v) (key : String) :
    P (.map (OrderedMap.insertLast key v entries)) := by
  obtain ⟨unique, inside⟩ := hP.map.mp he
  refine hP.map.mpr ⟨fun k => OrderedMap.uniqueKeys_insertLast (unique k) key v, fun u hu => ?_⟩
  rcases OrderedMap.eq_or_mem_of_mem_values_insertLast hu with rfl | hu
  · exact hv
  · exact inside u hu

theorem merged {added : OrderedMap Value} (he : P (.map entries)) (ha : P (.map added)) :
    P (.map (OrderedMap.merged entries added)) := by
  obtain ⟨unique, inside⟩ := hP.map.mp he
  refine hP.map.mpr ⟨fun k => OrderedMap.uniqueKeys_merged (unique k) added, fun v hv => ?_⟩
  rcases OrderedMap.mem_values_of_mem_values_merged hv with hv | hv
  · exact inside v hv
  · exact (hP.map.mp ha).2 v hv

theorem erase (he : P (.map entries)) (key : String) :
    P (.map (OrderedMap.erase key entries)) := by
  obtain ⟨unique, inside⟩ := hP.map.mp he
  exact hP.map.mpr ⟨fun k => OrderedMap.uniqueKeys_erase (unique k) key,
    fun v hv => inside v (OrderedMap.mem_values_of_mem_erase hv)⟩

theorem withoutKeys (he : P (.map entries)) (removed : List String) :
    P (.map (OrderedMap.withoutKeys entries removed)) := by
  obtain ⟨unique, inside⟩ := hP.map.mp he
  exact hP.map.mpr ⟨fun k => OrderedMap.uniqueKeys_withoutKeys (unique k) removed,
    fun v hv => inside v (OrderedMap.mem_values_of_mem_values_withoutKeys hv)⟩

theorem pair (key : String) (hv : P v) : P (pair key v) :=
  hP.map.mpr ⟨fun _ => List.nodup_singleton key, List.forall_mem_singleton.mpr hv⟩

theorem find? (he : P (.map entries)) (key : String) :
    P ((OrderedMap.find? key entries).getD void) := by
  cases h : OrderedMap.find? key entries with
  | none => exact hP.datum trivial
  | some v => exact (hP.map.mp he).2 v (OrderedMap.mem_values_of_find? h)

/-! ### Arithmetic -/

theorem sum (hv : P v) (hw : P w) : Yields P (sum v w) := by
  unfold Value.sum
  split
  · exact .ok (hP.merged hv hw)
  · exact .ok (hP.datum trivial)
  · exact .ok (hP.insert hv hw _)
  · exact .ok hw
  · exact .ok hv
  · exact .ok (hP.append hv hw)
  · exact .ok (hP.concat hv hw)
  · exact .ok (hP.datum trivial)
  · exact .ok (hP.datum trivial)
  · exact .ok (hP.cons hv hw)
  · exact .ok (hP.datum (isDatum_ofExact _ _))
  · exact .onDecimals "+" (fun a b => hP.datum (v := decimal (a.add b)) trivial) _ _

theorem difference (hv : P v) : Yields P (difference v w) := by
  unfold Value.difference
  split
  · exact .ok (hP.datum trivial)
  · exact .ok hv
  · exact .ok (hP.withoutKeys hv _)
  · exact .ok (hP.erase hv _)
  · exact .ok (hP.filter _ hv)
  · exact .ok (hP.filter _ hv)
  · exact .ok (hP.datum trivial)
  · exact .ok (hP.datum (isDatum_ofExact _ _))
  · exact .onDecimals "-" (fun a b => hP.datum (v := decimal (a.sub b)) trivial) _ _

theorem product (hv : P v) : Yields P (product v w) := by
  unfold Value.product
  split
  · exact .ok (hP.datum trivial)
  · exact .ok (hP.datum trivial)
  · exact .error _
  · exact .bind fun _ => .ok (hP.datum trivial)
  · exact .bind fun times => .ok (hP.repeatItems times hv)
  · split
    · exact .ok (hP.datum trivial)
    · exact .ok (hP.datum (isDatum_decimalProduct _ _))
  · exact .onDecimals "*" (fun a b => hP.datum (isDatum_decimalProduct a b)) _ _

theorem quotient : Yields P (quotient v w) := by
  unfold Value.quotient
  split
  · exact .ok (hP.datum trivial)
  · exact .ok (hP.datum trivial)
  · exact .error _
  · split
    · exact .ok (hP.datum trivial)
    · exact .ok (hP.datum (isDatum_ofExact _ _))
  · exact .onDecimals "/" (fun a b => hP.datum (isDatum_byDivisor _ a b)) _ _

theorem remainder : Yields P (remainder v w) := by
  unfold Value.remainder
  split
  · exact .ok (hP.datum trivial)
  · exact .ok (hP.datum trivial)
  · exact .error _
  · split
    · exact .ok (hP.datum trivial)
    · exact .ok (hP.datum trivial)
  · exact .onDecimals "%" (fun a b => hP.datum (isDatum_byDivisor _ a b)) _ _

/-- An operation that passes error operands on hands the property on if it does so otherwise. -/
theorem passing {f : Value → Value → Except EvalError Value} (hv : P v) (hw : P w)
    (hf : Yields P (f v.untagged w.untagged)) :
    Yields P (match errorOperand? v.untagged w.untagged with
      | some e => .ok e
      | none => f v.untagged w.untagged) := by
  cases he : errorOperand? v.untagged w.untagged with
  | none => exact hf
  | some e =>
    refine .ok ?_
    unfold errorOperand? at he
    split at he
    · cases he
      exact hP.untagged.mpr hv
    · split at he
      · cases he
        exact hP.untagged.mpr hw
      · cases he

theorem plus (hv : P v) (hw : P w) : Yields P (plus v w) :=
  hP.passing (f := fun v w => Value.sum v.expandRange w.expandRange) hv hw
    (hP.sum (hP.expandRange (hP.untagged.mpr hv)) (hP.expandRange (hP.untagged.mpr hw)))

theorem minus (hv : P v) (hw : P w) : Yields P (minus v w) :=
  hP.passing (f := fun v w => Value.difference v.expandRange w) hv hw
    (hP.difference (hP.expandRange (hP.untagged.mpr hv)))

theorem multiply (hv : P v) (hw : P w) : Yields P (multiply v w) :=
  hP.passing hv hw (hP.product (hP.untagged.mpr hv))

theorem divide (hv : P v) (hw : P w) : Yields P (divide v w) := hP.passing hv hw hP.quotient

theorem modulus (hv : P v) (hw : P w) : Yields P (modulus v w) := hP.passing hv hw hP.remainder

theorem negate (hv : P v) : P v.negate := by
  have h := hP.untagged.mpr hv
  unfold Value.negate
  split
  · exact hP.datum (isDatum_ofExact _ _)
  · exact hP.datum trivial
  · exact hP.datum trivial
  · exact hP.datum trivial
  · next items he =>
    rw [he] at h
    exact hP.list.mpr fun u hu => hP.list.mp h u (List.mem_reverse.mp hu)
  · next entries he =>
    rw [he] at h
    obtain ⟨unique, inside⟩ := hP.map.mp h
    refine hP.map.mpr ⟨fun k => OrderedMap.uniqueKeys_reverse (unique k), fun u hu => inside u ?_⟩
    rw [OrderedMap.values, List.map_reverse] at hu
    exact List.mem_reverse.mp hu
  · exact hP.datum trivial
  · exact h

theorem abs (hv : P v) : P v.abs := by
  unfold Value.abs
  split
  · exact hP.datum (isDatum_ofExact _ _)
  · exact hP.datum trivial
  · exact hP.untagged.mpr hv

/-! ### Comparison and truth -/

theorem comparison (test : Ordering → Bool) (hv : P v) (hw : P w) : P (comparison test v w) := by
  unfold Value.comparison
  split
  · exact hv
  · split
    · exact hw
    · exact hP.datum trivial

theorem equalTo (hv : P v) (hw : P w) : P (equalTo v w) := by
  unfold Value.equalTo
  split
  · exact hv
  · split
    · exact hw
    · exact hP.datum trivial

theorem notEqualTo (hv : P v) (hw : P w) : P (notEqualTo v w) := by
  unfold Value.notEqualTo
  split
  · exact hP.datum trivial
  · exact hP.equalTo hv hw

theorem logicalNot (hv : P v) : P v.logicalNot := by
  unfold Value.logicalNot
  split <;> first | exact hv | exact hP.datum trivial

/-! ### Containers -/

theorem size (hv : P v) : P v.size := by
  unfold Value.size
  split <;> first | exact hv | exact hP.datum trivial

theorem get (hv : P v) (key : Value) : Yields P (v.get key) := by
  have h := hP.untagged.mpr hv
  unfold Value.get
  split
  · exact .ok hv
  · next entries he =>
    rw [he] at h
    split
    · refine .ok ?_
      cases he : (position? key).bind fun i => entries[i]? with
      | none => exact hP.datum trivial
      | some e =>
        obtain ⟨i, -, hi⟩ := Option.bind_eq_some_iff.mp he
        exact hP.pair e.1 ((hP.map.mp h).2 e.2 (List.mem_map_of_mem (List.mem_of_getElem? hi)))
    · exact .ok (hP.find? h _)
  · next items he =>
    rw [he] at h
    refine .ok ?_
    cases he : (position? key).bind fun i => items[i]? with
    | none => exact hP.datum trivial
    | some u =>
      obtain ⟨i, -, hi⟩ := Option.bind_eq_some_iff.mp he
      exact hP.list.mp h u (List.mem_of_getElem? hi)
  · next s he =>
    refine .ok ?_
    cases (position? key).bind fun i => s.toList[i]? <;> exact hP.datum trivial
  · next r he =>
    refine .ok ?_
    cases (position? key).bind r.get? <;> exact hP.datum trivial
  · exact .error _

theorem addEntry {add : String → Value → OrderedMap Value → OrderedMap Value}
    (hadd : ∀ key {u}, P u → P (.map (add key u entries))) (hv : P v) :
    P (addEntry add entries v) := by
  have h := hP.untagged.mpr hv
  unfold Value.addEntry
  split
  · next key u he =>
    rw [he] at h
    exact hadd key ((hP.map.mp h).2 u List.mem_cons_self)
  · exact hadd _ h

theorem appended (hv : P v) (hw : P w) : P (v.append w) := by
  have h := hP.untagged.mpr hv
  unfold Value.append
  split
  · exact hP.datum trivial
  · next entries he =>
    rw [he] at h
    exact hP.addEntry (fun key _ hu => hP.insertLast h hu key) hw
  · next items he =>
    rw [he] at h
    exact hP.concat h hw
  · exact hP.datum trivial
  · exact hP.cons hw hP.nil
  · exact hP.cons h (hP.cons hw hP.nil)

theorem prepended (hv : P v) (hw : P w) : P (v.prepend w) := by
  have h := hP.untagged.mpr hv
  unfold Value.prepend
  split
  · exact hP.datum trivial
  · next entries he =>
    rw [he] at h
    exact hP.addEntry (fun key _ hu => hP.insertFirst h hu key) hw
  · next items he =>
    rw [he] at h
    exact hP.cons hw h
  · exact hP.datum trivial
  · exact hP.cons hw hP.nil
  · exact hP.cons hw (hP.cons h hP.nil)

theorem set (hv : P v) (key : Value) (hu : P u) : Yields P (v.set key u) := by
  have h := hP.untagged.mpr hv
  unfold Value.set
  split
  · exact .ok (hP.datum trivial)
  · next entries he =>
    rw [he] at h
    exact .ok (hP.insert h hu _)
  · exact .ok (hP.pair _ hu)
  · next items he =>
    rw [he] at h
    split
    · split
      · refine .ok (hP.list.mpr fun x hx => ?_)
        rcases List.mem_or_eq_of_mem_set hx with hx | rfl
        · exact hP.list.mp h x hx
        · exact hu
      · split
        · exact .ok (hP.concat h hu)
        · exact .error _
    · exact .error _
  · exact .error _

/-! ### Casts -/

theorem toItems (hv : P v) : P (.list v.toItems) := by
  unfold Value.toItems
  split
  · exact hv
  · exact hP.nil
  · refine hP.list.mpr fun u hu => ?_
    obtain ⟨e, he, rfl⟩ := List.mem_map.mp hu
    exact hP.pair e.1 ((hP.map.mp hv).2 e.2 (List.mem_map_of_mem he))
  · exact hP.ints _
  · exact hP.cons hv hP.nil

theorem toEntries (hv : P v) : P (.map v.toEntries) := by
  unfold Value.toEntries
  split
  · exact hv
  · exact hP.map.mpr ⟨fun _ => OrderedMap.uniqueKeys_nil, fun _ h => nomatch h⟩
  · next items =>
    refine hP.map.mpr ⟨fun _ => OrderedMap.uniqueKeys_zipIdx items, fun u hu => ?_⟩
    obtain ⟨e, he, rfl⟩ := List.mem_map.mp hu
    obtain ⟨⟨w, i⟩, hw, rfl⟩ := List.mem_map.mp he
    exact hP.list.mp hv w (List.fst_mem_of_mem_zipIdx hw)
  · exact hP.pair _ hv

theorem cast (hv : P v) (target : TypeTag) : Yields P (v.cast target) := by
  have h := hP.untagged.mpr hv
  unfold Value.cast
  dsimp only
  split
  · exact .ok h
  · cases target with
    | list => exact .ok (hP.toItems h)
    | map => exact .ok (hP.toEntries h)
    | boolean | string | void => exact .ok (hP.datum trivial)
    | decimal =>
      cases v.untagged.toDecimal? with
      | none => exact .error _
      | some d => exact .ok (hP.datum trivial)
    | integer =>
      cases v.untagged.toInteger? with
      | none => exact .error _
      | some n => exact .ok (hP.datum trivial)
    | range | error | any => exact .error _

/-! ### JSON -/

omit hP in
mutual

theorem ofJson (hP : Hereditary keyed P) (t : JsonTree) : P (ofJson t) := by
  cases t with
  | int n =>
    rw [Value.ofJson]
    split <;> exact hP.datum trivial
  | arr items => exact hP.list.mpr (hP.itemsOfJson items)
  | obj entries =>
    refine hP.map.mpr ⟨fun _ => OrderedMap.uniqueKeys_ofPairs _, fun v hv => ?_⟩
    rcases OrderedMap.mem_values_of_mem_values_merged (m := []) hv with hv | hv
    · cases hv
    · exact hP.entriesOfJson entries v hv
  | _ => exact hP.datum trivial

theorem itemsOfJson (hP : Hereditary keyed P) (trees : List JsonTree) :
    ∀ v ∈ itemsOfJson trees, P v := by
  cases trees with
  | nil => exact fun _ h => nomatch h
  | cons t rest => exact List.forall_mem_cons.mpr ⟨hP.ofJson t, hP.itemsOfJson rest⟩

theorem entriesOfJson (hP : Hereditary keyed P) (entries : List (String × JsonTree)) :
    ∀ v ∈ OrderedMap.values (entriesOfJson entries), P v := by
  cases entries with
  | nil => exact fun _ h => nomatch h
  | cons e rest => exact List.forall_mem_cons.mpr ⟨hP.ofJson e.2, hP.entriesOfJson rest⟩

end

theorem readJson (text : String) : Yields P (readJson text) := by
  unfold Value.readJson
  split
  · exact .ok (hP.ofJson _)
  · exact .error _

end Hereditary
end Value
end ReactiveScript
