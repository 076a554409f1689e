import ReactiveScript.Method
import ReactiveScript.Proofs.ErrorOperands
import ReactiveScript.Proofs.Keys

/-!
# Laws of access to containers

The key of an operation is any expression that settles, and each operation reads the settled key in
its own way: removal as an operand of subtraction, membership as a text, a position or an equal
item. What one operation writes the others find, except that removal takes void for nothing to be
removed. An error as the receiver is passed on by the operations that answer with a container, an
element or a size, and searched like any value by the two that answer with a truth value.
-/

namespace ReactiveScript

open Eval

namespace Value

theorem held_withMetadata (v : Value) (m : Metadata) : (v.withMetadata m).held = v.held := by
  cases v <;> simp only [withMetadata, held]

@[simp] theorem held_joined (v : Value) : v.joined.held = v.held := by
  induction v using joined.induct with
  | case1 v m ih => rw [joined, held_withMetadata, ih, held]
  | case2 v plain => rw [joined.eq_2 v plain]

@[simp] theorem isNode_untagged (v : Value) : v.untagged.isNode = v.isNode := by
  rw [isNode, asNode?, untagged_untagged, isNode, asNode?]

/-- A value whose case is known is no node. -/
theorem isNode_of_untagged {v w : Value} (h : v.untagged = w) (hw : w.isNode = false) :
    v.isNode = false := by
  rw [← isNode_untagged, h, hw]

section operations

variable {v k c : Value} {entries : OrderedMap Value} {items : List Value} {e : EvalError}

theorem errorOperand?_eq_none (hv : v.asError? = none) (hk : k.asError? = none) :
    errorOperand? v k = none := by
  rw [errorOperand?, isError, isError, hv, hk]
  rfl

/-- A key is taken out of a map by its text, if it is not void. -/
theorem difference_map (entries : OrderedMap Value) (concrete : k.untagged = k)
    (single : k.asMap? = none) :
    difference (map entries) k =
      .ok (map (if k.isVoid then entries else entries.erase k.display)) := by
  cases k with
  | tagged k m => exact absurd concrete (untagged_ne_tagged _ _ _)
  | map others => cases single
  | _ => rfl

/-- All items that are equal to one are taken out of a list, if it is not void. -/
theorem difference_list (items : List Value) (concrete : k.untagged = k)
    (single : k.asList? = none) :
    difference (list items) k =
      .ok (list (if k.isVoid then items else items.filter fun w => !w.same k)) := by
  cases k with
  | tagged k m => exact absurd concrete (untagged_ne_tagged _ _ _)
  | list others => cases single
  | _ => rfl

theorem minus_eq_difference (hv : v.untagged = c) (expanded : c.expandRange = c)
    (receiver : c.asError? = none) (settled : k.asError? = none) :
    v.minus k = difference c k.untagged := by
  have none : errorOperand? c k.untagged = none :=
    errorOperand?_eq_none receiver (by rw [asError?_untagged, settled])
  rw [minus, hv, none, expanded]

theorem minus_map (hv : v.untagged = map entries) (settled : k.asError? = none)
    (single : k.asMap? = none) :
    v.minus k = .ok (map (if k.isVoid then entries else entries.erase k.display)) := by
  have concrete := difference_map entries (untagged_untagged k)
    (by rw [asMap?, untagged_untagged, ← asMap?, single])
  rw [minus_eq_difference hv rfl rfl settled, concrete, isVoid, untagged_untagged, ← isVoid,
    display_untagged]

theorem minus_list (hv : v.untagged = list items) (settled : k.asError? = none)
    (single : k.asList? = none) :
    v.minus k = .ok (list (if k.isVoid then items else items.filter fun w => !w.same k)) := by
  have concrete := difference_list items (untagged_untagged k)
    (by rw [asList?, untagged_untagged, ← asList?, single])
  simp only [same_untagged] at concrete
  rw [minus_eq_difference hv rfl rfl settled, concrete, isVoid, untagged_untagged, ← isVoid]

/-- A list is written at a position up to its end, and nowhere else. -/
theorem set_list {p : Nat} (hk : position? k = some p) (le : p ≤ items.length) (x : Value) :
    ∃ after : List Value, (∀ u : Value, u.untagged = list items → u.set k x = .ok (list after)) ∧
      after[p]? = some x ∧ (∀ j, j ≠ p → after[j]? = items[j]?) ∧
      after.length = max items.length (p + 1) := by
  rcases Nat.lt_or_eq_of_le le with lt | rfl
  · refine ⟨items.set p x, fun u hu => ?_, List.getElem?_set_self lt,
      fun j hj => List.getElem?_set_ne (Ne.symm hj), ?_⟩
    · rw [set, hu]
      simp only [hk, if_pos lt]
    · rw [List.length_set, Nat.max_eq_left lt]
  · refine ⟨items ++ [x], fun u hu => ?_, List.getElem?_concat_length, fun j hj => ?_, ?_⟩
    · rw [set, hu]
      simp only [hk, Nat.lt_irrefl, if_false, if_true]
    · rcases Nat.lt_or_gt_of_ne hj with lt | gt
      · exact List.getElem?_append_left lt
      · rw [List.getElem?_eq_none (by simpa using Nat.succ_le_of_lt gt),
          List.getElem?_eq_none (Nat.le_of_lt gt)]
    · rw [List.length_append, Nat.max_eq_right (Nat.le_succ _), List.length_singleton]

theorem set_list_of_outside (hv : v.untagged = list items)
    (outside : ∀ p, position? k = some p → items.length < p) (x : Value) :
    v.set k x = .error (EvalError.typeMismatch "set" "LIST" k.typeName) := by
  rw [set, hv]
  cases hk : position? k with
  | none => rfl
  | some p =>
    have lt := outside p hk
    simp only [if_neg (Nat.not_lt_of_gt lt), if_neg (Nat.ne_of_gt lt)]

theorem untagged_of_asError? (hv : v.asError? = some e) : v.untagged = error e := by
  unfold asError? at hv
  split at hv
  · next e' h => rw [h, Option.some.inj hv]
  · cases hv

/-- An error receiver is passed on by the operations that answer with an element, a container or a
size. -/
theorem operations_pass_error (hv : v.asError? = some e) (k x : Value) :
    (∃ r, v.get k = .ok r ∧ r.asError? = some e) ∧ (∃ r, v.minus k = .ok r ∧ r.asError? = some e) ∧
      (∃ r, v.set k x = .ok r ∧ r.asError? = some e) ∧ v.size.asError? = some e ∧
      (v.append k).asError? = some e ∧ (v.prepend k).asError? = some e := by
  have he := untagged_of_asError? hv
  have first : errorOperand? (error e) k.untagged = some (error e) := rfl
  refine ⟨⟨v, by rw [get, he], hv⟩, ⟨error e, by rw [minus, he, first], rfl⟩,
    ⟨error e, by rw [set, he], rfl⟩, ?_, ?_, ?_⟩
  · rw [size, he]
    exact hv
  · rw [append, he]
    rfl
  · rw [prepend, he]
    rfl

theorem get_map (hv : v.untagged = map entries) (hk : k.asInt? = none) :
    v.get k = .ok ((OrderedMap.find? k.display entries).getD void) := by
  rw [get, hv]
  simp only [hk]

theorem get_list (hv : v.untagged = list items) :
    v.get k = .ok (((position? k).bind fun i => items[i]?).getD void) := by
  rw [get, hv]

theorem containsKey_map (hv : v.untagged = map entries) :
    v.containsKey k = OrderedMap.containsKey entries k.display := by
  rw [containsKey, hv]

theorem containsKey_list (hv : v.untagged = list items) :
    v.containsKey k = (position? k).any fun i => i < items.length := by
  rw [containsKey, hv]

theorem has_list (hv : v.untagged = list items) : v.has k = items.any fun w => w.same k := by
  rw [has, hv]

theorem size_map (hv : v.untagged = map entries) : v.size = ofSize entries.length := by
  rw [size, hv]

theorem size_list (hv : v.untagged = list items) : v.size = ofSize items.length := by
  rw [size, hv]

theorem position?_eq {i : Int64} (hk : k.asInt? = some i) :
    position? k = if 0 ≤ i.toInt then some i.toInt.toNat else none := by
  rw [position?, hk]
  rfl

end operations
end Value

namespace Method

variable {m : Method} {v k x y : Value} {r : Except EvalError Value}

/-- A method of a value gives a result for a settled key, whatever is forced to that key, and does
nothing besides forcing it. -/
def Answers (m : Method) (v k x : Value) (r : Except EvalError Value) : Prop :=
  ∀ key w w', (holding v.held (Eval.fixDeep key)).Ends w (.ok k) w' → (m.call v key x).Ends w r w'

theorem Answers.of_onOperands {f : Value → Value → Except EvalError Value}
    (hm : ∀ key, m.call v key x = onOperands f v key) (hv : v.isNode = false)
    (hf : f v.joined k = r) : m.Answers v k x r := by
  intro key w w' settles
  have plain : (holding v.joined.held (Eval.fixDeep key)).Plain :=
    (Protocol.holding _ (.fixDeep key)).routine
  rw [← Value.held_joined] at settles
  rw [hm, onOperands, Eval.fix, force_eq_joined false hv, pure_bind, ← hf]
  exact .bind plain (fun _ => (Protocol.ofExcept _).routine) settles (.ofExcept _ _)

theorem onConcrete_eq_pure {f : Value → Value} (hv : v.isNode = false) :
    onConcrete f v = pure (f v.joined) := by
  rw [onConcrete, Eval.fix, force_eq_joined false hv, pure_bind]

theorem onConcrete_ends {f : Value → Value} (hv : v.isNode = false) (w : World) :
    (onConcrete f v).Ends w (.ok (f v.joined)) w := by
  rw [onConcrete_eq_pure hv]
  exact .pure _ _

/-- A receiver that is no node and an argument that is settled are operated on as they are, but for
tags. -/
theorem onOperands_eq_ofExcept {f : Value → Value → Except EvalError Value} {w u : Value}
    (hv : v.isNode = false) (settles : Eval.fixDeep w = pure u) :
    onOperands f v w = Eval.ofExcept (f v.joined u) := by
  rw [onOperands, Eval.fix, force_eq_joined false hv, pure_bind, settles]
  rfl

theorem Answers.of_eq {r' : Except EvalError Value} (h : m.Answers v k x r') (hr : r' = r) :
    m.Answers v k x r := hr ▸ h

section case

variable {c : Value} {entries : OrderedMap Value} {items : List Value}

/-- Only the case of the receiver matters. -/
theorem Answers.of_case {f : Value → Value → Except EvalError Value} (hv : v.untagged = c)
    (hc : c.isNode = false) (hm : ∀ key, m.call v key x = onOperands f v key)
    (hf : ∀ u : Value, u.untagged = c → f u k = r) : m.Answers v k x r :=
  .of_onOperands hm (Value.isNode_of_untagged hv hc) (hf _ (v.untagged_joined.trans hv))

theorem get_map (hv : v.untagged = .map entries) (hk : k.asInt? = none) :
    get.Answers v k x (.ok ((OrderedMap.find? k.display entries).getD .void)) :=
  .of_case hv rfl (fun _ => rfl) fun _ hu => Value.get_map hu hk

theorem get_list (hv : v.untagged = .list items) :
    get.Answers v k x (.ok (((Value.position? k).bind fun i => items[i]?).getD .void)) :=
  .of_case hv rfl (fun _ => rfl) fun _ hu => Value.get_list hu

theorem containsKey_map (hv : v.untagged = .map entries) :
    containsKey.Answers v k x (.ok (.bool (OrderedMap.containsKey entries k.display))) :=
  .of_case hv rfl (fun _ => rfl) fun _ hu => by rw [Value.containsKey_map hu]

theorem containsKey_list (hv : v.untagged = .list items) :
    containsKey.Answers v k x (.ok (.bool ((Value.position? k).any fun i => i < items.length))) :=
  .of_case hv rfl (fun _ => rfl) fun _ hu => by rw [Value.containsKey_list hu]

theorem has_list (hv : v.untagged = .list items) :
    has.Answers v k x (.ok (.bool (items.any fun w => w.same k))) :=
  .of_case hv rfl (fun _ => rfl) fun _ hu => by rw [Value.has_list hu]

theorem size_map (hv : v.untagged = .map entries) (y : Value) (w : World) :
    (size.call v y x).Ends w (.ok (.ofSize entries.length)) w :=
  Value.size_map (v.untagged_joined.trans hv) ▸ onConcrete_ends (Value.isNode_of_untagged hv rfl) w

theorem size_list (hv : v.untagged = .list items) (y : Value) (w : World) :
    (size.call v y x).Ends w (.ok (.ofSize items.length)) w :=
  Value.size_list (v.untagged_joined.trans hv) ▸ onConcrete_ends (Value.isNode_of_untagged hv rfl) w

end case
end Method

/-- What is removed is not there any more, and everything else stays in its place; but void is taken
for nothing, and removing it leaves the container as it is. -/
theorem removal_removes_unless_void (v k x : Value) (settled : k.asError? = none) :
    (∀ entries : OrderedMap Value, v.untagged = .map entries → k.asMap? = none →
      let after := if k.isVoid then entries else entries.filter fun e => e.1 ≠ k.display
      Method.minus.Answers v k x (.ok (.map after)) ∧
        Method.containsKey.Answers (.map after) k x
          (.ok (.bool (k.isVoid && OrderedMap.containsKey entries k.display)))) ∧
    (∀ items : List Value, v.untagged = .list items → k.asList? = none →
      let after := if k.isVoid then items else items.filter fun w => !w.same k
      Method.minus.Answers v k x (.ok (.list after)) ∧
        Method.has.Answers (.list after) k x
          (.ok (.bool (k.isVoid && items.any fun w => w.same k)))) := by
  refine ⟨fun entries hv single => ?_, fun items hv single => ?_⟩
  · refine ⟨.of_case hv rfl (fun _ => rfl) fun u hu => Value.minus_map hu settled single,
      (Method.containsKey_map rfl).of_eq ?_⟩
    cases k.isVoid with
    | true => rfl
    | false =>
      have gone : OrderedMap.containsKey (entries.erase k.display) k.display = false := by
        rw [OrderedMap.containsKey, OrderedMap.find?_erase, if_pos rfl, Option.isSome_none]
      exact congrArg (fun b => Except.ok (Value.bool b)) gone
  · refine ⟨.of_case hv rfl (fun _ => rfl) fun u hu => Value.minus_list hu settled single,
      (Method.has_list rfl).of_eq ?_⟩
    cases k.isVoid with
    | true => rfl
    | false =>
      have gone : (items.filter fun w => !w.same k).any (fun w => w.same k) = false := by
        simp [List.any_filter]
      exact congrArg (fun b => Except.ok (Value.bool b)) gone

/-- A list in which a number occurs once more as a text. -/
def oneTwice : List Value := [.int 1, .str "1", .int 2]

theorem one_removed_twice :
    (Value.int 1).asError? = none ∧
      (Method.minus.call (.list oneTwice) (.int 1) .void).Ends {} (.ok (.list [.int 2])) {} ∧
      (Method.has.call (.list [.int 2]) (.int 1) .void).Ends {} (.ok (.bool false)) {} := by
  have left : (oneTwice.filter fun w => !w.same (.int 1)) = [.int 2] := rfl
  have laws := (removal_removes_unless_void (.list oneTwice) (.int 1) .void rfl).2 oneTwice rfl rfl
  simp only [Value.isVoid, Value.untagged, Bool.false_eq_true, if_false, left,
    Bool.false_and] at laws
  exact ⟨rfl, laws.1 (.int 1) {} {} ⟨0, rfl⟩, laws.2 (.int 1) {} {} ⟨0, rfl⟩⟩

/-- A map with an entry under the text of void. -/
def unnamedEntry : Value := .map [("", .int 1), ("a", .int 2)]

/-- Void is a key of the map, and removing it leaves it there. -/
theorem void_key_not_removed :
    (Method.minus.call unnamedEntry .void .void).run 0 {} = (.ok unnamedEntry, {}) ∧
      (Method.containsKey.call unnamedEntry .void .void).run 0 {} = (.ok (.bool true), {}) :=
  ⟨rfl, rfl⟩

/-- Six operations pass an error receiver on as it is, with all that belongs to it; three of them do
not even force their argument. The two that ask whether something is inside treat it as a value that
has no keys and nothing inside but itself. -/
theorem error_receiver_passed_on_unless_searched (v k x : Value) (e : EvalError)
    (hv : v.asError? = some e) :
    (∀ m ∈ [Method.get, .minus, .set], ∃ r, r.asError? = some e ∧ m.Answers v k x (.ok r)) ∧
      (∀ m ∈ [Method.size, .append, .prepend], ∀ y w,
        ∃ r, r.asError? = some e ∧ (m.call v y x).Ends w (.ok r) w) ∧
      Method.containsKey.Answers v k x (.ok (.bool false)) ∧
      Method.has.Answers v k x (.ok (.bool ((Value.error e).same k))) := by
  have he := Value.untagged_of_asError? hv
  have plain : v.isNode = false := Value.isNode_of_untagged he rfl
  have passed (y : Value) := Value.operations_pass_error (v.asError?_joined.trans hv) y x
  refine ⟨fun m hm => ?_, fun m hm y w => ?_, ?_, ?_⟩
  · obtain ⟨⟨r, hr, re⟩, ⟨s, hs, se⟩, ⟨t, ht, te⟩, -⟩ := passed k
    rcases List.mem_cons.mp hm with rfl | hm
    · exact ⟨r, re, .of_onOperands (fun _ => rfl) plain hr⟩
    rcases List.mem_cons.mp hm with rfl | hm
    · exact ⟨s, se, .of_onOperands (fun _ => rfl) plain hs⟩
    · cases List.mem_singleton.mp hm
      exact ⟨t, te, .of_onOperands (fun _ => rfl) plain ht⟩
  · obtain ⟨-, -, -, size, append, prepend⟩ := passed y
    rcases List.mem_cons.mp hm with rfl | hm
    · exact ⟨_, size, Method.onConcrete_ends plain w⟩
    rcases List.mem_cons.mp hm with rfl | hm
    · exact ⟨_, append, Method.onConcrete_ends plain w⟩
    · cases List.mem_singleton.mp hm
      exact ⟨_, prepend, Method.onConcrete_ends plain w⟩
  · refine .of_case he rfl (fun _ => rfl) fun u hu => ?_
    rw [Value.containsKey, hu]
  · refine .of_case he rfl (fun _ => rfl) fun u hu => ?_
    rw [Value.has, hu]

/-- An error that has another one among its causes. -/
def failedContainer : EvalError :=
  { EvalError.exception "boom" with causes := [EvalError.exception "before"] }

theorem failed_container_passed_on :
    (Value.tagged (.error failedContainer) {}).asError? = some failedContainer ∧
      ∃ r, r.asError? = some failedContainer ∧
        (Method.get.call (.tagged (.error failedContainer) {}) (.str "a") .void).Ends {} (.ok r) {} := by
  obtain ⟨get, -⟩ := error_receiver_passed_on_unless_searched (.tagged (.error failedContainer) {})
    (.str "a") .void failedContainer rfl
  obtain ⟨r, same, answers⟩ := get .get List.mem_cons_self
  exact ⟨rfl, r, same, answers (.str "a") {} {} ⟨0, rfl⟩⟩

/-- A failed container looks like one without the key. -/
theorem failed_container_has_no_keys :
    (Method.containsKey.call (.error failedContainer) (.str "a") .void).run 0 {} =
      (.ok (.bool false), {}) := rfl

/-- A key of a map has been set to a value. -/
structure SetsEntry (v k x : Value) (entries after : OrderedMap Value) : Prop where
  set : Method.set.Answers v k x (.ok (.map after))
  found : ∀ y, Method.get.Answers (.map after) k y (.ok x)
  contained : ∀ y, Method.containsKey.Answers (.map after) k y (.ok (.bool true))
  contained_before : ∀ y, Method.containsKey.Answers v k y
    (.ok (.bool (OrderedMap.containsKey entries k.display)))
  /-- A key that is present keeps its position, and every other entry stays as it is. -/
  replaced : OrderedMap.containsKey entries k.display = true →
    after = entries.map fun e => if e.1 = k.display then (k.display, x) else e
  added : OrderedMap.containsKey entries k.display = false → after = entries ++ [(k.display, x)]
  others : ∀ k' y, k'.display ≠ k.display → k'.asInt? = none →
    ∃ u, Method.get.Answers v k' y (.ok u) ∧ Method.get.Answers (.map after) k' y (.ok u)
  others_contained : ∀ k' y, k'.display ≠ k.display → ∃ b,
    Method.containsKey.Answers v k' y (.ok (.bool b)) ∧
      Method.containsKey.Answers (.map after) k' y (.ok (.bool b))
  size_before : ∀ y z w, (Method.size.call v y z).Ends w (.ok (.ofSize entries.length)) w
  /-- The size grows by one exactly if the key is new. -/
  size_after : ∀ y z w, (Method.size.call (.map after) y z).Ends w
    (.ok (.ofSize (entries.length +
      if OrderedMap.containsKey entries k.display then 0 else 1))) w

/-- A position of a list has been set to a value. -/
structure SetsItem (v k x : Value) (i : Nat) (items after : List Value) : Prop where
  set : Method.set.Answers v k x (.ok (.list after))
  found : ∀ y, Method.get.Answers (.list after) k y (.ok x)
  others : ∀ j, j ≠ i → after[j]? = items[j]?
  others_found : ∀ k' y (j : Int64), k'.asInt? = some j → j.toInt ≠ i →
    ∃ u, Method.get.Answers v k' y (.ok u) ∧ Method.get.Answers (.list after) k' y (.ok u)
  size : ∀ y z w, (Method.size.call (.list after) y z).Ends w
    (.ok (.ofSize (max items.length (i + 1)))) w
  contained : ∀ k' y (j : Int64), k'.asInt? = some j → Method.containsKey.Answers (.list after) k' y
    (.ok (.bool (decide (0 ≤ j.toInt ∧ j.toInt < (max items.length (i + 1) : Nat)))))

theorem setsEntry {v k x : Value} {entries : OrderedMap Value} (hv : v.untagged = .map entries)
    (unique : entries.UniqueKeys) (hk : k.asInt? = none) :
    SetsEntry v k x entries (OrderedMap.insert k.display x entries) := by
  have absent (h : OrderedMap.containsKey entries k.display = false) :
      k.display ∉ OrderedMap.keys entries := fun hm => by
    rw [OrderedMap.containsKey_iff.mpr hm] at h
    cases h
  have read (key : String) := OrderedMap.find?_insert entries k.display key x
  have length : (OrderedMap.insert k.display x entries).length =
      entries.length + if OrderedMap.containsKey entries k.display then 0 else 1 := by
    cases h : OrderedMap.containsKey entries k.display with
    | true =>
      rw [OrderedMap.insert_of_mem unique (OrderedMap.containsKey_iff.mp h), List.length_map]
      rfl
    | false =>
      rw [OrderedMap.insert_of_notMem (absent h), List.length_append]
      rfl
  constructor
  case set => exact .of_case hv rfl (fun _ => rfl) fun u hu => by rw [Value.set, hu]
  case found => exact fun y => (Method.get_map rfl hk).of_eq (by rw [read, if_pos rfl]; rfl)
  case contained =>
    exact fun y => (Method.containsKey_map rfl).of_eq
      (by rw [OrderedMap.containsKey, read, if_pos rfl]; rfl)
  case contained_before => exact fun y => Method.containsKey_map hv
  case replaced => exact fun h => OrderedMap.insert_of_mem unique (OrderedMap.containsKey_iff.mp h) x
  case added => exact fun h => OrderedMap.insert_of_notMem (absent h) x
  case others =>
    intro k' y other hk'
    have same := (read k'.display).trans (if_neg (Ne.symm other))
    exact ⟨_, Method.get_map hv hk', (Method.get_map rfl hk').of_eq (by rw [same])⟩
  case others_contained =>
    intro k' y other
    have same := (read k'.display).trans (if_neg (Ne.symm other))
    exact ⟨_, Method.containsKey_map hv,
      (Method.containsKey_map rfl).of_eq (by rw [OrderedMap.containsKey, same]; rfl)⟩
  case size_before => exact fun y z w => Method.size_map hv y w
  case size_after => exact fun y z w => length ▸ Method.size_map rfl y w

theorem setsItem {v k x : Value} {items : List Value} {i : Int64} (hv : v.untagged = .list items)
    (hk : k.asInt? = some i) (hi : 0 ≤ i.toInt) (le : i.toInt ≤ items.length) :
    ∃ after, SetsItem v k x i.toInt.toNat items after := by
  have there : k.position? = some i.toInt.toNat := by rw [Value.position?_eq hk, if_pos hi]
  have inside : i.toInt.toNat ≤ items.length := by omega
  obtain ⟨after, set, found, others, length⟩ := Value.set_list there inside x
  refine ⟨after, ?_⟩
  constructor
  case set => exact .of_case hv rfl (fun _ => rfl) set
  case found =>
    exact fun y => (Method.get_list rfl).of_eq
      (by rw [there, Option.bind_some, found, Option.getD_some])
  case others => exact others
  case others_found =>
    intro k' y j hk' other
    refine ⟨_, Method.get_list hv, (Method.get_list rfl).of_eq ?_⟩
    rw [Value.position?_eq hk']
    split
    · rw [Option.bind_some, Option.bind_some, others _ (by omega)]
    · rfl
  case size => exact fun y z w => length ▸ Method.size_list rfl y w
  case contained =>
    intro k' y j hk'
    refine (Method.containsKey_list rfl).of_eq (congrArg (fun b => Except.ok (Value.bool b)) ?_)
    rw [Value.position?_eq hk', length]
    by_cases hj : 0 ≤ j.toInt
    · rw [if_pos hj, Option.any_some, decide_eq_decide]
      omega
    · rw [if_neg hj, Option.any_none, eq_comm, decide_eq_false_iff_not]
      exact fun h => hj h.1

/-- What is set under a key is found under it: a map takes any text for a key and keeps its order,
and a list takes the positions up to its end and refuses all others. -/
theorem set_found_under_key (v k x : Value) :
    (∀ entries : OrderedMap Value, v.untagged = .map entries → entries.UniqueKeys →
      k.asInt? = none → ∃ after, SetsEntry v k x entries after) ∧
    (∀ (items : List Value) (i : Int64), v.untagged = .list items → k.asInt? = some i →
      (0 ≤ i.toInt ∧ i.toInt ≤ items.length →
        ∃ after, SetsItem v k x i.toInt.toNat items after) ∧
      (¬ (0 ≤ i.toInt ∧ i.toInt ≤ items.length) →
        ∃ e, e.kind = .typeMismatch ∧ Method.set.Answers v k x (.error e))) := by
  refine ⟨fun entries hv unique hk => ⟨_, setsEntry hv unique hk⟩, fun items i hv hk =>
    ⟨fun inside => setsItem hv hk inside.1 inside.2, fun outside => ?_⟩⟩
  refine ⟨_, rfl, .of_case hv rfl (fun _ => rfl) fun u hu => Value.set_list_of_outside hu ?_ x⟩
  intro p hp
  rw [Value.position?_eq hk] at hp
  split at hp
  · cases hp
    omega
  · cases hp

/-- A map with a number for a key, which is found by its text whatever its tags. -/
def numberedEntries : OrderedMap Value := [("1.5", .int 0), ("b", .int 2)]

theorem numbered_entry_replaced :
    numberedEntries.UniqueKeys ∧
      (Method.set.call (.map numberedEntries) (.tagged (.str "1.5") {}) (.int 1)).Ends {}
        (.ok (.map [("1.5", .int 1), ("b", .int 2)])) {} ∧
      ∃ e, e.kind = .typeMismatch ∧
        (Method.set.call (.list []) (.int 1) .void).Ends {} (.error e) {} := by
  have unique : numberedEntries.UniqueKeys := by decide
  obtain ⟨after, sets⟩ := (set_found_under_key (.map numberedEntries) (.tagged (.str "1.5") {})
    (.int 1)).1 _ rfl unique rfl
  have replaced : after = [("1.5", .int 1), ("b", .int 2)] := sets.replaced rfl
  obtain ⟨e, kind, refused⟩ := ((set_found_under_key (.list []) (.int 1) .void).2 [] 1 rfl rfl).2
    (by decide)
  exact ⟨unique, replaced ▸ sets.set _ {} {} ⟨0, rfl⟩, e, kind, refused _ {} {} ⟨0, rfl⟩⟩

end ReactiveScript
