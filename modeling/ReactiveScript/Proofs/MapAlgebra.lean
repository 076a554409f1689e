import ReactiveScript.Proofs.ContainerLaws
import ReactiveScript.Proofs.Levels
import ReactiveScript.Proofs.MapEdits

/-!
# The algebra of maps

Addition of maps is union and subtraction is removal of keys. Union is associative and idempotent
and has the empty map as its unit, with the order of the entries kept in each of these laws.
-/

namespace ReactiveScript

open Eval

namespace Value

variable {v : Value} {a : OrderedMap Value}

/-- A settled map with the entries, each key once. -/
structure IsMapOf (v : Value) (entries : OrderedMap Value) : Prop where
  untagged : v.untagged = map entries
  unique : entries.UniqueKeys
  nodeFree : v.NodeFree
  tagsJoined : v.TagsJoined

theorem IsMapOf.values (h : v.IsMapOf a) : ∀ w ∈ a.values, w.NodeFree ∧ w.TagsJoined := by
  have free : (map a).NodeFree := h.untagged ▸ nodeFree_untagged.mpr h.nodeFree
  have joined : (map a).TagsJoined := h.untagged ▸ h.tagsJoined.untagged
  intro w hw
  refine ⟨nodeFree_map.mp free w hw, ?_⟩
  cases joined with
  | datum h => exact h.elim
  | map h => exact h w hw

theorem isMapOf_map (unique : a.UniqueKeys)
    (values : ∀ w ∈ a.values, w.NodeFree ∧ w.TagsJoined) : (map a).IsMapOf a :=
  ⟨rfl, unique, nodeFree_map.mpr fun w hw => (values w hw).1, .map fun w hw => (values w hw).2⟩

theorem isMapOf_of_isDatum (unique : a.UniqueKeys) (data : ∀ w ∈ a.values, w.IsDatum) :
    (map a).IsMapOf a :=
  isMapOf_map unique fun w hw => ⟨nodeFree_hereditary.datum (data w hw), .datum (data w hw)⟩

theorem isMapOf_empty : (map []).IsMapOf [] := isMapOf_of_isDatum .nil nofun

end Value

open Value OrderedMap

namespace Method

variable {u v w : Value} {a b c r : OrderedMap Value}

/-- A method makes a map out of two operands and does nothing besides. -/
def Makes (m : Method) (v w : Value) (r : OrderedMap Value) : Prop :=
  ∀ x, m.call v w x = pure (.map r)

theorem makes_of_onOperands {m : Method} {f : Value → Value → Except EvalError Value}
    (hm : ∀ x, m.call u v x = onOperands f u v) (hu : u.IsMapOf a) (hv : v.IsMapOf b)
    (hf : ∀ u v : Value, u.untagged = .map a → v.untagged = .map b → f u v = .ok (.map r)) :
    m.Makes u v r := by
  have settles : Eval.fixDeep v = pure v := fixDeep_eq_pure hv.tagsJoined hv.nodeFree
  intro x
  rw [hm, onOperands_eq_ofExcept hu.nodeFree.isNode settles,
    hf _ _ (u.untagged_joined.trans hu.untagged) hv.untagged]
  rfl

theorem plus_makes_merged (hu : u.IsMapOf a) (hv : v.IsMapOf b) : plus.Makes u v (a.merged b) :=
  makes_of_onOperands (fun _ => rfl) hu hv fun u v hu hv => by
    rw [Value.plus, hu, hv]
    rfl

theorem minus_makes_withoutKeys (hu : u.IsMapOf a) (hv : v.IsMapOf b) :
    minus.Makes u v (a.withoutKeys b.keys) :=
  makes_of_onOperands (fun _ => rfl) hu hv fun u v hu hv => by
    rw [Value.minus, hu, hv]
    rfl

theorem isMapOf_merged (hu : u.IsMapOf a) (hv : v.IsMapOf b) :
    (Value.map (a.merged b)).IsMapOf (a.merged b) :=
  isMapOf_map (uniqueKeys_merged hu.unique b) fun _ hw =>
    (mem_values_of_mem_values_merged hw).elim (hu.values _) (hv.values _)

/-- Negation enters the entries of a map in reverse. -/
theorem negate_makes_reversed (hu : u.IsMapOf a) (v : Value) : negate.Makes u v a.reversed := by
  intro x
  have plain : u.isNode = false := hu.nodeFree.isNode
  show onConcrete Value.negate u = _
  rw [onConcrete_eq_pure plain, Value.negate, u.untagged_joined, hu.untagged,
    reversed_eq_reverse hu.unique]

end Method

/-- Addition of maps looks keys up on the right first and keeps the keys of the left operand in
front; it is associative and idempotent and has the empty map as its unit. Subtraction leaves the
entries of the left operand whose keys the right one lacks, in their order, and what is added and
subtracted again makes no difference to that. Any edits of a map, one after the other, keep its keys
unique and do to it what they do to a list of pairs; negation is one of these edits, and forcing the
values of a map another. -/
theorem maps_form_exact_algebra {u v w : Value} {a b c : OrderedMap Value} (hu : u.IsMapOf a)
    (hv : v.IsMapOf b) (hw : w.IsMapOf c) :
    (∃ ab, Method.plus.Makes u v ab ∧ IsUnion a b ab ∧
      (∃ bc abc, Method.plus.Makes v w bc ∧ Method.plus.Makes (.map ab) w abc ∧
        Method.plus.Makes u (.map bc) abc) ∧
      Method.minus.Makes (.map ab) v (a.filter fun e => e.1 ∉ b.keys)) ∧
    (Method.plus.Makes (.map []) u a ∧ Method.plus.Makes u (.map []) a ∧
      Method.plus.Makes u u a) ∧
    Method.minus.Makes u v (a.filter fun e => e.1 ∉ b.keys) ∧
    (∀ {M : Type → Type} [Monad M] [LawfulMonad M] (edits : List (MapEdit M Value)),
      MapEdit.applyAll edits a = MapEdit.allOnPairs edits a ∧
        GivesUnique (MapEdit.applyAll edits a)) ∧
    (∀ x, Method.negate.Makes u x a.reversed) ∧
    (∀ (parallel single : Bool) (depth : Nat) (f : Value → Except EvalError Value),
      (∀ x ∈ a.values, force parallel x depth = ofExcept (f x)) →
        forceEntries parallel single a depth = ofExcept (a.tryMapValues f)) := by
  have uv := Method.isMapOf_merged hu hv
  have vw := Method.isMapOf_merged hv hw
  have difference : a.withoutKeys b.keys = a.filter fun e => e.1 ∉ b.keys :=
    withoutKeys_eq_filter a b.keys
  have left : OrderedMap.merged [] a = a := nil_merged hu.unique
  have self : a.merged a = a := merged_self hu.unique
  refine ⟨⟨a.merged b, Method.plus_makes_merged hu hv, isUnion_merged hu.unique hv.unique,
      ⟨b.merged c, (a.merged b).merged c, Method.plus_makes_merged hv hw,
        Method.plus_makes_merged uv hw, ?_⟩, ?_⟩,
    ⟨?_, Method.plus_makes_merged hu isMapOf_empty, ?_⟩, ?_,
    fun edits => ⟨MapEdit.applyAll_eq_allOnPairs edits hu.unique,
      MapEdit.givesUnique_applyAll edits hu.unique⟩,
    Method.negate_makes_reversed hu,
    fun parallel single depth f forced => forceEntries_eq_tryMapValues hu.unique forced⟩
  · rw [merged_assoc hu.unique hv.unique hw.unique]
    exact Method.plus_makes_merged hu vw
  · rw [← difference, ← merged_withoutKeys hu.unique hv.unique]
    exact Method.minus_makes_withoutKeys uv hv
  · exact left ▸ Method.plus_makes_merged isMapOf_empty hu
  · exact self ▸ Method.plus_makes_merged hu hu
  · exact difference ▸ Method.minus_makes_withoutKeys hu hv

/-- A map with a tag, of which the next one has a key. -/
def taggedMap : Value := .tagged (.map [("a", .int 1), ("b", .int 2)]) { integer := some 3 }

def overlappingMap : Value := .map [("b", .int 3), ("c", .void)]

/-- Edits that move a key to the front, turn the map round and pack all values that are not void. -/
def turnAndPack : List (MapEdit (Except String) Value) :=
  [.insertFirst "b" (.int 5), .reverse,
    .mapValues fun v => if v.isVoid then .error "void" else .ok (.list [v])]

theorem overlapping_maps_added_and_subtracted :
    taggedMap.IsMapOf [("a", .int 1), ("b", .int 2)] ∧
      overlappingMap.IsMapOf [("b", .int 3), ("c", .void)] ∧
      (∃ sum, Method.plus.Makes taggedMap overlappingMap sum ∧ sum.keys = ["a", "b", "c"] ∧
        sum.find? "b" = some (.int 3) ∧
        Method.minus.Makes (.map sum) overlappingMap [("a", .int 1)]) ∧
      MapEdit.applyAll turnAndPack [("a", .int 1), ("b", .int 2)] =
        .ok [("a", .list [.int 1]), ("b", .list [.int 5])] := by
  have left : (Value.map [("a", .int 1), ("b", .int 2)]).IsMapOf [("a", .int 1), ("b", .int 2)] :=
    isMapOf_of_isDatum (by decide) (by simp [OrderedMap.values, Value.IsDatum])
  have right : overlappingMap.IsMapOf [("b", .int 3), ("c", .void)] :=
    isMapOf_of_isDatum (by decide) (by simp [OrderedMap.values, Value.IsDatum])
  have tagged : taggedMap.IsMapOf [("a", .int 1), ("b", .int 2)] :=
    ⟨rfl, left.unique, left.nodeFree, .tagged _ rfl left.tagsJoined⟩
  obtain ⟨⟨sum, made, union, -, minus⟩, -, -, edits, -⟩ :=
    maps_form_exact_algebra tagged right right
  exact ⟨tagged, right, ⟨sum, made, union.keys, union.find? "b", minus⟩,
    (edits turnAndPack).1.trans rfl⟩

end ReactiveScript
