import ReactiveScript.Proofs.ContainerLaws
import ReactiveScript.Proofs.MapLaws
import ReactiveScript.Proofs.WellKeyed
import Mathlib.Data.List.Perm.Subperm

/-!
# Equality of values

Values of one kind are compared by what they hold, and all others by their texts. On values whose
maps have no key twice this comparison is reflexive and symmetric, though it goes through the keys
of the left map only. So it does not matter on which side membership and subtraction put the item
that they look for.
-/

namespace ReactiveScript

namespace OrderedMap

variable {α : Type} {m : OrderedMap α} {e : String × α}

/-- In a map without a repeated key every entry is found. -/
theorem find?_of_mem (unique : m.UniqueKeys) (h : e ∈ m) : m.find? e.1 = some e.2 := by
  induction m with
  | nil => cases h
  | cons first rest ih =>
    obtain ⟨fresh, unique⟩ := uniqueKeys_cons.mp unique
    rcases List.mem_cons.mp h with rfl | h
    · exact if_pos rfl
    · have other : first.1 ≠ e.1 := (ne_of_mem_of_not_mem (mem_keys h) fresh).symm
      rw [find?, if_neg other, ih unique h]

/-- Of two maps of one size, the keys of one are among those of the other only if they are the same
keys. -/
theorem keys_subset_of_length {m' : OrderedMap α} (unique : m.UniqueKeys)
    (length : m.length = m'.length) (sub : m.keys ⊆ m'.keys) : m'.keys ⊆ m.keys := by
  have few : m'.keys.length ≤ m.keys.length := by
    rw [keys, keys, List.length_map, List.length_map]
    exact Nat.le_of_eq length.symm
  exact ((List.subperm_of_subset unique sub).perm_of_length_le few).symm.subset

end OrderedMap

namespace Decimal

theorem numericEq_comm (a b : Decimal) : a.numericEq b = b.numericEq a := by
  rw [numericEq, numericEq, Bool.and_comm (!a.isNaN), BEq.comm (a := a.key)]

theorem numericEq_self {d : Decimal} (h : d.isNaN = false) : d.numericEq d = true := by
  simp [numericEq, h]

end Decimal

/-- What two values are compared by. Integers and decimals are of one kind. -/
inductive Kind where
  | number
  | bool
  | void
  | text
  | list
  | map
  | range
  | error
  | node
  | resource
deriving DecidableEq

namespace Value

def kind : Value → Kind
  | int _ | decimal _ => .number
  | bool _ => .bool
  | void => .void
  | str _ => .text
  | list _ => .list
  | map _ => .map
  | range _ => .range
  | error _ => .error
  | node _ => .node
  | resource _ => .resource
  | tagged v _ => v.kind

@[simp] theorem kind_untagged (v : Value) : v.untagged.kind = v.kind := by
  induction v using untagged.induct with
  | case1 v m ih => exact ih
  | case2 v plain => rw [untagged.eq_2 v plain]

theorem kind_joined (v : Value) : v.joined.kind = v.kind := by
  rw [← kind_untagged, untagged_joined, kind_untagged]

/-- The pairs of cases that are compared by what they hold. -/
inductive Alike : Value → Value → Prop
  | ints (a b : Int64) : Alike (int a) (int b)
  | intDecimal (a : Int64) (b : Decimal) : Alike (int a) (decimal b)
  | decimalInt (a : Decimal) (b : Int64) : Alike (decimal a) (int b)
  | decimals (a b : Decimal) : Alike (decimal a) (decimal b)
  | bools (a b : Bool) : Alike (bool a) (bool b)
  | voids : Alike void void
  | texts (a b : String) : Alike (str a) (str b)
  | lists (a b : List Value) : Alike (list a) (list b)
  | maps (a b : OrderedMap Value) : Alike (map a) (map b)
  | ranges (a b : IntRange) : Alike (range a) (range b)
  | errors (a b : EvalError) : Alike (error a) (error b)
  | nodes (a b : NodeRef) : Alike (node a) (node b)
  | resources (a b : ResourceRef) : Alike (resource a) (resource b)

section kinds

variable {v w : Value}

/-- To compare two values it is enough to look inside their tags. -/
theorem of_concrete {P : Value → Value → Prop}
    (concrete : ∀ v w : Value, v.untagged = v → w.untagged = w → P v w) (v w : Value) :
    P v.untagged w.untagged :=
  concrete _ _ v.untagged_untagged w.untagged_untagged

theorem alike_of_kind_eq (h : v.kind = w.kind) : Alike v.untagged w.untagged := by
  rw [← kind_untagged v, ← kind_untagged w] at h
  revert h
  refine of_concrete (P := fun v w => v.kind = w.kind → Alike v w) (fun v w hv hw h => ?_) v w
  cases v with
  | tagged v m => exact absurd hv (untagged_ne_tagged _ _ _)
  | _ =>
    cases w with
    | tagged w m => exact absurd hw (untagged_ne_tagged _ _ _)
    | _ => first | constructor | cases h

theorem untagged_same (v w : Value) : v.untagged.same w = v.same w := by
  rw [← same_bare_left, bare_untagged, same_bare_left]

/-- Values of different kinds are equal if their texts are. -/
theorem same_of_kind_ne (h : v.kind ≠ w.kind) : v.same w = sameText v.untagged w.untagged := by
  rw [← kind_untagged v, ← kind_untagged w] at h
  rw [← untagged_same, ← same_untagged]
  revert h
  refine of_concrete (P := fun v w => v.kind ≠ w.kind → v.same w = sameText v w)
    (fun v w hv hw h => ?_) v w
  cases v with
  | tagged v m => exact absurd hv (untagged_ne_tagged _ _ _)
  | _ =>
    cases w with
    | tagged w m => exact absurd hw (untagged_ne_tagged _ _ _)
    | _ => first | exact absurd rfl h | rfl

theorem sameText_comm (v w : Value) : sameText v w = sameText w v := by
  rw [sameText, sameText, Bool.and_comm (!v.isOpaque), BEq.comm (a := v.display)]

theorem sameDecimal_self (d : Decimal) : sameDecimal d d = true := by
  cases h : d.isNaN with
  | true => simp [sameDecimal, h]
  | false => simp [sameDecimal, Decimal.numericEq_self h]

theorem sameDecimal_comm (a b : Decimal) : sameDecimal a b = sameDecimal b a := by
  rw [sameDecimal, sameDecimal, Decimal.numericEq_comm, Bool.and_comm a.isNaN]

end kinds

section containers

variable {items others : List Value} {a b : OrderedMap Value}

theorem sameItems_self (h : ∀ v ∈ items, v.same v = true) : sameItems items items = true := by
  induction items with
  | nil => rfl
  | cons v rest ih =>
    obtain ⟨first, later⟩ := List.forall_mem_cons.mp h
    rw [sameItems, first, ih later, Bool.and_self]

theorem sameItems_comm (h : ∀ v ∈ items, ∀ w ∈ others, v.same w = w.same v) :
    sameItems items others = sameItems others items := by
  induction items generalizing others with
  | nil => cases others <;> rfl
  | cons v rest ih =>
    cases others with
    | nil => rfl
    | cons w others =>
      have first : v.same w = w.same v := h v List.mem_cons_self w List.mem_cons_self
      have later : sameItems rest others = sameItems others rest := ih fun v hv w hw =>
        h v (List.mem_cons_of_mem _ hv) w (List.mem_cons_of_mem _ hw)
      rw [sameItems, sameItems, first, later]

theorem sameEntries_iff :
    sameEntries a b = true ↔ ∀ e ∈ a, ∃ w, b.find? e.1 = some w ∧ e.2.same w = true := by
  induction a with
  | nil => simp [sameEntries]
  | cons e rest ih =>
    obtain ⟨key, v⟩ := e
    rw [sameEntries, Bool.and_eq_true, ih, List.forall_mem_cons]
    refine and_congr_left fun _ => ?_
    cases b.find? key with
    | none => simp
    | some w => simp

theorem sameEntries_self (unique : a.UniqueKeys) (h : ∀ v ∈ a.values, v.same v = true) :
    sameEntries a a = true :=
  sameEntries_iff.mpr fun e he =>
    ⟨e.2, OrderedMap.find?_of_mem unique he, h e.2 (List.mem_map_of_mem he)⟩

/-- Entries that are all found in a map of the same size are all that this map has. -/
theorem sameEntries_symm (ha : a.UniqueKeys) (hb : b.UniqueKeys) (length : a.length = b.length)
    (symm : ∀ v ∈ a.values, ∀ w ∈ b.values, v.same w = true → w.same v = true)
    (h : sameEntries a b = true) : sameEntries b a = true := by
  rw [sameEntries_iff] at h ⊢
  have sub : a.keys ⊆ b.keys := by
    intro key hkey
    obtain ⟨e, he, rfl⟩ := List.mem_map.mp hkey
    obtain ⟨w, found, -⟩ := h e he
    exact OrderedMap.containsKey_iff.mp (Option.isSome_iff_exists.mpr ⟨w, found⟩)
  intro e he
  obtain ⟨e', he', key⟩ := List.mem_map.mp
    (OrderedMap.keys_subset_of_length ha length sub (OrderedMap.mem_keys he))
  obtain ⟨w, found, same⟩ := h e' he'
  rw [key, OrderedMap.find?_of_mem hb he] at found
  cases found
  rw [← key]
  exact ⟨e'.2, OrderedMap.find?_of_mem ha he',
    symm e'.2 (List.mem_map_of_mem he') e.2 (List.mem_map_of_mem he) same⟩

/-- The lengths and all entries of two maps agree in both directions, or in none. -/
theorem sameMaps_comm (ha : a.UniqueKeys) (hb : b.UniqueKeys)
    (comm : ∀ v ∈ a.values, ∀ w ∈ b.values, v.same w = w.same v) :
    (map a).same (map b) = (map b).same (map a) := by
  show (a.length == b.length && sameEntries a b) = (b.length == a.length && sameEntries b a)
  rw [Bool.eq_iff_iff, Bool.and_eq_true, Bool.and_eq_true, BEq.comm (a := a.length)]
  refine and_congr_right fun length => ?_
  have length : b.length = a.length := beq_iff_eq.mp length
  exact ⟨sameEntries_symm ha hb length.symm
      fun v hv w hw same => (comm v hv w hw).symm.trans same,
    sameEntries_symm hb ha length
      fun w hw v hv same => (comm v hv w hw).trans same⟩

end containers

section laws

variable {v w : Value}

/-- Every value is equal to itself, NaN too. -/
theorem same_self (h : v.WellKeyed) : v.same v = true := by
  induction h with
  | @atom v h =>
    cases v with
    | list _ | map _ | tagged _ _ => exact h.elim
    | decimal d => exact sameDecimal_self d
    | _ => simp [same, untagged, isVoid, asNode?, asResource?]
  | list _ ih => exact sameItems_self ih
  | @map entries unique _ ih =>
    have found : sameEntries entries entries = true := sameEntries_self unique ih
    simp [same, untagged, found]
  | tagged m _ ih => rw [same, ← same_untagged, untagged_tagged, same_untagged, ih]

/-- Texts are compared symmetrically, so that only values of one kind are left to look at. -/
theorem same_comm_of_alike (h : Alike v.untagged w.untagged →
    v.untagged.same w.untagged = w.untagged.same v.untagged) : v.same w = w.same v := by
  by_cases kinds : v.kind = w.kind
  · have concrete := h (alike_of_kind_eq kinds)
    rwa [same_untagged, same_untagged, untagged_same, untagged_same] at concrete
  · rw [same_of_kind_ne kinds, same_of_kind_ne (Ne.symm kinds), sameText_comm]

/-- The right value need not be well-keyed here, for its parts are not looked at. -/
theorem same_comm_of_isAtom (hv : v.IsAtom) (w : Value) : v.same w = w.same v := by
  refine same_comm_of_alike fun alike => ?_
  have atom : v.untagged.IsAtom := by
    cases v <;> first | exact hv | exact hv.elim
  generalize v.untagged = v at alike atom ⊢
  generalize w.untagged = w at alike ⊢
  cases alike with
  | intDecimal a b => exact Decimal.numericEq_comm _ _
  | decimalInt a b => exact Decimal.numericEq_comm _ _
  | decimals a b => exact sameDecimal_comm a b
  | errors a b => exact congrArg₂ (· && ·) BEq.comm BEq.comm
  | voids => rfl
  | lists _ _ | maps _ _ => exact atom.elim
  | _ => exact BEq.comm

/-- It does not matter which of two values is on the left. -/
theorem same_comm (hv : v.WellKeyed) (hw : w.WellKeyed) : v.same w = w.same v := by
  induction hv generalizing w with
  | atom h => exact same_comm_of_isAtom h w
  | tagged m _ ih => rw [same, ih hw, ← same_untagged w (tagged _ m), untagged_tagged, same_untagged]
  | @list items _ ih =>
    refine same_comm_of_alike fun alike => ?_
    have keyed : w.untagged.WellKeyed := wellKeyed_hereditary.untagged.mpr hw
    generalize w.untagged = w at alike keyed ⊢
    cases alike with
    | lists _ others =>
      exact sameItems_comm fun v hv w hw => ih v hv (wellKeyed_list.mp keyed w hw)
  | @map entries unique _ ih =>
    refine same_comm_of_alike fun alike => ?_
    have keyed : w.untagged.WellKeyed := wellKeyed_hereditary.untagged.mpr hw
    generalize w.untagged = w at alike keyed ⊢
    cases alike with
    | maps _ others =>
      obtain ⟨unique', keyed⟩ := wellKeyed_map.mp keyed
      exact sameMaps_comm unique unique' fun v hv w hw => ih v hv (keyed w hw)

/-- A test of equality that puts either of the two values on the left. -/
def TestsEquality (eq : Value → Value → Bool) : Prop := ∀ v w, eq v w = v.same w ∨ eq v w = w.same v

theorem TestsEquality.eq_same {eq : Value → Value → Bool} (h : TestsEquality eq) (hv : v.WellKeyed)
    (hw : w.WellKeyed) : eq v w = v.same w :=
  (h v w).elim id fun turned => turned.trans (same_comm hw hv)

end laws

section membership

/-- A search depends on the items of the list only. -/
theorem any_congr_of_mem {α : Type} {items : List α} {p q : α → Bool} (h : ∀ a ∈ items, p a = q a) :
    items.any p = items.any q := by
  rw [← Function.id_comp p, ← Function.id_comp q, ← List.any_map, ← List.any_map,
    List.map_congr_left h]

variable {v k : Value} {items others : List Value} {entries : OrderedMap Value}

theorem has_map (hv : v.untagged = map entries) : v.has k = entries.values.any fun w => w.same k := by
  rw [has, hv]

/-- Only containers, texts and ranges are searched. -/
theorem has_single (hv : v.kind ∉ [Kind.list, .map, .text, .range]) : v.has k = v.same k := by
  rw [← kind_untagged] at hv
  rw [has, ← untagged_same]
  generalize v.untagged = u at hv ⊢
  cases u with
  | list _ | map _ | str _ | range _ => simp [kind] at hv
  | _ => rfl

theorem minus_lists (hv : v.untagged = list items) (hk : k.untagged = list others) :
    v.minus k = .ok (list (items.filter fun w => !others.any fun u => u.same w)) := by
  have settled : k.asError? = none := by rw [asError?, hk]
  rw [minus_eq_difference hv rfl rfl settled, hk]
  rfl

end membership

end Value

open Value

/-- Equality of values is reflexive and symmetric, in any case and nesting. So searching a container
and taking items out of a list give the same, whichever side of each comparison is on the left. -/
theorem equality_reflexive_and_symmetric {v w : Value} (hv : v.WellKeyed) (hw : w.WellKeyed)
    (x : Value) :
    Method.same.call v v x = pure (.bool true) ∧
    Method.same.call v w x = Method.same.call w v x ∧
    ∀ eq, TestsEquality eq →
      (∀ items : List Value, v.untagged = .list items →
        Method.has.Answers v w x (.ok (.bool (items.any fun u => eq u w))) ∧
        (∀ others : List Value, w.untagged = .list others → Method.minus.Answers v w x
          (.ok (.list (items.filter fun u => !others.any fun t => eq t u)))) ∧
        (w.asError? = none → w.asList? = none → w.isVoid = false → Method.minus.Answers v w x
          (.ok (.list (items.filter fun u => !eq u w))))) ∧
      (∀ entries : OrderedMap Value, v.untagged = .map entries →
        Method.has.Answers v w x (.ok (.bool (entries.values.any fun u => eq u w)))) ∧
      (v.isNode = false → v.kind ∉ [Kind.list, .map, .text, .range] →
        Method.has.Answers v w x (.ok (.bool (eq v w)))) := by
  have inside : v.untagged.WellKeyed := wellKeyed_hereditary.untagged.mpr hv
  refine ⟨congrArg (pure ∘ Value.bool) (same_self hv), congrArg (pure ∘ Value.bool) (same_comm hv hw),
    fun eq tests => ⟨fun items list => ?_, fun entries map => ?_, fun plain single => ?_⟩⟩
  · have keyed : ∀ u ∈ items, u.WellKeyed := wellKeyed_list.mp (list ▸ inside)
    have turned (u) (hu : u ∈ items) : eq u w = u.same w := tests.eq_same (keyed u hu) hw
    refine ⟨(Method.has_list list).of_eq ?_, fun others list' => ?_, fun settled single something =>
      .of_case list rfl (fun _ => rfl) fun u hu => ?_⟩
    · rw [any_congr_of_mem turned]
    · have keyed' : ∀ t ∈ others, t.WellKeyed :=
        wellKeyed_list.mp (list' ▸ wellKeyed_hereditary.untagged.mpr hw)
      refine .of_case list rfl (fun _ => rfl) fun u hu => ?_
      rw [minus_lists hu list']
      refine congrArg (Except.ok ∘ Value.list) (List.filter_congr fun u hu => congrArg _ ?_)
      exact any_congr_of_mem fun t ht => (tests.eq_same (keyed' t ht) (keyed u hu)).symm
    · rw [minus_list hu settled single, something]
      exact congrArg (Except.ok ∘ Value.list)
        (List.filter_congr fun u hu => congrArg _ (turned u hu).symm)
  · have keyed : ∀ u ∈ entries.values, u.WellKeyed := (wellKeyed_map.mp (map ▸ inside)).2
    refine .of_case map rfl (fun _ => rfl) fun u hu => ?_
    rw [has_map hu, any_congr_of_mem fun u hu => tests.eq_same (keyed u hu) hw]
  · refine .of_onOperands (fun _ => rfl) plain ?_
    rw [tests.eq_same hv hw, has_single (by rwa [kind_joined]), ← untagged_same, untagged_joined,
      untagged_same]

/-- A list of a map and a NaN. -/
def listOfMap : Value :=
  .tagged (.list [.map [("a", .int 1), ("b", .str "x")], .decimal Decimal.nan]) { integer := some 1 }

/-- The same map with the entries the other way round, a decimal and a tag. -/
def turnedMap : Value := .map [("b", .tagged (.str "x") {}), ("a", .decimal Decimal.one)]

theorem map_found_turned_round :
    listOfMap.WellKeyed ∧ turnedMap.WellKeyed ∧
      TestsEquality (fun v w => w.same v) ∧
      Method.has.Answers listOfMap turnedMap .void (.ok (.bool true)) ∧
      Method.same.call (.map [("a", .int 1), ("b", .str "x")]) turnedMap .void =
        pure (.bool true) := by
  have text (s : String) : (Value.str s).WellKeyed := .atom trivial
  have entries : (Value.map [("a", .int 1), ("b", .str "x")]).WellKeyed := by
    refine .map (by decide) fun v hv => ?_
    rcases List.mem_cons.mp hv with rfl | hv
    · exact .atom trivial
    · exact List.mem_singleton.mp hv ▸ text "x"
  have items : listOfMap.WellKeyed := by
    refine .tagged _ (.list fun v hv => ?_)
    rcases List.mem_cons.mp hv with rfl | hv
    · exact entries
    · exact List.mem_singleton.mp hv ▸ .atom trivial
  have turned : turnedMap.WellKeyed := by
    refine .map (by decide) fun v hv => ?_
    rcases List.mem_cons.mp hv with rfl | hv
    · exact .tagged _ (text "x")
    · exact List.mem_singleton.mp hv ▸ .atom trivial
  have either : TestsEquality fun v w => w.same v := fun _ _ => .inr rfl
  obtain ⟨-, -, search⟩ := equality_reflexive_and_symmetric items turned .void
  obtain ⟨-, comm, -⟩ := equality_reflexive_and_symmetric turned entries .void
  have found : turnedMap.same (.map [("a", .int 1), ("b", .str "x")]) = true := by decide +kernel
  refine ⟨items, turned, either, ((search _ either).1 _ rfl).1.of_eq ?_,
    comm.symm.trans (congrArg (pure ∘ Value.bool) found)⟩
  rw [List.any_cons, found, Bool.true_or]

end ReactiveScript
