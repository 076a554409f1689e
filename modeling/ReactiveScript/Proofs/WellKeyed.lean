import ReactiveScript.Proofs.Hereditary

/-!
# Values whose maps have no key twice

The entries of a map value are a list, of which nothing says that its keys differ. The values that
arise are such that they do, in every map inside (`WellKeyed`).
-/

namespace ReactiveScript.Value

/-- A value without parts. -/
def IsAtom : Value → Prop
  | list _ | map _ | tagged _ _ => False
  | _ => True

/-- No map in the value has a key twice. -/
inductive WellKeyed : Value → Prop
  | atom {v : Value} (h : v.IsAtom) : WellKeyed v
  | list {items : List Value} (h : ∀ v ∈ items, WellKeyed v) : WellKeyed (list items)
  | map {entries : OrderedMap Value} (unique : entries.UniqueKeys)
      (h : ∀ v ∈ entries.values, WellKeyed v) : WellKeyed (map entries)
  | tagged {v : Value} (m : Metadata) (h : WellKeyed v) : WellKeyed (tagged v m)

/-- A value that is made of some values by lists and by maps that have no key twice. -/
inductive BuiltFrom (atoms : Value → Prop) : Value → Prop
  | atom {v : Value} (h : atoms v) : BuiltFrom atoms v
  | list {items : List Value} (h : ∀ v ∈ items, BuiltFrom atoms v) : BuiltFrom atoms (list items)
  | map {entries : OrderedMap Value} (unique : entries.UniqueKeys)
      (h : ∀ v ∈ entries.values, BuiltFrom atoms v) : BuiltFrom atoms (map entries)

variable {atoms others : Value → Prop} {v : Value} {items : List Value} {entries : OrderedMap Value}

theorem BuiltFrom.mono (sub : ∀ v, atoms v → others v) (h : v.BuiltFrom atoms) :
    v.BuiltFrom others := by
  induction h with
  | atom h => exact .atom (sub _ h)
  | list _ ih => exact .list ih
  | map unique _ ih => exact .map unique ih

theorem BuiltFrom.wellKeyed (sub : ∀ v, atoms v → v.IsAtom) (h : v.BuiltFrom atoms) :
    v.WellKeyed := by
  induction h with
  | atom h => exact .atom (sub _ h)
  | list _ ih => exact .list ih
  | map unique _ ih => exact .map unique ih

@[simp] theorem wellKeyed_list : (list items).WellKeyed ↔ ∀ v ∈ items, v.WellKeyed := by
  refine ⟨fun h => ?_, .list⟩
  cases h with
  | atom h => exact h.elim
  | list h => exact h

@[simp] theorem wellKeyed_map :
    (map entries).WellKeyed ↔ entries.UniqueKeys ∧ ∀ v ∈ entries.values, v.WellKeyed := by
  refine ⟨fun h => ?_, fun h => .map h.1 h.2⟩
  cases h with
  | atom h => exact h.elim
  | map unique h => exact ⟨unique, h⟩

@[simp] theorem wellKeyed_tagged {m : Metadata} : (tagged v m).WellKeyed ↔ v.WellKeyed := by
  refine ⟨fun h => ?_, .tagged m⟩
  cases h with
  | atom h => exact h.elim
  | tagged _ h => exact h

/-- Operations of such values give such values, and so does reading JSON text. -/
theorem wellKeyed_hereditary : Hereditary True WellKeyed where
  datum {v} h := by cases v <;> first | exact .atom trivial | exact h.elim
  list := wellKeyed_list
  map := by simp only [wellKeyed_map, true_imp_iff, implies_true]
  tagged := wellKeyed_tagged

end ReactiveScript.Value
