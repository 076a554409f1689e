import ReactiveScript.Proofs.Hereditary
import ReactiveScript.Proofs.Transparency

/-!
# Values without nodes

A value that holds no node is settled: there is nothing left in it to compute. Operations of settled
operands give settled results.
-/

namespace ReactiveScript.Value

/-- No node is anywhere inside. -/
def NodeFree (v : Value) : Prop := v.containsNode = false

mutual

theorem containsNode_bare (v : Value) : v.bare.containsNode = v.containsNode := by
  cases v with
  | list items => simp only [bare, containsNode, itemsContainNode_bare items]
  | map entries => simp only [bare, containsNode, entriesContainNode_bare entries]
  | tagged v m => simp only [bare, containsNode, containsNode_bare v]
  | _ => rfl

theorem itemsContainNode_bare (items : List Value) :
    itemsContainNode (bareItems items) = itemsContainNode items := by
  cases items with
  | nil => rfl
  | cons v rest =>
    simp only [bareItems, itemsContainNode, containsNode_bare v, itemsContainNode_bare rest]

theorem entriesContainNode_bare (entries : List (String × Value)) :
    entriesContainNode (bareEntries entries) = entriesContainNode entries := by
  cases entries with
  | nil => rfl
  | cons e rest =>
    obtain ⟨key, v⟩ := e
    simp only [bareEntries, entriesContainNode, containsNode_bare v, entriesContainNode_bare rest]

end

/-- Whether nodes are inside does not depend on tags. -/
theorem NodeFree.of_bare {v w : Value} (h : v.bare = w.bare) (hw : w.NodeFree) : v.NodeFree := by
  rw [NodeFree, ← containsNode_bare, h, containsNode_bare]
  exact hw

@[simp] theorem nodeFree_untagged {v : Value} : v.untagged.NodeFree ↔ v.NodeFree :=
  ⟨.of_bare (bare_untagged v).symm, .of_bare (bare_untagged v)⟩

theorem NodeFree.isNode {v : Value} (h : v.NodeFree) : v.isNode = false := by
  have free : v.untagged.NodeFree := nodeFree_untagged.mpr h
  cases hv : v.untagged with
  | node n => simp [hv, NodeFree, containsNode] at free
  | _ => simp [Value.isNode, asNode?, hv]

@[simp] theorem nodeFree_list {items : List Value} :
    (list items).NodeFree ↔ ∀ v ∈ items, v.NodeFree := by
  show itemsContainNode items = false ↔ _
  induction items with
  | nil => simp [itemsContainNode]
  | cons v rest ih => simp [itemsContainNode, ih, NodeFree]

@[simp] theorem nodeFree_map {entries : OrderedMap Value} :
    (map entries).NodeFree ↔ ∀ v ∈ OrderedMap.values entries, v.NodeFree := by
  show entriesContainNode entries = false ↔ _
  induction entries with
  | nil => simp [entriesContainNode, OrderedMap.values]
  | cons e rest ih =>
    obtain ⟨key, v⟩ := e
    simp [entriesContainNode, ih, NodeFree, OrderedMap.values]

/-- To be without nodes is handed on by every operation. -/
theorem nodeFree_hereditary : Hereditary False NodeFree where
  datum {v} h := by cases v <;> first | rfl | exact h.elim
  list := nodeFree_list
  map := nodeFree_map.trans ⟨fun h => ⟨nofun, h⟩, And.right⟩
  tagged := .of_eq (by simp only [NodeFree, containsNode])

/-- A result holds no node, if there is one. -/
def Settled (r : Except EvalError Value) : Prop := ∀ v, r = .ok v → v.NodeFree

theorem settled_ok {v : Value} (h : v.NodeFree) : Settled (.ok v) := Yields.ok h

theorem settled_error (e : EvalError) : Settled (.error e) := Yields.error e

end ReactiveScript.Value
