import ReactiveScript.Evaluation.Basic
import ReactiveScript.Value.Order

/-!
# Forcing

Forcing to depth one resolves a node, forcing to a greater depth also the children of a container
to one level less, and depth zero does nothing. Results keep their places and are held while the
children after them are forced.

Children of a container can be forced in parallel: each of them sees the scopes of the caller once
more, several children on lines of execution made for them, and a single one on the line of the
caller. Children inside such a line stay on it.
-/

namespace ReactiveScript

/-- The depth that stands for no bound. -/
def unboundedDepth : Nat := UInt64.size - 1

namespace Eval

/-- Evaluates in a child of a container, which may be its only one. -/
def child {α : Type} (parallel single : Bool) (x : Eval α) : Eval α := do
  if parallel then
    let c ← context
    if single || c.isWorker then withScopes c.scopes x else onWorker c.scopes x
  else x

mutual

/-- Forces a value to a depth. -/
def force (parallel : Bool) : Value → Nat → Eval Value
  | .node n, depth =>
    if depth = 0 then pure (.node n) else perform (.resolve n.id depth parallel)
  | .tagged v m, depth =>
    if depth = 0 then pure (.tagged v m)
    else do return (← force parallel v depth).withMetadata m
  | .list items, depth =>
    if depth ≤ 1 then pure (.list items)
    else do return .list (← forceItems parallel (items.length = 1) items (depth - 1))
  | .map entries, depth =>
    if depth ≤ 1 then pure (.map entries)
    else do return .map (← forceEntries parallel (entries.length = 1) entries (depth - 1))
  | v, _ => pure v

/-- Forces the items of a list in order. -/
def forceItems (parallel single : Bool) : List Value → Nat → Eval (List Value)
  | [], _ => pure []
  | v :: rest, depth => do
    let w ← child parallel single (force parallel v depth)
    return w :: (← holding w.held (forceItems parallel single rest depth))

/-- Forces the values of a map in order. -/
def forceEntries (parallel single : Bool) :
    List (String × Value) → Nat → Eval (List (String × Value))
  | [], _ => pure []
  | (key, v) :: rest, depth => do
    let w ← child parallel single (force parallel v depth)
    return (key, w) :: (← holding w.held (forceEntries parallel single rest depth))

end

/-- Forces a value in order. -/
def fix (v : Value) (depth : Nat) : Eval Value := force false v depth

/-- Forces until no node is left anywhere inside. -/
def forceDeep (parallel : Bool) (v : Value) : Eval Value := do
  let w ← force parallel v unboundedDepth
  if w.containsNode then perform (.settle w parallel) else pure w

/-- Forces the result of an earlier forcing until no node is left. -/
def settle (parallel : Bool) (v : Value) : Eval Value := do
  let w ← holding v.held (force parallel v unboundedDepth)
  if w.containsNode then perform (.settle w parallel) else pure w

def fixDeep (v : Value) : Eval Value := forceDeep false v

/-- Forces to a concrete value and tests it. -/
def truthy (v : Value) : Eval Bool := do return (← fix v 1).isTrue

end Eval
end ReactiveScript
