import ReactiveScript.Proofs.Expressions

/-!
# Wiring expressions

Wiring an expression succeeds, runs nothing and changes nothing but that it adds nodes. The value it
gives stands for the expression from then on, whatever else is built.
-/

namespace ReactiveScript

open Eval

/-- The nodes of a world are there in another one, under the same numbers. -/
def World.Prolongs (w w' : World) : Prop := ∃ more, w'.nodes = w.nodes ++ more

namespace World.Prolongs

variable {w w₁ w₂ : World}

theorem of_nodes (h : w₁.nodes = w.nodes) : w.Prolongs w₁ := ⟨#[], by simp [h]⟩

theorem trans (h : w.Prolongs w₁) (h' : w₁.Prolongs w₂) : w.Prolongs w₂ := by
  obtain ⟨first, h⟩ := h
  obtain ⟨second, h'⟩ := h'
  exact ⟨first ++ second, by rw [h', h, Array.append_assoc]⟩

theorem build (w : World) (s : NodeSpec) : w.Prolongs (w.build s).2 := ⟨#[_], rfl⟩

theorem node? (h : w.Prolongs w₁) {id : NodeId} {n : Node} (hn : w.node? id = some n) :
    w₁.node? id = some n := by
  obtain ⟨more, h⟩ := h
  unfold World.node? at hn ⊢
  split at hn
  · cases hn
  · rw [if_neg ‹_›, h, Array.getElem?_append_left (Array.getElem?_eq_some_iff.mp hn).1, hn]

theorem computes (h : w.Prolongs w₁) {u : Value} {op : Operator} {source : Segment}
    {inputs : List Value} {body : Body} (hu : w.Computes u op source inputs body) :
    w₁.Computes u op source inputs body := by
  obtain ⟨id, n, rfl, hn, hc⟩ := hu
  exact ⟨id, n, rfl, h.node? hn, hc⟩

theorem wired (h : w.Prolongs w₁) {e : Expression} {v : Value} (hv : e.Wired w v) :
    e.Wired w₁ v := by
  induction e generalizing v with
  | constant u settled => exact hv
  | unary op source e ih =>
    obtain ⟨u, hu, he⟩ := hv
    exact ⟨u, h.computes hu, ih he⟩
  | binary op source l r ihl ihr =>
    obtain ⟨u, u', hu, hl, hr⟩ := hv
    exact ⟨u, u', h.computes hu, ihl hl, ihr hr⟩
  | connective op source l r ihl ihr =>
    obtain ⟨u, u', hu, hl, hr⟩ := hv
    exact ⟨u, u', h.computes hu, ihl hl, ihr hr⟩

end World.Prolongs

/-- The node that is built from a specification. -/
def World.fresh (w : World) (spec : NodeSpec) : Node where
  operation := spec.operation
  source := spec.source
  inputs := spec.inputs
  body := spec.body
  flags := spec.flags
  captured := if spec.flags.scopeClosure then some w.context.scopes else none
  trigger := match spec.follows with
    | some name => .variable name w.context.current?
    | none => .inputs

theorem World.node?_build (w : World) (spec : NodeSpec) :
    (w.build spec).2.node? w.nextNode = some (w.fresh spec) := by
  rw [World.node?, World.nextNode, if_neg (Nat.succ_ne_zero _)]
  exact Array.getElem?_push_size

theorem World.node?_modifyNode (w : World) {id : Nat} (hid : id ≠ 0) (f : Node → Node)
    (other : Nat) : (w.modifyNode id f).node? other =
      if id = other then (w.node? other).map f else w.node? other := by
  by_cases zero : other = 0
  · simp [World.node?, zero]
  · have same : id - 1 = other - 1 ↔ id = other := by omega
    simp only [World.node?, World.modifyNode, if_neg zero, Array.getElem?_modify, same]

/-- Nodes that are built later may change. -/
theorem World.Prolongs.modifyNode {base w : World} (h : base.Prolongs w) {id : Nat}
    (later : base.nodes.size < id) (f : Node → Node) : base.Prolongs (w.modifyNode id f) := by
  obtain ⟨more, h⟩ := h
  refine ⟨more.modify (id - 1 - base.nodes.size) f, ?_⟩
  apply Array.ext_getElem?
  intro i
  rw [World.modifyNode, h, Array.getElem?_modify]
  by_cases hi : i < base.nodes.size
  · have ne : id - 1 ≠ i := by omega
    rw [if_neg ne, Array.getElem?_append_left hi, Array.getElem?_append_left hi]
  · have le : base.nodes.size ≤ i := Nat.le_of_not_lt hi
    have same : id - 1 = i ↔ id - 1 - base.nodes.size = i - base.nodes.size := by omega
    simp only [Array.getElem?_append_right le, Array.getElem?_modify, same]

/-- The node that a token of a value operator asks for. -/
def valueSpec (op : Operator) (source : Segment) (inputs : List Value) (body : Body) : NodeSpec :=
  Wiring.specOf (Expression.token op source inputs) body (Wiring.tableFlags op)

theorem computes_build (w : World) (op : Operator) (source : Segment) (inputs : List Value)
    (body : Body) :
    (w.build (valueSpec op source inputs body)).2.Computes
      (.node (w.build (valueSpec op source inputs body)).1) op source inputs body := by
  have found : (w.build (valueSpec op source inputs body)).2.node? w.nextNode = some {
      operation := op.name, source, inputs, body
      flags := Wiring.tableFlags op, captured := none, trigger := .inputs } :=
    w.node?_build (valueSpec op source inputs body)
  exact ⟨w.nextNode, _, rfl, found, rfl, rfl, rfl, rfl, rfl, rfl, rfl⟩

/-- A token is wired, whatever tasks do: a node is built and handed out. -/
def Builds (t : OperatorToken Value) (s : NodeSpec) : Prop :=
  ∀ (w : World) (perform : Task → Run Value),
    Wiring.wire t perform w = (.ok (.ok (.node (w.build s).1)), (w.build s).2)

theorem UnaryOperator.builds (op : UnaryOperator) (source : Segment) (v : Value) :
    Builds (Expression.token op.operator source [v])
      (valueSpec op.operator source [v] (.unary op.operator)) := by
  intro w perform
  cases op <;> rfl

theorem BinaryOperator.builds (op : BinaryOperator) (source : Segment) (v v' : Value) :
    Builds (Expression.token op.operator source [v, v'])
      (valueSpec op.operator source [v, v'] (.binary op.operator)) := by
  intro w perform
  cases op <;> rfl

theorem Connective.builds (op : Connective) (source : Segment) (v v' : Value) :
    Builds (Expression.token op.operator source [v, v'])
      (valueSpec op.operator source [v, v'] (.binary op.operator)) := by
  intro w perform
  cases op <;> rfl

/-- Wiring goes on with the value of a part that was wired. -/
theorem wiring_bind {x : ExceptT WiringError Eval Value}
    {f : Value → ExceptT WiringError Eval Value} {perform : Task → Run Value} {w w₁ : World}
    {v : Value} (h : x.run perform w = (.ok (.ok v), w₁)) :
    (x >>= f).run perform w = (f v).run perform w₁ := by
  show (x.run >>= ExceptT.bindCont f) perform w = _
  rw [bind_apply, h]
  rfl

namespace Expression

/-- Wiring an expression runs nothing and adds nodes only, and the result stands for it. -/
structure WiresTo (e : Expression) (w : World) (v : Value) (nodes : Array Node) : Prop where
  run : ∀ perform, e.wire.run perform w = (.ok (.ok v), { w with nodes })
  prolongs : w.Prolongs { w with nodes }
  wired : e.Wired { w with nodes } v

/-- Two operands are wired one after the other. -/
theorem wire_operands {l r : Expression} (hl : ∀ w, ∃ v nodes, l.WiresTo w v nodes)
    (hr : ∀ w, ∃ v nodes, r.WiresTo w v nodes) (w : World) :
    ∃ v v' nodes,
      (∀ (f : Value → Value → ExceptT WiringError Eval Value) perform,
        (l.wire >>= fun v => r.wire >>= f v).run perform w =
          (f v v').run perform { w with nodes }) ∧
      w.Prolongs { w with nodes } ∧ l.Wired { w with nodes } v ∧ r.Wired { w with nodes } v' := by
  obtain ⟨v, nodes, first⟩ := hl w
  obtain ⟨v', nodes', second⟩ := hr { w with nodes }
  refine ⟨v, v', nodes', fun f perform => ?_, first.prolongs.trans second.prolongs,
    second.prolongs.wired first.wired, second.wired⟩
  rw [wiring_bind (first.run perform), wiring_bind (second.run perform)]

/-- An expression can be wired in any world. -/
theorem exists_wiresTo (e : Expression) (w : World) : ∃ v nodes, e.WiresTo w v nodes := by
  induction e generalizing w with
  | constant v settled => exact ⟨v, w.nodes, fun _ => rfl, .of_nodes rfl, rfl⟩
  | unary op source e ih =>
    obtain ⟨v, nodes, operand⟩ := ih w
    have built := World.Prolongs.build { w with nodes }
      (valueSpec op.operator source [v] (.unary op.operator))
    refine ⟨_, _, fun perform => ?_, operand.prolongs.trans built, v, computes_build ..,
      built.wired operand.wired⟩
    rw [wire, wiring_bind (operand.run perform)]
    exact op.builds source v _ perform
  | binary op source l r ihl ihr =>
    obtain ⟨v, v', nodes, run, prolongs, hl, hr⟩ := wire_operands ihl ihr w
    have built := World.Prolongs.build { w with nodes }
      (valueSpec op.operator source [v, v'] (.binary op.operator))
    refine ⟨_, _, fun perform => ?_, prolongs.trans built, v, v', computes_build ..,
      built.wired hl, built.wired hr⟩
    rw [wire, run]
    exact op.builds source v v' _ perform
  | connective op source l r ihl ihr =>
    obtain ⟨v, v', nodes, run, prolongs, hl, hr⟩ := wire_operands ihl ihr w
    have built := World.Prolongs.build { w with nodes }
      (valueSpec op.operator source [v, v'] (.binary op.operator))
    refine ⟨_, _, fun perform => ?_, prolongs.trans built, v, v', computes_build ..,
      built.wired hl, built.wired hr⟩
    rw [wire, run]
    exact op.builds source v v' _ perform

end Expression

end ReactiveScript
