import ReactiveScript.Proofs.Meaning

/-!
# Formulas over variables

Trees of value operators over constants and variables. Where the variables have values a formula
means what the expression means that has these values in place of the variables; and a value that
stands for the formula is forced to this, wherever the scope is current from which the variables are
seen.
-/

namespace ReactiveScript

open Eval Expression

/-- A value without nodes that is no error. -/
structure Datum where
  value : Value
  settled : value.NodeFree
  sound : value.isError = false

abbrev Valuation := String → Datum

/-- Variables have the values of a valuation, up to tags, seen from a scope. -/
def ScopeTable.Shows (t : ScopeTable) (s : ScopeId) (names : List String) (env : Valuation) : Prop :=
  ∀ x ∈ names, ∃ b, t.binding? s x = some b ∧ b.value.bare = (env x).value.bare

/-- A node reads a variable in the scope that is current. -/
structure Node.Refers (n : Node) (name : String) : Prop where
  body : n.body = .variable name
  captured : n.captured = none
  newScope : n.flags.newScope = false

section reference

variable {w : World} {s : ScopeId} {name : String} {b : Binding} {n : Node} {node : NodeRef}

theorem lookup_apply (current : w.context.current? = some s)
    (bound : w.scopes.binding? s name = some b) (perform : Task → Run Value) :
    lookup name perform w = (.ok b.value, w) := by
  have here : currentScope? perform w = (.ok (some s), w) := by
    rw [← current]
    rfl
  have look : Eval.world perform w = (.ok w, w) := rfl
  have found : w.scopes.find? s name = some b.value := by
    rw [ScopeTable.find?, bound]
    rfl
  rw [lookup, bind_of_ok here]
  simp only [bind_of_ok look, found]
  rfl

/-- A reference is forced to the value of the variable. -/
theorem reference_gives (hn : w.node? node.id = some n) (refers : n.Refers name)
    (current : w.context.current? = some s) (bound : w.scopes.binding? s name = some b)
    {v : Value} (alike : b.value.bare = v.bare) (settled : v.NodeFree) (ha : w.Admits 1)
    {parallel : Bool} {depth : Nat} (hd : depth ≠ 0) :
    (force parallel (.node node) depth).Gives w (.ok v) (n.observation (.ok v)) := by
  have entered : (w.entering node.id).context.current? = some s := current
  have inPlace : n.RunsInPlace (w.entering node.id) :=
    ⟨refers.captured, refers.newScope, .inr (by simp [entered])⟩
  have body : (runBody node.id n).Gives (w.entering node.id) (.ok v) [] := by
    intro learner inUse
    refine ⟨.ok b.value, learner, .of_apply fun perform => ?_, alike, rfl⟩
    rw [runBody, refers.body]
    exact lookup_apply (w := { w.entering node.id with learner, inUse }) current bound perform
  simpa using force_node_gives hn inPlace ha (Value.settled_ok settled) body hd

end reference

/-- A tree of operators over constants and variables. -/
inductive Formula where
  | constant (d : Datum)
  | reference (name : String)
  | unary (op : UnaryOperator) (source : Segment) (operand : Formula)
  | binary (op : BinaryOperator) (source : Segment) (left right : Formula)
  | connective (op : Connective) (source : Segment) (left right : Formula)

namespace Formula

/-- The expression with values in place of the variables. -/
def instantiate (env : Valuation) : Formula → Expression
  | constant d => .constant d.value d.settled
  | reference name => .constant (env name).value (env name).settled
  | unary op source f => .unary op source (f.instantiate env)
  | binary op source l r => .binary op source (l.instantiate env) (r.instantiate env)
  | connective op source l r => .connective op source (l.instantiate env) (r.instantiate env)

def names : Formula → List String
  | constant _ => []
  | reference name => [name]
  | unary _ _ f => f.names
  | binary _ _ l r | connective _ _ l r => l.names ++ r.names

/-- How many nodes are above each other; a variable is read by a node. -/
def height : Formula → Nat
  | constant _ => 0
  | reference _ => 1
  | unary _ _ f => f.height + 1
  | binary _ _ l r | connective _ _ l r => max l.height r.height + 1

/-- A value stands for a formula in a world. -/
def Wired (w : World) : Formula → Value → Prop
  | constant d, u => u = d.value
  | reference name, u => ∃ node n, u = .node node ∧ w.node? node.id = some n ∧ n.Refers name
  | unary op source f, u =>
    ∃ v, w.Computes u op.operator source [v] (.unary op.operator) ∧ f.Wired w v
  | binary op source l r, u =>
    ∃ v v', w.Computes u op.operator source [v, v'] (.binary op.operator) ∧
      l.Wired w v ∧ r.Wired w v'
  | connective op source l r, u =>
    ∃ v v', w.Computes u op.operator source [v, v'] (.binary op.operator) ∧
      l.Wired w v ∧ r.Wired w v'

theorem Wired.prolong {w w' : World} (h : w.Prolongs w') {f : Formula} {v : Value}
    (hv : f.Wired w v) : f.Wired w' v := by
  induction f generalizing v with
  | constant d => exact hv
  | reference name =>
    obtain ⟨node, n, rfl, hn, refers⟩ := hv
    exact ⟨node, n, rfl, h.node? hn, refers⟩
  | unary op source f ih =>
    obtain ⟨u, hu, hf⟩ := hv
    exact ⟨u, h.computes hu, ih hf⟩
  | binary op source l r ihl ihr =>
    obtain ⟨u, u', hu, hl, hr⟩ := hv
    exact ⟨u, u', h.computes hu, ihl hl, ihr hr⟩
  | connective op source l r ihl ihr =>
    obtain ⟨u, u', hu, hl, hr⟩ := hv
    exact ⟨u, u', h.computes hu, ihl hl, ihr hr⟩

theorem Wired.entering {w : World} {f : Formula} {v : Value} (h : f.Wired w v) (id : NodeId) :
    f.Wired (w.entering id) v := by
  have prolongs : w.Prolongs (w.entering id) := .of_nodes rfl
  exact h.prolong prolongs

/-- A value that stands for a formula is forced to what the formula means, to whichever depth. -/
theorem force_gives (f : Formula) {w : World} {s : ScopeId} {env : Valuation} {v : Value}
    (hv : f.Wired w v) (ha : w.Admits f.height) (current : w.context.current? = some s)
    (shows : w.scopes.Shows s f.names env) :
    ∃ seen, ∀ parallel, ∀ depth ≠ 0,
      (force parallel v depth).Gives w (f.instantiate env).eval seen := by
  induction f generalizing w v with
  | constant d =>
    cases hv
    refine ⟨[], fun parallel depth _ => ?_⟩
    obtain ⟨u, forced, hb⟩ := force_nodeFree parallel d.value d.settled depth
    rw [forced]
    exact .pure hb
  | reference name =>
    obtain ⟨node, n, rfl, hn, refers⟩ := hv
    obtain ⟨b, bound, alike⟩ := shows name (List.mem_singleton_self name)
    exact ⟨_, fun _ _ hd => reference_gives hn refers current bound alike (env name).settled ha hd⟩
  | unary op source f ih =>
    obtain ⟨u, ⟨id, n, rfl, hn, hc⟩, hf⟩ := hv
    obtain ⟨seen, operand⟩ := ih (hf.entering id) (ha.entering id) current shows
    exact ⟨_, fun _ _ hd => unary_node_gives op hn hc ha
      (settled_eval (.unary op source (f.instantiate env))) hd (operand _ 1 Nat.one_ne_zero)⟩
  | binary op source l r ihl ihr =>
    obtain ⟨u, u', ⟨id, n, rfl, hn, hc⟩, hl, hr⟩ := hv
    obtain ⟨seesLeft, seesRight⟩ := List.forall_mem_append.mp shows
    have inner := ha.entering id
    obtain ⟨seen, left⟩ :=
      ihl (hl.entering id) (inner.mono (Nat.le_max_left ..)) current seesLeft
    obtain ⟨seen', right⟩ :=
      ihr (hr.entering id) (inner.mono (Nat.le_max_right ..)) current seesRight
    exact ⟨_, fun _ _ hd => binary_node_gives op hn hc ha
      (settled_eval (.binary op source (l.instantiate env) (r.instantiate env))) hd (left _)
      (right _ _ (by decide)) (settled_eval _) (settled_eval _)⟩
  | connective op source l r ihl ihr =>
    obtain ⟨u, u', ⟨id, n, rfl, hn, hc⟩, hl, hr⟩ := hv
    obtain ⟨seesLeft, seesRight⟩ := List.forall_mem_append.mp shows
    have inner := ha.entering id
    obtain ⟨seen, left⟩ :=
      ihl (hl.entering id) (inner.mono (Nat.le_max_left ..)) current seesLeft
    obtain ⟨seen', right⟩ :=
      ihr (hr.entering id) (inner.mono (Nat.le_max_right ..)) current seesRight
    exact ⟨_, fun _ _ hd => connective_node_gives op hn hc ha rfl
      (settled_eval (.connective op source (l.instantiate env) (r.instantiate env))) hd
      (left _ 1 Nat.one_ne_zero) (right _ 1 Nat.one_ne_zero)⟩

end Formula
end ReactiveScript
