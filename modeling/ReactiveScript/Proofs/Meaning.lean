import ReactiveScript.Proofs.Outcomes

/-!
# Forcing wired expressions

When a value that stands for an expression is forced, it gives the direct result of the expression:
the same value up to tags, or an error of the same kind with the same message. The operators that
are executed meanwhile are those that the direct evaluation evaluates, each of them once and in the
same order, so that a connective does not execute the right operand if the left one decides.
-/

namespace ReactiveScript

open Eval Expression

section operators

variable {w : World} {l r : Value} {a b : Except EvalError Value} {seen seen' : Observations}

theorem unary_gives (op : UnaryOperator) (h : (fix l 1).Gives w a seen) :
    (evaluateUnary op.operator l).Gives w (do op.apply (← a)) seen := by
  have one : (fixDeep (.int 1)).Gives w (.ok (.int 1)) [] := .pure rfl
  have unseen : observedAfter (fun _ => true) a [] ++ seen = seen := by cases a <;> rfl
  cases op with
  | negate => exact onConcrete_gives Value.negate_bare h
  | not => exact onConcrete_gives Value.logicalNot_bare h
  | size => exact onConcrete_gives Value.size_bare h
  | inc =>
    have given := inTurn_gives Value.plus_bare (Protocol.fix l 1).routine
      (Protocol.fixDeep _).routine h one
    rw [unseen] at given
    exact given
  | dec =>
    have given := inTurn_gives Value.minus_bare (Protocol.fix l 1).routine
      (Protocol.fixDeep _).routine h one
    rw [unseen] at given
    exact given

theorem binary_gives (op : BinaryOperator) (hl : (fix l 1).Gives w a seen)
    (hs : (fixDeep l).Gives w a seen) (hr : (fixDeep r).Gives w b seen') :
    (evaluateBinary op.operator l r).Gives w (do op.apply (← a) (← b))
      (observedAfter (fun _ => true) a seen' ++ seen) := by
  have concrete (op : BinaryOperator) :=
    inTurn_gives op.apply_bare (Protocol.fix l 1).routine (Protocol.fixDeep r).routine hl hr
  have settled (op : BinaryOperator) :=
    inTurn_gives op.apply_bare (Protocol.fixDeep l).routine (Protocol.fixDeep r).routine hs hr
  cases op with
  | plus => exact concrete .plus
  | minus => exact concrete .minus
  | multiply => exact concrete .multiply
  | divide => exact concrete .divide
  | modulus => exact concrete .modulus
  | lessThan => exact settled .lessThan
  | greaterThan => exact settled .greaterThan
  | lessEqual => exact settled .lessEqual
  | greaterEqual => exact settled .greaterEqual
  | equal => exact settled .equal
  | notEqual => exact settled .notEqual

section nodes

variable {n : Node} {node : NodeRef} {source : Segment} {height depth : Nat} {parallel : Bool}

theorem unary_node_gives (op : UnaryOperator) (hn : w.node? node.id = some n)
    (hc : n.Computes op.operator source [l] (.unary op.operator)) (ha : w.Admits (height + 1))
    (hr : Value.Settled (do op.apply (← a))) (hd : depth ≠ 0)
    (hl : (fix l 1).Gives (w.entering node.id) a seen) :
    (force parallel (.node node) depth).Gives w (do op.apply (← a))
      (observation op.operator source [l.typeName] (do op.apply (← a)) ++ seen) := by
  have body : (runBody node.id n).Gives (w.entering node.id) (do op.apply (← a)) seen := by
    rw [runBody, hc.body, hc.inputs]
    exact unary_gives op hl
  have given : (force parallel (.node node) depth).Gives w _ _ :=
    force_node_gives hn (hc.runsInPlace _) ha hr body hd
  rwa [hc.observation_eq] at given

theorem binary_node_gives (op : BinaryOperator) (hn : w.node? node.id = some n)
    (hc : n.Computes op.operator source [l, r] (.binary op.operator)) (ha : w.Admits (height + 1))
    (hr : Value.Settled (do op.apply (← a) (← b))) (hd : depth ≠ 0)
    (left : ∀ depth ≠ 0, (fix l depth).Gives (w.entering node.id) a seen)
    (right : (fix r unboundedDepth).Gives (w.entering node.id) b seen')
    (ha' : Value.Settled a) (hb' : Value.Settled b) :
    (force parallel (.node node) depth).Gives w (do op.apply (← a) (← b))
      (observation op.operator source [l.typeName, r.typeName] (do op.apply (← a) (← b)) ++
        (observedAfter (fun _ => true) a seen' ++ seen)) := by
  have body : (runBody node.id n).Gives (w.entering node.id) (do op.apply (← a) (← b))
      (observedAfter (fun _ => true) a seen' ++ seen) := by
    rw [runBody, hc.body, hc.inputs]
    exact binary_gives op (left 1 Nat.one_ne_zero) (fixDeep_gives ha' (left _ (by decide)))
      (fixDeep_gives hb' right)
  have given : (force parallel (.node node) depth).Gives w _ _ :=
    force_node_gives hn (hc.runsInPlace _) ha hr body hd
  rwa [hc.observation_eq] at given

theorem connective_node_gives (op : Connective) (hn : w.node? node.id = some n)
    (hc : n.Computes op.operator source [l, r] (.binary op.operator)) (ha : w.Admits (height + 1))
    {result : Except EvalError Value}
    (he : result = do
      let v ← a
      match op.decision? v with
      | some result => .ok result
      | none => return Connective.truthOf (← b))
    (hr : Value.Settled result) (hd : depth ≠ 0)
    (left : (fix l 1).Gives (w.entering node.id) a seen)
    (right : (fix r 1).Gives (w.entering node.id) b seen') :
    (force parallel (.node node) depth).Gives w result
      (observation op.operator source [l.typeName, r.typeName] result ++
        (observedAfter (fun v => (op.decision? v).isNone) a seen' ++ seen)) := by
  have body : (runBody node.id n).Gives (w.entering node.id) result
      (observedAfter (fun v => (op.decision? v).isNone) a seen' ++ seen) := by
    rw [runBody, hc.body, hc.inputs, he]
    exact connective_gives op left right
  have given : (force parallel (.node node) depth).Gives w _ _ :=
    force_node_gives hn (hc.runsInPlace _) ha hr body hd
  rwa [hc.observation_eq] at given

end nodes

end operators

namespace Expression

theorem Wired.entering {w : World} {e : Expression} {v : Value} (h : e.Wired w v) (id : NodeId) :
    e.Wired (w.entering id) v := by
  have prolongs : w.Prolongs (w.entering id) := .of_nodes rfl
  exact prolongs.wired h

/-- A value that stands for an expression is forced to the direct result of the expression. -/
theorem force_gives (e : Expression) {w : World} {v : Value} (hv : e.Wired w v)
    (ha : w.Admits e.height) {parallel : Bool} {depth : Nat} (hd : depth ≠ 0) :
    (force parallel v depth).Gives w e.eval e.observed := by
  induction e generalizing w v parallel depth with
  | constant u settled =>
    cases hv
    obtain ⟨u', forced, hb⟩ := force_nodeFree parallel u settled depth
    rw [forced]
    exact .pure hb
  | unary op source e ih =>
    obtain ⟨u, ⟨id, n, rfl, hn, hc⟩, he⟩ := hv
    rw [observed, ← typeName_of_wired he]
    have operand : (fix u 1).Gives (w.entering id) e.eval e.observed :=
      ih (he.entering id) (ha.entering id) Nat.one_ne_zero
    exact unary_node_gives op hn hc ha (settled_eval (unary op source e)) hd operand
  | binary op source l r ihl ihr =>
    obtain ⟨u, u', ⟨id, n, rfl, hn, hc⟩, hl, hr⟩ := hv
    rw [observed, ← typeName_of_wired hl, ← typeName_of_wired hr]
    have left (depth : Nat) (hd : depth ≠ 0) :
        (fix u depth).Gives (w.entering id) l.eval l.observed :=
      ihl (hl.entering id) ((ha.entering id).mono (Nat.le_max_left ..)) hd
    have right : (fix u' unboundedDepth).Gives (w.entering id) r.eval r.observed :=
      ihr (hr.entering id) ((ha.entering id).mono (Nat.le_max_right ..)) (by decide)
    exact binary_node_gives op hn hc ha (settled_eval (binary op source l r)) hd left right
      (settled_eval l) (settled_eval r)
  | connective op source l r ihl ihr =>
    obtain ⟨u, u', ⟨id, n, rfl, hn, hc⟩, hl, hr⟩ := hv
    rw [observed, ← typeName_of_wired hl, ← typeName_of_wired hr]
    have left : (fix u 1).Gives (w.entering id) l.eval l.observed :=
      ihl (hl.entering id) ((ha.entering id).mono (Nat.le_max_left ..)) Nat.one_ne_zero
    have right : (fix u' 1).Gives (w.entering id) r.eval r.observed :=
      ihr (hr.entering id) ((ha.entering id).mono (Nat.le_max_right ..)) Nat.one_ne_zero
    exact connective_node_gives op hn hc ha rfl (settled_eval (connective op source l r)) hd left
      right

/-- An expression can be wired, and from then on, wherever its nodes are found, forcing the root
gives the direct result of the expression. The operators that are executed are those that the direct
evaluation evaluates, and nothing is changed but what is learnt from them. -/
theorem wire_keeps_meaning (e : Expression) (w : World) :
    ∃ root nodes, Ends e.wire.run w (.ok (.ok root)) { w with nodes } ∧
      e.Wired { w with nodes } root ∧
      ∀ w' parallel, e.Wired w' root → w'.Admits e.height →
        ∃ r learner, (force parallel root 1).Ends w' r { w' with learner } ∧ Alike r e.eval ∧
          learner.observations = e.observed ++ w'.learner.observations := by
  obtain ⟨root, nodes, wiring⟩ := e.exists_wiresTo w
  refine ⟨root, nodes, .of_apply wiring.run, wiring.wired, fun w' parallel hw ha => ?_⟩
  exact e.force_gives hw ha Nat.one_ne_zero w'.learner w'.inUse

/-- A disjunction whose left operand holds, while the right one would fail: a number is a sum with a
tagged operand, and a text is divided. -/
def shortCut : Expression :=
  .connective .or Segment.unknown
    (.binary .lessThan Segment.unknown
      (.binary .plus Segment.unknown
        (.constant (.tagged (.int 1) { note := "one" }) rfl) (.constant (.int 2) rfl))
      (.constant (.int 4) rfl))
    (.binary .divide Segment.unknown (.constant (.str "x") rfl) (.constant (.bool true) rfl))

/-- The disjunction is forced to its direct result, and its right operand is not executed. -/
theorem shortCut_keeps_meaning :
    ∃ root nodes, Ends shortCut.wire.run {} (.ok (.ok root)) { nodes } ∧
      shortCut.Wired { nodes } root ∧ World.Admits { nodes } shortCut.height ∧
      ∃ r learner, (force false root 1).Ends { nodes } r { nodes, learner } ∧
        Alike r (.ok (.bool true)) ∧
        learner.observations.map (fun o => (o.1.operation, o.2)) =
          [("or", .boolean), ("less-than", .boolean), ("plus", .integer)] := by
  obtain ⟨root, nodes, wiring, wired, forced⟩ := wire_keeps_meaning shortCut {}
  have fresh : World.Admits {} shortCut.height :=
    ⟨by decide, fun scope h => by simp [Context.current?] at h, rfl⟩
  have admits : World.Admits { nodes } shortCut.height :=
    ⟨fresh.depth, fresh.handler, fresh.corruption⟩
  obtain ⟨r, learner, forced, alike, observed⟩ := forced { nodes } false wired admits
  refine ⟨root, nodes, wiring, wired, admits, r, learner, forced, alike, ?_⟩
  rw [observed]
  rfl

end Expression

end ReactiveScript
