import ReactiveScript.Proofs.Formulas
import ReactiveScript.Proofs.FunctionalNodes

/-!
# Laws of forcing

Where nodes compute functions, forcing in stages is forcing at once, and forcing the children of
containers in parallel gives the same values in the same places as forcing them in order.
-/

namespace ReactiveScript

open Eval

section laws

variable {w w' : World} {outcome : NodeId → Except EvalError Value} {v x y : Value}
  {r : Except EvalError Value} {depth a b : Nat}

/-- Where no node raises an error, no forcing does. -/
theorem Forces.isOk (total : ∀ id, ∃ v, outcome id = .ok v) (h : Forces outcome v depth r) :
    ∃ u, r = .ok u := by
  induction h with
  | node _ _ ih => exact ih
  | @node_error n _ e hn =>
    obtain ⟨v, hv⟩ := total n.id
    cases hv.symm.trans hn
  | tagged m _ ih =>
    obtain ⟨u, rfl⟩ := ih
    exact ⟨_, rfl⟩
  | parts_error _ _ _ _ _ ih =>
    obtain ⟨u, hu⟩ := ih
    cases hu
  | _ => exact ⟨_, rfl⟩

namespace World.Functional

variable (functional : w.Functional outcome)
  (admitted : w.context.calls.size < w.settings.maxRecursionDepth)
include functional admitted

theorem resembles_of_ends (hw : w.Resembles w') {u : World} {parallel : Bool}
    (h : (force parallel v depth).Ends w' r u) : w.Resembles u := by
  obtain ⟨fuel, ran⟩ := h
  exact hw.unaltered (functional.force_only admitted fuel parallel v depth w' r u hw ran).2

theorem staged_ends_iff (hw : w.Resembles w') :
    (∃ u, (do fix (← fix v a) b).Ends w' (.ok y) u) ↔
      ∃ x, Forces outcome v a (.ok x) ∧ Forces outcome x b (.ok y) := by
  have iff {w' : World} (hw : w.Resembles w') (v : Value) (depth : Nat)
      (r : Except EvalError Value) :
      (∃ u, (fix v depth).Ends w' r u) ↔ Forces outcome v depth r :=
    functional.force_ends_iff admitted hw false
  constructor
  · rintro ⟨u, h⟩
    rcases h.bind_cases with ⟨e, -, he⟩ | ⟨x, u', hx, hy⟩
    · cases he
    · have hu' := functional.resembles_of_ends admitted hw hx
      exact ⟨x, (iff hw v a _).mp ⟨u', hx⟩, (iff hu' x b _).mp ⟨u, hy⟩⟩
  · rintro ⟨x, hx, hy⟩
    obtain ⟨u', hx⟩ := (iff hw v a _).mpr hx
    obtain ⟨u, hy⟩ := (iff (functional.resembles_of_ends admitted hw hx) x b _).mpr hy
    exact ⟨u, .bind (force_plain false v a) (fun x => force_plain false x b) hx hy⟩

end World.Functional

/-- Forcing in stages is forcing at once. Where every node computes a function of what its body
sees that never raises an error, forcing a value to one depth and the result to another ends just as
forcing it to the greater depth does; and a forced value is forced to itself. -/
theorem forcing_in_stages (functional : w.Functional outcome)
    (total : ∀ id, ∃ v, outcome id = .ok v) (sound : w.context.corruption = none)
    (admitted : w.context.calls.size < w.settings.maxRecursionDepth) (v : Value) :
    (∀ a b r, (∃ w', (do fix (← fix v a) b).Ends w r w') ↔
      ∃ w', (fix v (max a b)).Ends w r w') ∧
    (∀ depth e w', ¬ (fix v depth).Ends w (.error e) w') ∧
    (∀ depth x w', (fix v depth).Ends w (.ok x) w' →
      ∃ w'', (fix x depth).Ends w' (.ok x) w'') := by
  have iff {w' : World} (hw : w.Resembles w') (v : Value) (depth : Nat)
      (r : Except EvalError Value) :
      (∃ u, (fix v depth).Ends w' r u) ↔ Forces outcome v depth r :=
    functional.force_ends_iff admitted hw false
  have here : w.Resembles w := .refl sound
  have raises {w' : World} (hw : w.Resembles w') (v : Value) (depth : Nat) (e : EvalError)
      (u : World) : ¬ (fix v depth).Ends w' (.error e) u := by
    intro h
    obtain ⟨u, hu⟩ := ((iff hw v depth _).mp ⟨u, h⟩).isOk total
    cases hu
  refine ⟨fun a b r => ?_, raises here v, fun depth x w' hx => ?_⟩
  · cases r with
    | ok y => rw [iff here, functional.staged_ends_iff admitted here, forces_stages]
    | error e =>
      refine iff_of_false ?_ fun ⟨w', h⟩ => raises here v _ e w' h
      rintro ⟨w', h⟩
      rcases h.bind_cases with ⟨e, he, -⟩ | ⟨x, u, hx, he⟩
      · exact raises here v a e w' he
      · exact raises (functional.resembles_of_ends admitted here hx) x b e w' he
  · have there := functional.resembles_of_ends admitted here hx
    have forced := (iff here v depth _).mp ⟨w', hx⟩
    -- The value comes by way of one that is forced from the same value, and so by way of itself.
    obtain ⟨x', hx', again⟩ := forces_stages.mpr ((Nat.max_self depth).symm ▸ forced)
    obtain ⟨u, ends⟩ := (iff here v depth _).mpr hx'
    cases (Ends.unique (force_plain false v depth) hx ends).1
    exact (iff there x depth _).mpr again

/-- Forcing in parallel agrees with forcing in order. Where every node computes a function of what
its body sees, and the recursion limit admits another execution, forcing in parallel ends with a
value if and only if forcing in order does, and then with the same one; the same holds of forcing
until no node is left. A container whose forcing in parallel raises an error has a child that raises
it; and if a child raises one, the forcing of the container ends with nothing but an error. -/
theorem parallel_forcing_agrees (functional : w.Functional outcome)
    (sound : w.context.corruption = none)
    (admitted : w.context.calls.size < w.settings.maxRecursionDepth) (v : Value) :
    (∀ depth x, (∃ w', (force true v depth).Ends w (.ok x) w') ↔
      ∃ w', (fix v depth).Ends w (.ok x) w') ∧
    (∀ x, (∃ w', (forceDeep true v).Ends w (.ok x) w') ↔
      ∃ w', (fixDeep v).Ends w (.ok x) w') ∧
    (∀ items rebuild depth, v.parts? = some (items, rebuild) →
      (∀ e w', (force true v (depth + 1)).Ends w (.error e) w' →
        ∃ u ∈ items, ∃ u', (force true u depth).Ends w (.error e) u') ∧
      ∀ u ∈ items, ∀ e u', (force true u depth).Ends w (.error e) u' →
        ∀ r w', (force true v (depth + 1)).Ends w r w' → ∃ e', r = .error e') := by
  have here : w.Resembles w := .refl sound
  have iff (parallel : Bool) (v : Value) (depth : Nat) (r : Except EvalError Value) :
      (∃ u, (force parallel v depth).Ends w r u) ↔ Forces outcome v depth r :=
    functional.force_ends_iff admitted here parallel
  refine ⟨fun depth x => (iff true v depth _).trans (iff false v depth _).symm, fun x => ?_,
    fun items rebuild depth hv => ⟨fun e w' h => ?_, fun u hu e u' raised r w' h => ?_⟩⟩
  · exact (functional.forceDeep_ends_iff admitted here true).trans
      (functional.forceDeep_ends_iff admitted here false).symm
  · obtain ⟨s, hs, he⟩ := (forces_parts hv).mp ((iff true v _ _).mp ⟨w', h⟩)
    cases s with
    | ok us => cases he
    | error e =>
      cases he
      obtain ⟨before, u, after, us, rfl, -, hu⟩ := hs
      exact ⟨u, by simp, (iff true u depth _).mpr hu⟩
  · cases r with
    | error e' => exact ⟨e', rfl⟩
    | ok y =>
      obtain ⟨us, hus, rfl⟩ := (forces_parts_ok hv).mp ((iff true v _ _).mp ⟨w', h⟩)
      obtain ⟨x, hx⟩ := exists_of_forall₂ hus hu
      obtain ⟨w'', ends⟩ := (iff true u depth _).mpr hx
      cases (Ends.unique (force_plain true u depth) raised ends).1

end laws

theorem Node.RunsInPlace.inside {n : Node} {w : World} {id : NodeId}
    (h : n.RunsInPlace (w.entering id)) : (Activation.mk id n w).inside = w.entering id := by
  have hinted : n.hinted (w.entering id) = [] := by
    rw [Node.hinted]
    rcases h.placed with hint | active
    · rw [hint]
      cases (w.entering id).context.current? <;> rfl
    · cases hc : (w.entering id).context.current? with
      | none => exact absurd hc active
      | some s => rfl
  have fresh : n.fresh (w.entering id) = ([], w.entering id) := by
    rw [Node.fresh, h.newScope]
    rfl
  simp only [Activation.inside, Node.enter, h.captured, Option.getD_none, World.inScopes, hinted,
    fresh]

/-- A node that gives further ones, and one that reads a variable in the current scope. -/
def readingWorld (name : String) : World where
  nodes := #[
    { operation := "outer", source := Segment.unknown, inputs := [], flags := {}
      body := .program [.yield (.list [.node ⟨2, "inner"⟩, .node ⟨3, "read"⟩])]
      captured := none, trigger := .inputs },
    { operation := "inner", source := Segment.unknown, inputs := [], flags := {}
      body := .program [.yield (.list [.tagged (.node ⟨3, "read"⟩) {}])]
      captured := none, trigger := .inputs },
    { operation := "read", source := Segment.unknown, inputs := [], flags := {}
      body := .variable name, captured := none, trigger := .inputs }]
  scopes := #[{ name := "root", parent := none, bindings := [("x", { value := .int 5 })] }]
  context := { scopes := [0] }

/-- What its nodes give, if the last one comes to something. -/
def readingOutcome (r : Except EvalError Value) : NodeId → Except EvalError Value
  | 1 => .ok (.list [.node ⟨2, "inner"⟩, .node ⟨3, "read"⟩])
  | 2 => .ok (.list [.tagged (.node ⟨3, "read"⟩) {}])
  | 3 => r
  | _ => .ok .void

section reading

variable {name : String} {w : World} {n : Node} {id : NodeId} {v : Value}

/-- The root alone is seen from itself, whatever scopes are added. -/
theorem readingWorld_root (hw : (readingWorld name).Resembles w) :
    w.scopes.chain 0 = [0] ∧ w.scopes[0]? = (readingWorld name).scopes[0]? := by
  obtain ⟨added, scopes⟩ := hw.spares.scopes
  have table : w.scopes = (readingWorld name).scopes ++ added := scopes
  have root : w.scopes[0]? = (readingWorld name).scopes[0]? := by
    rw [table, Array.getElem?_append_left (show 0 < 1 by decide)]
  have size : w.scopes.size = added.size + 1 := by
    rw [table, Array.size_append, Nat.add_comm]
    rfl
  refine ⟨?_, root⟩
  rw [ScopeTable.chain, size, ScopeTable.chainFrom, root]
  rfl

theorem binding?_readingWorld (hw : (readingWorld name).Resembles w) (x : String) :
    w.scopes.binding? 0 x = if "x" = x then some { value := .int 5 } else none := by
  obtain ⟨chain, root⟩ := readingWorld_root hw
  have here : w.scopes.localBinding? 0 x =
      if "x" = x then some { value := .int 5 } else none := by
    rw [ScopeTable.localBinding?, root]
    rfl
  rw [ScopeTable.binding?, ScopeTable.declaring?, chain, List.find?_cons, ScopeTable.hasLocal]
  split
  · exact here
  · next unbound =>
    rw [here] at unbound
    split at unbound
    · cases unbound
    · next other => rw [if_neg other]; rfl

theorem readingWorld_admits (hw : (readingWorld name).Resembles w) : w.Admits 1 where
  depth := by
    have few : w.context.calls.size ≤ 0 := hw.calls
    have limit : w.settings = Settings.default := hw.spares.settings
    rw [limit]
    exact Nat.le_trans (Nat.add_le_add_right few 1) (by decide)
  handler s hs := by
    cases hs.symm.trans hw.current
    obtain ⟨chain, root⟩ := readingWorld_root hw
    rw [ScopeTable.handler?, chain, List.findSome?_cons, root]
    rfl
  corruption := hw.sound

theorem readingWorld_functional (name : String) {r : Except EvalError Value}
    (reads : ∀ w, (readingWorld name).Resembles w →
      (lookup name).Ends (w.entering 3) r (w.entering 3)) :
    (readingWorld name).Functional
      (readingOutcome (r.mapError fun e => e.withSource Segment.unknown)) where
  body {id n w} hn hw := by
    have inside (captured : n.captured = none) (newScope : n.flags.newScope = false) :
        (Activation.mk id n w).inside = w.entering id :=
      Node.RunsInPlace.inside ⟨captured, newScope, .inr (by
        show w.context.current? ≠ none
        rw [hw.current]
        exact nofun)⟩
    have entered : (w.entering id).Admits 0 := (readingWorld_admits hw).entering id
    rcases id with _ | _ | _ | _ | id
    · cases hn
    · cases hn
      rw [inside rfl rfl]
      exact ⟨_, runRecovering_ends entered (r := .ok _) (.of_apply fun _ => rfl), .refl _⟩
    · cases hn
      rw [inside rfl rfl]
      exact ⟨_, runRecovering_ends entered (r := .ok _) (.of_apply fun _ => rfl), .refl _⟩
    · cases hn
      rw [inside rfl rfl]
      exact ⟨_, runRecovering_ends entered (reads w hw), .refl _⟩
    · simp [World.node?, readingWorld] at hn
  missing {id} hn := by
    rcases id with _ | _ | _ | _ | id
    · rfl
    · cases hn
    · cases hn
    · cases hn
    · rfl

theorem reads_bound (hw : (readingWorld "x").Resembles w) :
    (lookup "x").Ends (w.entering 3) (.ok (.int 5)) (w.entering 3) :=
  .of_apply fun perform =>
    lookup_apply (w := w.entering 3) hw.current (binding?_readingWorld hw "x") perform

theorem reads_unbound (hw : (readingWorld "y").Resembles w) :
    (lookup "y").Ends (w.entering 3) (.error (EvalError.variableNotFound "y"))
      (w.entering 3) := by
  refine .of_apply fun perform => ?_
  have current : currentScope? perform (w.entering 3) = (.ok (some 0), w.entering 3) :=
    congrArg (fun s => (Except.ok s, w.entering 3)) hw.current
  have unbound : (w.entering 3).scopes.find? 0 "y" = none :=
    congrArg (Option.map Binding.value) (binding?_readingWorld hw "y")
  rw [lookup, bind_of_ok current]
  simp only [bind_apply, Eval.world, unbound]
  rfl

end reading

/-- What the nodes stand for, down to the numbers. -/
def readingResult : Value := .list [.list [.tagged (.int 5) {}], .int 5]

theorem forces_readingResult :
    Forces (readingOutcome (.ok (.int 5))) (.node ⟨1, "outer"⟩) 3 (.ok readingResult) := by
  have read (depth : Nat) :
      Forces (readingOutcome (.ok (.int 5))) (.node ⟨3, "read"⟩) (depth + 1) (.ok (.int 5)) :=
    .node rfl (.datum (v := .int 5) trivial depth)
  have inner : Forces (readingOutcome (.ok (.int 5))) (.node ⟨2, "inner"⟩) 2
      (.ok (.list [.tagged (.int 5) {}])) :=
    .node rfl ((forces_parts_ok rfl).mpr ⟨_, .cons (.tagged {} (read 0)) .nil, rfl⟩)
  exact .node rfl ((forces_parts_ok rfl).mpr ⟨_, .cons inner (.cons (read 1) .nil), rfl⟩)

theorem reading_in_stages :
    (∃ w', (do fix (← fix (.node ⟨1, "outer"⟩) 1) 3).Ends (readingWorld "x") (.ok readingResult)
      w') ∧
    ∃ w' w'', (fix (.node ⟨1, "outer"⟩) 3).Ends (readingWorld "x") (.ok readingResult) w' ∧
      (fix readingResult 3).Ends w' (.ok readingResult) w'' := by
  have functional := readingWorld_functional "x" fun _ => reads_bound
  have total (id : NodeId) : ∃ v, readingOutcome (.ok (.int 5)) id = .ok v := by
    unfold readingOutcome
    split <;> exact ⟨_, rfl⟩
  obtain ⟨staged, -, again⟩ :=
    forcing_in_stages functional total rfl (by decide) (.node ⟨1, "outer"⟩)
  obtain ⟨w', once⟩ := (functional.force_ends_iff (by decide) (.refl rfl) false).mpr
    forces_readingResult
  obtain ⟨w'', forced⟩ := again 3 _ _ once
  exact ⟨(staged 1 3 _).mpr ⟨_, once⟩, w', w'', once, forced⟩

theorem reading_in_parallel :
    (∃ w', (force true (.node ⟨1, "outer"⟩) 3).Ends (readingWorld "x") (.ok readingResult) w') ∧
    ∃ u ∈ [Value.int 1, .node ⟨3, "read"⟩],
      ∃ e u', (force true u 1).Ends (readingWorld "y") (.error e) u' := by
  have bound := readingWorld_functional "x" fun _ => reads_bound
  have unbound := readingWorld_functional "y" fun _ => reads_unbound
  constructor
  · have agrees := parallel_forcing_agrees bound rfl (by decide) (.node ⟨1, "outer"⟩)
    have inOrder := (bound.force_ends_iff (by decide) (.refl rfl) false).mpr forces_readingResult
    exact (agrees.1 3 _).mpr inOrder
  · obtain ⟨-, -, children⟩ := parallel_forcing_agrees unbound rfl (by decide)
      (.list [.int 1, .node ⟨3, "read"⟩])
    have raises : Forces (readingOutcome (.error _)) (.list [.int 1, .node ⟨3, "read"⟩]) 2
        (.error ((EvalError.variableNotFound "y").withSource Segment.unknown)) :=
      (forces_parts rfl).mpr ⟨.error _, ⟨[.int 1], .node ⟨3, "read"⟩, [], [.int 1], rfl,
        .cons (.datum (v := .int 1) trivial 0) .nil, .node_error rfl⟩, rfl⟩
    obtain ⟨w', ends⟩ := (unbound.force_ends_iff (by decide) (.refl rfl) true).mpr raises
    obtain ⟨u, hu, u', ends⟩ := (children _ _ 1 rfl).1 _ _ ends
    exact ⟨u, hu, _, u', ends⟩

end ReactiveScript
