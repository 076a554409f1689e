import ReactiveScript.Proofs.FailedAssignments
import ReactiveScript.Proofs.Outcomes

/-!
# Executions

An execution that is admitted enters the scopes of its node, runs the body there, gives an error of
the body to a handler, leaves the scopes, and concludes: a corruption of the scope stack that is
pending then takes the place of the outcome. This takes an execution apart into what its body does
and what is done before and after.
-/

namespace ReactiveScript

open Eval

variable {α β : Type}

namespace Eval.Ends

variable {x : Eval α} {f : α → Eval β} {w w' w₁ w₂ : World}

/-- An evaluation ends in one way only. -/
theorem unique (hx : x.Plain) {r s : Except EvalError α} (h : x.Ends w r w₁)
    (h' : x.Ends w s w₂) : r = s ∧ w₁ = w₂ := by
  obtain ⟨fuel, h'⟩ := h'
  have same := run_of_not_exhausted hx h (not_exhausted h')
  rw [h'] at same
  obtain ⟨he, rfl⟩ := Prod.mk.inj same
  exact ⟨(mapError_raised_injective he).symm, rfl⟩

/-- Once it has ended, an evaluation ends in this way. -/
theorem iff_eq (hx : x.Plain) {r s : Except EvalError α} (h : x.Ends w r w₁) :
    x.Ends w s w' ↔ s = r ∧ w' = w₁ := by
  refine ⟨fun hs => ?_, ?_⟩
  · obtain ⟨rfl, rfl⟩ := unique hx h hs
    exact ⟨rfl, rfl⟩
  · rintro ⟨rfl, rfl⟩
    exact h

theorem exists_of_run {fuel : Nat} (h : (x.run fuel w).1 ≠ .error .exhausted) :
    ∃ r w', x.Ends w r w' := by
  rcases hr : x.run fuel w with ⟨result, w'⟩
  rw [hr] at h
  cases result with
  | ok a => exact ⟨.ok a, w', fuel, hr⟩
  | error i =>
    cases i with
    | raised e => exact ⟨.error e, w', fuel, hr⟩
    | exhausted => exact absurd rfl h

theorem bind_cases {s : Except EvalError β} (h : (x >>= f).Ends w s w') :
    (∃ e, x.Ends w (.error e) w' ∧ s = .error e) ∨
      ∃ a u, x.Ends w (.ok a) u ∧ (f a).Ends u s w' := by
  obtain ⟨fuel, h⟩ := h
  rw [run_bind] at h
  rcases hx : x.run fuel w with ⟨(e | _) | a, u⟩
  · rw [hx] at h
    cases s <;> cases h
    exact .inl ⟨_, ⟨fuel, hx⟩, rfl⟩
  · rw [hx] at h
    cases s <;> cases h
  · rw [hx] at h
    exact .inr ⟨a, u, ⟨fuel, hx⟩, fuel, h⟩

/-- An evaluation ends as its first part fails, or as the rest with what the first part gives. -/
theorem bind_ends_iff (hx : x.Plain) (hf : ∀ a, (f a).Plain) {s : Except EvalError β} :
    (x >>= f).Ends w s w' ↔ (∃ e, x.Ends w (.error e) w' ∧ s = .error e) ∨
        ∃ a u, x.Ends w (.ok a) u ∧ (f a).Ends u s w' := by
  refine ⟨Ends.bind_cases, ?_⟩
  rintro (⟨e, failed, rfl⟩ | ⟨a, u, given, rest⟩)
  · exact .bind_error failed
  · exact .bind hx hf given rest

/-- Once its first part has ended, an evaluation ends as the rest of it does. -/
theorem bind_iff (hx : x.Plain) (hf : ∀ a, (f a).Plain) {a : α} {s : Except EvalError β}
    (h : x.Ends w (.ok a) w₁) : (x >>= f).Ends w s w' ↔ (f a).Ends w₁ s w' := by
  refine ⟨fun hs => ?_, .bind hx hf h⟩
  rcases hs.bind_cases with ⟨e, failed, -⟩ | ⟨b, u, given, hs⟩
  · cases (unique hx h failed).1
  · obtain ⟨same, rfl⟩ := unique hx h given
    cases same
    exact hs

/-- An attempt ends as what is attempted, whose outcome is its result. -/
theorem attempt_cases {s : Except EvalError (Except EvalError α)}
    (h : (Eval.attempt x).Ends w s w') : ∃ r, s = .ok r ∧ x.Ends w r w' := by
  obtain ⟨fuel, h⟩ := h
  have attempted : Eval.attempt x (performWith fuel) w = (s.mapError .raised, w') := h
  rw [Eval.attempt] at attempted
  split at attempted
  · next a u ran =>
    obtain ⟨same, rfl⟩ := Prod.mk.inj attempted
    exact ⟨.ok a, mapError_raised_injective same.symm, fuel, ran⟩
  · next e u ran =>
    obtain ⟨same, rfl⟩ := Prod.mk.inj attempted
    exact ⟨.error e, mapError_raised_injective same.symm, fuel, ran⟩
  · exact absurd (congrArg Prod.fst attempted).symm (mapError_raised_ne s)

/-- A bracketed evaluation ends where it ends between the brackets. -/
theorem bracket_iff {r : Except EvalError α} {enter : World → World}
    {leave : World → World → World} : (Eval.bracket enter leave x).Ends w r w' ↔
      ∃ u, x.Ends (enter w) r u ∧ w' = leave w u := by
  constructor
  · rintro ⟨fuel, h⟩
    have ran : ((x.run fuel (enter w)).1, leave w (x.run fuel (enter w)).2) =
        (r.mapError .raised, w') := h
    obtain ⟨same, rfl⟩ := Prod.mk.inj ran
    exact ⟨(x.run fuel (enter w)).2, ⟨fuel, Prod.ext same rfl⟩, rfl⟩
  · rintro ⟨u, h, rfl⟩
    exact .bracket h

theorem withScope {r : Except EvalError α} (scope : ScopeId)
    (h : x.Ends (w.modifyContext fun c => c.push scope) r w₁) :
    (Eval.withScope scope x).Ends w r (w₁.popScope scope) := by
  show (Eval.bracket (fun w => w.modifyContext fun c => c.push scope)
    (fun _ w' => w'.popScope scope) x).Ends w r _
  exact .bracket h

end Eval.Ends

namespace World

/-- Pops scopes that were pushed, the innermost one first. -/
def popAll (w : World) (scopes : ScopeStack) : World := scopes.foldl popScope w

theorem popAll_append (w : World) (inner outer : ScopeStack) :
    w.popAll (inner ++ outer) = (w.popAll inner).popAll outer := List.foldl_append

/-- Popping the scopes on top neither reports nor records anything. -/
theorem popAll_of_scopes {w : World} {scopes outer : ScopeStack}
    (h : w.context.scopes = scopes ++ outer) :
    w.popAll scopes = w.modifyContext fun c => { c with scopes := outer } := by
  induction scopes generalizing w with
  | nil =>
    show w = w.modifyContext fun c => { c with scopes := outer }
    rw [← show w.context.scopes = outer from h]
    rfl
  | cons s rest ih =>
    show (w.popScope s).popAll rest = _
    rw [popScope_of_scopes h, ih rfl]
    rfl

/-- An execution is over. -/
def leaving (w : World) : World := w.modifyContext Context.leaveCall

/-- What is learnt from the outcome of an execution. -/
def learning (w : World) (id : NodeId) (n : Node) : Except EvalError Value → World
  | .error _ => w
  | .ok v =>
    match v.typeTag? with
    | none => w
    | some t =>
      { w with learner :=
          w.learner.record id (PredictionKey.ofInputs n.operation n.source n.inputs) t }

end World

section apply

variable {x : Eval α} {perform : Task → Run Value}

theorem withScopes_eq (scopes : ScopeStack) (x : Eval α) (w : World) :
    withScopes scopes x perform w =
      ((x perform (w.inScopes scopes)).1, (x perform (w.inScopes scopes)).2.popAll scopes) := by
  induction scopes generalizing x with
  | nil => rfl
  | cons scope outer ih => exact ih (withScope scope x)

namespace Node

/-- The scope of a variable node, if none is active. -/
def hinted (n : Node) (w : World) : ScopeStack :=
  match w.context.current?, n.scopeHint with
  | none, some hint => [hint]
  | _, _ => []

theorem withHint_apply (n : Node) (x : Eval α) (w : World) :
    withHint n x perform w = withScopes (n.hinted w) x perform w := by
  have current : currentScope? perform w = (.ok w.context.current?, w) := rfl
  rw [withHint, bind_apply, current, hinted]
  cases w.context.current? with
  | some scope => rfl
  | none => cases n.scopeHint <;> rfl

/-- The new scope of a node that asks for one, in the world to which it is added. -/
def fresh (n : Node) (w : World) : ScopeStack × World :=
  if n.flags.newScope then
    let (scope, w) := match w.context.current? with
      | some parent => w.addChild parent n.operation
      | none => w.addRoot n.operation
    ([scope], w)
  else ([], w)

theorem withFreshScope_apply (n : Node) (x : Eval α) (w : World) :
    withFreshScope n x perform w = withScopes (n.fresh w).1 x perform (n.fresh w).2 := by
  rw [withFreshScope, fresh]
  split
  · have current : currentScope? perform w = (.ok w.context.current?, w) := rfl
    rw [bind_apply, addScope, bind_apply, current]
    cases w.context.current? <;> rfl
  · rfl

/-- The scopes that a node enters, the innermost one first, and the world in which its body runs. -/
def enter (n : Node) (w : World) : ScopeStack × World :=
  let captured := n.captured.getD []
  let hinted := n.hinted (w.inScopes captured)
  let (fresh, w) := n.fresh ((w.inScopes captured).inScopes hinted)
  (fresh ++ hinted ++ captured, w.inScopes fresh)

theorem inScopesOf_eq (n : Node) (x : Eval α) (w : World) :
    inScopesOf n x perform w =
      ((x perform (n.enter w).2).1, (x perform (n.enter w).2).2.popAll (n.enter w).1) := by
  rw [inScopesOf, withScopes_eq, withHint_apply, withScopes_eq, withFreshScope_apply,
    withScopes_eq]
  simp only [enter, World.popAll_append]

theorem fresh_context (n : Node) (w : World) : (n.fresh w).2.context = w.context := by
  rw [fresh]
  split
  · cases w.context.current? <;> rfl
  · rfl

/-- Entering the scopes of a node changes nothing else in the context. -/
theorem enter_context (n : Node) (w : World) : (n.enter w).2.context =
    { w.context with scopes := (n.enter w).1 ++ w.context.scopes } := by
  simp only [enter, World.inScopes_eq, World.modifyContext, fresh_context, List.append_assoc]

end Node

end apply

/-- An admitted execution does everything in the scopes of its node, and concludes. -/
theorem execute_of_admitted {perform : Task → Run Value} {id : NodeId} {n : Node} {w : World}
    (hn : w.node? id = some n) (h : w.context.calls.size < w.settings.maxRecursionDepth) :
    execute id perform w = whileExecuting id
      (Eval.attempt (inScopesOf n (runRecovering id n)) >>= concludeExecution id n) perform w := by
  rw [execute, bind_apply, Eval.world]
  simp only [hn, if_neg (Nat.not_le.mpr h)]

/-- The execution of a node that is asked for in a world. -/
structure Activation where
  id : NodeId
  node : Node
  before : World

namespace Activation

variable (x : Activation) {u : World}

/-- The scopes that are entered for the execution, the innermost one first. -/
def scopes : ScopeStack := (x.node.enter (x.before.entering x.id)).1

/-- The world in which the body runs. -/
def inside : World := (x.node.enter (x.before.entering x.id)).2

def body : Eval Value := runBody x.id x.node

/-- An error of the body, with its place. -/
def located (e : EvalError) : EvalError := e.withSource x.node.source

/-- No corruption of the scope stack is pending when the scopes of the execution are left. -/
def Intact (u : World) : Prop := (u.popAll x.scopes).context.corruption = none

/-- The outcome of the execution, unless a corruption is pending. -/
def outcome (u : World) (r : Except EvalError Value) : Except EvalError Value :=
  match (u.popAll x.scopes).context.corruption with
  | some c => .error (x.located c)
  | none => r

/-- The world after the execution. -/
def after (u : World) (r : Except EvalError Value) : World :=
  ((u.popAll x.scopes).clearCorruption.learning x.id x.node (x.outcome u r)).leaving

theorem context_inside : x.inside.context = { x.before.context with
    scopes := x.scopes ++ x.before.context.scopes
    calls := x.before.context.calls.push x.id } :=
  x.node.enter_context (x.before.entering x.id)

variable {x}

theorem outcome_of_intact (h : x.Intact u) (r : Except EvalError Value) : x.outcome u r = r := by
  rw [outcome, show (u.popAll x.scopes).context.corruption = none from h]

theorem outcome_of_corrupted {c : EvalError} (h : (u.popAll x.scopes).context.corruption = some c)
    (r : Except EvalError Value) : x.outcome u r = .error (x.located c) := by
  rw [outcome, h]

end Activation

/-- An execution that the recursion limit admits. -/
structure Execution extends Activation where
  found : before.node? id = some node
  admitted : before.context.calls.size < before.settings.maxRecursionDepth

namespace Execution

variable (x : Execution) {u : World} {r : Except EvalError Value}

theorem body_plain : x.body.Plain :=
  (Protocol.runBody x.id (x.node.body.allowed_of_forall fun _ => trivial)).routine

theorem runRecovering_plain : (runRecovering x.id x.node).Plain :=
  (Protocol.runRecovering x.id (x.node.body.allowed_of_forall fun _ => trivial)).routine

theorem concludeExecution_apply (perform : Task → Run Value) (u : World)
    (r : Except EvalError Value) :
    concludeExecution x.id x.node r perform (u.popAll x.scopes) =
      ((x.outcome u r).mapError .raised,
        (u.popAll x.scopes).clearCorruption.learning x.id x.node (x.outcome u r)) := by
  have taken : takeCorruption perform (u.popAll x.scopes) =
      (.ok (u.popAll x.scopes).context.corruption, (u.popAll x.scopes).clearCorruption) := rfl
  rw [concludeExecution, bind_apply, taken, Activation.outcome]
  cases (u.popAll x.scopes).context.corruption with
  | some c => rfl
  | none =>
    cases r with
    | error e => rfl
    | ok v =>
      show (recordType x.id x.node v >>= fun _ => pure v) perform _ = _
      rw [recordType, World.learning]
      cases v.typeTag? <;> rfl

/-- What is left to do when the body and a handler are done. -/
def finish : Except Interrupt Value × World → Except Interrupt Value × World
  | (.ok v, u) => ((x.outcome u (.ok v)).mapError .raised, x.after u (.ok v))
  | (.error (.raised e), u) => ((x.outcome u (.error e)).mapError .raised, x.after u (.error e))
  | (.error .exhausted, u) => (.error .exhausted, (u.popAll x.scopes).leaving)

/-- An execution enters, runs the body with its handler, and finishes. -/
theorem execute_apply (perform : Task → Run Value) :
    execute x.id perform x.before = x.finish (runRecovering x.id x.node perform x.inside) := by
  have entered : inScopesOf x.node (runRecovering x.id x.node) perform (x.before.entering x.id) =
      ((runRecovering x.id x.node perform x.inside).1,
        (runRecovering x.id x.node perform x.inside).2.popAll x.scopes) :=
    x.node.inScopesOf_eq _ _
  have whole (y : Eval Value) : whileExecuting x.id y perform x.before =
      ((y perform (x.before.entering x.id)).1, (y perform (x.before.entering x.id)).2.leaving) :=
    rfl
  rw [execute_of_admitted x.found x.admitted, whole, bind_apply, Eval.attempt, entered]
  obtain ⟨result, u⟩ := runRecovering x.id x.node perform x.inside
  cases result with
  | ok v =>
    simp only [x.concludeExecution_apply perform u]
    rfl
  | error i =>
    cases i with
    | raised e =>
      simp only [x.concludeExecution_apply perform u]
      rfl
    | exhausted => rfl

variable {x} {w' : World}

theorem finish_mapError (u : World) (r : Except EvalError Value) :
    x.finish (r.mapError .raised, u) = ((x.outcome u r).mapError .raised, x.after u r) := by
  cases r <;> rfl

theorem finish_ne (p : Except Interrupt Value × World) (h : (x.finish p).1 ≠ .error .exhausted) :
    p.1 ≠ .error .exhausted := by
  intro he
  obtain ⟨_, u⟩ := p
  cases he
  exact h rfl

/-- An execution ends exactly as its body, with the handler, and what is done afterwards. -/
theorem ends_iff : (execute x.id).Ends x.before r w' ↔
    ∃ s u, (runRecovering x.id x.node).Ends x.inside s u ∧
      x.outcome u s = r ∧ x.after u s = w' := by
  constructor
  · rintro ⟨fuel, h⟩
    have ended := Ends.not_exhausted h
    rw [Eval.run, x.execute_apply] at h ended
    obtain ⟨s, u, fuel', hs⟩ := Ends.exists_of_run (finish_ne _ ended)
    have same : runRecovering x.id x.node (performWith fuel) x.inside = (s.mapError .raised, u) :=
      Ends.run_of_not_exhausted x.runRecovering_plain ⟨fuel', hs⟩ (finish_ne _ ended)
    rw [same, finish_mapError] at h
    obtain ⟨outcome, after⟩ := Prod.mk.inj h
    exact ⟨s, u, ⟨fuel', hs⟩, mapError_raised_injective outcome, after⟩
  · rintro ⟨s, u, ⟨fuel, hs⟩, rfl, rfl⟩
    refine ⟨fuel, ?_⟩
    rw [Eval.run, x.execute_apply]
    exact (congrArg x.finish hs).trans (finish_mapError u s)

/-- After an error of the body the execution depends on what becomes of the error. -/
theorem ends_iff_of_error {e : EvalError} (h : x.body.Ends x.inside (.error e) u) :
    (execute x.id).Ends x.before r w' ↔
      ∃ s u', (recover x.node e).Ends u s u' ∧ x.outcome u' s = r ∧ x.after u' s = w' := by
  have recovered (s : Except EvalError Value) (u' : World) :
      (runRecovering x.id x.node).Ends x.inside s u' ↔ (recover x.node e).Ends u s u' :=
    Ends.bind_iff (.attempt x.body_plain)
      (fun outcome => (Protocol.recoverOutcome x.node outcome).routine) h.attempt
  simp only [ends_iff, recovered]

end Execution

/-- Beyond the recursion limit an execution is refused, and nothing changes. -/
theorem execute_of_limit {perform : Task → Run Value} {id : NodeId} {n : Node} {w : World}
    (hn : w.node? id = some n) (h : w.settings.maxRecursionDepth ≤ w.context.calls.size) :
    execute id perform w = (.error (.raised ((EvalError.recursionLimitExceeded
      w.settings.maxRecursionDepth).withSource n.source)), w) := by
  rw [execute, bind_apply, Eval.world]
  simp only [hn, if_pos h]
  rfl

theorem execute_refused {id : NodeId} {n : Node} {w : World} (hn : w.node? id = some n)
    (h : w.settings.maxRecursionDepth ≤ w.context.calls.size) :
    (execute id).Ends w (.error ((EvalError.recursionLimitExceeded
      w.settings.maxRecursionDepth).withSource n.source)) w :=
  .of_apply fun _ => execute_of_limit hn h

end ReactiveScript
