import ReactiveScript.Proofs.Executions

/-!
# Errors on their way out

An evaluation that has come to a task passes an error of the task on: what was pushed is popped, and
nothing else happens, as only an execution catches errors. A fatal error also passes through the
executions that are under way, one inside the other. None of them calls a handler, and each raises
the same error, unless a corruption of the scope stack is pending when it ends; that is fatal too.
-/

namespace ReactiveScript

open Eval

/-- An evaluation has come to a task in a world, and nothing in between catches an error of the
task. The last argument is what is undone on the way out. -/
inductive Eval.Awaits (t : Task) (u : World) :
    {α : Type} → Eval α → World → (World → World) → Prop where
  | here : Awaits t u (perform t) u id
  | inside {t₁ : Task} {w : World} {undo : World → World} (h : Awaits t u (step t₁) w undo) :
      Awaits t u (perform t₁) w undo
  | look {α : Type} {f : World → Eval α} {w : World} {undo : World → World}
      (h : Awaits t u (f w) w undo) : Awaits t u (world >>= f) w undo
  | first {α β : Type} {x : Eval α} {f : α → Eval β} {w : World} {undo : World → World}
      (h : Awaits t u x w undo) : Awaits t u (x >>= f) w undo
  | next {α β : Type} {x : Eval α} {f : α → Eval β} {w w₁ : World} {a : α} {undo : World → World}
      (hx : x.Plain) (hf : ∀ a, (f a).Plain) (ends : x.Ends w (.ok a) w₁)
      (h : Awaits t u (f a) w₁ undo) : Awaits t u (x >>= f) w undo
  | bracket {α : Type} {enter : World → World} {leave : World → World → World} {x : Eval α}
      {w : World} {undo : World → World} (hb : Bracketing enter leave)
      (h : Awaits t u x (enter w) undo) :
      Awaits t u (bracket enter leave x) w fun u' => leave w (undo u')
  | notifying {id : NodeId} {x : Eval Value} {w : World} {undo : World → World}
      (hm : ¬ w.context.isNotifying id) (h : Awaits t u x (w.enterNotify id) undo) :
      Awaits t u (whileNotifying id x) w fun u' => (undo u').leaveNotify id

namespace World

variable {w w' : World}

/-- The labels of the error handlers that were called, with the errors, the latest first. -/
def handled (w : World) : List (String × String) :=
  w.log.filterMap fun
    | .handled label error => some (label, error)
    | _ => none

@[simp] theorem handled_modifyContext (w : World) (f : Context → Context) :
    (w.modifyContext f).handled = w.handled := rfl

@[simp] theorem handled_popScope (w : World) (s : ScopeId) : (w.popScope s).handled = w.handled := by
  unfold popScope
  split
  · rfl
  · rw [handled_modifyContext, report]
    split <;> rfl

@[simp] theorem handled_popAll (w : World) (scopes : ScopeStack) :
    (w.popAll scopes).handled = w.handled := by
  induction scopes generalizing w with
  | nil => rfl
  | cons s rest ih => exact (ih (w.popScope s)).trans (handled_popScope w s)

/-- A corruption that is pending says so by its kind. -/
def Named (w : World) : Prop :=
  ∀ c, w.context.corruption = some c → c.kind = .scopeStackCorrupted

theorem Named.of_corruption (h : w.Named) (same : w'.context.corruption = w.context.corruption) :
    w'.Named := fun c hc => h c (same ▸ hc)

theorem Named.of_sound (h : w.context.corruption = none) : w.Named := by
  intro c hc
  rw [h] at hc
  cases hc

theorem Named.popScope (h : w.Named) (s : ScopeId) : (w.popScope s).Named := by
  intro c hc
  unfold World.popScope Context.pop at hc
  by_cases top : w.context.current? = some s
  · simp only [if_pos top] at hc
    exact h c hc
  · simp only [if_neg top, modifyContext, context_report, Context.noteCorruption] at hc
    cases pending : w.context.corruption with
    | some c' =>
      rw [pending] at hc
      cases hc
      exact h c pending
    | none =>
      rw [pending] at hc
      cases hc
      rfl

theorem Named.popAll (h : w.Named) (scopes : ScopeStack) : (w.popAll scopes).Named := by
  induction scopes generalizing w with
  | nil => exact h
  | cons s rest ih => exact ih (h.popScope s)

end World

/-- Only corruptions of the scope stack are recorded as such. -/
def namedCorruption : Discipline fun _ => True where
  inv := World.Named
  rel _ _ := True
  refl _ := trivial
  trans _ _ := trivial
  change h hw := ⟨hw.of_corruption (by rw [h.sameFrame.context]), trivial⟩
  enter hb hw := by
    cases hb with
    | line isWorker => exact .of_sound rfl
    | _ => exact hw
  leave hb hw hw' _ := by
    refine ⟨?_, trivial⟩
    cases hb with
    | scope s => exact hw'.popScope s
    | line isWorker => exact hw
    | _ => exact hw'
  clearCorruption _ := ⟨.of_sound rfl, trivial⟩
  popOutOfOrder {first second w} perform _ hw := by
    have ends : ∃ (u : World) (a b : ScopeId),
        (Eval.popOutOfOrder first second perform w).2 = (u.popScope a).popScope b ∧
        u.context.corruption = w.context.corruption := ⟨_, _, _, rfl, rfl⟩
    obtain ⟨u, a, b, ends, same⟩ := ends
    rw [ends]
    exact ⟨((hw.of_corruption same).popScope a).popScope b, trivial⟩

theorem namedCorruption_marks : namedCorruption.Marks where
  refuse _ hw := ⟨hw, trivial⟩
  enter _ hw := hw
  leave _ _ hw' _ := ⟨hw', trivial⟩

theorem World.Named.of_ends {α : Type} {x : Eval α} {w w' : World} {r : Except EvalError α}
    (h : w.Named) (hx : x.Plain) (ends : x.Ends w r w') : w'.Named := by
  obtain ⟨fuel, ends⟩ := ends
  have kept := (namedCorruption_marks.keeps_run fuel hx w
    ⟨w.allowed_of_forall fun _ => trivial, h⟩).1.inv
  rwa [ends] at kept

namespace Eval.Awaits

variable {α : Type} {t : Task} {u u' w : World} {x : Eval α} {undo : World → World} {e : EvalError}

/-- An error of the task is the error of the evaluation. -/
theorem passes (h : x.Awaits t u w undo) (ends : (step t).Ends u (.error e) u') :
    x.Ends w (.error e) (undo u') := by
  induction h with
  | here => exact .perform ends
  | inside _ ih => exact .perform ih
  | look _ ih => exact .look ih
  | first _ ih => exact .bind_error ih
  | next hx hf first _ ih => exact .bind hx hf first ih
  | bracket _ _ ih => exact .bracket ih
  | notifying hm _ ih => exact .whileNotifying hm ih

/-- No handler is called on the way out. -/
theorem handled_undo (h : x.Awaits t u w undo) (u' : World) : (undo u').handled = u'.handled := by
  induction h with
  | bracket hb _ ih =>
    cases hb with
    | scope s => exact (World.handled_popScope _ s).trans ih
    | _ => exact ih
  | _ => first | rfl | assumption

theorem named (h : x.Awaits t u w undo) (hw : w.Named) :
    u.Named ∧ ∀ u', u'.Named → (undo u').Named := by
  induction h with
  | here => exact ⟨hw, fun _ h => h⟩
  | next hx _ first _ ih => exact ih (hw.of_ends hx first)
  | bracket hb _ ih =>
    obtain ⟨hu, back⟩ := ih (namedCorruption.enter hb hw)
    exact ⟨hu, fun u' hu' => (namedCorruption.leave hb hw (back u' hu') trivial).1⟩
  | notifying _ _ ih => exact ih hw
  | inside _ ih | look _ ih | first _ ih => exact ih hw

theorem force_node (parallel : Bool) (node : NodeRef) {depth : Nat} (hd : depth ≠ 0) (w : World) :
    (force parallel (.node node) depth).Awaits (.resolve node.id depth parallel) w w id := by
  rw [force, if_neg hd]
  exact .here

/-- A program has come to a task in one of its actions, those before it having ended. -/
theorem runActions {self : Option NodeId} {inputs : List Value} {result v : Value} {a : Action}
    {rest : List Action} {w₁ : World} (ends : (runAction self inputs result a).Ends w (.ok v) w₁)
    (h : (runActions self inputs rest v).Awaits t u w₁ undo) :
    (Eval.runActions self inputs (a :: rest) result).Awaits t u w undo :=
  .next (Protocol.runAction self inputs result (a.allowed_of_forall fun _ => trivial)).routine
    (fun v => (Protocol.runActions self inputs (allowedActions_of_forall (fun _ => trivial) rest)
      v).routine) ends h

end Eval.Awaits

/-- The executions under way, the innermost one first, between the request of a node in a world and
that of another one. Each body has come to the request of the next node. -/
inductive Nest (root : NodeId) (start : World) : List Execution → NodeId → World → Prop where
  | nil : Nest root start [] root start
  | cons {outer : List Execution} {x : Execution} {id : NodeId} {depth : Nat} {parallel : Bool}
      {u : World} {undo : World → World} (h : Nest root start outer x.id x.before)
      (awaits : x.body.Awaits (.resolve id depth parallel) u x.inside undo) :
      Nest root start (x :: outer) id u

namespace Execution

variable {x : Execution} {e : EvalError} {u : World}

theorem recover_of_fatal {perform : Task → Run Value} (n : Node) (fatal : e.isFatal) (u : World) :
    recover n e perform u = (.error (.raised (e.withSource n.source)), u) := by
  have current : currentScope? perform u = (.ok u.context.current?, u) := rfl
  rw [recover, bind_apply, current]
  cases u.context.current? with
  | none => rfl
  | some scope =>
    have located : (e.withSource n.source).isFatal := by rwa [EvalError.withSource_isFatal]
    show handleError scope (e.withSource n.source) perform u = _
    rw [handleError, if_pos located]
    rfl

/-- A fatal error of the body is that of the execution, unless a corruption is pending. -/
theorem ends_of_fatal (fatal : e.isFatal) (h : x.body.Ends x.inside (.error e) u) :
    (execute x.id).Ends x.before (x.outcome u (.error (x.located e)))
      (x.after u (.error (x.located e))) :=
  (ends_iff_of_error h).mpr
    ⟨_, u, .of_apply fun _ => recover_of_fatal x.node fatal u, rfl, rfl⟩

@[simp] theorem handled_after (x : Execution) (u : World) (e : EvalError) :
    (x.after u (.error e)).handled = u.handled := by
  have unlearnt : x.after u (.error e) = (u.popAll x.scopes).clearCorruption.leaving := by
    rw [Activation.after, Activation.outcome]
    split <;> rfl
  rw [unlearnt]
  exact World.handled_popAll u x.scopes

end Execution

namespace Nest

variable {root id : NodeId} {start u u' : World} {levels : List Execution} {e : EvalError}

theorem named (h : Nest root start levels id u) (hs : start.Named) : u.Named := by
  induction h with
  | nil => exact hs
  | @cons _ x _ _ _ _ _ _ awaits ih =>
    exact (awaits.named (ih.of_corruption (by rw [x.context_inside]))).1

/-- A fatal error passes through all executions under way. None of them calls a handler. The error
stays of the same kind, unless one of them ends with a corruption pending. -/
theorem passes (h : Nest root start levels id u) (hs : start.Named) (fatal : e.isFatal)
    (ends : (execute id).Ends u (.error e) u') :
    ∀ x ∈ levels, ∃ e' w', (execute x.id).Ends x.before (.error e') w' ∧ e'.isFatal ∧
      w'.handled = u'.handled ∧
      (e'.kind = e.kind ∨
        ∃ y ∈ levels, ∃ e₁ v, y.body.Ends y.inside (.error e₁) v ∧ ¬ y.Intact v) := by
  induction h generalizing e u' with
  | nil => simp
  | @cons outer x id depth parallel u undo rest awaits ih =>
    have failed : x.body.Ends x.inside (.error e) (undo u') := awaits.passes (.bind_error ends)
    have soundInside : x.inside.Named := (rest.named hs).of_corruption (by rw [x.context_inside])
    have named : (undo u').Named := by
      obtain ⟨hu, back⟩ := awaits.named soundInside
      exact back u' (hu.of_ends (Protocol.execute id).routine ends)
    -- the error that the innermost execution raises, which the ones around it pass on
    obtain ⟨e₁, outcome, fatal₁, kind₁⟩ : ∃ e₁,
        x.outcome (undo u') (.error (x.located e)) = .error e₁ ∧ e₁.isFatal ∧
          (e₁.kind = e.kind ∨ ¬ x.Intact (undo u')) := by
      cases pending : ((undo u').popAll x.scopes).context.corruption with
      | none =>
        refine ⟨_, Activation.outcome_of_intact pending _, ?_, .inl (EvalError.withSource_kind ..)⟩
        exact (EvalError.withSource_isFatal ..).trans fatal
      | some c =>
        refine ⟨_, Activation.outcome_of_corrupted pending _, ?_, .inr fun intact => ?_⟩
        · have kind : c.kind = .scopeStackCorrupted := (named.popAll x.scopes) c pending
          rw [Activation.located, EvalError.withSource_isFatal, EvalError.isFatal, kind]
          rfl
        · rw [Activation.Intact, pending] at intact
          cases intact
    have ended := Execution.ends_of_fatal fatal failed
    rw [outcome] at ended
    have handled : (x.after (undo u') (.error (x.located e))).handled = u'.handled :=
      (x.handled_after _ _).trans (awaits.handled_undo u')
    intro y hy
    rcases List.mem_cons.mp hy with rfl | hy
    · refine ⟨e₁, _, ended, fatal₁, handled, kind₁.imp_right fun torn => ?_⟩
      exact ⟨y, List.mem_cons_self, e, undo u', failed, torn⟩
    · obtain ⟨e', w', ended', fatal', handled', kind'⟩ := ih fatal₁ ended y hy
      refine ⟨e', w', ended', fatal', handled'.trans handled, ?_⟩
      rcases kind' with kind' | ⟨z, hz, e₂, v, failed', torn⟩
      · rcases kind₁ with kind₁ | torn
        · exact .inl (kind'.trans kind₁)
        · exact .inr ⟨x, List.mem_cons_self, e, undo u', failed, torn⟩
      · exact .inr ⟨z, List.mem_cons_of_mem x hz, e₂, v, failed', torn⟩

end Nest

end ReactiveScript
