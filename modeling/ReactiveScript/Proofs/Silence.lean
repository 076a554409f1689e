import ReactiveScript.Proofs.Discipline

/-!
# Runs that do not notify

A run does not notify if it is the same however notifications are answered. Then it leaves the marks
of its line of execution as they are.
-/

namespace ReactiveScript

open Eval

/-- Carries out tasks with fuel, except that notifications are answered. -/
def performAnswering (answer : NodeId → Run Value) : Nat → Task → Run Value
  | _, .notify id => answer id
  | 0, _ => fun w => (.error .exhausted, w)
  | fuel + 1, task => Eval.step task (performAnswering answer fuel)

/-- The run of a task does not depend on how notifications are answered. -/
def Silent (fuel : Nat) (t : Task) (w : World) : Prop :=
  ∀ answer, performAnswering answer fuel t w = performWith fuel t w

/-- The marks are kept, and their guards. -/
def marksKept : Discipline fun _ => True where
  inv _ := True
  rel w w' := w'.context.notifying = w.context.notifying ∧ w'.context.guards = w.context.guards
  refl _ := ⟨rfl, rfl⟩
  trans h h' := ⟨h'.1.trans h.1, h'.2.trans h.2⟩
  change h _ := by
    rw [h.sameFrame.context]
    exact ⟨trivial, rfl, rfl⟩
  enter _ _ := trivial
  leave {enter leave w w'} hb _ _ hr := by
    cases hb with
    | scope s =>
      obtain ⟨scopes, corruption, h⟩ := w'.popScope_context s
      simp only [h]
      exact ⟨trivial, hr⟩
    | line isWorker => exact ⟨trivial, rfl, rfl⟩
    | _ => exact ⟨trivial, hr⟩
  clearCorruption _ := ⟨trivial, rfl, rfl⟩
  popOutOfOrder {first second w} perform _ _ := by
    obtain ⟨scopes, corruption, h⟩ := popOutOfOrder_context first second perform w
    rw [h]
    exact ⟨trivial, rfl, rfl⟩

/-- If notifications are answered with nothing, all tasks keep the marks. -/
theorem keeps_performAnswering (fuel : Nat) (t : Task) :
    marksKept.Keeps (performAnswering (fun _ w => (.ok .void, w)) fuel t) := by
  induction fuel generalizing t with
  | zero => cases t <;> exact fun w hw => ⟨hw, marksKept.refl w⟩
  | succ fuel ih =>
    cases t using step_cases with
    | notify id => exact fun w hw => ⟨hw, marksKept.refl w⟩
    | routine t hn =>
      have h := (Protocol.step (t.allowed_of_forall fun _ => trivial) hn).routine.keeps fun t _ => ih t
      cases t <;> first | exact h | exact absurd rfl (hn _)

/-- A run that does not notify keeps the marks. -/
theorem Silent.notifying_eq {fuel : Nat} {t : Task} {w : World} (h : Silent fuel t w) :
    (performWith fuel t w).2.context.notifying = w.context.notifying := by
  have good : marksKept.Good w := ⟨w.allowed_of_forall fun _ => trivial, trivial⟩
  rw [← h fun _ w => (.ok .void, w)]
  exact (keeps_performAnswering fuel t w good).2.1

end ReactiveScript
