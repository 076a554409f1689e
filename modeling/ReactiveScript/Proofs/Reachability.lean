import ReactiveScript.Proofs.Discipline

/-!
# Tasks that come up

An evaluation asks for a task in a world if its run depends on how the task is carried out there.
The tasks that come up during a run are those that it asks for, those that these ask for, and so on;
the fuel that is left counts down on the way. Where a task comes up, every discipline holds.
-/

namespace ReactiveScript

open Eval

variable {α : Type} {p : Action → Prop}

/-- A run depends on the way in which one task is carried out in one world. -/
def Eval.DependsOn (x : Eval α) (perform : Task → Run Value) (w : World) (t : Task) (w' : World) :
    Prop :=
  ∃ other : Task → Run Value,
    (∀ t₁ w₁, ¬ (t₁ = t ∧ w₁ = w') → other t₁ w₁ = perform t₁ w₁) ∧ x other w ≠ x perform w

/-- A task comes up in a world, with fuel left, during the run of an evaluation. -/
inductive Reached (x : Eval α) (fuel : Nat) (w : World) : Nat → Task → World → Prop where
  | asked {t w'} (h : x.DependsOn (performWith fuel) w t w') : Reached x fuel w fuel t w'
  | nested {left t w₁ t' w'} (h : Reached x fuel w (left + 1) t w₁)
      (h' : (step t).DependsOn (performWith left) w₁ t' w') : Reached x fuel w left t' w'

namespace Eval

variable {β : Type} {perform : Task → Run Value} {w w₁ w' : World} {t : Task}

/-- Another way of carrying out tasks that gives up at one task in one world. -/
structure GivesUp (perform : Task → Run Value) (t : Task) (w' : World)
    (other : Task → Run Value) : Prop where
  elsewhere : ∀ t₁ w₁, ¬ (t₁ = t ∧ w₁ = w') → other t₁ w₁ = perform t₁ w₁
  there : other t w' = (.error .exhausted, w')

instance decidableExhausted (r : Except Interrupt α) : Decidable (r = .error .exhausted) :=
  match r with
  | .ok _ => isFalse nofun
  | .error (.raised _) => isFalse nofun
  | .error .exhausted => isTrue rfl

/-- An evaluation cannot go on if a task gives up. -/
def StopsAt (x : Eval α) (perform : Task → Run Value) (w : World) (t : Task) (w' : World) : Prop :=
  ∀ other, GivesUp perform t w' other → (x other w).1 = .error .exhausted

/-- An evaluation ends with a result before it needs a task. -/
def EndsBefore (x : Eval α) (perform : Task → Run Value) (w : World) (t : Task) (w' : World)
    (a : α) (w₁ : World) : Prop :=
  ∀ other, GivesUp perform t w' other → x other w = (.ok a, w₁)

theorem StopsAt.dependsOn {x : Eval α} (h : x.StopsAt perform w t w')
    (hx : (x perform w).1 ≠ .error .exhausted) : x.DependsOn perform w t w' := by
  classical
  let other : Task → Run Value := fun t₁ w₁ =>
    if t₁ = t ∧ w₁ = w' then (.error .exhausted, w') else perform t₁ w₁
  have stopped : GivesUp perform t w' other := ⟨fun _ _ hn => if_neg hn, if_pos ⟨rfl, rfl⟩⟩
  exact ⟨other, stopped.elsewhere, fun he => hx (he ▸ h other stopped)⟩

theorem stopsAt_perform (t : Task) (w : World) : (Eval.perform t).StopsAt perform w t w :=
  fun _ ho => congrArg Prod.fst ho.there

theorem endsBefore_perform {t₁ : Task} {v : Value} (hn : ¬ (t₁ = t ∧ w = w'))
    (h : perform t₁ w = (.ok v, w₁)) : (Eval.perform t₁).EndsBefore perform w t w' v w₁ :=
  fun _ ho => (ho.elsewhere t₁ w hn).trans h

theorem StopsAt.bind {x : Eval α} (h : x.StopsAt perform w t w') (f : α → Eval β) :
    (x >>= f).StopsAt perform w t w' := by
  intro other ho
  have hs := h other ho
  rw [bind_apply]
  split
  · next he => simp [he] at hs
  · next he => simpa [he] using hs

theorem EndsBefore.bind {x : Eval α} {a : α} (h : x.EndsBefore perform w t w' a w₁)
    {f : α → Eval β} (hf : (f a).StopsAt perform w₁ t w') :
    (x >>= f).StopsAt perform w t w' := by
  intro other ho
  rw [bind_apply, h other ho]
  exact hf other ho

theorem StopsAt.holding {x : Eval α} (held : List Held)
    (h : x.StopsAt perform { w with inUse := held ++ w.inUse } t w') :
    (Eval.holding held x).StopsAt perform w t w' := h

theorem EndsBefore.holding {x : Eval α} {a : α} (held : List Held)
    (h : x.EndsBefore perform { w with inUse := held ++ w.inUse } t w' a w₁) :
    (Eval.holding held x).EndsBefore perform w t w' a { w₁ with inUse := w.inUse } := by
  intro other ho
  simp only [Eval.holding, h other ho]

theorem StopsAt.whileNotifying {x : Eval Value} {id : NodeId}
    (hm : ¬ w.context.isNotifying id) (h : x.StopsAt perform (w.enterNotify id) t w') :
    (Eval.whileNotifying id x).StopsAt perform w t w' := by
  intro other ho
  rw [whileNotifying_of_not_marked hm]
  exact h other ho

end Eval

namespace Discipline

variable {D : Discipline p} {x : Eval α} {fuel left : Nat} {w w' : World} {t : Task}

theorem good_of_dependsOn {perform : Task → Run Value}
    (ha : ∀ other : Task → Run Value,
      (∀ t w, t.Allowed p → D.Good w → other t w = perform t w) → x other w = x perform w)
    (h : x.DependsOn perform w t w') : t.Allowed p ∧ D.Good w' := by
  obtain ⟨other, same, differs⟩ := h
  refine Classical.byContradiction fun hn => differs (ha other fun t₁ w₁ ht hw₁ => ?_)
  refine same t₁ w₁ fun h => hn ?_
  obtain ⟨rfl, rfl⟩ := h
  exact ⟨ht, hw₁⟩

/-- A task that comes up is allowed, and its world is good. -/
theorem Marks.good_of_reached (hm : D.Marks) (hx : Routine p x) (hw : D.Good w)
    (h : Reached x fuel w left t w') : t.Allowed p ∧ D.Good w' := by
  have keeps (fuel : Nat) : ∀ t, t.Allowed p → D.Keeps (performWith fuel t) :=
    fun _ ht => hm.keeps_performWith fuel ht
  induction h with
  | asked h => exact good_of_dependsOn (fun _ ho => hx.agrees (keeps _) ho _ hw) h
  | nested _ h' ih =>
    exact good_of_dependsOn (fun _ ho => agrees_step hm (keeps _) ho ih.1 _ ih.2) h'

end Discipline
end ReactiveScript
