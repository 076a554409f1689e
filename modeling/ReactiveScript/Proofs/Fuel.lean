import ReactiveScript.Proofs.Discipline

/-!
# Fuel

Extra fuel changes nothing: a run that was not exhausted is the same with more fuel. So an
evaluation either never ends, or it has one result, which every sufficient fuel gives.
-/

namespace ReactiveScript

open Eval

variable {α β : Type}

namespace Eval

/-- A way of carrying out tasks agrees with another one wherever that is not exhausted. -/
def Extends (perform other : Task → Run Value) : Prop :=
  ∀ t w, (perform t w).1 ≠ .error .exhausted → other t w = perform t w

variable {perform other : Task → Run Value}

theorem Routine.extends {x : Eval α} (hx : Routine (fun _ => True) x)
    (h : Extends perform other) :
    ∀ w, (x perform w).1 ≠ .error .exhausted → x other w = x perform w := by
  induction hx with
  | @bind α β x f hx hf ihx ihf =>
    intro w hw
    rw [bind_apply] at hw
    rw [bind_apply, bind_apply]
    split at hw
    · next a w₁ he =>
      rw [ihx w (by simp [he]), he]
      exact ihf a w₁ hw
    · next i w₁ he =>
      have hi : i ≠ .exhausted := fun h => hw (h ▸ rfl)
      rw [ihx w (by simpa [he] using hi), he]
  | look hf ih => exact fun w => ih w (w.allowed_of_forall fun _ => trivial) w
  | perform ht => exact fun w => h _ w
  | @attempt α x hx ih =>
    intro w hw
    have hx : (x perform w).1 ≠ .error .exhausted := by
      intro he
      apply hw
      simp only [Eval.attempt]
      split <;> simp_all
    simp only [Eval.attempt, ih w hx]
  | @bracket α enter leave x hb hx ih =>
    intro w hw
    rw [bracket_apply, bracket_apply, ih (enter w) hw]
  | _ => exact fun w _ => rfl

theorem extends_step (h : Extends perform other) (t : Task) :
    ∀ w, (step t perform w).1 ≠ .error .exhausted → step t other w = step t perform w := by
  cases t using step_cases with
  | notify id =>
    intro w hw
    simp only [step, notify] at hw ⊢
    by_cases hm : w.context.isNotifying id
    · rw [whileNotifying_of_marked hm, whileNotifying_of_marked hm]
    · rw [whileNotifying_of_not_marked hm] at hw
      rw [whileNotifying_of_not_marked hm, whileNotifying_of_not_marked hm,
        (Protocol.announce id).routine.extends h _ hw]
  | routine t hn => exact (Protocol.step (t.allowed_of_forall fun _ => trivial) hn).routine.extends h

end Eval

theorem extends_performWith {fuel more : Nat} (h : fuel ≤ more) :
    Extends (performWith fuel) (performWith more) := by
  induction fuel generalizing more with
  | zero => exact fun t w hn => absurd rfl hn
  | succ fuel ih =>
    obtain ⟨more, rfl⟩ : ∃ k, more = k + 1 := ⟨more - 1, by omega⟩
    intro t w
    exact extends_step (ih (by omega)) t w

/-- A run that ends is the same with more fuel. -/
theorem run_eq_of_le {x : Eval α} (hx : Routine (fun _ => True) x) {fuel more : Nat}
    (h : fuel ≤ more) {w : World} (hw : (x.run fuel w).1 ≠ .error .exhausted) :
    x.run more w = x.run fuel w := hx.extends (extends_performWith h) w hw

theorem performWith_eq_of_le {fuel more : Nat} (h : fuel ≤ more) {t : Task} {w : World}
    (hw : (performWith fuel t w).1 ≠ .error .exhausted) :
    performWith more t w = performWith fuel t w := extends_performWith h t w hw

/-- An evaluation ends with a result or a raised error in a world, given enough fuel. -/
def Eval.Ends (x : Eval α) (w : World) (r : Except EvalError α) (w' : World) : Prop :=
  ∃ fuel, x.run fuel w = (r.mapError .raised, w')

/-- Routines without restrictions on their programs. -/
abbrev Eval.Plain (x : Eval α) : Prop := Routine (fun _ => True) x

theorem mapError_raised_ne (r : Except EvalError α) :
    r.mapError Interrupt.raised ≠ .error .exhausted := by
  intro h
  cases r <;> cases h

theorem mapError_raised_injective {r s : Except EvalError α}
    (h : r.mapError Interrupt.raised = s.mapError Interrupt.raised) : r = s := by
  cases r <;> cases s <;> cases h <;> rfl

/-- A run goes on with the result of its first part. -/
theorem run_bind (x : Eval α) (f : α → Eval β) (fuel : Nat) (w : World) :
    (x >>= f).run fuel w = match x.run fuel w with
      | (.ok a, w) => (f a).run fuel w
      | (.error i, w) => (.error i, w) := rfl

namespace Eval.Ends

variable {x : Eval α} {f : α → Eval β} {w w' w₁ : World} {r : Except EvalError α} {a : α}

theorem of_apply (h : ∀ perform, x perform w = (r.mapError .raised, w')) : x.Ends w r w' :=
  ⟨0, h _⟩

theorem congr {y : Eval α} (hy : ∀ perform, y perform w = x perform w) (h : x.Ends w r w') :
    y.Ends w r w' := by
  obtain ⟨fuel, h⟩ := h
  exact ⟨fuel, (hy _).trans h⟩

theorem pure (a : α) (w : World) : (Pure.pure a : Eval α).Ends w (.ok a) w := ⟨0, rfl⟩

theorem raise (e : EvalError) (w : World) : (Eval.raise e : Eval α).Ends w (.error e) w := ⟨0, rfl⟩

theorem ofExcept (r : Except EvalError α) (w : World) : (Eval.ofExcept r).Ends w r w := by
  cases r with
  | ok a => exact pure a w
  | error e => exact raise e w

theorem not_exhausted {fuel : Nat} (h : x.run fuel w = (r.mapError .raised, w')) :
    (x.run fuel w).1 ≠ .error .exhausted := by
  rw [h]
  exact mapError_raised_ne r

theorem run_of_not_exhausted (hx : x.Plain) (h : x.Ends w r w') {fuel : Nat}
    (hf : (x.run fuel w).1 ≠ .error .exhausted) : x.run fuel w = (r.mapError .raised, w') := by
  obtain ⟨enough, h⟩ := h
  rcases Nat.le_total enough fuel with hle | hle
  · rw [run_eq_of_le hx hle (not_exhausted h), h]
  · rw [← run_eq_of_le hx hle hf, h]

theorem bind (hx : x.Plain) (hf : ∀ a, (f a).Plain) {s : Except EvalError β}
    (h : x.Ends w (.ok a) w₁) (h' : (f a).Ends w₁ s w') : (x >>= f).Ends w s w' := by
  obtain ⟨fuel, h⟩ := h
  obtain ⟨fuel', h'⟩ := h'
  have first : x.run (max fuel fuel') w = (.ok a, w₁) :=
    (run_eq_of_le hx (Nat.le_max_left ..) (not_exhausted h)).trans h
  refine ⟨max fuel fuel', ?_⟩
  show (x >>= f) (performWith (max fuel fuel')) w = _
  rw [bind_apply, show x (performWith (max fuel fuel')) w = _ from first]
  exact (run_eq_of_le (hf a) (Nat.le_max_right ..) (not_exhausted h')).trans h'

theorem bind_error {e : EvalError} (h : x.Ends w (.error e) w') :
    (x >>= f).Ends w (.error e) w' := by
  obtain ⟨fuel, h⟩ := h
  refine ⟨fuel, ?_⟩
  show (x >>= f) (performWith fuel) w = _
  rw [bind_apply, show x (performWith fuel) w = _ from h]
  rfl

theorem look {f : World → Eval β} {s : Except EvalError β} (h : (f w).Ends w s w') :
    (Eval.world >>= f).Ends w s w' := h

theorem perform {t : Task} {r : Except EvalError Value} (h : (step t).Ends w r w') :
    (Eval.perform t).Ends w r w' := by
  obtain ⟨fuel, h⟩ := h
  exact ⟨fuel + 1, h⟩

theorem attempt (h : x.Ends w r w') : (Eval.attempt x).Ends w (.ok r) w' := by
  obtain ⟨fuel, h⟩ := h
  refine ⟨fuel, ?_⟩
  show Eval.attempt x (performWith fuel) w = _
  simp only [Eval.attempt, show x (performWith fuel) w = _ from h]
  cases r <;> rfl

theorem bracket {enter : World → World} {leave : World → World → World}
    (h : x.Ends (enter w) r w₁) : (Eval.bracket enter leave x).Ends w r (leave w w₁) := by
  obtain ⟨fuel, h⟩ := h
  refine ⟨fuel, ?_⟩
  show Eval.bracket enter leave x (performWith fuel) w = _
  rw [bracket_apply, show x (performWith fuel) (enter w) = _ from h]

theorem holding (held : List Held) (h : x.Ends { w with inUse := held ++ w.inUse } r w₁) :
    (Eval.holding held x).Ends w r { w₁ with inUse := w.inUse } := by
  show (Eval.bracket (fun w => { w with inUse := held ++ w.inUse })
    (fun w w' => { w' with inUse := w.inUse }) x).Ends w r _
  exact bracket h

theorem whileNotifying {x : Eval Value} {r : Except EvalError Value} {id : NodeId}
    (hm : ¬ w.context.isNotifying id) (h : x.Ends (w.enterNotify id) r w₁) :
    (Eval.whileNotifying id x).Ends w r (w₁.leaveNotify id) := by
  obtain ⟨fuel, h⟩ := h
  refine ⟨fuel, ?_⟩
  show Eval.whileNotifying id x (performWith fuel) w = _
  rw [whileNotifying_of_not_marked hm, show x (performWith fuel) (w.enterNotify id) = _ from h]

/-- Tasks end in one way only. -/
theorem performWith_unique {t : Task} {r r' : Except EvalError Value} {fuel fuel' : Nat}
    {w₂ : World} (h : performWith fuel t w = (r.mapError .raised, w₁))
    (h' : performWith fuel' t w = (r'.mapError .raised, w₂)) : r = r' ∧ w₁ = w₂ := by
  have hr : (performWith fuel t w).1 ≠ .error .exhausted := h ▸ mapError_raised_ne r
  have hr' : (performWith fuel' t w).1 ≠ .error .exhausted := h' ▸ mapError_raised_ne r'
  have same : performWith fuel t w = performWith fuel' t w := by
    rcases Nat.le_total fuel fuel' with hle | hle
    · exact (performWith_eq_of_le hle hr).symm
    · exact performWith_eq_of_le hle hr'
  rw [h, h'] at same
  obtain ⟨he, rfl⟩ := Prod.mk.inj same
  exact ⟨mapError_raised_injective he, rfl⟩

end Eval.Ends
end ReactiveScript
