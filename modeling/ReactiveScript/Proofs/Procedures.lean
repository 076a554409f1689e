import ReactiveScript.Proofs.Attempts
import ReactiveScript.Proofs.Routine

/-!
# Procedures

A procedure is a routine that binds names in two ways only: it makes attempts to bind them, and it
binds parameters in scopes that it has just added. Apart from attempts a procedure only ever adds to
the table of scopes.
-/

namespace ReactiveScript

/-- A write of an evaluation that only adds to the table of scopes. -/
structure QuietChange (p : Action → Prop) (w w' : World) : Prop where
  change : Change p w w'
  quiet : w.scopes.Quiet w'.scopes

namespace QuietChange

variable {p : Action → Prop}

theorem of_scopes_eq {w w' : World} (h : Change p w w') (hs : w'.scopes = w.scopes) :
    QuietChange p w w' := ⟨h, by rw [hs]; exact .refl _⟩

theorem report (w : World) (severity : Severity) (message : String)
    (fields : List (String × String)) : QuietChange p w (w.report severity message fields) :=
  of_scopes_eq (.report w severity message fields)
    (w.sameStore_report severity message fields).scopes

theorem addRoot (w : World) (name : String) : QuietChange p w (w.addRoot name).2 :=
  ⟨.addRoot w name, .push _ nofun⟩

theorem addChild (w : World) (parent : ScopeId) (name : String) :
    QuietChange p w (w.addChild parent name).2 :=
  ⟨.addChild w parent name, .push _ nofun⟩

theorem listenVariable (w : World) (scope : ScopeId) (name key : String) {callback : Callback}
    (h : callback.Allowed p) :
    QuietChange p w (w.modifyScope scope fun s => s.listen name key callback) :=
  ⟨.listenVariable w scope name key h,
    .modify (f := fun s => s.listen name key callback) _ scope (fun _ => rfl) fun _ => rfl⟩

end QuietChange

namespace Eval

variable {α β : Type} {p : Action → Prop}

/-- The evaluations that are put together from the parts of the evaluator and from attempts to bind
names. -/
inductive Procedure (p : Action → Prop) : {α : Type} → Eval α → Prop where
  | pure {α : Type} (a : α) : Procedure p (pure a)
  | raise {α : Type} (e : EvalError) : Procedure p (raise e : Eval α)
  | exhausted {α : Type} : Procedure p (exhausted : Eval α)
  | bind {α β : Type} {x : Eval α} {f : α → Eval β} (hx : Procedure p x)
      (hf : ∀ a, Procedure p (f a)) : Procedure p (x >>= f)
  | look {α : Type} {f : World → Eval α} (hf : ∀ w, w.Allowed p → Procedure p (f w)) :
      Procedure p (world >>= f)
  | change {α : Type} {f : World → α × World} (hf : Routine p (modifyGet f))
      (hq : ∀ w : World, w.Allowed p → w.scopes.Quiet (f w).2.scopes) : Procedure p (modifyGet f)
  | perform {t : Task} (ht : t.Allowed p) : Procedure p (perform t)
  | attempt {α : Type} {x : Eval α} (hx : Procedure p x) : Procedure p (attempt x)
  | bracket {α : Type} {enter : World → World} {leave : World → World → World} {x : Eval α}
      (hb : Bracketing enter leave) (hx : Procedure p x) : Procedure p (bracket enter leave x)
  | takeCorruption : Procedure p takeCorruption
  | popOutOfOrder {first second : String} (h : p (.popOutOfOrder first second)) :
      Procedure p (popOutOfOrder first second)
  | binding (scope : ScopeId) (name : String) (value : Value) (options : BindOptions)
      (hc : ∀ a : BindAttempt, Procedure p a.check)
      (ha : ∀ a : BindAttempt, Procedure p a.announce) :
      Procedure p (Eval.bind scope name value options)

theorem Routine.checkMutable (scope : ScopeId) (name : String) :
    Routine p (Eval.checkMutable scope name) := by
  refine .look fun w _ => ?_
  split
  · exact .raise _
  · exact .pure ()

theorem Procedure.routine {x : Eval α} (h : Procedure p x) : Routine p x := by
  induction h with
  | pure a => exact .pure a
  | raise e => exact .raise e
  | exhausted => exact .exhausted
  | bind _ _ hx hf => exact .bind hx hf
  | look _ hf => exact .look hf
  | change hf _ => exact hf
  | perform ht => exact .perform ht
  | attempt _ hx => exact .attempt hx
  | bracket hb _ hx => exact .bracket hb hx
  | takeCorruption => exact .takeCorruption
  | popOutOfOrder h => exact .popOutOfOrder h
  | binding scope name value options _ _ hc ha =>
    rw [bindName_eq]
    refine .look fun w _ => .bind (.checkMutable _ _) fun _ => .bind (hc _) fun _ => ?_
    refine .bind (.checkMutable _ _) fun _ => .bind (.modify fun w _ => .bind w _ _ _) fun _ => ?_
    exact .bind (ha _) fun _ => .pure value

namespace Procedure

theorem write {f : World → α × World} (hf : ∀ w, w.Allowed p → QuietChange p w (f w).2) :
    Procedure p (modifyGet f) :=
  .change (.change fun w hw => (hf w hw).change) fun w hw => (hf w hw).quiet

theorem modify {f : World → World} (hf : ∀ w, w.Allowed p → QuietChange p w (f w)) :
    Procedure p (Eval.modify f) := Procedure.write (f := fun w => ((), f w)) hf

theorem modifyApart {f : World → World} (hf : ∀ w, w.Allowed p → Change p w (f w))
    (hs : ∀ w, (f w).scopes = w.scopes) : Procedure p (Eval.modify f) :=
  modify fun w hw => .of_scopes_eq (hf w hw) (hs w)

/-- Evaluating with a new scope in which two parameters are bound. The two are bound in one change
with the making of the scope, since only then the scope is known to be new. -/
theorem withParameters {make : World → ScopeId × World}
    (hm : ∀ w, w.Allowed p → QuietChange p w (make w).2)
    (hs : ∀ w, w.scopes.size ≤ (make w).1) (first second : String) (v v' : Value)
    {x : ScopeId → Eval α} (hx : ∀ s, Procedure p (x s)) :
    Procedure p (do
      let scope ← modifyGet make
      Eval.bindParameter scope first v
      Eval.bindParameter scope second v'
      x scope) := by
  let bound (w : World) : ScopeId × World :=
    ((make w).1, { (make w).2 with
      scopes := ((make w).2.scopes.bind (make w).1 first (.parameter v)).bind (make w).1 second
        (.parameter v') })
  have parameter (scope : ScopeId) (name : String) (v : Value) :
      Routine p (Eval.bindParameter scope name v) := .modify fun w _ => .bind w scope name _
  have routine : Routine p (modifyGet bound) := by
    show Routine p (do
      let scope ← modifyGet make
      Eval.bindParameter scope first v
      Eval.bindParameter scope second v'
      return scope)
    refine .bind (.change fun w hw => (hm w hw).change) fun scope => ?_
    exact .bind (parameter _ _ _) fun _ => .bind (parameter _ _ _) fun _ => .pure scope
  have quiet (w : World) (hw : w.Allowed p) : w.scopes.Quiet (bound w).2.scopes :=
    ((hm w hw).quiet.bind (hs w) first v).bind (hs w) second v'
  show Procedure p (modifyGet bound >>= x)
  exact .bind (.change routine quiet) hx

end Procedure
end Eval
end ReactiveScript
