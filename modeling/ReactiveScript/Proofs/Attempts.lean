import ReactiveScript.Evaluation.Binding
import ReactiveScript.Proofs.ScopeTables

/-!
# Attempts to bind a name

Binding a name begins with a look at the scope that is to bind it, goes on with the checks of type
and constraint, during which anything may happen to that scope, looks again, writes, and announces
the value to the listeners. An attempt is what is settled at the first look. Everything that can
become of it is listed once, and so is everything that the check of a constraint can do.
-/

namespace ReactiveScript

open Eval

/-- A binding under way, as it is settled at the first look. -/
structure BindAttempt where
  /-- The world at the first look. -/
  start : World
  target : ScopeId
  name : String
  value : Value
  options : BindOptions

/-- The attempt that a call makes. -/
def World.attempt (w : World) (scope : ScopeId) (name : String) (value : Value)
    (options : BindOptions) : BindAttempt where
  start := w
  target := if options.declare then scope else w.scopes.targetOf scope name
  name := name
  value := value
  options := options

/-- The scopes and the published bindings are the same. -/
structure World.SameStore (w w' : World) : Prop where
  scopes : w'.scopes = w.scopes
  exports : w'.exports = w.exports

/-- The world in which the predicate of a constraint is evaluated: a new scope inside the target is
current, in which `it` and `previous` are bound. -/
def World.inCheck (w : World) (target : ScopeId) (value previous : Value) (c : Constraint) :
    World :=
  { w with
    scopes := w.scopes.push
      { ((w.scopes[target]?).getD default).childOf target "constraint" with
        bindings := [("it", .parameter value), ("previous", .parameter previous)] }
    context := w.context.push w.scopes.size
    inUse := value.held ++ previous.held ++ c.held ++ w.inUse }

namespace BindAttempt

/-- What the name is bound to at the first look. -/
def seen (a : BindAttempt) : Option Binding := a.start.scopes.localBinding? a.target a.name

def previous (a : BindAttempt) : Value := (a.seen.map Binding.value).getD .void

/-- What the name will be bound to. -/
def binding (a : BindAttempt) : Binding := mergeBinding a.seen a.value a.options

/-- The check of type and constraint. -/
def check (a : BindAttempt) : Eval Unit := do
  unless a.value.isVoid do
    checkType a.name a.value a.binding.declaredType
    match a.binding.constraint with
    | some c => checkConstraint a.target a.name a.value a.previous c
    | none => pure ()

def write (a : BindAttempt) (w : World) : World :=
  { w with scopes := w.scopes.bind a.target a.name a.binding }

def announce (a : BindAttempt) : Eval Unit := do
  let callbacks := ((← world).scopes[a.target]?.map fun s => s.callbacks a.name).getD []
  holding a.previous.held (deliverAll a.value callbacks)

/-- The attempt cannot change the name in a world, which binds it as a constant. -/
def Barred (a : BindAttempt) (w : World) : Prop := w.scopes.IsConst a.target a.name

def IsConst (a : BindAttempt) : Prop := a.options.flags.isConst

/-- What becomes of an attempt: its result and the world in which it ends. -/
inductive Ends (perform : Task → Run Value) (a : BindAttempt) :
    Except Interrupt Value → World → Prop where
  /-- The name is a constant at the first look. -/
  | refused (h : a.Barred a.start) :
      Ends perform a (.error (.raised (EvalError.immutableVariable a.name))) a.start
  | rejected {i : Interrupt} {w : World} (h : ¬ a.Barred a.start)
      (checked : a.check perform a.start = (.error i, w)) : Ends perform a (.error i) w
  /-- The name was bound as a constant during the check. -/
  | overtaken {w : World} (h : ¬ a.Barred a.start)
      (checked : a.check perform a.start = (.ok (), w)) (late : a.Barred w) :
      Ends perform a (.error (.raised (EvalError.immutableVariable a.name))) w
  /-- The value is bound, but a listener failed. -/
  | unheard {w w' : World} {i : Interrupt} (h : ¬ a.Barred a.start)
      (checked : a.check perform a.start = (.ok (), w)) (free : ¬ a.Barred w)
      (announced : a.announce perform (a.write w) = (.error i, w')) : Ends perform a (.error i) w'
  | bound {w w' : World} (h : ¬ a.Barred a.start)
      (checked : a.check perform a.start = (.ok (), w)) (free : ¬ a.Barred w)
      (announced : a.announce perform (a.write w) = (.ok (), w')) : Ends perform a (.ok a.value) w'

/-- The declared type admits the value; nodes and resources have no type. -/
def TypeFits (a : BindAttempt) : Prop :=
  ∀ expected actual, a.binding.declaredType = some expected → a.value.typeTag? = some actual →
    expected.accepts actual

/-- What the check of an attempt in a world comes to. -/
inductive CheckEnds (perform : Task → Run Value) (a : BindAttempt) (w : World) :
    Except Interrupt Unit → World → Prop where
  | void (h : a.value.isVoid) : CheckEnds perform a w (.ok ()) w
  | mismatch {expected actual : TypeTag} {w' : World} (h : ¬ a.value.isVoid)
      (declared : a.binding.declaredType = some expected)
      (found : a.value.typeTag? = some actual) (refused : ¬ expected.accepts actual)
      (same : w.SameStore w') :
      CheckEnds perform a w
        (.error (.raised (EvalError.declaredTypeMismatch a.name expected.name actual.name))) w'
  | unconstrained (h : ¬ a.value.isVoid) (fits : a.TypeFits)
      (hc : a.binding.constraint = none) : CheckEnds perform a w (.ok ()) w
  | holds {c : Constraint} {u w' : World} (h : ¬ a.value.isVoid) (fits : a.TypeFits)
      (hc : a.binding.constraint = some c)
      (evaluated : truthy c.predicate perform (w.inCheck a.target a.value a.previous c) =
        (.ok true, u)) (same : u.SameStore w') : CheckEnds perform a w (.ok ()) w'
  | violated {c : Constraint} {u w' : World} (h : ¬ a.value.isVoid) (fits : a.TypeFits)
      (hc : a.binding.constraint = some c)
      (evaluated : truthy c.predicate perform (w.inCheck a.target a.value a.previous c) =
        (.ok false, u)) (same : u.SameStore w') :
      CheckEnds perform a w
        (.error (.raised (EvalError.constraintViolation a.name c.fingerprint))) w'
  | failed {c : Constraint} {i : Interrupt} {u w' : World} (h : ¬ a.value.isVoid)
      (fits : a.TypeFits) (hc : a.binding.constraint = some c)
      (evaluated : truthy c.predicate perform (w.inCheck a.target a.value a.previous c) =
        (.error i, u)) (same : u.SameStore w') : CheckEnds perform a w (.error i) w'

end BindAttempt

variable {perform : Task → Run Value}

section bind

variable {α β : Type} {x : Eval α} {w w' : World}

theorem Eval.bind_of_ok {a : α} (h : x perform w = (.ok a, w')) {f : α → Eval β} :
    (x >>= f) perform w = f a perform w' := by rw [bind_apply, h]

theorem Eval.bind_of_error {i : Interrupt} (h : x perform w = (.error i, w')) {f : α → Eval β} :
    (x >>= f) perform w = (.error i, w') := by rw [bind_apply, h]

theorem Eval.world_bind (f : World → Eval β) (w : World) :
    (world >>= f) perform w = f w perform w := rfl

theorem Eval.exists_of_bind_ok {f : α → Eval β} {b : β} (h : (x >>= f) perform w = (.ok b, w')) :
    ∃ a u, x perform w = (.ok a, u) ∧ f a perform u = (.ok b, w') := by
  rw [bind_apply] at h
  rcases hx : x perform w with ⟨i | a, u⟩
  · rw [hx] at h
    cases h
  · rw [hx] at h
    exact ⟨a, u, rfl, h⟩

/-- What is held for a while is let go at the end. -/
theorem Eval.holding_of_ran {held : List Held} {r : Except Interrupt α}
    (ran : x perform { w with inUse := held ++ w.inUse } = (r, w')) :
    holding held x perform w = (r, { w' with inUse := w.inUse }) := by
  simp only [holding, ran]

theorem Eval.bind_pure_world (x : Eval α) (b : β) :
    ((x >>= fun _ => pure b) perform w).2 = (x perform w).2 := by
  rw [bind_apply]
  rcases x perform w with ⟨_ | _, _⟩ <;> rfl

theorem Eval.attempt_world (x : Eval α) : (Eval.attempt x perform w).2 = (x perform w).2 := by
  unfold Eval.attempt
  rcases x perform w with ⟨(_ | _) | _, _⟩ <;> rfl

end bind

theorem Eval.checkMutable_apply (perform : Task → Run Value) (scope : ScopeId) (name : String)
    (w : World) :
    (w.scopes.IsConst scope name ∧ checkMutable scope name perform w =
      (.error (.raised (EvalError.immutableVariable name)), w)) ∨
    (¬ w.scopes.IsConst scope name ∧ checkMutable scope name perform w = (.ok (), w)) := by
  have decides : ((w.scopes.localBinding? scope name).any fun b => b.flags.isConst) = true ↔
      w.scopes.IsConst scope name := by
    simp [ScopeTable.IsConst, Option.any_eq_true]
  by_cases h : w.scopes.IsConst scope name
  · refine .inl ⟨h, ?_⟩
    simp only [checkMutable, bind_apply, Eval.world, if_pos (decides.mpr h)]
    rfl
  · refine .inr ⟨h, ?_⟩
    simp only [checkMutable, bind_apply, Eval.world, if_neg (mt decides.mp h)]
    rfl

/-- Binding a name, put together from the parts of its attempt. -/
theorem Eval.bindName_eq (scope : ScopeId) (name : String) (value : Value) (options : BindOptions) :
    Eval.bind scope name value options = (do
      let a := (← world).attempt scope name value options
      checkMutable a.target a.name
      a.check
      checkMutable a.target a.name
      modify a.write
      a.announce
      return value) := by
  refine bind_congr fun w => ?_
  simp only [BindAttempt.check, BindAttempt.announce, bind_assoc]
  refine bind_congr fun _ => ?_
  cases hv : value.isVoid with
  | true =>
    have ha : (w.attempt scope name value options).value.isVoid = true := hv
    simp only [ha, if_true, pure_bind]
    rfl
  | false =>
    have ha : (w.attempt scope name value options).value.isVoid = false := hv
    simp only [ha, Bool.false_eq_true, if_false, bind_assoc]
    refine bind_congr fun _ => ?_
    show (match (w.attempt scope name value options).binding.constraint with
      | some c => _
      | none => _) = _
    cases (w.attempt scope name value options).binding.constraint <;> rfl

section calls

variable {scope : ScopeId} {name : String} {value : Value} {options : BindOptions} {w u : World}

theorem Eval.bindName_of_barred (h : (w.attempt scope name value options).Barred w) :
    Eval.bind scope name value options perform w =
      (.error (.raised (EvalError.immutableVariable name)), w) := by
  rw [bindName_eq, bind_of_ok (show Eval.world perform w = (.ok w, w) from rfl)]
  rcases checkMutable_apply perform (w.attempt scope name value options).target name w with
    ⟨-, he⟩ | ⟨hn, -⟩
  · exact bind_of_error he
  · exact absurd h hn

theorem Eval.bindName_of_free (h : ¬ (w.attempt scope name value options).Barred w) :
    Eval.bind scope name value options perform w = (do
      let a := w.attempt scope name value options
      a.check
      checkMutable a.target name
      modify a.write
      a.announce
      return value) perform w := by
  rw [bindName_eq, bind_of_ok (show Eval.world perform w = (.ok w, w) from rfl)]
  rcases checkMutable_apply perform (w.attempt scope name value options).target name w with
    ⟨hb, -⟩ | ⟨-, he⟩
  · exact absurd hb h
  · exact bind_of_ok he

theorem Eval.bindName_of_rejected {i : Interrupt}
    (h : ¬ (w.attempt scope name value options).Barred w)
    (checked : (w.attempt scope name value options).check perform w = (.error i, u)) :
    Eval.bind scope name value options perform w = (.error i, u) := by
  rw [bindName_of_free h]
  exact bind_of_error checked

theorem Eval.bindName_of_overtaken (h : ¬ (w.attempt scope name value options).Barred w)
    (checked : (w.attempt scope name value options).check perform w = (.ok (), u))
    (late : (w.attempt scope name value options).Barred u) :
    Eval.bind scope name value options perform w =
      (.error (.raised (EvalError.immutableVariable name)), u) := by
  rw [bindName_of_free h]
  refine (bind_of_ok checked).trans ?_
  rcases checkMutable_apply perform (w.attempt scope name value options).target name u with
    ⟨-, he⟩ | ⟨hn, -⟩
  · exact bind_of_error he
  · exact absurd late hn

theorem Eval.bindName_of_passed (h : ¬ (w.attempt scope name value options).Barred w)
    (checked : (w.attempt scope name value options).check perform w = (.ok (), u))
    (free : ¬ (w.attempt scope name value options).Barred u) :
    Eval.bind scope name value options perform w =
      ((w.attempt scope name value options).announce >>= fun _ => pure value) perform
        ((w.attempt scope name value options).write u) := by
  rw [bindName_of_free h]
  refine (bind_of_ok checked).trans ?_
  rcases checkMutable_apply perform (w.attempt scope name value options).target name u with
    ⟨hb, -⟩ | ⟨-, he⟩
  · exact absurd hb free
  · exact bind_of_ok he

end calls

/-- Every call that binds a name makes an attempt and ends in one of the ways of an attempt. -/
theorem Eval.bindName_ends (scope : ScopeId) (name : String) (value : Value) (options : BindOptions)
    (w : World) :
    (w.attempt scope name value options).Ends perform
      (Eval.bind scope name value options perform w).1
      (Eval.bind scope name value options perform w).2 := by
  by_cases h : (w.attempt scope name value options).Barred w
  · rw [bindName_of_barred h]
    exact .refused h
  rcases hc : (w.attempt scope name value options).check perform w with ⟨i | ⟨⟩, u⟩
  · rw [bindName_of_rejected h hc]
    exact .rejected h hc
  by_cases hu : (w.attempt scope name value options).Barred u
  · rw [bindName_of_overtaken h hc hu]
    exact .overtaken h hc hu
  rw [bindName_of_passed h hc hu]
  rcases hn : (w.attempt scope name value options).announce perform
    ((w.attempt scope name value options).write u) with ⟨i | ⟨⟩, w'⟩
  · rw [bind_of_error hn]
    exact .unheard h hc hu hn
  · rw [bind_of_ok hn]
    exact .bound h hc hu hn

namespace World

variable {w u : World}

theorem SameStore.refl (w : World) : w.SameStore w := ⟨rfl, rfl⟩

theorem sameStore_report (w : World) (severity : Severity) (message : String)
    (fields : List (String × String)) : w.SameStore (w.report severity message fields) := by
  unfold report
  split <;> exact ⟨rfl, rfl⟩

/-- Popping the scope on top neither reports nor records anything. -/
theorem popScope_of_scopes {s : ScopeId} {outer : ScopeStack} (h : w.context.scopes = s :: outer) :
    w.popScope s = w.modifyContext fun c => { c with scopes := outer } := by
  simp [popScope, Context.pop, Context.current?, h, modifyContext]

theorem sameStore_popScope (w : World) (s : ScopeId) : w.SameStore (w.popScope s) := by
  unfold popScope
  split
  · exact ⟨rfl, rfl⟩
  · next e context _ =>
    have h := sameStore_report { w with context } .error "scope stack corrupted"
      [("err", e.display)]
    exact ⟨h.scopes, h.exports⟩

theorem SameStore.trans {v : World} (h : w.SameStore u) (h' : u.SameStore v) : w.SameStore v :=
  ⟨h'.scopes.trans h.scopes, h'.exports.trans h.exports⟩

/-- The scope of a check is made by adding a scope and binding two parameters in it. -/
theorem inCheck_scopes (w : World) (target : ScopeId) (value previous : Value) (c : Constraint) :
    (w.inCheck target value previous c).scopes =
      ((w.addChild target "constraint").2.scopes.bind w.scopes.size "it"
        (.parameter value)).bind w.scopes.size "previous" (.parameter previous) := by
  refine Array.ext_getElem? fun i => ?_
  simp only [inCheck, addChild, addScope, ScopeTable.bind, Array.getElem?_modify,
    Array.getElem?_push]
  by_cases hi : i = w.scopes.size
  · simp [hi, Scope.bind, Scope.childOf, OrderedMap.insert]
  · simp [hi, Ne.symm hi]

/-- The check of a constraint only adds a scope before the predicate is evaluated. -/
theorem quiet_inCheck (w : World) (target : ScopeId) (value previous : Value) (c : Constraint) :
    w.scopes.Quiet (w.inCheck target value previous c).scopes := by
  rw [inCheck_scopes]
  have child : w.scopes.Quiet (w.addChild target "constraint").2.scopes := .push _ nofun
  exact (child.bind (Nat.le_refl _) "it" value).bind (Nat.le_refl _) "previous" previous

end World

theorem Eval.checkConstraint_apply (perform : Task → Run Value) (target : ScopeId) (name : String)
    (value previous : Value) (c : Constraint) (w : World) :
    let x := truthy c.predicate perform (w.inCheck target value previous c)
    ∃ w', x.2.SameStore w' ∧ checkConstraint target name value previous c perform w =
      (match x.1 with
        | .ok true => .ok ()
        | .ok false => .error (.raised (EvalError.constraintViolation name c.fingerprint))
        | .error i => .error i, w') := by
  intro x
  let inUse := w.inUse
  let test := holding (value.held ++ previous.held ++ c.held) (truthy c.predicate)
  let judge (holds : Bool) : Eval Unit := do
    unless holds do
      report .warning "constraint violated" [("variable", name), ("constraint", c.fingerprint)]
      raise (EvalError.constraintViolation name c.fingerprint)
  let entered := { w.inCheck target value previous c with inUse }
  have made : checkConstraint target name value previous c perform w =
      (((test >>= judge) perform entered).1,
        ((test >>= judge) perform entered).2.popScope w.scopes.size) := by
    simp only [entered, World.inCheck_scopes]
    rfl
  have tested : test perform entered = (x.1, { x.2 with inUse }) := rfl
  have kept : x.2.SameStore { x.2 with inUse } := ⟨rfl, rfl⟩
  rw [made]
  -- Releasing what was held, reporting and popping the scope leave the store alone.
  rcases x with ⟨i | holds, u⟩
  · rw [bind_of_error tested]
    exact ⟨_, kept.trans (World.sameStore_popScope _ _), rfl⟩
  rw [bind_of_ok tested]
  cases holds with
  | true => exact ⟨_, kept.trans (World.sameStore_popScope _ _), rfl⟩
  | false =>
    have reported := World.sameStore_report { u with inUse } .warning "constraint violated"
      [("variable", name), ("constraint", c.fingerprint)]
    exact ⟨_, (kept.trans reported).trans (World.sameStore_popScope _ _), rfl⟩

theorem Eval.checkType_apply (perform : Task → Run Value) (name : String) (value : Value)
    (declared : Option TypeTag) (w : World) :
    (∃ expected actual w', declared = some expected ∧ value.typeTag? = some actual ∧
      ¬ expected.accepts actual ∧ w.SameStore w' ∧ checkType name value declared perform w =
        (.error (.raised (EvalError.declaredTypeMismatch name expected.name actual.name)), w')) ∨
    ((∀ expected actual, declared = some expected → value.typeTag? = some actual →
      expected.accepts actual) ∧ checkType name value declared perform w = (.ok (), w)) := by
  cases hd : declared with
  | none => exact .inr ⟨nofun, rfl⟩
  | some expected =>
    cases hv : value.typeTag? with
    | none => exact .inr ⟨nofun, by simp only [checkType, hv]; rfl⟩
    | some actual =>
      by_cases h : expected.accepts actual
      · refine .inr ⟨?_, by simp only [checkType, hv, if_pos h]; rfl⟩
        rintro _ _ ⟨⟩ ⟨⟩
        exact h
      · refine .inl ⟨expected, actual, _, rfl, rfl, h, World.sameStore_report w .warning
          "declared type mismatch" [("variable", name), ("expected", expected.name),
            ("actual", actual.name)], ?_⟩
        simp only [checkType, hv, if_neg h]
        rfl

theorem BindAttempt.check_ends (a : BindAttempt) (w : World) :
    a.CheckEnds perform w (a.check perform w).1 (a.check perform w).2 := by
  unfold check
  by_cases hv : a.value.isVoid
  · rw [if_pos hv]
    exact .void hv
  rw [if_neg hv]
  rcases checkType_apply perform a.name a.value a.binding.declaredType w with
    ⟨expected, actual, w', hd, ht, hn, same, he⟩ | ⟨fits, he⟩
  · rw [bind_of_error he]
    exact .mismatch hv hd ht hn same
  rw [bind_of_ok he]
  cases hc : a.binding.constraint with
  | none => exact .unconstrained hv fits hc
  | some c =>
    dsimp only
    obtain ⟨w', same, he⟩ :=
      checkConstraint_apply perform a.target a.name a.value a.previous c w
    rw [he]
    rcases hx : truthy c.predicate perform (w.inCheck a.target a.value a.previous c) with
      ⟨i | holds, u⟩
    · rw [hx] at same
      exact .failed hv fits hc hx same
    · rw [hx] at same
      cases holds with
      | true => exact .holds hv fits hc hx same
      | false => exact .violated hv fits hc hx same

/-- What has passed the check: void, or a value of the declared type that has made the predicate of
the constraint true. -/
theorem BindAttempt.of_check_ok {a : BindAttempt} {w w' : World}
    (h : a.check perform w = (.ok (), w')) :
    a.value.isVoid ∨ (a.TypeFits ∧ ∀ c, a.binding.constraint = some c →
      ∃ u, truthy c.predicate perform (w.inCheck a.target a.value a.previous c) =
        (.ok true, u)) := by
  have ends : a.CheckEnds perform w (a.check perform w).1 (a.check perform w).2 := a.check_ends w
  rw [h] at ends
  cases ends with
  | void hv => exact .inl hv
  | unconstrained _ fits hc =>
    refine .inr ⟨fits, fun c hc' => ?_⟩
    rw [hc] at hc'
    cases hc'
  | holds _ fits hc evaluated _ =>
    refine .inr ⟨fits, fun c hc' => ?_⟩
    cases hc.symm.trans hc'
    exact ⟨_, evaluated⟩

end ReactiveScript
