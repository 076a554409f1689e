import ReactiveScript.Proofs.Assignments

/-!
# Commits of assignments

An assignment binds by commits. A commit that fails before its value is written leaves every binding
and everything published as it was; all the ways in which it can fail are listed. What a commit
publishes is the value that it has just bound.
-/

namespace ReactiveScript

open Eval

/-- What a commit does before it forces the value: it may report the declared type, and it binds a
node to the fingerprint of the constraint. -/
def Commit.prepare (c : Commit) (v : Value) : Eval Unit := do
  reportUnlikelyType c
  match c.options.constraint, v.asNode? with
  | some constraint, some node => constrain node.id constraint.fingerprint
  | _, _ => pure ()

/-- Forces a value to the depth of assignments. -/
def Eval.forceAssigned (v : Value) : Eval Value := do
  let settings := (← world).settings
  force settings.parallel v settings.assignmentFixDepth

/-- Binds a forced value, unless it is an error, and publishes it. -/
def Commit.conclude (c : Commit) (scope : ScopeId) (forced : Value) : Eval Value := do
  if forced.isError then return forced
  let bound ← Eval.bind scope c.target forced c.options
  if c.exported then publishBinding c.target bound
  return bound

theorem Eval.commit_eq (c : Commit) (v : Value) :
    commit c v = (do
      if (← world).isReserved c.target then raise (EvalError.reservedName c.target)
      let scope ← commitScope c
      c.prepare v
      let forced ← forceAssigned v
      c.conclude scope forced) := by
  refine bind_congr fun w => ?_
  by_cases reserved : w.isReserved c.target
  · simp only [reserved, if_true]
    rfl
  · simp only [reserved, Bool.false_eq_true, if_false]
    refine bind_congr fun scope => ?_
    simp only [Commit.prepare, bind_assoc]
    refine bind_congr fun _ => ?_
    cases c.options.constraint <;> cases v.asNode? <;> rfl

inductive CommitEnding
  | reservedName
  | noScope
  | fingerprintConflict
  | forcingFailed
  | errorValue
  | constantTarget
  | typeMismatch
  | predicateFalse
  | predicateFailed
  | listenerFailed
  | bound
deriving DecidableEq

/-- The value was not bound. -/
def CommitEnding.IsFailure : CommitEnding → Prop
  | .listenerFailed | .bound => False
  | _ => True

namespace Commit

/-- Publishes the value if the commit is to. -/
def published (c : Commit) (v : Value) (w : World) : World :=
  if c.exported then { w with exports := w.exports.insert c.target v } else w

variable (perform : Task → Run Value) (c : Commit) (v : Value) (w : World)

/-- The commit comes to an attempt to bind the forced value. -/
structure Attempts (a : BindAttempt) : Prop where
  start : ∃ u, c.prepare v perform w = (.ok (), u) ∧
    forceAssigned v perform u = (.ok a.value, a.start)
  attempt : ∃ s, w.context.current? = some s ∧ a = a.start.attempt s c.target a.value c.options
  not_error : ¬ a.value.isError

/-- The endings of a commit with their results and the worlds in which they come about. -/
inductive Ends : CommitEnding → Except Interrupt Value → World → Prop where
  | reservedName (h : w.isReserved c.target) :
      Ends .reservedName (.error (.raised (EvalError.reservedName c.target))) w
  | noScope (h : w.context.current? = none) :
      Ends .noScope
        (.error (.raised (EvalError.exception ("no scope to bind '" ++ c.target ++ "' in")))) w
  | fingerprintConflict {u constraint node n fingerprint} (same : w.SameStore u)
      (hc : c.options.constraint = some constraint) (hn : v.asNode? = some node)
      (found : u.node? node.id = some n) (bound : n.fingerprint = some fingerprint)
      (other : fingerprint ≠ constraint.fingerprint) :
      Ends .fingerprintConflict
        (.error (.raised (EvalError.constraintViolation n.operation constraint.fingerprint))) u
  | forcingFailed {i u w'} (prepared : c.prepare v perform w = (.ok (), u))
      (forced : forceAssigned v perform u = (.error i, w')) : Ends .forcingFailed (.error i) w'
  | errorValue {e u w'} (prepared : c.prepare v perform w = (.ok (), u))
      (forced : forceAssigned v perform u = (.ok e, w')) (h : e.isError) :
      Ends .errorValue (.ok e) w'
  | constantTarget {a} (attempted : c.Attempts perform v w a) (barred : a.Barred a.start) :
      Ends .constantTarget (.error (.raised (EvalError.immutableVariable c.target))) a.start
  | constantMeanwhile {a u} (attempted : c.Attempts perform v w a) (free : ¬ a.Barred a.start)
      (checked : a.check perform a.start = (.ok (), u)) (barred : a.Barred u) :
      Ends .constantTarget (.error (.raised (EvalError.immutableVariable c.target))) u
  | typeMismatch {a expected actual u} (attempted : c.Attempts perform v w a)
      (free : ¬ a.Barred a.start) (declared : a.binding.declaredType = some expected)
      (found : a.value.typeTag? = some actual) (refused : ¬ expected.accepts actual)
      (same : a.start.SameStore u) :
      Ends .typeMismatch (.error (.raised
        (EvalError.declaredTypeMismatch c.target expected.name actual.name))) u
  | predicateFalse {a constraint u w'} (attempted : c.Attempts perform v w a)
      (free : ¬ a.Barred a.start) (hc : a.binding.constraint = some constraint)
      (evaluated : truthy constraint.predicate perform
        (a.start.inCheck a.target a.value a.previous constraint) = (.ok false, u))
      (same : u.SameStore w') :
      Ends .predicateFalse (.error (.raised
        (EvalError.constraintViolation c.target constraint.fingerprint))) w'
  | predicateFailed {a constraint i u w'} (attempted : c.Attempts perform v w a)
      (free : ¬ a.Barred a.start) (hc : a.binding.constraint = some constraint)
      (evaluated : truthy constraint.predicate perform
        (a.start.inCheck a.target a.value a.previous constraint) = (.error i, u))
      (same : u.SameStore w') : Ends .predicateFailed (.error i) w'
  | listenerFailed {a i u w'} (attempted : c.Attempts perform v w a)
      (free : ¬ a.Barred a.start) (checked : a.check perform a.start = (.ok (), u))
      (unbarred : ¬ a.Barred u) (announced : a.announce perform (a.write u) = (.error i, w')) :
      Ends .listenerFailed (.error i) w'
  | bound {a u w'} (attempted : c.Attempts perform v w a) (free : ¬ a.Barred a.start)
      (checked : a.check perform a.start = (.ok (), u)) (unbarred : ¬ a.Barred u)
      (announced : a.announce perform (a.write u) = (.ok (), w')) :
      Ends .bound (.ok a.value) (c.published a.value w')

/-- Forcing the value and evaluating the predicate have no effect on the store. -/
structure Harmless : Prop where
  forcing : ∀ u, c.prepare v perform w = (.ok (), u) →
    u.KeepsStore (forceAssigned v perform u).2
  checking : ∀ a, c.Attempts perform v w a → a.HarmlessCheck perform a.start

variable {perform c v w}

theorem constrain_apply (perform : Task → Run Value) (node : NodeId) (fingerprint : String)
    (w : World) :
    (∃ u, w.SameStore u ∧ constrain node fingerprint perform w = (.ok (), u)) ∨
    (∃ n bound, w.node? node = some n ∧ n.fingerprint = some bound ∧ bound ≠ fingerprint ∧
      constrain node fingerprint perform w =
        (.error (.raised (EvalError.constraintViolation n.operation fingerprint)), w)) := by
  unfold constrain
  rw [world_bind]
  cases hn : w.node? node with
  | none => exact .inl ⟨w, .refl w, rfl⟩
  | some n =>
    cases hf : n.fingerprint with
    | none =>
      refine .inl ⟨w.modifyNode node fun n => { n with fingerprint := some fingerprint },
        ⟨rfl, rfl⟩, ?_⟩
      simp only [hf]
      rfl
    | some bound =>
      by_cases hb : bound = fingerprint
      · exact .inl ⟨w, .refl w, by simp only [hf, if_pos hb]; rfl⟩
      · exact .inr ⟨n, bound, rfl, hf, hb, by simp only [hf, if_neg hb]; rfl⟩

theorem reportUnlikelyType_apply (perform : Task → Run Value) (c : Commit) (w : World) :
    ∃ u, w.SameStore u ∧ reportUnlikelyType c perform w = (.ok (), u) := by
  unfold reportUnlikelyType
  cases c.options.declaredType with
  | none => exact ⟨w, .refl w, rfl⟩
  | some expected =>
    cases c.source with
    | none => exact ⟨w, .refl w, rfl⟩
    | some node =>
      simp only [world_bind]
      cases w.learner.check? node expected w.settings.typeWarningThreshold with
      | none => exact ⟨w, .refl w, rfl⟩
      | some warning =>
        exact ⟨_, w.sameStore_report .warning "assigned value unlikely to match declared type"
          [("variable", c.target), ("warning", warning.text)], rfl⟩

/-- A commit is prepared, or a node is bound to another fingerprint. -/
theorem prepare_apply (perform : Task → Run Value) (c : Commit) (v : Value) (w : World) :
    (∃ u, w.SameStore u ∧ c.prepare v perform w = (.ok (), u)) ∨
    (∃ u constraint node n fingerprint, w.SameStore u ∧ c.options.constraint = some constraint ∧
      v.asNode? = some node ∧ u.node? node.id = some n ∧ n.fingerprint = some fingerprint ∧
      fingerprint ≠ constraint.fingerprint ∧ c.prepare v perform w =
        (.error (.raised
          (EvalError.constraintViolation n.operation constraint.fingerprint)), u)) := by
  obtain ⟨u, same, reported⟩ := reportUnlikelyType_apply perform c w
  unfold prepare
  rw [bind_of_ok reported]
  cases hc : c.options.constraint with
  | none => exact .inl ⟨u, same, rfl⟩
  | some constraint =>
    cases hn : v.asNode? with
    | none => exact .inl ⟨u, same, rfl⟩
    | some node =>
      rcases constrain_apply perform node.id constraint.fingerprint u with
        ⟨u', same', done⟩ | ⟨n, fingerprint, found, bound, other, failed⟩
      · exact .inl ⟨u', same.trans same', done⟩
      · exact .inr ⟨u, constraint, node, n, fingerprint, same, rfl, rfl, found, bound, other,
          failed⟩

theorem prepare_sameStore {u : World} (h : c.prepare v perform w = (.ok (), u)) :
    w.SameStore u := by
  rcases prepare_apply perform c v w with
    ⟨u', same, done⟩ | ⟨_, _, _, _, _, _, _, _, _, _, _, failed⟩
  · cases done.symm.trans h
    exact same
  · cases failed.symm.trans h

section conclude

variable {a : BindAttempt}

theorem rejected_ends (attempted : c.Attempts perform v w a) (name : a.name = c.target)
    (free : ¬ a.Barred a.start) {i : Interrupt} {w' : World}
    (checked : a.check perform a.start = (.error i, w')) :
    ∃ ending, c.Ends perform v w ending (.error i) w' := by
  have ends : a.CheckEnds perform a.start (a.check perform a.start).1
      (a.check perform a.start).2 := a.check_ends a.start
  rw [checked] at ends
  cases ends with
  | mismatch _ declared found refused same =>
    rw [name]
    exact ⟨_, .typeMismatch attempted free declared found refused same⟩
  | violated _ _ hc evaluated same =>
    rw [name]
    exact ⟨_, .predicateFalse attempted free hc evaluated same⟩
  | failed _ _ hc evaluated same =>
    exact ⟨_, .predicateFailed attempted free hc evaluated same⟩

theorem conclude_ends (attempted : c.Attempts perform v w a) {s : ScopeId}
    (made : a = a.start.attempt s c.target a.value c.options) :
    ∃ ending, c.Ends perform v w ending (c.conclude s a.value perform a.start).1
      (c.conclude s a.value perform a.start).2 := by
  have name : a.name = c.target := by rw [made]; rfl
  have entered : c.conclude s a.value perform a.start = (do
      let bound ← Eval.bind s c.target a.value c.options
      if c.exported then publishBinding c.target bound
      return bound) perform a.start := by
    rw [conclude, if_neg attempted.not_error]
  have ends : (a.start.attempt s c.target a.value c.options).Ends perform
      (Eval.bind s c.target a.value c.options perform a.start).1
      (Eval.bind s c.target a.value c.options perform a.start).2 := bindName_ends ..
  rw [← made] at ends
  rw [entered]
  generalize hb : Eval.bind s c.target a.value c.options perform a.start = result at ends
  obtain ⟨r, w'⟩ := result
  cases ends with
  | refused barred =>
    rw [bind_of_error hb, name]
    exact ⟨_, .constantTarget attempted barred⟩
  | overtaken free checked late =>
    rw [bind_of_error hb, name]
    exact ⟨_, .constantMeanwhile attempted free checked late⟩
  | rejected free checked =>
    rw [bind_of_error hb]
    exact rejected_ends attempted name free checked
  | unheard free checked unbarred announced =>
    rw [bind_of_error hb]
    exact ⟨_, .listenerFailed attempted free checked unbarred announced⟩
  | bound free checked unbarred announced =>
    rw [bind_of_ok hb]
    have h := Ends.bound attempted free checked unbarred announced
    cases he : c.exported with
    | true =>
      rw [published, he] at h
      exact ⟨_, h⟩
    | false =>
      rw [published, he] at h
      exact ⟨_, h⟩

end conclude

theorem ends (perform : Task → Run Value) (c : Commit) (v : Value) (w : World) :
    ∃ ending, c.Ends perform v w ending (commit c v perform w).1 (commit c v perform w).2 := by
  rw [commit_eq, world_bind]
  -- The cases are split in the order in which the steps of a commit may fail.
  by_cases reserved : w.isReserved c.target
  · simp only [reserved, if_true]
    exact ⟨_, .reservedName reserved⟩
  simp only [reserved, Bool.false_eq_true, if_false]
  cases hs : w.context.current? with
  | none =>
    have current : currentScope? perform w = (.ok none, w) := by rw [← hs]; rfl
    have failed : commitScope c perform w = (.error (.raised (EvalError.exception
        ("no scope to bind '" ++ c.target ++ "' in"))), w) := by
      rw [commitScope, bind_of_ok current]
      rfl
    rw [bind_of_error failed]
    exact ⟨_, .noScope hs⟩
  | some s =>
    have current : currentScope? perform w = (.ok (some s), w) := by rw [← hs]; rfl
    have found : commitScope c perform w = (.ok s, w) := by
      rw [commitScope, bind_of_ok current]
      rfl
    rw [bind_of_ok found]
    rcases prepare_apply perform c v w with ⟨u, same, prepared⟩ |
      ⟨u, constraint, node, n, fingerprint, same, hc, hn, found, bound, other, failed⟩
    · rw [bind_of_ok prepared]
      rcases forced : forceAssigned v perform u with ⟨i | value, w'⟩
      · rw [bind_of_error forced]
        exact ⟨_, .forcingFailed prepared forced⟩
      rw [bind_of_ok forced]
      by_cases he : value.isError
      · rw [conclude, if_pos he]
        exact ⟨_, .errorValue prepared forced he⟩
      · have attempted : c.Attempts perform v w (w'.attempt s c.target value c.options) :=
          ⟨⟨u, prepared, forced⟩, ⟨s, hs, rfl⟩, he⟩
        exact conclude_ends attempted rfl
    · rw [bind_of_error failed]
      exact ⟨_, .fingerprintConflict same hc hn found bound other⟩

section harmless

variable {a : BindAttempt} {ending : CommitEnding} {r : Except Interrupt Value} {w' : World}

theorem Attempts.keepsStore (h : c.Attempts perform v w a) (harmless : c.Harmless perform v w) :
    w.KeepsStore a.start := by
  obtain ⟨u, prepared, forced⟩ := h.start
  have forcing := harmless.forcing u prepared
  rw [forced] at forcing
  exact .trans (.of_sameStore (prepare_sameStore prepared)) forcing

/-- A commit that fails before the value is written leaves the store as it was. -/
theorem Ends.keepsStore (h : c.Ends perform v w ending r w') (harmless : c.Harmless perform v w)
    (failure : ending.IsFailure) : w.KeepsStore w' := by
  cases h with
  | reservedName => exact .refl w
  | noScope => exact .refl w
  | fingerprintConflict same => exact .of_sameStore same
  | forcingFailed prepared forced =>
    have forcing := harmless.forcing _ prepared
    rw [forced] at forcing
    exact .trans (.of_sameStore (prepare_sameStore prepared)) forcing
  | errorValue prepared forced =>
    have forcing := harmless.forcing _ prepared
    rw [forced] at forcing
    exact .trans (.of_sameStore (prepare_sameStore prepared)) forcing
  | constantTarget attempted => exact attempted.keepsStore harmless
  | constantMeanwhile attempted _ checked =>
    have check := BindAttempt.check_keepsStore (harmless.checking _ attempted)
    rw [checked] at check
    exact (attempted.keepsStore harmless).trans check
  | typeMismatch attempted _ _ _ _ same =>
    exact (attempted.keepsStore harmless).trans (.of_sameStore same)
  | predicateFalse attempted _ hc evaluated same =>
    exact (attempted.keepsStore harmless).trans
      ((harmless.checking _ attempted).evaluated hc evaluated same)
  | predicateFailed attempted _ hc evaluated same =>
    exact (attempted.keepsStore harmless).trans
      ((harmless.checking _ attempted).evaluated hc evaluated same)
  | listenerFailed => exact failure.elim
  | bound => exact failure.elim

/-- A commit that succeeds has written its value, and has published this value if it is to publish
one. -/
theorem Ends.of_bound (h : c.Ends perform v w .bound r w') (harmless : c.Harmless perform v w)
    (tree : w.scopes.IsTree) (current : ∀ s, w.context.current? = some s → s < w.scopes.size) :
    ∃ a u b, c.Attempts perform v w a ∧ a.check perform a.start = (.ok (), u) ∧
      (a.write u).scopes.localBinding? a.target c.target = some b ∧ b.value = a.value ∧
      r = .ok a.value ∧ (c.exported → w'.exports.find? c.target = some a.value) := by
  cases h with
  | @bound a u w' attempted _ checked _ _ =>
    obtain ⟨s, hs, made⟩ := attempted.attempt
    have name : a.name = c.target := by rw [made]; rfl
    have kept := attempted.keepsStore harmless
    have check := BindAttempt.check_keepsStore (harmless.checking _ attempted)
    rw [checked] at check
    have lt : a.target < u.scopes.size := by
      have hs' : s < a.start.scopes.size := Nat.lt_of_lt_of_le (current s hs) kept.scopes.size_le
      have le : a.target ≤ s := by
        rw [made]
        exact World.target_attempt_le
          (kept.scopes.isTreeUpTo (current s hs) (tree.upTo s)) hs' _ _ _
      exact Nat.lt_of_le_of_lt le (Nat.lt_of_lt_of_le hs' check.scopes.size_le)
    refine ⟨a, u, a.binding, attempted, checked, ?_, rfl, rfl, fun exported => ?_⟩
    · rw [← name]
      exact ScopeTable.localBinding?_bind_self lt _
    · simp [published, exported, OrderedMap.find?_insert]

/-- A commit whose parts are harmless fails before its value is written. -/
structure Fails (perform : Task → Run Value) (c : Commit) (v : Value) (w : World) (i : Interrupt)
    (w' : World) : Prop where
  harmless : c.Harmless perform v w
  result : commit c v perform w = (.error i, w')
  ends : ∃ ending, c.Ends perform v w ending (.error i) w' ∧ ending.IsFailure

theorem Fails.keepsStore {i : Interrupt} (h : c.Fails perform v w i w') : w.KeepsStore w' := by
  obtain ⟨ending, ends, failure⟩ := h.ends
  exact ends.keepsStore h.harmless failure

end harmless

end Commit

end ReactiveScript
