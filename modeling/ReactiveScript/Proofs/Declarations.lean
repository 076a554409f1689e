import ReactiveScript.Proofs.Course

/-!
# Declared types and constraints

A binding with a declared type holds a value that the type admits, or one that it says nothing of.
A constraint stays with its name until another one takes its place or a parameter is bound over it,
and what is written under a constraint has made its predicate true. All of it holds of every
sequence of calls on scopes in which no evaluation of a predicate assigns the variable that is being
checked.
-/

namespace ReactiveScript

open Eval

/-- The declared type admits the value; void, nodes and resources it says nothing of. -/
def Binding.Fits (b : Binding) : Prop :=
  ∀ expected, b.declaredType = some expected →
    b.value.isVoid ∨ b.value.isNode ∨ b.value.asResource?.isSome ∨
      ∃ actual, b.value.typeTag? = some actual ∧ expected.accepts actual

theorem Value.isNode_or_isResource {v : Value} (h : v.typeTag? = none) :
    v.isNode ∨ v.asResource?.isSome := by
  cases hv : v.untagged with
  | node n => exact .inl (by simp [isNode, asNode?, hv])
  | resource r => exact .inr (by simp [asResource?, hv])
  | tagged u m => exact absurd hv (v.untagged_ne_tagged u m)
  | _ => simp [typeTag?, hv] at h

theorem Binding.fits_parameter (v : Value) : (Binding.parameter v).Fits := nofun

namespace ScopeTable

def TypesHold (t : ScopeTable) : Prop :=
  ∀ s name b, t.localBinding? s name = some b → b.Fits

/-- The constraint that a scope itself has for a name. -/
def constraint? (t : ScopeTable) (s : ScopeId) (name : String) : Option Constraint :=
  (t.localBinding? s name).bind Binding.constraint

theorem Quiet.typesHold {t t' : ScopeTable} (h : t.Quiet t') (ht : t.TypesHold) :
    t'.TypesHold := by
  intro s name b hb
  rcases Nat.lt_or_ge s t.size with hs | hs
  · rw [h.binding s hs] at hb
    exact ht s name b hb
  · obtain ⟨v, rfl⟩ := h.fresh s name b hs hb
    exact Binding.fits_parameter v

theorem TypesHold.bind {t : ScopeTable} (h : t.TypesHold) (s : ScopeId) (name : String)
    {b : Binding} (hb : b.Fits) : (t.bind s name b).TypesHold := by
  intro u name' b' hb'
  rw [localBinding?_bind] at hb'
  split at hb'
  · cases hb'
    exact hb
  · exact h u name' b' hb'

end ScopeTable

namespace BindAttempt

variable {a : BindAttempt} {w : World}

theorem Passed.fits (h : a.Passed w) : a.binding.Fits := by
  obtain ⟨fuel, checked⟩ := h
  intro expected declared
  show a.value.isVoid ∨ a.value.isNode ∨ a.value.asResource?.isSome ∨ _
  rcases of_check_ok checked with void | ⟨fits, -⟩
  · exact .inl void
  cases ht : a.value.typeTag? with
  | none => exact .inr ((Value.isNode_or_isResource ht).imp_right .inl)
  | some actual => exact .inr (.inr (.inr ⟨actual, ht, fits expected actual declared ht⟩))

end BindAttempt

theorem Eval.lookup_of_localBinding? {perform : Task → Run Value} {w : World} {s : ScopeId}
    {name : String} {b : Binding} (hs : w.context.current? = some s)
    (hb : w.scopes.localBinding? s name = some b) :
    lookup name perform w = (.ok b.value, w) := by
  have current : currentScope? perform w = (.ok (some s), w) := by rw [← hs]; rfl
  rw [lookup, bind_of_ok current]
  refine (world_bind _ w).trans ?_
  rw [ScopeTable.find?_of_localBinding? hb]
  rfl

section inCheck

variable (w : World) (target : ScopeId) (value previous : Value) (c : Constraint)
  (perform : Task → Run Value)

theorem World.current?_inCheck :
    (w.inCheck target value previous c).context.current? = some w.scopes.size := rfl

/-- While a predicate is evaluated, `it` is the value that is being checked. -/
theorem World.lookup_it_inCheck :
    lookup "it" perform (w.inCheck target value previous c) =
      (.ok value, w.inCheck target value previous c) := by
  refine lookup_of_localBinding? (b := .parameter value) (w.current?_inCheck _ _ _ _) ?_
  simp [inCheck, ScopeTable.localBinding?, Scope.binding?, OrderedMap.find?]

/-- While a predicate is evaluated, `previous` is the value that would be replaced. -/
theorem World.lookup_previous_inCheck :
    lookup "previous" perform (w.inCheck target value previous c) =
      (.ok previous, w.inCheck target value previous c) := by
  refine lookup_of_localBinding? (b := .parameter previous) (w.current?_inCheck _ _ _ _) ?_
  simp [inCheck, ScopeTable.localBinding?, Scope.binding?, OrderedMap.find?]

end inCheck

/-- The incident assigns no variable that is being checked at the time. -/
def Move.SparesChecked (m : Move) : Prop :=
  ∀ a ∈ m.after.underWay, ¬ m.incident.Assigns a.target a.name

/-- Attempts are made on scopes that exist. -/
def Move.OnScopes (m : Move) : Prop :=
  ∀ a, m.incident = .opened a → a.target < m.before.world.scopes.size

/-- What a move respects of the constraints of names. -/
structure Move.Constrained (m : Move) : Prop where
  /-- A constraint stays, unless a parameter is bound over it or an attempt brings its own. -/
  stays : ∀ s name c, m.before.world.scopes.constraint? s name = some c →
    (∃ v, m.incident = .parameter s name v) ∨ m.after.world.scopes.constraint? s name = some c ∨
      ∃ a c', m.incident = .written a ∧ a.target = s ∧ a.name = name ∧
        a.options.constraint = some c' ∧ m.after.world.scopes.constraint? s name = some c'
  /-- The value that is written has made the predicate that the name has from then on true, with
  `previous` bound to the value that it replaces. -/
  checked : ∀ a c, m.incident = .written a → ¬ a.value.isVoid →
    m.after.world.scopes.constraint? a.target a.name = some c →
      let replaced :=
        ((m.before.world.scopes.localBinding? a.target a.name).map Binding.value).getD .void
      let w := a.start.inCheck a.target a.value replaced c
      ∃ fuel u, (lookup "it").run fuel w = (.ok a.value, w) ∧
        (lookup "previous").run fuel w = (.ok replaced, w) ∧
        (truthy c.predicate).run fuel w = (.ok true, u)

/-- The attempts that are under way see what their names are bound to. -/
def Traffic.Current (t : Traffic) : Prop :=
  ∀ a ∈ t.underWay, a.target < t.world.scopes.size ∧
    t.world.scopes.localBinding? a.target a.name = a.seen

theorem Traffic.current_of_nothing (w : World) : Traffic.Current ⟨w, []⟩ := List.forall_mem_nil _

namespace Move.Legal

variable {m : Move} {passes : BindAttempt → World → Prop}

theorem typesHold (h : m.Legal BindAttempt.Passed) (ht : m.before.world.scopes.TypesHold) :
    m.after.world.scopes.TypesHold := by
  cases h with
  | written w earlier later a passed free => exact ht.bind _ _ passed.fits
  | parameter w underWay scope name v => exact ht.bind _ _ (Binding.fits_parameter v)
  | _ => exact ht

/-- What is seen at the first look stays current, unless the variable is assigned meanwhile. -/
theorem current (h : m.Legal passes) (hc : m.before.Current) (spares : m.SparesChecked)
    (onScopes : m.OnScopes) : m.after.Current := by
  intro a ha
  rcases h.underWay_cases ha with before | ⟨hi, hb, hs, -⟩
  · obtain ⟨lt, seen⟩ := hc a before
    refine ⟨h.size_eq ▸ lt, ?_⟩
    rcases h.localBinding?_cases lt a.name with ⟨b, hi, ht, hn, -⟩ | ⟨v, hi, -⟩ | ⟨-, same⟩
    · refine absurd ?_ (spares a ha)
      rw [hi]
      exact ⟨ht, hn⟩
    · refine absurd ?_ (spares a ha)
      rw [hi]
      exact ⟨rfl, rfl⟩
    · exact same.trans seen
  · refine ⟨?_, ?_⟩
    · rw [h.size_eq]
      exact onScopes a hi
    · rw [hs]
      rfl

/-- A legal move respects constraints if the attempts under way see what their names are bound
to. -/
theorem constrained (h : m.Legal BindAttempt.Passed) (hc : m.before.Current) : m.Constrained where
  stays s name c hbefore := by
    have hs : s < m.before.world.scopes.size := by
      obtain ⟨b, hb, -⟩ := Option.bind_eq_some_iff.mp hbefore
      exact ScopeTable.lt_size_of_localBinding? hb
    rcases h.localBinding?_cases hs name with ⟨a, hi, rfl, rfl, ha, -, -, after⟩ | ⟨v, hv, -⟩ |
      ⟨-, same⟩
    -- The name has not been assigned since the first look, so the attempt has merged its options
    -- into what the name is bound to now.
    · have kept : a.seen.bind Binding.constraint = some c := by
        rw [← (hc a ha).2]
        exact hbefore
      have merged : m.after.world.scopes.constraint? a.target a.name =
          a.options.constraint.or (some c) := by
        rw [ScopeTable.constraint?, after, ← kept]
        rfl
      cases ho : a.options.constraint with
      | none => exact .inr (.inl (by rw [merged, ho]; rfl))
      | some c' => exact .inr (.inr ⟨a, c', hi, rfl, rfl, ho, by rw [merged, ho]; rfl⟩)
    · exact .inl ⟨v, hv⟩
    · exact .inr (.inl (by rw [ScopeTable.constraint?, same]; exact hbefore))
  checked a c hi hv hafter := by
    cases h with
    | written w earlier later b passed free =>
      cases hi
      obtain ⟨lt, seen⟩ := hc a (by simp)
      have bound : (a.write w).scopes.constraint? a.target a.name = a.binding.constraint := by
        rw [ScopeTable.constraint?, BindAttempt.write, ScopeTable.localBinding?_bind_self lt]
        rfl
      obtain ⟨fuel, checked⟩ := passed
      obtain ⟨-, holds⟩ := (BindAttempt.of_check_ok checked).resolve_left hv
      obtain ⟨u, evaluated⟩ := holds c (bound.symm.trans hafter)
      refine ⟨fuel, u, World.lookup_it_inCheck .., World.lookup_previous_inCheck .., ?_⟩
      dsimp only at seen ⊢
      rw [seen]
      exact evaluated
    | _ => cases hi

end Move.Legal

namespace Path

variable {t t' : Traffic} {moves : List Move}

theorem typesHold (h : Path BindAttempt.Passed t moves t') (typed : t.world.scopes.TypesHold) :
    (∀ m ∈ moves, m.before.world.scopes.TypesHold ∧ m.after.world.scopes.TypesHold) ∧
      t'.world.scopes.TypesHold :=
  h.keeps (I := fun t => t.world.scopes.TypesHold) typed (fun hq => hq.typesHold)
    fun _ _ legal => legal.typesHold

theorem constrained (h : Path BindAttempt.Passed t moves t') (current : t.Current)
    (spares : ∀ m ∈ moves, m.SparesChecked) (onScopes : ∀ m ∈ moves, m.OnScopes) :
    ∀ m ∈ moves, m.Constrained := by
  have kept : (∀ m ∈ moves, m.before.Current ∧ m.after.Current) ∧ t'.Current := by
    refine h.keeps current (fun hq hc a ha => ?_) fun m hm legal hc =>
      legal.current hc (spares m hm) (onScopes m hm)
    obtain ⟨lt, seen⟩ := hc a ha
    exact ⟨Nat.lt_of_lt_of_le lt hq.size_le, (hq.binding _ lt _).trans seen⟩
  exact fun m hm => (h.legal m hm).constrained (kept.1 m hm).1

/-- A name keeps a constraint as long as no parameter is bound over it, and another constraint than
at the start comes from an attempt that brought it. -/
theorem constraint_stays (h : Path BindAttempt.Passed t moves t')
    (constrained : ∀ m ∈ moves, m.Constrained) {s : ScopeId} {name : String} {c : Constraint}
    (hc : t.world.scopes.constraint? s name = some c)
    (free : ∀ m ∈ moves, ∀ v, m.incident ≠ .parameter s name v) :
    ∃ c', t'.world.scopes.constraint? s name = some c' ∧ (c' = c ∨ ∃ m ∈ moves, ∃ a,
      m.incident = .written a ∧ a.target = s ∧ a.name = name ∧ a.options.constraint = some c') := by
  let I (t : Traffic) : Prop := ∃ c', t.world.scopes.constraint? s name = some c' ∧ (c' = c ∨
    ∃ m ∈ moves, ∃ a, m.incident = .written a ∧ a.target = s ∧ a.name = name ∧
      a.options.constraint = some c')
  refine (h.keeps (I := I) ⟨c, hc, .inl rfl⟩ (fun hq ⟨c', hc', origin⟩ => ⟨c', ?_, origin⟩)
    fun m hm _ ⟨c', hc', origin⟩ => ?_).2
  · obtain ⟨b, hb, -⟩ := Option.bind_eq_some_iff.mp hc'
    rw [ScopeTable.constraint?, hq.binding s (ScopeTable.lt_size_of_localBinding? hb)]
    exact hc'
  · rcases (constrained m hm).stays s name c' hc' with ⟨v, hv⟩ | same |
      ⟨a, c'', hi, ht, hn, ho, after⟩
    · exact absurd hv (free m hm v)
    · exact ⟨c', same, origin⟩
    · exact ⟨c'', after, .inr ⟨m, hm, a, hi, ht, hn, ho⟩⟩

end Path

/-- A call on a scope. -/
inductive ScopeCall where
  | child (parent : ScopeId) (name : String)
  | set (scope : ScopeId) (name : String) (value : Value) (options : BindOptions)
  | setParameter (scope : ScopeId) (name : String) (value : Value)
  | listen (scope : ScopeId) (name key : String) (callback : Callback)

/-- Carries out a call; a call that fails changes nothing for the calls after it. -/
def ScopeCall.run : ScopeCall → Eval Unit
  | .child parent name => modify fun w => (w.addChild parent name).2
  | .set scope name value options => do
    let _ ← attempt (Eval.bind scope name value options)
  | .setParameter scope name value => bindParameter scope name value
  | .listen scope name key callback => listenVariable scope name key callback

def ScopeCall.runAll : List ScopeCall → Eval Unit
  | [] => pure ()
  | call :: rest => do
    call.run
    runAll rest

theorem ScopeCall.course (call : ScopeCall) (fuel : Nat) (w : World) :
    ∃ moves, Course fuel [] call.run w moves := by
  have still {x : Eval Unit} (h : ∀ perform, w.scopes.Quiet (x perform w).2.scopes) :
      ∃ moves, Course fuel [] x w moves := ⟨[], .still h⟩
  cases call with
  | child parent name => exact still fun _ => .push _ nofun
  | set scope name value options =>
    have bound : Protocol (fun _ => True) (Eval.bind scope name value options) :=
      .bindName scope name value options
    have caught := Protocol.bind (.attempt bound) fun _ => .pure ()
    obtain ⟨moves, course, -⟩ := caught.procedure.course fuel [] w
    exact ⟨moves, course⟩
  | setParameter scope name value => exact ⟨_, .parameter scope name value⟩
  | listen scope name key callback =>
    exact still fun _ =>
      .modify (f := fun s => s.listen name key callback) _ _ (fun _ => rfl) fun _ => rfl

theorem ScopeCall.course_runAll (calls : List ScopeCall) (fuel : Nat) (w : World) :
    ∃ moves, Course fuel [] (runAll calls) w moves := by
  induction calls generalizing w with
  | nil => exact ⟨[], .still fun _ => .refl _⟩
  | cons call rest ih =>
    obtain ⟨moves, course⟩ := call.course fuel w
    rcases hr : call.run.run fuel w with ⟨i | ⟨⟩, w'⟩
    · exact ⟨moves, .bind_error course hr⟩
    · obtain ⟨moves', course'⟩ := ih w'
      exact ⟨moves ++ moves', .bind_ok course hr course'⟩

/-- Declared types and constraints hold before and after every move of a sequence of calls and at
its end, and a constraint stays with its name or gives way to one that an attempt brings. The calls
take a course, and of this course it is assumed that attempts are made on scopes that exist and that
what is being checked is not assigned meanwhile. -/
theorem declarations_hold (calls : List ScopeCall) (fuel : Nat) (w : World)
    (typed : w.scopes.TypesHold) :
    (∃ moves, Course fuel [] (ScopeCall.runAll calls) w moves) ∧
    ∀ moves, Course fuel [] (ScopeCall.runAll calls) w moves →
      (∀ m ∈ moves, m.SparesChecked) → (∀ m ∈ moves, m.OnScopes) →
      let w' := ((ScopeCall.runAll calls).run fuel w).2
      (∀ m ∈ moves, m.before.world.scopes.TypesHold ∧ m.after.world.scopes.TypesHold ∧
        m.Constrained) ∧
      w'.scopes.TypesHold ∧
      ∀ s name c, w.scopes.constraint? s name = some c →
        (∀ m ∈ moves, ∀ v, m.incident ≠ .parameter s name v) →
        ∃ c', w'.scopes.constraint? s name = some c' ∧ (c' = c ∨ ∃ m ∈ moves, ∃ a,
          m.incident = .written a ∧ a.target = s ∧ a.name = name ∧
            a.options.constraint = some c') := by
  refine ⟨ScopeCall.course_runAll calls fuel w, fun moves course spares onScopes => ?_⟩
  have path := course.path
  have constrained := path.constrained (Traffic.current_of_nothing w) spares onScopes
  obtain ⟨each, last⟩ := path.typesHold typed
  exact ⟨fun m hm => ⟨(each m hm).1, (each m hm).2, constrained m hm⟩, last,
    fun s name c hc free => path.constraint_stays constrained hc free⟩

/-- A root with a variable of a declared type and with a constraint. -/
def typedRoot : World :=
  { scopes := ScopeTable.bind #[{ name := "root", parent := none }] 0 "x"
      { value := .int 1, declaredType := some .integer, constraint := some ⟨.bool true, "true"⟩ } }

theorem typedRoot_typesHold : typedRoot.scopes.TypesHold := by
  refine ScopeTable.TypesHold.bind (fun s name b hb => ?_) 0 "x" fun expected declared => ?_
  · cases s <;> simp [ScopeTable.localBinding?, Scope.binding?] at hb
  · cases declared
    exact .inr (.inr (.inr ⟨.integer, rfl, rfl⟩))

def secondNumber : ScopeCall := .set 0 "x" (.int 2) {}

def secondAttempt : BindAttempt := typedRoot.attempt 0 "x" (.int 2) {}

def secondMoves : List Move :=
  let checked := (secondAttempt.check.run 0 typedRoot).2
  [⟨⟨typedRoot, []⟩, .opened secondAttempt, ⟨typedRoot, [secondAttempt]⟩⟩,
    ⟨⟨checked, [secondAttempt]⟩, .written secondAttempt, ⟨secondAttempt.write checked, []⟩⟩]

theorem secondNumber_course :
    Course 0 [] (ScopeCall.runAll [secondNumber]) typedRoot secondMoves := by
  let checked := (secondAttempt.check.run 0 typedRoot).2
  have passed : secondAttempt.check.run 0 typedRoot = (.ok (), checked) := rfl
  have free : ¬ secondAttempt.Barred typedRoot := by
    rintro ⟨b, ⟨⟩, ⟨⟩⟩
  have unbarred : ¬ secondAttempt.Barred checked := by
    rintro ⟨b, ⟨⟩, ⟨⟩⟩
  have check : Course 0 [secondAttempt] secondAttempt.check typedRoot [] :=
    .still fun _ => typedRoot.quiet_inCheck 0 (.int 2) (.int 1) ⟨.bool true, "true"⟩
  have announce : Course 0 [] secondAttempt.announce (secondAttempt.write checked) [] :=
    .still fun _ => .refl _
  have bound : (Eval.bind 0 "x" (.int 2) {}).run 0 typedRoot =
      (.ok (.int 2), secondAttempt.write checked) := bindName_of_passed free passed unbarred
  have caught : (Eval.attempt (Eval.bind 0 "x" (.int 2) {})).run 0 typedRoot =
      (.ok (.ok (.int 2)), secondAttempt.write checked) := by
    rw [Eval.run] at bound
    rw [Eval.run, Eval.attempt, bound]
  have ran : secondNumber.run.run 0 typedRoot = (.ok (), secondAttempt.write checked) :=
    bind_of_ok caught
  have call : Course 0 [] (Eval.bind 0 "x" (.int 2) {}) typedRoot secondMoves :=
    .written rfl free check passed unbarred announce
  have set : Course 0 [] secondNumber.run typedRoot (secondMoves ++ []) :=
    .bind_ok (.attempt call) caught (.still fun _ => .refl _)
  have all : Course 0 [] (ScopeCall.runAll [secondNumber]) typedRoot ((secondMoves ++ []) ++ []) :=
    .bind_ok set ran (.still fun _ => .refl _)
  simpa using all

theorem secondNumber_keeps_declarations :
    ((ScopeCall.runAll [secondNumber]).run 0 typedRoot).2.scopes.TypesHold ∧
      ∀ m ∈ secondMoves, m.Constrained := by
  have spares : ∀ m ∈ secondMoves, m.SparesChecked := by
    simp [secondMoves, Move.SparesChecked, Incident.Assigns]
  have onScopes : ∀ m ∈ secondMoves, m.OnScopes := by
    have exists_root : secondAttempt.target < typedRoot.scopes.size := Nat.zero_lt_one
    simp [secondMoves, Move.OnScopes, exists_root]
  obtain ⟨-, all⟩ := declarations_hold [secondNumber] 0 typedRoot typedRoot_typesHold
  obtain ⟨each, last, -⟩ := all secondMoves secondNumber_course spares onScopes
  exact ⟨last, fun m hm => (each m hm).2.2⟩

end ReactiveScript
