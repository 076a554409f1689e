import ReactiveScript.Proofs.Attempts

/-!
# Traffic

Several writers bind names at the same time. The first look of an attempt and its write are one
move each; between them the attempt is under way, and other attempts are made, end and write, in any
order and any nesting. A path is a sequence of such moves; between two of them scopes may only be
added. What every move respects holds along every path.
-/

namespace ReactiveScript

/-- What happens to names: an attempt is made or ends, or a parameter is bound past all checks. -/
inductive Incident where
  /-- The name was a constant at the first look. -/
  | refused (a : BindAttempt)
  | opened (a : BindAttempt)
  /-- The check of type and constraint failed. -/
  | rejected (a : BindAttempt)
  /-- The check passed, but the name was a constant at the second look. -/
  | overtaken (a : BindAttempt)
  | written (a : BindAttempt)
  | parameter (scope : ScopeId) (name : String) (v : Value)

/-- The incident changes what a name is bound to in a scope. -/
def Incident.Assigns (scope : ScopeId) (name : String) : Incident → Prop
  | .written a => a.target = scope ∧ a.name = name
  | .parameter scope' name' _ => scope' = scope ∧ name' = name
  | _ => False

def World.withParameter (w : World) (scope : ScopeId) (name : String) (v : Value) : World :=
  { w with scopes := w.scopes.bind scope name (.parameter v) }

/-- A world with the attempts that are under way in it. -/
structure Traffic where
  world : World
  underWay : List BindAttempt

structure Move where
  before : Traffic
  incident : Incident
  after : Traffic

/-- The moves that there are, given which attempts pass their checks in which worlds. -/
inductive Move.Legal (passes : BindAttempt → World → Prop) : Move → Prop where
  | refused (w : World) (underWay : List BindAttempt) (scope : ScopeId) (name : String)
      (value : Value) (options : BindOptions)
      (barred : (w.attempt scope name value options).Barred w) :
      Legal passes ⟨⟨w, underWay⟩, .refused (w.attempt scope name value options), ⟨w, underWay⟩⟩
  | opened (w : World) (underWay : List BindAttempt) (scope : ScopeId) (name : String)
      (value : Value) (options : BindOptions)
      (free : ¬ (w.attempt scope name value options).Barred w) :
      Legal passes ⟨⟨w, underWay⟩, .opened (w.attempt scope name value options),
        ⟨w, w.attempt scope name value options :: underWay⟩⟩
  | rejected (w : World) (earlier later : List BindAttempt) (a : BindAttempt) :
      Legal passes ⟨⟨w, later ++ a :: earlier⟩, .rejected a, ⟨w, later ++ earlier⟩⟩
  | overtaken (w : World) (earlier later : List BindAttempt) (a : BindAttempt)
      (passed : passes a w) (barred : a.Barred w) :
      Legal passes ⟨⟨w, later ++ a :: earlier⟩, .overtaken a, ⟨w, later ++ earlier⟩⟩
  | written (w : World) (earlier later : List BindAttempt) (a : BindAttempt)
      (passed : passes a w) (free : ¬ a.Barred w) :
      Legal passes ⟨⟨w, later ++ a :: earlier⟩, .written a, ⟨a.write w, later ++ earlier⟩⟩
  | parameter (w : World) (underWay : List BindAttempt) (scope : ScopeId) (name : String)
      (v : Value) :
      Legal passes ⟨⟨w, underWay⟩, .parameter scope name v,
        ⟨w.withParameter scope name v, underWay⟩⟩

/-- A sequence of moves, between which scopes are added. -/
inductive Path (passes : BindAttempt → World → Prop) : Traffic → List Move → Traffic → Prop where
  | done (t : Traffic) : Path passes t [] t
  | quiet {w w' : World} {underWay : List BindAttempt} {moves : List Move} {t : Traffic}
      (h : w.scopes.Quiet w'.scopes) (rest : Path passes ⟨w', underWay⟩ moves t) :
      Path passes ⟨w, underWay⟩ moves t
  | move {m : Move} {moves : List Move} {t : Traffic} (h : m.Legal passes)
      (rest : Path passes m.after moves t) : Path passes m.before (m :: moves) t

variable {passes : BindAttempt → World → Prop} {s : ScopeId} {name : String}

namespace Move.Legal

variable {m : Move}

theorem size_eq (h : m.Legal passes) :
    m.after.world.scopes.size = m.before.world.scopes.size := by
  cases h with
  | written => exact ScopeTable.size_bind _ _ _ _
  | parameter => exact ScopeTable.size_bind _ _ _ _
  | _ => rfl

/-- Everything that a move can do to what a name is bound to in a scope. -/
theorem localBinding?_cases (h : m.Legal passes) (hs : s < m.before.world.scopes.size)
    (name : String) :
    (∃ a, m.incident = .written a ∧ a.target = s ∧ a.name = name ∧ a ∈ m.before.underWay ∧
      passes a m.before.world ∧ ¬ a.Barred m.before.world ∧
      m.after.world.scopes.localBinding? s name = some a.binding) ∨
    (∃ v, m.incident = .parameter s name v ∧
      m.after.world.scopes.localBinding? s name = some (.parameter v)) ∨
    (¬ m.incident.Assigns s name ∧
      m.after.world.scopes.localBinding? s name = m.before.world.scopes.localBinding? s name) := by
  cases h with
  | written w earlier later a passed free =>
    by_cases ha : a.target = s ∧ a.name = name
    · obtain ⟨rfl, rfl⟩ := ha
      exact .inl ⟨a, rfl, rfl, rfl, by simp, passed, free, ScopeTable.localBinding?_bind_self hs _⟩
    · exact .inr (.inr ⟨ha, ScopeTable.localBinding?_bind_of_ne ha _⟩)
  | parameter w underWay scope name' v =>
    by_cases ha : scope = s ∧ name' = name
    · obtain ⟨rfl, rfl⟩ := ha
      exact .inr (.inl ⟨v, rfl, ScopeTable.localBinding?_bind_self hs _⟩)
    · exact .inr (.inr ⟨ha, ScopeTable.localBinding?_bind_of_ne ha _⟩)
  | _ => exact .inr (.inr ⟨id, rfl⟩)

theorem underWay_cases (h : m.Legal passes) {a : BindAttempt} (ha : a ∈ m.after.underWay) :
    a ∈ m.before.underWay ∨
      (m.incident = .opened a ∧ m.before.world = a.start ∧ m.after.world = a.start ∧
        ¬ a.Barred a.start) := by
  cases h with
  | opened w underWay scope name value options free =>
    rcases List.mem_cons.mp ha with rfl | ha
    · exact .inr ⟨rfl, rfl, rfl, free⟩
    · exact .inl ha
  | refused => exact .inl ha
  | parameter => exact .inl ha
  | _ =>
    refine .inl ?_
    simp only [List.mem_append, List.mem_cons] at ha ⊢
    exact ha.imp_right .inr

theorem barred (h : m.Legal passes) {a : BindAttempt}
    (hm : m.incident = .refused a ∨ m.incident = .overtaken a) : a.Barred m.before.world := by
  cases h with
  | refused w underWay scope name value options barred =>
    rcases hm with ⟨⟨⟩⟩ | ⟨⟨⟩⟩
    exact barred
  | overtaken w earlier later b passed barred =>
    rcases hm with ⟨⟨⟩⟩ | ⟨⟨⟩⟩
    exact barred
  | _ => rcases hm with ⟨⟨⟩⟩ | ⟨⟨⟩⟩

end Move.Legal

namespace Path

variable {t t' t'' : Traffic} {moves moves' : List Move}

theorem append (h : Path passes t moves t') (h' : Path passes t' moves' t'') :
    Path passes t (moves ++ moves') t'' := by
  induction h with
  | done => exact h'
  | quiet hq _ ih => exact .quiet hq (ih h')
  | move hm _ ih => exact .move hm (ih h')

theorem quiet_after {w w' : World} {underWay : List BindAttempt}
    (h : Path passes t moves ⟨w, underWay⟩) (hq : w.scopes.Quiet w'.scopes) :
    Path passes t moves ⟨w', underWay⟩ := by
  simpa using h.append (.quiet hq (.done _))

theorem single {m : Move} (h : m.Legal passes) : Path passes m.before [m] m.after :=
  .move h (.done _)

theorem after {earlier later : List Move} {m : Move}
    (h : Path passes t (earlier ++ m :: later) t') :
    m.Legal passes ∧ Path passes m.after later t' := by
  generalize he : earlier ++ m :: later = moves at h
  induction h generalizing earlier with
  | done => cases earlier <;> cases he
  | quiet _ _ ih => exact ih he
  | @move m' moves _ hm rest ih =>
    cases earlier with
    | nil =>
      cases he
      exact ⟨hm, rest⟩
    | cons _ earlier =>
      cases he
      exact ih rfl

theorem legal (h : Path passes t moves t') : ∀ m ∈ moves, m.Legal passes := by
  induction h with
  | done => exact List.forall_mem_nil _
  | quiet _ _ ih => exact ih
  | move hm _ ih => exact List.forall_mem_cons.mpr ⟨hm, ih⟩

/-- What holds at the start of a path and is respected by its moves and by adding scopes holds
before and after each move and at the end. -/
theorem keeps {I : Traffic → Prop} (h : Path passes t moves t') (start : I t)
    (quiet : ∀ {w w' underWay}, w.scopes.Quiet w'.scopes → I ⟨w, underWay⟩ → I ⟨w', underWay⟩)
    (move : ∀ m ∈ moves, m.Legal passes → I m.before → I m.after) :
    (∀ m ∈ moves, I m.before ∧ I m.after) ∧ I t' := by
  induction h with
  | done => exact ⟨List.forall_mem_nil _, start⟩
  | quiet hq _ ih => exact ih (quiet hq start) move
  | @move m moves _ hm _ ih =>
    have after := move m List.mem_cons_self hm start
    obtain ⟨each, last⟩ := ih after fun m' hm' => move m' (List.mem_cons_of_mem m hm')
    exact ⟨List.forall_mem_cons.mpr ⟨⟨start, after⟩, each⟩, last⟩

theorem lt_size (h : Path passes t moves t') (hs : s < t.world.scopes.size) :
    (∀ m ∈ moves, s < m.before.world.scopes.size ∧ s < m.after.world.scopes.size) ∧
      s < t'.world.scopes.size :=
  h.keeps (I := fun t => s < t.world.scopes.size) hs
    (fun hq hs => Nat.lt_of_lt_of_le hs hq.size_le) fun _ _ legal hs => legal.size_eq ▸ hs

end Path
end ReactiveScript
