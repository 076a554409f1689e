import ReactiveScript.Proofs.Conditions

/-!
# Following a condition

A conditional assignment that is kept follows its condition through every run of assignments to the
variables that it depends on: the target has the value that the right-hand side had when the
condition was last assigned, or void if the condition was not true then.
-/

namespace ReactiveScript

open Eval

/-- Wires an assignment and runs it as a script in a scope. -/
def Assignment.runIn (a : Assignment) (op : Operator) (s : ScopeId) : Eval Value := do
  match ← a.wire op with
  | .error e => raise (EvalError.exception e.message)
  | .ok statement => Script.run s [statement]

/-- Assigns values to variables in turn, each in a script of its own. -/
def assignAll (s : ScopeId) : List (String × Datum) → Eval Unit
  | [] => pure ()
  | (x, d) :: rest => do
    let _ ← Assignment.runIn { target := x, value := d.value } .assignment s
    assignAll s rest

/-- The node of a plain assignment. -/
def assigningSpec (x : String) (v : Value) : NodeSpec where
  operation := Operator.assignment.name
  source := Segment.unknown
  inputs := [v]
  body := .assign (Assignment.commit { target := x, value := v } .assignment)

/-- The world in which a script of a plain assignment binds its target. -/
def World.assigning (w : World) (s : ScopeId) (x : String) (v : Value) : World :=
  let node := (w.build (assigningSpec x v)).1
  (Script.entered (w.build (assigningSpec x v)).2 s node).entering node.id

/-- A script that assigns a value leaves what the binding leaves. -/
theorem Assignment.runIn_leaves {w : World} {s : ScopeId} {x : String} {d : Datum}
    {q : Tables → Prop} (admitted : w.context.calls.size < w.settings.maxRecursionDepth)
    (sound : w.context.corruption = none) (allowed : w.isReserved x = false)
    (h : ∀ u learner,
      force w.settings.parallel d.value w.settings.assignmentFixDepth = pure u →
      u.bare = d.value.bare → (Eval.bind s x u {}).Leaves
        { w.assigning s x d.value with learner } fun v t => v = u ∧ q t) :
    (Assignment.runIn { target := x, value := d.value } .assignment s).Leaves w fun _ => q := by
  let built := (w.build (assigningSpec x d.value)).2
  have wired (perform : Task → Run Value) :
      Assignment.wire { target := x, value := d.value } .assignment perform w =
        (.ok (.ok (.node (w.build (assigningSpec x d.value)).1)), built) := rfl
  refine .after (fun perform => bind_of_ok (wired perform)) ?_
  refine Script.run_built_leaves (w.node?_build _) rfl rfl admitted sound ?_
  obtain ⟨u, pure, hu⟩ := force_nodeFree w.settings.parallel d.value d.settled
    w.settings.assignmentFixDepth
  have forced : (forceAssigned d.value).Leaves (w.assigning s x d.value) fun v t =>
      v = u ∧ t = (w.assigning s x d.value).tables := by
    refine .after (fun perform => ?_) (.pure ⟨rfl, rfl⟩)
    exact congrFun (congrFun pure perform) _
  have noError : u.isError = false := (Value.isError_congr hu).trans d.sound
  have noNode : u.isNode = false := (Value.isNode_congr hu).trans d.settled.isNode
  refine commit_leaves rfl allowed rfl forced (fun v hv => hv ▸ noError) ?_
  rintro v rfl learner
  refine (h v learner pure hu).mono ?_
  rintro _ t ⟨rfl, hq⟩
  exact ⟨noError, noNode, hq⟩

/-- The values of the variables after assignments. -/
def Valuation.after (env : Valuation) : List (String × Datum) → Valuation
  | [] => env
  | (x, d) :: rest => Valuation.after (env.update x d) rest

namespace Conditional

/-- The assignment with the node that reads the condition. -/
def assignment (k : Conditional) (condition : Value) : Assignment where
  target := k.target
  value := k.rhs
  condition := some condition
  exported := k.exported
  source := k.source

/-- Wires the conditional assignment and runs it. Then, while it is kept, the variables that it
depends on are assigned to. -/
def follow (k : Conditional) (steps : List (String × Datum)) : Eval Unit := do
  let condition ← Wiring.reference k.condition k.source
  match ← (k.assignment condition).wire .whenAssign with
  | .error e => raise (EvalError.exception e.message)
  | .ok statement => holding statement.held do
    let _ ← Script.run k.scope [statement]
    assignAll k.scope steps

/-- The conditional assignment follows its condition: its callback is reached from the variable, and
the target has a value, up to tags. -/
structure Follows (k : Conditional) (base : World) (condition statement : NodeRef)
    (outer : ScopeStack) (env : Valuation) (value : Value) (w : World) : Prop where
  ready : k.Ready base [.relay condition.id] env w
  linked : k.Linked condition statement outer w
  holds : ∃ v, w.scopes.find? k.scope k.target = some v ∧ v.bare = value.bare

/-- Between the scripts there is room for the nodes of the assignment, no corruption is left and
something keeps the node of the assignment. -/
structure Idle (k : Conditional) (condition statement : NodeRef) (w : World) : Prop where
  depth : w.context.calls.size + 1 + max 1 k.height ≤ w.settings.maxRecursionDepth
  corruption : w.context.corruption = none
  unmarked : ¬ w.context.isNotifying condition.id
  kept : w.isKept (.node statement.id)

variable {k : Conditional} {base w w' : World} {condition statement : NodeRef}
  {outer : ScopeStack} {env : Valuation} {current value v : Value} {d : Datum} {x : String}

theorem Follows.congr (h : k.Follows base condition statement outer env value w)
    (nodes : w'.nodes = w.nodes) (scopes : w'.scopes = w.scopes)
    (settings : w'.settings = w.settings) (reserved : w'.reserved = w.reserved) :
    k.Follows base condition statement outer env value w' :=
  ⟨h.ready.congr nodes scopes settings reserved, h.linked.congr nodes, scopes ▸ h.holds⟩

theorem Ready.follows {t : Tables} (ready : k.Ready base [.relay condition.id] env w)
    (linked : k.Linked condition statement outer w) (assigns : k.Assigns w value t)
    (learner : Learner) :
    k.Follows base condition statement outer env value (w.withTables t learner) := by
  obtain ⟨u, exports, hu, rfl⟩ := assigns
  refine ⟨(ready.assign_target u).congr rfl rfl rfl rfl, linked.congr rfl, u, ?_, hu⟩
  show (w.scopes.assign k.scope k.target u).find? k.scope k.target = some u
  rw [ScopeTable.find?_assign ready.arranged.size, if_pos rfl]

/-- A binding of the condition carries out the assignment, a binding of another variable calls
nothing. -/
theorem Follows.bind_leaves (follows : k.Follows base condition statement outer env current w)
    (running : k.Running condition statement w)
    (hx : x ∈ k.seen) (hv : v.bare = d.value.bare) (means : k.Means base (env.update x d) value) :
    (Eval.bind k.scope x v {}).Leaves w fun u t =>
      u = v ∧ ∀ learner, k.Follows base condition statement outer (env.update x d)
        (if x = k.condition then selected d.value value else current) (w.withTables t learner) := by
  have arranged := follows.ready.arranged
  have name : x ∈ k.names := List.mem_cons_of_mem _ hx
  have ready : k.Ready base [.relay condition.id] (env.update x d)
      { w with scopes := w.scopes.assign k.scope x v } := follows.ready.assign hv
  have linked : k.Linked condition statement outer
      { w with scopes := w.scopes.assign k.scope x v } := follows.linked.congr rfl
  by_cases hc : x = k.condition
  · subst hc
    rw [if_pos rfl]
    refine bindName_leaves arranged.size (arranged.plain _ name) ?_
    rw [arranged.heard]
    refine deliverAll_leaves ?_
    let bound : World :=
      { w with
        scopes := w.scopes.assign k.scope k.condition v
        inUse := (v.held ++ heldByCallbacks [.relay condition.id]) ++
          ((w.previous k.scope k.condition).held ++ w.inUse) }
    have ready : k.Ready base [.relay condition.id] (env.update k.condition d) bound :=
      ready.congr rfl rfl rfl rfl
    have linked : k.Linked condition statement outer bound := linked.congr rfl
    have inUse : w.inUse ⊆ bound.inUse := fun h hm => by simp [bound, hm]
    have running : k.Running condition statement bound := running.congr rfl rfl rfl inUse
    -- The node reads the value that was just bound, not the one that is delivered.
    have now : (env.update k.condition d) k.condition = d := if_pos rfl
    have delivered := relay_leaves ready running linked means v
    rw [now] at delivered
    refine delivered.mono fun _ t assigns => ⟨rfl, fun learner => ?_⟩
    exact (ready.follows linked assigns learner).congr rfl rfl rfl rfl
  · rw [if_neg hc]
    refine bind_unheard_leaves arranged.size (arranged.plain _ name)
      (arranged.unheard _ name hc) ⟨rfl, fun learner => ?_⟩
    refine ⟨ready.congr rfl rfl rfl rfl, linked.congr rfl, ?_⟩
    obtain ⟨u, hu, same⟩ := follows.holds
    have other : x ≠ k.target := fun he => k.apart (he ▸ hx)
    refine ⟨u, ?_, same⟩
    show (w.scopes.assign k.scope x v).find? k.scope k.target = some u
    rw [ScopeTable.find?_assign arranged.size, if_neg other]
    exact hu

/-- While a node is executed in a script of the scope, there is room for the nodes of the
assignment. -/
theorem Idle.running (idle : k.Idle condition statement w) (node : NodeRef) :
    k.Running condition statement ((Script.entered w k.scope node).entering node.id) where
  current := rfl
  depth := idle.depth
  corruption := idle.corruption
  unmarked := idle.unmarked
  kept := by
    have kept := idle.kept
    simp only [World.isKept, Bool.or_eq_true, List.contains_iff_mem] at kept ⊢
    exact kept.imp_left fun hm => List.mem_cons_of_mem _ hm

/-- A script that assigns to a variable carries out the conditional assignment if the variable is its
condition. -/
theorem Follows.step_leaves (follows : k.Follows base condition statement outer env current w)
    (idle : k.Idle condition statement w) (hx : x ∈ k.seen)
    (means : k.Means base (env.update x d) value) :
    (Assignment.runIn { target := x, value := d.value } .assignment k.scope).Leaves w fun _ t =>
      ∀ learner, k.Follows base condition statement outer (env.update x d)
        (if x = k.condition then selected d.value value else current)
        (w.withTables t learner) := by
  have more := World.Prolongs.build w (assigningSpec x d.value)
  have admitted : w.context.calls.size < w.settings.maxRecursionDepth := by
    have := idle.depth
    omega
  have allowed := follows.ready.allowed x (List.mem_cons_of_mem _ hx)
  refine Assignment.runIn_leaves admitted idle.corruption allowed fun u learner _ hu => ?_
  let w' : World := { w.assigning k.scope x d.value with learner }
  have follows : k.Follows base condition statement outer env current w' :=
    ⟨⟨follows.ready.prolongs.trans more, follows.ready.settings, follows.ready.allowed,
      follows.ready.arranged, follows.ready.shows⟩, follows.linked.prolong more, follows.holds⟩
  have running : k.Running condition statement w' :=
    (idle.running ⟨w.nextNode, _⟩).congr rfl rfl rfl (List.Subset.refl _)
  refine (follows.bind_leaves running hx hu means).mono ?_
  rintro _ t ⟨rfl, follows⟩
  exact ⟨rfl, fun learner => (follows learner).congr rfl rfl rfl rfl⟩

/-- What the target has after assignments: each of the condition decides it anew. -/
def outcome (k : Conditional) (value : Valuation → Value) :
    Valuation → Value → List (String × Datum) → Value
  | _, current, [] => current
  | env, current, (x, d) :: rest =>
    outcome k value (env.update x d)
      (if x = k.condition then selected d.value (value (env.update x d)) else current) rest

/-- The right-hand side has values throughout a run. -/
def MeansThroughout (k : Conditional) (base : World) (value : Valuation → Value) (env : Valuation)
    (steps : List (String × Datum)) : Prop :=
  ∀ before, before <+: steps → k.Means base (env.after before) (value (env.after before))

/-- A run of assignments carries out the conditional assignment at each of its condition. -/
theorem Follows.run_leaves {value : Valuation → Value} {steps : List (String × Datum)}
    (follows : k.Follows base condition statement outer env current w)
    (idle : k.Idle condition statement w) (names : ∀ step ∈ steps, step.1 ∈ k.seen)
    (means : k.MeansThroughout base value env steps) :
    (assignAll k.scope steps).Leaves w fun _ t =>
      ∀ learner, k.Follows base condition statement outer (env.after steps)
        (k.outcome value env current steps) (w.withTables t learner) := by
  -- What each script keeps is `Follows`; the world between two scripts stays idle, because scripts
  -- change nothing but tables.
  induction steps generalizing w env current with
  | nil => exact .pure fun learner => follows.congr rfl rfl rfl rfl
  | cons step rest ih =>
    obtain ⟨x, d⟩ := step
    have hx : x ∈ k.seen := names (x, d) List.mem_cons_self
    have now : k.Means base (env.update x d) (value (env.update x d)) :=
      means [(x, d)] ⟨rest, rfl⟩
    have later : k.MeansThroughout base value (env.update x d) rest := fun before hb =>
      means ((x, d) :: before) (List.cons_prefix_cons.mpr ⟨rfl, hb⟩)
    refine (follows.step_leaves idle hx now).bind fun _ t follows learner => ?_
    have idle : k.Idle condition statement (w.withTables t learner) :=
      ⟨idle.depth, idle.corruption, idle.unmarked, idle.kept⟩
    exact ih (follows learner) idle (fun step hs => names step (List.mem_cons_of_mem _ hs)) later

/-- The node that reads the condition is connected with the variable, and the assignment with the
node. -/
def attached (k : Conditional) (condition : NodeId) (callback : Callback) (w : World) : World :=
  let w := w.modifyNode condition fun n => { n with wired := true }
  let w := w.listened k.scope k.condition (Node.relayKey condition) (.relay condition)
  w.modifyNode condition fun n =>
    { n with listeners := n.listeners.register (whenKey k.scope k.target) callback }

theorem listen_apply {n : Node} {hint : Option ScopeId} {id : NodeId}
    (hn : w.node? id = some n) (unwired : n.wired = false)
    (trigger : n.trigger = .variable k.condition hint)
    (current : w.context.current? = some k.scope) (callback : Callback)
    (perform : Task → Run Value) :
    Eval.listen id (some (whenKey k.scope k.target)) callback perform w =
      (.ok (.str (whenKey k.scope k.target)), k.attached id callback w) := by
  have look : Eval.world perform w = (.ok w, w) := rfl
  let marked := w.modifyNode id fun n => { n with wired := true }
  have mark : Eval.modify (fun w => w.modifyNode id fun n => { n with wired := true }) perform w =
      (.ok (), marked) := rfl
  have here : currentScope? perform marked = (.ok (some k.scope), marked) := by
    rw [← current]
    rfl
  have connected : connectNode id n perform w =
      (.ok (), marked.listened k.scope k.condition (Node.relayKey id) (.relay id)) := by
    simp only [connectNode, unwired, trigger, Bool.false_eq_true, if_false, bind_of_ok mark,
      bind_of_ok here]
    rfl
  rw [Eval.listen, bind_of_ok look, hn]
  simp only [bind_of_ok connected]
  rfl

theorem Ready.attached (ready : k.Ready base [] env w) {id : NodeId}
    (later : base.nodes.size < id) (callback : Callback) :
    k.Ready base [.relay id] env (k.attached id callback w) where
  prolongs := by
    have marked := ready.prolongs.modifyNode later fun n => { n with wired := true }
    have heard : base.Prolongs (World.listened (w.modifyNode id fun n => { n with wired := true })
      k.scope k.condition (Node.relayKey id) (.relay id)) := marked
    exact heard.modifyNode later _
  settings := ready.settings
  allowed := ready.allowed
  arranged := ready.arranged.listen (Node.relayKey id) (.relay id)
  shows x hx := by
    obtain ⟨b, hb, same⟩ := ready.shows x hx
    refine ⟨b, ?_, same⟩
    rw [← hb]
    exact ScopeTable.binding?_listen _ _

theorem linked_attached {n m : Node} (hn : w.node? condition.id = some n)
    (refers : n.Refers k.condition) (unheard : n.listeners = {})
    (hm : w.node? statement.id = some m) (holds : .node condition.id ∈ m.held)
    (apart : condition.id ≠ statement.id) (later : condition.id ≠ 0) (outer : ScopeStack) :
    k.Linked condition statement outer (k.attached condition.id (k.callback outer) w) := by
  have node? (other : NodeId) :
      (k.attached condition.id (k.callback outer) w).node? other =
        if condition.id = other then (w.node? other).map fun n =>
          { n with
            wired := true
            listeners := n.listeners.register (whenKey k.scope k.target) (k.callback outer) }
        else w.node? other := by
    rw [attached, World.node?_modifyNode _ later]
    have marked := World.node?_modifyNode w later (fun n => { n with wired := true }) other
    split
    · next he =>
      rw [if_pos he] at marked
      refine (congrArg (Option.map _) marked).trans ?_
      rw [Option.map_map]
      rfl
    · next he =>
      rw [if_neg he] at marked
      exact marked
  constructor
  · have found := node? condition.id
    rw [if_pos rfl, hn] at found
    refine ⟨_, found, ⟨refers.body, refers.captured, refers.newScope⟩, ?_⟩
    simp only [unheard]
    rfl
  · exact ⟨m, by rw [node?, if_neg apart, hm], holds⟩

theorem truthy_condition_leaves {n : Node} (ready : k.Ready base [] env w) (active : k.Active w)
    (hn : w.node? condition.id = some n) (refers : n.Refers k.condition) :
    (truthy (.node condition)).Leaves w fun holds t =>
      holds = (env k.condition).value.isTrue ∧ t = w.tables := by
  have forced := condition_leaves ready active hn refers false
  refine (forced.mono ?_).map Value.isTrue
  rintro v t ⟨hv, same⟩
  exact ⟨Value.isTrue_congr hv, same⟩

/-- The nodes of the assignment were built one after the other, and nothing listens yet. -/
structure Built (k : Conditional) (base : World) (condition statement : NodeRef) (w : World) :
    Prop where
  fresh : w.node? condition.id = some (base.fresh (Wiring.variableSpec k.condition k.source))
  holds : ∃ n, w.node? statement.id = some n ∧ .node condition.id ∈ n.held
  later : base.nodes.size < condition.id
  apart : condition.id ≠ statement.id

theorem Built.congr (h : k.Built base condition statement w) (nodes : w'.nodes = w.nodes) :
    k.Built base condition statement w' := by
  have same (id : NodeId) : w'.node? id = w.node? id := by rw [World.node?, nodes, World.node?]
  exact ⟨(same _).trans h.fresh, by simpa only [same] using h.holds, h.later, h.apart⟩

theorem refers_fresh (w : World) (k : Conditional) :
    (w.fresh (Wiring.variableSpec k.condition k.source)).Refers k.condition := ⟨rfl, rfl, rfl⟩

/-- After its commit the conditional assignment begins to follow its condition. -/
theorem followCondition_leaves (ready : k.Ready base [] env w) (active : k.Active w)
    (scopes : w.context.scopes = k.scope :: outer) (built : k.Built base condition statement w)
    (found : w.scopes.find? k.scope k.target = some v) (hv : v.bare = value.bare) :
    (followCondition k.commit k.scope k.rhs (.node condition)).Leaves w fun u t =>
      u = v ∧ ∀ learner,
        k.Follows base condition statement outer env value (w.withTables t learner) := by
  let w' := k.attached condition.id (k.callback outer) w
  have listened : (step (.listen condition.id (some (whenKey k.scope k.target))
      (.commitWhen k.commit k.rhs w.context.scopes))).Leaves w fun _ t => t = w'.tables := by
    rw [scopes]
    refine ⟨.str (whenKey k.scope k.target), w'.tables, w.learner, 0, rfl, fun more _ => ?_⟩
    exact listen_apply built.fresh rfl rfl active.current (k.callback outer) (performWith more)
  refine .look (Eval.Leaves.bind (.perform listened) ?_)
  rintro _ _ rfl learner
  have same : w'.scopes.find? k.scope k.target = some v := by
    rw [← found, ScopeTable.find?, ScopeTable.find?]
    exact congrArg _ (ScopeTable.binding?_listen _ _)
  have linked : k.Linked condition statement outer w' := by
    obtain ⟨m, hm, holds⟩ := built.holds
    have later : condition.id ≠ 0 := Nat.ne_of_gt (Nat.zero_lt_of_lt built.later)
    exact linked_attached built.fresh (refers_fresh base k) rfl hm holds built.apart later outer
  have follows : k.Follows base condition statement outer env value w' :=
    ⟨ready.attached built.later _, linked, v, same, hv⟩
  refine .look (.pure ⟨?_, fun learner => follows.congr rfl rfl rfl rfl⟩)
  show (w'.scopes.find? k.scope k.target).getD .void = v
  rw [same]
  rfl

/-- The conditional assignment follows its condition once it is carried out. -/
theorem whenAssign_leaves (ready : k.Ready base [] env w) (active : k.Active w)
    (scopes : w.context.scopes = k.scope :: outer) (built : k.Built base condition statement w)
    (means : k.Means base env value) :
    (whenAssign k.commit k.rhs (.node condition)).Leaves w fun v t =>
      v.bare = (selected (env k.condition).value value).bare ∧ ∀ learner,
        k.Follows base condition statement outer env (selected (env k.condition).value value)
          (w.withTables t learner) := by
  have here (perform : Task → Run Value) : commitScope k.commit perform w = (.ok k.scope, w) :=
    commitScope_apply active.current
  refine .after (fun perform => bind_of_ok (here perform)) ?_
  refine (truthy_condition_leaves ready active built.fresh (refers_fresh base k)).bind ?_
  rintro _ _ ⟨rfl, rfl⟩ learner
  have tested : k.Ready base [] env { w with learner } := ready.congr rfl rfl rfl rfl
  refine (commitWhen_leaves tested (active.congr rfl rfl) means _).bind ?_
  rintro _ _ ⟨u, exports, hu, rfl⟩ learner
  let w' : World := { w with scopes := w.scopes.assign k.scope k.target u, learner, exports }
  have committed : k.Ready base [] env w' := (ready.assign_target u).congr rfl rfl rfl rfl
  have found : w'.scopes.find? k.scope k.target = some u := by
    rw [ScopeTable.find?_assign ready.arranged.size, if_pos rfl]
  have active : k.Active w' := active.congr rfl rfl
  refine (followCondition_leaves committed active scopes (built.congr rfl) found hu).mono ?_
  rintro _ t ⟨rfl, follows⟩
  exact ⟨hu, follows⟩

/-- A world in which the conditional assignment can be made: its variables are bound plainly and not
reserved, nobody listens to them, no error is handled in the scope, there is room for the nodes of
the assignment, no corruption is left, and only nodes that exist are marked as notifying. -/
structure Admitted (k : Conditional) (env : Valuation) (w : World) : Prop where
  allowed : ∀ x ∈ k.names, w.isReserved x = false
  arranged : k.Arranged w.scopes []
  shows : w.scopes.Shows k.scope k.seen env
  depth : w.context.calls.size + 1 + max 1 k.height ≤ w.settings.maxRecursionDepth
  corruption : w.context.corruption = none
  marked : ∀ id ∈ w.context.notifying, id ≤ w.nodes.size

/-- The node of the assignment, given the node that reads the condition. -/
def statementSpec (k : Conditional) (condition : NodeRef) : NodeSpec where
  operation := Operator.whenAssign.name
  source := k.source
  inputs := [k.rhs]
  body := .whenAssign k.commit (.node condition)

section wiring

variable (k w)

/-- The node that reads the condition. -/
def conditionNode : NodeRef := (w.build (Wiring.variableSpec k.condition k.source)).1

def withCondition : World := (w.build (Wiring.variableSpec k.condition k.source)).2

def statementNode : NodeRef :=
  ((k.withCondition w).build (k.statementSpec (k.conditionNode w))).1

/-- The world in which the assignment is wired. -/
def wired : World := ((k.withCondition w).build (k.statementSpec (k.conditionNode w))).2

theorem built_wired : k.Built w (k.conditionNode w) (k.statementNode w) (k.wired w) where
  fresh := by
    have built := World.node?_build w (Wiring.variableSpec k.condition k.source)
    exact (World.Prolongs.build (k.withCondition w) _).node? built
  holds := by
    have built := (k.withCondition w).node?_build (k.statementSpec (k.conditionNode w))
    exact ⟨_, built, by simp [World.fresh, statementSpec, Node.held, Body.held, Value.held]⟩
  later := Nat.lt_succ_self _
  apart := by
    show w.nodes.size + 1 ≠ (w.nodes.push _).size + 1
    simp

/-- The program is to run the statement and the assignments, both of them while the statement is
kept. -/
theorem follow_apply (steps : List (String × Datum)) (perform : Task → Run Value) :
    k.follow steps perform w = holding [.node (k.statementNode w).id] (do
      let _ ← Script.run k.scope [.node (k.statementNode w)]
      assignAll k.scope steps) perform (k.wired w) := rfl

end wiring

/-- The world in which the assignment is wired and kept. -/
def keeping (k : Conditional) (w : World) : World :=
  { k.wired w with inUse := [.node (k.statementNode w).id] ++ w.inUse }

theorem Admitted.ready (h : k.Admitted env w) : k.Ready w [] env (k.keeping w) where
  prolongs := by
    have first := World.Prolongs.build w (Wiring.variableSpec k.condition k.source)
    have second := World.Prolongs.build (k.withCondition w) (k.statementSpec (k.conditionNode w))
    exact first.trans second
  settings := rfl
  allowed := h.allowed
  arranged := h.arranged
  shows := h.shows

theorem Admitted.idle (h : k.Admitted env w) :
    k.Idle (k.conditionNode w) (k.statementNode w) (k.keeping w) where
  depth := h.depth
  corruption := h.corruption
  unmarked := by
    have fresh : w.nodes.size + 1 ∉ w.context.notifying := fun hm =>
      absurd (h.marked _ hm) (Nat.not_succ_le_self _)
    intro marked
    exact fresh (List.contains_iff_mem.mp marked)
  kept := by simp [World.isKept, keeping]

/-- The script of the conditional assignment carries it out. -/
theorem Admitted.start_leaves (h : k.Admitted env w) (means : k.Means w env value) :
    (Script.run k.scope [.node (k.statementNode w)]).Leaves (k.keeping w) fun _ t => ∀ learner,
      k.Follows w (k.conditionNode w) (k.statementNode w) w.context.scopes env
        (selected (env k.condition).value value) ((k.keeping w).withTables t learner) := by
  have found := (k.withCondition w).node?_build (k.statementSpec (k.conditionNode w))
  have room : (k.keeping w).context.calls.size < (k.keeping w).settings.maxRecursionDepth := by
    have := h.idle.depth
    omega
  refine Script.run_built_leaves found rfl rfl room h.corruption ?_
  let node := k.statementNode w
  let executing := (Script.entered (k.keeping w) k.scope node).entering node.id
  have ready : k.Ready w [] env executing := h.ready.congr rfl rfl rfl rfl
  have active : k.Active executing := (h.idle.running node).toActive
  have built : k.Built w (k.conditionNode w) (k.statementNode w) executing :=
    (k.built_wired w).congr rfl
  refine (whenAssign_leaves ready active rfl built means).mono ?_
  rintro v t ⟨hv, follows⟩
  have sound := means.isError_if (env k.condition).value.isTrue
  have concrete := means.isNode_if (env k.condition).value.isTrue
  exact ⟨(Value.isError_congr hv).trans sound, (Value.isNode_congr hv).trans concrete,
    fun learner => (follows learner).congr rfl rfl rfl rfl⟩

/-- The program ends, and then the assignment follows its condition. -/
theorem Admitted.follow_leaves {value : Valuation → Value} {steps : List (String × Datum)}
    (h : k.Admitted env w) (names : ∀ step ∈ steps, step.1 ∈ k.seen)
    (means : k.MeansThroughout w value env steps) :
    ∃ w', (k.follow steps).Ends w (.ok ()) w' ∧
      k.Follows w (k.conditionNode w) (k.statementNode w) w.context.scopes (env.after steps)
        (k.outcome value env (selected (env k.condition).value (value env)) steps) w' := by
  have begun := h.start_leaves (means [] (List.nil_prefix))
  have ran : (do
      let _ ← Script.run k.scope [.node (k.statementNode w)]
      assignAll k.scope steps : Eval Unit).Leaves (k.keeping w) fun _ t => ∀ learner,
        k.Follows w (k.conditionNode w) (k.statementNode w) w.context.scopes (env.after steps)
          (k.outcome value env (selected (env k.condition).value (value env)) steps)
          ((k.keeping w).withTables t learner) := by
    refine begun.bind fun _ t follows learner => ?_
    have idle : k.Idle (k.conditionNode w) (k.statementNode w)
      ((k.keeping w).withTables t learner) :=
      ⟨h.idle.depth, h.idle.corruption, h.idle.unmarked, h.idle.kept⟩
    exact (follows learner).run_leaves idle names means
  obtain ⟨_, t, learner, fuel, follows, run⟩ := Eval.Leaves.holding _ ran
  refine ⟨(k.wired w).withTables t learner, ⟨fuel, ?_⟩, (follows learner).congr rfl rfl rfl rfl⟩
  exact (k.follow_apply w steps (performWith fuel)).trans (run fuel (Nat.le_refl fuel))

/-- Other variables leave the target alone. -/
theorem outcome_of_unassigned {value : Valuation → Value} {steps : List (String × Datum)}
    (h : ∀ step ∈ steps, step.1 ≠ k.condition) (env : Valuation) (current : Value) :
    k.outcome value env current steps = current := by
  induction steps generalizing env with
  | nil => rfl
  | cons step rest ih =>
    have other : step.1 ≠ k.condition := h step List.mem_cons_self
    rw [outcome, if_neg other]
    exact ih (fun step hs => h step (List.mem_cons_of_mem _ hs)) _

/-- The last assignment of the condition decides. -/
theorem outcome_of_last {value : Valuation → Value} {later : List (String × Datum)}
    (h : ∀ step ∈ later, step.1 ≠ k.condition) (before : List (String × Datum)) (d : Datum)
    (env : Valuation) (current : Value) :
    k.outcome value env current (before ++ (k.condition, d) :: later) =
      selected d.value (value (env.after (before ++ [(k.condition, d)]))) := by
  induction before generalizing env current with
  | nil =>
    rw [List.nil_append, outcome, if_pos rfl]
    exact outcome_of_unassigned h _ _
  | cons step rest ih =>
    rw [List.cons_append, outcome]
    exact ih _ _

end Conditional

section target

variable {k : Conditional} {w : World} {env : Valuation}

/-- A conditional assignment that is kept follows its condition. After every run of assignments the
target has what the right-hand side meant when the condition was last assigned, or void if the
condition was not true then; before the first of them, what the assignment itself has found. -/
theorem target_follows_condition {value : Valuation → Value} {steps : List (String × Datum)}
    (admitted : k.Admitted env w) (names : ∀ step ∈ steps, step.1 ∈ k.seen)
    (means : k.MeansThroughout w value env steps) :
    ∃ w' v, (k.follow steps).Ends w (.ok ()) w' ∧ w'.scopes.find? k.scope k.target = some v ∧
      ((∀ step ∈ steps, step.1 ≠ k.condition) →
        v.bare = (if (env k.condition).value.isTrue then value env else .void).bare) ∧
      ∀ before d later, steps = before ++ (k.condition, d) :: later →
        (∀ step ∈ later, step.1 ≠ k.condition) →
        v.bare = (if d.value.isTrue then value (env.after (before ++ [(k.condition, d)]))
          else .void).bare := by
  obtain ⟨w', ends, follows⟩ := admitted.follow_leaves names means
  obtain ⟨v, found, hv⟩ := follows.holds
  refine ⟨w', v, ends, found, fun unassigned => ?_, ?_⟩
  · rw [hv, Conditional.outcome_of_unassigned unassigned]
    rfl
  · rintro before d later rfl last
    rw [hv, Conditional.outcome_of_last last]
    rfl

end target

/-- A scope with a flag that is true and a number. -/
def flaggedScope : World :=
  { scopes := #[{
      name := "script", parent := none
      bindings := [("c", { value := .bool true }), ("y", { value := .int 1 })] }] }

/-- Besides, a node reads the number. -/
def flagged : World := (flaggedScope.build (Wiring.variableSpec "y" Segment.unknown)).2

/-- The number is copied while the flag is true. -/
def copying : Conditional where
  scope := 0
  target := "w"
  condition := "c"
  rhs := .node (flaggedScope.build (Wiring.variableSpec "y" Segment.unknown)).1
  reads := ["y"]
  height := 1
  apart := by decide

def flag (b : Bool) : Datum := ⟨.bool b, rfl, rfl⟩

def number (n : Int64) : Datum := ⟨.int n, rfl, rfl⟩

def flaggedValues : Valuation := fun x => if x = "c" then flag true else number 1

theorem copying_admitted : copying.Admitted flaggedValues flagged where
  allowed := by decide
  arranged := by
    refine ⟨by decide, rfl, ?_, ?_, rfl⟩
    · intro x hx b hb
      simp only [Conditional.names, Conditional.seen, copying, List.mem_cons, List.not_mem_nil,
        or_false] at hx
      rcases hx with rfl | rfl | rfl <;> cases hb <;> exact ⟨rfl, rfl, rfl⟩
    · intro x hx _
      simp only [Conditional.names, Conditional.seen, copying, List.mem_cons, List.not_mem_nil,
        or_false] at hx
      rcases hx with rfl | rfl | rfl <;> rfl
  shows := by
    intro x hx
    simp only [Conditional.seen, copying, List.mem_cons, List.not_mem_nil, or_false] at hx
    rcases hx with rfl | rfl <;> exact ⟨_, rfl, rfl⟩
  depth := by decide
  corruption := rfl
  marked := nofun

theorem copying_means (env : Valuation) : copying.Means flagged env (env "y").value := by
  have wired : (Formula.reference "y").Wired flagged copying.rhs :=
    ⟨_, _, rfl, flaggedScope.node?_build _, rfl, rfl, rfl⟩
  exact .of_formula (.reference "y") wired (List.Subset.refl _) (Nat.le_refl 1) (by decide) rfl
    (env "y").sound

/-- The flag goes down, the number changes, the flag goes up, and the number changes again. -/
def flagChanges : List (String × Datum) :=
  [("c", flag false), ("y", number 2), ("c", flag true), ("y", number 3)]

theorem copying_follows_flag :
    ∃ w' v, (copying.follow flagChanges).Ends flagged (.ok ()) w' ∧
      w'.scopes.find? 0 "w" = some v ∧ v.bare = .int 2 := by
  have means : copying.MeansThroughout flagged (fun env => (env "y").value) flaggedValues
    flagChanges := fun before _ => copying_means _
  obtain ⟨w', v, ends, found, -, last⟩ :=
    target_follows_condition copying_admitted (by decide) means
  refine ⟨w', v, ends, found, ?_⟩
  exact last [("c", flag false), ("y", number 2)] (flag true) [("y", number 3)] rfl (by decide)

/-- Runs the conditional assignment and then assigns to variables, while nothing keeps the
assignment. -/
def Conditional.release (k : Conditional) (steps : List (String × Datum)) : Eval Unit := do
  let condition ← Wiring.reference k.condition k.source
  let _ ← (k.assignment condition).runIn .whenAssign k.scope
  assignAll k.scope steps

def released : Conditional where
  scope := 0
  target := "w"
  condition := "c"
  rhs := .int 5
  reads := []
  height := 0
  apart := by decide

/-- What the script of the assignment leaves. -/
def releasedTables : Tables where
  nodes := #[
    { flaggedScope.fresh (Wiring.variableSpec "c" Segment.unknown) with
      wired := true
      listeners := ⟨[("when-0-w", released.callback [])], 1⟩ },
    (released.withCondition flaggedScope).fresh
      (released.statementSpec (released.conditionNode flaggedScope))]
  scopes := #[{
    name := "script", parent := none
    bindings := [("c", { value := .bool true }), ("y", { value := .int 1 }),
      ("w", { value := .int 5 })]
    listeners := [("c", [("relay-1", .relay 1)])] }]
  exports := []

def releasedWorld (learner : Learner) : World :=
  (released.wired flaggedScope).withTables releasedTables learner

def startReleased : Eval Value := Script.run 0 [.node (released.statementNode flaggedScope)]

theorem startReleased_run :
    startReleased.run 8 (released.wired flaggedScope) =
      (.ok (.int 5), releasedWorld (startReleased.run 8 (released.wired flaggedScope)).2.learner) := by
  cbv

theorem releasedStep_leaves (learner : Learner) :
    (Assignment.runIn { target := "c", value := .bool false } .assignment 0).Leaves
      (releasedWorld learner) fun _ t =>
        t.scopes.find? 0 "c" = some (.bool false) ∧ t.scopes.find? 0 "w" = some (.int 5) := by
  refine Assignment.runIn_leaves (d := flag false) (Nat.zero_lt_succ _) rfl rfl
    fun u learner' forced _ => ?_
  obtain rfl : Value.bool false = u := by
    have same := congrFun (congrFun forced fun _ w => (.error .exhausted, w)) {}
    cases same
    rfl
  refine bind_released_leaves (Nat.zero_lt_succ _) ?_ rfl ?_ ⟨rfl, rfl, rfl⟩
  · rintro b hb
    cases hb
    exact ⟨rfl, rfl, rfl⟩
  · rw [Bool.not_eq_true]
    cbv

/-- The relay of the condition holds nothing, so that an assignment which nothing keeps does not
follow its condition. -/
theorem released_assignment_leaves_target :
    ∃ w', (released.release [("c", flag false)]).Ends flaggedScope (.ok ()) w' ∧
      w'.scopes.find? 0 "c" = some (.bool false) ∧ w'.scopes.find? 0 "w" = some (.int 5) := by
  have started : startReleased.Leaves (released.wired flaggedScope) fun _ t => t = releasedTables :=
    .of_ends (Protocol.run 0 _).routine rfl ⟨8, startReleased_run⟩
  have ran : (do let _ ← startReleased; assignAll 0 [("c", flag false)] : Eval Unit).Leaves
      (released.wired flaggedScope) fun _ t =>
        t.scopes.find? 0 "c" = some (.bool false) ∧ t.scopes.find? 0 "w" = some (.int 5) := by
    refine started.bind ?_
    rintro _ _ rfl learner
    exact (releasedStep_leaves learner).bind fun _ _ hq _ => .pure hq
  obtain ⟨_, t, learner, fuel, ⟨down, left⟩, run⟩ := ran
  exact ⟨_, ⟨fuel, run fuel (Nat.le_refl fuel)⟩, down, left⟩

end ReactiveScript
