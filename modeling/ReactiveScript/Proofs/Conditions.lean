import ReactiveScript.Proofs.Formulas
import ReactiveScript.Proofs.Holders
import ReactiveScript.Proofs.Rebinding

/-!
# Conditional assignments

A conditional assignment whose condition is a variable listens to the node that reads the variable,
and this node listens to the variable. When the variable is bound, the relay of the node is called,
which notifies the node as long as the assignment, which holds the node, is kept; the node delivers
the value of the variable, and the assignment is carried out again. So each binding of the condition
binds the target: to the present value of the right-hand side if the condition is true, and to void
otherwise. A binding of another variable calls nothing.
-/

namespace ReactiveScript

open Eval

/-- A variable gets another value. -/
def Valuation.update (env : Valuation) (x : String) (d : Datum) : Valuation :=
  fun y => if x = y then d else env y

namespace ScopeTable

variable {t : ScopeTable} {s : ScopeId} {names : List String} {env : Valuation} {x : String}
  {v : Value} {d : Datum}

theorem Shows.mono {names' : List String} (h : t.Shows s names env) (sub : names' ⊆ names) :
    t.Shows s names' env := fun x hx => h x (sub hx)

theorem Shows.assign (hs : s < t.size) (h : t.Shows s names env) (hv : v.bare = d.value.bare) :
    (t.assign s x v).Shows s names (env.update x d) := by
  intro y hy
  rw [binding?_assign hs]
  by_cases he : x = y
  · refine ⟨mergeBinding (t.binding? s x) v {}, by rw [if_pos he], ?_⟩
    rw [Valuation.update, if_pos he]
    exact hv
  · rw [Valuation.update, if_neg he, if_neg he]
    exact h y hy

theorem Shows.assign_of_not_mem (hs : s < t.size) (h : t.Shows s names env) (hx : x ∉ names) :
    (t.assign s x v).Shows s names env := by
  intro y hy
  have ne : x ≠ y := fun he => hx (he ▸ hy)
  rw [binding?_assign hs, if_neg ne]
  exact h y hy

end ScopeTable

/-- An assignment in a scope under a condition, which is a variable. The right-hand side reads
variables other than the target; its nodes stand above each other up to a height. -/
structure Conditional where
  scope : ScopeId
  target : String
  condition : String
  rhs : Value
  reads : List String
  height : Nat
  exported : Bool := false
  source : Segment := Segment.unknown
  apart : target ∉ condition :: reads

namespace Conditional

/-- The variables on which it depends what is assigned. -/
def seen (k : Conditional) : List String := k.condition :: k.reads

def names (k : Conditional) : List String := k.target :: k.seen

def commit (k : Conditional) : Commit where
  target := k.target
  options := {}
  exported := k.exported
  source := k.rhs.asNode?.map NodeRef.id

/-- What is done with the values of the condition, in the scopes that are active besides. -/
def callback (k : Conditional) (outer : ScopeStack) : Callback :=
  .commitWhen k.commit k.rhs (k.scope :: outer)

/-- Where the scope is current and the variables have the values of a valuation, the right-hand side
is forced to a value that is no error and no node, whichever nodes were built meanwhile. -/
structure Means (k : Conditional) (base : World) (env : Valuation) (v : Value) : Prop where
  sound : v.isError = false
  concrete : v.isNode = false
  gives : ∀ w, base.Prolongs w → w.settings = base.settings → w.Admits k.height →
    w.context.current? = some k.scope → w.scopes.Shows k.scope k.reads env →
    ∃ seen, (forceAssigned k.rhs).Gives w (.ok v) seen

section means

variable {k : Conditional} {base : World} {env : Valuation} {v : Value}

theorem Means.isError_if (means : k.Means base env v) (holds : Bool) :
    Value.isError (if holds then v else .void) = false := by
  cases holds with
  | false => rfl
  | true => exact means.sound

theorem Means.isNode_if (means : k.Means base env v) (holds : Bool) :
    Value.isNode (if holds then v else .void) = false := by
  cases holds with
  | false => rfl
  | true => exact means.concrete

end means

/-- The variables are bound plainly, and no callback is registered on them but some on the
condition. No error is handled. -/
structure Arranged (k : Conditional) (t : ScopeTable) (heard : List Callback) : Prop where
  size : k.scope < t.size
  handler : t.handler? k.scope = none
  plain : ∀ x ∈ k.names, ∀ b, t.binding? k.scope x = some b → b.IsPlain
  unheard : ∀ x ∈ k.names, x ≠ k.condition → t.registered (t.targetOf k.scope x) x = []
  heard : (t.registered (t.targetOf k.scope k.condition) k.condition).values = heard

variable {k : Conditional} {t : ScopeTable} {heard : List Callback}

theorem Arranged.assign (h : k.Arranged t heard) (x : String) (v : Value) :
    k.Arranged (t.assign k.scope x v) heard := by
  constructor
  · rw [ScopeTable.size_assign]
    exact h.size
  · rw [ScopeTable.handler?_assign]
    exact h.handler
  · intro y hy b hb
    rw [ScopeTable.binding?_assign h.size] at hb
    split at hb
    · next he =>
      subst he
      cases hb
      exact Binding.isPlain_merge (h.plain x hy) v
    · exact h.plain y hy b hb
  · intro y hy ne
    rw [ScopeTable.targetOf_assign h.size, ScopeTable.registered_assign]
    exact h.unheard y hy ne
  · rw [ScopeTable.targetOf_assign h.size, ScopeTable.registered_assign]
    exact h.heard

theorem Arranged.listen (h : k.Arranged t []) (key : String) (callback : Callback) :
    k.Arranged (t.modify (t.targetOf k.scope k.condition) fun scope =>
      scope.listen k.condition key callback) [callback] := by
  constructor
  · rw [Array.size_modify]
    exact h.size
  · rw [ScopeTable.handler?_modify (f := fun scope => scope.listen k.condition key callback)
      (fun _ => rfl) (fun _ => rfl)]
    exact h.handler
  · intro x hx b hb
    rw [ScopeTable.binding?_listen] at hb
    exact h.plain x hx b hb
  · intro x hx ne
    rw [ScopeTable.targetOf_listen, ScopeTable.registered_listen, if_neg fun hn => ne hn.2.1.symm]
    exact h.unheard x hx ne
  · have nothing : t.registered (t.targetOf k.scope k.condition) k.condition = [] :=
      List.map_eq_nil_iff.mp h.heard
    rw [ScopeTable.targetOf_listen, ScopeTable.registered_listen,
      if_pos ⟨rfl, rfl, ScopeTable.targetOf_lt_size h.size _⟩, nothing]
    rfl

/-- The tables of a world as the conditional assignment needs them. -/
structure Ready (k : Conditional) (base : World) (heard : List Callback) (env : Valuation)
    (w : World) : Prop where
  prolongs : base.Prolongs w
  settings : w.settings = base.settings
  allowed : ∀ x ∈ k.names, w.isReserved x = false
  arranged : k.Arranged w.scopes heard
  shows : w.scopes.Shows k.scope k.seen env

/-- The scope is current, and the nodes of the assignment can be executed. -/
structure Active (k : Conditional) (w : World) : Prop where
  current : w.context.current? = some k.scope
  depth : w.context.calls.size + max 1 k.height ≤ w.settings.maxRecursionDepth
  corruption : w.context.corruption = none

variable {base w w' : World} {env : Valuation} {v : Value} {d : Datum}

theorem Ready.congr (h : k.Ready base heard env w) (nodes : w'.nodes = w.nodes)
    (scopes : w'.scopes = w.scopes) (settings : w'.settings = w.settings)
    (reserved : w'.reserved = w.reserved) : k.Ready base heard env w' where
  prolongs := h.prolongs.trans (.of_nodes nodes)
  settings := settings.trans h.settings
  allowed x hx := by
    rw [World.isReserved, reserved]
    exact h.allowed x hx
  arranged := scopes ▸ h.arranged
  shows := scopes ▸ h.shows

theorem Active.congr (h : k.Active w) (context : w'.context = w.context)
    (settings : w'.settings = w.settings) : k.Active w' where
  current := context ▸ h.current
  depth := by
    rw [context, settings]
    exact h.depth
  corruption := context ▸ h.corruption

theorem Ready.admits (ready : k.Ready base heard env w) (active : k.Active w) {height : Nat}
    (h : height ≤ max 1 k.height) : w.Admits height where
  depth := Nat.le_trans (Nat.add_le_add_left h _) active.depth
  handler scope hs := by
    cases active.current.symm.trans hs
    exact ready.arranged.handler
  corruption := active.corruption

/-- The target gets another value. -/
theorem Ready.assign_target (h : k.Ready base heard env w) (v : Value) :
    k.Ready base heard env { w with scopes := w.scopes.assign k.scope k.target v } where
  prolongs := h.prolongs
  settings := h.settings
  allowed := h.allowed
  arranged := h.arranged.assign k.target v
  shows := h.shows.assign_of_not_mem h.arranged.size k.apart

/-- A variable that the assignment depends on gets another value. -/
theorem Ready.assign (h : k.Ready base heard env w) {x : String} (hv : v.bare = d.value.bare) :
    k.Ready base heard (env.update x d) { w with scopes := w.scopes.assign k.scope x v } where
  prolongs := h.prolongs
  settings := h.settings
  allowed := h.allowed
  arranged := h.arranged.assign x v
  shows := h.shows.assign h.arranged.size hv

end Conditional

section deliveries

variable {k : Conditional} {base w : World} {heard : List Callback} {env : Valuation}
  {v value : Value} {d : Datum}

theorem Eval.truthy_nodeFree (h : v.NodeFree) : truthy v = pure v.isTrue := by
  obtain ⟨u, forced, hb⟩ := force_nodeFree false v h 1
  rw [truthy, fix, forced, ← Value.isTrue_congr hb]
  rfl

/-- A name without callbacks is only bound. -/
theorem Eval.bind_unheard_leaves {s : ScopeId} {name : String}
    {q : Value → Tables → Prop} (hs : s < w.scopes.size)
    (plain : ∀ b, w.scopes.binding? s name = some b → b.IsPlain)
    (unheard : w.scopes.registered (w.scopes.targetOf s name) name = [])
    (hq : q v { w.tables with scopes := w.scopes.assign s name v }) :
    (Eval.bind s name v {}).Leaves w q := by
  refine bindName_leaves hs plain ?_
  rw [unheard]
  exact .pure hq

/-- A name whose only callback is the relay of a node is only bound if nothing holds the node
then. -/
theorem Eval.bind_released_leaves {s : ScopeId} {name : String} {id : NodeId}
    {q : Value → Tables → Prop} (hs : s < w.scopes.size)
    (plain : ∀ b, w.scopes.binding? s name = some b → b.IsPlain)
    (heard : (w.scopes.registered (w.scopes.targetOf s name) name).values = [.relay id])
    (released : ¬ World.isHeld
      { w with
        scopes := w.scopes.assign s name v
        inUse := v.held ++ ((w.previous s name).held ++ w.inUse) } (.node id))
    (hq : q v { w.tables with scopes := w.scopes.assign s name v }) :
    (Eval.bind s name v {}).Leaves w q := by
  refine bindName_leaves hs plain ?_
  rw [heard]
  refine deliverAll_leaves (.look ?_)
  have nothing : v.held ++ heldByCallbacks [.relay id] = v.held := List.append_nil _
  rw [nothing, if_neg released]
  exact .pure hq

namespace Conditional

/-- What is assigned, given the value of the condition and that of the right-hand side. -/
def selected (condition value : Value) : Value := if condition.isTrue then value else .void

/-- The target is bound to a value up to tags; besides, something may be published. -/
def Assigns (k : Conditional) (w : World) (v : Value) (t : Tables) : Prop :=
  ∃ u exports, u.bare = v.bare ∧
    t = { w.tables with scopes := w.scopes.assign k.scope k.target u, exports }

theorem forceAssigned_leaves (ready : k.Ready base heard env w) (active : k.Active w)
    (means : k.Means base env value) (holds : Bool) :
    (forceAssigned (if holds then k.rhs else .void)).Leaves w fun u t =>
      u.bare = (if holds then value else .void).bare ∧ t = w.tables := by
  cases holds with
  | false => exact .of_apply ⟨rfl, rfl⟩ fun _ => rfl
  | true =>
    have plain : (forceAssigned k.rhs).Plain := .look fun _ _ => (Protocol.force _ _ _).routine
    have sees : w.scopes.Shows k.scope k.reads env :=
      ready.shows.mono (List.subset_cons_self _ _)
    obtain ⟨seen, gives⟩ := means.gives w ready.prolongs ready.settings
      (ready.admits active (Nat.le_max_right ..)) active.current sees
    exact .of_gives plain gives fun u hu => ⟨hu, rfl⟩

/-- The assignment is carried out in its scope. -/
theorem commitWhen_leaves (ready : k.Ready base heard env w) (active : k.Active w)
    (means : k.Means base env value) (holds : Bool) :
    (commitWhen k.commit holds k.rhs).Leaves w fun _ =>
      k.Assigns w (if holds then value else .void) := by
  have forced := forceAssigned_leaves ready active means holds
  have sound (u : Value) (hu : u.bare = (if holds then value else .void).bare) :
      u.isError = false := (Value.isError_congr hu).trans (means.isError_if holds)
  have target : k.target ∈ k.names := List.mem_cons_self
  have other : k.target ≠ k.condition := fun he => k.apart (he ▸ List.mem_cons_self)
  refine commit_leaves rfl (ready.allowed _ target) active.current forced sound ?_
  intro u hu learner
  refine bind_unheard_leaves (w := { w with learner }) ready.arranged.size
    (ready.arranged.plain _ target) (ready.arranged.unheard _ target other) ?_
  by_cases exported : k.commit.exported
  · rw [if_pos exported]
    exact ⟨u, _, hu, rfl⟩
  · rw [if_neg exported]
    exact ⟨u, _, hu, rfl⟩

/-- A value of the condition is delivered in the scopes that were active at the assignment. -/
theorem deliver_leaves (ready : k.Ready base heard env w) (active : k.Active w)
    (means : k.Means base env value) (hv : v.bare = d.value.bare)
    (outer : ScopeStack) :
    (deliver (k.callback outer) v).Leaves w fun _ => k.Assigns w (selected d.value value) := by
  let inside := w.inScopes (k.scope :: outer)
  have eq : inside = w.modifyContext fun c => { c with scopes := k.scope :: outer ++ c.scopes } :=
    World.inScopes_eq _ w
  have nodes : inside.nodes = w.nodes := by rw [eq]; rfl
  have scopes : inside.scopes = w.scopes := by rw [eq]; rfl
  have readyInside : k.Ready base heard env inside :=
    ready.congr nodes scopes (by rw [eq]; rfl) (by rw [eq]; rfl)
  have activeInside : k.Active inside := by
    rw [eq]
    exact ⟨rfl, active.depth, active.corruption⟩
  have committed := commitWhen_leaves readyInside activeInside means d.value.isTrue
  have tested : truthy v = pure d.value.isTrue := by
    rw [truthy_nodeFree (.of_bare hv d.settled), Value.isTrue_congr hv]
  have delivered : deliver (k.callback outer) v =
      withScopes (k.scope :: outer) (commitWhen k.commit d.value.isTrue k.rhs) := by
    rw [callback, deliver, tested]
    rfl
  have same : k.Assigns inside = k.Assigns w := by
    funext v t
    simp only [Assigns, World.tables, nodes, scopes]
  rw [delivered]
  exact .withScopes _ (same ▸ committed)

/-- The node that reads the condition delivers to the assignment, and the node of the assignment
holds it. -/
structure Linked (k : Conditional) (condition statement : NodeRef) (outer : ScopeStack) (w : World) :
    Prop where
  refers : ∃ n, w.node? condition.id = some n ∧ n.Refers k.condition ∧
    n.listeners.ordered = [k.callback outer]
  holds : ∃ n, w.node? statement.id = some n ∧ .node condition.id ∈ n.held

variable {condition statement : NodeRef} {outer : ScopeStack}

theorem Linked.prolong {w' : World} (h : k.Linked condition statement outer w)
    (more : w.Prolongs w') : k.Linked condition statement outer w' := by
  obtain ⟨⟨n, hn, refers⟩, m, hm, holds⟩ := h
  exact ⟨⟨n, more.node? hn, refers⟩, m, more.node? hm, holds⟩

theorem Linked.congr {w' : World} (h : k.Linked condition statement outer w)
    (nodes : w'.nodes = w.nodes) : k.Linked condition statement outer w' :=
  h.prolong (.of_nodes nodes)

/-- Besides, the node of the assignment is kept, and the node that reads the condition is not
notifying. -/
structure Running (k : Conditional) (condition statement : NodeRef) (w : World) : Prop extends
    k.Active w where
  unmarked : ¬ w.context.isNotifying condition.id
  kept : w.isKept (.node statement.id)

theorem Running.congr {w' : World} (h : k.Running condition statement w)
    (context : w'.context = w.context) (settings : w'.settings = w.settings)
    (registers : w'.registers = w.registers) (inUse : w.inUse ⊆ w'.inUse) :
    k.Running condition statement w' where
  toActive := h.toActive.congr context settings
  unmarked := context ▸ h.unmarked
  kept := by
    have kept := h.kept
    simp only [World.isKept, Bool.or_eq_true, List.contains_iff_mem, registers] at kept ⊢
    exact kept.imp_left fun hm => inUse hm

/-- The node that reads the condition is forced to its value. -/
theorem condition_leaves (ready : k.Ready base heard env w) (active : k.Active w)
    {n : Node} (hn : w.node? condition.id = some n)
    (refers : n.Refers k.condition) (parallel : Bool) :
    (force parallel (.node condition) 1).Leaves w fun v t =>
      v.bare = (env k.condition).value.bare ∧ t = w.tables := by
  obtain ⟨b, bound, alike⟩ := ready.shows k.condition List.mem_cons_self
  have gives : (force parallel (.node condition) 1).Gives w (.ok (env k.condition).value)
      (n.observation (.ok (env k.condition).value)) :=
    reference_gives hn refers active.current bound alike (env k.condition).settled
      (ready.admits active (Nat.le_max_left ..)) Nat.one_ne_zero
  exact .of_gives (Protocol.force _ _ _).routine gives fun u hu => ⟨hu, rfl⟩

theorem announce_leaves (ready : k.Ready base heard env w) (active : k.Active w)
    (linked : k.Linked condition statement outer w) (means : k.Means base env value) :
    (announce condition.id).Leaves w fun _ =>
      k.Assigns w (selected (env k.condition).value value) := by
  obtain ⟨n, hn, refers, ordered⟩ := linked.refers
  have forced := condition_leaves ready active hn refers w.settings.parallel
  rw [force, if_neg Nat.one_ne_zero] at forced
  have listeners : w.listenersOf condition.id = [k.callback outer] := by
    rw [World.listenersOf, hn, ← ordered]
    rfl
  refine .look (forced.bind ?_)
  rintro v _ ⟨hv, rfl⟩ learner
  have delivered : (deliverAll v [k.callback outer]).Leaves { w with learner } fun _ =>
      k.Assigns w (selected (env k.condition).value value) := by
    let delivering : World :=
      { w with learner, inUse := (v.held ++ heldByCallbacks [k.callback outer]) ++ w.inUse }
    have ready : k.Ready base heard env delivering := ready.congr rfl rfl rfl rfl
    have active : k.Active delivering := active.congr rfl rfl
    exact deliverAll_leaves (deliver_leaves ready active means hv outer)
  refine .look ?_
  rw [show World.listenersOf (w.withTables w.tables learner) condition.id = [k.callback outer] from
    listeners]
  exact delivered.bind fun _ _ assigns _ => .pure assigns

/-- The relay of the node that reads the condition finds the node held. -/
theorem relay_leaves (ready : k.Ready base heard env w)
    (running : k.Running condition statement w) (linked : k.Linked condition statement outer w)
    (means : k.Means base env value) (v : Value) :
    (deliver (.relay condition.id) v).Leaves w fun _ =>
      k.Assigns w (selected (env k.condition).value value) := by
  obtain ⟨n, hn, -⟩ := linked.refers
  obtain ⟨m, hm, holds⟩ := linked.holds
  have found : condition.id - 1 < w.nodes.size := by
    simp only [World.node?] at hn
    split at hn
    · cases hn
    · exact (Array.getElem?_eq_some_iff.mp hn).1
  have held : w.isHeld (.node condition.id) := World.isHeld_of_kept_node running.kept hm holds found
  let notified := World.enterNotify { w with inUse := .node condition.id :: w.inUse } condition.id
  have ready : k.Ready base heard env notified := ready.congr rfl rfl rfl rfl
  have active : k.Active notified := ⟨running.current, running.depth, running.corruption⟩
  have linked : k.Linked condition statement outer notified := linked.congr rfl
  have announced := announce_leaves ready active linked means
  refine .look ?_
  rw [if_pos held]
  exact .holding _ (.perform (.whileNotifying running.unmarked announced))

/-- The right-hand side means what a formula means that it stands for. -/
theorem Means.of_formula (f : Formula) (wired : f.Wired base k.rhs) (reads : f.names ⊆ k.reads)
    (height : f.height ≤ k.height) (depth : base.settings.assignmentFixDepth ≠ 0)
    (result : (f.instantiate env).eval = .ok value) (sound : value.isError = false) :
    k.Means base env value where
  sound := sound
  concrete := Value.NodeFree.isNode (Expression.settled_eval (f.instantiate env) value result)
  gives w prolongs settings admits current shows := by
    obtain ⟨seen, gives⟩ :=
      f.force_gives (wired.prolong prolongs) (admits.mono height) current (shows.mono reads)
    have deep : w.settings.assignmentFixDepth ≠ 0 := by rwa [settings]
    have forced := gives w.settings.parallel _ deep
    rw [result] at forced
    exact ⟨seen, forced⟩

end Conditional
end deliveries
end ReactiveScript
