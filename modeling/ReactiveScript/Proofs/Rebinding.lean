import ReactiveScript.Proofs.FailedAssignments
import ReactiveScript.Proofs.Outcomes
import ReactiveScript.Proofs.Views

/-!
# Evaluations that rebind

An evaluation that succeeds may leave nodes, scopes and what is published changed and, besides,
nothing but what was learnt. This is put together from the parts of an evaluation. A commit of a
plain assignment changes one binding, where its target is resolved, and then does what the callbacks
of the target do; and a node is executed with what its body leaves behind.
-/

namespace ReactiveScript

open Eval

variable {α β : Type}

/-- What assignments change in a world. -/
structure Tables where
  nodes : Array Node
  scopes : ScopeTable
  exports : OrderedMap Value

def World.tables (w : World) : Tables := ⟨w.nodes, w.scopes, w.exports⟩

def World.withTables (w : World) (t : Tables) (learner : Learner) : World :=
  { w with nodes := t.nodes, scopes := t.scopes, exports := t.exports, learner }

/-- The evaluation succeeds and leaves tables of which something holds, with the result; besides,
nothing is changed but what is learnt. -/
def Eval.Leaves (x : Eval α) (w : World) (q : α → Tables → Prop) : Prop :=
  ∃ a t learner fuel, q a t ∧ ∀ more ≥ fuel, x.run more w = (.ok a, w.withTables t learner)

/-- Leaving a notification undoes entering it. -/
theorem Context.leaveNotify_enterNotify {c : Context} {id : NodeId} (h : ¬ c.isNotifying id) :
    (c.enterNotify id).leaveNotify id = c := by
  have fresh : id ∉ c.notifying := by simpa [isNotifying] using h
  have kept : c.notifying.filter (· != id) = c.notifying :=
    List.filter_eq_self.mpr fun other ho => by simpa using ne_of_mem_of_not_mem ho fresh
  simp [enterNotify, leaveNotify, unmark, kept]

namespace Eval.Leaves

variable {x : Eval α} {f : α → Eval β} {w : World} {a : α} {t : Tables} {learner : Learner}
  {q : α → Tables → Prop} {r : β → Tables → Prop}

theorem of_apply (hq : q a t) (h : ∀ perform, x perform w = (.ok a, w.withTables t learner)) :
    x.Leaves w q := ⟨a, t, learner, 0, hq, fun _ _ => h _⟩

theorem pure (hq : q a w.tables) : (Pure.pure a : Eval α).Leaves w q := of_apply hq fun _ => rfl

theorem mono {q' : α → Tables → Prop} (h : x.Leaves w q) (hq : ∀ a t, q a t → q' a t) :
    x.Leaves w q' := by
  obtain ⟨a, t, learner, fuel, ha, h⟩ := h
  exact ⟨a, t, learner, fuel, hq a t ha, h⟩

/-- The evaluation starts with a change of nodes and scopes. -/
theorem after {y : Eval α} {nodes : Array Node} {scopes : ScopeTable}
    (hy : ∀ perform, y perform w = x perform { w with nodes, scopes })
    (h : x.Leaves { w with nodes, scopes } q) : y.Leaves w q := by
  obtain ⟨a, t, learner, fuel, hq, h⟩ := h
  exact ⟨a, t, learner, fuel, hq, fun more hm => (hy _).trans (h more hm)⟩

theorem bind (h : x.Leaves w q)
    (h' : ∀ a t, q a t → ∀ learner, (f a).Leaves (w.withTables t learner) r) :
    (x >>= f).Leaves w r := by
  obtain ⟨a, t, learner, fuel, hq, h⟩ := h
  obtain ⟨b, t', learner', fuel', hr, h'⟩ := h' a t hq learner
  refine ⟨b, t', learner', max fuel fuel', hr, fun more hm => ?_⟩
  have first := h more (Nat.le_trans (Nat.le_max_left ..) hm)
  exact (bind_of_ok first).trans (h' more (Nat.le_trans (Nat.le_max_right ..) hm))

theorem map (g : α → β) (h : x.Leaves w fun a => r (g a)) :
    (x >>= fun a => Pure.pure (g a)).Leaves w r := h.bind fun _ _ hr _ => pure hr

theorem look {f : World → Eval β} (h : (f w).Leaves w r) : (Eval.world >>= f).Leaves w r := h

theorem perform {task : Task} {q : Value → Tables → Prop} (h : (step task).Leaves w q) :
    (Eval.perform task).Leaves w q := by
  obtain ⟨v, t, learner, fuel, hq, h⟩ := h
  refine ⟨v, t, learner, fuel + 1, hq, fun more hm => ?_⟩
  obtain ⟨k, rfl⟩ : ∃ k, more = k + 1 := ⟨more - 1, by omega⟩
  exact h k (by omega)

theorem attempt {q : Except EvalError α → Tables → Prop} (h : x.Leaves w fun a => q (.ok a)) :
    (Eval.attempt x).Leaves w q := by
  obtain ⟨a, t, learner, fuel, hq, h⟩ := h
  refine ⟨.ok a, t, learner, fuel, hq, fun more hm => ?_⟩
  show Eval.attempt x (performWith more) w = _
  simp only [Eval.attempt, show x (performWith more) w = _ from h more hm]

theorem holding (held : List Held) (h : x.Leaves { w with inUse := held ++ w.inUse } q) :
    (Eval.holding held x).Leaves w q := by
  obtain ⟨a, t, learner, fuel, hq, h⟩ := h
  refine ⟨a, t, learner, fuel, hq, fun more hm => ?_⟩
  show Eval.holding held x (performWith more) w = _
  rw [Eval.holding, show x (performWith more) { w with inUse := held ++ w.inUse } = _ from h more hm]
  rfl

theorem withScope (scope : ScopeId) (h : x.Leaves (w.modifyContext fun c => c.push scope) q) :
    (Eval.withScope scope x).Leaves w q := by
  obtain ⟨a, t, learner, fuel, hq, h⟩ := h
  refine ⟨a, t, learner, fuel, hq, fun more hm => ?_⟩
  have run : (Eval.withScope scope x).run more w =
      ((x.run more (w.modifyContext fun c => c.push scope)).1,
        (x.run more (w.modifyContext fun c => c.push scope)).2.popScope scope) := rfl
  rw [run, h more hm]
  exact congrArg (Prod.mk _) (World.popScope_of_scopes rfl)

theorem withScopes (stack : ScopeStack) (h : x.Leaves (w.inScopes stack) q) :
    (Eval.withScopes stack x).Leaves w q := by
  induction stack generalizing x with
  | nil => exact h
  | cons scope outer ih => exact ih (withScope scope h)

theorem whileNotifying {x : Eval Value} {q : Value → Tables → Prop} {id : NodeId}
    (hm : ¬ w.context.isNotifying id) (h : x.Leaves (w.enterNotify id) q) :
    (Eval.whileNotifying id x).Leaves w q := by
  obtain ⟨v, t, learner, fuel, hq, h⟩ := h
  refine ⟨v, t, learner, fuel, hq, fun more hmore => ?_⟩
  have run : (Eval.whileNotifying id x).run more w =
      ((x.run more (w.enterNotify id)).1, (x.run more (w.enterNotify id)).2.leaveNotify id) :=
    whileNotifying_of_not_marked hm x
  have left : (w.context.enterNotify id).leaveNotify id = w.context :=
    Context.leaveNotify_enterNotify hm
  rw [run, h more hmore]
  simp only [World.withTables, World.enterNotify, World.leaveNotify, World.modifyContext, left]

theorem of_ends (hx : x.Plain) (hq : q a t) (h : x.Ends w (.ok a) (w.withTables t learner)) :
    x.Leaves w q := by
  obtain ⟨fuel, h⟩ := h
  refine ⟨a, t, learner, fuel, hq, fun more hm => ?_⟩
  exact (run_eq_of_le hx hm (Ends.not_exhausted h)).trans h

theorem of_gives {x : Eval Value} {v : Value} {q : Value → Tables → Prop} {seen : Observations}
    (hx : x.Plain) (h : x.Gives w (.ok v) seen) (hq : ∀ u, u.bare = v.bare → q u w.tables) :
    x.Leaves w q := by
  obtain ⟨s, learner, ends, alike, -⟩ := h w.learner w.inUse
  cases s with
  | error e => cases alike
  | ok u => exact of_ends hx (hq u alike) ends

end Eval.Leaves

/-- A binding without constraint, declared type and protection. -/
structure Binding.IsPlain (b : Binding) : Prop where
  constraint : b.constraint = none
  declaredType : b.declaredType = none
  isConst : b.flags.isConst = false

theorem Binding.isPlain_merge {seen : Option Binding} (h : ∀ b, seen = some b → b.IsPlain)
    (v : Value) : (mergeBinding seen v {}).IsPlain := by
  cases seen with
  | none => exact ⟨rfl, rfl, rfl⟩
  | some b =>
    obtain ⟨constraint, declaredType, isConst⟩ := h b rfl
    exact ⟨constraint, declaredType, by simp [mergeBinding, BindingFlags.union, isConst]⟩

namespace ScopeTable

/-- A value is bound to a name where the name is resolved. -/
def assign (t : ScopeTable) (s : ScopeId) (name : String) (v : Value) : ScopeTable :=
  t.bind (t.targetOf s name) name (mergeBinding (t.binding? s name) v {})

variable {t : ScopeTable} {s : ScopeId} {name : String} {v : Value}

@[simp] theorem size_assign : (t.assign s name v).size = t.size := size_bind _ _ _ _

theorem binding?_assign (hs : s < t.size) (name' : String) :
    (t.assign s name v).binding? s name' =
      if name = name' then some (mergeBinding (t.binding? s name) v {}) else t.binding? s name' :=
  binding?_bind_target hs name'

theorem find?_assign (hs : s < t.size) (name' : String) :
    (t.assign s name v).find? s name' = if name = name' then some v else t.find? s name' := by
  rw [find?, binding?_assign hs]
  split <;> rfl

theorem targetOf_assign (hs : s < t.size) (name' : String) :
    (t.assign s name v).targetOf s name' = t.targetOf s name' := targetOf_bind_target hs name'

theorem registered_assign (u : ScopeId) (name' : String) :
    (t.assign s name v).registered u name' = t.registered u name' := registered_bind _ _ _ _ _ _

theorem handler?_assign (u : ScopeId) : (t.assign s name v).handler? u = t.handler? u :=
  handler?_modify (f := fun scope => scope.bind name _) (fun _ => rfl) (fun _ => rfl) _

end ScopeTable

theorem Eval.deliverAll_leaves {w : World} {callback : Callback} {v : Value} {q : Tables → Prop}
    (h : (deliver callback v).Leaves
      { w with inUse := (v.held ++ heldByCallbacks [callback]) ++ w.inUse } fun _ => q) :
    (deliverAll v [callback]).Leaves w fun _ => q := by
  have delivered : (holding (v.held ++ heldByCallbacks [callback])
      (Eval.perform (.deliver callback v))).Leaves w fun _ => q := .holding _ (.perform h)
  exact delivered.bind fun _ _ hq _ => .pure hq

section commits

variable {w : World} {s : ScopeId} {name : String} {v : Value} {q : Value → Tables → Prop}

/-- What a name is bound to before, or void. -/
def World.previous (w : World) (s : ScopeId) (name : String) : Value :=
  (w.scopes.find? s name).getD .void

/-- A plain binding is made where the name is resolved, and the callbacks of the name do the
rest. -/
theorem bindName_leaves (hs : s < w.scopes.size)
    (plain : ∀ b, w.scopes.binding? s name = some b → b.IsPlain)
    (h : (deliverAll v (w.scopes.registered (w.scopes.targetOf s name) name).values).Leaves
      { w with
        scopes := w.scopes.assign s name v
        inUse := (w.previous s name).held ++ w.inUse } fun _ => q v) :
    (Eval.bind s name v {}).Leaves w q := by
  let a := w.attempt s name v {}
  have seen : a.seen = w.scopes.binding? s name := ScopeTable.localBinding?_targetOf hs name
  have merged : a.binding = mergeBinding (w.scopes.binding? s name) v {} := by
    rw [← seen]
    rfl
  have previous : a.previous = w.previous s name := by
    rw [BindAttempt.previous, seen]
    rfl
  have isPlain : a.binding.IsPlain := merged ▸ Binding.isPlain_merge plain v
  have free : ¬ a.Barred w := by
    rintro ⟨b, hb, isConst⟩
    rw [(plain b (seen ▸ hb)).isConst] at isConst
    cases isConst
  have passed (perform : Task → Run Value) : a.check perform w = (.ok (), w) := by
    have ends : a.CheckEnds perform w (a.check perform w).1 (a.check perform w).2 := a.check_ends w
    generalize a.check perform w = result at ends ⊢
    obtain ⟨r, w'⟩ := result
    cases ends with
    | void => rfl
    | unconstrained => rfl
    | mismatch _ declared => cases isPlain.declaredType.symm.trans declared
    | holds _ _ hc => cases isPlain.constraint.symm.trans hc
    | violated _ _ hc => cases isPlain.constraint.symm.trans hc
    | failed _ _ hc => cases isPlain.constraint.symm.trans hc
  have written : a.write w = { w with scopes := w.scopes.assign s name v } := by
    rw [BindAttempt.write, merged]
    rfl
  have delivered : (deliverAll v ((w.scopes.assign s name v).registered a.target name).values).Leaves
      { w with scopes := w.scopes.assign s name v, inUse := a.previous.held ++ w.inUse }
      fun _ => q v := by
    rw [ScopeTable.registered_assign, previous]
    exact h
  have announced : a.announce.Leaves { w with scopes := w.scopes.assign s name v } fun _ => q v :=
    .after (fun perform => a.announce_apply perform _) (.holding _ delivered)
  refine .after (fun perform => ?_) (announced.map fun _ => v)
  rw [bindName_of_passed free (passed perform) free]
  exact congrArg ((a.announce >>= fun _ => pure v) perform) written

/-- A commit of a plain assignment forces the value, binds it in the current scope and publishes it
if it is to. -/
theorem commit_leaves {c : Commit} {p : Value → Prop} (options : c.options = {})
    (allowed : w.isReserved c.target = false) (current : w.context.current? = some s)
    (forced : (forceAssigned v).Leaves w fun u t => p u ∧ t = w.tables)
    (sound : ∀ u, p u → u.isError = false)
    (bound : ∀ u, p u → ∀ learner, (Eval.bind s c.target u {}).Leaves { w with learner }
      fun u t => q u (if c.exported then { t with exports := t.exports.insert c.target u } else t)) :
    (commit c v).Leaves w q := by
  have prepared : c.prepare v = pure () := by
    simp only [Commit.prepare, reportUnlikelyType, options]
    rfl
  have concluded (u : Value) (hu : p u) (learner : Learner) :
      (c.conclude s u).Leaves { w with learner } q := by
    simp only [Commit.conclude, sound u hu, options]
    refine (bound u hu learner).bind fun v t hq learner => ?_
    split
    · next exported =>
      rw [if_pos exported] at hq
      exact .of_apply hq fun _ => rfl
    · next unexported =>
      rw [if_neg unexported] at hq
      exact .pure hq
  have looked (perform : Task → Run Value) : commit c v perform w =
      (forceAssigned v >>= c.conclude s) perform w := by
    have here : commitScope c perform w = (.ok s, w) := commitScope_apply current
    have look : Eval.world perform w = (.ok w, w) := rfl
    rw [commit_eq, bind_of_ok look, if_neg (by simp [allowed]), prepared]
    exact bind_of_ok here
  refine .after looked (forced.bind ?_)
  rintro u _ ⟨hu, rfl⟩ learner
  exact concluded u hu learner

end commits

section execution

variable {w : World} {id : NodeId} {n : Node} {q : Value → Tables → Prop}

/-- A node leaves behind what its body does. -/
theorem execute_leaves (hn : w.node? id = some n)
    (admitted : w.context.calls.size < w.settings.maxRecursionDepth)
    (inPlace : n.RunsInPlace (w.entering id)) (sound : w.context.corruption = none)
    (h : (runBody id n).Leaves (w.entering id) q) : (execute id).Leaves w q := by
  have recovered : (runRecovering id n).Leaves (w.entering id) q :=
    Eval.Leaves.bind (q := fun r t => ∃ v, r = .ok v ∧ q v t)
      (.attempt (h.mono fun v _ hq => ⟨v, rfl, hq⟩)) (by
        rintro _ t ⟨v, rfl, hq⟩ learner
        exact .pure hq)
  obtain ⟨v, t, learner, fuel, hq, ran⟩ := recovered
  have ends : (runRecovering id n).Ends (w.entering id) (.ok v)
    ((w.entering id).withTables t learner) := ⟨fuel, ran fuel (Nat.le_refl fuel)⟩
  obtain ⟨learner', executed, -⟩ := execute_ends hn admitted inPlace ends sound
  have left : (w.entering id).context.leaveCall = w.context := by
    simp only [World.entering, World.modifyContext, Context.enterCall, Context.leaveCall,
      CallStack.pop_push]
  simp only [World.withTables, World.modifyContext, left] at executed
  have executed : (execute id).Ends w (.ok v) (w.withTables t learner') := executed
  exact .of_ends (Protocol.execute id).routine hq executed

/-- What a node gives is forced no further, if nothing is to be forced in it. -/
theorem force_node_leaves {node : NodeRef} {parallel : Bool} {depth : Nat} (hd : depth ≠ 0)
    (h : (execute node.id).Leaves w fun v t => ∃ u, force parallel v depth = pure u ∧ q u t) :
    (force parallel (.node node) depth).Leaves w q := by
  rw [force, if_neg hd]
  refine .perform (h.bind ?_)
  rintro v t ⟨u, forced, hq⟩ learner
  rw [forced]
  exact .holding _ (.pure hq)

end execution

namespace Script

variable {w : World} {s : ScopeId} {node : NodeRef} {q : Tables → Prop}

/-- The world in which a script of one statement forces it. -/
def entered (w : World) (s : ScopeId) (node : NodeRef) : World :=
  { w with context := w.context.push s, inUse := .node node.id :: w.inUse }

/-- A script of one statement that succeeds leaves what the statement leaves. -/
theorem run_leaves (h : (force w.settings.parallel (.node node) 1).Leaves (entered w s node)
      fun v t => v.isError = false ∧ q t) :
    (Script.run s [.node node]).Leaves w fun _ => q := by
  refine .withScope s (.holding _ (.look ?_))
  refine (Eval.Leaves.attempt (q := fun r t => ∃ v, r = .ok v ∧ v.isError = false ∧ q t)
    (.holding _ ?_)).bind ?_
  · exact h.mono fun v _ hq => ⟨v, rfl, hq⟩
  · rintro _ t ⟨v, rfl, sound, hq⟩ learner
    have outcome : outcomeOf (.ok v) = .ok v := by
      have none : v.asError? = none := by simpa [Value.isError] using sound
      simp only [outcomeOf, none]
    rw [outcome]
    exact .pure hq

/-- The statement is a node that was built in place, and its body succeeds. -/
theorem run_built_leaves {spec : NodeSpec} {built : World}
    (found : w.node? node.id = some (built.fresh spec)) (follows : spec.follows = none)
    (flags : spec.flags = {}) (admitted : w.context.calls.size < w.settings.maxRecursionDepth)
    (sound : w.context.corruption = none)
    (h : (runBody node.id (built.fresh spec)).Leaves ((entered w s node).entering node.id)
      fun v t => v.isError = false ∧ v.isNode = false ∧ q t) :
    (Script.run s [.node node]).Leaves w fun _ => q := by
  have inPlace (w : World) : (built.fresh spec).RunsInPlace w := by
    refine ⟨?_, ?_, .inl ?_⟩
    · rw [World.fresh, flags]
      rfl
    · rw [World.fresh, flags]
    · rw [World.fresh, Node.scopeHint, follows]
  refine run_leaves (force_node_leaves Nat.one_ne_zero ?_)
  refine execute_leaves found admitted (inPlace _) sound (h.mono ?_)
  rintro v t ⟨noError, noNode, hq⟩
  exact ⟨v.joined, force_eq_joined w.settings.parallel noNode,
    (Value.isError_congr v.bare_joined).trans noError, hq⟩

end Script

end ReactiveScript
