import ReactiveScript.Proofs.RecursionLimit
import ReactiveScript.Proofs.Stages

/-!
# Nodes that compute functions

The body of a node computes a function of the scope that is current if it always has the same
outcome there, on whichever line of execution it runs, and if it has no effects: it may only learn,
report, and add scopes of its own. Then forcing comes to what the outcomes of the nodes say, in
order or in parallel, at once or in stages.
-/

namespace ReactiveScript

open Eval

variable {α β : Type}

/-- An evaluation without effects: it may have learnt and reported, and it may have added scopes. -/
structure World.Spares (w w' : World) : Prop where
  settings : w'.settings = w.settings
  reserved : w'.reserved = w.reserved
  nodes : w'.nodes = w.nodes
  scopes : ∃ added, w'.scopes = w.scopes ++ added
  resources : w'.resources = w.resources
  subscriptions : w'.subscriptions = w.subscriptions
  table : w'.table = w.table
  registers : w'.registers = w.registers
  exports : w'.exports = w.exports
  inUse : w'.inUse = w.inUse

namespace World.Spares

variable {w w' w'' : World}

theorem of_scopes {w : World} (learner : Learner) (context : Context) (log : List Event) :
    w.Spares { w with learner, context, log } :=
  ⟨rfl, rfl, rfl, ⟨#[], by simp⟩, rfl, rfl, rfl, rfl, rfl, rfl⟩

theorem refl (w : World) : w.Spares w := of_scopes w.learner w.context w.log

theorem trans (h : w.Spares w') (h' : w'.Spares w'') : w.Spares w'' where
  settings := h'.settings.trans h.settings
  reserved := h'.reserved.trans h.reserved
  nodes := h'.nodes.trans h.nodes
  scopes := by
    obtain ⟨added, h⟩ := h.scopes
    obtain ⟨more, h'⟩ := h'.scopes
    exact ⟨added ++ more, by rw [h', h, Array.append_assoc]⟩
  resources := h'.resources.trans h.resources
  subscriptions := h'.subscriptions.trans h.subscriptions
  table := h'.table.trans h.table
  registers := h'.registers.trans h.registers
  exports := h'.exports.trans h.exports
  inUse := h'.inUse.trans h.inUse

/-- The line of execution and what is in use do not count. -/
theorem elsewhere (h : w.Spares w') (context context' : Context) (inUse : List Held) :
    Spares { w with context, inUse } { w' with context := context', inUse } :=
  ⟨h.settings, h.reserved, h.nodes, h.scopes, h.resources, h.subscriptions, h.table, h.registers,
    h.exports, rfl⟩

theorem addScope (w : World) (s : Scope) : w.Spares (w.addScope s).2 :=
  ⟨rfl, rfl, rfl, ⟨#[s], rfl⟩, rfl, rfl, rfl, rfl, rfl, rfl⟩

theorem popScope (w : World) (s : ScopeId) : w.Spares (w.popScope s) := by
  unfold World.popScope
  split
  · exact .of_scopes _ _ _
  · unfold World.report
    split <;> exact .of_scopes _ _ _

theorem popAll (w : World) (scopes : ScopeStack) : w.Spares (w.popAll scopes) := by
  induction scopes generalizing w with
  | nil => exact .refl w
  | cons s rest ih => exact (popScope w s).trans (ih _)

theorem inScopes (w : World) (scopes : ScopeStack) : w.Spares (w.inScopes scopes) := by
  rw [World.inScopes_eq]
  exact .of_scopes _ _ _

theorem fresh (n : Node) (w : World) : w.Spares (n.fresh w).2 := by
  rw [Node.fresh]
  split
  · cases w.context.current? with
    | some parent => exact addScope w _
    | none => exact addScope w _
  · exact .refl w

theorem enter (n : Node) (w : World) : w.Spares (n.enter w).2 :=
  (((inScopes w _).trans (inScopes _ _)).trans (fresh n _)).trans (inScopes _ _)

theorem learning (w : World) (id : NodeId) (n : Node) (r : Except EvalError Value) :
    w.Spares (w.learning id n r) := by
  unfold World.learning
  split
  · exact .refl w
  · split
    · exact .refl w
    · exact .of_scopes _ _ _

end World.Spares

namespace Activation

variable (x : Activation)

theorem spares_inside : x.before.Spares x.inside :=
  .trans (.of_scopes _ _ _ : x.before.Spares (x.before.entering x.id))
    (.enter x.node (x.before.entering x.id))

theorem spares_after (u : World) (r : Except EvalError Value) : u.Spares (x.after u r) :=
  have cleared : u.Spares (u.popAll x.scopes).clearCorruption :=
    (World.Spares.popAll u x.scopes).trans (.of_scopes _ _ _)
  (cleared.trans (.learning _ x.id x.node (x.outcome u r))).trans (.of_scopes _ _ _)

end Activation

/-- Nothing is altered, and the line of execution is as it was. -/
structure World.Unaltered (w w' : World) : Prop extends w.Spares w' where
  context : w'.context = w.context

/-- Bodies see the same: the current scope is the same one, no more executions are under way, and
the scope stack is sound. The lines of execution may differ otherwise. -/
structure World.Resembles (w w' : World) : Prop where
  spares : w.Spares { w' with inUse := w.inUse }
  current : w'.context.current? = w.context.current?
  calls : w'.context.calls.size ≤ w.context.calls.size
  sound : w'.context.corruption = none

/-- In all worlds in which bodies see the same, each node has its outcome, without effects; a node
that is not there gives void. -/
structure World.Functional (w : World) (outcome : NodeId → Except EvalError Value) : Prop where
  body : ∀ {id : NodeId} {n : Node} {w' : World}, w.node? id = some n → w.Resembles w' →
    ∃ u, (runRecovering id n).Ends (Activation.mk id n w').inside (outcome id) u ∧
      (Activation.mk id n w').inside.Unaltered u
  missing : ∀ {id : NodeId}, w.node? id = none → outcome id = .ok .void

namespace World

variable {w w' w'' : World}

theorem Unaltered.refl (w : World) : w.Unaltered w := ⟨.refl w, rfl⟩

theorem Unaltered.trans (h : w.Unaltered w') (h' : w'.Unaltered w'') : w.Unaltered w'' :=
  ⟨h.toSpares.trans h'.toSpares, h'.context.trans h.context⟩

theorem Resembles.refl (sound : w.context.corruption = none) : w.Resembles w :=
  ⟨.refl w, rfl, Nat.le_refl _, sound⟩

theorem Resembles.unaltered (h : w.Resembles w') (h' : w'.Unaltered w'') : w.Resembles w'' where
  spares := h.spares.trans (h'.toSpares.elsewhere _ _ _)
  current := by rw [h'.context, h.current]
  calls := by rw [h'.context]; exact h.calls
  sound := by rw [h'.context]; exact h.sound

theorem Resembles.holding (h : w.Resembles w') (inUse : List Held) :
    w.Resembles { w' with inUse } := ⟨h.spares, h.current, h.calls, h.sound⟩

theorem Unaltered.letGo {held : List Held} (h : Unaltered { w with inUse := held } w') :
    w.Unaltered { w' with inUse := w.inUse } where
  toSpares := h.toSpares.elsewhere w.context w'.context w.inUse
  context := h.context

end World

/-- Executing a node has its outcome, and alters nothing. -/
theorem World.Functional.execute {w w' : World} {outcome : NodeId → Except EvalError Value}
    (functional : w.Functional outcome)
    (admitted : w.context.calls.size < w.settings.maxRecursionDepth) (hw : w.Resembles w')
    (id : NodeId) : ∃ u, (Eval.execute id).Ends w' (outcome id) u ∧ w'.Unaltered u := by
  have same : w'.node? id = w.node? id := by
    rw [World.node?, World.node?, show w'.nodes = w.nodes from hw.spares.nodes]
  cases hn : w.node? id with
  | none =>
    rw [functional.missing hn]
    refine ⟨w', .of_apply fun perform => ?_, .refl w'⟩
    rw [Eval.execute, world_bind, same, hn]
    rfl
  | some n =>
    obtain ⟨u, ends, unaltered⟩ := functional.body hn hw
    let x : Execution :=
      { id, node := n, before := w', found := same.trans hn
        admitted := by
          have limit : w'.settings = w.settings := hw.spares.settings
          rw [limit]
          exact Nat.lt_of_le_of_lt hw.calls admitted }
    have intact : x.Intact u := Activation.intact_of_context unaltered.context hw.sound
    refine ⟨_, Execution.ends_iff (x := x).mpr ⟨_, u, ends, x.outcome_of_intact intact _, rfl⟩, ?_⟩
    exact ⟨(x.spares_inside.trans unaltered.toSpares).trans (x.spares_after u _),
      Activation.context_after unaltered.context hw.sound _⟩

/-- An evaluation runs another one in a world in which bodies see the same, and undoes what it has
done to get there. -/
def Eval.Encloses (w : World) (y x : Eval α) : Prop :=
  ∀ w', w.Resembles w' → ∃ (inside : World) (leave : World → World), w.Resembles inside ∧
    (∀ u, inside.Unaltered u → w'.Unaltered (leave u)) ∧
    ∀ perform, y perform w' = ((x perform inside).1, leave (x perform inside).2)

namespace Eval.Encloses

variable {w : World} (x : Eval α)

theorem refl : Encloses w x x := fun w' hw => ⟨w', id, hw, fun _ h => h, fun _ => rfl⟩

theorem holding (held : List Held) : Encloses w (Eval.holding held x) x := fun w' hw =>
  ⟨_, fun u => { u with inUse := w'.inUse }, hw.holding (held ++ w'.inUse), fun _ h => h.letGo,
    fun _ => rfl⟩

/-- Pushed once more, the active scopes make no difference to the bodies. -/
theorem resembles_inScopes {w' : World} (hw : w.Resembles w') :
    w.Resembles (w'.inScopes w'.context.scopes) := by
  rw [World.inScopes_eq]
  refine ⟨hw.spares.trans (.of_scopes _ _ _), ?_, hw.calls, hw.sound⟩
  rw [← hw.current]
  show (w'.context.scopes ++ w'.context.scopes).head? = w'.context.scopes.head?
  cases w'.context.scopes <;> rfl

theorem unaltered_popAll {w' u : World} {scopes : ScopeStack}
    (h : (w'.inScopes scopes).Unaltered u) : w'.Unaltered (u.popAll scopes) := by
  have pushed : u.context.scopes = scopes ++ w'.context.scopes := by
    rw [h.context, World.inScopes_eq]
    rfl
  refine ⟨((World.Spares.inScopes w' scopes).trans h.toSpares).trans (.popAll u scopes), ?_⟩
  rw [World.popAll_of_scopes pushed]
  show { u.context with scopes := w'.context.scopes } = w'.context
  rw [h.context, World.inScopes_eq]
  rfl

/-- Wherever a child is forced, the bodies see the same. -/
theorem child (parallel single : Bool) : Encloses w (Eval.child parallel single x) x := by
  intro w' hw
  cases parallel with
  | false => exact refl x w' hw
  | true =>
    have branch (perform : Task → Run Value) : Eval.child true single x perform w' =
        (if single || w'.context.isWorker then withScopes w'.context.scopes x
          else onWorker w'.context.scopes x) perform w' := rfl
    by_cases own : (single || w'.context.isWorker) = true
    · refine ⟨_, fun u => u.popAll w'.context.scopes, resembles_inScopes hw,
        fun _ h => unaltered_popAll h, fun perform => ?_⟩
      rw [branch, if_pos own, withScopes_eq]
    · let line : World :=
        { w' with
          context := { reports := false, isWorker := true }
          inUse := w'.context.scopes.held ++ w'.inUse }
      refine ⟨line.inScopes w'.context.scopes, fun u =>
        { u.popAll w'.context.scopes with inUse := w'.inUse, context := w'.context },
        ?_, fun u h => ?_, fun perform => ?_⟩
      · rw [World.inScopes_eq]
        refine ⟨hw.spares.trans (.of_scopes _ _ _), ?_, Nat.zero_le _, rfl⟩
        rw [← hw.current]
        show (w'.context.scopes ++ []).head? = w'.context.scopes.head?
        rw [List.append_nil]
      · have left : line.Unaltered (u.popAll w'.context.scopes) := unaltered_popAll h
        exact ⟨left.toSpares.elsewhere w'.context w'.context w'.inUse, rfl⟩
      · rw [branch, if_neg own]
        have entered : onWorker w'.context.scopes x perform w' =
            ((withScopes w'.context.scopes x perform line).1,
              { (withScopes w'.context.scopes x perform line).2 with
                inUse := w'.inUse, context := w'.context }) := rfl
        rw [entered, withScopes_eq]

end Eval.Encloses

/-- Wherever bodies see the same, an evaluation ends in one way, and alters nothing. -/
def Eval.Always (w : World) (x : Eval α) (r : Except EvalError α) : Prop :=
  ∀ w', w.Resembles w' → ∃ u, x.Ends w' r u ∧ w'.Unaltered u

/-- Wherever bodies see the same, an evaluation ends with nothing but certain outcomes within some
fuel, and alters nothing. -/
def Eval.Only (fuel : Nat) (w : World) (x : Eval α) (Q : Except EvalError α → Prop) : Prop :=
  ∀ w' r u, w.Resembles w' → x.run fuel w' = (r.mapError .raised, u) → Q r ∧ w'.Unaltered u

section combinators

variable {w : World} {x y : Eval α} {f : α → Eval β} {a : α} {r : Except EvalError α}
  {s : Except EvalError β} {fuel : Nat} {Q : Except EvalError α → Prop}
  {S : Except EvalError β → Prop}

theorem Eval.Encloses.always (h : Encloses w y x) (hx : x.Always w r) : y.Always w r := by
  intro w' hw
  obtain ⟨inside, leave, alike, back, apply⟩ := h w' hw
  obtain ⟨u, ⟨fuel, ran⟩, unaltered⟩ := hx inside alike
  refine ⟨leave u, ⟨fuel, (apply _).trans ?_⟩, back u unaltered⟩
  rw [show x (performWith fuel) inside = (r.mapError .raised, u) from ran]

theorem Eval.Encloses.only (h : Encloses w y x) (hx : x.Only fuel w Q) : y.Only fuel w Q := by
  intro w' r u hw ran
  obtain ⟨inside, leave, alike, back, apply⟩ := h w' hw
  obtain ⟨result, rfl⟩ := Prod.mk.inj ((apply _).symm.trans ran)
  obtain ⟨hr, unaltered⟩ := hx inside r _ alike (run_of_result result)
  exact ⟨hr, back _ unaltered⟩

namespace Eval.Always

theorem pure (a : α) : (Pure.pure a : Eval α).Always w (.ok a) :=
  fun w' _ => ⟨w', .pure a w', .refl w'⟩

theorem bind (hx : x.Plain) (hf : ∀ a, (f a).Plain) (h : x.Always w (.ok a))
    (h' : (f a).Always w s) : (x >>= f).Always w s := by
  intro w' hw
  obtain ⟨u, ends, unaltered⟩ := h w' hw
  obtain ⟨u', ends', unaltered'⟩ := h' u (hw.unaltered unaltered)
  exact ⟨u', .bind hx hf ends ends', unaltered.trans unaltered'⟩

theorem bind_error {e : EvalError} (h : x.Always w (.error e)) :
    (x >>= f).Always w (.error e) := by
  intro w' hw
  obtain ⟨u, ends, unaltered⟩ := h w' hw
  exact ⟨u, .bind_error ends, unaltered⟩

theorem map (hx : x.Plain) (h : x.Always w r) (g : α → β) :
    (x >>= fun a => Pure.pure (g a)).Always w (r.map g) := by
  cases r with
  | error e => exact .bind_error h
  | ok a => exact .bind hx (fun _ => .pure _) h (.pure (g a))

end Eval.Always

namespace Eval.Only

theorem pure (h : Q (.ok a)) : (Pure.pure a : Eval α).Only fuel w Q := by
  intro w' r u _ ran
  cases r <;> cases ran
  exact ⟨h, .refl w'⟩

theorem bind (h : x.Only fuel w Q) (ok : ∀ a, Q (.ok a) → (f a).Only fuel w S)
    (error : ∀ e, Q (.error e) → S (.error e)) : (x >>= f).Only fuel w S := by
  intro w' s u hw ran
  rw [run_bind] at ran
  rcases hx : x.run fuel w' with ⟨(e | _) | a, u'⟩
  · rw [hx] at ran
    obtain ⟨hQ, unaltered⟩ := h w' (.error e) u' hw hx
    cases s with
    | error e' =>
      cases ran
      exact ⟨error e hQ, unaltered⟩
    | ok b => cases ran
  · rw [hx] at ran
    cases s <;> cases ran
  · rw [hx] at ran
    obtain ⟨hQ, unaltered⟩ := h w' (.ok a) u' hw hx
    obtain ⟨hS, unaltered'⟩ := ok a hQ u' s u (hw.unaltered unaltered) ran
    exact ⟨hS, unaltered.trans unaltered'⟩

theorem map (h : x.Only fuel w Q) (g : α → β) :
    (x >>= fun a => Pure.pure (g a)).Only fuel w fun s => ∃ r, Q r ∧ s = r.map g :=
  .bind h (fun a hQ => .pure ⟨.ok a, hQ, rfl⟩) fun e hQ => ⟨.error e, hQ, rfl⟩

theorem imp {Q' : Except EvalError α → Prop} (h : x.Only fuel w Q) (sub : ∀ r, Q r → Q' r) :
    x.Only fuel w Q' := fun w' r u hw ran =>
  have ⟨hr, unaltered⟩ := h w' r u hw ran
  ⟨sub r hr, unaltered⟩

end Eval.Only

end combinators

section containers

variable {w : World} {parallel : Bool} {v u : Value} {items us before after : List Value}
  {rebuild : List Value → Value} {depth fuel : Nat} {outcome : NodeId → Except EvalError Value}

theorem holding_map (held : List Held) (x : Eval α) (g : α → β) :
    holding held (x >>= fun a => pure (g a)) = holding held x >>= fun a => pure (g a) := by
  funext perform w
  simp only [holding, bind_apply]
  rcases x perform { w with inUse := held ++ w.inUse } with ⟨_ | _, _⟩ <;> rfl

/-- The values of a map are forced like the items of a list. -/
theorem forceEntries_eq (parallel single : Bool) (entries : OrderedMap Value) (depth : Nat) :
    forceEntries parallel single entries depth =
      forceItems parallel single entries.values depth >>= fun us =>
        pure (entries.keys.zip us) := by
  induction entries with
  | nil => rfl
  | cons e rest ih =>
    obtain ⟨key, v⟩ := e
    rw [forceEntries, ih]
    simp only [OrderedMap.values, List.map_cons, forceItems, holding_map, bind_assoc, pure_bind]
    rfl

theorem force_parts (hv : v.parts? = some (items, rebuild)) (parallel : Bool) (depth : Nat) :
    force parallel v depth = if depth ≤ 1 then pure v else
      forceItems parallel (items.length = 1) items (depth - 1) >>= fun us =>
        pure (rebuild us) := by
  cases v with
  | list => cases hv; rw [force]
  | map entries =>
    cases hv
    rw [force, forceEntries_eq]
    simp only [OrderedMap.values, List.length_map, bind_assoc, pure_bind]
  | _ => cases hv

theorem force_plain (parallel : Bool) (v : Value) (depth : Nat) :
    (force parallel v depth).Plain := (Protocol.force parallel v depth).routine

theorem forceItems_always (single : Bool)
    (h : List.Forall₂ (fun v u => (force parallel v depth).Always w (.ok u)) items us) :
    (forceItems parallel single items depth).Always w (.ok us) := by
  induction h with
  | nil => exact .pure []
  | @cons v u items us hv _ ih =>
    have rest : (holding u.held (forceItems parallel single items depth)).Always w (.ok us) :=
      (Encloses.holding _ u.held).always ih
    refine .bind (Protocol.child _ _ (Protocol.force _ _ _)).routine (fun a => ?_)
      ((Encloses.child _ parallel single).always hv) ?_
    · exact .bind (.holding _ (Protocol.forceItems _ _ _ _).routine) fun _ => .pure _
    · exact rest.map (.holding _ (Protocol.forceItems _ _ _ _).routine) (u :: ·)

/-- The first child that raises an error ends it. -/
theorem forceItems_always_error (single : Bool) {e : EvalError}
    (h : List.Forall₂ (fun v u => (force parallel v depth).Always w (.ok u)) before us)
    (hu : (force parallel u depth).Always w (.error e)) :
    (forceItems parallel single (before ++ u :: after) depth).Always w (.error e) := by
  induction h with
  | nil => exact .bind_error ((Encloses.child _ parallel single).always hu)
  | @cons v u' items us hv _ ih =>
    refine .bind (Protocol.child _ _ (Protocol.force _ _ _)).routine (fun a => ?_)
      ((Encloses.child _ parallel single).always hv) ?_
    · exact .bind (.holding _ (Protocol.forceItems _ _ _ _).routine) fun _ => .pure _
    · exact .bind_error ((Encloses.holding _ u'.held).always ih)

theorem forceItems_only (single : Bool)
    (h : ∀ v ∈ items, (force parallel v depth).Only fuel w (Forces outcome v depth)) :
    (forceItems parallel single items depth).Only fuel w (ForcesAll outcome items depth) := by
  induction items with
  | nil => exact .pure (forcesAll_nil.mpr rfl)
  | cons v rest ih =>
    obtain ⟨hv, hrest⟩ := List.forall_mem_cons.mp h
    refine .bind ((Encloses.child _ parallel single).only hv) (fun u hu => ?_) fun e he => ?_
    · refine (Only.map ((Encloses.holding _ u.held).only (ih hrest)) (u :: ·)).imp ?_
      rintro _ ⟨t, ht, rfl⟩
      exact forcesAll_cons.mpr (.inr ⟨u, t, hu, ht, rfl⟩)
    · exact forcesAll_cons.mpr (.inl ⟨e, he, rfl⟩)

theorem force_parts_only (hv : v.parts? = some (items, rebuild))
    (h : ∀ u ∈ items, ∀ depth, (force parallel u depth).Only fuel w (Forces outcome u depth)) :
    (force parallel v depth).Only fuel w (Forces outcome v depth) := by
  rw [force_parts hv]
  match depth with
  | 0 => exact .pure (.zero v)
  | 1 =>
    refine .pure ((forces_parts hv).mpr ⟨.ok items, forcesAll_zero.mpr rfl, ?_⟩)
    exact congrArg _ (Value.rebuild_parts hv).symm
  | depth + 2 =>
    refine (Only.map (forceItems_only _ fun u hu => h u hu (depth + 1)) rebuild).imp ?_
    exact fun r hr => (forces_parts hv).mpr hr

end containers

theorem force_zero (parallel : Bool) (v : Value) : force parallel v 0 = pure v := by
  cases v <;> (unfold force; rfl)

theorem force_datum {v : Value} (h : v.IsDatum) (parallel : Bool) (depth : Nat) :
    force parallel v depth = pure v := by
  cases v <;> first | exact h.elim | rfl

theorem Eval.Always.perform {w : World} {t : Task} {r : Except EvalError Value}
    (h : (step t).Always w r) : (Eval.perform t).Always w r := by
  intro w' hw
  obtain ⟨u, ends, unaltered⟩ := h w' hw
  exact ⟨u, .perform ends, unaltered⟩

/-- A forcing ends as its outcomes say if resolving nodes does. -/
theorem force_only_of {fuel : Nat} {w : World} {outcome : NodeId → Except EvalError Value}
    {parallel : Bool} (resolved : ∀ (n : NodeRef) (depth : Nat),
      (Eval.perform (.resolve n.id (depth + 1) parallel)).Only fuel w
        (Forces outcome (.node n) (depth + 1))) (v : Value) :
    ∀ depth, (force parallel v depth).Only fuel w (Forces outcome v depth) := by
  induction v using Value.nestedInduction with
  | datum v hv =>
    intro depth
    rw [force_datum hv]
    exact .pure ((forces_datum hv).mpr rfl)
  | node n =>
    rintro (_ | depth)
    · exact .pure (.zero _)
    · exact resolved n depth
  | list items ih => exact fun depth => force_parts_only rfl ih
  | map entries ih => exact fun depth => force_parts_only rfl ih
  | tagged v m ih =>
    rintro (_ | depth)
    · exact .pure (.zero _)
    · rw [force, if_neg (Nat.succ_ne_zero depth)]
      exact (Only.map (ih (depth + 1)) _).imp fun r hr => forces_tagged.mpr hr

namespace World.Functional

variable {w : World} {outcome : NodeId → Except EvalError Value} {parallel : Bool} {v : Value}
  {depth : Nat} {r : Except EvalError Value} (functional : w.Functional outcome)
  (admitted : w.context.calls.size < w.settings.maxRecursionDepth)
include functional admitted

theorem execute_only (fuel : Nat) (id : NodeId) :
    (Eval.execute id).Only fuel w fun r => r = outcome id := by
  intro w' r u hw ran
  obtain ⟨u', ends, unaltered⟩ := functional.execute admitted hw id
  have plain : (Eval.execute id).Plain := (Protocol.execute id).routine
  obtain ⟨rfl, rfl⟩ := Ends.unique plain ends ⟨fuel, ran⟩
  exact ⟨rfl, unaltered⟩

/-- What a forcing ends with is what the outcomes of the nodes say. -/
theorem force_only (fuel : Nat) (parallel : Bool) (v : Value) (depth : Nat) :
    (force parallel v depth).Only fuel w (Forces outcome v depth) := by
  induction fuel generalizing v depth with
  | zero =>
    refine force_only_of (fun n depth w' r u _ ran => ?_) v depth
    cases r <;> cases ran
  | succ fuel ih =>
    refine force_only_of (fun n depth w' r u hw ran => ?_) v depth
    -- What the node gives is forced with less fuel.
    have resolved : (resolve n.id (depth + 1) parallel).Only fuel w
        (Forces outcome (.node n) (depth + 1)) :=
      .bind (functional.execute_only admitted fuel n.id)
        (fun a ha => ((Encloses.holding _ a.held).only (ih a (depth + 1))).imp
          fun r hr => .node ha.symm hr)
        fun e he => .node_error he.symm
    exact resolved w' r u hw ran

/-- What the outcomes of the nodes say is what a forcing ends with. -/
theorem force_always (h : Forces outcome v depth r) (parallel : Bool) :
    (force parallel v depth).Always w r := by
  induction h with
  | zero v =>
    rw [force_zero]
    exact .pure v
  | @node n depth v r hn _ ih =>
    have executed : (Eval.execute n.id).Always w (.ok v) := fun w' hw =>
      hn ▸ functional.execute admitted hw n.id
    have resolved : (resolve n.id (depth + 1) parallel).Always w r :=
      .bind (Protocol.execute n.id).routine (fun u => .holding u.held (force_plain parallel u _))
        executed ((Encloses.holding _ v.held).always ih)
    exact .perform resolved
  | @node_error n depth e hn =>
    have executed : (Eval.execute n.id).Always w (.error e) := fun w' hw =>
      hn ▸ functional.execute admitted hw n.id
    have resolved : (resolve n.id (depth + 1) parallel).Always w (.error e) :=
      .bind_error executed
    exact .perform resolved
  | @tagged v depth r m _ ih =>
    rw [force, if_neg (Nat.succ_ne_zero depth)]
    exact ih.map (force_plain parallel v _) _
  | @parts v depth items us rebuild hv length h ih =>
    rw [force_parts hv]
    cases depth with
    | zero =>
      have same : items = us := by
        have all : ForcesAll outcome items 0 (.ok us) :=
          List.forall₂_iff_zip.mpr ⟨length, fun hp => h _ hp⟩
        cases forcesAll_zero.mp all
        rfl
      rw [← same, Value.rebuild_parts hv]
      exact .pure v
    | succ depth =>
      have all : List.Forall₂ (fun v u => (force parallel v (depth + 1)).Always w (.ok u))
          items us := List.forall₂_iff_zip.mpr ⟨length, fun hp => ih _ hp⟩
      exact (forceItems_always _ all).map (Protocol.forceItems _ _ _ _).routine rebuild
  | @parts_error v u depth before after us rebuild e hv length h hu ih ihu =>
    rw [force_parts hv]
    cases depth with
    | zero => cases forces_zero.mp hu
    | succ depth =>
      have all : List.Forall₂ (fun v u => (force parallel v (depth + 1)).Always w (.ok u))
          before us := List.forall₂_iff_zip.mpr ⟨length, fun hp => ih _ hp⟩
      exact .bind_error (forceItems_always_error _ all ihu)
  | datum h depth =>
    rw [force_datum h]
    exact .pure _

/-- A forcing ends exactly as the outcomes of the nodes say, in order and in parallel. -/
theorem force_ends_iff {w' : World} (hw : w.Resembles w') (parallel : Bool) :
    (∃ u, (force parallel v depth).Ends w' r u) ↔ Forces outcome v depth r := by
  constructor
  · rintro ⟨u, fuel, ran⟩
    exact (functional.force_only admitted fuel parallel v depth w' r u hw ran).1
  · intro h
    obtain ⟨u, ends, -⟩ := functional.force_always admitted h parallel w' hw
    exact ⟨u, ends⟩

/-- Forcing all the way down ends as the outcomes say, wherever its first pass runs. -/
theorem settling_only (fuel : Nat) (parallel : Bool) {x : Eval Value}
    (hx : Encloses w x (force parallel v unboundedDepth)) :
    (x >>= fun u => if u.containsNode then perform (.settle u parallel) else pure u).Only fuel w
      (ForcesDeep outcome v) := by
  induction fuel generalizing v x with
  | zero =>
    refine .bind (hx.only (functional.force_only admitted 0 parallel v _)) (fun u hu => ?_)
      fun e he => .error he
    split
    · rintro w' (_ | _) u _ ran <;> cases ran
    · next free => exact .pure (.settled hu (Bool.eq_false_of_not_eq_true free))
  | succ fuel ih =>
    refine .bind (hx.only (functional.force_only admitted _ parallel v _)) (fun u hu => ?_)
      fun e he => .error he
    split
    · next more =>
      intro w' r u' hw ran
      have rest : (settle parallel u).Only fuel w (ForcesDeep outcome u) :=
        ih (Encloses.holding _ u.held)
      obtain ⟨hr, unaltered⟩ := rest w' r u' hw ran
      exact ⟨.again hu (by simp [Value.NodeFree, more]) hr, unaltered⟩
    · next free => exact .pure (.settled hu (Bool.eq_false_of_not_eq_true free))

theorem settling_always (h : ForcesDeep outcome v r) (parallel : Bool) {x : Eval Value}
    (plain : x.Plain) (hx : Encloses w x (force parallel v unboundedDepth)) :
    (x >>= fun u => if u.containsNode then perform (.settle u parallel) else pure u).Always w
      r := by
  have rest (u : Value) : (if u.containsNode then perform (.settle u parallel)
      else pure u).Plain := (Protocol.settleRest parallel u).routine
  induction h generalizing x with
  | error h => exact .bind_error (hx.always (functional.force_always admitted h parallel))
  | @settled v u h free =>
    refine .bind plain rest (hx.always (functional.force_always admitted h parallel)) ?_
    rw [show u.containsNode = false from free]
    exact .pure u
  | @again v u r h more _ ih =>
    refine .bind plain rest (hx.always (functional.force_always admitted h parallel)) ?_
    rw [if_pos (Bool.eq_true_of_not_eq_false more)]
    have settled : (settle parallel u).Always w r :=
      ih (.holding _ (force_plain parallel u _)) (Encloses.holding _ u.held)
    exact .perform settled

theorem forceDeep_ends_iff {w' : World} (hw : w.Resembles w') (parallel : Bool) :
    (∃ u, (forceDeep parallel v).Ends w' r u) ↔ ForcesDeep outcome v r := by
  constructor
  · rintro ⟨u, fuel, ran⟩
    exact (functional.settling_only admitted fuel parallel (.refl _) w' r u hw ran).1
  · intro h
    obtain ⟨u, ends, -⟩ :=
      functional.settling_always admitted h parallel (force_plain parallel v _) (.refl _) w' hw
    exact ⟨u, ends⟩

end World.Functional

end ReactiveScript
