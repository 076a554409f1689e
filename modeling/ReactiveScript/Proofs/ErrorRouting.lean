import Mathlib.Data.Fintype.Card
import ReactiveScript.Proofs.Propagation

/-!
# The way of an error

An error that is not fatal goes to the handler of the nearest scope outward that has one, and what
the handler makes of it is what the execution makes of it. A fatal error goes to no handler, leaves
all executions under way, and ends the script.
-/

namespace ReactiveScript

open Eval

/-- A handler is called with an error. -/
def Handler.call (h : Handler) (e : EvalError) : Eval Value := do
  note (.handled h.label e.display)
  runProgram none [.error e] h.actions

namespace ScopeTable

variable {t : ScopeTable} {h h' : Handler} {s : ScopeId} {k k' : Nat}

/-- Of a scope and those outward from it, the nearest one that has a handler has this one; it comes
after a number of scopes without one. -/
inductive HandlerAt (t : ScopeTable) (h : Handler) : Nat → ScopeId → Prop where
  | here {s : ScopeId} {scope : Scope} (found : t[s]? = some scope)
      (has : scope.handler = some h) : HandlerAt t h 0 s
  | outward {k : Nat} {s outer : ScopeId} {scope : Scope} (found : t[s]? = some scope)
      (lacks : scope.handler = none) (parent : scope.parent = some outer)
      (rest : HandlerAt t h k outer) : HandlerAt t h (k + 1) s

namespace HandlerAt

theorem iff_of_has {scope : Scope} (found : t[s]? = some scope) (has : scope.handler = some h') :
    t.HandlerAt h k s ↔ k = 0 ∧ h' = h := by
  constructor
  · intro hs
    cases hs with
    | here found' has' =>
      cases found.symm.trans found'
      exact ⟨rfl, Option.some.inj (has.symm.trans has')⟩
    | outward found' lacks _ _ =>
      cases found.symm.trans found'
      cases has.symm.trans lacks
  · rintro ⟨rfl, rfl⟩
    exact .here found has

theorem iff_of_lacks {scope : Scope} (found : t[s]? = some scope) (lacks : scope.handler = none) :
    t.HandlerAt h k s ↔ ∃ j outer, k = j + 1 ∧ scope.parent = some outer ∧ t.HandlerAt h j outer := by
  constructor
  · intro hs
    cases hs with
    | here found' has =>
      cases found.symm.trans found'
      cases lacks.symm.trans has
    | @outward j _ outer _ found' _ parent rest =>
      cases found.symm.trans found'
      exact ⟨j, outer, rfl, parent, rest⟩
  · rintro ⟨j, outer, rfl, parent, rest⟩
    exact .outward found lacks parent rest

theorem unique (hs : t.HandlerAt h k s) (hs' : t.HandlerAt h' k' s) : k = k' ∧ h = h' := by
  induction hs generalizing k' with
  | here found has =>
    obtain ⟨rfl, same⟩ := (iff_of_has found has).mp hs'
    exact ⟨rfl, same⟩
  | outward found lacks parent _ ih =>
    obtain ⟨j, outer, rfl, parent', rest'⟩ := (iff_of_lacks found lacks).mp hs'
    cases parent.symm.trans parent'
    obtain ⟨distance, same⟩ := ih rest'
    exact ⟨congrArg (· + 1) distance, same⟩

theorem exists_nearer (hs : t.HandlerAt h k s) {j : Nat} (hj : j ≤ k) : ∃ u, t.HandlerAt h j u := by
  induction hs with
  | here found has =>
    obtain rfl : j = 0 := Nat.le_zero.mp hj
    exact ⟨_, .here found has⟩
  | outward found lacks parent rest ih =>
    rcases Nat.lt_or_eq_of_le hj with lt | rfl
    · exact ih (Nat.le_of_lt_succ lt)
    · exact ⟨_, .outward found lacks parent rest⟩

theorem lt_size_self (hs : t.HandlerAt h k s) : s < t.size := by
  cases hs with
  | here found | outward found => exact (Array.getElem?_eq_some_iff.mp found).1

/-- The scopes on the way have different distances, so that they are different. -/
theorem lt_size (hs : t.HandlerAt h k s) : k < t.size := by
  have nearer (j : Fin (k + 1)) : ∃ u, t.HandlerAt h j u := hs.exists_nearer (Nat.le_of_lt_succ j.2)
  choose scope away using nearer
  let place (j : Fin (k + 1)) : Fin t.size := ⟨scope j, (away j).lt_size_self⟩
  have injective : Function.Injective place := by
    intro i j he
    have same : scope i = scope j := congrArg Fin.val he
    exact Fin.ext ((away i).unique (same ▸ away j)).1
  have card := Fintype.card_le_of_injective place injective
  rwa [Fintype.card_fin, Fintype.card_fin] at card

end HandlerAt

theorem findSome?_chainFrom {fuel : Nat} :
    ((t.chainFrom fuel s).findSome? fun s => t[s]?.bind Scope.handler) = some h ↔
      ∃ k < fuel, t.HandlerAt h k s := by
  induction fuel generalizing s with
  | zero => simp [chainFrom]
  | succ fuel ih =>
    cases found : t[s]? with
    | none =>
      refine iff_of_false (by simp [chainFrom, found]) ?_
      rintro ⟨k, -, hs⟩
      exact Nat.not_lt.mpr (Array.getElem?_eq_none_iff.mp found) hs.lt_size_self
    | some scope =>
      cases handler : scope.handler with
      | some h' =>
        have first : ((t.chainFrom (fuel + 1) s).findSome? fun s => t[s]?.bind Scope.handler) =
            some h' := by
          simp only [chainFrom, found]
          split <;> simp [found, handler]
        rw [first, Option.some_inj]
        simp [HandlerAt.iff_of_has found handler]
      | none =>
        simp only [HandlerAt.iff_of_lacks found handler]
        cases parent : scope.parent with
        | none => simp [chainFrom, found, parent, handler]
        | some outer =>
          simp only [chainFrom, found, parent, List.findSome?_cons, Option.bind_some, handler, ih,
            Option.some_inj]
          constructor
          · rintro ⟨j, hj, rest⟩
            exact ⟨j + 1, Nat.succ_lt_succ hj, j, outer, rfl, rfl, rest⟩
          · rintro ⟨_, hk, j, _, rfl, rfl, rest⟩
            exact ⟨j, Nat.lt_of_succ_lt_succ hk, rest⟩

/-- The handler that is found is that of the nearest scope outward that has one. -/
theorem handler?_eq_some_iff : t.handler? s = some h ↔ ∃ k, t.HandlerAt h k s := by
  rw [handler?, chain, findSome?_chainFrom]
  exact exists_congr fun k => and_iff_right_of_imp HandlerAt.lt_size

end ScopeTable

namespace World

/-- Of the current scope and those outward from it, the nearest one with a handler has this one. -/
def HandledBy (w : World) (h : Handler) : Prop :=
  ∃ scope k, w.context.current? = some scope ∧ w.scopes.HandlerAt h k scope

theorem HandledBy.unique {w : World} {h h' : Handler} (hw : w.HandledBy h) (hw' : w.HandledBy h') :
    h = h' := by
  obtain ⟨s, k, current, hs⟩ := hw
  obtain ⟨s', k', current', hs'⟩ := hw'
  cases current.symm.trans current'
  exact (hs.unique hs').2

theorem handledBy_iff {w : World} {h : Handler} :
    w.HandledBy h ↔ w.context.current?.bind w.scopes.handler? = some h := by
  simp only [HandledBy, Option.bind_eq_some_iff, ScopeTable.handler?_eq_some_iff,
    exists_and_left]

end World

namespace Execution

variable {x : Execution} {n : Node} {e : EvalError} {h : Handler} {u w' : World}
  {r : Except EvalError Value}

/-- An error that is not fatal goes to the handler that is found from the current scope. -/
theorem recover_apply (perform : Task → Run Value) (mild : ¬ e.isFatal) (u : World) :
    recover n e perform u =
      match u.context.current?.bind u.scopes.handler? with
      | some h => h.call (e.withSource n.source) perform u
      | none => (.error (.raised (e.withSource n.source)), u) := by
  have located : ¬ (e.withSource n.source).isFatal := by rwa [EvalError.withSource_isFatal]
  have current : currentScope? perform u = (.ok u.context.current?, u) := rfl
  rw [recover, bind_apply, current]
  cases u.context.current? with
  | none => rfl
  | some scope =>
    show handleError scope (e.withSource n.source) perform u = _
    rw [handleError, if_neg located, bind_apply, Eval.world, Option.bind_some]
    cases found : u.scopes.handler? scope <;> simp only [found] <;> rfl

/-- The execution ends as the handler does that an error goes to. -/
theorem ends_iff_of_handled (mild : ¬ e.isFatal) (failed : x.body.Ends x.inside (.error e) u)
    (handled : u.HandledBy h) : (execute x.id).Ends x.before r w' ↔
      ∃ s v, (h.call (x.located e)).Ends u s v ∧ x.outcome v s = r ∧ x.after v s = w' := by
  have called (s : Except EvalError Value) (v : World) :
      (recover x.node e).Ends u s v ↔ (h.call (x.located e)).Ends u s v := by
    refine exists_congr fun fuel => Eq.congr_left ?_
    rw [Eval.run, recover_apply _ mild, World.handledBy_iff.mp handled]
    rfl
  simp only [ends_iff_of_error failed, called]

/-- An error stays if it is fatal or has no handler. -/
theorem recover_of_stays (perform : Task → Run Value) (stays : e.isFatal ∨ ∀ h, ¬ u.HandledBy h) :
    recover n e perform u = (.error (.raised (e.withSource n.source)), u) := by
  by_cases fatal : e.isFatal
  · exact recover_of_fatal n fatal u
  · have none : u.context.current?.bind u.scopes.handler? = none :=
      Option.eq_none_iff_forall_ne_some.mpr fun h found =>
        stays.resolve_left fatal h (World.handledBy_iff.mpr found)
    rw [recover_apply _ fatal, none]

theorem ends_of_stays (failed : x.body.Ends x.inside (.error e) u)
    (stays : e.isFatal ∨ ∀ h, ¬ u.HandledBy h) :
    (execute x.id).Ends x.before (x.outcome u (.error (x.located e)))
      (x.after u (.error (x.located e))) :=
  (ends_iff_of_error failed).mpr ⟨_, u, .of_apply fun perform => recover_of_stays perform stays,
    rfl, rfl⟩

end Execution

namespace Script

/-- How far a script has come: the index of the next statement, the last value, the failures so far,
and the world. -/
structure Progress where
  index : Nat
  last : Value
  failures : List EvalError
  world : World

namespace Progress

/-- The next statement is forced. -/
def forced (p : Progress) (statement : Value) : Eval Value :=
  holding p.last.held (force p.world.settings.parallel statement 1)

/-- The failure of the next statement is reported. -/
def reported (p : Progress) (e : EvalError) (u : World) : World :=
  u.report .error ("unhandled error: " ++ e.report) [("statement", Text.ofNat p.index)]

theorem handled_reported (p : Progress) (e : EvalError) (u : World) :
    (p.reported e u).handled = u.handled := by
  rw [reported, World.report]
  split <;> rfl

/-- The statements that are left, forced from here on. -/
def rest (p : Progress) (statements : List Value) : Eval Value :=
  runFrom p.index p.last p.failures statements

/-- A script is at its first statement. -/
def start (root : ScopeId) (statements : List Value) (w : World) : Progress where
  index := 0
  last := .void
  failures := []
  world := { w.modifyContext (fun c => c.push root) with
    inUse := heldByItems statements ++ w.inUse }

end Progress

/-- Statements lead a script from one point to another without ending it. -/
inductive Leads : Progress → List Value → Progress → Prop where
  | nil (p : Progress) : Leads p [] p
  | value {p q : Progress} {statement v : Value} {later : List Value}
      {r : Except EvalError Value} {u : World} (ends : (p.forced statement).Ends p.world r u)
      (outcome : outcomeOf r = .ok v) (h : Leads ⟨p.index + 1, v, p.failures, u⟩ later q) :
      Leads p (statement :: later) q
  | failure {p q : Progress} {statement : Value} {later : List Value} {e : EvalError}
      {r : Except EvalError Value} {u : World} (ends : (p.forced statement).Ends p.world r u)
      (outcome : outcomeOf r = .error e) (goesOn : ¬ (p.world.settings.failFast || e.isFatal))
      (h : Leads ⟨p.index + 1, p.last, p.failures ++ [e], p.reported e u⟩ later q) :
      Leads p (statement :: later) q

variable {p q : Progress} {statement : Value} {statements later : List Value} {u w' : World}
  {r s : Except EvalError Value} {e : EvalError}

/-- After a statement it depends on the outcome how a script goes on. -/
theorem rest_cons (ends : (p.forced statement).Ends p.world r u)
    (next : Eval.Ends (match outcomeOf r with
      | .ok v => runFrom (p.index + 1) v p.failures later
      | .error e => do
        report .error ("unhandled error: " ++ e.report) [("statement", Text.ofNat p.index)]
        if p.world.settings.failFast || e.isFatal then raise e
        else runFrom (p.index + 1) p.last (p.failures ++ [e]) later) u s w') :
    (p.rest (statement :: later)).Ends p.world s w' := by
  have forced : (Eval.attempt (p.forced statement)).Plain :=
    .attempt (.holding _ (Protocol.force _ statement 1).routine)
  refine .look (.bind forced (fun outcome => ?_) ends.attempt next)
  split
  · exact (Protocol.runFrom _ _ _ later).routine
  · refine .bind (Protocol.report _ _ _).routine fun _ => ?_
    split
    · exact .raise _
    · exact (Protocol.runFrom _ _ _ later).routine

/-- A script goes on from the point to which its first statements lead. -/
theorem Leads.rest (h : Leads p statements q) (ends : (q.rest later).Ends q.world s w') :
    (p.rest (statements ++ later)).Ends p.world s w' := by
  induction h with
  | nil p => exact ends
  | value forced outcome _ ih =>
    refine rest_cons forced ?_
    rw [outcome]
    exact ih ends
  | failure forced outcome goesOn _ ih =>
    refine rest_cons forced ?_
    rw [outcome]
    simp only [if_neg goesOn]
    exact ih ends

/-- A fatal error of a statement is that of the script. -/
theorem rest_of_fatal (ends : (p.forced statement).Ends p.world (.error e) u)
    (fatal : e.isFatal) : (p.rest (statement :: later)).Ends p.world (.error e) (p.reported e u) := by
  refine rest_cons ends ?_
  have stops : (p.world.settings.failFast || e.isFatal) = true := by simp [fatal]
  simp only [outcomeOf, if_pos stops]
  exact .of_apply fun _ => rfl

/-- A fatal error of a statement ends the script, whatever the settings; no later statement is
forced. -/
theorem run_of_fatal {root : ScopeId} {w : World}
    (h : Leads (.start root (statements ++ statement :: later) w) statements p)
    (ends : (p.forced statement).Ends p.world (.error e) u) (fatal : e.isFatal) :
    (run root (statements ++ statement :: later)).Ends w (.error e)
      (({ p.reported e u with inUse := w.inUse } : World).popScope root) := by
  have stopped : ((Progress.start root (statements ++ statement :: later) w).rest
      (statements ++ statement :: later)).Ends _ (.error e) (p.reported e u) :=
    h.rest (rest_of_fatal ends fatal)
  exact .withScope root (.holding _ stopped)

end Script

/-- What becomes of an error. An execution whose body fails raises the error itself if it is fatal or
if no scope outward from the current one has a handler, and no handler is called. Otherwise it ends
exactly as the handler of the nearest scope that has one. A corruption that is pending in the end
takes the place of the outcome in any case. A fatal error, such as that of an execution beyond the
recursion limit, leaves all executions under way, and the script, before anything else is done. -/
theorem errors_routed :
    (∀ (x : Execution) (u : World) (r : Except EvalError Value),
      (x.Intact u → x.outcome u r = r) ∧
      ∀ c, (u.popAll x.scopes).context.corruption = some c →
        x.outcome u r = .error (x.located c)) ∧
    (∀ (x : Execution) (e : EvalError) (u : World), x.body.Ends x.inside (.error e) u →
      ((e.isFatal ∨ ∀ h, ¬ u.HandledBy h) →
        ∃ w', (execute x.id).Ends x.before (x.outcome u (.error (x.located e))) w' ∧
          w'.handled = u.handled) ∧
      (¬ e.isFatal → ∀ h, u.HandledBy h → (∀ h', u.HandledBy h' → h' = h) ∧
        ∀ r w', (execute x.id).Ends x.before r w' ↔
          ∃ s v, (h.call (x.located e)).Ends u s v ∧ x.outcome v s = r ∧ x.after v s = w')) ∧
    (∀ (id : NodeId) (n : Node) (w : World), w.node? id = some n →
      w.settings.maxRecursionDepth ≤ w.context.calls.size →
      ∃ e, e.kind = .recursionLimitExceeded ∧ (execute id).Ends w (.error e) w) ∧
    (∀ (root id : NodeId) (start u u' : World) (levels : List Execution) (e : EvalError),
      Nest root start levels id u → start.Named → e.isFatal →
      (execute id).Ends u (.error e) u' →
      ∀ x ∈ levels, ∃ e' w', (execute x.id).Ends x.before (.error e') w' ∧ e'.isFatal ∧
        w'.handled = u'.handled ∧
        (e'.kind = e.kind ∨
          ∃ y ∈ levels, ∃ e₁ v, y.body.Ends y.inside (.error e₁) v ∧ ¬ y.Intact v)) ∧
    ∀ (root : ScopeId) (w : World) (before later : List Value) (statement : Value)
      (p : Script.Progress) (id : NodeId) (depth : Nat) (parallel : Bool) (u u' : World)
      (undo : World → World) (e : EvalError),
      Script.Leads (.start root (before ++ statement :: later) w) before p →
      (p.forced statement).Awaits (.resolve id depth parallel) u p.world undo →
      (execute id).Ends u (.error e) u' → e.isFatal →
      (Script.run root (before ++ statement :: later)).Ends w (.error e)
        (({ p.reported e (undo u') with inUse := w.inUse } : World).popScope root) ∧
      (({ p.reported e (undo u') with inUse := w.inUse } : World).popScope root).handled =
        u'.handled := by
  refine ⟨fun x u r => ⟨fun h => Activation.outcome_of_intact h r, fun c h =>
    Activation.outcome_of_corrupted h r⟩, fun x e u failed => ⟨fun stays => ?_, fun mild h handled =>
      ⟨fun h' handled' => handled'.unique handled, fun r w' =>
        Execution.ends_iff_of_handled mild failed handled⟩⟩, ?_, ?_, ?_⟩
  · exact ⟨_, Execution.ends_of_stays failed stays, x.handled_after u (x.located e)⟩
  · intro id n w found limit
    exact ⟨_, EvalError.withSource_kind .., execute_refused found limit⟩
  · intro root id start u u' levels e nest named fatal ends
    exact nest.passes named fatal ends
  · intro root w before later statement p id depth parallel u u' undo e leads awaits ends fatal
    refine ⟨Script.run_of_fatal leads (awaits.passes (.bind_error ends)) fatal, ?_⟩
    rw [World.handled_popScope]
    exact (p.handled_reported e (undo u')).trans (awaits.handled_undo u')

/-- A handler that answers with a number. -/
def answering : Handler := ⟨"value", [.yield (.int 7)]⟩

/-- A node that fails, and one that forces it, in a script with a handler, where a single node can
be executed at once and failures do not end the script. -/
def guardedWorld : World where
  settings := { Settings.default with maxRecursionDepth := 1, failFast := false }
  nodes := #[
    { operation := "fail", source := Segment.unknown, inputs := [], flags := {}
      body := .program [.raise (EvalError.exception "failed")], captured := none
      trigger := .inputs },
    { operation := "fix", source := Segment.unknown, inputs := [.node ⟨1, "fail"⟩], flags := {}
      body := .program [.input, .fix 1], captured := none, trigger := .inputs }]
  scopes := #[{ name := "script", parent := none, handler := some answering }]

/-- The failure of the first node is handled. Forced by the second one, that node is beyond the
recursion limit; then no handler is called and the script ends before its last statement. -/
theorem handled_unless_fatal :
    let statements : List Value := [.node ⟨2, "fix"⟩, .node ⟨1, "fail"⟩]
    let w := (Script.Progress.start 0 statements guardedWorld).world
    (∃ w', (execute 1).Ends w (.ok (.int 7)) w' ∧ w'.handled = [("value", "EXCEPTION: failed")]) ∧
      ∃ e w', (Script.run 0 statements).Ends guardedWorld (.error e) w' ∧ e.isFatal ∧
        w'.handled = [] := by
  intro statements w
  obtain ⟨-, failing, refused, passes, ends⟩ := errors_routed
  constructor
  · let x : Execution := ⟨⟨1, guardedWorld.nodes[0], w⟩, rfl, by decide⟩
    have handled : x.inside.HandledBy answering := ⟨0, 0, rfl, .here rfl rfl⟩
    obtain ⟨-, ends⟩ := (failing x (EvalError.exception "failed") x.inside ⟨0, rfl⟩).2
      (by decide) answering handled
    have called : (answering.call (x.located (EvalError.exception "failed"))).Ends x.inside
      (.ok (.int 7)) _ := ⟨0, rfl⟩
    exact ⟨_, (ends _ _).mpr ⟨_, _, called, rfl, rfl⟩, rfl⟩
  · let x : Execution := ⟨⟨2, guardedWorld.nodes[1], w⟩, rfl, by decide⟩
    have awaits : x.body.Awaits (.resolve 1 1 false) x.inside x.inside _ :=
      .runActions ⟨0, rfl⟩ (.first (.force_node false ⟨1, "fail"⟩ (by decide) _))
    obtain ⟨e, kind, limited⟩ := refused 1 guardedWorld.nodes[0] x.inside rfl (by decide)
    have fatal : e.isFatal := by rw [EvalError.isFatal, kind]; rfl
    obtain ⟨e', w', ended, fatal', handled, -⟩ :=
      passes 2 1 w x.inside x.inside [x] e (.cons .nil awaits) (.of_sound rfl) fatal limited x
        List.mem_cons_self
    have stopped := ends 0 guardedWorld [] [.node ⟨1, "fail"⟩] (.node ⟨2, "fix"⟩) _ 2 1 false w w' _
      e' (.nil _) (.bracket (.hold _) .here) ended fatal'
    exact ⟨e', _, stopped.1, fatal', stopped.2.trans handled⟩

/-- A script with a handler, before which two scopes were popped out of order. -/
def tornWorld : World :=
  let fresh : World :=
    { nodes := #[guardedWorld.nodes[0]]
      scopes := #[{ name := "script", parent := none, handler := some answering },
        { name := "a", parent := none }, { name := "b", parent := none }] }
  let pushed := (fresh.modifyContext fun c => c.push 1).modifyContext fun c => c.push 2
  (pushed.popScope 1).popScope 2

/-- The handler of a failure answers with a number, and neither the execution nor the script has the
answer as its result. -/
theorem corruption_replaces_answer :
    let failure := EvalError.exception "failed"
    let x : Execution :=
      ⟨⟨1, guardedWorld.nodes[0], (Script.Progress.start 0 [.node ⟨1, "fail"⟩] tornWorld).world⟩,
        rfl, by decide⟩
    x.body.Ends x.inside (.error failure) x.inside ∧ ¬ failure.isFatal ∧
      x.inside.HandledBy answering ∧
      (∃ v, (answering.call (x.located failure)).Ends x.inside (.ok (.int 7)) v) ∧
      (∀ v w', ¬ (execute 1).Ends x.before (.ok v) w') ∧
      ∃ c w', (Script.run 0 [.node ⟨1, "fail"⟩]).Ends tornWorld (.error c) w' ∧
        c.kind = .scopeStackCorrupted ∧ w'.handled = [("value", "EXCEPTION: failed")] := by
  intro failure x
  have raised : ∃ c w', (execute 1).Ends x.before (.error c) w' := ⟨_, _, 0, rfl⟩
  obtain ⟨c, w', raised⟩ := raised
  have unanswered (v : Value) (w' : World) : ¬ (execute 1).Ends x.before (.ok v) w' := by
    intro answered
    cases (Ends.unique (Protocol.execute 1).routine raised answered).1
  exact ⟨⟨0, rfl⟩, by decide, ⟨0, 0, rfl, .here rfl rfl⟩, ⟨_, 0, rfl⟩, unanswered,
    ⟨_, _, ⟨1, rfl⟩, rfl, rfl⟩⟩

end ReactiveScript
