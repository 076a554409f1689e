import ReactiveScript.Proofs.RecursionLimit

/-!
# The places of errors

Every execution that an error leaves attaches its place to the error, if this place is known and the
error has none yet. An error without a place that leaves a nest of executions is thus placed at the
innermost one with a known segment, however it came up: in a body, at the recursion limit, or as a
corruption of the scope stack. No handler may be in the way, and none comes up in an evaluation.
-/

namespace ReactiveScript

open Eval

namespace EvalError

variable {e : EvalError} {s : Segment} {segments : List Segment}

/-- The error at the first known one of some segments, or at none. -/
def placed (e : EvalError) (segments : List Segment) : EvalError :=
  { e with source := segments.find? Segment.isKnown }

theorem placed_nil (h : e.source = none) : e.placed [] = e := by
  cases e
  cases h
  rfl

/-- A further segment counts if none of those before it is known. -/
theorem withSource_placed (e : EvalError) (segments : List Segment) (s : Segment) :
    (e.placed segments).withSource s = e.placed (segments ++ [s]) := by
  rcases found : segments.find? Segment.isKnown with _ | first
  · cases known : s.isKnown <;> simp [withSource, placed, found, known]
  · simp [withSource, placed, found]

theorem withSource_eq_placed (h : e.source = none) (s : Segment) :
    e.withSource s = e.placed [s] := by
  have attached := e.withSource_placed [] s
  rwa [placed_nil h] at attached

end EvalError

namespace World

variable {w w' : World}

/-- No scope has an error handler. -/
def Handlerless (w : World) : Prop :=
  ∀ (s : ScopeId) (scope : Scope), w.scopes[s]? = some scope → scope.handler = none

theorem Handlerless.of_sameNet (h : w.Handlerless) (same : w.SameNet w') : w'.Handlerless :=
  fun s scope found => (same.scopes s scope found).elim id (h s scope)

theorem Handlerless.modifyScope (h : w.Handlerless) (id : ScopeId) {f : Scope → Scope}
    (hf : ∀ scope, (f scope).handler = scope.handler) : (w.modifyScope id f).Handlerless := by
  intro s scope hs
  simp only [World.modifyScope, Array.getElem?_modify] at hs
  split at hs
  · obtain ⟨old, hold, rfl⟩ := Option.map_eq_some_iff.mp hs
    rw [hf, h s old hold]
  · exact h s scope hs

/-- Where no scope has a handler, none is found. -/
theorem Handlerless.not_handledBy (hw : w.Handlerless) (h : Handler) : ¬ w.HandledBy h := by
  rintro ⟨scope, k, -, found⟩
  induction found with
  | here found has => cases (hw _ _ found).symm.trans has
  | outward _ _ _ _ ih => exact ih

end World

/-- No evaluation installs a handler. -/
def handlerless : Discipline fun _ => True where
  inv := World.Handlerless
  rel _ _ := True
  refl _ := trivial
  trans _ _ := trivial
  change {w w'} h hw := by
    refine ⟨?_, trivial⟩
    cases h with
    | report severity message fields =>
      unfold World.report
      split <;> exact hw
    | addRoot name => exact hw.of_sameNet (.addScope w rfl)
    | addChild parent name => exact hw.of_sameNet (.addScope w rfl)
    | bind scope name b => exact hw.modifyScope scope fun _ => rfl
    | listenVariable scope name key _ => exact hw.modifyScope scope fun _ => rfl
    | _ => exact hw
  enter hb hw := by
    cases hb <;> exact hw
  leave {enter leave w w'} hb _ hw' _ := by
    refine ⟨?_, trivial⟩
    cases hb with
    | scope s => exact hw'.of_sameNet (.popScope w' s)
    | _ => exact hw'
  clearCorruption hw := ⟨hw, trivial⟩
  popOutOfOrder {first second w} perform _ hw := by
    have ends : ∃ (u : World) (a b : ScopeId),
        (Eval.popOutOfOrder first second perform w).2 = (u.popScope a).popScope b ∧
        u.scopes = ((w.addRoot first).2.addRoot second).2.scopes := ⟨_, _, _, rfl, rfl⟩
    obtain ⟨u, a, b, ends, same⟩ := ends
    have added : ((w.addRoot first).2.addRoot second).2.Handlerless :=
      (hw.of_sameNet (.addScope w rfl)).of_sameNet (.addScope _ rfl)
    have pushed : u.Handlerless := fun s scope found => added s scope (same ▸ found)
    rw [ends]
    exact ⟨(pushed.of_sameNet (.popScope u a)).of_sameNet (.popScope _ b), trivial⟩

theorem handlerless_marks : handlerless.Marks where
  refuse _ hw := ⟨hw, trivial⟩
  enter _ hw := hw
  leave _ _ hw' _ := ⟨hw', trivial⟩

theorem World.Handlerless.of_ends {α : Type} {x : Eval α} {w w' : World} {r : Except EvalError α}
    (h : w.Handlerless) (hx : x.Plain) (ends : x.Ends w r w') : w'.Handlerless := by
  obtain ⟨fuel, ends⟩ := ends
  have kept := (handlerless_marks.keeps_run fuel hx w
    ⟨w.allowed_of_forall fun _ => trivial, h⟩).1.inv
  rwa [ends] at kept

theorem Eval.Awaits.handlerless {α : Type} {t : Task} {u w : World} {x : Eval α}
    {undo : World → World} (h : x.Awaits t u w undo) (hw : w.Handlerless) : u.Handlerless := by
  induction h with
  | here => exact hw
  | next hx _ first _ ih => exact ih (hw.of_ends hx first)
  | bracket hb _ ih => exact ih (ReactiveScript.handlerless.enter hb hw)
  | notifying _ _ ih => exact ih hw
  | inside _ ih | look _ ih | first _ ih => exact ih hw

/-- No corruption of the scope stack is pending when the body of an execution has ended. -/
def Execution.EndsIntact (x : Execution) : Prop :=
  ∀ r u, x.body.Ends x.inside r u → x.Intact u

/-- A body ends in one way only. -/
theorem Execution.EndsIntact.of_ends {x : Execution} {r : Except EvalError Value} {u : World}
    (ended : x.body.Ends x.inside r u) (intact : x.Intact u) : x.EndsIntact := by
  intro r' u' ended'
  obtain ⟨-, rfl⟩ := Ends.unique x.body_plain ended ended'
  exact intact

/-- An execution that is asked for in a world brings up an error at a place: its body raises it, the
recursion limit refuses it, or a corruption is pending when its body has ended. -/
inductive BringsUp (e : EvalError) : NodeId → World → Segment → Prop where
  | raised (x : Execution) {u : World} (failed : x.body.Ends x.inside (.error e) u)
      (intact : x.Intact u) : BringsUp e x.id x.before x.node.source
  | refused {id : NodeId} {n : Node} {w : World} (found : w.node? id = some n)
      (limit : w.settings.maxRecursionDepth ≤ w.context.calls.size)
      (same : e = EvalError.recursionLimitExceeded w.settings.maxRecursionDepth) :
      BringsUp e id w n.source
  | corrupted (x : Execution) {r : Except EvalError Value} {u : World}
      (ended : x.body.Ends x.inside r u)
      (pending : (u.popAll x.scopes).context.corruption = some e) :
      BringsUp e x.id x.before x.node.source

namespace Execution

variable {x : Execution} {e : EvalError} {u : World}

/-- Without a handler an execution ends with the error of its body at its place. -/
theorem ends_of_failed (hu : u.Handlerless) (failed : x.body.Ends x.inside (.error e) u) :
    (execute x.id).Ends x.before (x.outcome u (.error (x.located e)))
      (x.after u (.error (x.located e))) :=
  ends_of_stays failed (.inr hu.not_handledBy)

end Execution

theorem BringsUp.ends {e : EvalError} {id : NodeId} {w : World} {s : Segment}
    (h : BringsUp e id w s) (hw : w.Handlerless) :
    ∃ w', (execute id).Ends w (.error (e.withSource s)) w' := by
  cases h with
  | raised x failed intact =>
    have silent := (hw.of_sameNet x.sameNet_inside).of_ends x.body_plain failed
    have ended := x.ends_of_failed silent failed
    rw [Activation.outcome_of_intact intact] at ended
    exact ⟨_, ended⟩
  | refused found limit same =>
    subst same
    exact ⟨_, execute_refused found limit⟩
  | @corrupted x r u ended pending =>
    have silent := (hw.of_sameNet x.sameNet_inside).of_ends x.body_plain ended
    obtain ⟨s, recovered⟩ : ∃ s, (runRecovering x.id x.node).Ends x.inside s u := by
      have rest := fun outcome =>
        (Protocol.recoverOutcome (p := fun _ => True) x.node outcome).routine
      cases r with
      | ok v =>
        exact ⟨.ok v, .bind (.attempt x.body_plain) rest ended.attempt (.of_apply fun _ => rfl)⟩
      | error e₁ =>
        exact ⟨.error (x.located e₁), .bind (.attempt x.body_plain) rest ended.attempt
          (.of_apply fun perform =>
            Execution.recover_of_stays perform (.inr silent.not_handledBy))⟩
    exact ⟨_, Execution.ends_iff.mpr
      ⟨s, u, recovered, Activation.outcome_of_corrupted pending s, rfl⟩⟩

namespace Nest

variable {root id : NodeId} {start u u' : World} {levels : List Execution} {e : EvalError}
  {segments : List Segment}

theorem handlerless (h : Nest root start levels id u) (hs : start.Handlerless) : u.Handlerless := by
  induction h with
  | nil => exact hs
  | @cons _ x _ _ _ _ _ _ awaits ih => exact awaits.handlerless (ih.of_sameNet x.sameNet_inside)

/-- An error passes through all executions under way, and each of them adds its segment to those
from which the place of the error is taken. -/
theorem passes_placed (h : Nest root start levels id u) (hs : start.Handlerless)
    (intact : ∀ x ∈ levels, x.EndsIntact)
    (ends : (execute id).Ends u (.error (e.placed segments)) u') :
    ∃ w', (execute root).Ends start
      (.error (e.placed (segments ++ levels.map fun x => x.node.source))) w' := by
  induction h generalizing segments u' with
  | nil => exact ⟨u', by simpa using ends⟩
  | @cons outer x id depth parallel u undo rest awaits ih =>
    rw [List.forall_mem_cons] at intact
    have failed : x.body.Ends x.inside (.error (e.placed segments)) (undo u') :=
      awaits.passes (.bind_error ends)
    have silent : (undo u').Handlerless :=
      ((rest.handlerless hs).of_sameNet x.sameNet_inside).of_ends x.body_plain failed
    have ended := x.ends_of_failed silent failed
    rw [Activation.outcome_of_intact (intact.1 _ _ failed), Activation.located,
      EvalError.withSource_placed] at ended
    obtain ⟨w', ended⟩ := ih intact.2 ended
    rw [List.append_assoc] at ended
    exact ⟨w', ended⟩

end Nest

/-- An error without a place that is brought up in the end of a nest of executions leaves the whole
nest, if no scope has a handler and no corruption is pending further out. It keeps its kind, its
message and its causes, and its place is the first known segment, the innermost one first. -/
theorem errors_at_innermost_known {root id : NodeId} {start u : World} {levels : List Execution}
    {e : EvalError} {place : Segment} (nest : Nest root start levels id u)
    (silent : start.Handlerless) (intact : ∀ x ∈ levels, x.EndsIntact)
    (fresh : e.source = none) (arises : BringsUp e id u place) :
    ∃ e' w', (execute root).Ends start (.error e') w' ∧
      (∀ r v, (execute root).Ends start r v → r = .error e') ∧
      e'.kind = e.kind ∧ e'.message = e.message ∧ e'.causes = e.causes ∧
      e'.source = (place :: levels.map fun x => x.node.source).find? Segment.isKnown := by
  obtain ⟨u', ends⟩ := arises.ends (nest.handlerless silent)
  rw [EvalError.withSource_eq_placed fresh] at ends
  obtain ⟨w', ended⟩ := nest.passes_placed silent intact ends
  exact ⟨_, w', ended, fun r v other => (Ends.unique (Protocol.execute root).routine other ended).1,
    rfl, rfl, rfl, rfl⟩

/-- An operator in a text with three of them. -/
def operatorAt (offset : Nat) : Segment := ⟨some ⟨some "a.ds", "x y z"⟩, ⟨offset, offset + 1⟩⟩

def raisingNode (source : Segment) : Node :=
  { operation := "fail", source := source, inputs := [], flags := {}
    body := .program [.raise (EvalError.exception "failed")], captured := none, trigger := .inputs }

def forcingNode (source : Segment) (id : NodeId) : Node :=
  { operation := "fix", source := source, inputs := [.node ⟨id, "inner"⟩], flags := {}
    body := .program [.input, .fix 1], captured := none, trigger := .inputs }

/-- A node that fails at no known place, a node that forces it, and one that forces that one. -/
def towerWorld : World where
  nodes := #[raisingNode Segment.unknown, forcingNode (operatorAt 2) 1,
    forcingNode (operatorAt 4) 2]

theorem failure_at_middle :
    ∃ e w', (execute 3).Ends towerWorld (.error e) w' ∧ e.kind = .exception ∧
      e.message = "failed" ∧ e.causes = [] ∧ e.source = some (operatorAt 2) := by
  let outer : Execution := ⟨⟨3, forcingNode (operatorAt 4) 2, towerWorld⟩, rfl, by decide⟩
  let middle : Execution := ⟨⟨2, forcingNode (operatorAt 2) 1, outer.inside⟩, rfl, by decide⟩
  let inner : Execution := ⟨⟨1, raisingNode Segment.unknown, middle.inside⟩, rfl, by decide⟩
  have awaitsOuter : outer.body.Awaits (.resolve 2 1 false) outer.inside outer.inside _ :=
    .runActions ⟨0, rfl⟩ (.first (.force_node false ⟨2, "inner"⟩ (by decide) _))
  have awaitsMiddle : middle.body.Awaits (.resolve 1 1 false) middle.inside middle.inside _ :=
    .runActions ⟨0, rfl⟩ (.first (.force_node false ⟨1, "inner"⟩ (by decide) _))
  have nest : Nest 3 towerWorld [middle, outer] 1 inner.before :=
    .cons (.cons .nil awaitsOuter) awaitsMiddle
  have failed : inner.body.Ends inner.inside (.error (EvalError.exception "failed")) inner.inside :=
    ⟨0, rfl⟩
  have silent : towerWorld.Handlerless := fun s scope found => by
    cases found.symm.trans (Array.getElem?_eq_none (Nat.zero_le s))
  have located : (execute 1).Ends inner.before (.error (EvalError.exception "failed")) _ :=
    ⟨0, rfl⟩
  have middleIntact : middle.EndsIntact :=
    .of_ends (awaitsMiddle.passes (.bind_error located)) rfl
  have relocated : (execute 2).Ends middle.before
    (.error ((EvalError.exception "failed").withSource (operatorAt 2))) _ := ⟨1, rfl⟩
  have outerIntact : outer.EndsIntact :=
    .of_ends (awaitsOuter.passes (.bind_error relocated)) rfl
  obtain ⟨e, w', ended, -, kind, message, causes, source⟩ := errors_at_innermost_known nest silent
    (by simpa using ⟨middleIntact, outerIntact⟩) rfl (.raised inner failed rfl)
  exact ⟨e, w', ended, kind, message, causes, source⟩

/-- Nodes in a script before which two scopes were popped out of order. -/
def tornNest : World :=
  let fresh : World :=
    { nodes := #[raisingNode Segment.unknown, forcingNode Segment.unknown 1]
      scopes := #[{ name := "a", parent := none }, { name := "b", parent := none }] }
  let pushed := (fresh.modifyContext fun c => c.push 0).modifyContext fun c => c.push 1
  (pushed.popScope 0).popScope 1

/-- The error that leaves a nest is not always the one that was raised in the innermost body: the
corruption of the scope stack that is pending takes its place. -/
theorem corruption_replaces_failure :
    let failure := EvalError.exception "failed"
    let outer : Execution := ⟨⟨2, forcingNode Segment.unknown 1, tornNest⟩, rfl, by decide⟩
    let inner : Execution := ⟨⟨1, raisingNode Segment.unknown, outer.inside⟩, rfl, by decide⟩
    Nest 2 tornNest [outer] 1 inner.before ∧ tornNest.Handlerless ∧ failure.source = none ∧
      inner.body.Ends inner.inside (.error failure) inner.inside ∧
      ∃ e w', (execute 2).Ends tornNest (.error e) w' ∧
        (∀ r v, (execute 2).Ends tornNest r v → r = .error e) ∧
        e.kind ≠ failure.kind ∧ e.message ≠ failure.message := by
  intro failure outer inner
  have awaits : outer.body.Awaits (.resolve 1 1 false) outer.inside outer.inside _ :=
    .runActions ⟨0, rfl⟩ (.first (.force_node false ⟨1, "inner"⟩ (by decide) _))
  have silent : tornNest.Handlerless := fun s scope found => by
    match s with
    | 0 | 1 =>
      cases found
      rfl
    | s + 2 => cases found.symm.trans (Array.getElem?_eq_none (Nat.le_add_left 2 s))
  have torn : ∃ e w', (execute 2).Ends tornNest (.error e) w' ∧ e.kind ≠ failure.kind ∧
      e.message ≠ failure.message := ⟨_, _, ⟨1, rfl⟩, by decide, by decide⟩
  obtain ⟨e, w', ended, kind, message⟩ := torn
  exact ⟨.cons .nil awaits, silent, rfl, ⟨0, rfl⟩, e, w', ended, fun r v other =>
    (Ends.unique (Protocol.execute 2).routine other ended).1, kind, message⟩

end ReactiveScript
