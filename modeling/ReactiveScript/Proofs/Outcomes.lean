import ReactiveScript.Proofs.Construction

/-!
# Outcomes of evaluations

An evaluation gives a result if it ends with the same value up to tags, or with an error of the same
kind and with the same message, and if it changes nothing but what is learnt from the operators that
were executed. This is put together from the parts of an evaluation: from forcing what holds no
node, from evaluating operands in turn, and from executing a node in whose scopes no error is
handled.
-/

namespace ReactiveScript

open Eval Expression

/-- Two results are the same but for tags and the places of errors. -/
def Alike : Except EvalError Value → Except EvalError Value → Prop
  | .ok v, .ok w => v.bare = w.bare
  | .error e, .error f => e.kind = f.kind ∧ e.message = f.message
  | _, _ => False

theorem Alike.of_map_bare {r s : Except EvalError Value} (h : r.map Value.bare = s.map Value.bare) :
    Alike r s := by
  cases r with
  | ok v =>
    cases s with
    | ok w => exact Except.ok.inj h
    | error e => cases h
  | error e =>
    cases s with
    | ok w => cases h
    | error f =>
      cases Except.error.inj h
      exact ⟨rfl, rfl⟩

/-- What is observed when a node has been executed: the type of the result, if it has one. -/
def Node.observation (n : Node) : Except EvalError Value → Observations
  | .ok v => v.typeTag?.toList.map fun t =>
    (PredictionKey.ofInputs n.operation n.source n.inputs, t)
  | .error _ => []

theorem observation_alike {n : Node} {r s : Except EvalError Value} (h : Alike r s) :
    n.observation r = n.observation s := by
  cases r with
  | ok v =>
    cases s with
    | ok w =>
      have types : v.typeTag? = w.typeTag? := by
        rw [← Value.typeTag?_bare v, show v.bare = w.bare from h, Value.typeTag?_bare]
      simp only [Node.observation, types]
    | error e => cases h
  | error e =>
    cases s with
    | ok w => cases h
    | error f => rfl

section forcing

variable {α : Type}

theorem withScope_ofExcept (scope : ScopeId) (r : Except EvalError α) :
    withScope scope (ofExcept r) = ofExcept r := by
  funext perform w
  have popped : (w.modifyContext fun c => c.push scope).popScope scope = w :=
    World.popScope_of_scopes rfl
  cases r <;> exact congrArg (Prod.mk _) popped

theorem withScopes_ofExcept (scopes : ScopeStack) (r : Except EvalError α) :
    withScopes scopes (ofExcept r) = ofExcept r := by
  induction scopes with
  | nil => rfl
  | cons scope outer ih => rw [withScopes, withScope_ofExcept, ih]

/-- On whichever line of execution a child is forced, it sees and leaves nothing. -/
theorem child_ofExcept (parallel single : Bool) (r : Except EvalError α) :
    child parallel single (ofExcept r) = ofExcept r := by
  funext perform w
  cases parallel with
  | false => rfl
  | true =>
    show (if single || w.context.isWorker then withScopes w.context.scopes (ofExcept r)
      else onWorker w.context.scopes (ofExcept r)) perform w = _
    split
    · rw [withScopes_ofExcept]
    · rw [onWorker, onLine, withScopes_ofExcept]
      cases r <;> rfl

theorem child_pure (parallel single : Bool) (a : α) :
    child parallel single (pure a : Eval α) = pure a := child_ofExcept parallel single (.ok a)

/-- A value that is no node is forced to depth one by joining its tags. -/
theorem force_eq_joined (parallel : Bool) {v : Value} (h : v.isNode = false) :
    force parallel v 1 = pure v.joined := by
  induction v using Value.joined.induct with
  | case1 v m ih =>
    rw [force, if_neg Nat.one_ne_zero, ih h]
    rfl
  | case2 v plain =>
    cases v with
    | node n => cases h
    | tagged v m => exact absurd rfl (plain v m)
    | _ => rfl

mutual

/-- Forcing a value without nodes does nothing but to join its tags. -/
theorem force_nodeFree (parallel : Bool) (v : Value) (h : v.NodeFree) (depth : Nat) :
    ∃ u, force parallel v depth = pure u ∧ u.bare = v.bare := by
  cases v with
  | node n => cases h
  | tagged v m =>
    by_cases hd : depth = 0
    · exact ⟨.tagged v m, by rw [force, if_pos hd], rfl⟩
    · obtain ⟨u, hu, hb⟩ := force_nodeFree parallel v h depth
      exact ⟨u.withMetadata m, by rw [force, if_neg hd, hu]; rfl, by simpa using hb⟩
  | list items =>
    by_cases hd : depth ≤ 1
    · exact ⟨.list items, by rw [force, if_pos hd], rfl⟩
    · obtain ⟨us, hu, hb⟩ := forceItems_nodeFree parallel (items.length = 1) items
        (Value.nodeFree_list.mp h) (depth - 1)
      exact ⟨.list us, by rw [force, if_neg hd, hu]; rfl, by simpa using hb⟩
  | map entries =>
    by_cases hd : depth ≤ 1
    · exact ⟨.map entries, by rw [force, if_pos hd], rfl⟩
    · obtain ⟨us, hu, hb⟩ := forceEntries_nodeFree parallel (entries.length = 1) entries
        (Value.nodeFree_map.mp h) (depth - 1)
      exact ⟨.map us, by rw [force, if_neg hd, hu]; rfl, by simpa using hb⟩
  | _ => exact ⟨_, by rw [force] <;> simp, rfl⟩

theorem forceItems_nodeFree (parallel single : Bool) (items : List Value) (h : ∀ v ∈ items, v.NodeFree)
    (depth : Nat) :
    ∃ us, forceItems parallel single items depth = pure us ∧
      us.map Value.bare = items.map Value.bare := by
  cases items with
  | nil => exact ⟨[], rfl, rfl⟩
  | cons v rest =>
    obtain ⟨u, hu, hb⟩ := force_nodeFree parallel v (h v (by simp)) depth
    obtain ⟨us, hus, hbs⟩ := forceItems_nodeFree parallel single rest
      (fun v hv => h v (List.mem_cons_of_mem _ hv)) depth
    refine ⟨u :: us, ?_, by rw [List.map_cons, hb, hbs]; rfl⟩
    rw [forceItems, hu, hus, child_pure]
    rfl

theorem forceEntries_nodeFree (parallel single : Bool) (entries : List (String × Value))
    (h : ∀ v ∈ OrderedMap.values entries, v.NodeFree) (depth : Nat) :
    ∃ us, forceEntries parallel single entries depth = pure us ∧
      OrderedMap.mapValues Value.bare us = OrderedMap.mapValues Value.bare entries := by
  cases entries with
  | nil => exact ⟨[], rfl, rfl⟩
  | cons e rest =>
    obtain ⟨key, v⟩ := e
    obtain ⟨u, hu, hb⟩ := force_nodeFree parallel v (h v (by simp [OrderedMap.values])) depth
    obtain ⟨us, hus, hbs⟩ := forceEntries_nodeFree parallel single rest
      (fun v hv => h v (List.mem_cons_of_mem _ hv)) depth
    refine ⟨(key, u) :: us, ?_, ?_⟩
    · rw [forceEntries, hu, hus, child_pure]
      rfl
    · rw [OrderedMap.mapValues, List.map_cons, hb]
      exact congrArg _ hbs

end

end forcing

/-- An evaluation gives a result up to tags and the places of errors. Meanwhile something is
observed, and nothing else is changed. What was observed before and what is in use do not matter. -/
def Eval.Gives (x : Eval Value) (w : World) (r : Except EvalError Value) (seen : Observations) :
    Prop :=
  ∀ learner inUse, ∃ s learner',
    x.Ends { w with learner, inUse } s { w with learner := learner', inUse } ∧ Alike s r ∧
      learner'.observations = seen ++ learner.observations

namespace Eval.Gives

variable {x : Eval Value} {f : Value → Eval Value} {w : World} {r : Except EvalError Value}
  {v : Value} {seen seen' : Observations}

theorem ofExcept {s : Except EvalError Value} (h : Alike s r) : (Eval.ofExcept s).Gives w r [] :=
  fun learner _ => ⟨s, learner, .ofExcept s _, h, rfl⟩

theorem pure {u : Value} (h : u.bare = v.bare) : (Pure.pure u : Eval Value).Gives w (.ok v) [] :=
  ofExcept (s := .ok u) h

theorem bind (hx : x.Plain) (hf : ∀ u, (f u).Plain) (h : x.Gives w (.ok v) seen)
    (h' : ∀ u, u.bare = v.bare → (f u).Gives w r seen') : (x >>= f).Gives w r (seen' ++ seen) := by
  intro learner inUse
  obtain ⟨s, learner₁, ends, alike, observed⟩ := h learner inUse
  cases s with
  | error e => cases alike
  | ok u =>
    obtain ⟨s, learner₂, ends', alike', observed'⟩ := h' u alike learner₁ inUse
    refine ⟨s, learner₂, .bind hx hf ends ends', alike', ?_⟩
    rw [observed', observed, List.append_assoc]

/-- What follows is not observed. -/
theorem finish (hx : x.Plain) (hf : ∀ u, (f u).Plain) (h : x.Gives w (.ok v) seen)
    (h' : ∀ u, u.bare = v.bare → (f u).Gives w r []) : (x >>= f).Gives w r seen := bind hx hf h h'

theorem bind_error {e : EvalError} (h : x.Gives w (.error e) seen) :
    (x >>= f).Gives w (.error e) seen := by
  intro learner inUse
  obtain ⟨s, learner', ends, alike, observed⟩ := h learner inUse
  cases s with
  | ok u => cases alike
  | error e' => exact ⟨.error e', learner', .bind_error ends, alike, observed⟩

theorem holding (held : List Held) (h : x.Gives w r seen) :
    (Eval.holding held x).Gives w r seen := by
  intro learner inUse
  obtain ⟨s, learner', ends, alike, observed⟩ := h learner (held ++ inUse)
  have ends' := Ends.holding held (w := { w with learner, inUse }) ends
  exact ⟨s, learner', ends', alike, observed⟩

theorem perform {t : Task} (h : (step t).Gives w r seen) : (Eval.perform t).Gives w r seen := by
  intro learner inUse
  obtain ⟨s, learner', ends, rest⟩ := h learner inUse
  exact ⟨s, learner', .perform ends, rest⟩

end Eval.Gives

section operations

variable {w : World} {l r : Value} {a b : Except EvalError Value} {seen seen' : Observations}

theorem onConcrete_gives {f : Value → Value} (hf : ∀ v, f v.bare = (f v).bare)
    (h : (fix l 1).Gives w a seen) : (onConcrete f l).Gives w (do return f (← a)) seen := by
  cases a with
  | error e => exact .bind_error h
  | ok v =>
    refine .finish (Protocol.fix l 1).routine (fun _ => .pure _) h fun u hu => .pure ?_
    rw [← hf, hu, hf]

/-- Two operands are evaluated in turn, the result of the first being held meanwhile. -/
theorem inTurn_gives {x y : Eval Value} {f : Value → Value → Except EvalError Value}
    (hf : ∀ l r, f l.bare r.bare = (f l r).map Value.bare) (hx : x.Plain) (hy : y.Plain)
    (hl : x.Gives w a seen) (hr : y.Gives w b seen') :
    Gives (do
        let l ← x
        let r ← holding l.held y
        ofExcept (f l r)) w
      (do f (← a) (← b))
      (observedAfter (fun _ => true) a seen' ++ seen) := by
  have apply (l r : Value) : (ofExcept (f l r)).Plain := .ofExcept _
  cases a with
  | error e => exact .bind_error hl
  | ok v =>
    refine .bind hx (fun l => .bind (.holding _ hy) (apply l)) hl fun u hu => ?_
    cases b with
    | error e => exact .bind_error (.holding _ hr)
    | ok v' =>
      refine .finish (.holding _ hy) (apply u) (.holding _ hr) fun u' hu' => ?_
      refine .ofExcept (.of_map_bare ?_)
      show (f u u').map Value.bare = (f v v').map Value.bare
      rw [← hf, hu, hu', hf]

/-- The right operand of a connective is forced if the left one does not decide. -/
theorem evaluateBinary_connective (op : Connective) (l r : Value) :
    evaluateBinary op.operator l r = (fix l 1 >>= fun l =>
      match op.decision? l with
      | some result => pure result
      | none => holding l.held (onConcrete Connective.truthOf r)) := by
  cases op with
  | and =>
    refine congrArg (fix l 1 >>= ·) (funext fun l => ?_)
    simp only [Connective.decision?]
    split
    · rfl
    · split <;> rfl
  | or =>
    refine congrArg (fix l 1 >>= ·) (funext fun l => ?_)
    simp only [Connective.decision?]
    split
    · rfl
    · split <;> rfl

theorem connective_gives (op : Connective) (hl : (fix l 1).Gives w a seen)
    (hr : (fix r 1).Gives w b seen') :
    (evaluateBinary op.operator l r).Gives w
      (do
        let v ← a
        match op.decision? v with
        | some result => .ok result
        | none => return Connective.truthOf (← b))
      (observedAfter (fun v => (op.decision? v).isNone) a seen' ++ seen) := by
  rw [evaluateBinary_connective]
  have next (u : Value) : Plain (match op.decision? u with
      | some result => pure result
      | none => holding u.held (onConcrete Connective.truthOf r)) := by
    split
    · exact .pure _
    · exact .holding _ (Protocol.onConcrete _ r).routine
  cases a with
  | error e => exact .bind_error hl
  | ok v =>
    refine .bind (Protocol.fix l 1).routine next hl fun u hu => ?_
    show Gives (match op.decision? u with
        | some result => pure result
        | none => holding u.held (onConcrete Connective.truthOf r)) w
      (match op.decision? v with
        | some result => .ok result
        | none => do return Connective.truthOf (← b))
      (if (op.decision? v).isNone then seen' else [])
    have decided : (op.decision? u).map Value.bare = (op.decision? v).map Value.bare := by
      rw [← op.decision?_bare, hu, op.decision?_bare]
    cases hv : op.decision? v with
    | some result =>
      rw [hv] at decided
      obtain ⟨result', hu', hb⟩ := Option.map_eq_some_iff.mp decided
      rw [hu']
      exact .pure hb
    | none =>
      rw [hv, Option.map_none, Option.map_eq_none_iff] at decided
      rw [decided]
      exact .holding _ (onConcrete_gives Connective.truthOf_bare hr)

end operations

/-- Nodes can be executed in a world, one inside the other, up to a number: the recursion limit
admits them, no error handler is installed in the active scopes, and no corruption of the scope
stack is left to be reported. -/
structure World.Admits (w : World) (height : Nat) : Prop where
  depth : w.context.calls.size + height ≤ w.settings.maxRecursionDepth
  handler : ∀ scope, w.context.current? = some scope → w.scopes.handler? scope = none
  corruption : w.context.corruption = none

theorem World.Admits.mono {w : World} {height more : Nat} (h : w.Admits more)
    (hle : height ≤ more) : w.Admits height :=
  ⟨Nat.le_trans (Nat.add_le_add_left hle _) h.depth, h.handler, h.corruption⟩

/-- A node counts as executing. -/
def World.entering (w : World) (id : NodeId) : World := w.modifyContext fun c => c.enterCall id

theorem World.Admits.entering {w : World} {height : Nat} (h : w.Admits (height + 1))
    (id : NodeId) : (w.entering id).Admits height where
  depth := by
    have := h.depth
    simp only [World.entering, World.modifyContext, Context.enterCall, CallStack.push]
    omega
  handler := h.handler
  corruption := h.corruption

/-- A node runs in the scopes that are active in a world. -/
structure Node.RunsInPlace (n : Node) (w : World) : Prop where
  captured : n.captured = none
  newScope : n.flags.newScope = false
  placed : n.scopeHint = none ∨ w.context.current? ≠ none

section execution

variable {w : World} {id : NodeId} {n : Node} {op : Operator} {source : Segment}
  {inputs : List Value} {body : Body} {r : Except EvalError Value} {seen : Observations}

theorem Node.Computes.observation_eq (hc : n.Computes op source inputs body)
    (r : Except EvalError Value) :
    n.observation r = Expression.observation op source (inputs.map Value.typeName) r := by
  cases r with
  | ok v =>
    rw [Node.observation, hc.operation, hc.source, hc.inputs]
    rfl
  | error e => rfl

theorem Node.Computes.runsInPlace (hc : n.Computes op source inputs body) (w : World) :
    n.RunsInPlace w := by
  refine ⟨hc.captured, hc.newScope, .inl ?_⟩
  rw [Node.scopeHint, hc.trigger]

theorem inScopesOf_apply (h : n.RunsInPlace w) (x : Eval Value) (perform : Task → Run Value) :
    inScopesOf n x perform w = x perform w := by
  have fresh : withFreshScope n x = x := by
    rw [withFreshScope, h.newScope]
    rfl
  have current : currentScope? perform w = (.ok w.context.current?, w) := rfl
  rw [inScopesOf, h.captured, fresh]
  show withHint n x perform w = x perform w
  rw [withHint, bind_apply, current]
  rcases h.placed with hint | placed
  · rw [hint]
    cases w.context.current? <;> rfl
  · cases hs : w.context.current? with
    | none => exact absurd hs placed
    | some scope => rfl

/-- Without a handler an error is raised with its place. -/
theorem recover_ends {height : Nat} (h : w.Admits height) (e : EvalError) :
    (recover n e).Ends w (.error (e.withSource n.source)) w := by
  have current (perform : Task → Run Value) :
      currentScope? perform w = (.ok w.context.current?, w) := rfl
  refine .of_apply fun perform => ?_
  rw [recover, bind_apply, current]
  cases hs : w.context.current? with
  | none => rfl
  | some scope =>
    show handleError scope (e.withSource n.source) perform w = _
    unfold handleError
    split
    · rfl
    · rw [bind_apply, Eval.world]
      simp only [h.handler scope hs]
      rfl

theorem runRecovering_ends {height : Nat} {w' : World} (h : w'.Admits height)
    (hb : (runBody id n).Ends w r w') :
    (runRecovering id n).Ends w (r.mapError fun e => e.withSource n.source) w' := by
  have plain : (runBody id n).Plain :=
    (Protocol.runBody id (n.body.allowed_of_forall fun _ => trivial)).routine
  refine .bind (.attempt plain) (fun outcome => (Protocol.recoverOutcome n outcome).routine)
    hb.attempt ?_
  cases r with
  | ok v => exact .pure v w'
  | error e => exact recover_ends h e

/-- Without a corruption the outcome stays, and its type is observed. -/
theorem concludeExecution_ends (id : NodeId) (n : Node) (h : w.context.corruption = none)
    (outcome : Except EvalError Value) :
    ∃ learner, (concludeExecution id n outcome).Ends w outcome { w with learner } ∧
      learner.observations = n.observation outcome ++ w.learner.observations := by
  have taken : w.modifyContext (fun c => { c with corruption := none }) = w := by
    simp only [World.modifyContext, ← h]
  have unfolded (perform : Task → Run Value) : concludeExecution id n outcome perform w =
      (ofExcept outcome >>= fun v => recordType id n v >>= fun _ => pure v) perform w := by
    have cleared : takeCorruption perform w = (.ok none, w) := by
      rw [← h]
      exact congrArg (Prod.mk _) taken
    rw [concludeExecution, bind_apply, cleared]
  cases outcome with
  | error e => exact ⟨w.learner, .of_apply unfolded, rfl⟩
  | ok v =>
    cases ht : v.typeTag? with
    | none =>
      refine ⟨w.learner, .of_apply fun perform => (unfolded perform).trans ?_, ?_⟩
      · show (recordType id n v >>= fun _ => pure v) perform w = _
        rw [recordType, ht]
        rfl
      · rw [Node.observation, ht]
        rfl
    | some t =>
      refine ⟨w.learner.record id (PredictionKey.ofInputs n.operation n.source n.inputs) t,
        .of_apply fun perform => (unfolded perform).trans ?_, ?_⟩
      · show (recordType id n v >>= fun _ => pure v) perform w = _
        rw [recordType, ht]
        rfl
      · rw [Node.observation, ht]
        rfl

theorem whileExecuting_ends (id : NodeId) {x : Eval Value} {w' : World}
    (h : x.Ends (w.entering id) r w') :
    (whileExecuting id x).Ends w r (w'.modifyContext Context.leaveCall) := by
  show (bracket (fun w => w.entering id) (fun _ w' => w'.modifyContext Context.leaveCall) x).Ends
    w r _
  exact .bracket h

theorem alike_mapError {s : Except EvalError Value} (segment : Segment) (h : Alike s r) :
    Alike (s.mapError fun e => e.withSource segment) r := by
  cases s with
  | ok v => exact h
  | error e =>
    cases r with
    | ok v => cases h
    | error f =>
      obtain ⟨kind, message⟩ := h
      exact ⟨(e.withSource_kind segment).trans kind, (e.withSource_message segment).trans message⟩

/-- A node that is admitted is executed in place, and its own result is observed last. -/
theorem execute_ends {w' : World} (hn : w.node? id = some n)
    (admitted : w.context.calls.size < w.settings.maxRecursionDepth)
    (inPlace : n.RunsInPlace (w.entering id))
    (recovered : (runRecovering id n).Ends (w.entering id) r w')
    (sound : w'.context.corruption = none) :
    ∃ learner, (execute id).Ends w r (World.modifyContext { w' with learner } Context.leaveCall) ∧
      learner.observations = n.observation r ++ w'.learner.observations := by
  obtain ⟨learner, concluded, observed⟩ := concludeExecution_ends id n sound r
  have placed : (inScopesOf n (runRecovering id n)).Ends (w.entering id) r w' :=
    .congr (inScopesOf_apply inPlace _) recovered
  have inScopes : (inScopesOf n (runRecovering id n)).Plain :=
    (Protocol.inScopesOf n
      (.runRecovering id (n.body.allowed_of_forall fun _ => trivial))).routine
  have concludes (outcome : Except EvalError Value) : (concludeExecution id n outcome).Plain :=
    (Protocol.concludeExecution id n outcome).routine
  refine ⟨learner, .look ?_, observed⟩
  rw [hn]
  simp only [if_neg (Nat.not_le.mpr admitted)]
  exact whileExecuting_ends id (.bind (.attempt inScopes) concludes placed.attempt concluded)

/-- A node gives what its body gives. -/
theorem execute_gives {height : Nat} (ha : w.Admits (height + 1)) (hn : w.node? id = some n)
    (inPlace : n.RunsInPlace (w.entering id)) (hb : (runBody id n).Gives (w.entering id) r seen) :
    (execute id).Gives w r (n.observation r ++ seen) := by
  intro learner inUse
  obtain ⟨s, learner₁, ends, alike, observed⟩ := hb learner inUse
  have inside : World.Admits { w.entering id with learner := learner₁, inUse } height :=
    ⟨(ha.entering id).depth, (ha.entering id).handler, (ha.entering id).corruption⟩
  have admitted : w.context.calls.size < w.settings.maxRecursionDepth := by
    have := ha.depth
    omega
  have recovered := runRecovering_ends inside ends
  obtain ⟨learner₂, executed, observed'⟩ :=
    execute_ends (w := { w with learner, inUse }) hn admitted
      ⟨inPlace.captured, inPlace.newScope, inPlace.placed⟩ recovered inside.corruption
  have left : (World.modifyContext { w.entering id with learner := learner₂, inUse }
      Context.leaveCall) = { w with learner := learner₂, inUse } := by
    simp only [World.entering, World.modifyContext, Context.enterCall, Context.leaveCall,
      CallStack.pop_push]
  have same : n.observation (s.mapError fun e => e.withSource n.source) = n.observation r :=
    observation_alike (alike_mapError n.source alike)
  refine ⟨_, learner₂, left ▸ executed, alike_mapError n.source alike, ?_⟩
  rw [observed', observed, ← List.append_assoc, same]

variable {parallel : Bool} {depth : Nat}

/-- A result without nodes is not forced any further. -/
theorem resolve_gives (hr : Value.Settled r) (h : (execute id).Gives w r seen) :
    (resolve id depth parallel).Gives w r seen := by
  cases r with
  | error e => exact .bind_error h
  | ok v =>
    have rest (u : Value) : Plain (holding u.held (force parallel u depth)) :=
      .holding _ (Protocol.force parallel u depth).routine
    refine .finish (Protocol.execute id).routine rest h fun u hu => ?_
    obtain ⟨u', forced, hb⟩ := force_nodeFree parallel u (.of_bare hu (hr v rfl)) depth
    rw [forced]
    exact .holding _ (.pure (hb.trans hu))

theorem fixDeep_gives {v : Value} (hr : Value.Settled r)
    (h : (force false v unboundedDepth).Gives w r seen) : (fixDeep v).Gives w r seen := by
  cases r with
  | error e => exact .bind_error h
  | ok v' =>
    have rest (u : Value) := (Protocol.settleRest (p := fun _ => True) false u).routine
    refine .finish (Protocol.force false v _).routine rest h fun u hu => ?_
    have settled : u.containsNode = false := Value.NodeFree.of_bare hu (hr v' rfl)
    rw [settled]
    exact .pure hu

/-- A node that runs in place gives what its body gives. -/
theorem force_node_gives {node : NodeRef} {height : Nat} (hn : w.node? node.id = some n)
    (inPlace : n.RunsInPlace (w.entering node.id)) (ha : w.Admits (height + 1))
    (hr : Value.Settled r) (hb : (runBody node.id n).Gives (w.entering node.id) r seen)
    (hd : depth ≠ 0) :
    (force parallel (.node node) depth).Gives w r (n.observation r ++ seen) := by
  rw [force, if_neg hd]
  exact .perform (resolve_gives hr (execute_gives ha hn inPlace hb))

end execution

end ReactiveScript
