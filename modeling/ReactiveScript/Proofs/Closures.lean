import ReactiveScript.Proofs.AmbientExecutions
import ReactiveScript.Proofs.Construction

/-!
# Scope closures

A node that is built as a scope closure takes the active scopes along and runs in them wherever it
is executed. The scopes that are active there still stand below those it was built in, and what it
registers takes them along. They are not looked at, though: the closure and its callbacks come to
the same in two contexts, unless an execution is refused or a relay finds its node gone in only one
of them.
-/

namespace ReactiveScript

open Eval

variable {K : List ScopeId} {α : Type} {w v : World}

section restoring

/-- No evaluation changes what is active, under way or in use, nor the settings. -/
def restoring : Discipline Action.Lexical where
  inv _ := True
  rel w w' := w'.context.scopes = w.context.scopes ∧ w'.context.calls = w.context.calls ∧
    w'.inUse = w.inUse ∧ w'.settings = w.settings
  refl _ := ⟨rfl, rfl, rfl, rfl⟩
  trans h h' := ⟨h'.1.trans h.1, h'.2.1.trans h.2.1, h'.2.2.1.trans h.2.2.1, h'.2.2.2.trans h.2.2.2⟩
  change h _ := ⟨trivial, congrArg Context.scopes h.sameFrame.context,
    congrArg Context.calls h.sameFrame.context, h.sameFrame.inUse, h.sameFrame.settings⟩
  enter _ _ := trivial
  leave {enter leave w w'} hb _ _ hr := by
    refine ⟨trivial, ?_⟩
    cases hb with
    | scope s =>
      have popped : w'.popScope s = w'.modifyContext fun c =>
          { c with scopes := w.context.scopes } := World.popScope_of_scopes hr.1
      simp only [popped]
      exact ⟨rfl, hr.2⟩
    | call id =>
      exact ⟨hr.1, (congrArg CallStack.pop hr.2.1).trans (CallStack.pop_push _ id), hr.2.2⟩
    | hold held => exact ⟨hr.1, hr.2.1, rfl, hr.2.2.2⟩
    | line isWorker => exact ⟨rfl, rfl, rfl, hr.2.2.2⟩
  clearCorruption _ := ⟨trivial, rfl, rfl, rfl, rfl⟩
  popOutOfOrder {first second w} perform _ _ := by
    rw [popOutOfOrder_apply]
    exact ⟨trivial, w.kept_poppedOutOfOrder first second⟩

theorem restoring_marks : restoring.Marks where
  refuse _ _ := ⟨trivial, rfl, rfl, rfl, rfl⟩
  enter _ _ := trivial
  leave _ _ _ hr := ⟨trivial, hr⟩

theorem Eval.Routine.restored {x : Eval α} (hx : Routine Action.Lexical x) (fuel : Nat)
    (hw : w.Allowed Action.Lexical) : w.Restored (x.run fuel w).2 := by
  obtain ⟨good, scopes, calls, inUse, settings⟩ := restoring_marks.keeps_run fuel hx w ⟨hw, trivial⟩
  exact ⟨good.allowed, scopes, calls, inUse, settings⟩

end restoring

/-- Two stacks of given scopes. -/
def ScopeStack.Within (K : List ScopeId) (s t : ScopeStack) : Prop := s ⊆ K ∧ t ⊆ K

/-- The scopes that stand below another one do not matter. -/
theorem ScopeStack.Within.matches_below {s t outer outer' : ScopeStack}
    (h : ScopeStack.Within K s t) (h' : ScopeStack.Within K outer outer') (top : ScopeId)
    (rest : ScopeStack) :
    ScopeStack.Matches K (top :: rest ++ outer ++ s) (top :: rest ++ outer' ++ t) := by
  rw [List.append_assoc, List.append_assoc]
  exact ScopeStack.trim_append_of_subset top rest (List.append_subset.mpr ⟨h'.1, h.1⟩)
    (List.append_subset.mpr ⟨h'.2, h.2⟩)

namespace World

/-- Two worlds that are the same but for given scopes: other ones of these may be active, and other
ones may stand below the innermost scope that a callback has taken along. No program asks for the
depths of the stacks. -/
structure SameApart (K : List ScopeId) (w v : World) : Prop where
  same : w.trim K = v.trim K
  inUse : ∀ x, x ∈ w.inUse ↔ x ∈ v.inUse
  active : ScopeStack.Within K w.context.scopes v.context.scopes
  left : w.Allowed Action.Lexical
  right : v.Allowed Action.Lexical

/-- The world under another recursion limit, in which scopes are held besides. -/
def eased (w : World) (limit : Nat) (K : List ScopeId) : World :=
  { w with settings.maxRecursionDepth := limit, inUse := ScopeStack.held K ++ w.inUse }

theorem SameApart.eased (h : SameApart K w v) {n limit : Nat}
    (left : w.context.calls.size + n < limit) (right : v.context.calls.size + n < limit) :
    AlikeFrom (ScopeStack.Within K) K n (w.eased limit K) (v.eased limit K) where
  same := congrArg (fun w => { w with settings.maxRecursionDepth := limit }) h.same
  scopes := h.active
  inUse x := by simp only [World.eased, List.mem_append, h.inUse]
  left := ⟨h.left.of_eq rfl rfl rfl, List.subset_append_left _ _, left⟩
  right := ⟨h.right.of_eq rfl rfl rfl, List.subset_append_left _ _, right⟩

end World

/-- A run to which neither a higher recursion limit nor holding given scopes makes a difference. -/
def Run.Unmoved (K : List ScopeId) (x : Run α) (w : World) : Prop :=
  ∀ limit, w.settings.maxRecursionDepth ≤ limit →
    x (w.eased limit K) = ((x w).1, (x w).2.eased limit K)

/-- What comes of two runs that have the same result and the same effects apart from given scopes,
and that leave the contexts as they were. -/
structure SameEffects (K : List ScopeId) (w v : World) (p q : Except Interrupt α × World) :
    Prop where
  result : p.1 = q.1
  apart : p.2.SameApart K q.2
  bindings : ∀ scope name,
    p.2.scopes.localBinding? scope name = q.2.scopes.localBinding? scope name
  log : p.2.log = q.2.log
  left : w.Restored p.2
  right : v.Restored q.2

/-- Runs have the same effects if they agree wherever there is room and the scopes are held. -/
theorem SameEffects.of_agreement (h : w.SameApart K v) {x y : Run α} (n : Nat)
    (hx : x.Unmoved K w) (hy : y.Unmoved K v) (left : w.Restored (x w).2)
    (right : v.Restored (y v).2)
    (agree : ∀ limit,
      World.AlikeFrom (ScopeStack.Within K) K n (w.eased limit K) (v.eased limit K) →
      Agreement K (w.eased limit K) (v.eased limit K) (x (w.eased limit K)) (y (v.eased limit K))) :
    SameEffects K w v (x w) (y v) := by
  let limit := w.settings.maxRecursionDepth + v.settings.maxRecursionDepth +
    (w.context.calls.size + v.context.calls.size + n + 1)
  have agreement := agree limit (h.eased (by omega) (by omega))
  rw [hx limit (by omega), hy limit (by omega)] at agreement
  have settings : (x w).2.settings = (y v).2.settings := by
    rw [left.settings, right.settings]
    exact (congrArg World.settings h.same :)
  have same : (x w).2.trim K = (y v).2.trim K := by
    have same := congrArg (fun u => { u with settings := (x w).2.settings }) agreement.same
    rw [show ((y v).2.trim K) = { (y v).2.trim K with settings := (x w).2.settings } by
      rw [settings]; rfl]
    exact same
  refine ⟨agreement.result, ⟨same, ?_, ?_, left.allowed, right.allowed⟩, ?_, ?_, left, right⟩
  · intro x
    rw [left.inUse, right.inUse, h.inUse]
  · rw [left.scopes, right.scopes]
    exact h.active
  · intro scope name
    have table : (x w).2.scopes.trim K = (y v).2.scopes.trim K := congrArg World.scopes same
    rw [← ScopeTable.localBinding?_trim, table, ScopeTable.localBinding?_trim]
  · exact (congrArg World.log same :)

namespace Eval.Agree

variable {more : Nat} {n n' : Node} {top : ScopeId} {rest : ScopeStack}

/-- A closure is not concerned with what stands below the scopes it was built in. -/
theorem inScopesOf_closure (captured : n.captured = some (top :: rest))
    (same : n.trim K = n'.trim K) {x y : Eval α} (hx : Agree K more x y) :
    AgreeFrom (ScopeStack.Within K) K more (Eval.inScopesOf n x) (Eval.inScopesOf n' y) := by
  have captured' : n'.captured = some (top :: rest) :=
    (congrArg Node.captured same.symm :).trans captured
  unfold Eval.inScopesOf
  rw [captured, captured']
  exact entering (fun s t h => ScopeStack.trim_append_of_subset top rest h.1 h.2)
    (withHint same (withFreshScope same hx))

/-- Neither is a callback that it has registered. -/
theorem deliver_closure (s : SubscriptionId) (kind : String) {outer outer' : ScopeStack}
    (h : ScopeStack.Within K outer outer') (expr item : Value) :
    AgreeFrom (ScopeStack.Within K) K more
      (Eval.deliver (.guarded s (.evaluate kind (top :: rest ++ outer) expr)) item)
      (Eval.deliver (.guarded s (.evaluate kind (top :: rest ++ outer') expr)) item) := by
  refine look fun n w v hw => ?_
  have cancelled : w.isCancelled s = v.isCancelled s := congrArg (fun w => w.isCancelled s) hw.same
  rw [cancelled]
  split
  · exact pure _
  · refine look fun n w v hw => ?_
    rw [hw.settings]
    exact entering (fun s t hs => hs.matches_below h top rest) (withItem kind item (force _ expr _))

end Eval.Agree

section closures

variable {id : NodeId} {n : Node} {top : ScopeId} {rest : ScopeStack} {fuel : Nat}

/-- An execution of a closure has the same effects in two contexts. -/
theorem World.SameApart.execute (h : w.SameApart K v) (hn : w.node? id = some n)
    (captured : n.captured = some (top :: rest))
    (hx : Run.Unmoved K ((Eval.execute id).run fuel) w)
    (hy : Run.Unmoved K ((Eval.execute id).run fuel) v) :
    SameEffects K w v ((Eval.execute id).run fuel w) ((Eval.execute id).run fuel v) := by
  have routine : Routine Action.Lexical (Eval.execute id) := (Protocol.execute id).routine
  refine .of_agreement h (fuel + 1) hx hy (routine.restored fuel h.left)
    (routine.restored fuel h.right) fun limit alike => ?_
  have room : World.AlikeFrom (ScopeStack.Within K) K (fuel + (0 + 1)) (w.eased limit K)
    (v.eased limit K) := alike
  rcases alike.node? id with ⟨missing, -⟩ | ⟨m, n', found, found', same⟩
  · cases hn.symm.trans missing
  · cases hn.symm.trans found
    exact Agree.executeIn (Task.agree_performWith fuel) room hn found' same
      (Agree.inScopesOf_closure captured same
        (Agree.runRecovering same id (h.left.node hn).body))

/-- A delivery to a callback of a closure has the same effects in two contexts, even if the callback
was registered in two contexts. -/
theorem World.SameApart.deliver (h : w.SameApart K v) {outer outer' : ScopeStack}
    (h' : ScopeStack.Within K outer outer') (s : SubscriptionId) (kind : String)
    (expr item : Value) :
    let call (outer : ScopeStack) :=
      (Eval.deliver (.guarded s (.evaluate kind (top :: rest ++ outer) expr)) item).run fuel
    Run.Unmoved K (call outer) w → Run.Unmoved K (call outer') v →
      SameEffects K w v (call outer w) (call outer' v) := by
  intro call hx hy
  have routine (outer : ScopeStack) : Routine Action.Lexical
      (Eval.deliver (.guarded s (.evaluate kind (top :: rest ++ outer) expr)) item) :=
    (Protocol.deliver (.guarded s (.evaluate kind _ expr)) trivial item).routine
  refine .of_agreement h fuel hx hy ((routine outer).restored fuel h.left)
    ((routine outer').restored fuel h.right) fun limit alike => ?_
  have agree : AgreeFrom (ScopeStack.Within K) K 0
      (Eval.deliver (.guarded s (.evaluate kind (top :: rest ++ outer) expr)) item)
      (Eval.deliver (.guarded s (.evaluate kind (top :: rest ++ outer') expr)) item) :=
    Agree.deliver_closure s kind h' expr item
  exact agree.run alike

end closures

section receiving

/-- The world in which an expression is evaluated for an item: a new child of the innermost scope is
active, and the item is bound there. -/
def World.receiving (w : World) (kind : String) (item : Value) (top : ScopeId) (rest : ScopeStack) :
    World :=
  let parameter : Binding := { value := item, flags := { isParameter := true } }
  let child := ((w.scopes[top]?.getD default).childOf top kind)
  { w with
    scopes := w.scopes.push
      ((child.bind "it" parameter).bind (VariableName.positional 1) parameter)
    context.scopes := w.scopes.size :: (top :: rest ++ w.context.scopes) }

theorem ScopeTable.bind_push (t : ScopeTable) (s : Scope) (name : String) (b : Binding) :
    ScopeTable.bind (t.push s) t.size name b = t.push (s.bind name b) := by
  refine Array.ext_getElem? fun i => ?_
  rw [ScopeTable.bind, Array.getElem?_modify, Array.getElem?_push, Array.getElem?_push]
  split
  · next h =>
    subst h
    rw [if_pos rfl, if_pos rfl]
    rfl
  · next h => rw [if_neg (Ne.symm h), if_neg (Ne.symm h)]

/-- What is delivered to a callback of a closure is seen in a new child of the innermost scope. -/
theorem Eval.deliver_evaluate {perform : Task → Run Value} {s : SubscriptionId} (w : World)
    (kind : String) (top : ScopeId) (rest : ScopeStack) (expr item : Value)
    (live : w.isCancelled s = false) :
    Eval.deliver (.guarded s (.evaluate kind (top :: rest) expr)) item perform w =
      let seen := force w.settings.parallel expr w.settings.assignmentFixDepth perform
        (w.receiving kind item top rest)
      (seen.1, (seen.2.popScope w.scopes.size).popAll (top :: rest)) := by
  have delivered : Eval.deliver (.guarded s (.evaluate kind (top :: rest) expr)) item perform w =
      withScopes (top :: rest) (withItem kind item
        (force w.settings.parallel expr w.settings.assignmentFixDepth)) perform w := by
    show (if w.isCancelled s then _ else _ : Eval Value) perform w = _
    rw [live]
    rfl
  have item_bound (x : Eval Value) : withItem kind item x perform (w.inScopes (top :: rest)) =
      ((x perform (w.receiving kind item top rest)).1,
        (x perform (w.receiving kind item top rest)).2.popScope w.scopes.size) := by
    rw [World.inScopes_eq]
    simp only [World.receiving, ← ScopeTable.bind_push]
    rfl
  rw [delivered, withScopes_eq, item_bound]

end receiving

section registering

variable {x : Execution} {top : ScopeId} {rest : ScopeStack} {fuel : Nat}

/-- Subscribes an expression to a source, which is evaluated in given scopes for what is
delivered. -/
def Eval.followIn (kind : String) (scopes : ScopeStack) (source expr : Value) : Eval Value := do
  let s ← subscribe source (.evaluate kind scopes expr)
  keep (.numbered s) s
  return .str (subscriptionName s)

/-- The tokens of operators that follow a source ask for closures. -/
theorem Wiring.spec_follows {t : OperatorToken Value} {spec : NodeSpec}
    (h : Wiring.spec t = .ok spec) (ht : t.op = .subscribe ∨ t.op = .listen) :
    (t.op = .subscribe → spec.body = .subscribe) ∧ (t.op = .listen → spec.body = .listen) ∧
      spec.flags = { scopeClosure := true } ∧ spec.inputs = t.operands := by
  have built {body : Body} (h : (check .binary [] t >>= fun _ =>
      Except.ok (specOf t body { scopeClosure := true })) = .ok spec) :
      spec = specOf t body { scopeClosure := true } := by
    cases checked : check .binary [] t with
    | error e =>
      rw [checked] at h
      cases h
    | ok _ =>
      rw [checked] at h
      exact (Except.ok.inj h).symm
  unfold Wiring.spec at h
  rcases ht with op | op <;> rw [op] at h ⊢ <;> rw [built h]
  · exact ⟨fun _ => rfl, fun other => (nomatch other), rfl, rfl⟩
  · exact ⟨fun other => (nomatch other), fun _ => rfl, rfl, rfl⟩

/-- A closure that asks for no new scope runs in the scopes it was built in. -/
theorem Activation.inside_closure {x : Activation} (captured : x.node.captured = some (top :: rest))
    (newScope : x.node.flags.newScope = false) :
    x.inside = (x.before.entering x.id).inScopes (top :: rest) := by
  have current : ((x.before.entering x.id).inScopes (top :: rest)).context.current? = some top := by
    rw [World.inScopes_eq]
    rfl
  simp only [Activation.inside, Node.enter, captured, Option.getD_some, Node.hinted, current]
  rw [Node.fresh, if_neg (by simp [newScope])]
  rfl

theorem Activation.scopes_inside_closure {x : Activation}
    (captured : x.node.captured = some (top :: rest)) (newScope : x.node.flags.newScope = false) :
    x.inside.context.scopes = top :: rest ++ x.before.context.scopes := by
  rw [x.inside_closure captured newScope, World.inScopes_eq]
  rfl

/-- A closure that listens subscribes its expression with the scopes it was built in, and those
below. -/
theorem Execution.listens (captured : x.node.captured = some (top :: rest))
    (newScope : x.node.flags.newScope = false) (body : x.node.body = .listen) :
    x.body.run fuel x.inside = (followIn "listen" (top :: rest ++ x.before.context.scopes)
      (x.node.inputs[0]?.getD .void) (x.node.inputs[1]?.getD .void)).run fuel x.inside := by
  rw [← x.scopes_inside_closure captured newScope, Activation.body, runBody, body]
  rfl

/-- So does a closure that subscribes, when it has found out what its source resolves to. -/
theorem Execution.subscribes (hx : x.before.Allowed Action.Lexical)
    (captured : x.node.captured = some (top :: rest)) (newScope : x.node.flags.newScope = false)
    (body : x.node.body = .subscribe) :
    x.body.run fuel x.inside = (fix (x.node.inputs[0]?.getD .void) 1 >>= fun resolved =>
      holding resolved.held (followIn "subscribe" (top :: rest ++ x.before.context.scopes)
        (if resolved.asResource?.isSome then resolved else x.node.inputs[0]?.getD .void)
        (x.node.inputs[1]?.getD .void))).run fuel x.inside := by
  have allowed : x.inside.Allowed Action.Lexical := by
    rw [x.inside_closure captured newScope, World.inScopes_eq]
    exact hx.of_eq rfl rfl rfl
  have routine : Routine Action.Lexical (fix (x.node.inputs[0]?.getD .void) 1) :=
    (Protocol.fix _ 1).routine
  have kept := (routine.restored fuel allowed).scopes
  rw [← x.scopes_inside_closure captured newScope, Activation.body, runBody, body, Eval.run,
    Eval.run]
  dsimp only
  rw [bind_apply, bind_apply]
  rcases fixed : fix (x.node.inputs[0]?.getD .void) 1 (performWith fuel) x.inside with
    ⟨_ | resolved, u⟩
  · rfl
  · rw [Eval.run, fixed] at kept
    rw [← kept]
    rfl

end registering

/-- A scope closure runs lexically. A node that asks for it takes along the scopes that are active
where it is built; so do the nodes of operators that follow a source. In two worlds that are the
same apart from active scopes, an execution of the closure has the same effects, provided that
neither a higher recursion limit nor holding these scopes makes a difference to it. Its body runs
with the scopes that it took along on top. A callback that it subscribes takes the ones below along
as well, and a later delivery has the same effects, too; it sees the item in a new child of the
innermost scope in which the closure was built. -/
theorem scope_closures_run_lexically :
    (∀ (w : World) (spec : NodeSpec), spec.flags.scopeClosure = true →
      ((w.build spec).2.node? (w.build spec).1.id).bind Node.captured = some w.context.scopes) ∧
    (∀ (t : OperatorToken Value) (spec : NodeSpec), Wiring.spec t = .ok spec →
      t.op = .subscribe ∨ t.op = .listen →
      (t.op = .subscribe → spec.body = .subscribe) ∧ (t.op = .listen → spec.body = .listen) ∧
        spec.flags = { scopeClosure := true } ∧ spec.inputs = t.operands) ∧
    (∀ (K : List ScopeId) (w v : World) (id : NodeId) (n : Node) (top : ScopeId)
      (rest : ScopeStack) (fuel : Nat), w.SameApart K v → w.node? id = some n →
      n.captured = some (top :: rest) → Run.Unmoved K ((execute id).run fuel) w →
      Run.Unmoved K ((execute id).run fuel) v →
      SameEffects K w v ((execute id).run fuel w) ((execute id).run fuel v)) ∧
    (∀ (x : Execution) (top : ScopeId) (rest : ScopeStack) (fuel : Nat),
      x.before.Allowed Action.Lexical → x.node.captured = some (top :: rest) →
      x.node.flags.newScope = false →
      let first := x.node.inputs[0]?.getD .void
      let second := x.node.inputs[1]?.getD .void
      let scopes := top :: rest ++ x.before.context.scopes
      x.inside.context.scopes = scopes ∧
      (x.node.body = .listen → x.body.run fuel x.inside =
        (followIn "listen" scopes first second).run fuel x.inside) ∧
      (x.node.body = .subscribe → x.body.run fuel x.inside =
        (fix first 1 >>= fun resolved => holding resolved.held (followIn "subscribe" scopes
          (if resolved.asResource?.isSome then resolved else first) second)).run fuel x.inside)) ∧
    (∀ (K : List ScopeId) (w v : World) (top : ScopeId) (rest outer outer' : ScopeStack)
      (s : SubscriptionId) (kind : String) (expr item : Value) (fuel : Nat), w.SameApart K v →
      ScopeStack.Within K outer outer' →
      let call (outer : ScopeStack) :=
        (deliver (.guarded s (.evaluate kind (top :: rest ++ outer) expr)) item).run fuel
      Run.Unmoved K (call outer) w → Run.Unmoved K (call outer') v →
      SameEffects K w v (call outer w) (call outer' v)) ∧
    ∀ (w : World) (perform : Task → Run Value) (s : SubscriptionId) (kind : String) (top : ScopeId)
      (rest : ScopeStack) (expr item : Value), w.isCancelled s = false →
      let seen := force w.settings.parallel expr w.settings.assignmentFixDepth perform
        (w.receiving kind item top rest)
      deliver (.guarded s (.evaluate kind (top :: rest) expr)) item perform w =
        (seen.1, (seen.2.popScope w.scopes.size).popAll (top :: rest)) := by
  refine ⟨fun w spec closure => ?_, fun _ _ h ht => Wiring.spec_follows h ht,
    fun _ _ _ _ _ _ _ _ h hn captured hx hy => h.execute hn captured hx hy,
    fun x _ _ _ hx captured newScope => ⟨x.scopes_inside_closure captured newScope,
      fun body => Execution.listens captured newScope body,
      fun body => Execution.subscribes hx captured newScope body⟩,
    fun _ _ _ _ _ _ _ s kind expr item _ h h' hx hy => h.deliver h' s kind expr item hx hy,
    fun w _ _ kind top rest expr item live => deliver_evaluate w kind top rest expr item live⟩
  show ((w.build spec).2.node? w.nextNode).bind Node.captured = some w.context.scopes
  rw [w.node?_build spec]
  simp [World.fresh, closure]

/-- The node of an operator that listens to a value. -/
def listeningNode : Node where
  operation := "listen"
  source := Segment.unknown
  inputs := [.int 7, .str "heard"]
  flags := { scopeClosure := true }
  body := .listen
  captured := some [0]
  trigger := .inputs

/-- Two closures: one reads a variable of the root, which is shadowed in another scope. -/
def shadowedWorld (active : ScopeStack) : World where
  nodes := #[
    { operation := "variable", source := Segment.unknown, inputs := []
      flags := { scopeClosure := true }, body := .variable "x", captured := some [0]
      trigger := .inputs },
    listeningNode]
  scopes := #[
    { name := "root", parent := none, bindings := [("x", { value := .int 5 })] },
    { name := "shadow", parent := some 0, bindings := [("x", { value := .int 1 })] }]
  context := { scopes := active }

theorem shadowedWorld_sameApart {s t : ScopeStack} (h : ScopeStack.Within [1] s t) :
    (shadowedWorld s).SameApart [1] (shadowedWorld t) := by
  have allowed (active : ScopeStack) : (shadowedWorld active).Allowed Action.Lexical := by
    refine ⟨fun i n hn => ?_, fun i s hs => ?_, fun i r hr => ?_⟩
    · have hm := (Array.mem_of_getElem? hn).val
      simp only [shadowedWorld, List.mem_cons, List.not_mem_nil, or_false] at hm
      rcases hm with rfl | rfl <;> exact ⟨trivial, AllowedCallbacks.nil⟩
    · have hm := (Array.mem_of_getElem? hs).val
      simp only [shadowedWorld, List.mem_cons, List.not_mem_nil, or_false] at hm
      rcases hm with rfl | rfl <;> exact ⟨fun _ h => (nomatch h), fun _ h => (nomatch h)⟩
    · cases (Array.mem_of_getElem? hr).val
  exact ⟨rfl, fun _ => Iff.rfl, h, allowed s, allowed t⟩

/-- The execution of the node that listens, with the shadow active. -/
def listeningExecution : Execution where
  id := 2
  node := listeningNode
  before := shadowedWorld [1]
  found := rfl
  admitted := by decide

/-- A closure reads the root in two contexts; another one subscribes with the root on top; an item
is bound in a new scope in two contexts. -/
theorem closure_ignores_shadow :
    let run (active : ScopeStack) := (execute 1).run 1 (shadowedWorld active)
    let call (outer : ScopeStack) := (deliver
      (.guarded 1 (.evaluate "listen" (0 :: [] ++ outer) (.str "heard"))) (.int 7)).run 0
    SameEffects [1] (shadowedWorld [1]) (shadowedWorld []) (run [1]) (run []) ∧
    (run [1]).1 = .ok (.int 5) ∧
    listeningExecution.body.run 1 listeningExecution.inside =
      (followIn "listen" [0, 1] (.int 7) (.str "heard")).run 1 listeningExecution.inside ∧
    SameEffects [1] (shadowedWorld []) (shadowedWorld [1]) (call [1] (shadowedWorld []))
      (call [] (shadowedWorld [1])) ∧
    ((call [] (shadowedWorld [1])).2.scopes.localBinding? 2 "it").map Binding.value =
      some (.int 7) := by
  intro run call
  have same {s t : ScopeStack} (h : ScopeStack.Within [1] s t) := shadowedWorld_sameApart h
  have unmoved (active : ScopeStack) :
      Run.Unmoved [1] ((execute 1).run 1) (shadowedWorld active) := by
    intro limit le
    have positive : 0 < (shadowedWorld active).settings.maxRecursionDepth :=
      show 0 < Settings.default.maxRecursionDepth by decide
    have found (limit : Nat) : ((shadowedWorld active).eased limit [1]).node? 1 = some _ := rfl
    rw [Eval.run, execute_of_admitted (found limit) (Nat.lt_of_lt_of_le positive le), Eval.run,
      execute_of_admitted (w := shadowedWorld active) rfl positive]
    rfl
  obtain ⟨-, -, executed, subscribed, delivered, -⟩ := scope_closures_run_lexically
  have alike := same (s := [1]) (t := []) ⟨by simp, by simp⟩
  refine ⟨executed [1] _ _ 1 _ 0 [] 1 alike rfl rfl (unmoved [1]) (unmoved []), rfl,
    (subscribed listeningExecution 0 [] 1 alike.left rfl rfl).2.1 rfl, ?_, rfl⟩
  exact delivered [1] _ _ 0 [] [1] [] 1 "listen" _ _ 0 (same ⟨by simp, by simp⟩)
    ⟨by simp, by simp⟩ (fun _ _ => rfl) (fun _ _ => rfl)

/-- An assignment that is a closure, a node that listens to its target and sets another variable,
and a scope that alone holds this node. -/
def listeningWorld (active : ScopeStack) : World where
  nodes := #[
    { operation := "assignment", source := Segment.unknown, inputs := [.int 5]
      flags := { scopeClosure := true }, captured := some [0], trigger := .inputs
      body := .assign { target := "y", options := {}, exported := false, source := none } },
    { operation := "variable", source := Segment.unknown, inputs := [], flags := {}
      body := .variable "y", captured := none, trigger := .variable "y" (some 0), wired := true
      listeners := { entries := [("k", .program [.input, .bind 0 "z" {}])] } }]
  scopes := #[
    { name := "root", parent := none
      bindings := [("y", { value := .int 0 }), ("z", { value := .void })]
      listeners := [("y", [(Node.relayKey 2, .relay 2)])] },
    { name := "holder", parent := none
      bindings := [("m", { value := .list [.node ⟨2, "variable"⟩] })] }]
  context := { scopes := active }

theorem listeningWorld_sameApart : (listeningWorld [1]).SameApart [1] (listeningWorld []) := by
  have allowed (active : ScopeStack) : (listeningWorld active).Allowed Action.Lexical := by
    refine ⟨fun i n hn => ?_, fun i s hs => ?_, fun i r hr => ?_⟩
    · have hm := (Array.mem_of_getElem? hn).val
      simp only [listeningWorld, List.mem_cons, List.not_mem_nil, or_false] at hm
      rcases hm with rfl | rfl
      · exact ⟨trivial, AllowedCallbacks.nil⟩
      · refine ⟨trivial, fun c hc => ?_⟩
        obtain rfl := List.mem_singleton.mp hc
        exact ⟨trivial, trivial, trivial⟩
    · have hm := (Array.mem_of_getElem? hs).val
      simp only [listeningWorld, List.mem_cons, List.not_mem_nil, or_false] at hm
      rcases hm with rfl | rfl
      · refine ⟨fun _ h => (nomatch h), fun callbacks hc c hm => ?_⟩
        obtain rfl := List.mem_singleton.mp hc
        obtain rfl := List.mem_singleton.mp hm
        trivial
      · exact ⟨fun _ h => (nomatch h), fun _ h => (nomatch h)⟩
    · cases (Array.mem_of_getElem? hr).val
  exact ⟨rfl, fun _ => Iff.rfl, ⟨by simp [listeningWorld], by simp [listeningWorld]⟩, allowed [1],
    allowed []⟩

/-- Holding the active scopes is needed: a scope that is active in one context only may keep a
listener of the closure's variables alive. -/
theorem active_scope_keeps_listener :
    ¬ ∀ (K : List ScopeId) (w v : World) (id : NodeId) (n : Node) (top : ScopeId)
      (rest : ScopeStack) (fuel : Nat), w.SameApart K v → w.node? id = some n →
      n.captured = some (top :: rest) →
      w.context.calls.size + fuel + 1 < w.settings.maxRecursionDepth →
      v.context.calls.size + fuel + 1 < v.settings.maxRecursionDepth →
      SameEffects K w v ((execute id).run fuel w) ((execute id).run fuel v) := by
  intro lexical
  have same := lexical [1] (listeningWorld [1]) (listeningWorld []) 1 _ 0 [] 5
    listeningWorld_sameApart rfl rfl (by decide) (by decide)
  have heard : (((execute 1).run 5 (listeningWorld [1])).2.scopes.localBinding? 0 "z").map
      (·.value.isVoid) = some false := by decide +kernel
  have unheard : (((execute 1).run 5 (listeningWorld [])).2.scopes.localBinding? 0 "z").map
      (·.value.isVoid) = some true := by decide +kernel
  rw [same.bindings 0 "z", unheard] at heard
  cases heard

end ReactiveScript
