import ReactiveScript.Proofs.Commits
import ReactiveScript.Wiring

/-!
# Failed assignments

An assignment that is one commit, or one commit under a condition, leaves every binding and
everything published as it was if this commit fails. A subscribing assignment declares its target by
a commit of void before it looks at its source; if it fails later, it leaves what this first commit
has left.
-/

namespace ReactiveScript

open Eval

/-- From every world an evaluation has no effect on the store. -/
def Eval.SparesStore {α : Type} (perform : Task → Run Value) (x : Eval α) : Prop :=
  ∀ w : World, w.KeepsStore (x perform w).2

namespace Eval.SparesStore

variable {α β : Type} {perform : Task → Run Value} {x : Eval α}

theorem pure (a : α) : SparesStore perform (Pure.pure a : Eval α) := fun w => .refl w

theorem bind {f : α → Eval β} (hx : x.SparesStore perform) (hf : ∀ a, (f a).SparesStore perform) :
    (x >>= f).SparesStore perform := by
  intro w
  have first := hx w
  rcases h : x perform w with ⟨i | a, w'⟩
  · rw [bind_of_error h]
    rwa [h] at first
  · rw [bind_of_ok h]
    rw [h] at first
    exact first.trans (hf a w')

theorem world : SparesStore perform Eval.world := fun w => .refl w

theorem modifyNode (id : NodeId) (f : Node → Node) :
    SparesStore perform (modify fun w => w.modifyNode id f) := fun _ => ⟨.refl _, rfl⟩

theorem listenerKey (id : NodeId) (key : Option String) :
    SparesStore perform (Eval.listenerKey id key) := by
  cases key with
  | some key => exact .pure key
  | none =>
    intro w
    unfold Eval.listenerKey modifyGet
    dsimp only
    cases w.node? id with
    | none => exact .refl w
    | some n => exact ⟨.refl _, rfl⟩

theorem listenVariable (scope : ScopeId) (name key : String) (callback : Callback) :
    SparesStore perform (Eval.listenVariable scope name key callback) := fun w =>
  ⟨(ScopeTable.Quiet.modify (f := fun s => s.listen name key callback) w.scopes _ (fun _ => rfl)
    fun _ => rfl).toPreserves, rfl⟩

section listen

variable (hp : ∀ id key callback, SparesStore perform (Eval.perform (.listen id key callback)))
include hp

theorem listenToInputs (id : NodeId) (inputs : List Value) :
    SparesStore perform (Eval.listenToInputs id inputs) := by
  induction inputs with
  | nil => exact .pure ()
  | cons v rest ih =>
    unfold Eval.listenToInputs
    cases v.asNode? with
    | none => exact ih
    | some n => exact .bind (hp _ _ _) fun _ => ih

theorem connectNode (id : NodeId) (n : Node) : SparesStore perform (Eval.connectNode id n) := by
  unfold Eval.connectNode
  cases n.wired with
  | true => exact .pure ()
  | false =>
    refine .bind (.modifyNode id _) fun _ => ?_
    split
    · exact listenToInputs hp id n.inputs
    · next name hint _ =>
      refine .bind (fun w => .refl w) fun s => ?_
      cases s.or hint with
      | none => exact .pure ()
      | some scope => exact listenVariable scope name _ _

theorem listen (id : NodeId) (key : Option String) (callback : Callback) :
    SparesStore perform (Eval.listen id key callback) := by
  refine .bind .world fun w => ?_
  cases w.node? id with
  | none => exact .pure _
  | some n =>
    refine .bind (connectNode hp id n) fun _ => .bind (.listenerKey id key) fun key => ?_
    exact .bind (.modifyNode id _) fun _ => .pure _

end listen

theorem perform_listen (fuel : Nat) (id : NodeId) (key : Option String) (callback : Callback) :
    SparesStore (performWith fuel) (Eval.perform (.listen id key callback)) := by
  induction fuel generalizing id key callback with
  | zero => exact fun w => .refl w
  | succ fuel ih => exact fun w => listen ih id key callback w

end Eval.SparesStore

/-- The world with scopes pushed, the innermost one last. -/
def World.inScopes : ScopeStack → World → World
  | [], w => w
  | scope :: outer, w => (inScopes outer w).modifyContext fun c => c.push scope

theorem World.inScopes_eq (stack : ScopeStack) (w : World) :
    w.inScopes stack = w.modifyContext fun c => { c with scopes := stack ++ c.scopes } := by
  induction stack with
  | nil => rfl
  | cons scope outer ih => rw [World.inScopes, ih]; rfl

/-- The world in which a value that is subscribed to is delivered to a commit. -/
def World.atDelivery (w : World) (c : Commit) (v : Value) : World :=
  { w with
    subscriptions := w.subscriptions.push {}
    inUse := v.held ++ (Callback.commit c w.context.scopes).held ++ w.inUse }.inScopes
      w.context.scopes

/-- The value is neither a node nor a resource. -/
def Value.IsPlain (v : Value) : Prop := v.isNode = false ∧ v.asResource? = none

theorem World.keepsStore_inScopes (w : World) (scopes : ScopeStack) :
    w.KeepsStore (w.inScopes scopes) := by
  induction scopes with
  | nil => exact .refl w
  | cons scope outer ih => exact ih.trans (.of_sameStore ⟨rfl, rfl⟩)

theorem World.keepsStore_atDelivery (w : World) (c : Commit) (v : Value) :
    w.KeepsStore (w.atDelivery c v) := by
  have entered := World.keepsStore_inScopes
    { w with
      subscriptions := w.subscriptions.push {}
      inUse := v.held ++ (Callback.commit c w.context.scopes).held ++ w.inUse } w.context.scopes
  exact ⟨entered.scopes, entered.exports⟩

/-- Evaluating with scopes pushed is evaluating in the world with them. -/
theorem Eval.withScopes_apply {α : Type} (scopes : ScopeStack) (x : Eval α)
    (perform : Task → Run Value) (w : World) :
    ∃ u, (x perform (w.inScopes scopes)).2.SameStore u ∧
      withScopes scopes x perform w = ((x perform (w.inScopes scopes)).1, u) := by
  induction scopes generalizing x with
  | nil => exact ⟨_, .refl _, rfl⟩
  | cons scope outer ih =>
    obtain ⟨u, same, outside⟩ := ih (withScope scope x)
    exact ⟨u, (World.sameStore_popScope _ scope).trans same, outside⟩

/-- What a conditional assignment does after its commit: it follows its condition. -/
def Eval.followCondition (c : Commit) (scope : ScopeId) (rhs condition : Value) : Eval Value := do
  match condition.asNode? with
  | some node => do
    let scopes := (← context).scopes
    let _ ← perform (.listen node.id (some (whenKey scope c.target)) (.commitWhen c rhs scopes))
  | none => pure ()
  boundValue scope c.target

theorem Eval.whenAssign_eq (c : Commit) (rhs condition : Value) :
    whenAssign c rhs condition = (do
      let scope ← commitScope c
      let holds ← truthy condition
      let _ ← commitWhen c holds rhs
      followCondition c scope rhs condition) := rfl

theorem Eval.SparesStore.followCondition (fuel : Nat) (c : Commit) (scope : ScopeId)
    (rhs condition : Value) :
    SparesStore (performWith fuel) (Eval.followCondition c scope rhs condition) := by
  have bound : SparesStore (performWith fuel) (boundValue scope c.target) :=
    .bind .world fun _ => .pure _
  unfold Eval.followCondition
  cases condition.asNode? with
  | none => exact bound
  | some node =>
    refine .bind (fun w => .refl w) fun context => ?_
    exact .bind (.perform_listen fuel _ _ _) fun _ => bound

section assignments

variable {fuel : Nat} {c : Commit} {rhs condition resolved : Value} {w u : World} {s : ScopeId}

theorem Eval.commitScope_apply {perform : Task → Run Value} (hs : w.context.current? = some s) :
    commitScope c perform w = (.ok s, w) := by
  have current : currentScope? perform w = (.ok (some s), w) := by rw [← hs]; rfl
  rw [commitScope, bind_of_ok current]
  rfl

/-- A conditional assignment whose commit has no effect on the store has none. -/
theorem Eval.whenAssign_keepsStore {holds : Bool} (hs : w.context.current? = some s)
    (tested : (truthy condition).run fuel w = (.ok holds, u)) (harmless : w.KeepsStore u)
    (kept : u.KeepsStore ((commitWhen c holds rhs).run fuel u).2) :
    w.KeepsStore ((whenAssign c rhs condition).run fuel w).2 := by
  rw [Eval.run, whenAssign_eq, bind_of_ok (commitScope_apply hs), bind_of_ok tested]
  rcases committed : (commitWhen c holds rhs).run fuel u with ⟨i | v, u'⟩
  · rw [committed] at kept
    rw [bind_of_error committed]
    exact harmless.trans kept
  · rw [committed] at kept
    rw [bind_of_ok committed]
    exact (harmless.trans kept).trans (SparesStore.followCondition fuel c s rhs condition u')

/-- What a subscribing assignment does after the target is declared. -/
def Eval.subscribeDeclared (c : Commit) (scope : ScopeId) (rhs : Value) : Eval Value := do
  let resolved ← fix rhs 1
  holding resolved.held do
    followSource c scope (← subscribedSource c rhs resolved)
  boundValue scope c.target

/-- The initial commit of a subscribing assignment, which binds void unless the scope has the name
already. -/
def Eval.declareVoid (c : Commit) (scope : ScopeId) : Eval Unit := do
  unless (← world).scopes.hasLocal scope c.target do
    let _ ← commit c .void

theorem Eval.subscribeAssign_eq (c : Commit) (rhs : Value) :
    subscribeAssign c rhs = (do
      let scope ← commitScope c
      declareVoid c scope
      subscribeDeclared c scope rhs) := by
  refine bind_congr fun scope => ?_
  simp only [declareVoid, subscribeDeclared, bind_assoc]
  refine bind_congr fun w => ?_
  by_cases declared : w.scopes.hasLocal scope c.target
  · simp only [declared, if_true]
    rfl
  · simp only [declared, Bool.false_eq_true, if_false, bind_assoc]
    rfl

theorem Eval.subscribeAssign_of_declareVoid {perform : Task → Run Value} {i : Interrupt}
    (hs : w.context.current? = some s) (unbound : ¬ w.scopes.hasLocal s c.target)
    (committed : commit c .void perform w = (.error i, u)) :
    subscribeAssign c rhs perform w = (.error i, u) := by
  have declared : declareVoid c s perform w = (.error i, u) := by
    rw [declareVoid, world_bind, if_neg unbound]
    exact bind_of_error committed
  rw [subscribeAssign_eq, bind_of_ok (commitScope_apply hs)]
  exact bind_of_error declared

theorem Eval.subscribedSource_of_commit {perform : Task → Run Value} {i : Interrupt} {w' : World}
    (resource : resolved.asResource? = none) (node : rhs.isNode)
    (committed : commit c resolved perform w = (.error i, w')) :
    subscribedSource c rhs resolved perform w = (.error i, w') := by
  have noResource : resolved.asResource?.isSome = false := by rw [resource]; rfl
  simp only [subscribedSource, noResource, node, Bool.false_eq_true, if_false, if_true]
  exact bind_of_error committed

theorem Eval.connect_of_plain {perform : Task → Run Value} {i : Interrupt} {w' : World}
    {name : String} {callback : Callback} (plain : rhs.IsPlain)
    (delivered : Eval.perform (.deliver callback rhs.untagged) perform w = (.error i, w')) :
    connect rhs name callback perform w = (.error i, w') := by
  obtain ⟨node, resource⟩ := plain
  unfold connect
  cases hv : rhs.untagged with
  | node n => simp [Value.isNode, Value.asNode?, hv] at node
  | resource r => simp [Value.asResource?, hv] at resource
  | _ =>
    rw [hv] at delivered
    exact bind_of_error delivered

theorem Eval.subscribe_of_commit {i : Interrupt} {w' : World} (plain : rhs.IsPlain)
    (committed : (commit c rhs.untagged).run fuel (w.atDelivery c rhs) = (.error i, w')) :
    ∃ u, w'.SameStore u ∧
      subscribe rhs (.commit c w.context.scopes) (performWith (fuel + 1)) w = (.error i, u) := by
  let id := w.subscriptions.size + 1
  let callback := Callback.guarded id (.commit c w.context.scopes)
  let subscribed : World := { w with subscriptions := w.subscriptions.push {} }
  let held := rhs.held ++ (Callback.commit c w.context.scopes).held
  let entered : World := { subscribed with inUse := held ++ w.inUse }
  have numbered : newSubscription (performWith (fuel + 1)) w = (.ok id, subscribed) := rfl
  obtain ⟨u, same, attached⟩ := withScopes_apply w.context.scopes (commit c rhs.untagged)
    (performWith fuel) entered
  have there : commit c rhs.untagged (performWith fuel) (entered.inScopes w.context.scopes) =
    (.error i, w') := committed
  rw [there] at same attached
  have delivered : deliver callback rhs.untagged (performWith fuel) entered = (.error i, u) := by
    have here : Eval.world (performWith fuel) entered = (.ok entered, entered) := rfl
    -- The subscription has just been made, so nothing has cancelled it yet.
    have going : ¬ entered.isCancelled id := by
      simp [World.isCancelled, World.subscription?, entered, subscribed, id]
    simp only [callback, deliver]
    rw [bind_of_ok here, if_neg going]
    exact attached
  have connected : holding held (connect rhs (subscriptionName id) callback)
      (performWith (fuel + 1)) subscribed = (.error i, { u with inUse := w.inUse }) := by
    have entering : connect rhs (subscriptionName id) callback (performWith (fuel + 1)) entered =
        (.error i, u) := connect_of_plain plain delivered
    simp only [holding, entered, subscribed] at entering ⊢
    rw [entering]
  refine ⟨{ u with inUse := w.inUse }, same.trans ⟨rfl, rfl⟩, ?_⟩
  rw [subscribe, bind_of_ok numbered]
  exact bind_of_error connected

/-- What a subscribing assignment does once the target is declared fails as soon as following the
source does. -/
theorem Eval.subscribeDeclared_of_following {perform : Task → Run Value} {i : Interrupt}
    {w' : World} (forced : fix rhs 1 perform w = (.ok resolved, u))
    (followed : (do followSource c s (← subscribedSource c rhs resolved)) perform
      { u with inUse := resolved.held ++ u.inUse } = (.error i, w')) :
    subscribeDeclared c s rhs perform w = (.error i, { w' with inUse := u.inUse }) := by
  have held : holding resolved.held (do followSource c s (← subscribedSource c rhs resolved))
      perform u = (.error i, { w' with inUse := u.inUse }) := by
    simp only [holding, followed]
  rw [subscribeDeclared, bind_of_ok forced]
  exact bind_of_error held

/-- Forcing the right-hand side, or the commit of what the source gives at once, fails. -/
inductive Commit.SourceFails (c : Commit) (rhs : Value) : Nat → World → Interrupt → Prop where
  | forcing {fuel w w' i} (forced : (fix rhs 1).run fuel w = (.error i, w'))
      (kept : w.KeepsStore w') : SourceFails c rhs fuel w i
  | node {fuel w u w' i resolved} (forced : (fix rhs 1).run fuel w = (.ok resolved, u))
      (kept : w.KeepsStore u) (resource : resolved.asResource? = none) (node : rhs.isNode)
      (fails : c.Fails (performWith fuel) resolved
        { u with inUse := resolved.held ++ u.inUse } i w') : SourceFails c rhs fuel w i
  | value {fuel w u w' i resolved} (forced : (fix rhs 1).run (fuel + 1) w = (.ok resolved, u))
      (kept : w.KeepsStore u) (resource : resolved.asResource? = none) (plain : rhs.IsPlain)
      (fails : c.Fails (performWith fuel) rhs.untagged
        ({ u with inUse := resolved.held ++ u.inUse }.atDelivery c rhs) i w') :
      SourceFails c rhs (fuel + 1) w i

theorem Commit.SourceFails.keepsStore {i : Interrupt} (h : c.SourceFails rhs fuel w i)
    (s : ScopeId) :
    ∃ w', (subscribeDeclared c s rhs).run fuel w = (.error i, w') ∧ w.KeepsStore w' := by
  cases h with
  | forcing forced kept => exact ⟨_, bind_of_error forced, kept⟩
  | node forced kept resource node fails =>
    have source := subscribedSource_of_commit resource node fails.result
    refine ⟨_, subscribeDeclared_of_following forced (bind_of_error source), ?_⟩
    exact kept.trans ⟨fails.keepsStore.scopes, fails.keepsStore.exports⟩
  | @value fuel w u w' i resolved forced kept resource plain fails =>
    let held : World := { u with inUse := resolved.held ++ u.inUse }
    have source : subscribedSource c rhs resolved (performWith (fuel + 1)) held =
        (.ok rhs, held) := by
      have noResource : resolved.asResource?.isSome = false := by rw [resource]; rfl
      simp only [subscribedSource, noResource, plain.1, Bool.false_eq_true, if_false]
      rfl
    obtain ⟨u', same, subscribed⟩ := subscribe_of_commit plain fails.result
    have here : Eval.context (performWith (fuel + 1)) held = (.ok held.context, held) := rfl
    have following : (do followSource c s (← subscribedSource c rhs resolved))
        (performWith (fuel + 1)) held = (.error i, u') := by
      rw [bind_of_ok source, followSource, bind_of_ok here]
      exact bind_of_error subscribed
    have attempted := (held.keepsStore_atDelivery c rhs).trans fails.keepsStore
    have ended := attempted.trans (.of_sameStore same)
    refine ⟨_, subscribeDeclared_of_following forced following, kept.trans ?_⟩
    exact ⟨ended.scopes, ended.exports⟩

end assignments

/-- What a failed assignment leaves. A commit ends in one of the listed ways. If its value is not
written, the store is as it was before the commit; if it succeeds and publishes, it publishes the
value that it has written. An assignment that is one commit is thereby covered; a conditional one is
as well; and a subscribing one that fails after its initial commit leaves what that commit has
left. -/
theorem failed_assignment_keeps_store :
    (∀ (fuel : Nat) (c : Commit) (v : Value) (w : World), c.Harmless (performWith fuel) v w →
      let result := (commit c v).run fuel w
      (∃ ending, c.Ends (performWith fuel) v w ending result.1 result.2) ∧
      ∀ ending, c.Ends (performWith fuel) v w ending result.1 result.2 →
        (ending.IsFailure → w.KeepsStore result.2) ∧
        (ending = .bound → w.scopes.IsTree →
          (∀ s, w.context.current? = some s → s < w.scopes.size) →
          ∃ a u b, c.Attempts (performWith fuel) v w a ∧ a.check.run fuel a.start = (.ok (), u) ∧
            (a.write u).scopes.localBinding? a.target c.target = some b ∧ b.value = a.value ∧
            result.1 = .ok a.value ∧
            (c.exported → result.2.exports.find? c.target = some a.value))) ∧
    (∀ (fuel : Nat) (c : Commit) (rhs condition : Value) (holds : Bool) (w u : World) (s : ScopeId)
      (ending : CommitEnding), w.context.current? = some s →
      (truthy condition).run fuel w = (.ok holds, u) → w.KeepsStore u →
      let v := if holds then rhs else .void
      c.Harmless (performWith fuel) v u →
      c.Ends (performWith fuel) v u ending ((commit c v).run fuel u).1 ((commit c v).run fuel u).2 →
      ending.IsFailure → w.KeepsStore ((whenAssign c rhs condition).run fuel w).2) ∧
    (∀ (fuel : Nat) (c : Commit) (rhs : Value) (w : World) (s : ScopeId),
      w.context.current? = some s →
      (∀ i w', ¬ w.scopes.hasLocal s c.target → c.Fails (performWith fuel) .void w i w' →
        (subscribeAssign c rhs).run fuel w = (.error i, w') ∧ w.KeepsStore w') ∧
      ∀ u, (declareVoid c s).run fuel w = (.ok (), u) → ∀ i, c.SourceFails rhs fuel u i →
        ∃ w', (subscribeAssign c rhs).run fuel w = (.error i, w') ∧ u.KeepsStore w') := by
  refine ⟨fun fuel c v w harmless => ⟨c.ends _ v w, fun ending ends =>
      ⟨ends.keepsStore harmless, ?_⟩⟩,
    fun fuel c rhs condition holds w u s ending hs tested spared harmless ends failure =>
      whenAssign_keepsStore hs tested spared (ends.keepsStore harmless failure),
    fun fuel c rhs w s hs => ⟨fun i w' unbound fails =>
      ⟨subscribeAssign_of_declareVoid hs unbound fails.result, fails.keepsStore⟩,
        fun u declared i fails => ?_⟩⟩
  · rintro rfl tree current
    exact ends.of_bound harmless tree current
  · obtain ⟨w', failed, kept⟩ := fails.keepsStore s
    refine ⟨w', ?_, kept⟩
    rw [Eval.run, subscribeAssign_eq, bind_of_ok (commitScope_apply hs), bind_of_ok declared]
    exact failed

/-- A script in whose root nothing is bound. -/
def scriptRoot : World :=
  { scopes := #[{ name := "script", parent := none }], context := { scopes := [0] } }

/-- An assignment of a text as a number. -/
def mistyped : Assignment :=
  { target := "x", value := .str "text", declaredType := some .integer, exported := true }

theorem forceAssigned_mistyped (perform : Task → Run Value) (w : World) :
    forceAssigned mistyped.value perform w = (.ok mistyped.value, w) := by
  simp [forceAssigned, mistyped, force, bind_apply, world]

theorem mistyped_target (op : Operator) (w : World) (s : ScopeId) (v : Value) :
    (w.attempt s "x" v (mistyped.commit op).options).target = s := by
  have declares : (mistyped.commit op).options.declare = true := by
    simp [mistyped, Assignment.commit, Assignment.declares]
  simp [World.attempt, declares]

section mistyped

variable (op : Operator) (perform : Task → Run Value) {w : World} {s : ScopeId}
  (hs : w.context.current? = some s)
  (free : ∀ b, w.scopes.localBinding? s "x" = some b → b.constraint = none ∧ ¬ b.flags.isConst)
include hs free

/-- Where the target has no constraint, its commit evaluates nothing. -/
theorem mistyped_harmless : (mistyped.commit op).Harmless perform mistyped.value w where
  forcing u _ := by
    rw [forceAssigned_mistyped]
    exact .refl u
  checking a attempted c hc := by
    obtain ⟨u, prepared, forced⟩ := attempted.start
    obtain ⟨s', hs', made⟩ := attempted.attempt
    cases hs.symm.trans hs'
    cases prepared
    rw [forceAssigned_mistyped] at forced
    have start : a.start = w := (congrArg Prod.snd forced).symm
    have seen : a.seen.bind Binding.constraint = none := by
      rw [made, start]
      refine Option.bind_eq_none_iff.mpr fun b hb => (free b ?_).1
      rw [← mistyped_target op w s a.value]
      exact hb
    have merged : a.binding.constraint = none.or (a.seen.bind Binding.constraint) := by
      rw [made]
      rfl
    rw [merged, seen] at hc
    cases hc

/-- Where the target is no constant, its commit fails at the declared type. -/
theorem mistyped_ends :
    (mistyped.commit op).Ends perform mistyped.value w .typeMismatch
      (.error (.raised
        (EvalError.declaredTypeMismatch "x" TypeTag.integer.name TypeTag.string.name)))
      (w.report .warning "declared type mismatch"
        [("variable", "x"), ("expected", "INTEGER"), ("actual", "STRING")]) := by
  have prepared : (mistyped.commit op).prepare mistyped.value perform w = (.ok (), w) := rfl
  have attempted : (mistyped.commit op).Attempts perform mistyped.value w
      (w.attempt s "x" mistyped.value (mistyped.commit op).options) :=
    ⟨⟨w, prepared, forceAssigned_mistyped _ _⟩, ⟨s, hs, rfl⟩, nofun⟩
  have unbarred : ¬ (w.attempt s "x" mistyped.value (mistyped.commit op).options).Barred w :=
    fun ⟨b, hb, hc⟩ => (free b (by rwa [mistyped_target] at hb)).2 hc
  have declared : (w.attempt s "x" mistyped.value
      (mistyped.commit op).options).binding.declaredType = some .integer := rfl
  have refused : ¬ TypeTag.integer.accepts .string := by decide
  exact Commit.Ends.typeMismatch attempted unbarred declared rfl refused (w.sameStore_report _ _ _)

end mistyped

/-- The world in which the target is declared by a commit of void. -/
def declaredRoot : World :=
  ((declareVoid (mistyped.commit .subscribeAssign) 0).run 1 scriptRoot).2

theorem mistyped_sourceFails :
    (mistyped.commit .subscribeAssign).SourceFails mistyped.value 1 declaredRoot
      (.raised (EvalError.declaredTypeMismatch "x" TypeTag.integer.name TypeTag.string.name)) := by
  let c := mistyped.commit .subscribeAssign
  let delivery : World := declaredRoot.atDelivery c mistyped.value
  have current : delivery.context.current? = some 0 := rfl
  have free : ∀ b, delivery.scopes.localBinding? 0 "x" = some b →
      b.constraint = none ∧ ¬ b.flags.isConst := by
    rintro b ⟨⟩
    exact ⟨rfl, nofun⟩
  have fails : c.Fails (performWith 0) mistyped.value delivery _ _ :=
    ⟨mistyped_harmless _ _ current free, rfl, _, mistyped_ends _ _ current free, trivial⟩
  exact .value (u := declaredRoot) rfl (.refl _) rfl ⟨rfl, rfl⟩ fails

theorem mistyped_assignment_keeps_store :
    scriptRoot.KeepsStore
      ((commit (mistyped.commit .assignment) mistyped.value).run 0 scriptRoot).2 ∧
    declaredRoot.KeepsStore
      ((subscribeAssign (mistyped.commit .subscribeAssign) mistyped.value).run 1 scriptRoot).2 := by
  obtain ⟨one, -, subscribed⟩ := failed_assignment_keeps_store
  constructor
  · have free : ∀ b, scriptRoot.scopes.localBinding? 0 "x" = some b →
        b.constraint = none ∧ ¬ b.flags.isConst := nofun
    obtain ⟨-, each⟩ := one 0 (mistyped.commit .assignment) mistyped.value scriptRoot
      (mistyped_harmless _ _ rfl free)
    exact (each _ (mistyped_ends .assignment _ rfl free)).1 trivial
  · obtain ⟨w', failed, kept⟩ := (subscribed 1 _ mistyped.value scriptRoot 0 rfl).2 declaredRoot rfl
      _ mistyped_sourceFails
    rw [failed]
    exact kept

/-- The subscribing assignment fails, and leaves the target bound to void and published as such. -/
theorem mistyped_subscription_leaves_void :
    let c := mistyped.commit .subscribeAssign
    let result := (subscribeAssign c mistyped.value).run 1 scriptRoot
    c.options.constraint = none ∧
      (∀ perform w, forceAssigned mistyped.value perform w = (.ok mistyped.value, w)) ∧
      result.1 = .error (.raised (EvalError.declaredTypeMismatch "x" "INTEGER" "STRING")) ∧
      scriptRoot.scopes.localBinding? 0 "x" = none ∧
      (result.2.scopes.localBinding? 0 "x").map Binding.value = some .void ∧
      scriptRoot.exports = [] ∧ result.2.exports = [("x", .void)] :=
  ⟨rfl, forceAssigned_mistyped, rfl, rfl, rfl, rfl, rfl⟩

end ReactiveScript
