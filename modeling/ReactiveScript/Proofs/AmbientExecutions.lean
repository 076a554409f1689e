import ReactiveScript.Proofs.AmbientEvaluators

/-!
# Executions in alike worlds

The rest of the evaluator agrees with itself: assignments, operations, executions and notifications,
and with them every task. An execution needs room for one more; apart from that it agrees if what it
does in the scopes of its node agrees, whatever the stacks are below.
-/

namespace ReactiveScript

variable {K : List ScopeId} {α : Type}

namespace Eval.Agree

variable {S : ScopeStack → ScopeStack → Prop} {more : Nat}

section assignments

theorem commitScope (c : Commit) : Agree K more (Eval.commitScope c) (Eval.commitScope c) := by
  refine bind currentScope? fun s => ?_
  cases s with
  | none => exact raise _
  | some scope => exact pure scope

theorem reportUnlikelyType (c : Commit) :
    Agree K more (Eval.reportUnlikelyType c) (Eval.reportUnlikelyType c) := by
  unfold Eval.reportUnlikelyType
  split
  · refine look fun n w v h => ?_
    have learner : w.learner = v.learner := (congrArg World.learner h.same :)
    rw [learner, h.settings]
    split
    · exact report _ _ _
    · exact pure ()
  · exact pure ()

theorem constrain (node : NodeId) (fingerprint : String) :
    Agree K more (Eval.constrain node fingerprint) (Eval.constrain node fingerprint) := by
  refine look fun n w v h => ?_
  rcases h.node? node with ⟨found, found'⟩ | ⟨m, m', found, found', same⟩ <;> rw [found, found']
  · exact pure ()
  · have bound : m'.fingerprint = m.fingerprint := (congrArg Node.fingerprint same.symm :)
    have operation : m'.operation = m.operation := (congrArg Node.operation same.symm :)
    simp only [bound, operation]
    split
    · exact modify (fun w _ => .constrain w node fingerprint) fun w =>
        (w.trim_modifyNode node (f := fun n => { n with fingerprint := some fingerprint })
          fun _ => rfl).symm
    · split
      · exact pure _
      · exact raise _

theorem publishBinding (name : String) (v : Value) :
    Agree K more (Eval.publishBinding name v) (Eval.publishBinding name v) :=
  modify (fun w _ => .publish w name v) fun _ => rfl

theorem prepare (c : Commit) (v : Value) : Agree K more (c.prepare v) (c.prepare v) := by
  refine bind (reportUnlikelyType c) fun _ => ?_
  split
  · exact constrain _ _
  · exact pure ()

theorem forceAssigned (v : Value) :
    Agree K more (Eval.forceAssigned v) (Eval.forceAssigned v) := by
  refine look fun n w v' h => ?_
  rw [h.settings]
  exact force _ v _

theorem conclude (c : Commit) (scope : ScopeId) (forced : Value) :
    Agree K more (c.conclude scope forced) (c.conclude scope forced) := by
  unfold Commit.conclude
  split
  · exact pure _
  · refine bind (bindName scope c.target forced c.options) fun bound => ?_
    dsimp only
    split
    · exact bind (publishBinding c.target bound) fun _ => pure _
    · exact pure _

theorem commit (c : Commit) (v : Value) :
    Agree K more (Eval.commit c v) (Eval.commit c v) := by
  have bound : Agree K more
      (Eval.commitScope c >>= fun scope => c.prepare v >>= fun _ =>
        Eval.forceAssigned v >>= c.conclude scope)
      (Eval.commitScope c >>= fun scope => c.prepare v >>= fun _ =>
        Eval.forceAssigned v >>= c.conclude scope) :=
    bind (commitScope c) fun scope => bind (prepare c v) fun _ =>
      bind (forceAssigned v) fun forced => conclude c scope forced
  rw [commit_eq]
  refine look fun n w v' h => ?_
  have reserved : w.isReserved c.target = v'.isReserved c.target :=
    congrArg (fun w => w.isReserved c.target) h.same
  rw [reserved]
  split
  · exact raise _
  · exact bound

theorem commitWhen (c : Commit) (holds : Bool) (rhs : Value) :
    Agree K more (Eval.commitWhen c holds rhs) (Eval.commitWhen c holds rhs) := commit c _

theorem boundValue (scope : ScopeId) (name : String) :
    Agree K more (Eval.boundValue scope name) (Eval.boundValue scope name) := by
  refine look fun n w v h => ?_
  rw [h.find?]
  exact pure _

theorem whenAssign (c : Commit) (rhs condition : Value) :
    Agree K more (Eval.whenAssign c rhs condition) (Eval.whenAssign c rhs condition) := by
  refine bind (commitScope c) fun scope => bind (truthy condition) fun holds => ?_
  refine bind (commitWhen c holds rhs) fun _ => ?_
  cases condition.asNode? with
  | none => exact boundValue scope c.target
  | some node =>
    refine look fun n w v h => ?_
    have asked : (Task.listen node.id (some (whenKey scope c.target))
        (.commitWhen c rhs w.context.scopes)).trim K =
          (Task.listen node.id (some (whenKey scope c.target))
            (.commitWhen c rhs v.context.scopes)).trim K :=
      congrArg (fun scopes => Task.listen node.id _ (.commitWhen c rhs scopes)) h.scopes
    exact bind (perform asked trivial) fun _ => boundValue scope c.target

theorem subscribedSource (c : Commit) (rhs resolved : Value) :
    Agree K more (Eval.subscribedSource c rhs resolved) (Eval.subscribedSource c rhs resolved) := by
  unfold Eval.subscribedSource
  split
  · exact pure _
  · split
    · exact bind (commit c resolved) fun _ => pure _
    · exact pure _

theorem followSource (c : Commit) (scope : ScopeId) (source : Value) :
    Agree K more (Eval.followSource c scope source) (Eval.followSource c scope source) := by
  refine look fun n w v h => ?_
  exact bind (subscribe source (congrArg (Callback.commit c) h.scopes) trivial) fun id => keep _ id

theorem subscribeAssign (c : Commit) (rhs : Value) :
    Agree K more (Eval.subscribeAssign c rhs) (Eval.subscribeAssign c rhs) := by
  have connected (scope : ScopeId) : Agree K more
      (Eval.fix rhs 1 >>= fun resolved => Eval.holding resolved.held
        (Eval.subscribedSource c rhs resolved >>= Eval.followSource c scope) >>= fun _ =>
          Eval.boundValue scope c.target)
      (Eval.fix rhs 1 >>= fun resolved => Eval.holding resolved.held
        (Eval.subscribedSource c rhs resolved >>= Eval.followSource c scope) >>= fun _ =>
          Eval.boundValue scope c.target) := by
    refine bind (fix rhs 1) fun resolved => ?_
    refine bind (holdingSame _ ?_) fun _ => boundValue scope c.target
    exact bind (subscribedSource c rhs resolved) fun source => followSource c scope source
  refine bind (commitScope c) fun scope => look fun n w v h => ?_
  rw [h.hasLocal]
  dsimp only
  split
  · exact connected scope
  · exact bind (commit c .void) fun _ => connected scope

end assignments

section operations

theorem onConcrete (f : Value → Value) (v : Value) :
    Agree K more (Eval.onConcrete f v) (Eval.onConcrete f v) := bind (fix v 1) fun _ => pure _

theorem onOperands (f : Value → Value → Except EvalError Value) (l r : Value) :
    Agree K more (Eval.onOperands f l r) (Eval.onOperands f l r) :=
  bind (fix l 1) fun l => bind (holdingSame l.held (fixDeep r)) fun r => ofExcept (f l r)

theorem onSettled (f : Value → Value → Value) (l r : Value) :
    Agree K more (Eval.onSettled f l r) (Eval.onSettled f l r) :=
  bind (fixDeep l) fun l => bind (holdingSame l.held (fixDeep r)) fun _ => pure _

theorem truthOf (v : Value) : Agree K more (Eval.truthOf v) (Eval.truthOf v) :=
  bind (fix v 1) fun _ => pure _

theorem and (l r : Value) : Agree K more (Eval.and l r) (Eval.and l r) := by
  refine bind (fix l 1) fun l => ?_
  split
  · exact pure _
  · split
    · exact holdingSame _ (truthOf r)
    · exact pure _

theorem or (l r : Value) : Agree K more (Eval.or l r) (Eval.or l r) := by
  refine bind (fix l 1) fun l => ?_
  split
  · exact pure _
  · split
    · exact pure _
    · exact holdingSame _ (truthOf r)

theorem read (v : Value) : Agree K more (Eval.read v) (Eval.read v) := by
  refine bind (fix v 1) fun v => ?_
  split
  · exact callBackend _ rfl trivial
  · exact pure _

theorem evaluateUnary (op : Operator) (v : Value) :
    Agree K more (Eval.evaluateUnary op v) (Eval.evaluateUnary op v) := by
  unfold Eval.evaluateUnary
  split
  · exact onConcrete _ v
  · exact onConcrete _ v
  · exact fixDeep v
  · exact onConcrete _ v
  · exact onOperands _ v _
  · exact onOperands _ v _
  · exact read v
  · exact raise _

theorem evaluateBinary (op : Operator) (l r : Value) :
    Agree K more (Eval.evaluateBinary op l r) (Eval.evaluateBinary op l r) := by
  unfold Eval.evaluateBinary
  split
  case h_12 => exact and l r
  case h_13 => exact or l r
  case h_14 => exact raise _
  all_goals first | exact onOperands _ l r | exact onSettled _ l r

end operations

section execution

theorem follow (kind : String) (source expr : Value) :
    Agree K more (Eval.follow kind source expr) (Eval.follow kind source expr) := by
  refine look fun n w v h => ?_
  have evaluated : (Callback.evaluate kind w.context.scopes expr).trim K =
      (Callback.evaluate kind v.context.scopes expr).trim K :=
    congrArg (Callback.evaluate kind · expr) h.scopes
  exact bind (subscribe source evaluated trivial) fun id => bind (keep _ id) fun _ => pure _

theorem writeTo (operation : String) (target v : Value) (blocking : Bool) :
    Agree K more (Eval.writeTo operation target v blocking)
      (Eval.writeTo operation target v blocking) := by
  refine bind (fix target 1) fun target => ?_
  split
  · exact callBackend _ rfl trivial
  · exact raise _

theorem addScope (name : String) : Agree K more (Eval.addScope name) (Eval.addScope name) := by
  refine bind currentScope? fun s => ?_
  cases s with
  | none => exact addRoot name
  | some parent => exact addChild parent name

theorem withItem (name : String) (item : Value) {x y : Eval α} (hx : Agree K more x y) :
    Agree K more (Eval.withItem name item x) (Eval.withItem name item y) :=
  bind (addScope name) fun scope => bind (bindParameter scope _ item) fun _ =>
    bind (bindParameter scope _ item) fun _ => withScope scope hx

theorem pipe (lhs rhs : Value) : Agree K more (Eval.pipe lhs rhs) (Eval.pipe lhs rhs) := by
  refine look fun n w v h => ?_
  rw [h.settings]
  refine bind (force _ lhs _) fun item => ?_
  exact holdingSame _ (withItem "pipe" item (force _ rhs _))

theorem runBody (id : NodeId) {n n' : Node} (h : n.trim K = n'.trim K)
    (ha : n.body.Allowed Action.Lexical) :
    Agree K more (Eval.runBody id n) (Eval.runBody id n') := by
  have body : n'.body = n.body := (congrArg Node.body h.symm :)
  have inputs : n'.inputs = n.inputs := (congrArg Node.inputs h.symm :)
  unfold Eval.runBody
  rw [body, inputs]
  cases hb : n.body with
  | program actions =>
    rw [hb] at ha
    exact runProgram (some id) n.inputs ha
  | «variable» name => exact lookup name
  | unary op => exact evaluateUnary op _
  | binary op => exact evaluateBinary op _ _
  | pipe => exact pipe _ _
  | subscribe => exact bind (fix _ 1) fun resolved => holdingSame _ (follow "subscribe" _ _)
  | listen => exact follow "listen" _ _
  | publish =>
    refine look fun _ w v h => ?_
    rw [h.settings]
    exact bind (forceDeep _ _) fun v => holdingSame _ (writeTo "publish" _ v false)
  | write =>
    refine look fun _ w v h => ?_
    rw [h.settings]
    exact bind (forceDeep _ _) fun v => holdingSame _ (writeTo "write" _ v true)
  | assign c => exact commit c _
  | whenAssign c condition => exact whenAssign c _ condition
  | subscribeAssign c => exact subscribeAssign c _

section node

variable {n n' : Node} (h : n.trim K = n'.trim K)
include h

theorem withHint {x y : Eval α} (hx : Agree K more x y) :
    Agree K more (Eval.withHint n x) (Eval.withHint n' y) := by
  have trigger : n.trigger = n'.trigger := (congrArg Node.trigger h :)
  have hint : n.scopeHint = n'.scopeHint := by rw [Node.scopeHint, trigger, Node.scopeHint]
  refine bind currentScope? fun s => ?_
  rw [hint]
  split
  · exact withScope _ hx
  · exact hx

theorem withFreshScope {x y : Eval α} (hx : Agree K more x y) :
    Agree K more (Eval.withFreshScope n x) (Eval.withFreshScope n' y) := by
  have flags : n.flags = n'.flags := (congrArg Node.flags h :)
  have operation : n.operation = n'.operation := (congrArg Node.operation h :)
  unfold Eval.withFreshScope
  rw [flags, operation]
  split
  · exact bind (addScope _) fun scope => withScope scope hx
  · exact hx

theorem inScopesOf {x y : Eval α} (hx : Agree K more x y) :
    Agree K more (Eval.inScopesOf n x) (Eval.inScopesOf n' y) := by
  have captured : n.captured = n'.captured := (congrArg Node.captured h :)
  unfold Eval.inScopesOf
  rw [captured]
  exact withScopes rfl (withHint h (withFreshScope h hx))

theorem recover (e : EvalError) : Agree K more (Eval.recover n e) (Eval.recover n' e) := by
  have source : n.source = n'.source := (congrArg Node.source h :)
  unfold Eval.recover
  rw [source]
  refine bind currentScope? fun s => ?_
  cases s with
  | none => exact raise _
  | some scope => exact handleError scope _

theorem runRecovering (id : NodeId) (ha : n.body.Allowed Action.Lexical) :
    Agree K more (Eval.runRecovering id n) (Eval.runRecovering id n') := by
  refine bind (attempt (runBody id h ha)) fun outcome => ?_
  cases outcome with
  | ok v => exact pure v
  | error e => exact recover h e

theorem recordType (id : NodeId) (v : Value) :
    AgreeFrom S K more (Eval.recordType id n v) (Eval.recordType id n' v) := by
  have operation : n.operation = n'.operation := (congrArg Node.operation h :)
  have source : n.source = n'.source := (congrArg Node.source h :)
  have inputs : n.inputs = n'.inputs := (congrArg Node.inputs h :)
  unfold Eval.recordType
  rw [operation, source, inputs]
  split
  · exact pure ()
  · exact modify (fun w _ => .learn w _) fun _ => rfl

theorem concludeExecution (id : NodeId) (outcome : Except EvalError Value) :
    AgreeFrom S K more (Eval.concludeExecution id n outcome)
      (Eval.concludeExecution id n' outcome) := by
  have source : n.source = n'.source := (congrArg Node.source h :)
  refine bind takeCorruption fun corruption => ?_
  cases corruption with
  | some e =>
    rw [source]
    exact raise _
  | none => exact bind (ofExcept outcome) fun v => bind (recordType h id v) fun _ => pure v

end node

/-- An execution agrees where there is room for it, if what it does in the scopes of its node
agrees. -/
theorem executeIn {k : Nat} {perform perform' : Task → Run Value}
    (hp : Task.Agree K k perform perform') {id : NodeId} {w v : World}
    (h : World.AlikeFrom S K (k + (more + 1)) w v) {n n' : Node} (hn : w.node? id = some n)
    (hn' : v.node? id = some n') (same : n.trim K = n'.trim K)
    (inside : AgreeFrom S K more (Eval.inScopesOf n (Eval.runRecovering id n))
      (Eval.inScopesOf n' (Eval.runRecovering id n'))) :
    Agreement K w v (Eval.execute id perform w) (Eval.execute id perform' v) := by
  have admitted {w : World} (h : w.Grounded K (k + (more + 1))) :
      w.context.calls.size < w.settings.maxRecursionDepth := by
    have := h.room
    omega
  rw [execute_of_admitted hn (admitted h.left), execute_of_admitted hn' (admitted h.right)]
  exact whileExecuting id (bind (attempt inside) fun outcome => concludeExecution same id outcome)
    k perform perform' hp w v h

theorem execute (id : NodeId) : Agree K (more + 1) (Eval.execute id) (Eval.execute id) := by
  intro k perform perform' hp w v h
  rcases h.node? id with ⟨hn, hn'⟩ | ⟨n, n', hn, hn', same⟩
  · have missing {perform : Task → Run Value} {w : World} (hn : w.node? id = none) :
        Eval.execute id perform w = (.ok .void, w) := by
      rw [Eval.execute, bind_apply, Eval.world]
      simp only [hn]
      rfl
    rw [missing hn, missing hn']
    exact ⟨rfl, h.same, .refl h.left.allowed, .refl h.right.allowed⟩
  · exact executeIn hp h hn hn' same
      (inScopesOf same (runRecovering same id (h.left.allowed.node hn).body))

theorem resolve (id : NodeId) (depth : Nat) (parallel : Bool) :
    Agree K (more + 1) (Eval.resolve id depth parallel) (Eval.resolve id depth parallel) :=
  bind (execute id) fun v => holdingSame v.held (force parallel v depth)

end execution

section notification

theorem listenToInputs (id : NodeId) (inputs : List Value) :
    Agree K more (Eval.listenToInputs id inputs) (Eval.listenToInputs id inputs) := by
  induction inputs with
  | nil => exact pure ()
  | cons v rest ih =>
    unfold Eval.listenToInputs
    cases v.asNode? with
    | none => exact ih
    | some n => exact bind (perform rfl trivial) fun _ => ih

theorem listenVariable (scope : ScopeId) (name key : String) (id : NodeId) :
    Agree K more (Eval.listenVariable scope name key (.relay id))
      (Eval.listenVariable scope name key (.relay id)) := by
  refine modify (fun w _ => .listenVariable w _ name key trivial) fun w => ?_
  have target : (w.trim K).scopes.targetOf scope name = w.scopes.targetOf scope name :=
    ScopeTable.targetOf_trim _ _ _
  rw [target]
  exact (w.trim_modifyScope _ fun s => s.trim_listen name key (.relay id)).symm

theorem connectNode (id : NodeId) {n n' : Node} (h : n.trim K = n'.trim K) :
    Agree K more (Eval.connectNode id n) (Eval.connectNode id n') := by
  have wired : n.wired = n'.wired := (congrArg Node.wired h :)
  have trigger : n.trigger = n'.trigger := (congrArg Node.trigger h :)
  have inputs : n.inputs = n'.inputs := (congrArg Node.inputs h :)
  unfold Eval.connectNode
  rw [wired, trigger, inputs]
  split
  · exact pure ()
  · refine bind (modify (fun w _ => .wire w id) fun w =>
      (w.trim_modifyNode id (f := fun n => { n with wired := true }) fun _ => rfl).symm) fun _ => ?_
    split
    · exact listenToInputs id n'.inputs
    · refine bind currentScope? fun s => ?_
      split
      · exact listenVariable _ _ _ id
      · exact pure ()

theorem listenerKey (id : NodeId) (key : Option String) :
    Agree K more (Eval.listenerKey id key) (Eval.listenerKey id key) := by
  cases key with
  | some key => exact pure key
  | none =>
    refine write (fun w _ => ?_) fun w => ?_
    · cases h : w.node? id with
      | none => exact .none w
      | some n => exact .generateKey w id h
    · have taken (listeners : Listeners) :
          World.trim K (w.modifyNode id fun n => { n with listeners }) =
            (w.trim K).modifyNode id fun n => { n with listeners := listeners.trim K } :=
        w.trim_modifyNode id fun _ => rfl
      rw [World.node?_trim]
      cases w.node? id with
      | none => rfl
      | some n => exact congrArg (Prod.mk _) (taken (n.listeners.generateKey id).2).symm

theorem register (id : NodeId) (key : String) {c c' : Callback} (hc : c.trim K = c'.trim K)
    (ha : c.Allowed Action.Lexical) :
    Agree K more
      (Eval.modify fun w => w.modifyNode id fun n =>
        { n with listeners := n.listeners.register key c })
      (Eval.modify fun w => w.modifyNode id fun n =>
        { n with listeners := n.listeners.register key c' }) := by
  have registered (w : World) (c : Callback) :
      World.trim K (w.modifyNode id fun n => { n with listeners := n.listeners.register key c }) =
        (w.trim K).modifyNode id fun n =>
          { n with listeners := n.listeners.register key (c.trim K) } :=
    w.trim_modifyNode id fun n => congrArg (fun listeners => { n with listeners })
      (n.listeners.trim_register key c)
  refine change (f := fun w => ((), w.modifyNode id fun n => _))
    (g := fun w => ((), w.modifyNode id fun n => _)) (fun w _ => .listen w id key ha)
    (fun w _ => .listen w id key (Callback.allowed_of_trim hc ha)) fun n w v h => ⟨rfl, ?_⟩
  rw [registered, registered, hc, h.same]

theorem listen (id : NodeId) (key : Option String) {c c' : Callback} (hc : c.trim K = c'.trim K)
    (ha : c.Allowed Action.Lexical) :
    Agree K more (Eval.listen id key c) (Eval.listen id key c') := by
  refine look fun k w v h => ?_
  rcases h.node? id with ⟨found, found'⟩ | ⟨n, n', found, found', same⟩ <;> rw [found, found']
  · exact pure _
  · refine bind (connectNode id same) fun _ => bind (listenerKey id key) fun key => ?_
    exact bind (register id key hc ha) fun _ => pure _

theorem announce (id : NodeId) : Agree K more (Eval.announce id) (Eval.announce id) := by
  refine look fun k w v h => ?_
  rw [h.settings]
  refine bind (perform rfl trivial) fun result => look fun k w v h => ?_
  have listeners : (w.listenersOf id).map (Callback.trim K) =
      (v.listenersOf id).map (Callback.trim K) := by
    have trimmed (w : World) :
        (w.trim K).listenersOf id = (w.listenersOf id).map (Callback.trim K) := by
      rw [World.listenersOf, World.node?_trim, World.listenersOf]
      cases w.node? id with
      | none => rfl
      | some n => exact OrderedMap.values_mapValues _ _
    rw [← trimmed, ← trimmed, h.same]
  exact bind (deliverAll result listeners (Protocol.listeners_allowed h.left.allowed id))
    fun _ => pure result

theorem evaluateFor (kind : String) {scopes scopes' : ScopeStack}
    (h : scopes.trim K = scopes'.trim K) (expr item : Value) :
    Agree K more (Eval.evaluateFor kind scopes expr item)
      (Eval.evaluateFor kind scopes' expr item) := by
  refine look fun n w v hw => ?_
  rw [hw.settings]
  exact withScopes h (withItem kind item (force _ expr _))

theorem deliver (c : Callback) {c' : Callback} (h : c.trim K = c'.trim K)
    (ha : c.Allowed Action.Lexical) (v : Value) :
    Agree K more (Eval.deliver c v) (Eval.deliver c' v) := by
  cases c with
  | relay node =>
    cases c' <;> simp only [Callback.trim, reduceCtorEq, Callback.relay.injEq] at h
    subst h
    refine look fun k w v h => ?_
    rw [h.isHeld]
    split
    · have asked : (Task.notify node).Allowed Action.Lexical := trivial
      exact holdingSame _ (perform rfl asked)
    · exact pure _
  | program actions =>
    cases c' <;> simp only [Callback.trim, reduceCtorEq, Callback.program.injEq] at h
    subst h
    exact runProgram none [v] ha
  | guarded id callback =>
    cases c' <;> simp only [Callback.trim, reduceCtorEq, Callback.guarded.injEq] at h
    obtain ⟨rfl, same⟩ := h
    refine look fun k w w' h => ?_
    have cancelled : w.isCancelled id = w'.isCancelled id :=
      congrArg (fun w => w.isCancelled id) h.same
    rw [cancelled]
    split
    · exact pure _
    · exact deliver callback same ha v
  | evaluate kind scopes expr =>
    cases c' <;> simp only [Callback.trim, reduceCtorEq, Callback.evaluate.injEq] at h
    obtain ⟨rfl, same, rfl⟩ := h
    exact evaluateFor kind same expr v
  | commitWhen c rhs scopes =>
    cases c' <;> simp only [Callback.trim, reduceCtorEq, Callback.commitWhen.injEq] at h
    obtain ⟨rfl, rfl, same⟩ := h
    exact bind (truthy v) fun holds => withScopes same (commitWhen c holds rhs)
  | commit c scopes =>
    cases c' <;> simp only [Callback.trim, reduceCtorEq, Callback.commit.injEq] at h
    obtain ⟨rfl, same⟩ := h
    exact withScopes same (commit c v)

end notification

/-- What a task does agrees with itself, where there is room for one more execution. -/
theorem step {t u : Task} (h : t.trim K = u.trim K) (ha : t.Allowed Action.Lexical) :
    Agree K (more + 1) (Eval.step t) (Eval.step u) := by
  cases t with
  | resolve node depth parallel =>
    cases u <;> simp only [Task.trim, reduceCtorEq, Task.resolve.injEq] at h
    obtain ⟨rfl, rfl, rfl⟩ := h
    exact resolve node depth parallel
  | settle v parallel =>
    cases u <;> simp only [Task.trim, reduceCtorEq, Task.settle.injEq] at h
    obtain ⟨rfl, rfl⟩ := h
    exact settle parallel v
  | listen node key c =>
    cases u <;> simp only [Task.trim, reduceCtorEq, Task.listen.injEq] at h
    obtain ⟨rfl, rfl, same⟩ := h
    exact listen node key same ha
  | notify node =>
    cases u <;> simp only [Task.trim, reduceCtorEq, Task.notify.injEq] at h
    subst h
    exact whileNotifying node (announce node)
  | deliver c v =>
    cases u <;> simp only [Task.trim, reduceCtorEq, Task.deliver.injEq] at h
    obtain ⟨same, rfl⟩ := h
    exact deliver c same ha v
  | signal resource s =>
    cases u <;> simp only [Task.trim, reduceCtorEq, Task.signal.injEq] at h
    obtain ⟨rfl, rfl⟩ := h
    exact signal resource s
  | poll resource c =>
    cases u <;> simp only [Task.trim, reduceCtorEq, Task.poll.injEq] at h
    obtain ⟨rfl, same⟩ := h
    exact poll resource same ha

end Eval.Agree

/-- All tasks are carried out alike, whatever the fuel, where there is room for as many executions
as the fuel admits. -/
theorem Task.agree_performWith (fuel : Nat) :
    Task.Agree K fuel (performWith fuel) (performWith fuel) := by
  induction fuel with
  | zero =>
    intro t u _ _ w v h
    exact ⟨rfl, h.same, .refl h.left.allowed, .refl h.right.allowed⟩
  | succ fuel ih =>
    intro t u h ha
    have step : Eval.Agree K (0 + 1) (Eval.step t) (Eval.step u) := Eval.Agree.step h ha
    exact step fuel _ _ ih

/-- Evaluations that agree run alike. -/
theorem Eval.AgreeFrom.run {S : ScopeStack → ScopeStack → Prop} {x y : Eval α} {more : Nat}
    (h : AgreeFrom S K more x y) {fuel : Nat} {w v : World}
    (alike : World.AlikeFrom S K (fuel + more) w v) :
    Agreement K w v (x.run fuel w) (y.run fuel v) :=
  h fuel _ _ (Task.agree_performWith fuel) w v alike

end ReactiveScript
