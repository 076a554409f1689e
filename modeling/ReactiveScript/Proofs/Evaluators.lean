import ReactiveScript.Proofs.Protocols

/-!
# Every evaluator is a protocol

One lemma for each function of the evaluator, from forcing up to carrying out a task, and for wiring
and running scripts. They follow the definitions, and nothing else is ever read off these.
-/

namespace ReactiveScript.Eval.Protocol

variable {α : Type} {p : Action → Prop}

section forcing

theorem child (parallel single : Bool) {x : Eval α} (hx : Protocol p x) :
    Protocol p (Eval.child parallel single x) := by
  unfold Eval.child
  split
  · refine .bind context fun c => ?_
    split
    · exact withScopes c.scopes hx
    · exact onWorker c.scopes hx
  · exact hx

mutual

theorem force (parallel : Bool) (v : Value) (depth : Nat) :
    Protocol p (Eval.force parallel v depth) := by
  cases v with
  | node n =>
    unfold Eval.force
    split
    · exact .pure _
    · exact .perform trivial
  | tagged v m =>
    unfold Eval.force
    split
    · exact .pure _
    · exact .bind (force parallel v depth) fun _ => .pure _
  | list items =>
    unfold Eval.force
    split
    · exact .pure _
    · exact .bind (forceItems parallel _ items (depth - 1)) fun _ => .pure _
  | map entries =>
    unfold Eval.force
    split
    · exact .pure _
    · exact .bind (forceEntries parallel _ entries (depth - 1)) fun _ => .pure _
  | _ => exact .pure _

theorem forceItems (parallel single : Bool) (items : List Value) (depth : Nat) :
    Protocol p (Eval.forceItems parallel single items depth) := by
  cases items with
  | nil => exact .pure _
  | cons v rest =>
    refine .bind (child parallel single (force parallel v depth)) fun w => ?_
    exact .bind (holding w.held (forceItems parallel single rest depth)) fun _ => .pure _

theorem forceEntries (parallel single : Bool) (entries : List (String × Value)) (depth : Nat) :
    Protocol p (Eval.forceEntries parallel single entries depth) := by
  cases entries with
  | nil => exact .pure _
  | cons e rest =>
    obtain ⟨key, v⟩ := e
    refine .bind (child parallel single (force parallel v depth)) fun w => ?_
    exact .bind (holding w.held (forceEntries parallel single rest depth)) fun _ => .pure _

end

theorem fix (v : Value) (depth : Nat) : Protocol p (Eval.fix v depth) := force false v depth

theorem settleRest (parallel : Bool) (v : Value) :
    Protocol p (if v.containsNode then Eval.perform (.settle v parallel) else Pure.pure v) := by
  split
  · exact .perform trivial
  · exact .pure v

theorem forceDeep (parallel : Bool) (v : Value) : Protocol p (Eval.forceDeep parallel v) :=
  .bind (force parallel v unboundedDepth) fun w => settleRest parallel w

theorem settle (parallel : Bool) (v : Value) : Protocol p (Eval.settle parallel v) :=
  .bind (holding v.held (force parallel v unboundedDepth)) fun w => settleRest parallel w

theorem fixDeep (v : Value) : Protocol p (Eval.fixDeep v) := forceDeep false v

theorem truthy (v : Value) : Protocol p (Eval.truthy v) := .bind (fix v 1) fun _ => .pure _

end forcing

section resources

theorem answerRequest (id : ResourceId) {request : Request} (hr : request.Allowed p) :
    Protocol p (Eval.answerRequest id request) := by
  refine .write fun w _ => ?_
  cases h : w.resource? id with
  | none => exact .none w
  | some r => exact .of_eq (.answer w id h hr) rfl

theorem answerUnlessFailing (id : ResourceId) {request : Request} (hr : request.Allowed p)
    (failure : Option String) :
    Protocol p
      (match failure with
        | some message => Pure.pure (Value.error (EvalError.exception message))
        | none => Eval.answerRequest id request) := by
  split
  · exact .pure _
  · exact answerRequest id hr

theorem callRecording (id : ResourceId) (name : String) (b : RecordingBackend)
    {request : Request} (hr : request.Allowed p) :
    Protocol p (Eval.callRecording id name b request) := by
  have finish := answerUnlessFailing id hr (b.failures.lookup request.hook)
  unfold Eval.callRecording
  split
  · exact .pure _
  · refine .bind (note _) fun _ => ?_
    cases b.reentries.lookup request.hook with
    | none => exact finish
    | some s =>
      have asked : (Task.signal id s).Allowed p := trivial
      exact .bind (.perform asked) fun result => .bind (note (.reentered s result)) fun _ => finish

theorem callBackend (id : ResourceId) (request : Request) (hr : request.Allowed p) :
    Protocol p (Eval.callBackend id request) := by
  refine .look fun w _ => ?_
  split
  · exact callRecording id _ _ hr
  · exact answerRequest id hr

theorem unlessError {first second : Eval Value} (h : Protocol p first) (h' : Protocol p second) :
    Protocol p (Eval.unlessError first second) := by
  refine .bind h fun v => ?_
  split
  · exact .pure v
  · exact h'

theorem signalAction (id : ResourceId) (state : LifecycleState) (s : Signal) :
    Protocol p (Eval.signalAction id state s) := by
  cases s with
  | start =>
    simp only [Eval.signalAction]
    split
    · exact unlessError (callBackend id .init trivial) (callBackend id .start trivial)
    · exact callBackend id .start trivial
  | stop => exact callBackend id .stop trivial
  | pause => exact callBackend id .pause trivial
  | unpause => exact callBackend id .unpause trivial
  | destroy =>
    simp only [Eval.signalAction]
    split
    · exact unlessError (callBackend id .stop trivial) (callBackend id .destroy trivial)
    · exact callBackend id .destroy trivial
  | error => exact .pure _

theorem signal (id : ResourceId) (s : Signal) : Protocol p (Eval.signal id s) := by
  refine .look fun w _ => ?_
  split
  · exact .pure _
  · next r _ =>
    split
    · exact .pure _
    · next target _ =>
      refine .bind (signalAction id r.state s) fun result => ?_
      refine .bind (modifyApart (fun w _ => ?_) fun _ => rfl) fun _ => .pure _
      exact .settle w id r.state target _

theorem takeItem (id : ResourceId) : Protocol p (Eval.takeItem id) := by
  refine .write fun w _ => ?_
  split
  · next name state b h =>
    split
    · next v queue hq => exact .of_eq (.takeItem w id h hq) rfl
    · exact .none w
  · exact .none w

theorem countDelivery (id : ResourceId) : Protocol p (Eval.countDelivery id) :=
  modifyApart (fun w _ => .countDelivery w id) fun _ => rfl

theorem poll (id : ResourceId) {callback : Callback} (hc : callback.Allowed p) :
    Protocol p (Eval.poll id callback) := by
  refine .bind (takeItem id) fun item => ?_
  cases item with
  | none => exact .pure _
  | some v =>
    refine .bind (.attempt (holding _ (.perform hc))) fun _ => ?_
    exact .bind (countDelivery id) fun _ => .perform hc

end resources

section subscriptions

theorem raiseErrorValue (v : Value) : Protocol p (Eval.raiseErrorValue v) := raiseIf _

theorem startIfCreated (id : ResourceId) : Protocol p (Eval.startIfCreated id) := by
  refine .look fun w _ => ?_
  split
  · exact .bind (signal id .start) fun v => raiseErrorValue v
  · exact .pure ()

theorem connect (source : Value) (name : String) (callback : Callback)
    (hc : callback.Allowed p) : Protocol p (Eval.connect source name callback) := by
  unfold Eval.connect
  split
  · next r _ =>
    refine .bind (startIfCreated r.id) fun _ => ?_
    refine .bind (callBackend r.id (.subscribe name callback) hc) fun v => ?_
    exact .bind (raiseErrorValue v) fun _ => .pure _
  · exact .bind (.perform hc) fun _ => .pure _
  · exact .bind (.perform hc) fun _ => .pure _

theorem unlisten (node : NodeId) (key : String) : Protocol p (Eval.unlisten node key) :=
  modifyApart (fun w _ => .unlisten w node key) fun _ => rfl

theorem disconnect (id : SubscriptionId) (target : Option SubscriptionTarget) :
    Protocol p (Eval.disconnect id target) := by
  cases target with
  | none => exact .pure ()
  | some target =>
    cases target with
    | resource r => exact .bind (callBackend r (.unsubscribe _) trivial) fun _ => .pure ()
    | node n => exact unlisten n _
    | value => exact .pure ()

theorem establishing (slotOf : SubscriptionId → Slot) (source : Value) {callback : Callback}
    (hc : callback.Allowed p) : Protocol p (Eval.establish slotOf source callback) :=
  .establish slotOf source (fun name id => connect source name (.guarded id callback) hc) disconnect

theorem endingSlot (slot : Slot) : Protocol p (Eval.endSlot slot) := .endSlot slot disconnect

theorem cancelSlot (slot : Slot) : Protocol p (Eval.cancelSlot slot) := by
  rw [cancelSlot_eq]
  exact .bind (endingSlot slot) fun _ => .pure _

theorem cancelSlots (slots : List Slot) : Protocol p (Eval.cancelSlots slots) := by
  induction slots with
  | nil => exact .pure _
  | cons slot rest ih =>
    rw [cancelSlots_cons]
    refine .bind (endingSlot slot) fun previous => ?_
    cases previous with
    | none => exact ih
    | some id =>
      refine .look fun w _ => ?_
      split
      · exact .bind ih fun _ => .pure _
      · exact ih

theorem stopResource (id : ResourceId) : Protocol p (Eval.stopResource id) := by
  refine .look fun w _ => ?_
  split
  · exact .pure ()
  · split
    · refine .bind (signal id .stop) fun stopped => ?_
      split
      · exact report _ _ _
      · exact .pure ()
    · exact .pure ()

theorem stopResources (ids : List ResourceId) : Protocol p (Eval.stopResources ids) := by
  induction ids with
  | nil => exact .pure ()
  | cons id rest ih => exact .bind (stopResource id) fun _ => ih

theorem shutdown : Protocol p Eval.shutdown :=
  .look fun _ _ => .bind (cancelSlots _) fun resources => stopResources resources.eraseDups

end subscriptions

section binding

theorem deliverAll (v : Value) {callbacks : List Callback} (hc : AllowedCallbacks p callbacks) :
    Protocol p (Eval.deliverAll v callbacks) := by
  induction callbacks with
  | nil => exact .pure ()
  | cons callback rest ih =>
    have asked : (Task.deliver callback v).Allowed p := hc callback (by simp)
    refine .bind (holding _ (.perform asked)) fun _ => ?_
    exact ih fun c hm => hc c (List.mem_cons_of_mem _ hm)

theorem checkConstraint (scope : ScopeId) (name : String) (value previous : Value)
    (c : Constraint) : Protocol p (Eval.checkConstraint scope name value previous c) := by
  refine withParameters (fun w _ => .addChild w scope "constraint") (fun _ => Nat.le_refl _) _ _
    value previous fun check => withScope check ?_
  refine .bind (holding _ (truthy _)) fun holds => ?_
  split
  · exact .pure _
  · exact .bind (report _ _ _) fun _ => .raise _

theorem checkType (name : String) (value : Value) (declared : Option TypeTag) :
    Protocol p (Eval.checkType name value declared) := by
  unfold Eval.checkType
  split
  · split
    · exact .pure _
    · exact .bind (report _ _ _) fun _ => .raise _
  · exact .pure ()

theorem callbacks_allowed {w : World} (hw : w.Allowed p) (scope : ScopeId) (name : String) :
    AllowedCallbacks p ((w.scopes[scope]?.map fun s => s.callbacks name).getD []) := by
  cases hs : w.scopes[scope]? with
  | none => exact AllowedCallbacks.nil
  | some s =>
    show AllowedCallbacks p (s.callbacks name)
    unfold Scope.callbacks
    cases hf : s.listeners.find? name with
    | none => exact AllowedCallbacks.nil
    | some callbacks =>
      exact (hw.scopes scope s hs).listeners callbacks (OrderedMap.mem_values_of_find? hf)

theorem check (a : BindAttempt) : Protocol p a.check := by
  unfold BindAttempt.check
  split
  · exact .pure ()
  · refine .bind (checkType _ _ _) fun _ => ?_
    split
    · exact checkConstraint _ _ _ _ _
    · exact .pure ()

theorem announceBinding (a : BindAttempt) : Protocol p a.announce :=
  .look fun _ hw => holding _ (deliverAll a.value (callbacks_allowed hw a.target a.name))

theorem bindName (scope : ScopeId) (name : String) (value : Value) (options : BindOptions) :
    Protocol p (Eval.bind scope name value options) :=
  .binding scope name value options check announceBinding

theorem lookup (name : String) : Protocol p (Eval.lookup name) := by
  refine .bind currentScope? fun s => ?_
  cases s with
  | none => exact .raise _
  | some scope =>
    refine .look fun w _ => ?_
    split
    · exact .pure _
    · exact .raise _

end binding

section programs

theorem nextOf (self : Option NodeId) (values : List Value) :
    Protocol p (Eval.nextOf self values) := by
  refine .write fun w _ => ?_
  cases self with
  | none => exact .none w
  | some id => exact .of_eq (.countRun w id) rfl

theorem runAction (self : Option NodeId) (inputs : List Value) (result : Value) {a : Action}
    (ha : a.Allowed p) : Protocol p (Eval.runAction self inputs result a) := by
  cases a with
  | raise e => exact .raise e
  | sequence values => exact nextOf self values
  | fix depth => exact fix result depth
  | record channel label => exact .bind (note _) fun _ => .pure _
  | scopeName => exact .look fun w _ => .pure _
  | depths => exact .bind context fun c => .pure _
  | notify node =>
    have asked : (Task.notify node).Allowed p := trivial
    exact .perform asked
  | notifyNamed register =>
    refine .look fun w _ => ?_
    split
    · next n _ =>
      have asked : (Task.notify n.id).Allowed p := trivial
      exact holding _ (.perform asked)
    · exact .pure _
  | listen node key callback =>
    have asked : (Task.listen node key callback).Allowed p := ha.2
    exact .perform asked
  | unlisten node key => exact .bind (unlisten node key) fun _ => .pure _
  | bind scope name options => exact bindName scope name result options
  | cancel slot => exact .bind (cancelSlot slot) fun _ => .pure _
  | shutdown => exact .bind shutdown fun _ => .pure _
  | popOutOfOrder first second => exact .bind (.popOutOfOrder ha.holds) fun _ => .pure _
  | wrapError message =>
    simp only [Eval.runAction]
    split <;> exact .raise _
  | raiseResult =>
    simp only [Eval.runAction]
    split
    · exact .raise _
    · exact .pure _
  | _ => exact .pure _

theorem runActions (self : Option NodeId) (inputs : List Value) {actions : List Action}
    (ha : AllowedActions p actions) (result : Value) :
    Protocol p (Eval.runActions self inputs actions result) := by
  induction actions generalizing result with
  | nil => exact .pure result
  | cons a rest ih =>
    exact .bind (runAction self inputs result ha.1) fun result => ih ha.2 result

theorem runProgram (self : Option NodeId) (inputs : List Value) {actions : List Action}
    (ha : AllowedActions p actions) : Protocol p (Eval.runProgram self inputs actions) :=
  runActions self inputs ha .void

theorem handler_allowed {w : World} (hw : w.Allowed p) {scope : ScopeId} {h : Handler}
    (hh : w.scopes.handler? scope = some h) : AllowedActions p h.actions := by
  obtain ⟨outer, _, hs⟩ := List.exists_of_findSome?_eq_some hh
  obtain ⟨s, hs, hh⟩ := Option.bind_eq_some_iff.mp hs
  exact (hw.scopes outer s hs).handler h hh

theorem handleError (scope : ScopeId) (e : EvalError) : Protocol p (Eval.handleError scope e) := by
  unfold Eval.handleError
  split
  · exact .raise e
  · refine .look fun w hw => ?_
    split
    · exact .raise e
    · next h hh => exact .bind (note _) fun _ => runProgram none _ (handler_allowed hw hh)

end programs

section assignments

theorem commitScope (c : Commit) : Protocol p (Eval.commitScope c) := by
  refine .bind currentScope? fun s => ?_
  cases s with
  | none => exact .raise _
  | some scope => exact .pure scope

theorem reportUnlikelyType (c : Commit) : Protocol p (Eval.reportUnlikelyType c) := by
  unfold Eval.reportUnlikelyType
  split
  · refine .look fun w _ => ?_
    split
    · exact report _ _ _
    · exact .pure ()
  · exact .pure ()

theorem constrain (node : NodeId) (fingerprint : String) :
    Protocol p (Eval.constrain node fingerprint) := by
  refine .look fun w _ => ?_
  split
  · exact .pure ()
  · split
    · exact modifyApart (fun w _ => .constrain w node fingerprint) fun _ => rfl
    · split
      · exact .pure ()
      · exact .raise _

theorem publishBinding (name : String) (v : Value) : Protocol p (Eval.publishBinding name v) :=
  modifyApart (fun w _ => .publish w name v) fun _ => rfl

theorem commit (c : Commit) (v : Value) : Protocol p (Eval.commit c v) := by
  have publish (bound : Value) : Protocol p (do
      if c.exported then Eval.publishBinding c.target bound
      return bound) := by
    split
    · exact .bind (publishBinding c.target bound) fun _ => .pure _
    · exact .pure _
  have assign (scope : ScopeId) : Protocol p (do
      let settings := (← Eval.world).settings
      let forced ← Eval.force settings.parallel v settings.assignmentFixDepth
      if forced.isError then return forced
      let bound ← Eval.bind scope c.target forced c.options
      if c.exported then Eval.publishBinding c.target bound
      return bound) := by
    refine .look fun w _ => .bind (force _ v _) fun forced => ?_
    split
    · exact .pure _
    · exact .bind (bindName scope c.target forced c.options) publish
  refine .look fun w _ => ?_
  dsimp only
  split
  · exact .raise _
  · refine .bind (commitScope c) fun scope => .bind (reportUnlikelyType c) fun _ => ?_
    split
    · exact .bind (constrain _ _) fun _ => assign scope
    · exact assign scope

theorem commitWhen (c : Commit) (holds : Bool) (rhs : Value) :
    Protocol p (Eval.commitWhen c holds rhs) := commit c _

theorem boundValue (scope : ScopeId) (name : String) : Protocol p (Eval.boundValue scope name) :=
  .look fun _ _ => .pure _

theorem whenAssign (c : Commit) (rhs condition : Value) :
    Protocol p (Eval.whenAssign c rhs condition) := by
  refine .bind (commitScope c) fun scope => .bind (truthy condition) fun holds => ?_
  refine .bind (commitWhen c holds rhs) fun _ => ?_
  cases condition.asNode? with
  | none => exact boundValue scope c.target
  | some node =>
    refine .bind context fun line => ?_
    have asked : (Task.listen node.id (some (whenKey scope c.target))
      (.commitWhen c rhs line.scopes)).Allowed p := trivial
    exact .bind (.perform asked) fun _ => boundValue scope c.target

theorem subscribedSource (c : Commit) (rhs resolved : Value) :
    Protocol p (Eval.subscribedSource c rhs resolved) := by
  unfold Eval.subscribedSource
  split
  · exact .pure _
  · split
    · exact .bind (commit c resolved) fun _ => .pure _
    · exact .pure _

theorem followSource (c : Commit) (scope : ScopeId) (source : Value) :
    Protocol p (Eval.followSource c scope source) := by
  rw [followSource_eq]
  exact .bind context fun line => .bind (establishing _ source trivial) fun _ => .pure ()

theorem subscribeAssign (c : Commit) (rhs : Value) : Protocol p (Eval.subscribeAssign c rhs) := by
  have connected (scope : ScopeId) : Protocol p (do
      let resolved ← Eval.fix rhs 1
      Eval.holding resolved.held do
        Eval.followSource c scope (← Eval.subscribedSource c rhs resolved)
      Eval.boundValue scope c.target) := by
    refine .bind (fix rhs 1) fun resolved => ?_
    refine .bind (holding _ ?_) fun _ => boundValue scope c.target
    exact .bind (subscribedSource c rhs resolved) fun source => followSource c scope source
  refine .bind (commitScope c) fun scope => .look fun w _ => ?_
  dsimp only
  split
  · exact connected scope
  · exact .bind (commit c .void) fun _ => connected scope

end assignments

section operations

theorem onConcrete (f : Value → Value) (v : Value) : Protocol p (Eval.onConcrete f v) :=
  .bind (fix v 1) fun _ => .pure _

theorem onOperands (f : Value → Value → Except EvalError Value) (l r : Value) :
    Protocol p (Eval.onOperands f l r) :=
  .bind (fix l 1) fun l => .bind (holding l.held (fixDeep r)) fun r => ofExcept (f l r)

theorem onSettled (f : Value → Value → Value) (l r : Value) : Protocol p (Eval.onSettled f l r) :=
  .bind (fixDeep l) fun l => .bind (holding l.held (fixDeep r)) fun _ => .pure _

theorem truthOf (v : Value) : Protocol p (Eval.truthOf v) := .bind (fix v 1) fun _ => .pure _

theorem and (l r : Value) : Protocol p (Eval.and l r) := by
  refine .bind (fix l 1) fun l => ?_
  split
  · exact .pure _
  · split
    · exact holding _ (truthOf r)
    · exact .pure _

theorem or (l r : Value) : Protocol p (Eval.or l r) := by
  refine .bind (fix l 1) fun l => ?_
  split
  · exact .pure _
  · split
    · exact .pure _
    · exact holding _ (truthOf r)

theorem read (v : Value) : Protocol p (Eval.read v) := by
  refine .bind (fix v 1) fun v => ?_
  split
  · exact callBackend _ (.read false true) trivial
  · exact .pure _

theorem evaluateUnary (op : Operator) (v : Value) : Protocol p (Eval.evaluateUnary op v) := by
  unfold Eval.evaluateUnary
  split
  · exact onConcrete _ v
  · exact onConcrete _ v
  · exact fixDeep v
  · exact onConcrete _ v
  · exact onOperands _ v _
  · exact onOperands _ v _
  · exact read v
  · exact .raise _

theorem evaluateBinary (op : Operator) (l r : Value) :
    Protocol p (Eval.evaluateBinary op l r) := by
  unfold Eval.evaluateBinary
  split
  case h_12 => exact and l r
  case h_13 => exact or l r
  case h_14 => exact .raise _
  all_goals first | exact onOperands _ l r | exact onSettled _ l r

end operations

section execution

theorem follow (kind : String) (source expr : Value) :
    Protocol p (Eval.follow kind source expr) := by
  rw [follow_eq]
  exact .bind context fun line => .bind (establishing .numbered source trivial) fun _ => .pure _

theorem writeTo (operation : String) (target v : Value) (blocking : Bool) :
    Protocol p (Eval.writeTo operation target v blocking) := by
  refine .bind (fix target 1) fun target => ?_
  split
  · exact callBackend _ (.write v blocking false) trivial
  · exact .raise _

theorem pipe (lhs rhs : Value) : Protocol p (Eval.pipe lhs rhs) := by
  refine .look fun w _ => .bind (force _ lhs _) fun item => ?_
  exact holding _ (withItem "pipe" item (force _ rhs _))

theorem runBody (id : NodeId) {n : Node} (hn : n.body.Allowed p) :
    Protocol p (Eval.runBody id n) := by
  unfold Eval.runBody
  cases h : n.body with
  | program actions =>
    rw [h] at hn
    exact runProgram (some id) n.inputs hn
  | «variable» name => exact lookup name
  | unary op => exact evaluateUnary op _
  | binary op => exact evaluateBinary op _ _
  | pipe => exact pipe _ _
  | subscribe => exact .bind (fix _ 1) fun resolved => holding _ (follow "subscribe" _ _)
  | listen => exact follow "listen" _ _
  | publish =>
    exact .look fun w _ => .bind (forceDeep _ _) fun v => holding _ (writeTo "publish" _ v false)
  | write =>
    exact .look fun w _ => .bind (forceDeep _ _) fun v => holding _ (writeTo "write" _ v true)
  | assign c => exact commit c _
  | whenAssign c condition => exact whenAssign c _ condition
  | subscribeAssign c => exact subscribeAssign c _

theorem withHint (n : Node) {x : Eval α} (hx : Protocol p x) :
    Protocol p (Eval.withHint n x) := by
  refine .bind currentScope? fun s => ?_
  split
  · exact withScope _ hx
  · exact hx

theorem withFreshScope (n : Node) {x : Eval α} (hx : Protocol p x) :
    Protocol p (Eval.withFreshScope n x) := by
  unfold Eval.withFreshScope
  split
  · exact .bind (addScope _) fun scope => withScope scope hx
  · exact hx

theorem inScopesOf (n : Node) {x : Eval α} (hx : Protocol p x) :
    Protocol p (Eval.inScopesOf n x) :=
  withScopes _ (withHint n (withFreshScope n hx))

theorem recover (n : Node) (e : EvalError) : Protocol p (Eval.recover n e) := by
  refine .bind currentScope? fun s => ?_
  cases s with
  | none => exact .raise _
  | some scope => exact handleError scope _

theorem recoverOutcome (n : Node) (outcome : Except EvalError Value) :
    Protocol p
      (match outcome with
        | .ok v => Pure.pure v
        | .error e => Eval.recover n e) := by
  cases outcome with
  | ok v => exact .pure v
  | error e => exact recover n e

theorem runRecovering (id : NodeId) {n : Node} (hn : n.body.Allowed p) :
    Protocol p (Eval.runRecovering id n) :=
  .bind (.attempt (runBody id hn)) fun outcome => recoverOutcome n outcome

theorem recordType (id : NodeId) (n : Node) (v : Value) : Protocol p (Eval.recordType id n v) := by
  unfold Eval.recordType
  split
  · exact .pure ()
  · exact modifyApart (fun w _ => .learn w _) fun _ => rfl

theorem concludeExecution (id : NodeId) (n : Node) (outcome : Except EvalError Value) :
    Protocol p (Eval.concludeExecution id n outcome) := by
  refine .bind .takeCorruption fun corruption => ?_
  cases corruption with
  | some e => exact .raise _
  | none =>
    exact .bind (ofExcept outcome) fun v => .bind (recordType id n v) fun _ => .pure v

theorem execute (id : NodeId) : Protocol p (Eval.execute id) := by
  refine .look fun w hw => ?_
  split
  · exact .pure _
  · next n hn =>
    have run : Protocol p (Eval.whileExecuting id do
        Eval.concludeExecution id n
          (← Eval.attempt (Eval.inScopesOf n (Eval.runRecovering id n)))) := by
      refine whileExecuting id (.bind (.attempt (inScopesOf n ?_)) fun outcome => ?_)
      · exact runRecovering id (hw.node hn).body
      · exact concludeExecution id n outcome
    dsimp only
    split
    · exact .raise _
    · exact run

theorem resolve (id : NodeId) (depth : Nat) (parallel : Bool) :
    Protocol p (Eval.resolve id depth parallel) :=
  .bind (execute id) fun v => holding v.held (force parallel v depth)

end execution

section notification

theorem listenToInputs (id : NodeId) (inputs : List Value) :
    Protocol p (Eval.listenToInputs id inputs) := by
  induction inputs with
  | nil => exact .pure ()
  | cons v rest ih =>
    unfold Eval.listenToInputs
    cases v.asNode? with
    | none => exact ih
    | some n =>
      have asked : (Task.listen n.id (some (Node.relayKey id)) (.relay id)).Allowed p := trivial
      exact .bind (.perform asked) fun _ => ih

theorem connectNode (id : NodeId) (n : Node) : Protocol p (Eval.connectNode id n) := by
  unfold Eval.connectNode
  split
  · exact .pure ()
  · refine .bind (modifyApart (fun w _ => .wire w id) fun _ => rfl) fun _ => ?_
    split
    · exact listenToInputs id n.inputs
    · refine .bind currentScope? fun s => ?_
      split
      · exact .relay _ _ id
      · exact .pure ()

theorem listenerKey (id : NodeId) (key : Option String) :
    Protocol p (Eval.listenerKey id key) := by
  cases key with
  | some key => exact .pure key
  | none =>
    refine .write fun w _ => ?_
    cases h : w.node? id with
    | none => exact .none w
    | some n => exact .of_eq (.generateKey w id h) rfl

theorem listen (id : NodeId) (key : Option String) {callback : Callback}
    (hc : callback.Allowed p) : Protocol p (Eval.listen id key callback) := by
  refine .look fun w _ => ?_
  split
  · exact .pure _
  · refine .bind (connectNode id _) fun _ => .bind (listenerKey id key) fun key => ?_
    exact .bind (modifyApart (fun w _ => .listen w id key hc) fun _ => rfl) fun _ => .pure _

theorem listeners_allowed {w : World} (hw : w.Allowed p) (id : NodeId) :
    AllowedCallbacks p (w.listenersOf id) := by
  unfold World.listenersOf
  cases hn : w.node? id with
  | none => exact AllowedCallbacks.nil
  | some n => exact (hw.node hn).listeners

theorem announce (id : NodeId) : Protocol p (Eval.announce id) := by
  refine .look fun w _ => ?_
  have asked : (Task.resolve id 1 w.settings.parallel).Allowed p := trivial
  refine .bind (.perform asked) fun v => .look fun w hw => ?_
  exact .bind (deliverAll v (listeners_allowed hw id)) fun _ => .pure v

theorem evaluateFor (kind : String) (scopes : ScopeStack) (expr item : Value) :
    Protocol p (Eval.evaluateFor kind scopes expr item) :=
  .look fun _ _ => withScopes scopes (withItem kind item (force _ expr _))

theorem deliver (callback : Callback) (hc : callback.Allowed p) (v : Value) :
    Protocol p (Eval.deliver callback v) := by
  cases callback with
  | relay node =>
    have asked : (Task.notify node).Allowed p := trivial
    refine .look fun w _ => ?_
    split
    · exact holding _ (.perform asked)
    · exact .pure _
  | program actions => exact runProgram none [v] hc
  | guarded id callback =>
    refine .look fun w _ => ?_
    split
    · exact .pure _
    · exact deliver callback hc v
  | evaluate kind scopes expr => exact evaluateFor kind scopes expr v
  | commitWhen c rhs scopes =>
    exact .bind (truthy v) fun holds => withScopes scopes (commitWhen c holds rhs)
  | commit c scopes => exact withScopes scopes (commit c v)

end notification

/-- Carrying out a task other than a notification is a protocol. -/
theorem step {t : Task} (ht : t.Allowed p) (hn : ∀ id, t ≠ .notify id) :
    Protocol p (Eval.step t) := by
  cases t with
  | resolve node depth parallel => exact resolve node depth parallel
  | settle v parallel => exact settle parallel v
  | listen node key callback => exact listen node key ht
  | notify node => exact absurd rfl (hn node)
  | deliver callback v => exact deliver callback ht v
  | signal resource s => exact signal resource s
  | poll resource callback => exact poll resource ht

section scripts

theorem wireBy (rule : OperatorToken Value → Except WiringError NodeSpec)
    (hr : ∀ t s, rule t = .ok s → s.body.Allowed p) (t : OperatorToken Value) :
    Protocol p (Wiring.wireBy rule t) := by
  unfold Wiring.wireBy
  cases h : rule t with
  | error e => exact .pure _
  | ok s =>
    refine .bind (.write fun w _ => .of_eq (.construct w (hr t s h)) rfl) fun n => ?_
    unfold Wiring.finish
    dsimp only
    split
    · exact .pure _
    · split
      · exact .pure _
      · split
        · exact .pure _
        · have asked (parallel : Bool) : (Task.resolve n.id 1 parallel).Allowed p := trivial
          refine .look fun w _ => .bind (.attempt (holding _ (.perform (asked _)))) fun r => ?_
          cases r <;> exact .pure _

/-- The nodes of tokens compute operators and flows, which no program takes part in. -/
theorem allowed_of_spec {t : OperatorToken Value} {s : NodeSpec} (h : Wiring.spec t = .ok s) :
    s.body.Allowed p := by
  have checked {expected : OperatorKind} {others : List OperatorKind} {body : Body}
      {flags : NodeFlags}
      (h : (do
        Wiring.check expected others t
        return Wiring.specOf t body flags) = Except.ok s)
      (hb : body.Allowed p) : s.body.Allowed p := by
    cases hc : Wiring.check expected others t with
    | error e => rw [hc] at h; cases h
    | ok _ => rw [hc] at h; cases h; exact hb
  unfold Wiring.spec at h
  split at h
  · cases h
  · exact checked h trivial
  · exact checked h trivial
  · next body flags _ hf =>
    refine checked h ?_
    cases ho : t.op <;> rw [ho] at hf <;> cases hf <;> trivial
  · exact checked h trivial

/-- Wiring a token is a protocol. -/
theorem wire (t : OperatorToken Value) : Protocol p (Wiring.wire t) :=
  wireBy Wiring.spec (fun _ _ h => allowed_of_spec h) t

theorem runFrom (index : Nat) (last : Value) (failures : List EvalError)
    (statements : List Value) : Protocol p (Script.runFrom index last failures statements) := by
  induction statements generalizing index last failures with
  | nil =>
    cases failures with
    | nil => exact .pure last
    | cons first later => exact .raise _
  | cons statement rest ih =>
    refine .look fun w _ => .bind (.attempt (holding _ (force _ statement 1))) fun outcome => ?_
    split
    · exact ih _ _ _
    · refine .bind (report _ _ _) fun _ => ?_
      split
      · exact .raise _
      · exact ih _ _ _

/-- Running a script is a protocol. -/
theorem run (root : ScopeId) (statements : List Value) : Protocol p (Script.run root statements) :=
  withScope root (holding _ (runFrom 0 .void [] statements))

end scripts

end ReactiveScript.Eval.Protocol
