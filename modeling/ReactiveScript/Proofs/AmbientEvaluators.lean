import ReactiveScript.Proofs.AmbientRuns

/-!
# Evaluators in alike worlds

One lemma for each function of the evaluator, in the order of the definitions, up to programs and
handlers: it agrees with itself. What is given to a function may differ in the scopes that are left
out, and programs may not ask for the depths of the stacks; the rest is the same on both sides.
-/

namespace ReactiveScript

variable {K : List ScopeId} {α : Type}

section requests

variable {request request' : Request} {b b' : Backend}

theorem Request.trim_same (h : request.trim K = request'.trim K) :
    request.hook = request'.hook ∧ request.detail = request'.detail ∧
      request.isLifecycle = request'.isLifecycle := by
  have trimmed (r : Request) : (r.trim K).hook = r.hook ∧ (r.trim K).detail = r.detail ∧
      (r.trim K).isLifecycle = r.isLifecycle := by
    cases r <;> exact ⟨rfl, rfl, rfl⟩
  obtain ⟨hook, detail, lifecycle⟩ := trimmed request
  rw [← hook, ← detail, ← lifecycle, h]
  exact trimmed request'

theorem Request.allowed_of_trim {p : Action → Prop} (h : request.trim K = request'.trim K)
    (hr : request.Allowed p) : request'.Allowed p := by
  cases request' with
  | subscribe id callback =>
    cases request <;> simp only [Request.trim, reduceCtorEq, Request.subscribe.injEq] at h
    exact Callback.allowed_of_trim h.2 hr
  | _ => trivial

/-- A backend answers the same, and to the same effect, apart from scopes that are left out. -/
theorem Backend.answer_trim (b : Backend) (request : Request) :
    (b.trim K).answer (request.trim K) = ((b.answer request).1, (b.answer request).2.trim K) := by
  cases b with
  | queue q =>
    cases request <;> simp [Backend.answer, QueueBackend.answer, Backend.trim, Request.trim,
      OrderedMap.mapValues_insert, OrderedMap.mapValues_erase]
    all_goals rfl
  | recording r =>
    cases request with
    | read blocking mutating =>
      cases hi : r.items with
      | nil => simp [Backend.answer, RecordingBackend.answer, Backend.trim, Request.trim, hi]
      | cons v rest =>
        cases mutating <;>
          simp [Backend.answer, RecordingBackend.answer, Backend.trim, Request.trim, hi]
    | _ => simp [Backend.answer, RecordingBackend.answer, Backend.trim, Request.trim,
        OrderedMap.mapValues_insertLast, OrderedMap.mapValues_erase]

theorem Backend.answer_agree (hb : b.trim K = b'.trim K) (h : request.trim K = request'.trim K) :
    (b.answer request).1 = (b'.answer request').1 ∧
      (b.answer request).2.trim K = (b'.answer request').2.trim K := by
  have same := b.answer_trim (K := K) request
  rw [hb, h, b'.answer_trim] at same
  exact (Prod.mk.inj same).imp Eq.symm Eq.symm

end requests

theorem Listeners.trim_register (l : Listeners) (key : String) (c : Callback) :
    (l.register key c).trim K = (l.trim K).register key (c.trim K) := by
  simp only [Listeners.trim, Listeners.register, OrderedMap.mapValues_insert,
    OrderedMap.containsKey_mapValues]

theorem Scope.trim_listen (s : Scope) (name key : String) (c : Callback) :
    (s.listen name key c).trim K = (s.trim K).listen name key (c.trim K) := by
  simp only [Scope.trim, Scope.listen, OrderedMap.mapValues_insert, OrderedMap.find?_mapValues]
  cases s.listeners.find? name <;> rfl

/-- Two attempts that check and bind the same. -/
structure BindAttempt.Alike (a a' : BindAttempt) : Prop where
  target : a.target = a'.target
  name : a.name = a'.name
  value : a.value = a'.value
  previous : a.previous = a'.previous
  binding : a.binding = a'.binding

theorem World.AlikeFrom.attempt {S : ScopeStack → ScopeStack → Prop} {n : Nat} {w v : World}
    (h : World.AlikeFrom S K n w v) (scope : ScopeId)
    (name : String) (value : Value) (options : BindOptions) :
    (w.attempt scope name value options).Alike (v.attempt scope name value options) := by
  have target : (w.attempt scope name value options).target =
      (v.attempt scope name value options).target := by
    simp only [World.attempt, h.targetOf]
  have seen : (w.attempt scope name value options).seen =
      (v.attempt scope name value options).seen := by
    rw [BindAttempt.seen, target]
    exact h.localBinding? _ _
  refine ⟨target, rfl, rfl, ?_, ?_⟩
  · rw [BindAttempt.previous, seen, BindAttempt.previous]
  · rw [BindAttempt.binding, seen]
    rfl

namespace Eval.Agree

variable {more : Nat}

section forcing

theorem child (parallel single : Bool) {x y : Eval α} (hx : Agree K more x y) :
    Agree K more (Eval.child parallel single x) (Eval.child parallel single y) := by
  unfold Eval.child
  split
  · refine look fun n w v h => ?_
    have worker : w.context.isWorker = v.context.isWorker :=
      congrArg (fun w => w.context.isWorker) h.same
    show Agree K more (if single || w.context.isWorker then _ else _)
      (if single || v.context.isWorker then _ else _)
    rw [worker]
    split
    · exact withScopes h.scopes hx
    · exact onWorker h.scopes hx
  · exact hx

mutual

theorem force (parallel : Bool) (v : Value) (depth : Nat) :
    Agree K more (Eval.force parallel v depth) (Eval.force parallel v depth) := by
  cases v with
  | node n =>
    unfold Eval.force
    split
    · exact pure _
    · exact perform rfl trivial
  | tagged v m =>
    unfold Eval.force
    split
    · exact pure _
    · exact bind (force parallel v depth) fun _ => pure _
  | list items =>
    unfold Eval.force
    split
    · exact pure _
    · exact bind (forceItems parallel _ items (depth - 1)) fun _ => pure _
  | map entries =>
    unfold Eval.force
    split
    · exact pure _
    · exact bind (forceEntries parallel _ entries (depth - 1)) fun _ => pure _
  | _ => exact pure _

theorem forceItems (parallel single : Bool) (items : List Value) (depth : Nat) :
    Agree K more (Eval.forceItems parallel single items depth)
      (Eval.forceItems parallel single items depth) := by
  cases items with
  | nil => exact pure _
  | cons v rest =>
    refine bind (child parallel single (force parallel v depth)) fun w => ?_
    exact bind (holdingSame w.held (forceItems parallel single rest depth)) fun _ => pure _

theorem forceEntries (parallel single : Bool) (entries : List (String × Value)) (depth : Nat) :
    Agree K more (Eval.forceEntries parallel single entries depth)
      (Eval.forceEntries parallel single entries depth) := by
  cases entries with
  | nil => exact pure _
  | cons e rest =>
    obtain ⟨key, v⟩ := e
    refine bind (child parallel single (force parallel v depth)) fun w => ?_
    exact bind (holdingSame w.held (forceEntries parallel single rest depth)) fun _ => pure _

end

theorem fix (v : Value) (depth : Nat) : Agree K more (Eval.fix v depth) (Eval.fix v depth) :=
  force false v depth

theorem settleRest (parallel : Bool) (v : Value) :
    Agree K more (if v.containsNode then Eval.perform (.settle v parallel) else Pure.pure v)
      (if v.containsNode then Eval.perform (.settle v parallel) else Pure.pure v) := by
  split
  · exact perform rfl trivial
  · exact pure v

theorem forceDeep (parallel : Bool) (v : Value) :
    Agree K more (Eval.forceDeep parallel v) (Eval.forceDeep parallel v) :=
  bind (force parallel v unboundedDepth) fun w => settleRest parallel w

theorem settle (parallel : Bool) (v : Value) :
    Agree K more (Eval.settle parallel v) (Eval.settle parallel v) :=
  bind (holdingSame v.held (force parallel v unboundedDepth)) fun w => settleRest parallel w

theorem fixDeep (v : Value) : Agree K more (Eval.fixDeep v) (Eval.fixDeep v) := forceDeep false v

theorem truthy (v : Value) : Agree K more (Eval.truthy v) (Eval.truthy v) :=
  bind (fix v 1) fun _ => pure _

end forcing

section resources

variable {request request' : Request}

theorem answerRequest (id : ResourceId) (h : request.trim K = request'.trim K)
    (hr : request.Allowed Action.Lexical) :
    Agree K more (Eval.answerRequest id request) (Eval.answerRequest id request') := by
  have answered {request : Request} (hr : request.Allowed Action.Lexical) (w : World) :
      Change Action.Lexical w (Eval.answerRequest id request (performWith 0) w).2 := by
    simp only [Eval.answerRequest, modifyGet]
    cases found : w.resource? id with
    | none => exact .none w
    | some r => exact .answer w id found hr
  refine change (fun w _ => answered hr w) (fun w _ => answered (Request.allowed_of_trim h hr) w)
    fun n w v hw => ?_
  rcases hw.resource? id with ⟨found, found'⟩ | ⟨r, r', found, found', same⟩ <;>
    rw [found, found']
  · exact ⟨rfl, hw.same⟩
  · obtain ⟨value, backend⟩ := Backend.answer_agree (congrArg Resource.backend same) h
    refine ⟨value, ?_⟩
    have trimmed (w : World) (request : Request) (r : Resource) :
        World.trim K (w.modifyResource id fun now =>
          { now with backend := (r.backend.answer request).2 }) =
        (w.trim K).modifyResource id fun now =>
          { now with backend := (r.backend.answer request).2.trim K } :=
      w.trim_modifyResource id fun _ _ => rfl
    show World.trim K (w.modifyResource id fun now =>
        { now with backend := (r.backend.answer request).2 }) =
      World.trim K (v.modifyResource id fun now =>
        { now with backend := (r'.backend.answer request').2 })
    rw [trimmed, trimmed, backend, hw.same]

theorem callRecording (id : ResourceId) (name : String) {b b' : RecordingBackend}
    (hb : (Backend.recording b).trim K = (Backend.recording b').trim K)
    (h : request.trim K = request'.trim K) (hr : request.Allowed Action.Lexical) :
    Agree K more (Eval.callRecording id name b request)
      (Eval.callRecording id name b' request') := by
  obtain ⟨hook, detail, lifecycle⟩ := Request.trim_same h
  simp only [Backend.trim, Backend.recording.injEq, RecordingBackend.mk.injEq] at hb
  obtain ⟨-, -, failures, reentries, minimal⟩ := hb
  unfold Eval.callRecording
  rw [← minimal, ← lifecycle, ← hook, ← detail, ← reentries, ← failures]
  split
  · exact pure _
  · refine bind (note _) fun _ => ?_
    cases b.reentries.lookup request.hook <;> cases b.failures.lookup request.hook
    case none.none => exact answerRequest id h hr
    case none.some => exact pure _
    case some.none s =>
      refine bind (perform rfl trivial) fun result => bind (note (.reentered s result)) fun _ => ?_
      exact answerRequest id h hr
    case some.some s _ =>
      refine bind (perform rfl trivial) fun result => bind (note (.reentered s result)) fun _ => ?_
      exact pure _

theorem callBackend (id : ResourceId) (h : request.trim K = request'.trim K)
    (hr : request.Allowed Action.Lexical) :
    Agree K more (Eval.callBackend id request) (Eval.callBackend id request') := by
  refine look fun n w v hw => ?_
  rcases hw.resource? id with
    ⟨found, found'⟩ | ⟨⟨name, state, backend⟩, ⟨name', state', backend'⟩, found, found', same⟩ <;>
    rw [found, found']
  · exact answerRequest id h hr
  · simp only [Resource.trim, Resource.mk.injEq] at same
    obtain ⟨rfl, rfl, same⟩ := same
    cases backend <;> cases backend' <;> first
      | exact answerRequest id h hr
      | exact callRecording id _ same h hr
      | cases same

theorem unlessError {first second first' second' : Eval Value} (h : Agree K more first first')
    (h' : Agree K more second second') :
    Agree K more (Eval.unlessError first second) (Eval.unlessError first' second') := by
  refine bind h fun v => ?_
  split
  · exact pure v
  · exact h'

theorem signalAction (id : ResourceId) (state : LifecycleState) (s : Signal) :
    Agree K more (Eval.signalAction id state s) (Eval.signalAction id state s) := by
  have call (request : Request) (hr : request.Allowed Action.Lexical) :
      Agree K more (Eval.callBackend id request) (Eval.callBackend id request) :=
    callBackend id rfl hr
  cases s with
  | start =>
    simp only [Eval.signalAction]
    split
    · exact unlessError (call .init trivial) (call .start trivial)
    · exact call .start trivial
  | stop => exact call .stop trivial
  | pause => exact call .pause trivial
  | unpause => exact call .unpause trivial
  | destroy =>
    simp only [Eval.signalAction]
    split
    · exact unlessError (call .stop trivial) (call .destroy trivial)
    · exact call .destroy trivial
  | error => exact pure _

theorem signal (id : ResourceId) (s : Signal) :
    Agree K more (Eval.signal id s) (Eval.signal id s) := by
  refine look fun n w v h => ?_
  rcases h.resource? id with ⟨found, found'⟩ | ⟨r, r', found, found', same⟩ <;>
    rw [found, found']
  · exact pure _
  · have state : r'.state = r.state := (congrArg Resource.state same.symm :)
    have name : r'.name = r.name := (congrArg Resource.name same.symm :)
    simp only [state, name]
    split
    · exact pure _
    · next target _ =>
      refine bind (signalAction id r.state s) fun result => ?_
      have settled (w : World) : World.trim K (w.modifyResource id fun now =>
          { now with state := r.state.settle target now.state (!result.isError) }) =
            (w.trim K).modifyResource id fun now =>
              { now with state := r.state.settle target now.state (!result.isError) } :=
        w.trim_modifyResource id fun _ _ => rfl
      exact bind (modify (fun w _ => .settle w id r.state target _) fun w => (settled w).symm)
        fun _ => pure _

theorem takeItem (id : ResourceId) : Agree K more (Eval.takeItem id) (Eval.takeItem id) := by
  refine write (fun w _ => ?_) fun w => ?_
  · split
    · next name state b h =>
      split
      · next v queue hq => exact .takeItem w id h hq
      · exact .none w
    · exact .none w
  · have left (queue : Queue) (b : QueueBackend) : World.trim K (w.modifyResource id fun r =>
        { r with backend := .queue { b with queue } }) =
          (w.trim K).modifyResource id fun r =>
            { r with backend := (Backend.queue { b with queue }).trim K } :=
      w.trim_modifyResource id fun _ _ => rfl
    simp only [World.resource?_trim]
    rcases w.resource? id with _ | ⟨name, state, b | b⟩
    · rfl
    · simp only [Option.map_some, Resource.trim, Backend.trim]
      cases b.queue.take? with
      | none => rfl
      | some taken => exact congrArg (Prod.mk _) (left taken.2 b).symm
    · rfl

theorem countDelivery (id : ResourceId) :
    Agree K more (Eval.countDelivery id) (Eval.countDelivery id) := by
  refine modify (fun w _ => .countDelivery w id) fun w => ?_
  refine (w.trim_modifyResource id fun r _ => ?_).symm
  obtain ⟨name, state, backend⟩ := r
  cases backend <;> rfl

theorem poll (id : ResourceId) {c c' : Callback} (hc : c.trim K = c'.trim K)
    (ha : c.Allowed Action.Lexical) :
    Agree K more (Eval.poll id c) (Eval.poll id c') := by
  refine bind (takeItem id) fun item => ?_
  cases item with
  | none => exact pure _
  | some v =>
    have delivered : Agree K more
        (Eval.holding (v.held ++ c.held) (Eval.perform (.deliver c v)))
        (Eval.holding (v.held ++ c'.held) (Eval.perform (.deliver c' v))) :=
      holdingAlso v.held (Callback.held_subset_of_trim hc) (Callback.held_subset_of_trim hc.symm)
        (perform (congrArg (Task.deliver · v) hc) ha)
    refine bind (attempt delivered) fun _ => bind (countDelivery id) fun _ => ?_
    exact perform (congrArg (Task.poll id) hc) ha

end resources

section subscriptions

theorem startIfCreated (id : ResourceId) :
    Agree K more (Eval.startIfCreated id) (Eval.startIfCreated id) := by
  refine look fun n w v h => ?_
  have created : ((w.resource? id).any fun r => r.state = .created) =
      (v.resource? id).any fun r => r.state = .created := by
    rcases h.resource? id with ⟨found, found'⟩ | ⟨r, r', found, found', same⟩ <;>
      rw [found, found']
    have state : r.state = r'.state := (congrArg Resource.state same :)
    simp only [Option.any_some, state]
  rw [created]
  split
  · exact bind (signal id .start) fun v => raiseIf _
  · exact pure ()

theorem connect (source : Value) (name : String) {c c' : Callback} (hc : c.trim K = c'.trim K)
    (ha : c.Allowed Action.Lexical) :
    Agree K more (Eval.connect source name c) (Eval.connect source name c') := by
  unfold Eval.connect
  split
  · next r _ =>
    refine bind (startIfCreated r.id) fun _ => ?_
    refine bind (callBackend r.id (congrArg (Request.subscribe name) hc) ha) fun v => ?_
    exact bind (raiseIf _) fun _ => pure _
  · next n _ => exact bind (perform (congrArg (Task.listen n.id (some name)) hc) ha) fun _ => pure _
  · next other _ => exact bind (perform (congrArg (Task.deliver · _) hc) ha) fun _ => pure _

theorem subscribe (source : Value) {c c' : Callback} (hc : c.trim K = c'.trim K)
    (ha : c.Allowed Action.Lexical) :
    Agree K more (Eval.subscribe source c) (Eval.subscribe source c') := by
  refine bind (write (fun w _ => .subscribe w) fun _ => rfl) fun id => ?_
  refine bind (holdingAlso source.held (Callback.held_subset_of_trim hc)
    (Callback.held_subset_of_trim hc.symm) ?_) fun target => ?_
  · exact connect source (subscriptionName id) (congrArg (Callback.guarded id) hc) ha
  · exact bind (modify (fun w _ => .follow w id target) fun _ => rfl) fun _ => pure _

theorem unlisten (node : NodeId) (key : String) :
    Agree K more (Eval.unlisten node key) (Eval.unlisten node key) := by
  refine modify (fun w _ => .unlisten w node key) fun w => ?_
  refine (w.trim_modifyNode node fun n => ?_).symm
  simp only [Node.trim, Listeners.trim, Listeners.remove, OrderedMap.mapValues_erase]

theorem cancel (id : SubscriptionId) : Agree K more (Eval.cancel id) (Eval.cancel id) := by
  refine look fun n w v h => ?_
  rw [show w.subscription? id = v.subscription? id from
    congrArg (fun w => w.subscription? id) h.same]
  split
  · exact pure ()
  · split
    · exact pure _
    · refine bind (modify (fun w _ => .cancel w id) fun _ => rfl) fun _ => ?_
      split
      · exact bind (callBackend _ rfl trivial) fun _ => pure _
      · exact unlisten _ _
      · exact pure ()

theorem takeSlot (slot : Slot) : Agree K more (Eval.takeSlot slot) (Eval.takeSlot slot) :=
  write (fun w _ => .takeSlot w slot) fun _ => rfl

theorem keep (slot : Slot) (id : SubscriptionId) :
    Agree K more (Eval.keep slot id) (Eval.keep slot id) := by
  refine bind (takeSlot slot) fun previous => ?_
  refine bind (modify (fun w _ => .keep w slot id) fun _ => rfl) fun _ => ?_
  cases previous with
  | none => exact pure ()
  | some old => exact cancel old

theorem cancelSlot (slot : Slot) : Agree K more (Eval.cancelSlot slot) (Eval.cancelSlot slot) := by
  refine bind (takeSlot slot) fun previous => ?_
  cases previous with
  | none => exact pure false
  | some id => exact bind (cancel id) fun _ => pure true

theorem cancelSlots (slots : List Slot) :
    Agree K more (Eval.cancelSlots slots) (Eval.cancelSlots slots) := by
  induction slots with
  | nil => exact pure _
  | cons slot rest ih =>
    refine bind (takeSlot slot) fun previous => ?_
    cases previous with
    | none => exact ih
    | some id =>
      refine bind (cancel id) fun _ => look fun n w v h => ?_
      rw [show w.subscription? id = v.subscription? id from
        congrArg (fun w => w.subscription? id) h.same]
      split
      · exact bind ih fun _ => pure _
      · exact ih

theorem stopResource (id : ResourceId) :
    Agree K more (Eval.stopResource id) (Eval.stopResource id) := by
  refine look fun n w v h => ?_
  rcases h.resource? id with ⟨found, found'⟩ | ⟨r, r', found, found', same⟩ <;>
    rw [found, found']
  · exact pure ()
  · have state : r'.state = r.state := (congrArg Resource.state same.symm :)
    have name : r'.name = r.name := (congrArg Resource.name same.symm :)
    simp only [state, name]
    split
    · refine bind (signal id .stop) fun stopped => ?_
      split
      · exact report _ _ _
      · exact pure ()
    · exact pure ()

theorem stopResources (ids : List ResourceId) :
    Agree K more (Eval.stopResources ids) (Eval.stopResources ids) := by
  induction ids with
  | nil => exact pure ()
  | cons id rest ih => exact bind (stopResource id) fun _ => ih

theorem shutdown : Agree K more Eval.shutdown Eval.shutdown := by
  refine look fun n w v h => ?_
  have table : w.table = v.table := (congrArg World.table h.same :)
  rw [table]
  exact bind (cancelSlots _) fun resources => stopResources resources.eraseDups

end subscriptions

section binding

/-- Callbacks in order that are the same apart from scopes that are left out. -/
theorem deliverAll (v : Value) {cs cs' : List Callback}
    (h : cs.map (Callback.trim K) = cs'.map (Callback.trim K))
    (ha : AllowedCallbacks Action.Lexical cs) :
    Agree K more (Eval.deliverAll v cs) (Eval.deliverAll v cs') := by
  induction cs generalizing cs' with
  | nil =>
    rw [List.map_eq_nil_iff.mp h.symm]
    exact pure ()
  | cons c rest ih =>
    cases cs' with
    | nil => cases h
    | cons c' rest' =>
      refine bind (holdingAlso v.held (heldByCallbacks_subset_of_trim h)
        (heldByCallbacks_subset_of_trim h.symm) ?_) fun _ => ?_
      · exact perform (congrArg (Task.deliver · v) (List.cons.inj h).1) (ha c List.mem_cons_self)
      · exact ih (List.cons.inj h).2 fun c hm => ha c (List.mem_cons_of_mem _ hm)

theorem bindParameter (scope : ScopeId) (name : String) (v : Value) :
    Agree K more (Eval.bindParameter scope name v) (Eval.bindParameter scope name v) :=
  modify (fun w _ => .bind w scope name _) fun w => (w.trim_bind scope name _).symm

theorem addChild (parent : ScopeId) (name : String) :
    Agree K more (modifyGet fun w => w.addChild parent name)
      (modifyGet fun w => w.addChild parent name) := by
  refine write (fun w _ => .addChild w parent name) fun w => ?_
  refine Prod.ext ?_ (w.trim_addChild parent name).symm
  exact Array.size_map

theorem addRoot (name : String) :
    Agree K more (modifyGet fun w => w.addRoot name) (modifyGet fun w => w.addRoot name) := by
  refine write (fun w _ => .addRoot w name) fun w => ?_
  exact Prod.ext Array.size_map (w.trim_addScope { name, parent := none }).symm

theorem checkConstraint (scope : ScopeId) (name : String) (value previous : Value)
    (c : Constraint) :
    Agree K more (Eval.checkConstraint scope name value previous c)
      (Eval.checkConstraint scope name value previous c) := by
  refine bind (addChild scope "constraint") fun check => ?_
  refine bind (bindParameter check "it" value) fun _ => ?_
  refine bind (bindParameter check "previous" previous) fun _ => withScope check ?_
  refine bind (holdingSame _ (truthy c.predicate)) fun holds => ?_
  split
  · exact pure _
  · exact bind (report _ _ _) fun _ => raise _

theorem checkType (name : String) (value : Value) (declared : Option TypeTag) :
    Agree K more (Eval.checkType name value declared) (Eval.checkType name value declared) := by
  unfold Eval.checkType
  split
  · split
    · exact pure _
    · exact bind (report _ _ _) fun _ => raise _
  · exact pure ()

theorem checkMutable (scope : ScopeId) (name : String) :
    Agree K more (Eval.checkMutable scope name) (Eval.checkMutable scope name) := by
  refine look fun n w v h => ?_
  rw [h.localBinding?]
  split
  · exact raise _
  · exact pure ()

/-- The callbacks that a binding calls. -/
theorem callbacks_agree {n : Nat} {w v : World} (h : World.Alike K n w v) (scope : ScopeId)
    (name : String) :
    ((w.scopes[scope]?.map fun s => s.callbacks name).getD []).map (Callback.trim K) =
      ((v.scopes[scope]?.map fun s => s.callbacks name).getD []).map (Callback.trim K) := by
  have trimmed (s : Scope) :
      (s.trim K).callbacks name = (s.callbacks name).map (Callback.trim K) := by
    rw [Scope.callbacks, Scope.trim, OrderedMap.find?_mapValues, Scope.callbacks]
    cases s.listeners.find? name with
    | none => rfl
    | some callbacks => exact OrderedMap.values_mapValues _ _
  have found (w : World) : (((w.scopes.trim K)[scope]?.map fun s => s.callbacks name).getD []) =
      ((w.scopes[scope]?.map fun s => s.callbacks name).getD []).map (Callback.trim K) := by
    rw [ScopeTable.getElem?_trim]
    cases w.scopes[scope]? with
    | none => rfl
    | some s => exact trimmed s
  rw [← found, ← found, h.table]

section attempts

variable {a a' : BindAttempt}

theorem check (h : a.Alike a') : Agree K more a.check a'.check := by
  unfold BindAttempt.check
  rw [h.target, h.name, h.value, h.previous, h.binding]
  split
  · exact pure ()
  · refine bind (checkType _ _ _) fun _ => ?_
    split
    · exact checkConstraint _ _ _ _ _
    · exact pure ()

theorem writeBinding (h : a.Alike a') :
    Agree K more (Eval.modify a.write) (Eval.modify a'.write) := by
  have same : a.write = a'.write := by
    funext w
    rw [BindAttempt.write, h.target, h.name, h.binding, BindAttempt.write]
  rw [same]
  exact modify (fun w _ => .bind w _ _ _) fun w => (w.trim_bind _ _ _).symm

theorem announceBinding (h : a.Alike a') : Agree K more a.announce a'.announce := by
  refine look fun n w v hw => ?_
  rw [h.previous, h.value, h.name, h.target]
  exact holdingSame _ (deliverAll _ (callbacks_agree hw a'.target a'.name)
    (Protocol.callbacks_allowed hw.left.allowed a'.target a'.name))

end attempts

theorem bindName (scope : ScopeId) (name : String) (value : Value) (options : BindOptions) :
    Agree K more (Eval.bind scope name value options) (Eval.bind scope name value options) := by
  rw [bindName_eq]
  refine look fun n w v h => ?_
  have attempts := h.attempt scope name value options
  have mutable : Agree K more
      (Eval.checkMutable (w.attempt scope name value options).target name)
      (Eval.checkMutable (v.attempt scope name value options).target name) := by
    rw [attempts.target]
    exact checkMutable _ name
  refine bind mutable fun _ => bind (check attempts) fun _ => bind mutable fun _ => ?_
  exact bind (writeBinding attempts) fun _ => bind (announceBinding attempts) fun _ => pure value

theorem lookup (name : String) : Agree K more (Eval.lookup name) (Eval.lookup name) := by
  refine bind currentScope? fun s => ?_
  cases s with
  | none => exact raise _
  | some scope =>
    refine look fun n w v h => ?_
    rw [h.find?]
    split
    · exact pure _
    · exact raise _

end binding

section programs

theorem nextOf (self : Option NodeId) (values : List Value) :
    Agree K more (Eval.nextOf self values) (Eval.nextOf self values) := by
  refine write (fun w _ => ?_) fun w => ?_
  · cases self with
    | none => exact .none w
    | some id => exact .countRun w id
  · cases self with
    | none => rfl
    | some id =>
      have runs : ((w.trim K).node? id).map Node.runs = (w.node? id).map Node.runs := by
        rw [World.node?_trim, Option.map_map]
        rfl
      have counted : World.trim K (w.modifyNode id fun n => { n with runs := n.runs + 1 }) =
          (w.trim K).modifyNode id fun n => { n with runs := n.runs + 1 } :=
        w.trim_modifyNode id fun _ => rfl
      simp only [Option.bind_some, runs, counted]

theorem runAction (self : Option NodeId) (inputs : List Value) (result : Value) {a : Action}
    (ha : a.Allowed Action.Lexical) :
    Agree K more (Eval.runAction self inputs result a) (Eval.runAction self inputs result a) := by
  cases a with
  | raise e => exact raise e
  | sequence values => exact nextOf self values
  | fix depth => exact fix result depth
  | record channel label => exact bind (note _) fun _ => pure _
  | scopeName =>
    refine look fun n w v h => ?_
    have name : (w.context.current?.elim .void fun s => Value.str (w.scopes.name s)) =
        v.context.current?.elim .void fun s => Value.str (v.scopes.name s) := by
      rw [h.current?]
      simp only [h.scopeName]
    rw [name]
    exact pure _
  | depths => exact ha.elim
  | notify node => exact perform rfl trivial
  | notifyNamed register =>
    refine look fun n w v h => ?_
    have registered : w.registeredNode? register = v.registeredNode? register :=
      congrArg (fun w => w.registeredNode? register) h.same
    rw [registered]
    split
    · next m _ =>
      have asked : (Task.notify m.id).Allowed Action.Lexical := trivial
      exact holdingSame _ (perform rfl asked)
    · exact pure _
  | listen node key callback => exact perform rfl ha.2
  | unlisten node key => exact bind (unlisten node key) fun _ => pure _
  | bind scope name options => exact bindName scope name result options
  | cancel slot => exact bind (cancelSlot slot) fun _ => pure _
  | shutdown => exact bind shutdown fun _ => pure _
  | popOutOfOrder first second => exact bind (popOutOfOrder first second) fun _ => pure _
  | wrapError message =>
    simp only [Eval.runAction]
    split <;> exact raise _
  | raiseResult =>
    simp only [Eval.runAction]
    split
    · exact raise _
    · exact pure _
  | _ => exact pure _

theorem runActions (self : Option NodeId) (inputs : List Value) {actions : List Action}
    (ha : AllowedActions Action.Lexical actions) (result : Value) :
    Agree K more (Eval.runActions self inputs actions result)
      (Eval.runActions self inputs actions result) := by
  induction actions generalizing result with
  | nil => exact pure result
  | cons a rest ih => exact bind (runAction self inputs result ha.1) fun result => ih ha.2 result

theorem runProgram (self : Option NodeId) (inputs : List Value) {actions : List Action}
    (ha : AllowedActions Action.Lexical actions) :
    Agree K more (Eval.runProgram self inputs actions) (Eval.runProgram self inputs actions) :=
  runActions self inputs ha .void

theorem handleError (scope : ScopeId) (e : EvalError) :
    Agree K more (Eval.handleError scope e) (Eval.handleError scope e) := by
  unfold Eval.handleError
  split
  · exact raise e
  · refine look fun n w v h => ?_
    rw [h.handler?]
    split
    · exact raise e
    · next handler hh =>
      exact bind (note _) fun _ =>
        runProgram none _ (Protocol.handler_allowed h.right.allowed hh)

end programs

end Eval.Agree
end ReactiveScript
