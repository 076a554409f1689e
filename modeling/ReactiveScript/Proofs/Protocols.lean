import ReactiveScript.Proofs.Procedures

/-!
# Protocols

A protocol is a procedure that registers callbacks in three ways only: it connects the relay of a
node with a variable, it makes a subscription and keeps it in a slot at once, and it takes a
subscription out of its slot and cancels it. Apart from these, a protocol leaves the callbacks on
variables, the subscriptions and the table of slots as they are.
-/

namespace ReactiveScript

/-- The callbacks of a variable that are kept in a scope, under their keys. -/
def ScopeTable.registered (t : ScopeTable) (s : ScopeId) (name : String) : OrderedMap Callback :=
  (t[s]?.bind fun scope => scope.listeners.find? name).getD []

namespace World

/-- Everything that registrations are kept in. -/
def registries (w : World) : ScopeTable × Array Subscription × List (Slot × SubscriptionId) :=
  (w.scopes, w.subscriptions, w.table)

/-- The same callbacks are registered on variables, and the subscriptions are the same. -/
structure SameRegistries (w w' : World) : Prop where
  registered : ∀ s name, w'.scopes.registered s name = w.scopes.registered s name
  subscriptions : w'.subscriptions = w.subscriptions
  table : w'.table = w.table

namespace SameRegistries

variable {w w' w'' : World}

theorem refl (w : World) : w.SameRegistries w := ⟨fun _ _ => rfl, rfl, rfl⟩

theorem trans (h : w.SameRegistries w') (h' : w'.SameRegistries w'') : w.SameRegistries w'' :=
  ⟨fun s name => (h'.registered s name).trans (h.registered s name),
    h'.subscriptions.trans h.subscriptions, h'.table.trans h.table⟩

theorem of_eq (h : w'.registries = w.registries) : w.SameRegistries w' := by
  simp only [registries, Prod.mk.injEq] at h
  exact ⟨fun s name => by rw [h.1], h.2.1, h.2.2⟩

theorem modifyScope (w : World) (s : ScopeId) {f : Scope → Scope}
    (hf : ∀ scope, (f scope).listeners = scope.listeners) : w.SameRegistries (w.modifyScope s f) where
  registered u name := by
    simp only [ScopeTable.registered, World.modifyScope, Array.getElem?_modify]
    split
    · cases w.scopes[u]? <;> simp [hf]
    · rfl
  subscriptions := rfl
  table := rfl

/-- A new scope has no callbacks. -/
theorem addScope (w : World) {scope : Scope} (h : scope.listeners = []) :
    w.SameRegistries (w.addScope scope).2 where
  registered s name := by
    simp only [ScopeTable.registered, World.addScope, Array.getElem?_push]
    split
    · next hs => simp [hs, h]
    · rfl
  subscriptions := rfl
  table := rfl

theorem report (w : World) (severity : Severity) (message : String)
    (fields : List (String × String)) : w.SameRegistries (w.report severity message fields) := by
  unfold World.report
  split <;> exact .of_eq rfl

theorem popScope (w : World) (s : ScopeId) : w.SameRegistries (w.popScope s) := by
  unfold World.popScope
  split
  · exact .of_eq rfl
  · next e context _ =>
    have reported : SameRegistries { w with context } _ :=
      .report _ .error "scope stack corrupted" [("err", e.display)]
    exact ⟨reported.registered, reported.subscriptions, reported.table⟩

end SameRegistries

/-- What a subscription follows that is not cancelled. -/
def followed? (w : World) (id : SubscriptionId) : Option SubscriptionTarget :=
  match w.subscription? id with
  | some ⟨target, false⟩ => some target
  | _ => none

/-- Marks a subscription as cancelled, unless it is so already. -/
def endSubscription (w : World) (id : SubscriptionId) : World :=
  match w.followed? id with
  | some _ => w.modifySubscription id fun s => { s with cancelled := true }
  | none => w

/-- Marks the subscription that a slot held as cancelled. -/
def endPrevious (w : World) : Option SubscriptionId → World
  | some id => w.endSubscription id
  | none => w

def withoutSlot (w : World) (slot : Slot) : World :=
  { w with table := w.table.filter fun e => e.1 ≠ slot }

/-- Takes the subscription of a slot out of the table and marks it as cancelled. -/
def endSlot (w : World) (slot : Slot) : World :=
  (w.withoutSlot slot).endPrevious (w.table.lookup slot)

/-- Adds a subscription. -/
def beginSubscription (w : World) : World := { w with subscriptions := w.subscriptions.push {} }

/-- Settles what a subscription follows, and puts it into a slot. -/
def fillSlot (w : World) (slot : Slot) (id : SubscriptionId) (target : SubscriptionTarget) :
    World :=
  let w := w.modifySubscription id fun s => { s with target }
  { w with table := (w.table.filter fun e => e.1 ≠ slot) ++ [(slot, id)] }

/-- Settles what a subscription follows, and puts it into a slot in place of the one before. -/
def keepSlot (w : World) (slot : Slot) (id : SubscriptionId) (target : SubscriptionTarget) :
    World :=
  (w.fillSlot slot id target).endPrevious (w.table.lookup slot)

end World

namespace Eval

variable {α β : Type} {p : Action → Prop}

/-- Removes the callback of a subscription from what it followed. -/
def disconnect (id : SubscriptionId) : Option SubscriptionTarget → Eval Unit
  | some (.resource r) => do
    let _ ← callBackend r (.unsubscribe (subscriptionName id))
  | some (.node n) => unlisten n (subscriptionName id)
  | some .value => pure ()
  | none => pure ()

/-- Disconnects the subscription that a slot held, unless it is cancelled in the given world. -/
def disconnectPrevious (w : World) : Option SubscriptionId → Eval Unit
  | some id => disconnect id (w.followed? id)
  | none => pure ()

def cancelPrevious : Option SubscriptionId → Eval Unit
  | some id => cancel id
  | none => pure ()

/-- Makes a subscription and keeps it. -/
def establish (slotOf : SubscriptionId → Slot) (source : Value) (callback : Callback) :
    Eval SubscriptionId := do
  let id ← subscribe source callback
  keep (slotOf id) id
  return id

/-- Takes the subscription of a slot out of the table and cancels it. -/
def endSlot (slot : Slot) : Eval (Option SubscriptionId) := do
  let previous ← takeSlot slot
  cancelPrevious previous
  return previous

theorem cancel_eq (id : SubscriptionId) :
    cancel id = (do
      let target := (← world).followed? id
      modify fun w => w.endSubscription id
      disconnect id target) := by
  funext perform w
  simp only [cancel, bind_apply, Eval.world, Eval.modify, World.endSubscription, World.followed?]
  rcases w.subscription? id with _ | ⟨target, _ | _⟩
  · rfl
  · cases target <;> rfl
  · rfl

theorem cancelPrevious_eq (previous : Option SubscriptionId) :
    cancelPrevious previous = (do
      let w ← world
      modify fun w => w.endPrevious previous
      disconnectPrevious w previous) := by
  cases previous with
  | none => rfl
  | some id => exact cancel_eq id

theorem keep_eq (slot : Slot) (id : SubscriptionId) :
    keep slot id = (do
      let previous ← takeSlot slot
      modify fun w => { w with table := w.table ++ [(slot, id)] }
      cancelPrevious previous) := by
  refine bind_congr fun previous => bind_congr fun _ => ?_
  cases previous <;> rfl

theorem cancelSlot_eq (slot : Slot) :
    cancelSlot slot = (do return (← endSlot slot).isSome) := by
  simp only [cancelSlot, endSlot, bind_assoc, pure_bind]
  refine bind_congr fun previous => ?_
  cases previous <;> rfl

theorem cancelSlots_cons (slot : Slot) (rest : List Slot) :
    cancelSlots (slot :: rest) = (do
      match ← endSlot slot with
      | none => cancelSlots rest
      | some id =>
        match ((← world).subscription? id).map Subscription.target with
        | some (.resource r) => return r :: (← cancelSlots rest)
        | _ => cancelSlots rest) := by
  simp only [cancelSlots, endSlot, bind_assoc, pure_bind]
  refine bind_congr fun previous => ?_
  cases previous <;> rfl

theorem follow_eq (kind : String) (source expr : Value) :
    follow kind source expr = (do
      let scopes := (← context).scopes
      let id ← establish .numbered source (.evaluate kind scopes expr)
      return .str (subscriptionName id)) := by
  simp only [follow, establish, bind_assoc, pure_bind]

theorem followSource_eq (c : Commit) (scope : ScopeId) (source : Value) :
    followSource c scope source = (do
      let scopes := (← context).scopes
      let _ ← establish (fun _ => .assignment scope c.target) source (.commit c scopes)
      return ()) := by
  simp only [followSource, establish, bind_assoc, pure_bind, bind_pure_unit]

/-- The evaluations that are put together from the parts of the evaluator, from attempts to bind
names, and from the ways in which the evaluator registers callbacks. -/
inductive Protocol (p : Action → Prop) : {α : Type} → Eval α → Prop where
  | pure {α : Type} (a : α) : Protocol p (pure a)
  | raise {α : Type} (e : EvalError) : Protocol p (raise e : Eval α)
  | exhausted {α : Type} : Protocol p (exhausted : Eval α)
  | bind {α β : Type} {x : Eval α} {f : α → Eval β} (hx : Protocol p x)
      (hf : ∀ a, Protocol p (f a)) : Protocol p (x >>= f)
  | look {α : Type} {f : World → Eval α} (hf : ∀ w, w.Allowed p → Protocol p (f w)) :
      Protocol p (world >>= f)
  | change {α : Type} {f : World → α × World} (hf : Procedure p (modifyGet f))
      (hs : ∀ w : World, w.Allowed p → w.SameRegistries (f w).2) : Protocol p (modifyGet f)
  | perform {t : Task} (ht : t.Allowed p) : Protocol p (perform t)
  | attempt {α : Type} {x : Eval α} (hx : Protocol p x) : Protocol p (attempt x)
  | bracket {α : Type} {enter : World → World} {leave : World → World → World} {x : Eval α}
      (hb : Bracketing enter leave) (hx : Protocol p x) : Protocol p (bracket enter leave x)
  | takeCorruption : Protocol p takeCorruption
  | popOutOfOrder {first second : String} (h : p (.popOutOfOrder first second)) :
      Protocol p (popOutOfOrder first second)
  | binding (scope : ScopeId) (name : String) (value : Value) (options : BindOptions)
      (hc : ∀ a : BindAttempt, Protocol p a.check)
      (ha : ∀ a : BindAttempt, Protocol p a.announce) :
      Protocol p (Eval.bind scope name value options)
  /-- A node listens to a variable. -/
  | relay (scope : ScopeId) (name : String) (id : NodeId) :
      Protocol p (listenVariable scope name (Node.relayKey id) (.relay id))
  | establish (slotOf : SubscriptionId → Slot) (source : Value) {callback : Callback}
      (hc : ∀ name id, Protocol p (connect source name (.guarded id callback)))
      (hd : ∀ id target, Protocol p (disconnect id target)) :
      Protocol p (establish slotOf source callback)
  | endSlot (slot : Slot) (hd : ∀ id target, Protocol p (disconnect id target)) :
      Protocol p (endSlot slot)

section procedures

variable (hd : ∀ id target, Procedure p (disconnect id target))
include hd

theorem Procedure.cancelPrevious (previous : Option SubscriptionId) :
    Procedure p (Eval.cancelPrevious previous) := by
  have ended (w : World) (id : SubscriptionId) : Change p w (w.endSubscription id) := by
    unfold World.endSubscription
    split
    · exact .cancel w id
    · exact .none w
  have same (w : World) (id : SubscriptionId) : (w.endSubscription id).scopes = w.scopes := by
    unfold World.endSubscription
    split <;> rfl
  cases previous with
  | none => exact .pure ()
  | some id =>
    rw [Eval.cancelPrevious, cancel_eq]
    refine .look fun w _ => .bind (modifyApart (fun w _ => ended w id) fun w => same w id) fun _ => ?_
    exact hd id _

theorem Procedure.endSlot (slot : Slot) : Procedure p (Eval.endSlot slot) := by
  refine .bind (.write fun w _ => .of_scopes_eq (.takeSlot w slot) rfl) fun previous => ?_
  exact .bind (Procedure.cancelPrevious hd previous) fun _ => .pure previous

theorem Procedure.keep (slot : Slot) (id : SubscriptionId) : Procedure p (Eval.keep slot id) := by
  rw [keep_eq]
  refine .bind (.write fun w _ => .of_scopes_eq (.takeSlot w slot) rfl) fun previous => ?_
  refine .bind (modifyApart (fun w _ => .keep w slot id) fun _ => rfl) fun _ => ?_
  exact Procedure.cancelPrevious hd previous

theorem Procedure.establish (slotOf : SubscriptionId → Slot) (source : Value) {callback : Callback}
    (hc : ∀ name id, Procedure p (connect source name (.guarded id callback))) :
    Procedure p (Eval.establish slotOf source callback) := by
  have subscribed : Procedure p (subscribe source callback) := by
    refine .bind (.write fun w _ => .of_scopes_eq (.subscribe w) rfl) fun id => ?_
    refine .bind (.bracket (.hold _) (hc _ id)) fun target => ?_
    exact .bind (modifyApart (fun w _ => .follow w id target) fun _ => rfl) fun _ => .pure _
  exact .bind subscribed fun id => .bind (Procedure.keep hd (slotOf id) id) fun _ => .pure id

end procedures

theorem Protocol.procedure {x : Eval α} (h : Protocol p x) : Procedure p x := by
  induction h with
  | pure a => exact .pure a
  | raise e => exact .raise e
  | exhausted => exact .exhausted
  | bind _ _ hx hf => exact .bind hx hf
  | look _ hf => exact .look hf
  | change hf _ => exact hf
  | perform ht => exact .perform ht
  | attempt _ hx => exact .attempt hx
  | bracket hb _ hx => exact .bracket hb hx
  | takeCorruption => exact .takeCorruption
  | popOutOfOrder h => exact .popOutOfOrder h
  | binding scope name value options _ _ hc ha => exact .binding scope name value options hc ha
  | relay scope name id => exact .modify fun w _ => .listenVariable w _ name _ trivial
  | establish slotOf source _ _ hc hd => exact .establish hd slotOf source hc
  | endSlot slot _ hd => exact .endSlot hd slot

theorem Protocol.routine {x : Eval α} (h : Protocol p x) : Routine p x := h.procedure.routine

end Eval

/-- A write of an evaluation that leaves the registries alone and only adds to the table of
scopes. -/
structure PlainChange (p : Action → Prop) (w w' : World) : Prop where
  quiet : QuietChange p w w'
  same : w.SameRegistries w'

namespace PlainChange

variable {p : Action → Prop}

theorem of_eq {w w' : World} (h : Change p w w') (hs : w'.registries = w.registries) :
    PlainChange p w w' :=
  ⟨.of_scopes_eq h (congrArg Prod.fst hs), .of_eq hs⟩

theorem none (w : World) : PlainChange p w w := of_eq (.none w) rfl

theorem report (w : World) (severity : Severity) (message : String)
    (fields : List (String × String)) : PlainChange p w (w.report severity message fields) :=
  ⟨.report w severity message fields, .report w severity message fields⟩

theorem addRoot (w : World) (name : String) : PlainChange p w (w.addRoot name).2 :=
  ⟨.addRoot w name, .addScope w rfl⟩

theorem addChild (w : World) (parent : ScopeId) (name : String) :
    PlainChange p w (w.addChild parent name).2 :=
  ⟨.addChild w parent name, .addScope w rfl⟩

end PlainChange

namespace Eval.Protocol

variable {α : Type} {p : Action → Prop}

theorem context : Protocol p Eval.context := Protocol.look fun w _ => .pure w.context

theorem currentScope? : Protocol p Eval.currentScope? := .bind context fun c => .pure c.current?

theorem write {f : World → α × World} (hf : ∀ w, w.Allowed p → PlainChange p w (f w).2) :
    Protocol p (modifyGet f) :=
  .change (.write fun w hw => (hf w hw).quiet) fun w hw => (hf w hw).same

theorem modify {f : World → World} (hf : ∀ w, w.Allowed p → PlainChange p w (f w)) :
    Protocol p (Eval.modify f) := Protocol.write (f := fun w => ((), f w)) hf

theorem modifyApart {f : World → World} (hf : ∀ w, w.Allowed p → Change p w (f w))
    (hs : ∀ w, (f w).registries = w.registries) : Protocol p (Eval.modify f) :=
  modify fun w hw => .of_eq (hf w hw) (hs w)

theorem ofExcept (r : Except EvalError α) : Protocol p (Eval.ofExcept r) := by
  cases r with
  | ok a => exact .pure a
  | error e => exact .raise e

theorem raiseIf (e : Option EvalError) : Protocol p (Eval.raiseIf e) := by
  cases e with
  | none => exact .pure ()
  | some e => exact .raise e

theorem note (e : Event) : Protocol p (Eval.note e) :=
  modifyApart (fun w _ => .note w e) fun _ => rfl

theorem report (severity : Severity) (message : String) (fields : List (String × String)) :
    Protocol p (Eval.report severity message fields) :=
  modify fun w _ => .report w severity message fields

theorem holding (held : List Held) {x : Eval α} (hx : Protocol p x) :
    Protocol p (Eval.holding held x) := .bracket (.hold held) hx

theorem withScope (scope : ScopeId) {x : Eval α} (hx : Protocol p x) :
    Protocol p (Eval.withScope scope x) := .bracket (.scope scope) hx

theorem withScopes (scopes : ScopeStack) {x : Eval α} (hx : Protocol p x) :
    Protocol p (Eval.withScopes scopes x) := by
  induction scopes generalizing x with
  | nil => exact hx
  | cons scope outer ih => exact ih (withScope scope hx)

theorem onWorker (scopes : ScopeStack) {x : Eval α} (hx : Protocol p x) :
    Protocol p (Eval.onWorker scopes x) := .bracket (.line true) (withScopes scopes hx)

theorem whileExecuting (id : NodeId) {x : Eval α} (hx : Protocol p x) :
    Protocol p (Eval.whileExecuting id x) := .bracket (.call id) hx

theorem addScope (name : String) : Protocol p (Eval.addScope name) := by
  refine .bind currentScope? fun s => ?_
  cases s with
  | none => exact .write fun w _ => .addRoot w name
  | some parent => exact .write fun w _ => .addChild w parent name

/-- Evaluating with a new scope in which two parameters are bound. -/
theorem withParameters {make : World → ScopeId × World}
    (hm : ∀ w, w.Allowed p → PlainChange p w (make w).2)
    (hs : ∀ w, w.scopes.size ≤ (make w).1) (first second : String) (v v' : Value)
    {x : ScopeId → Eval α} (hx : ∀ s, Protocol p (x s)) :
    Protocol p (do
      let scope ← modifyGet make
      Eval.bindParameter scope first v
      Eval.bindParameter scope second v'
      x scope) := by
  let bound (w : World) : ScopeId × World :=
    ((make w).1, { (make w).2 with
      scopes := ((make w).2.scopes.bind (make w).1 first (.parameter v)).bind (make w).1 second
        (.parameter v') })
  have procedure : Procedure p (modifyGet bound) :=
    .withParameters (fun w hw => (hm w hw).quiet) hs first second v v' fun s => .pure s
  have parameter (w : World) (s : ScopeId) (name : String) (v : Value) :
      w.SameRegistries { w with scopes := w.scopes.bind s name (.parameter v) } :=
    .modifyScope (f := fun scope => scope.bind name (.parameter v)) w s fun _ => rfl
  have same (w : World) (hw : w.Allowed p) : w.SameRegistries (bound w).2 :=
    ((hm w hw).same.trans (parameter _ _ first v)).trans (parameter _ _ second v')
  show Protocol p (modifyGet bound >>= x)
  exact .bind (.change procedure same) hx

theorem withItem (name : String) (item : Value) {x : Eval α} (hx : Protocol p x) :
    Protocol p (Eval.withItem name item x) := by
  unfold Eval.withItem Eval.addScope
  rw [bind_assoc]
  refine .bind currentScope? fun s => ?_
  have inNew (scope : ScopeId) : Protocol p (Eval.withScope scope x) := withScope scope hx
  cases s with
  | none =>
    exact withParameters (fun w _ => .addRoot w name) (fun _ => Nat.le_refl _) _ _ item item inNew
  | some parent =>
    exact withParameters (fun w _ => .addChild w parent name) (fun _ => Nat.le_refl _) _ _ item item
      inNew

end Eval.Protocol
end ReactiveScript
