import Mathlib.Data.Finset.Dedup
import ReactiveScript.Proofs.Fuel
import ReactiveScript.Proofs.Ripple
import ReactiveScript.Proofs.Silence

/-!
# Circuits of nodes that notify each other

A circuit is a finite set of nodes whose listeners do nothing but notify nodes of the set, any
number of times and in any order, and whose executions end and do not notify. What a notification
does to the marks is then the ripple of the wiring: the notification ends if the ripple does, and if
no execution fails, only then.
-/

namespace ReactiveScript

open Eval

/-- The nodes that an action notifies, if it does nothing else that matters to other nodes. -/
def Action.targets? (w : World) : Action → Option (List NodeId)
  | .notify n => some [n]
  | .notifyNamed register => some ((w.registeredNode? register).toList.map NodeRef.id)
  | .yield _ | .input | .inputs | .record .. => some []
  | _ => none

/-- The concatenated answers, if there is one for each element. -/
def concat? {α β : Type} (f : α → Option (List β)) : List α → Option (List β)
  | [] => some []
  | a :: rest => do return (← f a) ++ (← concat? f rest)

/-- The nodes that a callback notifies in order, if it does nothing else. -/
def Callback.targets? (w : World) : Callback → Option (List NodeId)
  | .relay n => some [n]
  | .program actions => concat? (Action.targets? w) actions
  | .guarded id callback => if w.isCancelled id then some [] else callback.targets? w
  | _ => none

namespace World

/-- The nodes that the listeners of a node notify, in order. -/
def wiring (w : World) (id : NodeId) : List NodeId :=
  (concat? (Callback.targets? w) (w.listenersOf id)).getD []

/-- A world without its marks, what is in use in it and its log. -/
def quiet (w : World) : World :=
  { w with
    context := { w.context with notifying := [], guards := [] }
    inUse := []
    log := [] }

/-- The marked nodes. -/
def marks (w : World) : Finset NodeId := w.context.notifying.toFinset

theorem isNotifying_iff {w : World} {id : NodeId} : w.context.isNotifying id ↔ id ∈ w.marks := by
  simp [marks, Context.isNotifying]

@[simp] theorem marks_refuseNotify (w : World) (id : NodeId) :
    (w.refuseNotify id).marks = w.marks.erase id := by
  ext n
  simp [marks, refuseNotify, modifyContext, Context.refuseNotify, Context.unmark, and_comm]

@[simp] theorem marks_enterNotify (w : World) (id : NodeId) :
    (w.enterNotify id).marks = insert id w.marks := by
  ext n
  simp [marks, enterNotify, modifyContext, Context.enterNotify]

@[simp] theorem marks_leaveNotify (w : World) (id : NodeId) :
    (w.leaveNotify id).marks = w.marks.erase id := by
  ext n
  simp [marks, leaveNotify, modifyContext, Context.leaveNotify, Context.unmark, and_comm]

end World

/-- A finite set of nodes that notify each other and do nothing else to each other. `during` is what
holds throughout: it does not depend on marks, on what is in use or on the log. -/
structure Circuit (base : World) (nodes : Finset NodeId) (during : World → Prop) : Prop where
  start : during base
  quiet : ∀ {w w' : World}, during w → w'.quiet = w.quiet → during w'
  /-- The listeners of the nodes do nothing but notify nodes of the set. -/
  wired : ∀ n ∈ nodes, ∃ targets,
    concat? (Callback.targets? base) (base.listenersOf n) = some targets ∧
      ∀ m ∈ targets, m ∈ nodes
  listeners : ∀ {w}, during w → ∀ n ∈ nodes, w.listenersOf n = base.listenersOf n
  registers : ∀ {w}, during w → w.registers = base.registers
  cancelled : ∀ {w}, during w → ∀ id, w.isCancelled id = base.isCancelled id
  /-- The nodes go on to exist, so that relays reach them. -/
  held : ∀ {w}, during w → ∀ n ∈ nodes, w.isHeld (.node n)
  /-- The execution of a node ends, with a result or an error, and does not notify. -/
  executes : ∀ {w}, during w → ∀ n ∈ nodes,
    ∃ (fuel : Nat) (r : Except EvalError Value) (w' : World),
      performWith fuel (.resolve n 1 w.settings.parallel) w = (r.mapError .raised, w') ∧
      Silent fuel (.resolve n 1 w.settings.parallel) w ∧ during w'

/-- No execution of a node fails. -/
def Circuit.Returns {base : World} {nodes : Finset NodeId} {during : World → Prop}
    (_ : Circuit base nodes during) : Prop :=
  ∀ {w}, during w → ∀ n ∈ nodes, ∃ fuel v w',
    performWith fuel (.resolve n 1 w.settings.parallel) w = (.ok v, w')

/-- An evaluation does nothing but notify the given nodes in order, unless it fails. -/
inductive Emits (nodes : Finset NodeId) (during : World → Prop) :
    {α : Type} → List NodeId → Eval α → Prop where
  | pure {α : Type} (a : α) : Emits nodes during [] (pure a)
  | note (e : Event) : Emits nodes during [] (note e)
  | notify {n : NodeId} (h : n ∈ nodes) : Emits nodes during [n] (perform (.notify n))
  | deliver {c : Callback} {v : Value} {targets : List NodeId}
      (h : Emits nodes during targets (deliver c v)) :
      Emits nodes during targets (perform (.deliver c v))
  | holding {α : Type} {x : Eval α} {targets : List NodeId} (held : List Held)
      (h : Emits nodes during targets x) : Emits nodes during targets (holding held x)
  | look {α : Type} {f : World → Eval α} {targets : List NodeId}
      (h : ∀ w, during w → Emits nodes during targets (f w)) :
      Emits nodes during targets (world >>= f)
  | bind {α β : Type} {x : Eval α} {f : α → Eval β} {first second : List NodeId}
      (hx : Emits nodes during first x) (hp : x.Plain)
      (hf : ∀ a, Emits nodes during second (f a)) (hq : ∀ a, (f a).Plain) :
      Emits nodes during (first ++ second) (x >>= f)

theorem concat?_cons {α β : Type} {f : α → Option (List β)} {a : α} {rest : List α}
    {all : List β} (h : concat? f (a :: rest) = some all) :
    ∃ first second, f a = some first ∧ concat? f rest = some second ∧ all = first ++ second := by
  obtain ⟨first, h₁, h⟩ := Option.bind_eq_some_iff.mp h
  obtain ⟨second, h₂, h⟩ := Option.bind_eq_some_iff.mp h
  cases h
  exact ⟨first, second, h₁, h₂, rfl⟩

section wiring

variable {base : World} {nodes : Finset NodeId} {during : World → Prop}
  (hC : Circuit base nodes during)
include hC

theorem emits_runAction {a : Action} {targets : List NodeId} (self : Option NodeId)
    (inputs : List Value) (result : Value) (h : a.targets? base = some targets)
    (hn : ∀ m ∈ targets, m ∈ nodes) :
    Emits nodes during targets (runAction self inputs result a) := by
  cases a with
  | notify n =>
    cases h
    exact .notify (hn n (by simp))
  | notifyNamed register =>
    cases h
    refine .look fun w hw => ?_
    have same : w.registeredNode? register = base.registeredNode? register := by
      rw [World.registeredNode?, hC.registers hw, World.registeredNode?]
    rw [same]
    cases hr : base.registeredNode? register with
    | none => exact .pure _
    | some n =>
      rw [hr] at hn
      exact .holding _ (.notify (hn n.id (by simp)))
  | record channel label =>
    cases h
    exact .bind (.note _) (Routine.note _) (fun _ => .pure _) fun _ => .pure _
  | yield v => cases h; exact .pure _
  | input => cases h; exact .pure _
  | inputs => cases h; exact .pure _
  | _ => cases h

theorem emits_runActions {actions : List Action} {targets : List NodeId} (self : Option NodeId)
    (inputs : List Value) (result : Value)
    (h : concat? (Action.targets? base) actions = some targets)
    (hn : ∀ m ∈ targets, m ∈ nodes) :
    Emits nodes during targets (runActions self inputs actions result) := by
  induction actions generalizing targets result with
  | nil =>
    cases h
    exact .pure _
  | cons a rest ih =>
    obtain ⟨first, second, h₁, h₂, rfl⟩ := concat?_cons h
    have plain : (runAction self inputs result a).Plain :=
      (Protocol.runAction self inputs result (a.allowed_of_forall fun _ => trivial)).routine
    exact .bind (emits_runAction hC self inputs result h₁ fun m hm => hn m (by simp [hm])) plain
      (fun result => ih result h₂ fun m hm => hn m (by simp [hm]))
      fun result =>
        (Protocol.runActions self inputs (allowedActions_of_forall (fun _ => trivial) rest)
          result).routine

theorem emits_deliver {c : Callback} {targets : List NodeId} (v : Value)
    (h : c.targets? base = some targets) (hn : ∀ m ∈ targets, m ∈ nodes) :
    Emits nodes during targets (deliver c v) := by
  cases c with
  | relay n =>
    cases h
    have hm := hn n (by simp)
    refine .look fun w hw => ?_
    rw [if_pos (hC.held hw n hm)]
    exact .holding _ (.notify hm)
  | program actions => exact emits_runActions hC none [v] .void h hn
  | guarded id callback =>
    refine .look fun w hw => ?_
    rw [hC.cancelled hw id]
    unfold Callback.targets? at h
    split at h
    · next hc =>
      cases h
      rw [if_pos hc]
      exact .pure _
    · next hc =>
      rw [if_neg hc]
      exact emits_deliver v h hn
  | _ => cases h

theorem emits_deliverAll {callbacks : List Callback} {targets : List NodeId} (v : Value)
    (h : concat? (Callback.targets? base) callbacks = some targets)
    (hn : ∀ m ∈ targets, m ∈ nodes) :
    Emits nodes during targets (deliverAll v callbacks) := by
  induction callbacks generalizing targets with
  | nil =>
    cases h
    exact .pure _
  | cons c rest ih =>
    obtain ⟨first, second, h₁, h₂, rfl⟩ := concat?_cons h
    have asked : (Task.deliver c v).Allowed fun _ => True := c.allowed_of_forall fun _ => trivial
    refine .bind (.holding _ (.deliver (emits_deliver hC v h₁ fun m hm => hn m (by simp [hm]))))
      (Routine.holding _ (.perform asked)) (fun _ => ih h₂ fun m hm => hn m (by simp [hm]))
      fun _ => (Protocol.deliverAll v fun c _ => c.allowed_of_forall fun _ => trivial).routine

theorem concat?_wiring {n : NodeId} (hn : n ∈ nodes) :
    concat? (Callback.targets? base) (base.listenersOf n) = some (base.wiring n) := by
  obtain ⟨targets, h, -⟩ := hC.wired n hn
  rw [World.wiring, h]
  rfl

theorem wiring_closed : ∀ n ∈ nodes, ∀ m ∈ base.wiring n, m ∈ nodes := by
  intro n hn
  obtain ⟨targets, h, closed⟩ := hC.wired n hn
  simpa [World.wiring, h] using closed

/-- An execution leaves the marks of a circuit alone. -/
theorem executes_marks {w : World} (hw : during w) {n : NodeId} (hn : n ∈ nodes) :
    ∃ (fuel : Nat) (r : Except EvalError Value) (w' : World),
      performWith fuel (.resolve n 1 w.settings.parallel) w = (r.mapError .raised, w') ∧
      during w' ∧ w'.marks = w.marks := by
  obtain ⟨fuel, r, w', run, silent, hw'⟩ := hC.executes hw n hn
  have marks := silent.notifying_eq
  rw [run] at marks
  exact ⟨fuel, r, w', run, hw', congrArg List.toFinset marks⟩

end wiring

end ReactiveScript
