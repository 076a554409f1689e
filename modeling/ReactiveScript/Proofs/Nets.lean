import Mathlib.Data.Set.Defs
import ReactiveScript.Proofs.Executions

/-!
# Nets of nodes that force each other

A deferred function forces nodes in turn, looks at the world and changes it meanwhile, and ends with
a value or an error; it does not catch errors. In a net all functions force nodes of the net, in any
cycle. Without a limit a net is evaluated by a machine: it has a stack of the executions under way,
of which the innermost one runs and the others wait for the node that they have forced.
-/

namespace ReactiveScript

open Eval

variable {α : Type}

/-- What a node is forced in: something is held besides, or a scope is active. -/
inductive Enclosure where
  | hold (held : List Held)
  | scope (s : ScopeId)

namespace Enclosure

def enter : Enclosure → World → World
  | hold held, w => { w with inUse := held ++ w.inUse }
  | scope s, w => w.modifyContext fun c => c.push s

/-- Ends an enclosure that was entered in a first world. -/
def leave : Enclosure → World → World → World
  | hold _, w, u => { u with inUse := w.inUse }
  | scope s, _, u => u.popScope s

/-- Enters enclosures, the outermost one first. -/
def enterAll : List Enclosure → World → World
  | [], w => w
  | e :: inner, w => enterAll inner (e.enter w)

def leaveAll : List Enclosure → World → World → World
  | [], _, u => u
  | e :: inner, w, u => e.leave w (leaveAll inner (e.enter w) u)

/-- Evaluates inside enclosures. -/
def around : List Enclosure → Eval α → Eval α
  | [], x => x
  | e :: inner, x => bracket e.enter e.leave (around inner x)

theorem around_apply (enclosures : List Enclosure) (x : Eval α) (perform : Task → Run Value)
    (w : World) : around enclosures x perform w =
      ((x perform (enterAll enclosures w)).1,
        leaveAll enclosures w (x perform (enterAll enclosures w)).2) := by
  induction enclosures generalizing w with
  | nil => rfl
  | cons e inner ih => rw [around, bracket_apply, ih]; rfl

end Enclosure

/-- What a deferred function does. -/
inductive Deferred where
  | answer (v : Value)
  | raise (e : EvalError)
  | look (next : World → Deferred)
  | change (f : World → World) (next : Deferred)
  /-- Forces a node to depth one and goes on with the result. -/
  | force (enclosures : List Enclosure) (id : NodeId) (next : Value → Deferred)

namespace Deferred

/-- The evaluation of a deferred function. -/
def eval : Deferred → Eval Value
  | answer v => pure v
  | raise e => Eval.raise e
  | look next => fun perform w => (next w).eval perform w
  | change f next => fun perform w => next.eval perform (f w)
  | force enclosures id next => do
    let v ← Enclosure.around enclosures (perform (.resolve id 1 false))
    (next v).eval

/-- A function that has come to its end. -/
def ending : Except EvalError Value → Deferred
  | .ok v => answer v
  | .error e => raise e

end Deferred

/-- Nodes that force each other. -/
structure Net where
  nodes : Set NodeId
  function : NodeId → Deferred
  /-- The functions raise errors of their own too. -/
  fails : Prop

namespace Net

variable (net : Net)

/-- The nodes of a net have its functions as their bodies; no error handler is installed if the
functions raise errors of their own. -/
structure Fits (w : World) : Prop where
  function : ∀ id ∈ net.nodes, ∃ n, w.node? id = some n ∧ runBody id n = (net.function id).eval
  unhandled : net.fails → ∀ (s : ScopeId) (scope : Scope), w.scopes[s]? = some scope →
    scope.handler = none

/-- The functions of a net force its nodes only, answer with values that hold no node, and do not
claim to have reached the recursion limit. They change neither the net nor the context. -/
def Admits : Deferred → Prop
  | .answer v => v.NodeFree
  | .raise e => net.fails ∧ e.kind ≠ .recursionLimitExceeded
  | .look next => ∀ w, Admits (next w)
  | .change f next => (∀ w, net.Fits w → net.Fits (f w) ∧ (f w).context = w.context ∧
      (f w).settings = w.settings) ∧ Admits next
  | .force _ id next => id ∈ net.nodes ∧ ∀ v : Value, v.NodeFree → Admits (next v)

def Closed : Prop := ∀ id ∈ net.nodes, net.Admits (net.function id)

end Net

/-- An execution that waits for a node that it has forced. -/
structure Suspension where
  activation : Activation
  enclosures : List Enclosure
  /-- The world in which the node was forced, without the enclosures. -/
  before : World
  next : Value → Deferred

/-- A moment of the evaluation of a net. -/
inductive Moment where
  /-- An execution runs, and the others wait, the innermost one first. -/
  | running (x : Activation) (rest : Deferred) (outer : List Suspension) (w : World)
  | finished (r : Except EvalError Value) (w : World)

namespace Moment

/-- The number of executions under way. -/
def active : Moment → Nat
  | running _ _ outer _ => outer.length + 1
  | finished _ _ => 0

/-- An execution has ended, and the one that waits for it goes on. It does not catch an error. -/
def ended (r : Except EvalError Value) (w : World) : List Suspension → Moment
  | [] => finished (r.map Value.joined) w
  | s :: outer =>
    let w := Enclosure.leaveAll s.enclosures s.before w
    match r with
    | .ok v => running s.activation (s.next v.joined) outer w
    | .error e => running s.activation (.raise e) outer w

end Moment

namespace Net

variable (net : Net)

/-- A node is executed, however many executions are under way. -/
def called (id : NodeId) (w : World) (outer : List Suspension) : Moment :=
  match w.node? id with
  | some n =>
    let x : Activation := ⟨id, n, w⟩
    .running x (net.function id) outer x.inside
  | none => .ended (.ok .void) w outer

/-- The moment after a moment, without a recursion limit. -/
def step : Moment → Moment
  | .finished r w => .finished r w
  | .running x (.answer v) outer w =>
    .ended (x.outcome w (.ok v)) (x.after w (.ok v)) outer
  | .running x (.raise e) outer w =>
    .ended (x.outcome w (.error (x.located e))) (x.after w (.error (x.located e))) outer
  | .running x (.look next) outer w => .running x (next w) outer w
  | .running x (.change f next) outer w => .running x next outer (f w)
  | .running x (.force enclosures id next) outer w =>
    net.called id (Enclosure.enterAll enclosures w) (⟨x, enclosures, w, next⟩ :: outer)

/-- The evaluation that starts at a moment comes to another one. -/
inductive Reaches (m : Moment) : Moment → Prop where
  | refl : Reaches m m
  | step {m' : Moment} (h : Reaches m m') : Reaches m (net.step m')

/-- The evaluation comes from a moment to another one, with at most so many executions under way
before it. -/
inductive Within (bound : Nat) : Moment → Moment → Prop where
  | refl (m : Moment) : Within bound m m
  | step {m m' : Moment} (h : m.active ≤ bound) (rest : Within bound (net.step m) m') :
      Within bound m m'

variable {net} {bound : Nat} {m m' m'' : Moment}

theorem Within.trans (h : net.Within bound m m') (h' : net.Within bound m' m'') :
    net.Within bound m m'' := by
  induction h with
  | refl m => exact h'
  | step active _ ih => exact .step active (ih h')

theorem Within.single (h : m.active ≤ bound) : net.Within bound m (net.step m) := .step h (.refl _)

theorem Reaches.of_step (h : net.Reaches (net.step m) m') : net.Reaches m m' := by
  induction h with
  | refl => exact .step .refl
  | step _ ih => exact .step ih

theorem Within.reaches (h : net.Within bound m m') : net.Reaches m m' := by
  induction h with
  | refl m => exact .refl
  | step _ _ ih => exact .of_step ih

theorem Reaches.cases_step (h : net.Reaches m m') : m' = m ∨ net.Reaches (net.step m) m' := by
  induction h with
  | refl => exact .inl rfl
  | step h ih =>
    rcases ih with rfl | ih
    · exact .inr .refl
    · exact .inr (.step ih)

/-- An evaluation that is over has come to no other moments than those on its way. -/
theorem Within.active_le {r : Except EvalError Value} {w : World}
    (h : net.Within bound m (.finished r w)) (hm : net.Reaches m m') : m'.active ≤ bound := by
  generalize he : Moment.finished r w = last at h
  induction h with
  | refl m =>
    subst he
    have stays : m' = .finished r w := by
      induction hm with
      | refl => rfl
      | step _ ih => rw [ih, Net.step]
    rw [stays]
    exact Nat.zero_le bound
  | step active _ ih =>
    rcases hm.cases_step with rfl | hm
    · exact active
    · exact ih hm he

end Net
end ReactiveScript
