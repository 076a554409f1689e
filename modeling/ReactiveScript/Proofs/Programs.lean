import ReactiveScript.Evaluation.Basic

/-!
# Restricted programs

The programs of nodes, callbacks and error handlers may be restricted to actions that satisfy a
predicate. The restriction is lifted to everything that contains programs, up to whole worlds, and
to the tasks that hand callbacks on.
-/

namespace ReactiveScript

variable (p : Action → Prop)

mutual

/-- An action satisfies a predicate, and so do the actions of the callback inside it. -/
def Action.Allowed : Action → Prop
  | .listen node key callback => p (.listen node key callback) ∧ callback.Allowed
  | a => p a

def AllowedActions : List Action → Prop
  | [] => True
  | a :: rest => a.Allowed ∧ AllowedActions rest

def Callback.Allowed : Callback → Prop
  | .program actions => AllowedActions actions
  | .guarded _ callback => callback.Allowed
  | _ => True

end

def AllowedCallbacks (callbacks : List Callback) : Prop := ∀ c ∈ callbacks, c.Allowed p

def Body.Allowed : Body → Prop
  | .program actions => AllowedActions p actions
  | _ => True

structure Node.Allowed (n : Node) : Prop where
  body : n.body.Allowed p
  listeners : AllowedCallbacks p n.listeners.ordered

structure Scope.Allowed (s : Scope) : Prop where
  handler : ∀ h, s.handler = some h → AllowedActions p h.actions
  listeners : ∀ callbacks ∈ s.listeners.values, AllowedCallbacks p callbacks.values

def Backend.Allowed (b : Backend) : Prop := AllowedCallbacks p b.subscribers.values

/-- Every program in a world is restricted. -/
structure World.Allowed (w : World) : Prop where
  nodes : ∀ (i : Nat) n, w.nodes[i]? = some n → n.Allowed p
  scopes : ∀ (i : Nat) s, w.scopes[i]? = some s → s.Allowed p
  resources : ∀ (i : Nat) r, w.resources[i]? = some r → r.backend.Allowed p

def Request.Allowed : Request → Prop
  | .subscribe _ callback => callback.Allowed p
  | _ => True

def Task.Allowed : Task → Prop
  | .listen _ _ callback => callback.Allowed p
  | .deliver callback _ => callback.Allowed p
  | .poll _ callback => callback.Allowed p
  | _ => True

variable {p}

theorem Action.Allowed.holds {a : Action} (h : a.Allowed p) : p a := by
  cases a <;> simp only [Action.Allowed] at h <;> first | exact h | exact h.1

theorem AllowedCallbacks.nil : AllowedCallbacks p [] := by
  intro c hc
  cases hc

mutual

theorem Action.allowed_of_forall (h : ∀ a, p a) (a : Action) : a.Allowed p := by
  cases a with
  | listen node key callback => exact ⟨h _, callback.allowed_of_forall h⟩
  | _ => exact h _

theorem allowedActions_of_forall (h : ∀ a, p a) (actions : List Action) :
    AllowedActions p actions := by
  cases actions with
  | nil => trivial
  | cons a rest => exact ⟨a.allowed_of_forall h, allowedActions_of_forall h rest⟩

theorem Callback.allowed_of_forall (h : ∀ a, p a) (c : Callback) : c.Allowed p := by
  cases c with
  | program actions => exact allowedActions_of_forall h actions
  | guarded _ callback => exact callback.allowed_of_forall h
  | _ => trivial

end

section unrestricted

variable (h : ∀ a, p a)
include h

theorem Body.allowed_of_forall (b : Body) : b.Allowed p := by
  cases b with
  | program actions => exact allowedActions_of_forall h actions
  | _ => trivial

/-- A predicate that holds of every action restricts nothing. -/
theorem World.allowed_of_forall (w : World) : w.Allowed p where
  nodes _ n _ := ⟨n.body.allowed_of_forall h, fun c _ => c.allowed_of_forall h⟩
  scopes _ _ _ := ⟨fun _ _ => allowedActions_of_forall h _, fun _ _ c _ => c.allowed_of_forall h⟩
  resources _ _ _ := fun c _ => c.allowed_of_forall h

theorem Task.allowed_of_forall (t : Task) : t.Allowed p := by
  cases t with
  | listen _ _ callback => exact callback.allowed_of_forall h
  | deliver callback _ => exact callback.allowed_of_forall h
  | poll _ callback => exact callback.allowed_of_forall h
  | _ => trivial

end unrestricted

/-- A backend keeps at most its callbacks and the one of the request. -/
theorem Backend.Allowed.answer {b : Backend} {request : Request} (hb : b.Allowed p)
    (hr : request.Allowed p) : (b.answer request).2.Allowed p := by
  intro c hc
  cases b with
  | queue q =>
    cases request with
    | subscribe id callback =>
      rcases OrderedMap.eq_or_mem_of_mem_values_insert hc with rfl | hc
      · exact hr
      · exact hb c hc
    | unsubscribe id => exact hb c (OrderedMap.mem_values_of_mem_erase hc)
    | stop => cases hc
    | destroy => cases hc
    | _ => exact hb c hc
  | recording r =>
    cases request with
    | subscribe id callback =>
      rcases OrderedMap.eq_or_mem_of_mem_values_insertLast hc with rfl | hc
      · exact hr
      · exact hb c hc
    | unsubscribe id => exact hb c (OrderedMap.mem_values_of_mem_erase hc)
    | read blocking mutating =>
      refine hb c ?_
      simp only [Backend.answer, RecordingBackend.answer] at hc
      split at hc
      · exact hc
      · cases mutating <;> exact hc
    | _ => exact hb c hc

end ReactiveScript
