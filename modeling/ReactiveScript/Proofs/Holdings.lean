import ReactiveScript.Proofs.Discipline

/-!
# Holdings

Scopes, calls, lines of execution and the marks of notifications come and go during an evaluation;
resources and subscriptions are only touched by changes of their own. So a relation of worlds that
looks at nothing else holds between the start and the end of every run as soon as each change
respects it.
-/

namespace ReactiveScript

open Eval

structure World.SameHoldings (w w' : World) : Prop where
  resources : w'.resources = w.resources
  subscriptions : w'.subscriptions = w.subscriptions

namespace World.SameHoldings

variable {w w' w'' : World}

theorem trans (h : w.SameHoldings w') (h' : w'.SameHoldings w'') : w.SameHoldings w'' :=
  ⟨h'.resources.trans h.resources, h'.subscriptions.trans h.subscriptions⟩

theorem report (w : World) (severity : Severity) (message : String)
    (fields : List (String × String)) : w.SameHoldings (w.report severity message fields) := by
  unfold World.report
  split <;> exact ⟨rfl, rfl⟩

theorem popScope (w : World) (s : ScopeId) : w.SameHoldings (w.popScope s) := by
  unfold World.popScope
  split
  · exact ⟨rfl, rfl⟩
  · next e context _ =>
    have reported : SameHoldings { w with context } _ :=
      report _ .error "scope stack corrupted" [("err", e.display)]
    exact ⟨reported.resources, reported.subscriptions⟩

theorem popOutOfOrder (first second : String) (perform : Task → Run Value) (w : World) :
    w.SameHoldings (Eval.popOutOfOrder first second perform w).2 := by
  have ends : ∃ (u : World) (a b : ScopeId),
      (Eval.popOutOfOrder first second perform w).2 = (u.popScope a).popScope b ∧
      w.SameHoldings u := ⟨_, _, _, rfl, ⟨rfl, rfl⟩⟩
  obtain ⟨u, a, b, ends, pushed⟩ := ends
  rw [ends]
  exact (pushed.trans (popScope u a)).trans (popScope _ b)

end World.SameHoldings

/-- A relation of worlds that looks at their holdings alone and that every change respects. -/
structure Tracks (p : Action → Prop) (rel : World → World → Prop) : Prop where
  still : ∀ {w w'}, w.SameHoldings w' → rel w w'
  trans : ∀ {w w' w''}, rel w w' → rel w' w'' → rel w w''
  change : ∀ {w w'}, Change p w w' → rel w w'

namespace Tracks

variable {p : Action → Prop} {rel : World → World → Prop} {α : Type}

theorem between (h : Tracks p rel) {w u u' w' : World} (during : rel u u')
    (entered : w.SameHoldings u) (left : u'.SameHoldings w') : rel w w' :=
  h.trans (h.trans (h.still entered) during) (h.still left)

def discipline (h : Tracks p rel) : Discipline p where
  inv _ := True
  rel := rel
  refl _ := h.still ⟨rfl, rfl⟩
  trans := h.trans
  change hc _ := ⟨trivial, h.change hc⟩
  enter _ _ := trivial
  leave hb _ _ hr := by
    refine ⟨trivial, ?_⟩
    cases hb with
    | scope s => exact h.between hr ⟨rfl, rfl⟩ (.popScope _ s)
    | _ => exact h.between hr ⟨rfl, rfl⟩ ⟨rfl, rfl⟩
  clearCorruption _ := ⟨trivial, h.still ⟨rfl, rfl⟩⟩
  popOutOfOrder perform _ _ := ⟨trivial, h.still (.popOutOfOrder _ _ perform _)⟩

theorem marks (h : Tracks p rel) : h.discipline.Marks where
  refuse _ _ := ⟨trivial, h.still ⟨rfl, rfl⟩⟩
  enter _ _ := trivial
  leave _ _ _ hr := ⟨trivial, h.between hr ⟨rfl, rfl⟩ ⟨rfl, rfl⟩⟩

variable {fuel : Nat}

theorem good (h : Tracks (fun _ => True) rel) (w : World) : h.discipline.Good w :=
  ⟨w.allowed_of_forall fun _ => trivial, trivial⟩

theorem run (h : Tracks (fun _ => True) rel) {x : Eval α} (hx : Routine (fun _ => True) x)
    (w : World) : rel w (x.run fuel w).2 :=
  (h.marks.keeps_run fuel hx w (h.good w)).2

theorem task (h : Tracks (fun _ => True) rel) (t : Task) (w : World) :
    rel w (performWith fuel t w).2 :=
  (h.marks.keeps_performWith fuel (t.allowed_of_forall fun _ => trivial) w (h.good w)).2

end Tracks
end ReactiveScript
