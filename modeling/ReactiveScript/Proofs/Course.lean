import ReactiveScript.Proofs.Discipline
import ReactiveScript.Proofs.Traffic

/-!
# Courses

The course of an evaluation is the sequence of the moves that it makes: every call that binds a name
makes an attempt, whose check comes after the first look and whose listeners come after the write.
Every procedure takes a course, and a course is a path from the world in which the evaluation starts
to the one in which it ends, along which an attempt that passes has passed its own check.
-/

namespace ReactiveScript

open Eval

/-- An attempt passes its check, which ends in a world. -/
def BindAttempt.Passed (a : BindAttempt) (w : World) : Prop :=
  ∃ fuel, a.check.run fuel a.start = (.ok (), w)

/-- The moves of an evaluation that starts in a world while other attempts are under way. -/
inductive Course : Nat → List BindAttempt → {α : Type} → Eval α → World → List Move → Prop where
  /-- However tasks are carried out, the evaluation only adds scopes. -/
  | still {fuel underWay w} {α : Type} {x : Eval α}
      (h : ∀ perform, w.scopes.Quiet (x perform w).2.scopes) : Course fuel underWay x w []
  | bind_ok {fuel underWay w w' moves moves'} {α β : Type} {x : Eval α} {f : α → Eval β} {a : α}
      (hx : Course fuel underWay x w moves) (result : x.run fuel w = (.ok a, w'))
      (hf : Course fuel underWay (f a) w' moves') :
      Course fuel underWay (x >>= f) w (moves ++ moves')
  | bind_error {fuel underWay w w' moves} {α β : Type} {x : Eval α} {f : α → Eval β} {i : Interrupt}
      (hx : Course fuel underWay x w moves) (result : x.run fuel w = (.error i, w')) :
      Course fuel underWay (x >>= f) w moves
  | exhausted {underWay w} (t : Task) : Course 0 underWay (perform t) w []
  | perform {fuel underWay w moves} {t : Task} (h : Course fuel underWay (step t) w moves) :
      Course (fuel + 1) underWay (perform t) w moves
  | attempt {fuel underWay w moves} {α : Type} {x : Eval α} (h : Course fuel underWay x w moves) :
      Course fuel underWay (attempt x) w moves
  | bracket {fuel underWay w moves} {α : Type} {enter : World → World}
      {leave : World → World → World} {x : Eval α} (entered : (enter w).scopes = w.scopes)
      (left : ∀ w', (leave w w').scopes = w'.scopes) (h : Course fuel underWay x (enter w) moves) :
      Course fuel underWay (bracket enter leave x) w moves
  | parameter {fuel underWay w} (scope : ScopeId) (name : String) (v : Value) :
      Course fuel underWay (bindParameter scope name v) w
        [⟨⟨w, underWay⟩, .parameter scope name v, ⟨w.withParameter scope name v, underWay⟩⟩]
  | refused {fuel underWay w scope name value options a}
      (made : w.attempt scope name value options = a) (barred : a.Barred w) :
      Course fuel underWay (Eval.bind scope name value options) w
        [⟨⟨w, underWay⟩, .refused a, ⟨w, underWay⟩⟩]
  | rejected {fuel underWay w u scope name value options a i checking}
      (made : w.attempt scope name value options = a) (free : ¬ a.Barred w)
      (check : Course fuel (a :: underWay) a.check w checking)
      (checked : a.check.run fuel w = (.error i, u)) :
      Course fuel underWay (Eval.bind scope name value options) w
        (⟨⟨w, underWay⟩, .opened a, ⟨w, a :: underWay⟩⟩ :: checking ++
          [⟨⟨u, a :: underWay⟩, .rejected a, ⟨u, underWay⟩⟩])
  | overtaken {fuel underWay w u scope name value options a checking}
      (made : w.attempt scope name value options = a) (free : ¬ a.Barred w)
      (check : Course fuel (a :: underWay) a.check w checking)
      (checked : a.check.run fuel w = (.ok (), u)) (late : a.Barred u) :
      Course fuel underWay (Eval.bind scope name value options) w
        (⟨⟨w, underWay⟩, .opened a, ⟨w, a :: underWay⟩⟩ :: checking ++
          [⟨⟨u, a :: underWay⟩, .overtaken a, ⟨u, underWay⟩⟩])
  | written {fuel underWay w u scope name value options a checking announcing}
      (made : w.attempt scope name value options = a) (free : ¬ a.Barred w)
      (check : Course fuel (a :: underWay) a.check w checking)
      (checked : a.check.run fuel w = (.ok (), u)) (unbarred : ¬ a.Barred u)
      (announce : Course fuel underWay a.announce (a.write u) announcing) :
      Course fuel underWay (Eval.bind scope name value options) w
        (⟨⟨w, underWay⟩, .opened a, ⟨w, a :: underWay⟩⟩ :: checking ++
          ⟨⟨u, a :: underWay⟩, .written a, ⟨a.write u, underWay⟩⟩ :: announcing)

variable {α : Type} {x : Eval α} {fuel : Nat} {underWay : List BindAttempt} {w : World}
  {moves : List Move}

namespace Course

/-- A course is a path to the world in which the evaluation ends. -/
theorem path (h : Course fuel underWay x w moves) :
    Path BindAttempt.Passed ⟨w, underWay⟩ moves ⟨(x.run fuel w).2, underWay⟩ := by
  induction h with
  -- No move is made, and what is added to the table is one quiet step.
  | still h => exact .quiet (h _) (.done _)
  | @bind_ok fuel underWay w w' moves moves' α β x f a _ result _ hx hf =>
    have run : (x >>= f).run fuel w = (f a).run fuel w' := bind_of_ok result
    rw [result] at hx
    rw [run]
    exact hx.append hf
  | @bind_error fuel underWay w w' moves α β x f i _ result hx =>
    have run : (x >>= f).run fuel w = (.error i, w') := bind_of_error result
    rw [result] at hx
    rw [run]
    exact hx
  | exhausted t => exact .done _
  | perform _ ih => exact ih
  | @attempt fuel underWay w moves α x _ ih =>
    rw [Eval.run, attempt_world]
    exact ih
  | @bracket fuel underWay w moves α enter leave x entered left _ ih =>
    have run : ((Eval.bracket enter leave x).run fuel w).2 =
        leave w (x.run fuel (enter w)).2 := rfl
    rw [run]
    refine .quiet ?_ (ih.quiet_after ?_)
    · rw [entered]
      exact .refl _
    · rw [left]
      exact .refl _
  | parameter scope name v => exact .single (.parameter _ _ _ _ _)
  | @refused fuel underWay w scope name value options a made barred =>
    subst made
    rw [Eval.run, bindName_of_barred barred]
    exact .single (.refused _ _ _ _ _ _ barred)
  | @rejected fuel underWay w u scope name value options a i checking made free _ checked hc =>
    subst made
    rw [checked] at hc
    rw [Eval.run, bindName_of_rejected free checked]
    exact .move (.opened _ _ _ _ _ _ free) (hc.append (.single (.rejected u underWay [] _)))
  | @overtaken fuel underWay w u scope name value options a checking made free _ checked late hc =>
    subst made
    have passed : (w.attempt scope name value options).Passed u := ⟨fuel, checked⟩
    rw [checked] at hc
    rw [Eval.run, bindName_of_overtaken free checked late]
    exact .move (.opened _ _ _ _ _ _ free)
      (hc.append (.single (.overtaken u underWay [] _ passed late)))
  | @written fuel underWay w u scope name value options a checking announcing made free _ checked
      unbarred _ hc hn =>
    subst made
    have passed : (w.attempt scope name value options).Passed u := ⟨fuel, checked⟩
    have ends : (Eval.bind scope name value options).run fuel w =
        (((w.attempt scope name value options).announce >>= fun _ => pure value).run fuel
          ((w.attempt scope name value options).write u)) :=
      bindName_of_passed free checked unbarred
    have announced : ((Eval.bind scope name value options).run fuel w).2 =
        ((w.attempt scope name value options).announce.run fuel
          ((w.attempt scope name value options).write u)).2 :=
      (congrArg Prod.snd ends).trans (bind_pure_world _ _)
    rw [checked] at hc
    rw [announced]
    -- The write stands between what the check has moved and what the listeners move.
    exact .move (.opened _ _ _ _ _ _ free)
      (hc.append (.move (.written u underWay [] _ passed unbarred) hn))

end Course

/-- No parameter is bound in a scope that was there before. -/
def ParameterFree (moves : List Move) : Prop :=
  ∀ m ∈ moves, ∀ s name v, m.incident ≠ .parameter s name v

theorem ParameterFree.append {moves' : List Move} (h : ParameterFree moves)
    (h' : ParameterFree moves') : ParameterFree (moves ++ moves') :=
  List.forall_mem_append.mpr ⟨h, h'⟩

theorem ParameterFree.cons {m : Move} (hm : ∀ s name v, m.incident ≠ .parameter s name v)
    (h : ParameterFree moves) : ParameterFree (m :: moves) := List.forall_mem_cons.mpr ⟨hm, h⟩

/-- From every world the evaluation takes a course, on which no parameter is bound. -/
def Eval.TakesCourse (fuel : Nat) (x : Eval α) : Prop :=
  ∀ underWay w, ∃ moves, Course fuel underWay x w moves ∧ ParameterFree moves

namespace Eval.TakesCourse

theorem still (h : ∀ perform (w : World), w.scopes.Quiet (x perform w).2.scopes) :
    x.TakesCourse fuel :=
  fun _ w => ⟨[], .still fun perform => h perform w, List.forall_mem_nil _⟩

theorem bind {β : Type} {f : α → Eval β} (hx : x.TakesCourse fuel)
    (hf : ∀ a, (f a).TakesCourse fuel) : (x >>= f).TakesCourse fuel := by
  intro underWay w
  obtain ⟨moves, hm, free⟩ := hx underWay w
  rcases hr : x.run fuel w with ⟨i | a, w'⟩
  · exact ⟨moves, .bind_error hm hr, free⟩
  · obtain ⟨moves', hm', free'⟩ := hf a underWay w'
    exact ⟨moves ++ moves', .bind_ok hm hr hm', free.append free'⟩

theorem bracket {enter : World → World} {leave : World → World → World}
    (entered : ∀ w, (enter w).scopes = w.scopes) (left : ∀ w w', (leave w w').scopes = w'.scopes)
    (hx : x.TakesCourse fuel) : (Eval.bracket enter leave x).TakesCourse fuel := by
  intro underWay w
  obtain ⟨moves, hm, free⟩ := hx underWay (enter w)
  exact ⟨moves, .bracket (entered w) (left w) hm, free⟩

theorem bindName (scope : ScopeId) (name : String) (value : Value) (options : BindOptions)
    (hc : ∀ a : BindAttempt, a.check.TakesCourse fuel)
    (ha : ∀ a : BindAttempt, a.announce.TakesCourse fuel) :
    (Eval.bind scope name value options).TakesCourse fuel := by
  intro underWay w
  generalize made : w.attempt scope name value options = a
  by_cases barred : a.Barred w
  · exact ⟨_, .refused made barred, .cons nofun (List.forall_mem_nil _)⟩
  -- The check runs while the attempt is under way, and may make attempts of its own.
  obtain ⟨checking, check, free⟩ := hc a (a :: underWay) w
  rcases checked : a.check.run fuel w with ⟨i | ⟨⟩, u⟩
  · exact ⟨_, .rejected made barred check checked,
      .cons nofun (free.append (.cons nofun (List.forall_mem_nil _)))⟩
  by_cases late : a.Barred u
  · exact ⟨_, .overtaken made barred check checked late,
      .cons nofun (free.append (.cons nofun (List.forall_mem_nil _)))⟩
  · obtain ⟨announcing, announce, free'⟩ := ha a underWay (a.write u)
    exact ⟨_, .written made barred check checked late announce,
      .cons nofun (free.append (.cons nofun free'))⟩

end Eval.TakesCourse

theorem Eval.Bracketing.entered {enter : World → World} {leave : World → World → World}
    (hb : Bracketing enter leave) (w : World) : (enter w).scopes = w.scopes := by
  cases hb <;> rfl

theorem Eval.Bracketing.left {enter : World → World} {leave : World → World → World}
    (hb : Bracketing enter leave) (w w' : World) : (leave w w').scopes = w'.scopes := by
  cases hb with
  | scope s => exact (w'.sameStore_popScope s).scopes
  | _ => rfl

theorem Eval.quiet_popOutOfOrder (first second : String) (perform : Task → Run Value) (w : World) :
    w.scopes.Quiet (popOutOfOrder first second perform w).2.scopes := by
  let pushed (w : World) (name : String) : World :=
    (w.addRoot name).2.modifyContext fun c => c.push (w.addRoot name).1
  have hw : (popOutOfOrder first second perform w).2 =
      ((pushed (pushed w first) second).popScope (w.addRoot first).1).popScope
        ((pushed w first).addRoot second).1 := rfl
  have quiet (w : World) (name : String) : w.scopes.Quiet (pushed w name).scopes := .push _ nofun
  rw [hw, (World.sameStore_popScope _ _).scopes, (World.sameStore_popScope _ _).scopes]
  exact (quiet w first).trans (quiet _ second)

/-- A procedure takes a course if the tasks do that it asks for. -/
theorem Eval.Procedure.takesCourse (hx : Procedure (fun _ => True) x)
    (hp : ∀ t, (Eval.perform t).TakesCourse fuel) : x.TakesCourse fuel := by
  induction hx with
  | bind _ _ hx hf => exact .bind hx hf
  | look _ hf =>
    exact .bind (.still fun _ w => .refl _) fun w => hf w (w.allowed_of_forall fun _ => trivial)
  | change _ hq => exact .still fun _ w => hq w (w.allowed_of_forall fun _ => trivial)
  | perform _ => exact hp _
  | attempt _ hx =>
    intro underWay w
    obtain ⟨moves, hm, free⟩ := hx underWay w
    exact ⟨moves, .attempt hm, free⟩
  | bracket hb _ hx => exact .bracket hb.entered hb.left hx
  | popOutOfOrder _ => exact .still fun perform w => quiet_popOutOfOrder _ _ perform w
  | binding scope name value options _ _ hc ha => exact .bindName scope name value options hc ha
  | _ => exact .still fun _ w => .refl _

theorem Eval.takesCourse_notify (hp : ∀ t, (Eval.perform t).TakesCourse fuel) (id : NodeId) :
    (notify id).TakesCourse fuel := by
  have announced : (announce id).TakesCourse fuel := (Protocol.announce id).procedure.takesCourse hp
  refine .bind (.still fun _ w => .refl _) fun c => ?_
  split
  · exact .still fun _ w => .refl _
  · have marked : (Eval.bracket (fun w => w.enterNotify id) (fun _ w' => w'.leaveNotify id)
        (announce id)).TakesCourse fuel := .bracket (fun _ => rfl) (fun _ _ => rfl) announced
    exact marked

theorem Eval.takesCourse_perform (fuel : Nat) (t : Task) : (perform t).TakesCourse fuel := by
  induction fuel generalizing t with
  | zero => exact fun _ _ => ⟨[], .exhausted t, List.forall_mem_nil _⟩
  | succ fuel ih =>
    have step : (Eval.step t).TakesCourse fuel := by
      induction t using step_cases with
      -- A refused notification takes a mark away that it has not set, which no bracket does.
      | notify id => exact takesCourse_notify ih id
      | routine t hn =>
        exact (Protocol.step (t.allowed_of_forall fun _ => trivial) hn).procedure.takesCourse ih
    intro underWay w
    obtain ⟨moves, hm, free⟩ := step underWay w
    exact ⟨moves, .perform hm, free⟩

/-- Every procedure takes a course from every world. -/
theorem Eval.Procedure.course (hx : Procedure (fun _ => True) x) (fuel : Nat)
    (underWay : List BindAttempt) (w : World) :
    ∃ moves, Course fuel underWay x w moves ∧ ParameterFree moves :=
  hx.takesCourse (takesCourse_perform fuel) underWay w

end ReactiveScript
