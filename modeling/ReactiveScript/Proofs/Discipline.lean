import ReactiveScript.Proofs.Evaluators

/-!
# Disciplines

A discipline is an invariant of worlds together with a relation from the world in which an
evaluation starts to the one in which it ends, both of which every part of a routine respects. Every
routine respects them then, however it ends; and if marking a node does too, so do all tasks.
Besides, a routine asks only for tasks that are allowed, in worlds that satisfy the invariant: how
other tasks are carried out makes no difference.
-/

namespace ReactiveScript

open Eval

/-- The world after a notification of a node was refused. -/
def World.refuseNotify (w : World) (id : NodeId) : World :=
  w.modifyContext fun c => c.refuseNotify id

/-- The world in which a notification of a node runs. -/
def World.enterNotify (w : World) (id : NodeId) : World :=
  w.modifyContext fun c => c.enterNotify id

def World.leaveNotify (w : World) (id : NodeId) : World :=
  w.modifyContext fun c => c.leaveNotify id

def World.clearCorruption (w : World) : World :=
  w.modifyContext fun c => { c with corruption := none }

/-- An invariant, and a relation between start and end, that the parts of routines respect. -/
structure Discipline (p : Action → Prop) where
  inv : World → Prop
  rel : World → World → Prop
  refl : ∀ w, rel w w
  trans : ∀ {w w' w''}, rel w w' → rel w' w'' → rel w w''
  change : ∀ {w w'}, Change p w w' → inv w → inv w' ∧ rel w w'
  enter : ∀ {enter leave w}, Bracketing enter leave → inv w → inv (enter w)
  leave : ∀ {enter leave w w'}, Bracketing enter leave → inv w → inv w' → rel (enter w) w' →
    inv (leave w w') ∧ rel w (leave w w')
  clearCorruption : ∀ {w}, inv w → inv w.clearCorruption ∧ rel w w.clearCorruption
  popOutOfOrder : ∀ {first second w} (perform), p (.popOutOfOrder first second) → inv w →
    inv (Eval.popOutOfOrder first second perform w).2 ∧
      rel w (Eval.popOutOfOrder first second perform w).2

/-- Marking a node for the time of a notification respects a discipline. -/
structure Discipline.Marks {p : Action → Prop} (D : Discipline p) : Prop where
  refuse : ∀ {w id}, w.context.isNotifying id → D.inv w →
    D.inv (w.refuseNotify id) ∧ D.rel w (w.refuseNotify id)
  enter : ∀ {w id}, ¬ w.context.isNotifying id → D.inv w → D.inv (w.enterNotify id)
  leave : ∀ {w w' id}, ¬ w.context.isNotifying id → D.inv w → D.inv w' →
    D.rel (w.enterNotify id) w' → D.inv (w'.leaveNotify id) ∧ D.rel w (w'.leaveNotify id)

section allowed

variable {p : Action → Prop} {w : World}

theorem World.Allowed.modifyContext (h : w.Allowed p) (f : Context → Context) :
    (w.modifyContext f).Allowed p := ⟨h.nodes, h.scopes, h.resources⟩

theorem World.Allowed.popScope (h : w.Allowed p) (s : ScopeId) : (w.popScope s).Allowed p := by
  unfold World.popScope
  split
  · exact ⟨h.nodes, h.scopes, h.resources⟩
  · next e context _ =>
    have hw : World.Allowed p { w with context } := ⟨h.nodes, h.scopes, h.resources⟩
    exact (hw.report .error _ _).modifyContext _

theorem Eval.Bracketing.enter_allowed {enter : World → World} {leave : World → World → World}
    (hb : Bracketing enter leave) (h : w.Allowed p) : (enter w).Allowed p := by
  cases hb <;> exact ⟨h.nodes, h.scopes, h.resources⟩

theorem Eval.Bracketing.leave_allowed {enter : World → World} {leave : World → World → World}
    {w' : World} (hb : Bracketing enter leave) (h : w'.Allowed p) : (leave w w').Allowed p := by
  cases hb with
  | scope s => exact h.popScope s
  | _ => exact ⟨h.nodes, h.scopes, h.resources⟩

theorem Eval.popOutOfOrder_allowed (h : w.Allowed p) (first second : String)
    (perform : Task → Run Value) : (popOutOfOrder first second perform w).2.Allowed p := by
  have added (w : World) (h : w.Allowed p) (name : String) : (w.addRoot name).2.Allowed p :=
    h.addScope (Scope.allowed_new name _ _)
  exact ((((added _ (((added w h first)).modifyContext _) second).modifyContext _).popScope
    _).popScope _)

end allowed

/-- A pop changes nothing in the context but the scopes and the corruption. -/
theorem World.popScope_context (w : World) (s : ScopeId) : ∃ scopes corruption,
    (w.popScope s).context = { w.context with scopes, corruption } := by
  unfold popScope Context.pop
  by_cases h : w.context.current? = some s
  · simp only [if_pos h]
    exact ⟨_, _, rfl⟩
  · simp only [if_neg h, World.modifyContext, World.context_report, Context.noteCorruption]
    exact ⟨_, _, rfl⟩

theorem Eval.popOutOfOrder_context (first second : String) (perform : Task → Run Value)
    (w : World) : ∃ scopes corruption,
      (popOutOfOrder first second perform w).2.context = { w.context with scopes, corruption } := by
  let pushed (w : World) (name : String) : World :=
    (w.addRoot name).2.modifyContext fun c => c.push (w.addRoot name).1
  have hw : (popOutOfOrder first second perform w).2 =
      ((pushed (pushed w first) second).popScope (w.addRoot first).1).popScope
        ((pushed w first).addRoot second).1 := rfl
  obtain ⟨scopes, corruption, h⟩ := World.popScope_context
    ((pushed (pushed w first) second).popScope (w.addRoot first).1)
      ((pushed w first).addRoot second).1
  obtain ⟨scopes', corruption', h'⟩ := World.popScope_context
    (pushed (pushed w first) second) (w.addRoot first).1
  exact ⟨scopes, corruption, by rw [hw, h, h']; rfl⟩

namespace Discipline

variable {p : Action → Prop} (D : Discipline p) {α : Type}

/-- The programs of a world are allowed, and the world satisfies the invariant. -/
structure Good (w : World) : Prop where
  allowed : w.Allowed p
  inv : D.inv w

/-- A run leads from good worlds to good worlds that are related to them. -/
def Keeps (x : Run α) : Prop := ∀ w, D.Good w → D.Good (x w).2 ∧ D.rel w (x w).2

variable {D}

theorem Keeps.of_change {f : World → World} (hf : ∀ w, D.Good w → Change p w (f w)) {w : World}
    (hw : D.Good w) : D.Good (f w) ∧ D.rel w (f w) := by
  have h := D.change (hf w hw) hw.inv
  exact ⟨⟨(hf w hw).allowed hw.allowed, h.1⟩, h.2⟩

end Discipline

open Discipline

variable {p : Action → Prop} {D : Discipline p} {α : Type} {perform : Task → Run Value}

namespace Eval

theorem whileNotifying_of_marked {w : World} {id : NodeId} (h : w.context.isNotifying id)
    (x : Eval Value) :
    whileNotifying id x perform w = (.ok .void, w.refuseNotify id) := by
  simp only [whileNotifying, bind_apply, Eval.context, Eval.world, pure_apply]
  rw [if_pos h]
  rfl

theorem whileNotifying_of_not_marked {w : World} {id : NodeId} (h : ¬ w.context.isNotifying id)
    (x : Eval Value) :
    whileNotifying id x perform w =
      ((x perform (w.enterNotify id)).1, (x perform (w.enterNotify id)).2.leaveNotify id) := by
  simp only [whileNotifying, bind_apply, Eval.context, Eval.world, pure_apply]
  rw [if_neg h]
  rfl

theorem bracket_apply (enter : World → World) (leave : World → World → World) (x : Eval α)
    (w : World) :
    bracket enter leave x perform w =
      ((x perform (enter w)).1, leave w (x perform (enter w)).2) := rfl

/-- A routine keeps a discipline if the tasks that it may ask for do. -/
theorem Routine.keeps {x : Eval α} (hx : Routine p x)
    (hp : ∀ t, t.Allowed p → D.Keeps (perform t)) : D.Keeps (x perform) := by
  induction hx with
  | pure a => exact fun w hw => ⟨hw, D.refl w⟩
  | raise e => exact fun w hw => ⟨hw, D.refl w⟩
  | exhausted => exact fun w hw => ⟨hw, D.refl w⟩
  | @bind α β x f hx hf ihx ihf =>
    intro w hw
    obtain ⟨h₁, r₁⟩ := ihx w hw
    rw [bind_apply]
    split
    · next a w₁ he =>
      rw [he] at h₁ r₁
      obtain ⟨h₂, r₂⟩ := ihf a w₁ h₁
      exact ⟨h₂, D.trans r₁ r₂⟩
    · next i w₁ he =>
      rw [he] at h₁ r₁
      exact ⟨h₁, r₁⟩
  | look hf ih => exact fun w hw => ih w hw.allowed w hw
  | change hf => exact fun w hw => Keeps.of_change (fun w hw => hf w hw.allowed) hw
  | perform ht => exact hp _ ht
  | @attempt α x hx ih =>
    intro w hw
    obtain ⟨h, r⟩ := ih w hw
    simp only [Eval.attempt]
    split <;> (next he => rw [he] at h r; exact ⟨h, r⟩)
  | @bracket α enter leave x hb hx ih =>
    intro w hw
    obtain ⟨h, r⟩ := ih (enter w) ⟨hb.enter_allowed hw.allowed, D.enter hb hw.inv⟩
    have hl := D.leave hb hw.inv h.inv r
    exact ⟨⟨hb.leave_allowed h.allowed, hl.1⟩, hl.2⟩
  | takeCorruption =>
    intro w hw
    have h := D.clearCorruption hw.inv
    exact ⟨⟨hw.allowed.modifyContext fun c => { c with corruption := none }, h.1⟩, h.2⟩
  | popOutOfOrder hp =>
    intro w hw
    have h := D.popOutOfOrder perform hp hw.inv
    exact ⟨⟨popOutOfOrder_allowed hw.allowed _ _ perform, h.1⟩, h.2⟩

/-- A routine does not depend on how tasks are carried out that are not allowed, nor on how tasks
are carried out in worlds that are not good. -/
theorem Routine.agrees {x : Eval α} (hx : Routine p x)
    (hp : ∀ t, t.Allowed p → D.Keeps (perform t)) {other : Task → Run Value}
    (ho : ∀ t w, t.Allowed p → D.Good w → other t w = perform t w) :
    ∀ w, D.Good w → x other w = x perform w := by
  induction hx with
  | @bind α β x f hx hf ihx ihf =>
    intro w hw
    obtain ⟨h₁, -⟩ := hx.keeps hp w hw
    rw [bind_apply, bind_apply, ihx w hw]
    split
    · next a w₁ he =>
      rw [he] at h₁
      exact ihf a w₁ h₁
    · rfl
  | look hf ih => exact fun w hw => ih w hw.allowed w hw
  | perform ht => exact fun w hw => ho _ w ht hw
  | @attempt α x hx ih =>
    intro w hw
    simp only [Eval.attempt, ih w hw]
  | @bracket α enter leave x hb hx ih =>
    intro w hw
    rw [bracket_apply, bracket_apply, ih (enter w) ⟨hb.enter_allowed hw.allowed, D.enter hb hw.inv⟩]
  | _ => exact fun w _ => rfl

/-- A notification keeps a discipline that marking a node respects. -/
theorem keeps_notify (hm : D.Marks) (hp : ∀ t, t.Allowed p → D.Keeps (perform t)) (id : NodeId) :
    D.Keeps (notify id perform) := by
  intro w hw
  unfold notify
  by_cases h : w.context.isNotifying id
  · rw [whileNotifying_of_marked h]
    have hr := hm.refuse h hw.inv
    exact ⟨⟨hw.allowed.modifyContext fun c => c.refuseNotify id, hr.1⟩, hr.2⟩
  · rw [whileNotifying_of_not_marked h]
    obtain ⟨ha, r⟩ := (Protocol.announce id).routine.keeps hp (w.enterNotify id)
      ⟨hw.allowed.modifyContext _, hm.enter h hw.inv⟩
    have hl := hm.leave h hw.inv ha.inv r
    exact ⟨⟨ha.allowed.modifyContext fun c => c.leaveNotify id, hl.1⟩, hl.2⟩

theorem agrees_notify (hm : D.Marks) (hp : ∀ t, t.Allowed p → D.Keeps (perform t))
    {other : Task → Run Value}
    (ho : ∀ t w, t.Allowed p → D.Good w → other t w = perform t w) (id : NodeId) :
    ∀ w, D.Good w → notify id other w = notify id perform w := by
  intro w hw
  unfold notify
  by_cases h : w.context.isNotifying id
  · rw [whileNotifying_of_marked h, whileNotifying_of_marked h]
  · have good : D.Good (w.enterNotify id) :=
      ⟨hw.allowed.modifyContext fun c => c.enterNotify id, hm.enter h hw.inv⟩
    rw [whileNotifying_of_not_marked h, whileNotifying_of_not_marked h,
      (Protocol.announce id).routine.agrees hp ho _ good]

/-- What holds of the routines and of notifications holds of all tasks. -/
theorem step_cases {motive : Task → Prop} (notify : ∀ id, motive (.notify id))
    (routine : ∀ t, (∀ id, t ≠ .notify id) → motive t) (t : Task) : motive t := by
  cases t with
  | notify id => exact notify id
  | _ => exact routine _ fun _ h => by cases h

theorem keeps_step (hm : D.Marks) (hp : ∀ t, t.Allowed p → D.Keeps (perform t)) {t : Task}
    (ht : t.Allowed p) : D.Keeps (step t perform) := by
  cases t using step_cases with
  | notify id => exact keeps_notify hm hp id
  | routine t hn => exact (Protocol.step ht hn).routine.keeps hp

theorem agrees_step (hm : D.Marks) (hp : ∀ t, t.Allowed p → D.Keeps (perform t))
    {other : Task → Run Value}
    (ho : ∀ t w, t.Allowed p → D.Good w → other t w = perform t w) {t : Task}
    (ht : t.Allowed p) : ∀ w, D.Good w → step t other w = step t perform w := by
  cases t using step_cases with
  | notify id => exact agrees_notify hm hp ho id
  | routine t hn => exact (Protocol.step ht hn).routine.agrees hp ho

end Eval

/-- Tasks keep a discipline that marking a node respects, whatever the fuel. -/
theorem Discipline.Marks.keeps_performWith (hm : D.Marks) (fuel : Nat) {t : Task}
    (ht : t.Allowed p) : D.Keeps (performWith fuel t) := by
  induction fuel generalizing t with
  | zero => exact fun w hw => ⟨hw, D.refl w⟩
  | succ fuel ih => exact keeps_step hm (fun t ht => ih ht) ht

theorem Discipline.Marks.keeps_run (hm : D.Marks) (fuel : Nat) {x : Eval α} (hx : Routine p x) :
    D.Keeps (x.run fuel) := hx.keeps fun _ ht => hm.keeps_performWith fuel ht

end ReactiveScript
