import ReactiveScript.Evaluation.Step
import ReactiveScript.Proofs.Attempts

/-!
# What an assignment changes

An assignment whose predicate and listeners have no effect on scopes changes what one name is bound
to in one scope: in the given scope if it declares, else in the nearest scope outward that binds the
name, else in the given one. Whoever looks up another name, or looks up the name from where another
scope is the nearest one that binds it, finds what was there before.
-/

namespace ReactiveScript

open Eval

/-- What was bound and published stays; scopes may have been added. -/
structure World.KeepsStore (w w' : World) : Prop where
  scopes : w.scopes.Preserves w'.scopes
  exports : w'.exports = w.exports

namespace World.KeepsStore

variable {w w' w'' : World}

theorem refl (w : World) : w.KeepsStore w := ⟨.refl _, rfl⟩

theorem trans (h : w.KeepsStore w') (h' : w'.KeepsStore w'') : w.KeepsStore w'' :=
  ⟨h.scopes.trans h'.scopes, h'.exports.trans h.exports⟩

theorem of_sameStore (h : w.SameStore w') : w.KeepsStore w' :=
  ⟨by rw [h.scopes]; exact .refl _, h.exports⟩

theorem inCheck (w : World) (target : ScopeId) (value previous : Value) (c : Constraint) :
    w.KeepsStore (w.inCheck target value previous c) :=
  ⟨(w.quiet_inCheck target value previous c).toPreserves, rfl⟩

end World.KeepsStore

namespace BindAttempt

variable {perform : Task → Run Value} {a : BindAttempt} {w : World}

/-- Evaluating the predicate of the constraint, if there is one, has no effect on the store. -/
def HarmlessCheck (a : BindAttempt) (perform : Task → Run Value) (w : World) : Prop :=
  ∀ c, a.binding.constraint = some c →
    (w.inCheck a.target a.value a.previous c).KeepsStore
      (truthy c.predicate perform (w.inCheck a.target a.value a.previous c)).2

/-- Handing the value to the listeners has no effect on the store. -/
def HarmlessListeners (a : BindAttempt) (perform : Task → Run Value) (w : World) : Prop :=
  (a.write w).KeepsStore (a.announce perform (a.write w)).2

theorem HarmlessCheck.evaluated (h : a.HarmlessCheck perform w) {c : Constraint}
    {r : Except Interrupt Bool} {u w' : World} (hc : a.binding.constraint = some c)
    (he : truthy c.predicate perform (w.inCheck a.target a.value a.previous c) = (r, u))
    (same : u.SameStore w') : w.KeepsStore w' := by
  have harmless := h c hc
  rw [he] at harmless
  exact ((World.KeepsStore.inCheck w _ _ _ c).trans harmless).trans (.of_sameStore same)

theorem check_keepsStore (h : a.HarmlessCheck perform w) :
    w.KeepsStore (a.check perform w).2 := by
  have ends : a.CheckEnds perform w (a.check perform w).1 (a.check perform w).2 := a.check_ends w
  generalize (a.check perform w).1 = r, (a.check perform w).2 = w' at ends ⊢
  cases ends with
  | void => exact .refl _
  | mismatch _ _ _ _ same => exact .of_sameStore same
  | unconstrained => exact .refl _
  | holds _ _ hc he same => exact h.evaluated hc he same
  | violated _ _ hc he same => exact h.evaluated hc he same
  | failed _ _ hc he same => exact h.evaluated hc he same

end BindAttempt

/-- The scope that a name is bound in: the nearest one outward that binds it, else the given one. -/
theorem ScopeTable.targetOf_cases {t : ScopeTable} {s : ScopeId} (tree : t.IsTreeUpTo s)
    (hs : s < t.size) (name : String) :
    t.Nearest name s (t.targetOf s name) ∨
      (∀ u, ¬ t.Nearest name s u) ∧ t.targetOf s name = s := by
  unfold targetOf
  cases hd : t.declaring? s name with
  | some u => exact .inl ((declaring?_eq_some_iff tree hs).mp hd)
  | none =>
    refine .inr ⟨fun u hu => ?_, rfl⟩
    cases hd.symm.trans ((declaring?_eq_some_iff tree hs).mpr hu)

/-- One name is bound in one scope, and everything else stays. -/
structure ScopeTable.Binds (t t' : ScopeTable) (target : ScopeId) (name : String) (b : Binding) :
    Prop where
  size_le : t.size ≤ t'.size
  parent : ∀ s < t.size, t'.parent? s = t.parent? s
  bound : t'.localBinding? target name = some b
  others : ∀ s < t.size, ∀ name', ¬ (s = target ∧ name' = name) →
    t'.localBinding? s name' = t.localBinding? s name'

namespace ScopeTable.Binds

variable {t t' : ScopeTable} {target s : ScopeId} {name name' : String} {b : Binding}

/-- Scopes are added before a name is bound, and afterwards. -/
theorem of_preserves {u : ScopeTable} (before : t.Preserves u) (ht : target < t.size)
    (after : (u.bind target name b).Preserves t') : t.Binds t' target name b where
  size_le := Nat.le_trans before.size_le (by simpa using after.size_le)
  parent s hs := by
    rw [after.parent s (by simpa using Nat.lt_of_lt_of_le hs before.size_le), parent?_bind,
      before.parent s hs]
  bound := by
    have hu : target < u.size := Nat.lt_of_lt_of_le ht before.size_le
    rw [after.binding target (by simpa using hu), localBinding?_bind_self hu]
  others s hs name' hne := by
    have hu : s < u.size := Nat.lt_of_lt_of_le hs before.size_le
    rw [after.binding s (by simpa using hu),
      localBinding?_bind_of_ne fun ⟨ht, hn⟩ => hne ⟨ht.symm, hn.symm⟩, before.binding s hs]

theorem isTreeUpTo (h : t.Binds t' target name b) (hs : s < t.size) (tree : t.IsTreeUpTo s) :
    t'.IsTreeUpTo s := by
  intro u hu outer hp
  rw [h.parent u (Nat.lt_of_le_of_lt hu hs)] at hp
  exact tree u hu outer hp

theorem find?_target (h : t.Binds t' target name b) (hs : s < t.size) (tree : t.IsTreeUpTo s)
    (hn : t'.Nearest name s target) : t'.find? s name = some b.value := by
  rw [hn.find?_eq (h.isTreeUpTo hs tree) (Nat.lt_of_lt_of_le hs h.size_le), h.bound]
  rfl

/-- Everything else that is looked up is found as it was before. -/
theorem find?_eq (h : t.Binds t' target name b) (hs : s < t.size) (tree : t.IsTreeUpTo s)
    (hn : ¬ (name' = name ∧ t'.Nearest name s target)) : t'.find? s name' = t.find? s name' := by
  refine find?_eq_of_same tree hs h.size_le h.parent fun u hu => ?_
  by_cases hc : u = target ∧ name' = name
  · obtain ⟨rfl, rfl⟩ := hc
    refine .inr ⟨?_, fun hn' => hn ⟨rfl, hn'⟩⟩
    simp [hasLocal, h.bound]
  · exact .inl (h.others u hu name' hc)

/-- The scope that the name is bound in is the nearest one from where the assignment was made. -/
theorem nearest_target (h : t.Binds t' target name b)
    (ht : t.Nearest name s target ∨ target = s) : t'.Nearest name s target := by
  have bound : t'.hasLocal target name := by simp [hasLocal, h.bound]
  rcases ht with ht | rfl
  · refine ht.of_same h.parent (fun u hu hne => ?_) bound
    rw [hasLocal, h.others u hu name fun same => hne same.1, hasLocal]
  · exact .here bound

end ScopeTable.Binds

theorem ScopeTable.Nearest.le {t : ScopeTable} {name : String} {s u : ScopeId}
    (h : t.Nearest name s u) (tree : t.IsTreeUpTo s) : u ≤ s := by
  induction h with
  | here => exact Nat.le_refl _
  | @outward s outer u _ hp _ ih =>
    have before : outer ≤ s := Nat.le_of_lt (tree s (Nat.le_refl s) outer hp)
    exact Nat.le_trans (ih (tree.outward before)) before

theorem World.target_attempt {w : World} {s : ScopeId} (tree : w.scopes.IsTreeUpTo s)
    (hs : s < w.scopes.size) (name : String) (value : Value) (options : BindOptions) :
    let target := (w.attempt s name value options).target
    if options.declare then target = s
    else w.scopes.Nearest name s target ∨ (∀ u, ¬ w.scopes.Nearest name s u) ∧ target = s := by
  by_cases hd : options.declare
  · simp [attempt, hd]
  · simpa [attempt, hd] using ScopeTable.targetOf_cases tree hs name

theorem World.target_attempt_le {w : World} {s : ScopeId} (tree : w.scopes.IsTreeUpTo s)
    (hs : s < w.scopes.size) (name : String) (value : Value) (options : BindOptions) :
    (w.attempt s name value options).target ≤ s := by
  have resolved := target_attempt tree hs name value options
  dsimp only at resolved
  split at resolved
  · exact Nat.le_of_eq resolved
  · exact resolved.elim (fun hn => hn.le tree) fun ⟨_, he⟩ => Nat.le_of_eq he

/-- A successful assignment binds the value in its target, and changes no other binding. -/
theorem Eval.bindName_binds {perform : Task → Run Value} {s : ScopeId} {name : String}
    {v r : Value} {options : BindOptions} {w w' : World}
    (ht : (w.attempt s name v options).target < w.scopes.size)
    (check : (w.attempt s name v options).HarmlessCheck perform w)
    (listeners : ∀ u, (w.attempt s name v options).check perform w = (.ok (), u) →
      (w.attempt s name v options).HarmlessListeners perform u)
    (h : Eval.bind s name v options perform w = (.ok r, w')) :
    r = v ∧ w.scopes.Binds w'.scopes (w.attempt s name v options).target name
      (w.attempt s name v options).binding := by
  have ends : (w.attempt s name v options).Ends perform
      (Eval.bind s name v options perform w).1 (Eval.bind s name v options perform w).2 :=
    bindName_ends s name v options w
  rw [h] at ends
  cases ends with
  | @bound u _ _ checked _ announced =>
    have passed : (w.attempt s name v options).check perform w = (.ok (), u) := checked
    have before := BindAttempt.check_keepsStore check
    have after := listeners u passed
    rw [passed] at before
    rw [BindAttempt.HarmlessListeners, announced] at after
    exact ⟨rfl, .of_preserves before.scopes ht after.scopes⟩

/-- A successful assignment resolves its target, binds the value there and nowhere else, and is seen
exactly by those who look the name up from where the target is the nearest scope that binds it. -/
theorem assignment_resolves_and_frames (fuel : Nat) {s : ScopeId} {name : String} {v r : Value}
    {options : BindOptions} {w w' : World} (tree : w.scopes.IsTree) (hs : s < w.scopes.size)
    (check : (w.attempt s name v options).HarmlessCheck (performWith fuel) w)
    (listeners : ∀ u, (w.attempt s name v options).check.run fuel w = (.ok (), u) →
      (w.attempt s name v options).HarmlessListeners (performWith fuel) u)
    (h : (Eval.bind s name v options).run fuel w = (.ok r, w')) :
    ∃ target,
      (if options.declare then target = s else w.scopes.Nearest name s target ∨
        (∀ u, ¬ w.scopes.Nearest name s u) ∧ target = s) ∧
      (∃ b, w'.scopes.localBinding? target name = some b ∧ b.value = v) ∧
      (∀ t < w.scopes.size, ∀ name', ¬ (t = target ∧ name' = name) →
        w'.scopes.localBinding? t name' = w.scopes.localBinding? t name') ∧
      r = v ∧ w'.scopes.find? s name = some v ∧
      ∀ t < w.scopes.size, (w'.scopes.Nearest name t target → w'.scopes.find? t name = some v) ∧
        ∀ name', ¬ (name' = name ∧ w'.scopes.Nearest name t target) →
          w'.scopes.find? t name' = w.scopes.find? t name' := by
  let target := (w.attempt s name v options).target
  have resolved := World.target_attempt (tree.upTo s) hs name v options
  have nearest : w.scopes.Nearest name s target ∨ target = s := by
    dsimp only at resolved
    split at resolved
    · exact .inr resolved
    · exact resolved.imp_right And.right
  have ht : target < w.scopes.size :=
    Nat.lt_of_le_of_lt (World.target_attempt_le (tree.upTo s) hs name v options) hs
  obtain ⟨hr, binds⟩ := bindName_binds ht check listeners h
  refine ⟨target, resolved, ⟨_, binds.bound, rfl⟩, binds.others, hr, ?_, fun t ht' => ⟨?_, ?_⟩⟩
  · exact binds.find?_target hs (tree.upTo s) (binds.nearest_target nearest)
  · exact binds.find?_target ht' (tree.upTo t)
  · exact fun name' hn => binds.find?_eq ht' (tree.upTo t) hn

/-- A root, a scope two levels below it, and another one that has a variable of its own. -/
def family : World :=
  { scopes := #[
      { name := "root", parent := none, bindings := [("x", { value := .int 1 })] },
      { name := "middle", parent := some 0 },
      { name := "inner", parent := some 1 },
      { name := "aside", parent := some 0, bindings := [("x", { value := .int 7 })] }] }

theorem family_isTree : family.scopes.IsTree := by
  intro s parent h
  match s with
  | 0 => cases h
  | 1 => cases h; decide
  | 2 => cases h; decide
  | 3 => cases h; decide
  | s + 4 => cases h

theorem inner_assignment_spares_aside :
    ∃ w', (Eval.bind 2 "x" (.int 5) {}).run 0 family = (.ok (.int 5), w') ∧
      w'.scopes.find? 2 "x" = some (.int 5) ∧
      w'.scopes.localBinding? 3 "x" = family.scopes.localBinding? 3 "x" := by
  have check : (family.attempt 2 "x" (.int 5) {}).HarmlessCheck (performWith 0) family :=
    fun c hc => by cases hc
  have listeners : ∀ u, (family.attempt 2 "x" (.int 5) {}).check.run 0 family = (.ok (), u) →
      (family.attempt 2 "x" (.int 5) {}).HarmlessListeners (performWith 0) u := by
    rintro u ⟨⟩
    exact .refl _
  obtain ⟨target, resolved, -, others, -, found, -⟩ :=
    assignment_resolves_and_frames 0 family_isTree (show 2 < 4 by decide) check listeners rfl
  have le : target ≤ 2 :=
    resolved.elim (fun hn => hn.le (family_isTree.upTo 2)) fun ⟨_, he⟩ => Nat.le_of_eq he
  have ne : ¬ (3 = target ∧ "x" = "x") := fun ⟨he, _⟩ => absurd (he ▸ le) (by decide)
  exact ⟨_, rfl, found, others 3 (show 3 < 4 by decide) "x" ne⟩

end ReactiveScript
