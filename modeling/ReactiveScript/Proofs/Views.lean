import ReactiveScript.Proofs.Listeners

/-!
# What a scope sees

The bindings, the callbacks and the error handler that are found from a scope outward. Binding a
name where it is resolved changes this one binding in the view of the scope and nothing else;
registering a callback changes no binding.
-/

namespace ReactiveScript.ScopeTable

variable {t t' : ScopeTable} {s u : ScopeId} {name name' : String}

theorem chain_congr (size : t'.size = t.size)
    (parents : ∀ u : Nat, t'[u]?.map Scope.parent = t[u]?.map Scope.parent) (s : ScopeId) :
    t'.chain s = t.chain s := by
  rw [chain, chain, size]
  generalize t.size = fuel
  induction fuel generalizing s with
  | zero => rfl
  | succ fuel ih =>
    have here := parents s
    rw [chainFrom, chainFrom]
    cases ht : t[s]? with
    | none =>
      rw [ht] at here
      rw [Option.map_eq_none_iff.mp here]
    | some scope =>
      rw [ht] at here
      obtain ⟨scope', ht', hp⟩ := Option.map_eq_some_iff.mp here
      rw [ht']
      simp only [hp, ih]

theorem chain_modify {f : Scope → Scope} (hf : ∀ s, (f s).parent = s.parent) (u : ScopeId) :
    chain (t.modify u f) s = t.chain s := by
  refine chain_congr (by simp) (fun v => ?_) s
  rw [Array.getElem?_modify]
  split
  · cases t[v]? <;> simp [hf]
  · rfl

theorem handler?_modify {f : Scope → Scope} (hp : ∀ s, (f s).parent = s.parent)
    (hf : ∀ s, (f s).handler = s.handler) (u : ScopeId) :
    handler? (t.modify u f) s = t.handler? s := by
  rw [handler?, handler?, chain_modify hp]
  congr 1
  funext v
  rw [Array.getElem?_modify]
  split
  · cases t[v]? <;> simp [hf]
  · rfl

/-- The chain of a scope that exists starts with the scope. -/
theorem chain_eq_cons (hs : s < t.size) : ∃ outer, t.chain s = s :: outer := by
  obtain ⟨fuel, hf⟩ := Nat.exists_eq_succ_of_ne_zero (Nat.ne_of_gt (Nat.zero_lt_of_lt hs))
  have found : t[s]? = some t[s] := Array.getElem?_eq_getElem hs
  rw [chain, hf, chainFrom, found]
  cases hp : t[s].parent with
  | none => exact ⟨[], by simp [hp]⟩
  | some parent => exact ⟨chainFrom t fuel parent, by simp [hp]⟩

section bind

variable {b : Binding}

theorem hasLocal_bind_target (hs : s < t.size) (u : ScopeId) (name' : String) :
    (t.bind (t.targetOf s name) name b).hasLocal u name' =
      (decide (u = t.targetOf s name ∧ name = name') || t.hasLocal u name') := by
  rw [hasLocal, localBinding?_bind]
  by_cases h : t.targetOf s name = u ∧ name = name'
  · rw [if_pos ⟨h.1, h.2, targetOf_lt_size hs name⟩]
    simp [h.1.symm, h.2]
  · rw [if_neg fun hn => h ⟨hn.1, hn.2.1⟩]
    have out : ¬ (u = t.targetOf s name ∧ name = name') := fun hn => h ⟨hn.1.symm, hn.2⟩
    simp [out, hasLocal]

/-- A name that is bound where it is resolved is declared there from then on, and other names are
declared where they were. -/
theorem declaring?_bind_target (hs : s < t.size) (name' : String) :
    (t.bind (t.targetOf s name) name b).declaring? s name' =
      if name = name' then some (t.targetOf s name) else t.declaring? s name' := by
  have chain : (t.bind (t.targetOf s name) name b).chain s = t.chain s :=
    chain_modify (f := fun s => s.bind name b) (fun _ => rfl) _
  rw [declaring?, chain]
  simp only [hasLocal_bind_target hs]
  split
  · next he =>
    subst he
    simp only [and_true]
    cases hd : t.declaring? s name with
    | none =>
      have target : t.targetOf s name = s := by simp [targetOf, hd]
      obtain ⟨outer, hc⟩ := chain_eq_cons hs
      simp [hc, target]
    | some u =>
      have target : t.targetOf s name = u := by simp [targetOf, hd]
      obtain ⟨hu, before, after, hc, unbound⟩ := List.find?_eq_some_iff_append.mp hd
      rw [target]
      refine List.find?_eq_some_iff_append.mpr ⟨by simp, before, after, hc, fun v hv => ?_⟩
      have ne : v ≠ u := by
        rintro rfl
        simpa [hu] using unbound v hv
      simpa [ne] using unbound v hv
  · next hne => simp [hne, declaring?]

theorem targetOf_bind_target (hs : s < t.size) (name' : String) :
    (t.bind (t.targetOf s name) name b).targetOf s name' = t.targetOf s name' := by
  rw [targetOf, declaring?_bind_target hs]
  split
  · next he => rw [he]; rfl
  · rfl

/-- A scope sees the new value of a name that is bound where it is resolved. -/
theorem binding?_bind_target (hs : s < t.size) (name' : String) :
    (t.bind (t.targetOf s name) name b).binding? s name' =
      if name = name' then some b else t.binding? s name' := by
  have lt := targetOf_lt_size hs name
  rw [binding?, declaring?_bind_target hs]
  split
  · next he =>
    subst he
    exact localBinding?_bind_self lt b
  · next hne =>
    refine Option.bind_congr fun u _ => ?_
    exact localBinding?_bind_of_ne (fun h => hne h.2) b

theorem registered_bind (t : ScopeTable) (u s : ScopeId) (name name' : String) (b : Binding) :
    (t.bind u name b).registered s name' = t.registered s name' := by
  simp only [registered, ScopeTable.bind, Array.getElem?_modify]
  split
  · cases t[s]? <;> rfl
  · rfl

end bind

/-- What a name is bound to is found where the name is resolved. -/
theorem localBinding?_targetOf (hs : s < t.size) (name : String) :
    t.localBinding? (t.targetOf s name) name = t.binding? s name := by
  cases hd : t.declaring? s name with
  | some u => simp [targetOf, binding?, hd]
  | none =>
    obtain ⟨outer, hc⟩ := chain_eq_cons hs
    have unbound : t.hasLocal s name = false := by
      have := List.find?_eq_none.mp hd s (by simp [hc])
      simpa using this
    simpa [targetOf, binding?, hd, hasLocal] using unbound

section listen

variable {key : String} {callback : Callback}

theorem localBinding?_listen (u s : ScopeId) (name' : String) :
    localBinding? (t.modify u fun scope => scope.listen name key callback) s name' =
      t.localBinding? s name' := by
  simp only [localBinding?, Array.getElem?_modify]
  split
  · cases t[s]? <;> rfl
  · rfl

theorem declaring?_listen (u : ScopeId) (name' : String) :
    declaring? (t.modify u fun scope => scope.listen name key callback) s name' =
      t.declaring? s name' := by
  rw [declaring?, chain_modify (f := fun scope => scope.listen name key callback) fun _ => rfl]
  simp only [hasLocal, localBinding?_listen, declaring?]

theorem targetOf_listen (u : ScopeId) (name' : String) :
    targetOf (t.modify u fun scope => scope.listen name key callback) s name' =
      t.targetOf s name' := by
  rw [targetOf, declaring?_listen, targetOf]

theorem binding?_listen (u : ScopeId) (name' : String) :
    binding? (t.modify u fun scope => scope.listen name key callback) s name' =
      t.binding? s name' := by
  rw [binding?, declaring?_listen]
  simp only [localBinding?_listen, binding?]

end listen

end ReactiveScript.ScopeTable
