import ReactiveScript.Scope

/-!
# Tables of scopes

What the operations on a table of scopes do to the bindings of its scopes. A table that was only
added to preserves the bindings and the parents of the scopes that were there. The nearest scope
outward that binds a name is described apart from the chain that the look-up walks along, and in a
table in which parents stand before their children the look-up finds exactly that scope.
-/

namespace ReactiveScript

/-- What a parameter is bound to. -/
def Binding.parameter (v : Value) : Binding := { value := v, flags := { isParameter := true } }

namespace ScopeTable

variable {t t' t'' : ScopeTable} {s u : ScopeId} {name : String}

def parent? (t : ScopeTable) (s : ScopeId) : Option ScopeId := t[s]?.bind Scope.parent

def IsConst (t : ScopeTable) (s : ScopeId) (name : String) : Prop :=
  ∃ b, t.localBinding? s name = some b ∧ b.flags.isConst

@[simp] theorem size_bind (t : ScopeTable) (s : ScopeId) (name : String) (b : Binding) :
    (t.bind s name b).size = t.size := by simp [bind]

@[simp] theorem parent?_bind (t : ScopeTable) (s u : ScopeId) (name : String) (b : Binding) :
    (t.bind s name b).parent? u = t.parent? u := by
  by_cases h : s = u
  · cases hu : t[u]? <;> simp [parent?, bind, Array.getElem?_modify, h, hu, Scope.bind]
  · simp [parent?, bind, Array.getElem?_modify, h]

theorem localBinding?_of_size_le (h : t.size ≤ s) : t.localBinding? s name = none := by
  simp [localBinding?, Array.getElem?_eq_none h]

theorem lt_size_of_localBinding? {b : Binding} (h : t.localBinding? s name = some b) :
    s < t.size := by
  refine Nat.lt_of_not_le fun hle => ?_
  rw [localBinding?_of_size_le hle] at h
  cases h

/-- A binding is seen in its scope and under its name only. -/
theorem localBinding?_bind (t : ScopeTable) (s u : ScopeId) (name name' : String) (b : Binding) :
    (t.bind s name b).localBinding? u name' =
      if s = u ∧ name = name' ∧ s < t.size then some b else t.localBinding? u name' := by
  simp only [localBinding?, bind, Array.getElem?_modify]
  by_cases hs : s = u
  · subst hs
    rw [if_pos rfl]
    cases ht : t[s]? with
    | none =>
      have hge : t.size ≤ s := Array.getElem?_eq_none_iff.mp ht
      simp [Nat.not_lt.mpr hge]
    | some scope =>
      obtain ⟨hlt, -⟩ := Array.getElem?_eq_some_iff.mp ht
      simp [hlt, Scope.binding?, Scope.bind, OrderedMap.find?_insert]
  · simp [hs]

theorem localBinding?_bind_self (h : s < t.size) (b : Binding) :
    (t.bind s name b).localBinding? s name = some b := by
  rw [localBinding?_bind, if_pos ⟨rfl, rfl, h⟩]

theorem localBinding?_bind_of_ne {name' : String} (h : ¬ (s = u ∧ name = name')) (b : Binding) :
    (t.bind s name b).localBinding? u name' = t.localBinding? u name' := by
  rw [localBinding?_bind, if_neg fun ⟨hs, hn, _⟩ => h ⟨hs, hn⟩]

theorem localBinding?_push (t : ScopeTable) (new : Scope) (u : ScopeId) (name : String) :
    localBinding? (t.push new) u name =
      if u = t.size then new.binding? name else t.localBinding? u name := by
  by_cases h : u = t.size <;> simp [localBinding?, Array.getElem?_push, h]

theorem parent?_push (t : ScopeTable) (new : Scope) (u : ScopeId) :
    parent? (t.push new) u = if u = t.size then new.parent else t.parent? u := by
  by_cases h : u = t.size <;> simp [parent?, Array.getElem?_push, h]

/-- The scopes of a table keep their bindings and their parents in another one. -/
structure Preserves (t t' : ScopeTable) : Prop where
  size_le : t.size ≤ t'.size
  parent : ∀ s < t.size, t'.parent? s = t.parent? s
  binding : ∀ s < t.size, ∀ name, t'.localBinding? s name = t.localBinding? s name

theorem Preserves.refl (t : ScopeTable) : t.Preserves t :=
  ⟨Nat.le_refl _, fun _ _ => rfl, fun _ _ _ => rfl⟩

theorem Preserves.trans (h : t.Preserves t') (h' : t'.Preserves t'') : t.Preserves t'' where
  size_le := Nat.le_trans h.size_le h'.size_le
  parent s hs := (h'.parent s (Nat.lt_of_lt_of_le hs h.size_le)).trans (h.parent s hs)
  binding s hs name :=
    (h'.binding s (Nat.lt_of_lt_of_le hs h.size_le) name).trans (h.binding s hs name)

theorem Preserves.push (t : ScopeTable) (new : Scope) : t.Preserves (t.push new) where
  size_le := by simp
  parent s hs := by rw [parent?_push, if_neg (Nat.ne_of_lt hs)]
  binding s hs name := by rw [localBinding?_push, if_neg (Nat.ne_of_lt hs)]

/-- A table is added to: its scopes are preserved, and new ones bind parameters only. -/
structure Quiet (t t' : ScopeTable) : Prop extends Preserves t t' where
  fresh : ∀ s name b, t.size ≤ s → t'.localBinding? s name = some b →
    ∃ v, b = Binding.parameter v

theorem Quiet.refl (t : ScopeTable) : t.Quiet t where
  toPreserves := .refl t
  fresh s name b hs hb := by simp [localBinding?_of_size_le hs] at hb

theorem Quiet.trans (h : t.Quiet t') (h' : t'.Quiet t'') : t.Quiet t'' where
  toPreserves := h.toPreserves.trans h'.toPreserves
  fresh s name b hs hb := by
    rcases Nat.lt_or_ge s t'.size with hlt | hge
    · rw [h'.binding s hlt] at hb
      exact h.fresh s name b hs hb
    · exact h'.fresh s name b hge hb

theorem Quiet.push (t : ScopeTable) {new : Scope}
    (h : ∀ name b, new.binding? name = some b → ∃ v, b = Binding.parameter v) :
    t.Quiet (t.push new) where
  toPreserves := .push t new
  fresh s name b hs hb := by
    rw [localBinding?_push] at hb
    split at hb
    · exact h name b hb
    · simp [localBinding?_of_size_le hs] at hb

/-- A change of scopes other than of their bindings and parents. -/
theorem Quiet.modify (t : ScopeTable) (s : ScopeId) {f : Scope → Scope}
    (hp : ∀ s, (f s).parent = s.parent) (hb : ∀ s, (f s).bindings = s.bindings) :
    t.Quiet (t.modify s f) := by
  have binding (u : ScopeId) (name : String) :
      localBinding? (t.modify s f) u name = t.localBinding? u name := by
    by_cases h : s = u
    · cases hu : t[u]? <;>
        simp [localBinding?, Array.getElem?_modify, h, hu, Scope.binding?, hb]
    · simp [localBinding?, Array.getElem?_modify, h]
  refine ⟨⟨by simp, fun u _ => ?_, fun u _ name => binding u name⟩, fun u name b hu hf => ?_⟩
  · by_cases h : s = u
    · cases hu : t[u]? <;> simp [parent?, Array.getElem?_modify, h, hu, hp]
    · simp [parent?, Array.getElem?_modify, h]
  · rw [binding, localBinding?_of_size_le hu] at hf
    cases hf

theorem Quiet.bind (h : t.Quiet t') (hs : t.size ≤ s) (name : String) (v : Value) :
    t.Quiet (t'.bind s name (.parameter v)) where
  size_le := by simpa using h.size_le
  parent u hu := by rw [parent?_bind, h.parent u hu]
  binding u hu name' := by
    rw [localBinding?_bind_of_ne fun ⟨he, _⟩ => Nat.not_lt.mpr hs (he ▸ hu), h.binding u hu]
  fresh u name' b hu hb := by
    rw [localBinding?_bind] at hb
    split at hb
    · exact ⟨v, (Option.some.inj hb).symm⟩
    · exact h.fresh u name' b hu hb

/-- Parents stand before their children. -/
def IsTree (t : ScopeTable) : Prop := ∀ s parent, t.parent? s = some parent → parent < s

/-- Parents stand before their children among the scopes up to one; these are all that can be
reached from it. -/
def IsTreeUpTo (t : ScopeTable) (s : ScopeId) : Prop :=
  ∀ u ≤ s, ∀ parent, t.parent? u = some parent → parent < u

theorem IsTree.upTo (h : t.IsTree) (s : ScopeId) : t.IsTreeUpTo s := fun u _ => h u

theorem IsTreeUpTo.outward (h : t.IsTreeUpTo s) {outer : ScopeId} (le : outer ≤ s) :
    t.IsTreeUpTo outer := fun u hu => h u (Nat.le_trans hu le)

theorem Preserves.isTreeUpTo (h : t.Preserves t') (hs : s < t.size) (tree : t.IsTreeUpTo s) :
    t'.IsTreeUpTo s := by
  intro u hu parent hp
  rw [h.parent u (Nat.lt_of_le_of_lt hu hs)] at hp
  exact tree u hu parent hp

/-- The nearest scope outward from one that binds a name. -/
inductive Nearest (t : ScopeTable) (name : String) : ScopeId → ScopeId → Prop where
  | here {s : ScopeId} (h : t.hasLocal s name) : Nearest t name s s
  | outward {s parent u : ScopeId} (h : ¬ t.hasLocal s name) (hp : t.parent? s = some parent)
      (hn : Nearest t name parent u) : Nearest t name s u

theorem Nearest.hasLocal (h : t.Nearest name s u) : t.hasLocal u name := by
  induction h with
  | here h => exact h
  | outward _ _ _ ih => exact ih

theorem nearest_iff_here (h : t.hasLocal s name) : t.Nearest name s u ↔ s = u := by
  refine ⟨fun hn => ?_, fun he => he ▸ .here h⟩
  cases hn with
  | here _ => rfl
  | outward hl => exact absurd h hl

theorem nearest_iff_outward {outer : ScopeId} (h : ¬ t.hasLocal s name)
    (hp : t.parent? s = some outer) : t.Nearest name s u ↔ t.Nearest name outer u := by
  refine ⟨fun hn => ?_, .outward h hp⟩
  cases hn with
  | here hl => exact absurd hl h
  | outward _ hq hn =>
    cases hp.symm.trans hq
    exact hn

theorem not_nearest_of_root (h : ¬ t.hasLocal s name) (hp : t.parent? s = none) :
    ¬ t.Nearest name s u := by
  intro hn
  cases hn with
  | here hl => exact h hl
  | outward _ hq _ =>
    rw [hp] at hq
    cases hq

theorem lt_size_of_parent? {parent : ScopeId} (h : t.parent? s = some parent) : s < t.size := by
  refine Nat.lt_of_not_le fun hle => ?_
  simp [parent?, Array.getElem?_eq_none hle] at h

/-- The induction is on the fuel of the chain, which a scope with a smaller number never uses up. -/
theorem find?_chainFrom (tree : t.IsTreeUpTo s) {fuel : Nat} (hs : s < fuel) :
    ((t.chainFrom fuel s).find? fun s => t.hasLocal s name) = some u ↔ t.Nearest name s u := by
  induction fuel generalizing s with
  | zero => exact absurd hs (Nat.not_lt_zero s)
  | succ fuel ih =>
    cases hts : t[s]? with
    | none =>
      have unbound : ¬ t.hasLocal s name := by simp [hasLocal, localBinding?, hts]
      have alone : t.parent? s = none := by simp [parent?, hts]
      simp only [chainFrom, hts, List.find?_nil]
      exact iff_of_false nofun (not_nearest_of_root unbound alone)
    | some scope =>
      have parent : t.parent? s = scope.parent := by simp [parent?, hts]
      by_cases hl : t.hasLocal s name
      · have found : ((t.chainFrom (fuel + 1) s).find? fun s => t.hasLocal s name) = some s := by
          simp only [chainFrom, hts]
          split <;> simp [hl]
        rw [found, nearest_iff_here hl]
        exact Option.some_inj
      · cases hp : scope.parent with
        | none =>
          simp only [chainFrom, hts, hp, List.find?_cons, hl, List.find?_nil]
          exact iff_of_false nofun (not_nearest_of_root hl (parent.trans hp))
        | some outer =>
          have before : outer < s := tree s (Nat.le_refl s) outer (parent.trans hp)
          simp only [chainFrom, hts, hp, List.find?_cons, hl]
          rw [ih (tree.outward (Nat.le_of_lt before))
            (Nat.lt_of_lt_of_le before (Nat.le_of_lt_succ hs))]
          exact (nearest_iff_outward hl (parent.trans hp)).symm

theorem declaring?_eq_some_iff (tree : t.IsTreeUpTo s) (hs : s < t.size) :
    t.declaring? s name = some u ↔ t.Nearest name s u := find?_chainFrom tree hs

/-- The value of a name is that of the nearest scope that binds it. -/
theorem Nearest.find?_eq (tree : t.IsTreeUpTo s) (hs : s < t.size) (h : t.Nearest name s u) :
    t.find? s name = (t.localBinding? u name).map Binding.value := by
  simp [find?, binding?, (declaring?_eq_some_iff tree hs).mpr h]

theorem find?_of_localBinding? {b : Binding} (h : t.localBinding? s name = some b) :
    t.find? s name = some b.value := by
  have hs := lt_size_of_localBinding? h
  have found : t.declaring? s name = some s := by
    obtain ⟨n, hn⟩ := Nat.exists_eq_succ_of_ne_zero (Nat.ne_of_gt (Nat.zero_lt_of_lt hs))
    have hl : t.hasLocal s name = true := by simp [hasLocal, h]
    have ht : t[s]? = some t[s] := Array.getElem?_eq_getElem hs
    simp only [declaring?, chain, hn, chainFrom, ht]
    split <;> simp [hl]
  simp [find?, binding?, found, h]

section nearest

variable {target : ScopeId}

/-- The nearest scope stays the nearest one if what the scopes before it bind does not change. -/
theorem Nearest.of_same (h : t.Nearest name s u)
    (parent : ∀ x < t.size, t'.parent? x = t.parent? x)
    (same : ∀ x < t.size, x ≠ u → t'.hasLocal x name = t.hasLocal x name)
    (bound : t'.hasLocal u name) : t'.Nearest name s u := by
  induction h with
  | here _ => exact .here bound
  | @outward s outer u h hp hn ih =>
    have hs : s < t.size := lt_size_of_parent? hp
    have ne : s ≠ u := fun he => h (he ▸ hn.hasLocal)
    exact .outward (by rwa [same s hs ne]) ((parent s hs).trans hp) (ih same bound)

/-- If the scopes that bind a name differently do so without being the nearest one, the nearest
scope is the same and binds the name as before. -/
theorem nearest_iff_of_same (tree : t.IsTreeUpTo s) (hs : s < t.size)
    (parent : ∀ x < t.size, t'.parent? x = t.parent? x)
    (same : ∀ x < t.size, t'.localBinding? x name = t.localBinding? x name ∨
      t'.hasLocal x name ∧ ¬ t'.Nearest name s x) (u : ScopeId) :
    (t'.Nearest name s u ↔ t.Nearest name s u) ∧
      (t.Nearest name s u → t'.localBinding? u name = t.localBinding? u name) := by
  induction s using Nat.strongRecOn with
  | ind s ih =>
    have here : t'.localBinding? s name = t.localBinding? s name :=
      (same s hs).resolve_right fun ⟨hl, hn⟩ => hn (.here hl)
    have hasHere : t'.hasLocal s name = t.hasLocal s name := by rw [hasLocal, here, hasLocal]
    by_cases hl : t.hasLocal s name
    · have hl' : t'.hasLocal s name := by rwa [hasHere]
      rw [nearest_iff_here hl, nearest_iff_here hl']
      exact ⟨Iff.rfl, fun h => h ▸ here⟩
    · have hl' : ¬ t'.hasLocal s name := by rwa [hasHere]
      cases hp : t.parent? s with
      | none =>
        have none := not_nearest_of_root (u := u) hl hp
        have none' := not_nearest_of_root (u := u) hl' ((parent s hs).trans hp)
        exact ⟨iff_of_false none' none, fun h => absurd h none⟩
      | some outer =>
        have hp' : t'.parent? s = some outer := (parent s hs).trans hp
        have before : outer < s := tree s (Nat.le_refl s) outer hp
        rw [nearest_iff_outward hl hp, nearest_iff_outward hl' hp']
        refine ih outer before (tree.outward (Nat.le_of_lt before)) (Nat.lt_trans before hs) ?_
        exact fun x hx => (same x hx).imp_right fun ⟨bound, hn⟩ =>
          ⟨bound, fun h => hn (.outward hl' hp' h)⟩

/-- The value of a name does not change then. -/
theorem find?_eq_of_same (tree : t.IsTreeUpTo s) (hs : s < t.size) (size_le : t.size ≤ t'.size)
    (parent : ∀ x < t.size, t'.parent? x = t.parent? x)
    (same : ∀ x < t.size, t'.localBinding? x name = t.localBinding? x name ∨
      t'.hasLocal x name ∧ ¬ t'.Nearest name s x) : t'.find? s name = t.find? s name := by
  have tree' : t'.IsTreeUpTo s := fun u hu outer hp =>
    tree u hu outer (parent u (Nat.lt_of_le_of_lt hu hs) ▸ hp)
  have hs' : s < t'.size := Nat.lt_of_lt_of_le hs size_le
  have nearest := nearest_iff_of_same tree hs parent same
  have found : t'.declaring? s name = t.declaring? s name := by
    ext u
    rw [declaring?_eq_some_iff tree' hs', declaring?_eq_some_iff tree hs]
    exact (nearest u).1
  rw [find?, binding?, found, find?, binding?]
  cases hd : t.declaring? s name with
  | none => rfl
  | some u =>
    have bound := (nearest u).2 ((declaring?_eq_some_iff tree hs).mp hd)
    exact congrArg (Option.map Binding.value) bound

end nearest

end ScopeTable
end ReactiveScript
